import Ecma.Text.Blank
import Ecma.Text.Source

set_option autoImplicit false

/-!
Parsing expressions and what it means for one to match. A grammar gives every rule a kind and a
body. A rule that matches leaves a node with its place and its parts; between the items of a
sequence and of a repetition, layout (white space and comments) is skipped where the rule in force
allows it. Along with the match goes the furthest place at which a rule was tried in vain, which is
where a syntax error is reported.
-/

namespace Ecma.Grammar

open Ecma.Text

/-- An expression that matches a stretch of text. -/
inductive Peg (ρ : Type) where
  /-- Exactly this text. -/
  | text (cs : List Char)
  /-- One character of a class. -/
  | char (member : Char → Bool)
  /-- Nothing, at the very beginning. -/
  | beginning
  /-- Nothing, at the very end. -/
  | ending
  /-- White space and comments, without line ends unless `lines` is set. -/
  | layout (lines : Bool)
  | rule (name : ρ)
  | seq (first second : Peg ρ)
  | choice (first second : Peg ρ)
  | maybe (item : Peg ρ)
  | star (item : Peg ρ)
  /-- What follows the first item of a repetition: layout and another item, as often as can be. -/
  | again (item : Peg ρ)
  /-- Nothing, where the item would match. -/
  | look (item : Peg ρ)
  /-- Nothing, where the item would not match. -/
  | refuse (item : Peg ρ)

/-- What a rule does with layout: leave it as it is, allow it everywhere, or forbid it. A token
forbids it and hides the rules inside. -/
inductive Kind where
  | plain
  | free
  | tight
  | token
deriving DecidableEq

/-- Whether layout is skipped between items, and whether rules count at all. -/
inductive Mode where
  | free
  | tight
  | token
deriving DecidableEq

/-- Whether a match is only looked ahead for, and whether success there is failure outside. -/
inductive Lookahead where
  | none
  | positive
  | negative
deriving DecidableEq

def Lookahead.look : Lookahead → Lookahead
  | .negative => .negative
  | _ => .positive

def Lookahead.refuse : Lookahead → Lookahead
  | .negative => .positive
  | _ => .negative

/-- A rule that matched: where it started and stopped in bytes, the text from its start on, and the
rules that matched inside it. -/
inductive Node (ρ : Type) where
  | mk (rule : ρ) (start stop : Nat) (input : List Char) (parts : List (Node ρ))

/-- A grammar gives each rule a kind and a body. -/
structure Grammar (ρ : Type) where
  kind : ρ → Kind
  body : ρ → Peg ρ

/-- What an attempt to match ends with: the text left over, its place, the nodes so far with the
latest first, and the furthest place of a vain attempt. -/
inductive Outcome (ρ : Type) where
  | matched (rest : List Char) (place : Nat) (nodes : List (Node ρ)) (furthest : Nat)
  | failed (furthest : Nat)

/-- The inside of which kind of layout a character belongs to. -/
inductive Within where
  | nothing
  | lineComment
  | blockComment (opened : List Char) (place : Nat)

/-- Skips white space and comments. A block comment that does not end is no layout; neither is one
that spans lines where line ends are not. -/
def skipLayout (lines : Bool) : Within → List Char → Nat → List Char × Nat
  | .blockComment opened place, [], _ => (opened, place)
  | _, [], place => ([], place)
  | .nothing, '/' :: '*' :: rest, place =>
    skipLayout lines (.blockComment ('/' :: '*' :: rest) place) rest (place + 2)
  | .nothing, '/' :: '/' :: rest, place =>
    if lines then skipLayout lines .lineComment rest (place + 2) else ('/' :: '/' :: rest, place)
  | .nothing, c :: rest, place =>
    if isSpace c || (lines && isLineTerminator c) then
      skipLayout lines .nothing rest (place + c.utf8Size)
    else (c :: rest, place)
  | .lineComment, c :: rest, place =>
    if isLineTerminator c then skipLayout lines .nothing rest (place + c.utf8Size)
    else skipLayout lines .lineComment rest (place + c.utf8Size)
  | .blockComment _ _, '*' :: '/' :: rest, place => skipLayout lines .nothing rest (place + 2)
  | .blockComment opened start, c :: rest, place =>
    if !lines && isLineTerminator c then (opened, start)
    else skipLayout lines (.blockComment opened start) rest (place + c.utf8Size)

/-- Layout between items is skipped in the free mode only. -/
def Mode.skip (mode : Mode) (rest : List Char) (place : Nat) : List Char × Nat :=
  match mode with
  | .free => skipLayout true .nothing rest place
  | _ => (rest, place)

/-- Takes a text off the front. -/
def takeText : List Char → List Char → Nat → Option (List Char × Nat)
  | [], rest, place => some (rest, place)
  | _ :: _, [], _ => none
  | c :: cs, d :: rest, place => if c = d then takeText cs rest (place + c.utf8Size) else none

/-- The mode inside a rule. -/
def Kind.inside : Kind → Mode → Mode
  | .plain, mode => mode
  | .free, _ => .free
  | .tight, _ => .tight
  | .token, _ => .token

/-- A rule counts unless it is met inside a token; a rule that sets the layout always counts. -/
def Kind.counts : Kind → Mode → Bool
  | .free, _ => true
  | .tight, _ => true
  | _, mode => mode != .token

/-- Ends a rule: leaves its node outside a lookahead, and notes a vain attempt. -/
def finish {ρ : Type} (name : ρ) (counts : Bool) (ahead : Lookahead) (input : List Char) (start : Nat)
    (before : List (Node ρ)) : Outcome ρ → Outcome ρ
  | .failed furthest =>
    .failed (if counts && ahead != .negative then max furthest start else furthest)
  | .matched rest place parts furthest =>
    let furthest := if counts && ahead == .negative then max furthest start else furthest
    if counts && ahead == .none then
      .matched rest place (.mk name start place input parts.reverse :: before) furthest
    else .matched rest place before furthest

/-- Matches an expression; the fuel bounds the depth of rules and the number of repetitions. -/
def run {ρ : Type} (g : Grammar ρ) : Nat → Peg ρ → Mode → Lookahead → List Char → Nat →
    List (Node ρ) → Nat → Outcome ρ
  | 0, _, _, _, _, _, _, furthest => .failed furthest
  | fuel + 1, e, mode, ahead, rest, place, nodes, furthest =>
    match e with
    | .text cs =>
      match takeText cs rest place with
      | some (rest, place) => .matched rest place nodes furthest
      | none => .failed furthest
    | .char member =>
      match rest with
      | c :: rest =>
        if member c then .matched rest (place + c.utf8Size) nodes furthest else .failed furthest
      | [] => .failed furthest
    | .beginning => if place = 0 then .matched rest place nodes furthest else .failed furthest
    | .ending => if rest.isEmpty then .matched rest place nodes furthest else .failed furthest
    | .layout lines =>
      let (rest, place) := skipLayout lines .nothing rest place
      .matched rest place nodes furthest
    | .rule name =>
      let kind := g.kind name
      finish name (kind.counts mode) ahead rest place nodes
        (run g fuel (g.body name) (kind.inside mode) ahead rest place [] furthest)
    | .seq first second =>
      match run g fuel first mode ahead rest place nodes furthest with
      | .failed furthest => .failed furthest
      | .matched rest place nodes furthest =>
        let (rest, place) := mode.skip rest place
        run g fuel second mode ahead rest place nodes furthest
    | .choice first second =>
      match run g fuel first mode ahead rest place nodes furthest with
      | .failed furthest => run g fuel second mode ahead rest place nodes furthest
      | outcome => outcome
    | .maybe item =>
      match run g fuel item mode ahead rest place nodes furthest with
      | .failed furthest => .matched rest place nodes furthest
      | outcome => outcome
    | .star item =>
      match run g fuel item mode ahead rest place nodes furthest with
      | .failed furthest => .matched rest place nodes furthest
      | .matched rest place nodes furthest =>
        run g fuel (.again item) mode ahead rest place nodes furthest
    | .again item =>
      let (after, next) := mode.skip rest place
      match run g fuel item mode ahead after next nodes furthest with
      | .failed furthest => .matched rest place nodes furthest
      | .matched rest place nodes furthest =>
        run g fuel (.again item) mode ahead rest place nodes furthest
    | .look item =>
      match run g fuel item mode ahead.look rest place nodes furthest with
      | .failed furthest => .failed furthest
      | .matched _ _ _ furthest => .matched rest place nodes furthest
    | .refuse item =>
      match run g fuel item mode ahead.refuse rest place nodes furthest with
      | .failed furthest => .matched rest place nodes furthest
      | .matched _ _ _ furthest => .failed furthest

/-- Fuel enough for a text: no rule of a grammar without left recursion nests deeper between two
characters. -/
def fuelFor (cs : List Char) : Nat :=
  1000 * (cs.length + 2)

/-- Parses a text by a rule: its node, or the place of the error. -/
def parse {ρ : Type} (g : Grammar ρ) (name : ρ) (s : String) : Except Nat (Node ρ) :=
  let cs := s.toList
  match run g (fuelFor cs) (.rule name) .free .none cs 0 [] 0 with
  | .matched _ _ (node :: _) _ => .ok node
  | .matched _ _ [] furthest => .error furthest
  | .failed furthest => .error furthest

namespace Node

variable {ρ : Type}

def rule : Node ρ → ρ
  | .mk rule _ _ _ _ => rule

def start : Node ρ → Nat
  | .mk _ start _ _ _ => start

def stop : Node ρ → Nat
  | .mk _ _ stop _ _ => stop

def parts : Node ρ → List (Node ρ)
  | .mk _ _ _ _ parts => parts

/-- The characters that the rule matched. -/
def chars : Node ρ → List Char
  | .mk _ start stop input _ => charsBefore input (stop - start)

/-- The text that the rule matched. -/
def text (node : Node ρ) : String :=
  String.ofList node.chars

/-- True when a node below this one has a property. -/
def anyBelow (has : Node ρ → Bool) : Node ρ → Bool
  | .mk _ _ _ _ parts => anyAmong parts
where
  anyAmong : List (Node ρ) → Bool
    | [] => false
    | node :: rest => has node || anyBelow has node || anyAmong rest

end Node

end Ecma.Grammar
