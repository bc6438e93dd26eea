set_option autoImplicit false

/-!
Text measured in UTF-16 code units. A string is a sequence of characters; its length, the unit at
an index and the part between two indices are counted in units, so a cut may fall inside a
character. A unit that has lost its partner reads as the replacement character.
-/

namespace Ecma.Text

/-- The character that stands for a lone surrogate. -/
def replacement : Char := '\uFFFD'

/-- A character beyond the basic plane takes two units, any other takes one. -/
def unitWidth (c : Char) : Nat :=
  if c.toNat < 0x10000 then 1 else 2

/-- The code units of one character. -/
def unitsOfChar (c : Char) : List Nat :=
  if c.toNat < 0x10000 then [c.toNat]
  else [0xD800 + (c.toNat - 0x10000) / 0x400, 0xDC00 + (c.toNat - 0x10000) % 0x400]

/-- The code units of a text. -/
def unitsOfChars (cs : List Char) : List Nat :=
  cs.flatMap unitsOfChar

/-- The code units of a string. -/
def units (s : String) : List Nat :=
  unitsOfChars s.toList

def isHighSurrogate (unit : Nat) : Bool :=
  0xD800 ≤ unit && unit < 0xDC00

def isLowSurrogate (unit : Nat) : Bool :=
  0xDC00 ≤ unit && unit < 0xE000

/-- The character that a high and a low surrogate spell together. -/
def joinSurrogates (high low : Nat) : Char :=
  Char.ofNat (0x10000 + (high - 0xD800) * 0x400 + (low - 0xDC00))

/-- One unit on its own; a surrogate is replaced. -/
def charOfUnit (unit : Nat) : Char :=
  if isHighSurrogate unit || isLowSurrogate unit then replacement else Char.ofNat unit

/-- Reads units as characters: adjacent surrogates pair up, lone ones are replaced. -/
def charsOfUnits : List Nat → List Char
  | [] => []
  | [unit] => [charOfUnit unit]
  | high :: low :: rest =>
    if isHighSurrogate high && isLowSurrogate low then joinSurrogates high low :: charsOfUnits rest
    else charOfUnit high :: charsOfUnits (low :: rest)

/-- Reads units as a string. -/
def ofUnits (us : List Nat) : String :=
  String.ofList (charsOfUnits us)

/-- The number of units of a string. -/
def unitLength (s : String) : Nat :=
  s.foldl (fun n c => n + unitWidth c) 0

/-- The unit at an index, found without spelling out the units after it. -/
def unitOfCharsAt : List Char → Nat → Option Nat
  | [], _ => none
  | c :: rest, index =>
    if index < unitWidth c then (unitsOfChar c)[index]?
    else unitOfCharsAt rest (index - unitWidth c)

/-- The unit of a string at an index. -/
def unitAt (s : String) (index : Nat) : Option Nat :=
  unitOfCharsAt s.toList index

/-- The part of a string from one unit index up to another. -/
def substring (s : String) (start stop : Nat) : String :=
  if start ≥ stop then "" else ofUnits (((units s).drop start).take (stop - start))

/-- The order of strings by their code units. -/
def unitsLess (a b : String) : Bool :=
  (units a).lex (units b)

/-- The first index from which the units of the needle are found in the units of the text. -/
def findUnits (needle : List Nat) : List Nat → Nat → Option Nat
  | [], index => if needle.isEmpty then some index else none
  | unit :: rest, index =>
    if needle.isPrefixOf (unit :: rest) then some index else findUnits needle rest (index + 1)

end Ecma.Text
