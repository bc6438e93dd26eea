import Ecma.Syntax.Error
import Ecma.Text.Units

set_option autoImplicit false

/-!
The values of string literals and of identifiers with escapes. A string is read as code units, so
that two escapes can spell the halves of one character.
-/

namespace Ecma.Syntax

open Ecma.Text

def hexDigit? (c : Char) : Option Nat :=
  if '0' ≤ c ∧ c ≤ '9' then some (c.toNat - 48)
  else if 'a' ≤ c ∧ c ≤ 'f' then some (c.toNat - 87)
  else if 'A' ≤ c ∧ c ≤ 'F' then some (c.toNat - 55)
  else none

/-- The value of the first so many characters as hexadecimal digits. -/
def hexValue? : Nat → Nat → List Char → Option Nat
  | 0, value, _ => some value
  | _ + 1, _, [] => none
  | count + 1, value, c :: rest =>
    match hexDigit? c with
    | some digit => hexValue? count (value * 16 + digit) rest
    | none => none

def isOctal (c : Char) : Bool :=
  '0' ≤ c && c ≤ '7'

/-- The value of octal digits, at most so many, and their count. -/
def octalValue : Nat → Nat → List Char → Nat × Nat
  | 0, value, _ => (value, 0)
  | _ + 1, value, [] => (value, 0)
  | most + 1, value, c :: rest =>
    if isOctal c then
      let (value, used) := octalValue most (value * 8 + (c.toNat - 48)) rest
      (value, used + 1)
    else (value, 0)

/-- What an escape stands for: its units, how many characters after the escaped one it takes, and
whether it is a legacy octal escape. -/
structure Escape where
  units : List Nat
  used : Nat := 0
  octal : Bool := false
deriving DecidableEq, Repr

/-- The escape of a character, given what follows it. -/
def escapeOf (c : Char) (rest : List Char) : Except EarlyError Escape :=
  if c = 'b' then .ok { units := [8] }
  else if c = 't' then .ok { units := [9] }
  else if c = 'n' then .ok { units := [10] }
  else if c = 'v' then .ok { units := [11] }
  else if c = 'f' then .ok { units := [12] }
  else if c = 'r' then .ok { units := [13] }
  else if c = '\r' then .ok { units := [], used := if rest.head? = some '\n' then 1 else 0 }
  else if c = '\n' ∨ c = '\u2028' ∨ c = '\u2029' then .ok { units := [] }
  else if c = 'x' then
    match hexValue? 2 0 rest with
    | some value => .ok { units := [value], used := 2 }
    | none => .error .hexEscape
  else if c = 'u' then
    match hexValue? 4 0 rest with
    | some value => .ok { units := [value], used := 4 }
    | none => .error .unicodeEscape
  else if isOctal c then
    if c = '0' ∧ !(rest.head?.any Char.isDigit) then .ok { units := [0] }
    else
      let (value, used) := octalValue (if c ≤ '3' then 2 else 1) (c.toNat - 48) rest
      .ok { units := [value], used := used, octal := true }
  else .ok { units := unitsOfChar c }

/-- The code units of the inside of a string literal and whether it has a legacy octal escape; so
many characters at the front are already taken. -/
def decodeBody : Nat → List Char → Except EarlyError (List Nat × Bool)
  | _, [] => .ok ([], false)
  | skip + 1, _ :: rest => decodeBody skip rest
  | 0, c :: rest =>
    if c = '\\' then
      match rest with
      | [] => .error .trailingEscape
      | e :: after =>
        match escapeOf e after with
        | .error cause => .error cause
        | .ok escape =>
          match decodeBody (escape.used + 1) rest with
          | .error cause => .error cause
          | .ok (units, octal) => .ok (escape.units ++ units, escape.octal || octal)
    else
      match decodeBody 0 rest with
      | .error cause => .error cause
      | .ok (units, octal) => .ok (unitsOfChar c ++ units, octal)

/-- The value of a string literal with its quotes, and whether it has a legacy octal escape. -/
def decodeString (literal : List Char) : Except EarlyError (String × Bool) :=
  if literal.length < 2 then .error .unterminatedString
  else
    match decodeBody 0 (literal.drop 1).dropLast with
    | .error cause => .error cause
    | .ok (units, octal) => .ok (ofUnits units, octal)

/-- The name that an identifier spells, with its escapes resolved. -/
def decodeName : List Char → Except EarlyError (List Char)
  | [] => .ok []
  | '\\' :: rest =>
    match rest with
    | _ :: a :: b :: c :: d :: after =>
      match hexValue? 4 0 [a, b, c, d] with
      | none => .error .unicodeEscape
      | some value =>
        if isHighSurrogate value || isLowSurrogate value then .error .unicodeEscape
        else
          match decodeName after with
          | .error cause => .error cause
          | .ok name => .ok (Char.ofNat value :: name)
    | _ => .error .unicodeEscape
  | c :: rest =>
    match decodeName rest with
    | .error cause => .error cause
    | .ok name => .ok (c :: name)

/-- The name of an identifier as a string. -/
def decodeIdentifier (cs : List Char) : Except EarlyError String :=
  (decodeName cs).map String.ofList

end Ecma.Syntax
