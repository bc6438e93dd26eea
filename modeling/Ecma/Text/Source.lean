set_option autoImplicit false

/-!
The text of one parsed unit and the places in it. Offsets count the bytes of UTF-8. A line ends
at LF, CR, CR LF (once), U+2028 or U+2029; a column counts characters.
-/

namespace Ecma.Text

/-- The text of one parsed unit and the name it is known by in stack traces. -/
structure Source where
  filename : String
  text : String
deriving DecidableEq, Inhabited

/-- The offsets at which lines begin, beyond those already passed. -/
def lineStartsFrom : List Char → Nat → List Nat
  | [], _ => []
  | '\r' :: '\n' :: rest, offset => (offset + 2) :: lineStartsFrom rest (offset + 2)
  | c :: rest, offset =>
    let next := offset + c.utf8Size
    if c = '\r' ∨ c = '\n' ∨ c = '\u2028' ∨ c = '\u2029' then next :: lineStartsFrom rest next
    else lineStartsFrom rest next

/-- The offsets at which the lines of a text begin. -/
def lineStarts (text : String) : Array Nat :=
  (0 :: lineStartsFrom text.toList 0).toArray

/-- Where a number stands in an array, or the place at which it is missing. -/
inductive Found where
  | here (place : Nat)
  | missing (place : Nat)
deriving DecidableEq

/-- Halves a range of an ascending array down to the last place that is not above a number, or to the
first place when all are above it. -/
def narrow (xs : Array Nat) (x base size : Nat) (nonempty : 0 < size) (fits : base + size ≤ xs.size) :
    Fin xs.size :=
  if one : size = 1 then ⟨base, by omega⟩
  else if x < xs[base + size / 2] then
    narrow xs x base (size - size / 2) (by omega) (by omega)
  else narrow xs x (base + size / 2) (size - size / 2) (by omega) (by omega)
termination_by size

/-- Looks a number up in an ascending array. -/
def search (xs : Array Nat) (x : Nat) : Found :=
  if nonempty : 0 < xs.size then
    let place := narrow xs x 0 xs.size nonempty (by omega)
    if xs[place] = x then .here place
    else if xs[place] < x then .missing (place + 1)
    else .missing place
  else .missing 0

/-- The characters that fill exactly so many bytes, if a character boundary is there. -/
def charsInBytes : List Char → Nat → Option Nat
  | _, 0 => some 0
  | [], _ + 1 => none
  | c :: rest, bytes =>
    if c.utf8Size ≤ bytes then (charsInBytes rest (bytes - c.utf8Size)).map (· + 1) else none

/-- The text from a byte offset on, if a character boundary is there. -/
def dropBytes : List Char → Nat → Option (List Char)
  | cs, 0 => some cs
  | [], _ + 1 => none
  | c :: rest, bytes => if c.utf8Size ≤ bytes then dropBytes rest (bytes - c.utf8Size) else none

/-- The index of the line of a byte offset: of the line that begins there, or else of the one before
the first line that begins after it. -/
def lineIndex (starts : Array Nat) (offset : Nat) : Nat :=
  match search starts offset with
  | .here line => line
  | .missing line => line - 1

/-- The line and the column of a byte offset, both counted from one. -/
def lineCol (text : String) (offset : Nat) : Nat × Nat :=
  let starts := lineStarts text
  let line := lineIndex starts offset
  let start := starts.getD line 0
  let stop := min offset text.utf8ByteSize
  let column := ((dropBytes text.toList start).bind fun cs => charsInBytes cs (stop - start)).getD 0
  (line + 1, column + 1)

/-- The line and the column of a byte offset in a source. -/
def Source.lineCol (source : Source) (offset : Nat) : Nat × Nat :=
  Text.lineCol source.text offset

/-- The part of a text between two byte offsets. -/
def slice (text : String) (start stop : Nat) : String :=
  String.Pos.Raw.extract text ⟨start⟩ ⟨stop⟩

/-- Steps over text by lines that only LF ends; every other character is one column. -/
def advance (place : Nat × Nat) (c : Char) : Nat × Nat :=
  if c = '\n' then (place.1 + 1, 1) else (place.1, place.2 + 1)

/-- The characters before a byte offset. -/
def charsBefore : List Char → Nat → List Char
  | [], _ => []
  | c :: rest, bytes => if bytes = 0 then [] else c :: charsBefore rest (bytes - c.utf8Size)

/-- The line and the column where a syntax error is reported: only LF ends a line there. -/
def errorPlace (text : String) (offset : Nat) : Nat × Nat :=
  (charsBefore text.toList offset).foldl advance (1, 1)

end Ecma.Text
