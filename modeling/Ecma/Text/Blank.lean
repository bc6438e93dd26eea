set_option autoImplicit false

/-!
Classes of white space. Blanks are what number conversion trims from a text; line terminators
and spaces are the two halves that the grammar tells apart.
-/

namespace Ecma.Text

/-- Characters of the general category Space_Separator. -/
def isSpaceSeparator (c : Char) : Bool :=
  let code := c.toNat
  code == 0x20 || code == 0xA0 || code == 0x1680 || (0x2000 ≤ code && code ≤ 0x200A) ||
    code == 0x202F || code == 0x205F || code == 0x3000

/-- Characters that end a line. -/
def isLineTerminator (c : Char) : Bool :=
  c == '\n' || c == '\r' || c == '\u2028' || c == '\u2029'

/-- White space of the grammar that does not end a line. -/
def isSpace (c : Char) : Bool :=
  c == ' ' || c == '\t' || c == '\u000B' || c == '\u000C' || c == '\u00A0' || c == '\uFEFF' ||
    isSpaceSeparator c

/-- White space that a number may be surrounded by; next line (U+0085) counts too. -/
def isBlank (c : Char) : Bool :=
  isSpace c || isLineTerminator c || c == '\u0085'

/-- The text from its first character that is no blank. -/
def trimStart (cs : List Char) : List Char :=
  cs.dropWhile isBlank

/-- The text without the blanks at both ends. -/
def trim (cs : List Char) : List Char :=
  (trimStart (trimStart cs).reverse).reverse

end Ecma.Text
