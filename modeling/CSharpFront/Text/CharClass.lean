import CSharpFront.Text.IdentifierRanges
/-!
The classes of characters that tell tokens apart: line ends, blanks, digits and the characters of
identifiers.
-/

namespace CSharpFront.Text

/-- Whether a code point lies in one of the ranges. -/
def inRanges (ranges : List (Nat × Nat)) (c : Char) : Bool :=
  ranges.any fun (first, last) => first ≤ c.toNat && c.toNat ≤ last

def isLineEnd (c : Char) : Bool := c == '\n' || c == '\r'

/-- White space that ends no line: blank, tabs, form feed, the space separators of Unicode, and
the byte order mark wherever it stands. -/
def isBlank (c : Char) : Bool :=
  c == ' ' || c == '\t' || c == '\x0B' || c == '\x0C' || c == '\u00A0' || c == '\u1680' ||
    (0x2000 ≤ c.toNat && c.toNat ≤ 0x200A) || c == '\u202F' || c == '\u205F' || c == '\u3000' ||
    c == '\uFEFF'

/-- Whether a character is a space or a line end of any script: the Unicode property White_Space. -/
def isSpace (c : Char) : Bool :=
  (0x09 ≤ c.toNat && c.toNat ≤ 0x0D) || c == ' ' || c == '\u0085' || c == '\u00A0' ||
    c == '\u1680' || (0x2000 ≤ c.toNat && c.toNat ≤ 0x200A) || c == '\u2028' || c == '\u2029' ||
    c == '\u202F' || c == '\u205F' || c == '\u3000'

def isDigit (c : Char) : Bool := '0' ≤ c && c ≤ '9'

def isHexDigit (c : Char) : Bool :=
  isDigit c || ('a' ≤ c && c ≤ 'f') || ('A' ≤ c && c ≤ 'F')

def isBinaryDigit (c : Char) : Bool := c == '0' || c == '1'

/-- A digit or the separator that may stand among digits. -/
def isDigitOrSeparator (c : Char) : Bool := isDigit c || c == '_'

def isAsciiLetter (c : Char) : Bool := ('a' ≤ c && c ≤ 'z') || ('A' ≤ c && c ≤ 'Z')

/-- Whether a character may begin an identifier: an ASCII letter, the underscore, or beyond ASCII
what Unicode lets begin one. -/
def isIdentifierStart (c : Char) : Bool :=
  isAsciiLetter c || c == '_' || inRanges identifierStartRanges c

/-- Whether a character may continue an identifier. -/
def isIdentifierPart (c : Char) : Bool :=
  isIdentifierStart c || isDigit c || inRanges identifierExtendRanges c

theorem isIdentifierPart_of_start {c : Char} (h : isIdentifierStart c = true) :
    isIdentifierPart c = true := by
  simp [isIdentifierPart, h]

/-- The value of a digit in any radix up to sixteen. -/
def digitValue (c : Char) : Nat :=
  if isDigit c then c.toNat - '0'.toNat
  else if 'a' ≤ c && c ≤ 'f' then c.toNat - 'a'.toNat + 10
  else c.toNat - 'A'.toNat + 10

/-- An ASCII letter in lower case; any other character as it is. -/
def lowerAscii (c : Char) : Char :=
  if 'A' ≤ c && c ≤ 'Z' then Char.ofNat (c.toNat + 32) else c

end CSharpFront.Text
