import CSharpFront.Text.CharClass
import CSharpFront.Text.PrintableRanges
/-!
Text in quotes, in the two forms in which output holds it. Between quotes for readers everything
shows that has a shape of its own; between quotes for machines only what must be is escaped.
-/

namespace CSharpFront.Text

/-- The digits of a number in base sixteen, small letters, without leading zeros. -/
def hex (n : Nat) : String := String.ofList (Nat.toDigits 16 n)

/-- The digits of a number in base sixteen with zeros in front, up to four digits. -/
def hex4 (n : Nat) : String :=
  let digits := hex n
  "".pushn '0' (4 - digits.length) ++ digits

/-- Whether a character has a shape of its own. -/
def isPrintable (c : Char) : Bool :=
  !inRanges unprintableRanges c && !inRanges attachedMarkRanges c

/-- A character between quotes for readers. One without a shape of its own shows its code point. -/
def quoteChar (c : Char) : String :=
  match c with
  | '\x00' => "\\0"
  | '\t' => "\\t"
  | '\r' => "\\r"
  | '\n' => "\\n"
  | '\\' => "\\\\"
  | '"' => "\\\""
  | c => if isPrintable c then c.toString else "\\u\x7b" ++ hex c.toNat ++ "\x7d"

/-- Text in quotes for readers. -/
def quote (text : String) : String := "\"" ++ String.join (text.toList.map quoteChar) ++ "\""

/-- A character between quotes for machines. Controls are escaped, by a letter if they have one. -/
def jsonChar (c : Char) : String :=
  match c with
  | '"' => "\\\""
  | '\\' => "\\\\"
  | '\x08' => "\\b"
  | '\x0c' => "\\f"
  | '\n' => "\\n"
  | '\r' => "\\r"
  | '\t' => "\\t"
  | c => if c.toNat < 0x20 then "\\u" ++ hex4 c.toNat else c.toString

/-- Text in quotes for machines. -/
def jsonQuote (text : String) : String := "\"" ++ String.join (text.toList.map jsonChar) ++ "\""

end CSharpFront.Text
