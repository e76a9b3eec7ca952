import CSharpFront.Text.CharClass
/-!
Numbers written in decimal digits.
-/

namespace CSharpFront.Text

/-- The value of digits in a radix, the most significant first. -/
def digitsValue (radix : Nat) (cs : List Char) : Nat :=
  cs.foldl (fun n c => n * radix + digitValue c) 0

/-- The number that a non-empty text of decimal digits alone denotes. -/
def decimal? (cs : List Char) : Option Nat :=
  if cs.isEmpty || !cs.all isDigit then none else some (digitsValue 10 cs)

/-- The number that decimal digits denote, after a plus sign or none, if it is below the bound. -/
def signedDecimalBelow? (bound : Nat) (cs : List Char) : Option Nat :=
  let digits := match cs with
    | '+' :: r => r
    | r => r
  match decimal? digits with
  | some n => if n < bound then some n else none
  | none => none

/-- The decimal digits of a number, with zeros in front up to a width. -/
def padDecimal (width : Nat) (n : Nat) : String :=
  let digits := toString n
  "".pushn '0' (width - digits.length) ++ digits

end CSharpFront.Text
