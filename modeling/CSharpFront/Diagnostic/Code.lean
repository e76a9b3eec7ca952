import CSharpFront.Text.Decimal
import CSharpFront.Diagnostic.Message
/-!
The written form of message numbers, `CS` and at least four digits. Reading is more liberal than
writing: the letters may be missing or in any case, and any number of digits may follow.
-/

namespace CSharpFront.Code

/-- The number with four digits or more, after the letters `CS`. -/
def render (code : Nat) : String := "CS" ++ Text.padDecimal 4 code

/-- The digits of a written code: all of it, or what follows the two letters. -/
def digits : List Char → List Char
  | c :: s :: cs => if (c = 'c' ∨ c = 'C') ∧ (s = 's' ∨ s = 'S') then cs else c :: s :: cs
  | cs => cs

/-- Codes are below this bound, so that they fit 32 bits. -/
def bound : Nat := 0x100000000

/-- The number that a written code denotes, if it is not too large. -/
def parse? (text : String) : Option Nat :=
  match Text.decimal? (digits text.toList) with
  | some n => if n < bound then some n else none
  | none => none

end CSharpFront.Code

namespace CSharpFront.Message

/-- The written form of the message's number. -/
def id (m : Message) : String := Code.render m.code

end CSharpFront.Message
