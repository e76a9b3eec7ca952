import CSharpFront.Text.Decimal
/-!
Templates of messages. A place is a number between braces; it takes the argument of that number.
The template is read once from left to right, so a brace inside an argument is never a place, and
a brace that opens no place, or a place without an argument, stays as it is written.
-/

namespace CSharpFront.Template

/-- Numbers of places are below this bound, so that they fit 64 bits. -/
def placeBound : Nat := 0x10000000000000000

/-- The argument for the place that opens just before these characters. -/
def argument? (args : List String) (cs : List Char) : Option String :=
  if cs.contains '}' then
    (Text.signedDecimalBelow? placeBound (cs.takeWhile (· ≠ '}'))).bind (args[·]?)
  else none

/-- What follows the place that opens just before these characters. -/
def afterPlace (cs : List Char) : List Char := (cs.dropWhile (· ≠ '}')).tail

theorem length_afterPlace_le (cs : List Char) : (afterPlace cs).length ≤ cs.length := by
  have := (List.dropWhile_sublist (fun c : Char => decide (c ≠ '}')) (l := cs)).length_le
  simp only [afterPlace, List.length_tail]
  omega

/-- The template with every place that has an argument filled. -/
def fillChars (args : List String) : List Char → List Char
  | [] => []
  | c :: cs =>
    if c = '{' then
      match argument? args cs with
      | some a => a.toList ++ fillChars args (afterPlace cs)
      | none => c :: fillChars args cs
    else c :: fillChars args cs
termination_by cs => cs.length
decreasing_by
  all_goals have := length_afterPlace_le cs
  all_goals simp only [List.length_cons]
  all_goals omega

def fill (template : String) (args : List String) : String :=
  String.ofList (fillChars args template.toList)

end CSharpFront.Template
