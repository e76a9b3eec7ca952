/-!
Cancellation. A stage asks from time to time whether it has been cancelled, and once it finds so it
gives up. How long that takes is a number of questions, which all stages of a compilation share.
-/

namespace CSharpFront

/-- The answer of a stage that found that it has been cancelled. -/
inductive Cancelled
  | cancelled
deriving DecidableEq

namespace Cancelled

def message (_ : Cancelled) : String := "compilation was cancelled"

end Cancelled

/-- How many questions for cancellation still find none; without a number all of them do. -/
abbrev Polls := Option Nat

namespace Polls

/-- The answer to a question, with the number that is left after it. -/
def ask (polls : Polls) : Except Cancelled Polls :=
  match polls with
  | none => .ok none
  | some 0 => .error .cancelled
  | some (n + 1) => .ok (some n)

end Polls

end CSharpFront
