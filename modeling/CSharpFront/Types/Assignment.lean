import CSharpFront.Diagnostic.Basic
import CSharpFront.Syntax.Tree
import CSharpFront.Types.Conversion
/-!
What is wrong with a value in the place of another type: nothing, if an implicit conversion leads
there. A value that could not be bound, or a place that could not, is no reason to complain again.
-/

namespace CSharpFront.Ty

/-- The complaint about a value of one type in the place of another. -/
def mismatch? (declared : List DeclaredConversion) (span : Span) (source target : Ty) :
    Option Diagnostic :=
  if source.isError || target.isError then none
  else match source.conversion declared target with
    | .identity | .implicitStandard | .implicitDeclared => none
    | .explicitOnly =>
      some (.of .onlyExplicitConversion span [source.display, target.display])
    | .none => some (.of .noImplicitConversion span [source.display, target.display])

/-- Whether a condition of a type can be used, with the complaint if it has the wrong type. Where
there is no condition nothing can be wrong with it. -/
def checkCondition (declared : List DeclaredConversion) (condition? : Option Expr) (t : Ty) :
    Bool × Option Diagnostic :=
  match condition? with
  | none => (true, none)
  | some condition =>
    if condition.isMissing || t.isError then (false, none)
    else
      let mismatch? := mismatch? declared condition.span t .bool
      (mismatch?.isNone, mismatch?)

end CSharpFront.Ty
