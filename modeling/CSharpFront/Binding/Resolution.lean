import CSharpFront.Syntax.Tree
import CSharpFront.Types.Listing
import CSharpFront.Types.Member
/-!
The types that type syntax means. Each type that is built on the way is listed, inner ones first,
also if a later part of the syntax means nothing.
-/

namespace CSharpFront

/-- A name inside a namespace or a type. -/
def qualify (container name : String) : String :=
  if container.isEmpty then name else container ++ "." ++ name

/-- Lists a type and gives it back. -/
def listed (t : Ty) : StateM Listing Ty := do
  modify (·.add t)
  return t

/-- The generic type of a name with its arguments, or the error type. -/
def Ty.ofGenericName (name : String) (arguments : List Ty) : Ty :=
  ((Generic.ofName? name arguments.length).bind (Ty.ofGeneric? · arguments)).getD .error

mutual

/-- The type that syntax means, where the types of the text have names. A dotted name that is not
known as a whole means what its last part means. -/
def TypeSyntax.resolve (names : NamedTypes) : TypeSyntax → StateM Listing Ty
  | .predefined _ s => return .special s
  | .name i => return (names.find? i.text).getD .error
  | .qualified r left right => do
    match right, names.find? (TypeSyntax.qualified r left right).dotted with
    | .generic .., _ | _, none => right.resolve names
    | _, some t => return t
  | .generic _ i arguments => do
    match ← TypeSyntax.resolveAll names arguments with
    | some ts => listed (.ofGenericName i.text ts)
    | none => return .error
  | .nullable _ element => do listed (← element.resolve names).toNullable
  | .array _ element rank => do listed ((← element.resolve names).toArray rank)
  | .missing _ => return .error

/-- The types that a list of syntax means, unless one of them means nothing. -/
def TypeSyntax.resolveAll (names : NamedTypes) :
    List TypeSyntax → StateM Listing (Option (List Ty))
  | [] => return some []
  | syn :: syns => do
    let t ← syn.resolve names
    if t.isError then return none
    match ← TypeSyntax.resolveAll names syns with
    | some ts => return some (t :: ts)
    | none => return none

end

end CSharpFront
