import CSharpFront.Types.Member
/-!
The members that types have without declaring them. Only a few of the library are known, and those
by their name alone.
-/

namespace CSharpFront

/-- What an expression names. -/
inductive Denotation
  | value (type : Ty)
  | type (type : Ty)
  /-- A namespace, or what is not known here. -/
  | unknown
deriving DecidableEq

namespace Denotation

/-- The type as a value; what is no value has the error type. -/
def valueType : Denotation → Ty
  | .value t => t
  | .type _ | .unknown => .error

end Denotation

namespace Ty

/-- The type of what a method of the library returns. -/
def libraryMethod (receiver : Ty) (name : String) : Ty :=
  match name with
  | "ToString" => .string
  | "Equals" | "Contains" | "StartsWith" | "EndsWith" | "Any" | "All" => .bool
  | "GetHashCode" | "CompareTo" | "IndexOf" => .int
  | "ToUpper" | "ToLower" | "Trim" | "Substring" | "Replace" =>
    if receiver = .string then .string else .error
  | "Count" => if receiver.element?.isSome then .int else .error
  | "First" | "Last" | "Single" | "FirstOrDefault" | "LastOrDefault" =>
    receiver.element?.getD .error
  | "ToList" => (receiver.element?.map Ty.list).getD .error
  | "ToArray" => (receiver.element?.map (·.toArray 1)).getD .error
  | _ => .error

/-- The type of a property of the library. -/
def libraryProperty (receiver : Ty) (name : String) : Ty :=
  match name, receiver with
  | "Length", .special .string | "Length", .array _ _ | "Count", .list _ => .int
  | _, _ => .error

end Ty

namespace Denotation

/-- The type of a member of what an expression names: of a field or a property, or, of a method
that is called, of what it returns. What the text declares comes before the library. -/
def member (d : Denotation) (members : Members) (name : String) (isCall : Bool) : Ty :=
  let declared? (t : Ty) : Option Ty :=
    if isCall then members.method? t name else members.field? t name
  match d with
  | .unknown => .error
  | .type t =>
    match declared? t with
    | some u => u
    | none => if isCall && name == "Parse" && t.special?.isSome then t else .error
  | .value t =>
    if t.isError then .error
    else match declared? t with
      | some u => u
      | none => if isCall then t.libraryMethod name else t.libraryProperty name

end Denotation

end CSharpFront
