import CSharpFront.Syntax.Punctuator
import CSharpFront.Syntax.Kind
import CSharpFront.Types.Conversion
/-!
The types that operators yield. Where no operator fits the operands, the error type comes out and
nobody complains.
-/

namespace CSharpFront

namespace SpecialType

def isSigned : SpecialType → Bool
  | .sbyte | .short | .int | .long => true
  | _ => false

/-- The type in which two numbers are combined, if there is one. -/
def promote (a b : SpecialType) : Option SpecialType :=
  let either (s : SpecialType) : Bool := a == s || b == s
  let anySigned := a.isSigned || b.isSigned
  if !a.isNumberLike || !b.isNumberLike then none
  else if either .decimal then
    if either .float || either .double then none else some .decimal
  else if either .double then some .double
  else if either .float then some .float
  else if either .ulong then if anySigned then none else some .ulong
  else if either .long then some .long
  else if either .uint then some (if anySigned then .long else .uint)
  else some .int

end SpecialType

namespace Ty

/-- Whether the type is that of truth values, with null or without. -/
def isBooleanLike (t : Ty) : Bool := t.unlifted == .bool

/-- The type of a combination of two numbers, to which null is added when one operand has it. -/
def arithmetic (s t : Ty) : Ty :=
  match s.unlifted.special?, t.unlifted.special? with
  | some a, some b =>
    match a.promote b with
    | some c => if s.isNullable || t.isNullable then .nullable (.special c) else .special c
    | none => .error
  | _, _ => .error

/-- The type of the first operand, or of the second where the first is null. -/
def coalesce (s t : Ty) : Ty :=
  if s.isError || t.isError then .error
  else match s with
    | .nullable u => if t.isNullable then s else u
    | _ => s

/-- The type of what `&`, `|` and `^` yield. -/
def bitwise (s t : Ty) : Ty :=
  if s.isBooleanLike && t.isBooleanLike then
    if s = .bool && t = .bool then .bool else .nullable .bool
  else s.arithmetic t

/-- The type that an operator with two operands yields. -/
def ofBinary (operator : TokenKind) (s t : Ty) : Ty :=
  match operator with
  | .punct p =>
    match p with
    | .ampersandAmpersand | .barBar | .equalsEquals | .exclamationEquals | .lessThan
    | .greaterThan | .lessThanEquals | .greaterThanEquals => .bool
    | .questionQuestion => s.coalesce t
    | .plus => if s = .string || t = .string then .string else s.arithmetic t
    | .minus | .asterisk | .slash | .percent => s.arithmetic t
    | .ampersand | .bar | .caret => s.bitwise t
    | .lessThanLessThan | .greaterThanGreaterThan => s.arithmetic s
    | _ => .error
  | _ => .error

/-- The type that an operator before its operand yields. -/
def ofUnary (operator : TokenKind) (t : Ty) : Ty :=
  match operator with
  | .punct .exclamation => if t.isBooleanLike then t else .error
  | .punct .plusPlus | .punct .minusMinus => t
  | .punct .minus => if t = .uint then .long else t.arithmetic t
  | _ => t.arithmetic t

/-- The type of a choice between two values: the one to which the other converts, if only one
does. -/
def choice (declared : List DeclaredConversion) (s t : Ty) : Ty :=
  if s = t then s
  else if s.isError || t.isError then .error
  else match (s.conversion declared t).isImplicit, (t.conversion declared s).isImplicit with
    | true, false => t
    | false, true => s
    | _, _ => .error

/-- The first type of some to which all of them convert. Null is never it. -/
def best? (declared : List DeclaredConversion) (ts : List Ty) : Option Ty :=
  ts.find? fun t => t ≠ .null && ts.all fun s => (s.conversion declared t).isImplicit

/-- The type of the elements that brackets after a value reach. -/
def indexed : Ty → Ty
  | .array e _ | .list e => e
  | .special .string => .char
  | _ => .error

end Ty

end CSharpFront
