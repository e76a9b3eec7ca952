import CSharpFront.Types.Basic
/-!
Conversions between types: those that the language gives, and those that a text declares.
-/

namespace CSharpFront

/-- The strongest conversion from one type to another. -/
inductive Conversion
  | identity
  | implicitStandard
  | implicitDeclared
  /-- A conversion that takes a cast. -/
  | explicitOnly
  | none
deriving DecidableEq

namespace Conversion

def isImplicit : Conversion → Bool
  | .identity | .implicitStandard | .implicitDeclared => true
  | .explicitOnly | .none => false

def isPossible (c : Conversion) : Bool := c != .none

/-- The conversion of types to which null is added, by the conversion without it. An implicit one
stays implicit and is no longer an identity. -/
def lift : Conversion → Conversion
  | .identity | .implicitStandard => .implicitStandard
  | .explicitOnly => .explicitOnly
  | .implicitDeclared | .none => .none

end Conversion

namespace SpecialType

/-- Numbers, and characters, which convert like them. -/
def isNumberLike (s : SpecialType) : Bool := s.isNumeric || s == .char

/-- The wider types to which a number converts by itself. -/
def widenings : SpecialType → List SpecialType
  | .sbyte => [.short, .int, .long, .float, .double, .decimal]
  | .byte => [.short, .ushort, .int, .uint, .long, .ulong, .float, .double, .decimal]
  | .short => [.int, .long, .float, .double, .decimal]
  | .ushort => [.int, .uint, .long, .ulong, .float, .double, .decimal]
  | .char => [.ushort, .int, .uint, .long, .ulong, .float, .double, .decimal]
  | .int => [.long, .float, .double, .decimal]
  | .uint => [.long, .ulong, .float, .double, .decimal]
  | .long | .ulong => [.float, .double, .decimal]
  | .float => [.double]
  | _ => []

/-- The conversion from one predefined type to another, of which neither is `object`. -/
def conversion (s t : SpecialType) : Conversion :=
  if s = t then .identity
  else if !s.isNumberLike || !t.isNumberLike then .none
  else if s.widenings.contains t then .implicitStandard
  else .explicitOnly

end SpecialType

namespace Ty

/-- The conversion between an interface and another type: a cast can do it, but not to a struct nor
to a predefined type. -/
def interfaceConversion (other : Ty) : Conversion :=
  match other with
  | .array _ _ | .sequence _ | .list _ | .grouping _ _ | .named _ false => .explicitOnly
  | _ => .none

/-- The conversion that the language gives. -/
def standardConversion (s t : Ty) : Conversion :=
  if s = t then .identity
  else if s.isError || t.isError then .identity
  else if s = .void || t = .void then .none
  else match s, t with
    | .null, t => if t.isReferenceType || t.isNullable then .implicitStandard else .none
    | _, .null => .none
    | _, .special .object => .implicitStandard
    | .special .object, _ => .explicitOnly
    | .special s, .special t => s.conversion t
    | .nullable s, .nullable t => (s.standardConversion t).lift
    | s, .nullable t => (s.standardConversion t).lift
    | .nullable s, t =>
      if (s.standardConversion t).isPossible then .explicitOnly else .none
    | .array s m, .array t n =>
      if m = n && s.isReferenceType && t.isReferenceType then (s.standardConversion t).lift
      else .none
    | .array s _, .sequence t | .sequence s, .sequence t | .list s, .sequence t
    | .grouping _ s, .sequence t =>
      if s = t || s.isReferenceType && t.isReferenceType && (s.standardConversion t).isImplicit
      then .implicitStandard
      else .explicitOnly
    | .special s, .sequence t =>
      if s = .string && t = .char then .implicitStandard else .none
    | s, .sequence _ => s.interfaceConversion
    | s, t => if s.isInterface then t.interfaceConversion else .none
termination_by sizeOf s + sizeOf t

end Ty

/-- A conversion operator that a text declares. -/
@[ext] structure DeclaredConversion where
  source : Ty
  target : Ty
  isImplicit : Bool
deriving DecidableEq

namespace DeclaredConversion

/-- Whether the operator leads from one type to another, with a standard conversion before it and
another after it. -/
def applies (c : DeclaredConversion) (s t : Ty) : Bool :=
  (s.standardConversion c.source).isPossible && (c.target.standardConversion t).isPossible

/-- Whether the operator leads from one type to another without a cast. -/
def appliesImplicitly (c : DeclaredConversion) (s t : Ty) : Bool :=
  c.isImplicit && (s.standardConversion c.source).isImplicit &&
    (c.target.standardConversion t).isImplicit

end DeclaredConversion

namespace Ty

/-- The strongest conversion from one type to another, where a text declares operators. A standard
implicit conversion is taken before any operator. -/
def conversion (declared : List DeclaredConversion) (s t : Ty) : Conversion :=
  let standard := s.standardConversion t
  if standard.isImplicit then standard
  else if declared.any (·.appliesImplicitly s t) then .implicitDeclared
  else if declared.any (·.applies s t) then .explicitOnly
  else standard

end Ty

end CSharpFront
