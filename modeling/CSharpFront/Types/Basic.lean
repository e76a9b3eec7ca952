import CSharpFront.Syntax.SpecialType
/-!
Types. Two types are equal when they are built alike, so a type needs no table to be compared,
displayed or converted.
-/

namespace CSharpFront

/-- The generic types that are known by name. -/
inductive Generic
  | sequence | list | grouping
deriving DecidableEq

namespace Generic

/-- The last part of the name. -/
def simpleName : Generic → String
  | .sequence => "IEnumerable"
  | .list => "List"
  | .grouping => "IGrouping"

def fullName : Generic → String
  | .sequence => "System.Collections.Generic.IEnumerable"
  | .list => "System.Collections.Generic.List"
  | .grouping => "System.Linq.IGrouping"

def arity : Generic → Nat
  | .grouping => 2
  | _ => 1

def isInterface : Generic → Bool
  | .list => false
  | _ => true

/-- The generic type of a name, of which the part after the last dot counts, with a number of
arguments. -/
def ofName? (name : String) (arity : Nat) : Option Generic :=
  let simple := String.ofList (name.toList.reverse.takeWhile (· ≠ '.')).reverse
  [.sequence, .list, .grouping].find? fun g => g.simpleName == simple && g.arity == arity

end Generic

inductive Ty
  /-- What could not be bound. It converts to every type and from every type. -/
  | error
  /-- What stands at a place of a listing that no type holds. It behaves like the error type. -/
  | unlisted (place : Nat)
  /-- The type of the literal `null`. -/
  | null
  | special (type : SpecialType)
  | nullable (underlying : Ty)
  | array (element : Ty) (rank : Nat)
  | sequence (element : Ty)
  | list (element : Ty)
  | grouping (key element : Ty)
  /-- A class or a struct of the text, by its qualified name. -/
  | named (name : String) (isStruct : Bool)
deriving DecidableEq

namespace Ty

abbrev bool : Ty := .special .bool
abbrev char : Ty := .special .char
abbrev int : Ty := .special .int
abbrev uint : Ty := .special .uint
abbrev long : Ty := .special .long
abbrev string : Ty := .special .string
abbrev object : Ty := .special .object
abbrev void : Ty := .special .void

def isError : Ty → Bool
  | .error | .unlisted _ => true
  | _ => false

def special? : Ty → Option SpecialType
  | .special s => some s
  | _ => none

/-- The type to which a nullable type adds null. -/
def underlying? : Ty → Option Ty
  | .nullable t => some t
  | _ => none

/-- The type without the null that a nullable type adds. -/
def unlifted (t : Ty) : Ty := t.underlying?.getD t

def isNullable (t : Ty) : Bool := t.underlying?.isSome

def isValueType : Ty → Bool
  | .special s => s.isValueType
  | .nullable _ => true
  | .named _ isStruct => isStruct
  | _ => false

/-- The types that hold null by themselves. -/
def isReferenceType : Ty → Bool
  | .special s => s == .string || s == .object
  | .array _ _ | .sequence _ | .list _ | .grouping _ _ => true
  | .named _ isStruct => !isStruct
  | _ => false

def isNumeric (t : Ty) : Bool := t.special?.any SpecialType.isNumeric

def isInterface : Ty → Bool
  | .sequence _ | .grouping _ _ => true
  | _ => false

/-- The type of what an enumeration of a value yields. -/
def element? : Ty → Option Ty
  | .array e _ | .sequence e | .list e | .grouping _ e => some e
  | .special .string => some .char
  | _ => none

/-- The type as a generic type with its arguments. -/
def generic? : Ty → Option (Generic × List Ty)
  | .sequence e => some (.sequence, [e])
  | .list e => some (.list, [e])
  | .grouping k e => some (.grouping, [k, e])
  | _ => none

/-- A generic type with its arguments, if they are as many as it takes. -/
def ofGeneric? : Generic → List Ty → Option Ty
  | .sequence, [e] => some (.sequence e)
  | .list, [e] => some (.list e)
  | .grouping, [k, e] => some (.grouping k e)
  | _, _ => none

/-- The type with null added: only a value type that lacks it changes. -/
def toNullable (t : Ty) : Ty :=
  if t.isError || t.isNullable || !t.isValueType then t else .nullable t

/-- The array of a type, which has one dimension or more. What could not be bound has no array. -/
def toArray (t : Ty) (rank : Nat) : Ty := if t.isError then t else .array t (max rank 1)

/-- The spelling in messages: words for predefined types, qualified names for others. -/
def display : Ty → String
  | .error | .unlisted _ => "?"
  | .null => "<null>"
  | .special s => s.text
  | .nullable t => t.display ++ "?"
  | .array t rank => t.display ++ "[" ++ "".pushn ',' (rank - 1) ++ "]"
  | .sequence t => Generic.sequence.fullName ++ "<" ++ t.display ++ ">"
  | .list t => Generic.list.fullName ++ "<" ++ t.display ++ ">"
  | .grouping k t =>
    Generic.grouping.fullName ++ "<" ++ k.display ++ ", " ++ t.display ++ ">"
  | .named name _ => name

theorem ofGeneric?_eq_some_iff {g : Generic} {ts : List Ty} {t : Ty} :
    ofGeneric? g ts = some t ↔ t.generic? = some (g, ts) := by
  constructor
  · intro h
    match g, ts with
    | .sequence, [_] | .list, [_] | .grouping, [_, _] =>
      simp only [ofGeneric?, Option.some.injEq] at h
      subst h
      rfl
    | .sequence, [] | .list, [] | .grouping, [] | .grouping, [_]
    | .sequence, _ :: _ :: _ | .list, _ :: _ :: _ | .grouping, _ :: _ :: _ :: _ =>
      simp [ofGeneric?] at h
  · intro h
    cases t <;> simp only [generic?, Option.some.injEq, Prod.mk.injEq, reduceCtorEq] at h
    all_goals
      obtain ⟨rfl, rfl⟩ := h
      rfl

theorem isError_toArray (t : Ty) (rank : Nat) : (t.toArray rank).isError = t.isError := by
  unfold toArray
  split
  next => rfl
  next h => simpa [isError] using h

end Ty

end CSharpFront
