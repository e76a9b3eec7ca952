import CSharpFront.Syntax.Kind
/-!
The types that are spelled with a reserved word.
-/

namespace CSharpFront

/-- A type spelled with a reserved word. -/
inductive SpecialType
  | bool | char | sbyte | byte | short | ushort | int | uint | long | ulong | float | double
  | decimal | string | object | void
deriving DecidableEq

namespace SpecialType

/-- The order in which every table of types holds them. -/
def all : List SpecialType :=
  [.bool, .char, .sbyte, .byte, .short, .ushort, .int, .uint, .long, .ulong, .float, .double,
   .decimal, .string, .object, .void]

def keyword : SpecialType → Keyword
  | .bool => .kwBool
  | .char => .kwChar
  | .sbyte => .kwSByte
  | .byte => .kwByte
  | .short => .kwShort
  | .ushort => .kwUShort
  | .int => .kwInt
  | .uint => .kwUInt
  | .long => .kwLong
  | .ulong => .kwULong
  | .float => .kwFloat
  | .double => .kwDouble
  | .decimal => .kwDecimal
  | .string => .kwString
  | .object => .kwObject
  | .void => .kwVoid

def text (s : SpecialType) : String := s.keyword.text

def ofKeyword? : Keyword → Option SpecialType
  | .kwBool => some .bool
  | .kwChar => some .char
  | .kwSByte => some .sbyte
  | .kwByte => some .byte
  | .kwShort => some .short
  | .kwUShort => some .ushort
  | .kwInt => some .int
  | .kwUInt => some .uint
  | .kwLong => some .long
  | .kwULong => some .ulong
  | .kwFloat => some .float
  | .kwDouble => some .double
  | .kwDecimal => some .decimal
  | .kwString => some .string
  | .kwObject => some .object
  | .kwVoid => some .void
  | _ => none

theorem mem_all (s : SpecialType) : s ∈ all := by cases s <;> decide

theorem ofKeyword?_eq_some_iff {k : Keyword} {s : SpecialType} :
    ofKeyword? k = some s ↔ k = s.keyword := by
  constructor
  · intro h; cases k <;> simp [ofKeyword?] at h <;> subst h <;> rfl
  · rintro rfl; cases s <;> rfl

/-- Integers and floating-point numbers. A character is not counted among them although it converts
to most of them. -/
def isNumeric : SpecialType → Bool
  | .sbyte | .byte | .short | .ushort | .int | .uint | .long | .ulong
  | .float | .double | .decimal => true
  | _ => false

def isIntegral : SpecialType → Bool
  | .sbyte | .byte | .short | .ushort | .int | .uint | .long | .ulong => true
  | _ => false

def isValueType : SpecialType → Bool
  | .string | .object | .void => false
  | _ => true

end SpecialType

namespace TokenKind

/-- The type that the token spells, if it spells one. -/
def special? : TokenKind → Option SpecialType
  | .keyword k => SpecialType.ofKeyword? k
  | _ => none

def isPredefinedType (t : TokenKind) : Bool := t.special?.isSome

end TokenKind

end CSharpFront
