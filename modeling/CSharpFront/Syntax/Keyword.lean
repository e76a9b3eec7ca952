/-!
The reserved words of the language, each with its spelling. An identifier never has the spelling of
a reserved word unless it is written with `@`.
-/

namespace CSharpFront

/-- A reserved word. -/
inductive Keyword
  | kwAbstract | kwAs | kwBase | kwBool | kwBreak | kwByte | kwCase | kwCatch | kwChar
  | kwChecked | kwClass | kwConst | kwContinue | kwDecimal | kwDefault | kwDelegate | kwDo
  | kwDouble | kwElse | kwEnum | kwEvent | kwExplicit | kwExtern | kwFalse | kwFinally | kwFixed
  | kwFloat | kwFor | kwForEach | kwGoto | kwIf | kwImplicit | kwIn | kwInt | kwInterface
  | kwInternal | kwIs | kwLock | kwLong | kwNamespace | kwNew | kwNull | kwObject | kwOperator
  | kwOut | kwOverride | kwParams | kwPrivate | kwProtected | kwPublic | kwReadOnly | kwRef
  | kwReturn | kwSByte | kwSealed | kwShort | kwSizeOf | kwStackAlloc | kwStatic | kwString
  | kwStruct | kwSwitch | kwThis | kwThrow | kwTrue | kwTry | kwTypeOf | kwUInt | kwULong
  | kwUnchecked | kwUnsafe | kwUShort | kwUsing | kwVirtual | kwVoid | kwVolatile | kwWhile
deriving DecidableEq

namespace Keyword

/-- Every reserved word, in alphabetical order of spelling. -/
def all : List Keyword :=
  [.kwAbstract, .kwAs, .kwBase, .kwBool, .kwBreak, .kwByte, .kwCase, .kwCatch, .kwChar,
   .kwChecked, .kwClass, .kwConst, .kwContinue, .kwDecimal, .kwDefault, .kwDelegate, .kwDo,
   .kwDouble, .kwElse, .kwEnum, .kwEvent, .kwExplicit, .kwExtern, .kwFalse, .kwFinally, .kwFixed,
   .kwFloat, .kwFor, .kwForEach, .kwGoto, .kwIf, .kwImplicit, .kwIn, .kwInt, .kwInterface,
   .kwInternal, .kwIs, .kwLock, .kwLong, .kwNamespace, .kwNew, .kwNull, .kwObject, .kwOperator,
   .kwOut, .kwOverride, .kwParams, .kwPrivate, .kwProtected, .kwPublic, .kwReadOnly, .kwRef,
   .kwReturn, .kwSByte, .kwSealed, .kwShort, .kwSizeOf, .kwStackAlloc, .kwStatic, .kwString,
   .kwStruct, .kwSwitch, .kwThis, .kwThrow, .kwTrue, .kwTry, .kwTypeOf, .kwUInt, .kwULong,
   .kwUnchecked, .kwUnsafe, .kwUShort, .kwUsing, .kwVirtual, .kwVoid, .kwVolatile, .kwWhile]

/-- The spelling in source text. -/
def text : Keyword → String
  | .kwAbstract => "abstract"
  | .kwAs => "as"
  | .kwBase => "base"
  | .kwBool => "bool"
  | .kwBreak => "break"
  | .kwByte => "byte"
  | .kwCase => "case"
  | .kwCatch => "catch"
  | .kwChar => "char"
  | .kwChecked => "checked"
  | .kwClass => "class"
  | .kwConst => "const"
  | .kwContinue => "continue"
  | .kwDecimal => "decimal"
  | .kwDefault => "default"
  | .kwDelegate => "delegate"
  | .kwDo => "do"
  | .kwDouble => "double"
  | .kwElse => "else"
  | .kwEnum => "enum"
  | .kwEvent => "event"
  | .kwExplicit => "explicit"
  | .kwExtern => "extern"
  | .kwFalse => "false"
  | .kwFinally => "finally"
  | .kwFixed => "fixed"
  | .kwFloat => "float"
  | .kwFor => "for"
  | .kwForEach => "foreach"
  | .kwGoto => "goto"
  | .kwIf => "if"
  | .kwImplicit => "implicit"
  | .kwIn => "in"
  | .kwInt => "int"
  | .kwInterface => "interface"
  | .kwInternal => "internal"
  | .kwIs => "is"
  | .kwLock => "lock"
  | .kwLong => "long"
  | .kwNamespace => "namespace"
  | .kwNew => "new"
  | .kwNull => "null"
  | .kwObject => "object"
  | .kwOperator => "operator"
  | .kwOut => "out"
  | .kwOverride => "override"
  | .kwParams => "params"
  | .kwPrivate => "private"
  | .kwProtected => "protected"
  | .kwPublic => "public"
  | .kwReadOnly => "readonly"
  | .kwRef => "ref"
  | .kwReturn => "return"
  | .kwSByte => "sbyte"
  | .kwSealed => "sealed"
  | .kwShort => "short"
  | .kwSizeOf => "sizeof"
  | .kwStackAlloc => "stackalloc"
  | .kwStatic => "static"
  | .kwString => "string"
  | .kwStruct => "struct"
  | .kwSwitch => "switch"
  | .kwThis => "this"
  | .kwThrow => "throw"
  | .kwTrue => "true"
  | .kwTry => "try"
  | .kwTypeOf => "typeof"
  | .kwUInt => "uint"
  | .kwULong => "ulong"
  | .kwUnchecked => "unchecked"
  | .kwUnsafe => "unsafe"
  | .kwUShort => "ushort"
  | .kwUsing => "using"
  | .kwVirtual => "virtual"
  | .kwVoid => "void"
  | .kwVolatile => "volatile"
  | .kwWhile => "while"

/-- The name by which listings call the word, without the ending they share. -/
def stem : Keyword → String
  | .kwAbstract => "Abstract"
  | .kwAs => "As"
  | .kwBase => "Base"
  | .kwBool => "Bool"
  | .kwBreak => "Break"
  | .kwByte => "Byte"
  | .kwCase => "Case"
  | .kwCatch => "Catch"
  | .kwChar => "Char"
  | .kwChecked => "Checked"
  | .kwClass => "Class"
  | .kwConst => "Const"
  | .kwContinue => "Continue"
  | .kwDecimal => "Decimal"
  | .kwDefault => "Default"
  | .kwDelegate => "Delegate"
  | .kwDo => "Do"
  | .kwDouble => "Double"
  | .kwElse => "Else"
  | .kwEnum => "Enum"
  | .kwEvent => "Event"
  | .kwExplicit => "Explicit"
  | .kwExtern => "Extern"
  | .kwFalse => "False"
  | .kwFinally => "Finally"
  | .kwFixed => "Fixed"
  | .kwFloat => "Float"
  | .kwFor => "For"
  | .kwForEach => "ForEach"
  | .kwGoto => "Goto"
  | .kwIf => "If"
  | .kwImplicit => "Implicit"
  | .kwIn => "In"
  | .kwInt => "Int"
  | .kwInterface => "Interface"
  | .kwInternal => "Internal"
  | .kwIs => "Is"
  | .kwLock => "Lock"
  | .kwLong => "Long"
  | .kwNamespace => "Namespace"
  | .kwNew => "New"
  | .kwNull => "Null"
  | .kwObject => "Object"
  | .kwOperator => "Operator"
  | .kwOut => "Out"
  | .kwOverride => "Override"
  | .kwParams => "Params"
  | .kwPrivate => "Private"
  | .kwProtected => "Protected"
  | .kwPublic => "Public"
  | .kwReadOnly => "ReadOnly"
  | .kwRef => "Ref"
  | .kwReturn => "Return"
  | .kwSByte => "SByte"
  | .kwSealed => "Sealed"
  | .kwShort => "Short"
  | .kwSizeOf => "SizeOf"
  | .kwStackAlloc => "StackAlloc"
  | .kwStatic => "Static"
  | .kwString => "String"
  | .kwStruct => "Struct"
  | .kwSwitch => "Switch"
  | .kwThis => "This"
  | .kwThrow => "Throw"
  | .kwTrue => "True"
  | .kwTry => "Try"
  | .kwTypeOf => "TypeOf"
  | .kwUInt => "UInt"
  | .kwULong => "ULong"
  | .kwUnchecked => "Unchecked"
  | .kwUnsafe => "Unsafe"
  | .kwUShort => "UShort"
  | .kwUsing => "Using"
  | .kwVirtual => "Virtual"
  | .kwVoid => "Void"
  | .kwVolatile => "Volatile"
  | .kwWhile => "While"

def name (k : Keyword) : String := k.stem ++ "Keyword"

/-- The reserved word with this spelling. -/
def ofText? (text : String) : Option Keyword := all.find? (·.text == text)

theorem mem_all (k : Keyword) : k ∈ all := by cases k <;> decide

theorem ofText?_text (k : Keyword) : ofText? k.text = some k := by cases k <;> rfl

/-- Whether the word is a modifier of a declaration. -/
def isModifier : Keyword → Bool
  | .kwAbstract | .kwConst | .kwExtern | .kwInternal | .kwNew | .kwOverride | .kwPrivate
  | .kwProtected | .kwPublic | .kwReadOnly | .kwSealed | .kwStatic | .kwUnsafe | .kwVirtual
  | .kwVolatile => true
  | _ => false

end Keyword

end CSharpFront
