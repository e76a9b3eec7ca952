import CSharpFront.Syntax.Kind
/-!
Modifiers of declarations. All but two are reserved words; `async` and `partial` are identifiers
that modify when they stand before a declaration.
-/

namespace CSharpFront

/-- A modifier of a declaration. -/
inductive Modifier
  | publicMod | privateMod | protectedMod | internalMod | staticMod | readOnlyMod | constMod
  | abstractMod | sealedMod | virtualMod | overrideMod | externMod | unsafeMod | volatileMod
  | asyncMod | partialMod | newMod
deriving DecidableEq

namespace Modifier

/-- The order in which listings name modifiers. -/
def all : List Modifier :=
  [.publicMod, .privateMod, .protectedMod, .internalMod, .staticMod, .readOnlyMod, .constMod,
   .abstractMod, .sealedMod, .virtualMod, .overrideMod, .externMod, .unsafeMod, .volatileMod,
   .asyncMod, .partialMod, .newMod]

def name : Modifier → String
  | .publicMod => "PUBLIC"
  | .privateMod => "PRIVATE"
  | .protectedMod => "PROTECTED"
  | .internalMod => "INTERNAL"
  | .staticMod => "STATIC"
  | .readOnlyMod => "READONLY"
  | .constMod => "CONST"
  | .abstractMod => "ABSTRACT"
  | .sealedMod => "SEALED"
  | .virtualMod => "VIRTUAL"
  | .overrideMod => "OVERRIDE"
  | .externMod => "EXTERN"
  | .unsafeMod => "UNSAFE"
  | .volatileMod => "VOLATILE"
  | .asyncMod => "ASYNC"
  | .partialMod => "PARTIAL"
  | .newMod => "NEW"

def ofKeyword? : Keyword → Option Modifier
  | .kwPublic => some .publicMod
  | .kwPrivate => some .privateMod
  | .kwProtected => some .protectedMod
  | .kwInternal => some .internalMod
  | .kwStatic => some .staticMod
  | .kwReadOnly => some .readOnlyMod
  | .kwConst => some .constMod
  | .kwAbstract => some .abstractMod
  | .kwSealed => some .sealedMod
  | .kwVirtual => some .virtualMod
  | .kwOverride => some .overrideMod
  | .kwExtern => some .externMod
  | .kwUnsafe => some .unsafeMod
  | .kwVolatile => some .volatileMod
  | .kwNew => some .newMod
  | _ => none

/-- The modifier that an identifier of this spelling can be. -/
def ofContextual? : String → Option Modifier
  | "async" => some .asyncMod
  | "partial" => some .partialMod
  | _ => none

theorem mem_all (m : Modifier) : m ∈ all := by cases m <;> decide

theorem isSome_ofKeyword? (k : Keyword) : (ofKeyword? k).isSome = k.isModifier := by
  cases k <;> rfl

end Modifier

/-- The modifiers of a declaration, in the order in which they are written. -/
abbrev Modifiers := List Modifier

namespace Modifiers

/-- Each modifier once, in the order of listings. -/
def render (ms : Modifiers) : String :=
  match Modifier.all.filter (ms.contains ·) with
  | [] => "NONE"
  | ms => "|".intercalate (ms.map Modifier.name)

end Modifiers

end CSharpFront
