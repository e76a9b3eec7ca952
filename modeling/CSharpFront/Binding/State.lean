import CSharpFront.Binding.Constant
import CSharpFront.Binding.Declarations
import CSharpFront.Binding.Library
import CSharpFront.Binding.Scope
import CSharpFront.Types.Assignment
/-!
The state of binding and its elementary steps. What a construct can see is a context, which is
handed down; only the listing of types, the labels that are jumped to and the diagnostics are
carried along.
-/

namespace CSharpFront.Binding

/-- What the binding of a construct can see. -/
@[ext] structure Context where
  names : NamedTypes
  members : Members
  conversions : List DeclaredConversion
  scopes : ScopeChain := {}
  /-- The type in whose body the construct stands. -/
  owner? : Option Ty := none
  /-- What the body returns. -/
  returns? : Option Ty := none
  /-- Whether a loop surrounds the construct. -/
  inLoop : Bool := false

@[ext] structure State where
  listing : Listing := {}
  diagnostics : Array Diagnostic := #[]
  /-- The places of the labels that some `goto` means. -/
  referenced : List Nat := []

abbrev BindM := StateM State

def report (message : Message) (span : Span) (arguments : List String := []) : BindM Unit :=
  modify fun s => { s with diagnostics := s.diagnostics.push (.of message span arguments) }

def complain (d? : Option Diagnostic) : BindM Unit :=
  match d? with
  | none => pure ()
  | some d => modify fun s => { s with diagnostics := s.diagnostics.push d }

/-- Lists a type and gives it back. -/
def list (t : Ty) : BindM Ty := do
  modify fun s => { s with listing := s.listing.add t }
  return t

namespace Context

/-- The context of the members of a text. -/
def of (ds : Declarations) : Context :=
  { names := ds.names, members := ds.members, conversions := ds.conversions }

/-- The type that syntax means. -/
def resolve (c : Context) (type : TypeSyntax) : BindM Ty := do
  let s ← get
  let (t, listing) := (type.resolve c.names).run s.listing
  set { s with listing }
  return t

/-- The context inside a new scope. -/
def push (c : Context) : Context := { c with scopes := c.scopes.push }

/-! ### Variables -/

/-- The context with a variable in its innermost scope, which must not have one of that name. -/
def declare (c : Context) (i : Identifier) (t : Ty) : BindM Context := do
  if i.isMissing then return c
  match c.scopes.declareLocal? i.text ⟨t, i.span⟩ with
  | some scopes => return { c with scopes }
  | none =>
    report .duplicateLocal i.span [i.text]
    return c

/-- The context with a range variable, which quietly hides another. -/
def shadow (c : Context) (i : Identifier) (t : Ty) : Context :=
  if i.isMissing then c else { c with scopes := c.scopes.shadow i.text ⟨t, i.span⟩ }

def ownField? (c : Context) (name : String) : Option Ty := do
  c.members.field? (← c.owner?) name

def ownMethod? (c : Context) (name : String) : Option Ty := do
  c.members.method? (← c.owner?) name

/-- What a name means: a variable, a field of the type around it, or a type of the text. -/
def denote (c : Context) (i : Identifier) : Denotation :=
  if i.isMissing then .unknown
  else match c.scopes.findLocal? i.text with
    | some l => .value l.type
    | none =>
      match c.ownField? i.text with
      | some t => .value t
      | none =>
        match c.names.find? i.text with
        | some t => .type t
        | none => .unknown

/-! ### Checks -/

/-- Whether an expression of type `int` is a constant that the other type holds. -/
def isConstantOf (e : Expr) (source target : Ty) : Bool :=
  source == .int &&
    match target.unlifted.special?, e.integerConstant? with
    | some s, some n => s.holds n
    | _, _ => false

/-- Complains unless an expression converts to a type by itself. -/
def assign (c : Context) (e : Expr) (source target : Ty) : BindM Unit :=
  if isConstantOf e source target then pure ()
  else complain (Ty.mismatch? c.conversions e.span source target)

/-- Complains unless an expression can be a condition. -/
def require (c : Context) (condition : Expr) (t : Ty) : BindM Unit :=
  complain (Ty.checkCondition c.conversions (some condition) t).2

/-- Complains unless a cast can convert a type. -/
def requireCast (c : Context) (span : Span) (source target : Ty) : BindM Unit :=
  if !source.isError && !target.isError && source.conversion c.conversions target == .none then
    report .noConversion span [source.display, target.display]
  else pure ()

end Context

end CSharpFront.Binding
