import CSharpFront.Cancellation
import CSharpFront.Binding.Statements
import CSharpFront.Syntax.Bodies
/-!
Binding whole units. The types of a unit are declared before any body is bound. Before each member
the binder asks whether it has been cancelled; what it has reported until then stays.
-/

namespace CSharpFront

namespace Binding

/-- Binding with the questions for cancellation that are left. -/
abbrev Cancellable := ExceptT Cancelled (StateT Polls BindM)

def poll : Cancellable Unit := do
  match (← getThe Polls).ask with
  | .ok polls => set polls
  | .error e => throw e

/-! ### Members of types -/

def field (c : Context) (f : Field) : BindM Unit := do
  let t ← c.resolve f.declaration.type
  f.declaration.declarators.forM fun d =>
    match d.initializer? with
    | some e => initialValue c t e
    | none => pure ()

/-- Binds a body in a scope of its own, around that of its block, with its parameters. -/
def body (c : Context) (returns? : Option Ty) (parameters : List Parameter)
    (block? : Option Block) : BindM Unit := do
  let c ← parameters.foldlM (fun c p => do c.declare p.identifier (← c.resolve p.type))
    { c with returns? }
  match block? with
  | some b => let _ ← statement c (.block b)
  | none => pure ()

mutual

/-- Binds a class or a struct; one without a name is passed over. -/
def typeDeclaration (c : Context) (container : String) : TypeDeclaration → Cancellable Unit
  | ⟨_, _, _, i, members⟩ => do
    unless i.isMissing do
      let name := qualify container i.text
      classMembers { c with owner? := c.names.find? name } name members

def classMember (c : Context) (owner : String) : ClassMember → Cancellable Unit
  | .field f => field c f
  | .method m => do
    let returns? ←
      match m.returnType? with
      | some type => some <$> c.resolve type
      | none => pure none
    body c returns? m.parameters m.body?
  | .conversion o => do
    let t ← c.resolve o.type
    body c (some t) o.parameters o.body?
  | .nestedType d => typeDeclaration c owner d
  | .incomplete _ => pure ()

def classMembers (c : Context) (owner : String) : List ClassMember → Cancellable Unit
  | [] => pure ()
  | m :: ms => do
    poll
    classMember c owner m
    classMembers c owner ms

end

/-! ### Members of namespaces -/

mutual

/-- Binds a member and gives the scopes of the global statements after it. -/
def member (c : Context) (container : String) (globals : ScopeChain) :
    Member → Cancellable ScopeChain
  | .namespaceMember n => namespaceDeclaration c container globals n
  | .typeMember d => do
    typeDeclaration c container d
    return globals
  | .globalStatement s => do
    return (← statement { c with scopes := globals } s).scopes
  | .incomplete _ => return globals

def members (c : Context) (container : String) (globals : ScopeChain) :
    List Member → Cancellable ScopeChain
  | [] => return globals
  | m :: ms => do
    poll
    members c container (← member c container globals m) ms

def namespaceDeclaration (c : Context) (container : String) (globals : ScopeChain) :
    NamespaceDeclaration → Cancellable ScopeChain
  | ⟨_, name, _, ms⟩ => members c (qualify container name.dotted) globals ms

end

/-- Binds the bodies of a unit in the context of its declarations. -/
def unit (c : Context) (u : CompilationUnit) : Cancellable Unit := do
  let globals ← declareLabels c u.globalStatements
  let _ ← members c "" globals.scopes u.members

end Binding

/-- What is left of a unit once it is bound. -/
@[ext] structure BoundUnit where
  declarations : Declarations
  state : Binding.State

namespace BoundUnit

/-- Whether some `goto` jumps to the label whose name starts at a place. -/
def isReferenced (b : BoundUnit) (place : Nat) : Bool := b.state.referenced.contains place

/-- The types that came up. -/
def listing (b : BoundUnit) : Listing := b.state.listing

end BoundUnit

/-- Binds a unit after what was reported before. It also says whether the unit was bound to its end,
and how many questions for cancellation are left. -/
def bindUnit (u : CompilationUnit) (diagnostics : Array Diagnostic) (polls : Polls) :
    Except Cancelled Unit × Polls × BoundUnit :=
  let ds := Declarations.ofMembers u.members
  let run := (Binding.unit (.of ds) u).run polls { listing := ds.listing, diagnostics }
  let ((result, polls), state) := run.run
  (result, polls, ⟨ds, state⟩)

end CSharpFront
