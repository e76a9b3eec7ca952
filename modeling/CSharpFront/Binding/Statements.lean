import CSharpFront.Binding.Expressions
/-!
Binding statements. A statement is bound in a context and gives the context of the statements after
it, which differs only in the variables that the statement declares. The labels of a block are
declared before its first statement, so that a `goto` may jump forward.
-/

namespace CSharpFront

namespace Stmt

def isBlock : Stmt → Bool
  | .block _ => true
  | _ => false

/-- The labels directly before a statement. -/
def labels : Stmt → List Identifier
  | .labeled _ l s => l :: s.labels
  | _ => []

end Stmt

namespace Binding

/-! ### Labels -/

/-- The context with a label in its innermost scope, which must not have one of that name. -/
def declareLabel (c : Context) (l : Identifier) : BindM Context := do
  if l.isMissing then return c
  match c.scopes.declareLabel? l.text l.range.start with
  | some scopes => return { c with scopes }
  | none =>
    report .duplicateLabel l.span [l.text]
    return c

/-- The context with the labels before some statements. -/
def declareLabels (c : Context) (ss : List Stmt) : BindM Context :=
  (ss.flatMap Stmt.labels).foldlM declareLabel c

/-- The context of a statement that is part of another. Unless it is a block, which sees to that by
itself, it has a scope of its own. -/
def embed (c : Context) (s : Stmt) : BindM Context :=
  if s.isBlock then pure c else declareLabels c.push [s]

/-- Notes the label to which a `goto` jumps, or complains that there is none. -/
def goto (c : Context) (l : Identifier) : BindM Unit := do
  unless l.isMissing do
    match c.scopes.findLabel? l.text with
    | some place => modify fun s => { s with referenced := place :: s.referenced }
    | none => report .noSuchLabel l.span [l.text]

/-! ### Variables -/

/-- The type of a variable that takes it from its initializer. -/
def inferredType (c : Context) : Option Expr → BindM Ty
  | some e => do
    let t := (← expression c none e).valueType
    return if t = .null ∨ t = .void then .error else t
  | none => return .error

/-- The context with a variable of a declared type, or of the type of its initializer. -/
def declarator (declared? : Option Ty) (c : Context) (d : Declarator) : BindM Context := do
  let t ←
    match declared?, d.initializer? with
    | some t, some e => do
      initialValue c t e
      pure t
    | some t, none => pure t
    | none, e? => inferredType c e?
  c.declare d.identifier t

def declareVariables (c : Context) (d : VariableDeclaration) : BindM Context := do
  let declared? ← if d.type.isVar then pure none else some <$> c.resolve d.type
  d.declarators.foldlM (declarator declared?) c

/-! ### Statements -/

/-- The context of a loop's body, where only expressions and variables stand before it. -/
def forHeader (c : Context) (h : ForHeader) : BindM Context := do
  let c ←
    match h.initializer? with
    | some (.declaration d) => declareVariables c d
    | some (.expressions es) => do
      let _ ← expressions c es
      pure c
    | none => pure c
  match h.condition? with
  | some e => condition c e
  | none => pure ()
  let _ ← expressions c h.incrementors
  return c

/-- Binds what a body returns. A body that returns nothing known takes any value. -/
def returnValue (c : Context) : Option Expr → BindM Unit
  | none => pure ()
  | some e => do
    let t := (← expression c none e).valueType
    match c.returns? with
    | some target => unless target = .void do c.assign e t target
    | none => pure ()

mutual

/-- Binds a statement and gives the context of the statements after it. -/
def statement (c : Context) : Stmt → BindM Context
  | .block ⟨_, _, ss, _⟩ => do
    let _ ← statements (← declareLabels c.push ss) ss
    return c
  | .empty _ => return c
  | .localDeclaration _ _ d _ => declareVariables c d
  | .expression _ e _ => do
    let _ ← expression c none e
    return c
  | .ifElse _ e s s? => do
    condition c e
    let _ ← statement (← embed c s) s
    match s? with
    | some s => let _ ← statement (← embed c s) s
    | none => pure ()
    return c
  | .whileLoop _ e s => do
    condition c e
    let _ ← statement (← embed { c with inLoop := true } s) s
    return c
  | .doLoop _ s e => do
    let _ ← statement (← embed { c with inLoop := true } s) s
    condition c e
    return c
  | .forLoop _ h s => do
    let inner ← forHeader c.push h
    let _ ← statement (← embed { inner with inLoop := true } s) s
    return c
  | .returnValue _ e? => do
    returnValue c e?
    return c
  | .breakLoop r | .continueLoop r => do
    unless c.inLoop do report .noEnclosingLoop r.toSpan
    return c
  | .goto _ l => do
    goto c l
    return c
  | .labeled _ _ s => statement c s

def statements (c : Context) : List Stmt → BindM Context
  | [] => return c
  | s :: ss => do statements (← statement c s) ss

end

end Binding

end CSharpFront
