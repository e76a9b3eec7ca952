import CSharpFront.Binding.Unit
/-!
How labels are used in a tree. A block declares the labels directly before its statements, a
statement that is part of another one those directly before itself, and the statements outside types
together those directly before them. A `goto` means the first declaration of its label in the nearest
scope around it that has one.
-/

namespace CSharpFront

/-- The first of some labels that has a name. A missing label has none. -/
def Identifier.first? (labels : List Identifier) (name : String) : Option Identifier :=
  labels.find? fun l => !l.isMissing && l.text == name

/-- A label that is declared, after others in the same scope. -/
structure LabelDeclaration where
  label : Identifier
  earlier : List Identifier

/-- Whether the label has been declared before. -/
def LabelDeclaration.isRepeated (d : LabelDeclaration) : Bool :=
  !d.label.isMissing && (Identifier.first? d.earlier d.label.text).isSome

/-- A `goto`, with the labels of each scope around it, the nearest first. -/
structure Goto where
  label : Identifier
  around : List (List Identifier)

namespace Goto

/-- The declaration of the label that is meant. -/
def target? (g : Goto) : Option Identifier :=
  if g.label.isMissing then none else g.around.findSome? (Identifier.first? · g.label.text)

/-- Whether a label is looked for that no scope around declares. -/
def isLost (g : Goto) : Bool := !g.label.isMissing && g.target?.isNone

end Goto

/-- What a tree says of a label. -/
inductive LabelUse
  | declaration (declaration : LabelDeclaration)
  | goto (goto : Goto)

namespace LabelUse

def declaration? : LabelUse → Option LabelDeclaration
  | .declaration d => some d
  | .goto _ => none

def goto? : LabelUse → Option Goto
  | .declaration _ => none
  | .goto g => some g

/-- What is reported of a use. -/
def reports : LabelUse → List Diagnostic
  | .declaration d =>
    if d.isRepeated then [.of .duplicateLabel d.label.span [d.label.text]] else []
  | .goto g => if g.isLost then [.of .noSuchLabel g.label.span [g.label.text]] else []

/-- The place of the label to which a jump is noted. -/
def noted? : LabelUse → Option Nat
  | .declaration _ => none
  | .goto g => g.target?.map (·.range.start)

/-- Labels that are declared in one scope after others. -/
def declarations (earlier : List Identifier) : List Identifier → List LabelUse
  | [] => []
  | l :: ls => .declaration ⟨l, earlier⟩ :: declarations (earlier ++ [l]) ls

/-- The labels of a new scope, and then the uses within it. -/
def inScope (own : List Identifier) (around : List (List Identifier))
    (inner : List (List Identifier) → List LabelUse) : List LabelUse :=
  declarations [] own ++ inner (own :: around)

end LabelUse

/-! ### Statements -/

mutual

/-- The uses of labels in a statement with scopes around it, in the order in which it is bound. -/
def Stmt.labelUses (around : List (List Identifier)) : Stmt → List LabelUse
  | .block ⟨_, _, ss, _⟩ =>
    LabelUse.inScope (ss.flatMap Stmt.labels) around fun around => Stmt.allLabelUses around ss
  | .ifElse _ _ s s? =>
    (LabelUse.inScope s.labels around fun around => s.labelUses around) ++
      match s? with
      | some s => LabelUse.inScope s.labels around fun around => s.labelUses around
      | none => []
  | .whileLoop _ _ s | .doLoop _ s _ | .forLoop _ _ s =>
    LabelUse.inScope s.labels around fun around => s.labelUses around
  | .labeled _ _ s => s.labelUses around
  | .goto _ l => [.goto ⟨l, around⟩]
  | .empty _ | .localDeclaration _ _ _ _ | .expression _ _ _ | .returnValue _ _ | .breakLoop _
  | .continueLoop _ => []

def Stmt.allLabelUses (around : List (List Identifier)) : List Stmt → List LabelUse
  | [] => []
  | s :: ss => s.labelUses around ++ Stmt.allLabelUses around ss

end

/-! ### Bodies -/

/-- The uses in a body, around which there are no other scopes. -/
def Block.labelUses? : Option Block → List LabelUse
  | some b => (Stmt.block b).labelUses []
  | none => []

mutual

/-- The uses in the bodies of a type. Those of a type without a name are passed over. -/
def TypeDeclaration.labelUses : TypeDeclaration → List LabelUse
  | ⟨_, _, _, i, members⟩ => if i.isMissing then [] else ClassMember.allLabelUses members

def ClassMember.labelUses : ClassMember → List LabelUse
  | .method m => Block.labelUses? m.body?
  | .conversion o => Block.labelUses? o.body?
  | .nestedType d => d.labelUses
  | .field _ | .incomplete _ => []

def ClassMember.allLabelUses : List ClassMember → List LabelUse
  | [] => []
  | m :: ms => m.labelUses ++ ClassMember.allLabelUses ms

end

mutual

/-- The uses in a member, where the statements outside types declare some labels. -/
def Member.labelUses (globals : List Identifier) : Member → List LabelUse
  | .namespaceMember n => n.labelUses globals
  | .typeMember d => d.labelUses
  | .globalStatement s => s.labelUses [globals]
  | .incomplete _ => []

def Member.allLabelUses (globals : List Identifier) : List Member → List LabelUse
  | [] => []
  | m :: ms => m.labelUses globals ++ Member.allLabelUses globals ms

def NamespaceDeclaration.labelUses (globals : List Identifier) :
    NamespaceDeclaration → List LabelUse
  | ⟨_, _, _, members⟩ => Member.allLabelUses globals members

end

namespace CompilationUnit

/-- The uses of labels in a unit. -/
def labelUses (u : CompilationUnit) : List LabelUse :=
  let globals := u.globalStatements.flatMap Stmt.labels
  LabelUse.declarations [] globals ++ Member.allLabelUses globals u.members

/-- The labels that are declared in a unit, each with those before it in its scope. -/
def labelDeclarations (u : CompilationUnit) : List LabelDeclaration :=
  u.labelUses.filterMap LabelUse.declaration?

/-- The `goto` statements of a unit, each with the scopes around it. -/
def gotos (u : CompilationUnit) : List Goto := u.labelUses.filterMap LabelUse.goto?

end CompilationUnit

end CSharpFront
