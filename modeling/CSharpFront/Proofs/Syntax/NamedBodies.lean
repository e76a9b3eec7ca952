import CSharpFront.Proofs.Syntax.Marks
import CSharpFront.Syntax.Bodies
import Mathlib.Data.List.Nodup
/-!
The bodies of a unit, each with whether all the types around it have names, and the labels in them.
-/

namespace CSharpFront

/-- The statements that stand among some members. -/
def Member.globals (ms : List Member) : List Stmt :=
  ms.filterMap fun
    | .globalStatement s => some s
    | _ => none

/-- A body, with whether all the types around it have names. -/
structure Body where
  isNamed : Bool
  statements : List Stmt

mutual

/-- The bodies of a type, where the types around it have names or not. -/
def TypeDeclaration.namedBodies (named : Bool) : TypeDeclaration → List Body
  | ⟨_, _, _, i, members⟩ => ClassMember.allNamedBodies (named && !i.isMissing) members

def ClassMember.namedBodies (named : Bool) : ClassMember → List Body
  | .method m => (Block.statementsOf m.body?).map (.mk named)
  | .conversion o => (Block.statementsOf o.body?).map (.mk named)
  | .nestedType d => d.namedBodies named
  | .field _ | .incomplete _ => []

def ClassMember.allNamedBodies (named : Bool) : List ClassMember → List Body
  | [] => []
  | m :: ms => m.namedBodies named ++ ClassMember.allNamedBodies named ms

end

mutual

def Member.namedBodies : Member → List Body
  | .namespaceMember n => n.namedBodies
  | .typeMember d => d.namedBodies true
  | .globalStatement _ | .incomplete _ => []

def Member.allNamedBodies : List Member → List Body
  | [] => []
  | m :: ms => m.namedBodies ++ Member.allNamedBodies ms

def NamespaceDeclaration.namedBodies : NamespaceDeclaration → List Body
  | ⟨_, _, _, members⟩ => Member.allNamedBodies members

end

def CompilationUnit.namedBodies (u : CompilationUnit) : List Body :=
  ⟨true, u.globalStatements⟩ :: Member.allNamedBodies u.members

mutual

/-- No statements stand among the members of a namespace. -/
def Member.Sorted : Member → Prop
  | .namespaceMember n => n.Sorted
  | .typeMember _ | .globalStatement _ | .incomplete _ => True

def Member.AllSorted : List Member → Prop
  | [] => True
  | m :: ms => m.Sorted ∧ Member.AllSorted ms

def NamespaceDeclaration.Sorted : NamespaceDeclaration → Prop
  | ⟨_, _, _, members⟩ => Member.globals members = [] ∧ Member.AllSorted members

end

theorem Member.allSorted_iff {ms : List Member} : Member.AllSorted ms ↔ ∀ m ∈ ms, m.Sorted := by
  induction ms with
  | nil => simp [AllSorted]
  | cons m ms ih => simp [AllSorted, ih]

/-! ### They are the bodies -/

mutual

theorem TypeDeclaration.map_namedBodies (named : Bool) : (d : TypeDeclaration) →
    (d.namedBodies named).map Body.statements = d.bodies
  | ⟨_, _, _, _, ms⟩ => ClassMember.map_allNamedBodies _ ms

theorem ClassMember.map_namedBodies (named : Bool) : (m : ClassMember) →
    (m.namedBodies named).map Body.statements = m.bodies
  | .method m => by
    simp [ClassMember.namedBodies, ClassMember.bodies, Function.comp_def]
  | .conversion o => by
    simp [ClassMember.namedBodies, ClassMember.bodies, Function.comp_def]
  | .nestedType d => d.map_namedBodies named
  | .field _ | .incomplete _ => rfl

theorem ClassMember.map_allNamedBodies (named : Bool) : (ms : List ClassMember) →
    (ClassMember.allNamedBodies named ms).map Body.statements = ClassMember.allBodies ms
  | [] => rfl
  | m :: ms => by
    rw [ClassMember.allNamedBodies, ClassMember.allBodies, List.map_append,
      m.map_namedBodies named, ClassMember.map_allNamedBodies named ms]

end

mutual

theorem Member.map_namedBodies : (m : Member) → m.namedBodies.map Body.statements = m.bodies
  | .namespaceMember n => n.map_namedBodies
  | .typeMember d => d.map_namedBodies true
  | .globalStatement _ | .incomplete _ => rfl

theorem Member.map_allNamedBodies : (ms : List Member) →
    (Member.allNamedBodies ms).map Body.statements = Member.allBodies ms
  | [] => rfl
  | m :: ms => by
    rw [Member.allNamedBodies, Member.allBodies, List.map_append, m.map_namedBodies,
      Member.map_allNamedBodies ms]

theorem NamespaceDeclaration.map_namedBodies : (n : NamespaceDeclaration) →
    n.namedBodies.map Body.statements = n.bodies
  | ⟨_, _, _, ms⟩ => Member.map_allNamedBodies ms

end

theorem CompilationUnit.map_namedBodies (u : CompilationUnit) :
    u.namedBodies.map Body.statements = u.bodies :=
  congrArg (u.globalStatements :: ·) (Member.map_allNamedBodies u.members)

/-! ### Labels -/

@[simp] theorem Mark.label?_cast (k : Cast) : (Mark.cast k).label? = none := rfl

/-- The labels of a statement in the order of the text, without those whose name is missing. -/
def Stmt.namedLabels (s : Stmt) : List Identifier := (s.marks .everywhere).filterMap Mark.label?

def Stmt.allLabels (ss : List Stmt) : List Identifier :=
  (Stmt.allMarks .everywhere ss).filterMap Mark.label?

theorem Stmt.allLabels_cons (s : Stmt) (ss : List Stmt) :
    Stmt.allLabels (s :: ss) = s.namedLabels ++ Stmt.allLabels ss :=
  List.filterMap_append

section

variable (r : Range) (e : Expr) (body other : Stmt)

theorem Stmt.namedLabels_ifElse :
    (Stmt.ifElse r e body none).namedLabels = body.namedLabels := by
  simp [namedLabels, marks]

theorem Stmt.namedLabels_ifElse_some :
    (Stmt.ifElse r e body (some other)).namedLabels = body.namedLabels ++ other.namedLabels := by
  simp [namedLabels, marks]

theorem Stmt.namedLabels_whileLoop :
    (Stmt.whileLoop r e body).namedLabels = body.namedLabels := by
  simp [namedLabels, marks]

theorem Stmt.namedLabels_doLoop : (Stmt.doLoop r body e).namedLabels = body.namedLabels := by
  simp [namedLabels, marks]

theorem Stmt.namedLabels_forLoop (h : ForHeader) :
    (Stmt.forLoop r h body).namedLabels = body.namedLabels := by
  simp [namedLabels, marks]

theorem Stmt.namedLabels_labeled (l : Identifier) :
    (Stmt.labeled r l body).namedLabels =
      (if l.isMissing then [] else [l]) ++ body.namedLabels := by
  rw [namedLabels, marks, List.filterMap_append]
  split <;> rfl

end

def Body.labels (b : Body) : List Identifier := Stmt.allLabels b.statements

theorem Block.flatMap_labels (named : Bool) (b? : Option Block) :
    ((Block.statementsOf b?).map (Body.mk named)).flatMap Body.labels =
      (Block.marks? .everywhere b?).filterMap Mark.label? := by
  cases b? <;> simp [Block.statementsOf, Block.marks?, Body.labels, Stmt.allLabels]

mutual

/-- The labels of a type are those of its bodies. -/
theorem TypeDeclaration.flatMap_labels (named : Bool) : (d : TypeDeclaration) →
    (d.namedBodies named).flatMap Body.labels = (d.marks .everywhere).filterMap Mark.label?
  | ⟨_, _, _, i, ms⟩ => by
    have hmembers := ClassMember.flatMap_allLabels (named && !i.isMissing) ms
    simpa [TypeDeclaration.namedBodies, TypeDeclaration.marks] using hmembers

theorem ClassMember.flatMap_labels (named : Bool) : (m : ClassMember) →
    (m.namedBodies named).flatMap Body.labels = (m.marks .everywhere).filterMap Mark.label?
  | .method m => Block.flatMap_labels named m.body?
  | .conversion o => Block.flatMap_labels named o.body?
  | .nestedType d => d.flatMap_labels named
  | .field _ => by
    simp [ClassMember.namedBodies, ClassMember.marks]
  | .incomplete _ => rfl

theorem ClassMember.flatMap_allLabels (named : Bool) : (ms : List ClassMember) →
    (ClassMember.allNamedBodies named ms).flatMap Body.labels =
      (ClassMember.allMarks .everywhere ms).filterMap Mark.label?
  | [] => rfl
  | m :: ms => by
    rw [ClassMember.allNamedBodies, ClassMember.allMarks, List.flatMap_append,
      List.filterMap_append, m.flatMap_labels named, ClassMember.flatMap_allLabels named ms]

end

mutual

/-- The statements and bodies of members have no labels that the members have not. -/
theorem Member.countP_labels_le (p : Identifier → Bool) : (ms : List Member) →
    (Stmt.allLabels (Member.globals ms)).countP p +
        ((Member.allNamedBodies ms).flatMap Body.labels).countP p ≤
      ((Member.allMarks .everywhere ms).filterMap Mark.label?).countP p
  | [] => Nat.le_refl 0
  | .namespaceMember n :: ms => by
    have hn := n.countP_labels_le p
    have hms := Member.countP_labels_le p ms
    have hglobals : Member.globals (.namespaceMember n :: ms) = Member.globals ms := rfl
    simp only [hglobals, Member.allNamedBodies, Member.namedBodies, Member.allMarks, Member.marks,
      List.flatMap_append, List.filterMap_append, List.countP_append]
    omega
  | .typeMember d :: ms => by
    have hms := Member.countP_labels_le p ms
    have hglobals : Member.globals (.typeMember d :: ms) = Member.globals ms := rfl
    simp only [hglobals, Member.allNamedBodies, Member.namedBodies, Member.allMarks, Member.marks,
      List.flatMap_append, List.filterMap_append, List.countP_append, d.flatMap_labels]
    omega
  | .globalStatement s :: ms => by
    have hms := Member.countP_labels_le p ms
    have hglobals : Member.globals (.globalStatement s :: ms) = s :: Member.globals ms := rfl
    simp only [hglobals, Stmt.allLabels_cons, Stmt.namedLabels, Member.allNamedBodies,
      Member.namedBodies, Member.allMarks, Member.marks, List.nil_append, List.filterMap_append,
      List.countP_append]
    omega
  | .incomplete _ :: ms => Member.countP_labels_le p ms

theorem NamespaceDeclaration.countP_labels_le (p : Identifier → Bool) :
    (n : NamespaceDeclaration) →
    (n.namedBodies.flatMap Body.labels).countP p ≤
      ((n.marks .everywhere).filterMap Mark.label?).countP p
  | ⟨_, _, _, ms⟩ => Nat.le_trans (Nat.le_add_left _ _) (Member.countP_labels_le p ms)

end

theorem Mark.sublist_labels (ms : List Mark) :
    ((ms.filterMap Mark.label?).map (·.range.start)).Sublist (ms.map Mark.start) := by
  induction ms with
  | nil => exact .refl _
  | cons m ms ih =>
    cases m with
    | cast k => exact ih.cons _
    | label l => exact ih.cons_cons _

/-- Where no two marks of a unit begin at one place, no two labels of its bodies do. -/
theorem CompilationUnit.nodup_labels {u : CompilationUnit}
    (h : ((u.marks .everywhere).map Mark.start).Nodup) :
    ((u.namedBodies.flatMap Body.labels).map (·.range.start)).Nodup := by
  have hlabels := h.sublist (Mark.sublist_labels _)
  rw [List.nodup_iff_count_le_one] at hlabels ⊢
  intro place
  refine Nat.le_trans ?_ (hlabels place)
  show List.countP _ _ ≤ List.countP _ _
  rw [List.countP_map, List.countP_map, CompilationUnit.namedBodies, List.flatMap_cons,
    List.countP_append]
  exact Member.countP_labels_le _ u.members

end CSharpFront
