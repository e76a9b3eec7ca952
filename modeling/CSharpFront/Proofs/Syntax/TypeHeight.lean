import CSharpFront.Syntax.Tree
import Mathlib.Order.MinMax
/-!
The types of a tree and their heights. Later stages go down a type by recursion, so its height is
how deep they recurse. A type is built of brackets and dots, which the parser adds in loops, and of
levels, for which it recurs itself.
-/

namespace CSharpFront

/-! ### Heights -/

mutual

/-- How many types lie on a path from a type down to a leaf, at the most. -/
def TypeSyntax.height : TypeSyntax → Nat
  | .predefined _ _ | .name _ | .missing _ => 1
  | .qualified _ l r => max l.height r.height + 1
  | .generic _ _ as => TypeSyntax.heights as + 1
  | .nullable _ t => t.height + 1
  | .array _ t _ => t.height + 1

def TypeSyntax.heights : List TypeSyntax → Nat
  | [] => 0
  | t :: ts => max t.height (TypeSyntax.heights ts)

end

mutual

/-- How many pairs of brackets and dots lie on such a path, at the most. -/
def TypeSyntax.links : TypeSyntax → Nat
  | .predefined _ _ | .name _ | .missing _ => 0
  | .qualified _ l r => max l.links r.links + 1
  | .generic _ _ as => TypeSyntax.allLinks as
  | .nullable _ t => t.links
  | .array _ t _ => t.links + 1

def TypeSyntax.allLinks : List TypeSyntax → Nat
  | [] => 0
  | t :: ts => max t.links (TypeSyntax.allLinks ts)

end

namespace TypeSyntax

/-- A type is no higher than some number of levels, with its brackets and dots on top. -/
def Within (n : Nat) (t : TypeSyntax) : Prop := t.height ≤ n + t.links

variable {n k : Nat} {t l r : TypeSyntax} {ts : List TypeSyntax}

theorem Within.mono (h : t.Within n) (hn : n ≤ k) : t.Within k := by
  unfold Within at *
  omega

theorem within_predefined (range : Range) (s : SpecialType) :
    (predefined range s).Within (n + 1) := by
  simp [Within, height, links]

theorem within_name (i : Identifier) : (name i).Within (n + 1) := by
  simp [Within, height, links]

theorem within_missing (pos : Nat) : (missing pos).Within (n + 1) := by
  simp [Within, height, links]

theorem Within.nullable (h : t.Within n) (range : Range) :
    (nullable range t).Within (n + 1) := by
  simp only [Within, height, links] at *
  omega

theorem Within.array (h : t.Within n) (range : Range) (rank : Nat) :
    (array range t rank).Within n := by
  simp only [Within, height, links] at *
  omega

theorem Within.qualified (hl : l.Within n) (hr : r.Within n) (range : Range) :
    (qualified range l r).Within n := by
  simp only [Within, height, links] at *
  omega

theorem heights_le (h : ∀ t ∈ ts, t.Within n) : heights ts ≤ n + allLinks ts := by
  induction ts with
  | nil => exact Nat.zero_le _
  | cons t ts ih =>
    obtain ⟨ht, hts⟩ := List.forall_mem_cons.mp h
    have hrest := ih hts
    simp only [Within, heights, allLinks] at *
    omega

theorem within_generic (h : ∀ t ∈ ts, t.Within n) (range : Range) (i : Identifier) :
    (generic range i ts).Within (n + 1) := by
  have hargs := heights_le h
  simp only [Within, height, links] at *
  omega

end TypeSyntax

/-! ### The types of a tree -/

mutual

/-- The types of an expression, in the order of the text. -/
@[simp] def Expr.typeNodes : Expr → List TypeSyntax
  | .identifier _ | .literal _ | .thisWord _ | .predefinedType _ _ | .missing _ => []
  | .parenthesized _ e | .prefixUnary _ _ e | .postfixUnary _ e _ | .await _ e => e.typeNodes
  | .memberAccess _ e _ _ => e.typeNodes
  | .binary _ l _ r | .assignment _ l _ r => l.typeNodes ++ r.typeNodes
  | .conditional _ c t f => c.typeNodes ++ (t.typeNodes ++ f.typeNodes)
  | .cast _ t e => t :: e.typeNodes
  | .typeTest _ e _ t => e.typeNodes ++ [t]
  | .invocation _ e as | .elementAccess _ e as => e.typeNodes ++ Expr.allTypeNodes as
  | .objectCreation _ t as? i? => t :: (Expr.typeNodes? as? ++ Initializer.typeNodes? i?)
  | .arrayCreation _ t ss i? => t :: (Expr.allTypeNodes ss ++ Initializer.typeNodes? i?)
  | .implicitArrayCreation _ i | .initializer i => i.typeNodes
  | .query _ s b => s.typeNodes ++ b.typeNodes

@[simp] def Expr.allTypeNodes : List Expr → List TypeSyntax
  | [] => []
  | e :: es => e.typeNodes ++ Expr.allTypeNodes es

@[simp] def Expr.typeNodes? : Option (List Expr) → List TypeSyntax
  | none => []
  | some es => Expr.allTypeNodes es

@[simp] def Initializer.typeNodes : Initializer → List TypeSyntax
  | ⟨_, es⟩ => Expr.allTypeNodes es

@[simp] def Initializer.typeNodes? : Option Initializer → List TypeSyntax
  | none => []
  | some i => i.typeNodes

@[simp] def FromClause.typeNodes : FromClause → List TypeSyntax
  | ⟨_, t?, _, e⟩ => t?.toList ++ e.typeNodes

@[simp] def SortKey.typeNodes : SortKey → List TypeSyntax
  | ⟨_, e, _⟩ => e.typeNodes

@[simp] def SortKey.allTypeNodes : List SortKey → List TypeSyntax
  | [] => []
  | k :: ks => k.typeNodes ++ SortKey.allTypeNodes ks

@[simp] def QueryClause.typeNodes : QueryClause → List TypeSyntax
  | .fromClause c => c.typeNodes
  | .letClause _ _ e => e.typeNodes
  | .whereClause _ e => e.typeNodes
  | .orderByClause _ ks => SortKey.allTypeNodes ks

@[simp] def QueryClause.allTypeNodes : List QueryClause → List TypeSyntax
  | [] => []
  | c :: cs => c.typeNodes ++ QueryClause.allTypeNodes cs

@[simp] def QueryEnding.typeNodes : QueryEnding → List TypeSyntax
  | .select _ e => e.typeNodes
  | .group _ e k => e.typeNodes ++ k.typeNodes
  | .missing _ => []

@[simp] def QueryBody.typeNodes : QueryBody → List TypeSyntax
  | ⟨_, cs, e, k?⟩ => QueryClause.allTypeNodes cs ++ (e.typeNodes ++ Continuation.typeNodes? k?)

@[simp] def Continuation.typeNodes : Continuation → List TypeSyntax
  | ⟨_, _, b⟩ => b.typeNodes

@[simp] def Continuation.typeNodes? : Option Continuation → List TypeSyntax
  | none => []
  | some k => k.typeNodes

end

/-! ### Statements -/

def Declarator.typeNodes (d : Declarator) : List TypeSyntax := d.initializer?.elim [] Expr.typeNodes

def VariableDeclaration.typeNodes (d : VariableDeclaration) : List TypeSyntax :=
  d.type :: d.declarators.flatMap Declarator.typeNodes

@[simp] def ForInitializer.typeNodes : ForInitializer → List TypeSyntax
  | .declaration d => d.typeNodes
  | .expressions es => Expr.allTypeNodes es

def ForHeader.typeNodes (h : ForHeader) : List TypeSyntax :=
  h.initializer?.elim [] ForInitializer.typeNodes ++
    (h.condition?.elim [] Expr.typeNodes ++ Expr.allTypeNodes h.incrementors)

mutual

@[simp] def Stmt.typeNodes : Stmt → List TypeSyntax
  | .block b => b.typeNodes
  | .empty _ | .breakLoop _ | .continueLoop _ | .goto _ _ => []
  | .localDeclaration _ _ d _ => d.typeNodes
  | .expression _ e _ => e.typeNodes
  | .ifElse _ c t f? => c.typeNodes ++ (t.typeNodes ++ Stmt.typeNodes? f?)
  | .whileLoop _ c b => c.typeNodes ++ b.typeNodes
  | .doLoop _ b c => b.typeNodes ++ c.typeNodes
  | .forLoop _ h b => h.typeNodes ++ b.typeNodes
  | .returnValue _ e? => e?.elim [] Expr.typeNodes
  | .labeled _ _ b => b.typeNodes

@[simp] def Stmt.typeNodes? : Option Stmt → List TypeSyntax
  | none => []
  | some s => s.typeNodes

@[simp] def Stmt.allTypeNodes : List Stmt → List TypeSyntax
  | [] => []
  | s :: ss => s.typeNodes ++ Stmt.allTypeNodes ss

@[simp] def Block.typeNodes : Block → List TypeSyntax
  | ⟨_, _, ss, _⟩ => Stmt.allTypeNodes ss

end

/-! ### Declarations -/

def Parameter.allTypeNodes (ps : List Parameter) : List TypeSyntax := ps.map (·.type)

def UsingDirective.allTypeNodes (us : List UsingDirective) : List TypeSyntax := us.map (·.name)

mutual

@[simp] def TypeDeclaration.typeNodes : TypeDeclaration → List TypeSyntax
  | ⟨_, _, _, _, ms⟩ => ClassMember.allTypeNodes ms

@[simp] def ClassMember.typeNodes : ClassMember → List TypeSyntax
  | .field f => f.declaration.typeNodes
  | .method m =>
    m.returnType?.toList ++ (Parameter.allTypeNodes m.parameters ++ m.body?.elim [] Block.typeNodes)
  | .conversion o =>
    o.type :: (Parameter.allTypeNodes o.parameters ++ o.body?.elim [] Block.typeNodes)
  | .nestedType d => d.typeNodes
  | .incomplete _ => []

@[simp] def ClassMember.allTypeNodes : List ClassMember → List TypeSyntax
  | [] => []
  | m :: ms => m.typeNodes ++ ClassMember.allTypeNodes ms

end

mutual

@[simp] def Member.typeNodes : Member → List TypeSyntax
  | .namespaceMember n => n.typeNodes
  | .typeMember d => d.typeNodes
  | .globalStatement s => s.typeNodes
  | .incomplete _ => []

@[simp] def NamespaceDeclaration.typeNodes : NamespaceDeclaration → List TypeSyntax
  | ⟨_, t, us, ms⟩ => t :: (UsingDirective.allTypeNodes us ++ Member.allTypeNodes ms)

@[simp] def Member.allTypeNodes : List Member → List TypeSyntax
  | [] => []
  | m :: ms => m.typeNodes ++ Member.allTypeNodes ms

end

def CompilationUnit.typeNodes (u : CompilationUnit) : List TypeSyntax :=
  UsingDirective.allTypeNodes u.usings ++ Member.allTypeNodes u.members

/-! ### Types of lists -/

section

variable {α : Type} {ok : TypeSyntax → Prop} {typeNodes : α → List TypeSyntax}

theorem forall_allTypeNodes {allTypeNodes : List α → List TypeSyntax} (hnil : allTypeNodes [] = [])
    (hcons : ∀ a as, allTypeNodes (a :: as) = typeNodes a ++ allTypeNodes as) {as : List α} :
    (∀ t ∈ allTypeNodes as, ok t) ↔ ∀ a ∈ as, ∀ t ∈ typeNodes a, ok t := by
  induction as with
  | nil => simp [hnil]
  | cons a as ih => rw [hcons, List.forall_mem_append, ih, List.forall_mem_cons]

theorem forall_typeNodes? {typeNodes? : Option α → List TypeSyntax} (hnone : typeNodes? none = [])
    (hsome : ∀ a, typeNodes? (some a) = typeNodes a) {a? : Option α} :
    (∀ t ∈ typeNodes? a?, ok t) ↔ ∀ a ∈ a?, ∀ t ∈ typeNodes a, ok t := by
  cases a? with
  | none => simp [hnone]
  | some a => simp [hsome]

theorem forall_elim_typeNodes {a? : Option α} :
    (∀ t ∈ a?.elim [] typeNodes, ok t) ↔ ∀ a ∈ a?, ∀ t ∈ typeNodes a, ok t := by
  cases a? with
  | none => simp
  | some a => simp

end

section

variable {ok : TypeSyntax → Prop}

theorem Expr.forall_allTypeNodes {es : List Expr} :
    (∀ t ∈ Expr.allTypeNodes es, ok t) ↔ ∀ e ∈ es, ∀ t ∈ e.typeNodes, ok t :=
  CSharpFront.forall_allTypeNodes (by simp) (by simp)

theorem Expr.forall_typeNodes? {es? : Option (List Expr)} :
    (∀ t ∈ Expr.typeNodes? es?, ok t) ↔ ∀ es ∈ es?, ∀ e ∈ es, ∀ t ∈ e.typeNodes, ok t := by
  rw [CSharpFront.forall_typeNodes? (by simp) fun _ => by rw [Expr.typeNodes?]]
  simp only [Expr.forall_allTypeNodes]

theorem Initializer.forall_typeNodes? {i? : Option Initializer} :
    (∀ t ∈ Initializer.typeNodes? i?, ok t) ↔ ∀ i ∈ i?, ∀ t ∈ i.typeNodes, ok t :=
  CSharpFront.forall_typeNodes? (by simp) (by simp)

theorem SortKey.forall_allTypeNodes {ks : List SortKey} :
    (∀ t ∈ SortKey.allTypeNodes ks, ok t) ↔ ∀ k ∈ ks, ∀ t ∈ k.typeNodes, ok t :=
  CSharpFront.forall_allTypeNodes (by simp) (by simp)

theorem QueryClause.forall_allTypeNodes {cs : List QueryClause} :
    (∀ t ∈ QueryClause.allTypeNodes cs, ok t) ↔ ∀ c ∈ cs, ∀ t ∈ c.typeNodes, ok t :=
  CSharpFront.forall_allTypeNodes (by simp) (by simp)

theorem Continuation.forall_typeNodes? {k? : Option Continuation} :
    (∀ t ∈ Continuation.typeNodes? k?, ok t) ↔ ∀ k ∈ k?, ∀ t ∈ k.typeNodes, ok t :=
  CSharpFront.forall_typeNodes? (by simp) (by simp)

theorem Stmt.forall_typeNodes? {s? : Option Stmt} :
    (∀ t ∈ Stmt.typeNodes? s?, ok t) ↔ ∀ s ∈ s?, ∀ t ∈ s.typeNodes, ok t :=
  CSharpFront.forall_typeNodes? (by simp) (by simp)

theorem Stmt.forall_allTypeNodes {ss : List Stmt} :
    (∀ t ∈ Stmt.allTypeNodes ss, ok t) ↔ ∀ s ∈ ss, ∀ t ∈ s.typeNodes, ok t :=
  CSharpFront.forall_allTypeNodes (by simp) (by simp)

theorem ClassMember.forall_allTypeNodes {ms : List ClassMember} :
    (∀ t ∈ ClassMember.allTypeNodes ms, ok t) ↔ ∀ m ∈ ms, ∀ t ∈ m.typeNodes, ok t :=
  CSharpFront.forall_allTypeNodes (by simp) (by simp)

theorem Member.forall_allTypeNodes {ms : List Member} :
    (∀ t ∈ Member.allTypeNodes ms, ok t) ↔ ∀ m ∈ ms, ∀ t ∈ m.typeNodes, ok t :=
  CSharpFront.forall_allTypeNodes (by simp) (by simp)

end

end CSharpFront
