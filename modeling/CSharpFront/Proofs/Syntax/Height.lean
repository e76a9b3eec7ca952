import CSharpFront.Syntax.Tree
/-!
The height of a tree: how many statements and expressions lie on a path from a node down to a leaf,
at the most. Whatever is neither does not count itself: the braces after a new object, a clause of a
query, the body of a method, a member of a type. A missing expression counts like any other.
-/

namespace CSharpFront

/-! ### Expressions -/

mutual

@[simp] def Expr.height : Expr → Nat
  | .identifier _ | .literal _ | .thisWord _ | .predefinedType _ _ | .missing _ => 1
  | .parenthesized _ e => e.height + 1
  | .binary _ l _ r => max l.height r.height + 1
  | .assignment _ l _ r => max l.height r.height + 1
  | .conditional _ c t f => max c.height (max t.height f.height) + 1
  | .prefixUnary _ _ e => e.height + 1
  | .postfixUnary _ e _ => e.height + 1
  | .cast _ _ e => e.height + 1
  | .typeTest _ e _ _ => e.height + 1
  | .memberAccess _ e _ _ => e.height + 1
  | .invocation _ e as => max e.height (Expr.heights as) + 1
  | .elementAccess _ e as => max e.height (Expr.heights as) + 1
  | .objectCreation _ _ as? i? => max (Expr.heights? as?) (Initializer.height? i?) + 1
  | .arrayCreation _ _ ss i? => max (Expr.heights ss) (Initializer.height? i?) + 1
  | .implicitArrayCreation _ i => i.height + 1
  | .initializer i => i.height + 1
  | .await _ e => e.height + 1
  | .query _ s b => max s.height b.height + 1

/-- The greatest height in a list. -/
@[simp] def Expr.heights : List Expr → Nat
  | [] => 0
  | e :: es => max e.height (Expr.heights es)

@[simp] def Expr.heights? : Option (List Expr) → Nat
  | none => 0
  | some es => Expr.heights es

@[simp] def Initializer.height : Initializer → Nat
  | ⟨_, es⟩ => Expr.heights es

@[simp] def Initializer.height? : Option Initializer → Nat
  | none => 0
  | some i => i.height

@[simp] def FromClause.height : FromClause → Nat
  | ⟨_, _, _, e⟩ => e.height

@[simp] def SortKey.height : SortKey → Nat
  | ⟨_, e, _⟩ => e.height

@[simp] def SortKey.heights : List SortKey → Nat
  | [] => 0
  | k :: ks => max k.height (SortKey.heights ks)

@[simp] def QueryClause.height : QueryClause → Nat
  | .fromClause c => c.height
  | .letClause _ _ e => e.height
  | .whereClause _ e => e.height
  | .orderByClause _ ks => SortKey.heights ks

@[simp] def QueryClause.heights : List QueryClause → Nat
  | [] => 0
  | c :: cs => max c.height (QueryClause.heights cs)

@[simp] def QueryEnding.height : QueryEnding → Nat
  | .select _ e => e.height
  | .group _ e k => max e.height k.height
  | .missing _ => 0

@[simp] def QueryBody.height : QueryBody → Nat
  | ⟨_, cs, e, k?⟩ =>
    max (QueryClause.heights cs) (max e.height (Continuation.height? k?))

@[simp] def Continuation.height : Continuation → Nat
  | ⟨_, _, b⟩ => b.height

@[simp] def Continuation.height? : Option Continuation → Nat
  | none => 0
  | some k => k.height

end

/-! ### Statements -/

namespace VariableDeclaration

def height (d : VariableDeclaration) : Nat :=
  Expr.heights (d.declarators.filterMap (·.initializer?))

end VariableDeclaration

@[simp] def ForInitializer.height : ForInitializer → Nat
  | .declaration d => d.height
  | .expressions es => Expr.heights es

namespace ForHeader

def height (h : ForHeader) : Nat :=
  max (h.initializer?.elim 0 ForInitializer.height)
    (max (h.condition?.elim 0 Expr.height) (Expr.heights h.incrementors))

end ForHeader

mutual

@[simp] def Stmt.height : Stmt → Nat
  | .block b => b.height + 1
  | .empty _ | .breakLoop _ | .continueLoop _ | .goto _ _ => 1
  | .localDeclaration _ _ d _ => d.height + 1
  | .expression _ e _ => e.height + 1
  | .ifElse _ c t f? => max c.height (max t.height (Stmt.height? f?)) + 1
  | .whileLoop _ c b => max c.height b.height + 1
  | .doLoop _ b c => max b.height c.height + 1
  | .forLoop _ h b => max h.height b.height + 1
  | .returnValue _ e? => e?.elim 0 Expr.height + 1
  | .labeled _ _ b => b.height + 1

@[simp] def Stmt.height? : Option Stmt → Nat
  | none => 0
  | some s => s.height

@[simp] def Stmt.heights : List Stmt → Nat
  | [] => 0
  | s :: ss => max s.height (Stmt.heights ss)

@[simp] def Block.height : Block → Nat
  | ⟨_, _, ss, _⟩ => Stmt.heights ss

end

/-! ### Declarations -/

mutual

@[simp] def TypeDeclaration.height : TypeDeclaration → Nat
  | ⟨_, _, _, _, ms⟩ => ClassMember.heights ms

@[simp] def ClassMember.height : ClassMember → Nat
  | .field f => f.declaration.height
  | .method m => m.body?.elim 0 Block.height
  | .conversion o => o.body?.elim 0 Block.height
  | .nestedType d => d.height
  | .incomplete _ => 0

@[simp] def ClassMember.heights : List ClassMember → Nat
  | [] => 0
  | m :: ms => max m.height (ClassMember.heights ms)

end

mutual

@[simp] def Member.height : Member → Nat
  | .namespaceMember n => n.height
  | .typeMember d => d.height
  | .globalStatement s => s.height
  | .incomplete _ => 0

@[simp] def NamespaceDeclaration.height : NamespaceDeclaration → Nat
  | ⟨_, _, _, ms⟩ => Member.heights ms

@[simp] def Member.heights : List Member → Nat
  | [] => 0
  | m :: ms => max m.height (Member.heights ms)

end

namespace CompilationUnit

def height (u : CompilationUnit) : Nat := Member.heights u.members

end CompilationUnit

/-! ### Bounds -/

section

variable {α : Type} {n : Nat} {height : α → Nat}

theorem greatest_le {heights : List α → Nat} (hnil : heights [] = 0)
    (hcons : ∀ a as, heights (a :: as) = max (height a) (heights as)) {as : List α} :
    heights as ≤ n ↔ ∀ a ∈ as, height a ≤ n := by
  induction as with
  | nil => simp [hnil]
  | cons a as ih => rw [hcons, Nat.max_le, ih, List.forall_mem_cons]

theorem present_le {height? : Option α → Nat} (hnone : height? none = 0)
    (hsome : ∀ a, height? (some a) = height a) {a? : Option α} :
    height? a? ≤ n ↔ ∀ a ∈ a?, height a ≤ n := by
  cases a? with
  | none => simp [hnone]
  | some a => simp [hsome]

theorem elim_le {a? : Option α} : a?.elim 0 height ≤ n ↔ ∀ a ∈ a?, height a ≤ n := by
  cases a? with
  | none => simp
  | some a => simp

end

section

variable {n : Nat}

theorem Expr.heights_le {es : List Expr} : Expr.heights es ≤ n ↔ ∀ e ∈ es, e.height ≤ n :=
  greatest_le (by simp) (by simp)

theorem Expr.heights?_le {es? : Option (List Expr)} :
    Expr.heights? es? ≤ n ↔ ∀ es ∈ es?, ∀ e ∈ es, e.height ≤ n := by
  rw [present_le (by simp) fun _ => by rw [Expr.heights?]]
  simp only [Expr.heights_le]

theorem Initializer.height?_le {i? : Option Initializer} :
    Initializer.height? i? ≤ n ↔ ∀ i ∈ i?, i.height ≤ n :=
  present_le (by simp) (by simp)

theorem SortKey.heights_le {ks : List SortKey} :
    SortKey.heights ks ≤ n ↔ ∀ k ∈ ks, k.height ≤ n :=
  greatest_le (by simp) (by simp)

theorem QueryClause.heights_le {cs : List QueryClause} :
    QueryClause.heights cs ≤ n ↔ ∀ c ∈ cs, c.height ≤ n :=
  greatest_le (by simp) (by simp)

theorem Continuation.height?_le {k? : Option Continuation} :
    Continuation.height? k? ≤ n ↔ ∀ k ∈ k?, k.height ≤ n :=
  present_le (by simp) (by simp)

theorem VariableDeclaration.height_le {d : VariableDeclaration} :
    d.height ≤ n ↔ ∀ v ∈ d.declarators, ∀ e ∈ v.initializer?, e.height ≤ n := by
  simp only [VariableDeclaration.height, Expr.heights_le, List.mem_filterMap]
  exact ⟨fun h v hv e he => h e ⟨v, hv, he⟩, fun h e ⟨v, hv, he⟩ => h v hv e he⟩

theorem Stmt.height?_le {s? : Option Stmt} :
    Stmt.height? s? ≤ n ↔ ∀ s ∈ s?, s.height ≤ n :=
  present_le (by simp) (by simp)

theorem Stmt.heights_le {ss : List Stmt} : Stmt.heights ss ≤ n ↔ ∀ s ∈ ss, s.height ≤ n :=
  greatest_le (by simp) (by simp)

theorem ClassMember.heights_le {ms : List ClassMember} :
    ClassMember.heights ms ≤ n ↔ ∀ m ∈ ms, m.height ≤ n :=
  greatest_le (by simp) (by simp)

theorem Member.heights_le {ms : List Member} :
    Member.heights ms ≤ n ↔ ∀ m ∈ ms, m.height ≤ n :=
  greatest_le (by simp) (by simp)

end

end CSharpFront
