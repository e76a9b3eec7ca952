import CSharpFront.Proofs.Parser.Keeps
import CSharpFront.Proofs.Syntax.Height
import Mathlib.Algebra.Ring.Nat
/-!
How high the trees are that the rules yield. The rules for which so many levels are left yield trees
of a height below a bound, and an operand with a chain around it fits that bound as well: the levels
of a chain pay for its operators, and there are no more of them than are left.
-/

namespace CSharpFront.Parser

/-! ## Expressions and queries -/

section

/-! ### The bound -/

/-- How high a tree can be for which so many levels are left. -/
def tallest (n : Nat) : Nat := (n + 1) ^ 2 + 1

theorem tallest_succ (n : Nat) : tallest (n + 1) = tallest n + 2 * n + 3 := by
  unfold tallest
  grind

theorem lt_tallest (n : Nat) : n + 1 < tallest n := by
  induction n with
  | zero => decide
  | succ n ih =>
    have h := tallest_succ n
    omega

/-- What rules yield for which so many levels are left. A chain begins with operands that are lower
than other expressions, since each of its operators adds to their height. -/
structure Rules.Bounded (n : Nat) (r : Rules) : Prop where
  statement : Yields r.statement (·.height ≤ tallest n)
  expression : Yields r.expression (·.height ≤ tallest n)
  unary : Yields r.unary (·.height + n + 1 ≤ tallest n)
  binaryTail : ∀ levels least start {k : Nat} {left : Expr}, tallest n ≤ k + 2 * n + 2 →
    left.height ≤ k → Yields (r.binaryTail levels least start left) (·.height ≤ k + n)
  postfixTail : ∀ levels start {k : Nat} {operand : Expr}, tallest n ≤ k + 2 * n + 1 →
    operand.height ≤ k → Yields (r.postfixTail levels start operand) (·.height ≤ k + n)
  elements : Yields r.elements fun es => ∀ e ∈ es, e.height ≤ tallest n
  continuationBody : Yields r.continuationBody fun b? => ∀ b ∈ b?, b.height ≤ tallest n

theorem yields_missingExpression : Yields missingExpression (·.height ≤ 1) :=
  .next fun _ => .pure (by simp)

theorem yields_emptyStatement : Yields emptyStatement (·.height ≤ 1) :=
  .next fun _ => .pure (by simp)

theorem Rules.bounded_none : Rules.none.Bounded 0 where
  statement := .next fun _ => .next fun _ => yields_emptyStatement.imp fun _ => Nat.le_succ_of_le
  expression := .next fun _ => .next fun _ =>
    yields_missingExpression.imp fun _ => Nat.le_succ_of_le
  unary := .next fun _ => .next fun _ => yields_missingExpression.imp fun _ => Nat.succ_le_succ
  binaryTail _ _ _ _ _ _ hl := .next fun _ => .next fun _ => .next fun _ => .pure hl
  postfixTail _ _ _ _ _ ho := .next fun _ => .next fun _ => .next fun _ => .pure ho
  elements := .next fun _ => .next fun _ => .pure (List.forall_mem_nil _)
  continuationBody := .next fun _ => .next fun _ => .absent

variable {n : Nat} {r : Rules}

/-! ### Lists of expressions -/

theorem yields_initializer (hr : r.Bounded n) :
    Yields (initializer r) (·.height ≤ tallest n) := by
  refine .next fun _ => .next fun _ => .bind hr.elements fun _ hes => ?_
  exact .next fun _ => .next fun _ => .pure (by simpa [Expr.heights_le] using hes)

theorem yields_element (hr : r.Bounded n) :
    Yields (element r) (·.height ≤ tallest n + 1) := by
  refine .next fun _ => .ite (fun _ => ?_) fun _ => ?_
  · exact .bind (yields_initializer hr) fun _ hi => .pure (by simpa using hi)
  · exact hr.expression.imp fun _ => Nat.le_succ_of_le

theorem yields_elementsBody (hr : r.Bounded n) :
    Yields (elementsBody r) fun es => ∀ e ∈ es, e.height ≤ tallest n + 1 := by
  refine .bind (.loop (fun es => ∀ e ∈ es, e.height ≤ tallest n + 1) (by simp) ?_)
    fun es hes => .pure fun e he => hes e (List.mem_reverse.mp he)
  intro es hes
  refine .next fun _ => .ite (fun _ => .pure hes) fun _ => ?_
  refine .bind (yields_element hr) fun e he => .next fun _ => ?_
  have hcons : ∀ x ∈ e :: es, x.height ≤ tallest n + 1 := List.forall_mem_cons.mpr ⟨he, hes⟩
  exact .ite (fun _ => .pure hcons) fun _ => .pure hcons

theorem yields_optionalInitializer (hr : r.Bounded n) :
    Yields (optionalInitializer r) fun i? => ∀ i ∈ i?, i.height ≤ tallest n :=
  .next fun _ => .ite (fun _ => .present (yields_initializer hr)) fun _ => .absent

theorem yields_argument (hr : r.Bounded n) : Yields (argument r) (·.height ≤ tallest n) :=
  .next fun _ => .ite (fun _ => .next fun _ => hr.expression) fun _ => hr.expression

theorem yields_arguments (hr : r.Bounded n) (opening closing : Punctuator) :
    Yields (arguments r opening closing) fun es => ∀ e ∈ es, e.height ≤ tallest n := by
  refine .next fun _ => .next fun _ => ?_
  refine .iteBind (fun _ => .pure (List.forall_mem_nil _))
    (fun _ => yields_separated (yields_argument hr)) fun _ hes => ?_
  exact .next fun _ => .pure hes

/-! ### Operands -/

theorem yields_sizes (hr : r.Bounded n) :
    Yields (sizes r) fun p => ∀ e ∈ p.1, e.height ≤ tallest n := by
  refine .bind (.loop (fun p : List Expr × Nat => ∀ e ∈ p.1, e.height ≤ tallest n) (by simp) ?_)
    fun p hp => .pure fun e he => hp e (List.mem_reverse.mp he)
  rintro ⟨es, rank⟩ hes
  refine .next fun _ => .ite (fun _ => .pure hes) fun _ => ?_
  refine .ite (fun _ => .next fun _ => .pure hes) fun _ => ?_
  refine .bind hr.expression fun e he => .next fun _ => ?_
  have hcons : ∀ x ∈ e :: es, x.height ≤ tallest n := List.forall_mem_cons.mpr ⟨he, hes⟩
  exact .ite (fun _ => .pure hcons) fun _ => .pure hcons

theorem yields_arrayCreationRest (hr : r.Bounded n) (start : Nat) (element : TypeSyntax) :
    Yields (arrayCreationRest r start element) (·.height ≤ tallest n + 1) := by
  refine .next fun _ => .bind (yields_sizes hr) fun p hp => ?_
  refine .next fun _ => .next fun _ => .next fun _ => ?_
  refine .bind (yields_optionalInitializer hr) fun i? hi => .next fun _ => .pure ?_
  have hes := Expr.heights_le.mpr hp
  have hi := Initializer.height?_le.mpr hi
  simp only [Expr.height]
  omega

theorem yields_objectCreationRest (hr : r.Bounded n) (start : Nat) (type : TypeSyntax) :
    Yields (objectCreationRest r start type) (·.height ≤ tallest n + 1) := by
  have hrest {es? : Option (List Expr)} (hes : ∀ es ∈ es?, ∀ e ∈ es, e.height ≤ tallest n) :
      Yields (do
        let initializer? ← optionalInitializer r
        return .objectCreation (← rangeFrom start) type es? initializer?)
        (Expr.height · ≤ tallest n + 1) := by
    refine .bind (yields_optionalInitializer hr) fun i? hi => .next fun _ => .pure ?_
    have hes := Expr.heights?_le.mpr hes
    have hi := Initializer.height?_le.mpr hi
    simp only [Expr.height]
    omega
  refine .next fun _ => .ite (fun _ => ?_) fun _ => hrest (by simp)
  exact .bind (yields_arguments hr _ _) fun es hes => hrest (by simpa using hes)

theorem yields_creation (hr : r.Bounded n) :
    Yields (creation r) (·.height ≤ tallest n + 1) := by
  refine .next fun _ => .next fun _ => .next fun _ => .ite (fun _ => ?_) fun _ => ?_
  · refine .next fun _ => .next fun _ => .next fun _ => ?_
    exact .bind (yields_initializer hr) fun i hi => .next fun _ => .pure (by simpa using hi)
  · refine .next fun _ => .next fun _ => ?_
    split
    · exact yields_arrayCreationRest hr _ _
    · exact yields_objectCreationRest hr _ _
    · exact yields_objectCreationRest hr _ _
    · exact .next fun _ => .next fun _ => .next fun _ => .pure (by simp)

theorem yields_invalidTerm : Yields invalidTerm (·.height ≤ 1) :=
  .next fun _ => .ite (fun _ => .next fun _ => yields_missingExpression)
    fun _ => .next fun _ => yields_missingExpression

theorem yields_primary (hr : r.Bounded n) : Yields (primary r) (·.height ≤ tallest n + 1) := by
  refine .next fun t => ?_
  split
  · exact .next fun _ => .pure (by simp)
  split
  · exact .next fun _ => .pure (by simp)
  split
  · exact .next fun _ => .next fun _ => .pure (by simp)
  · exact .next fun _ => .pure (by simp)
  · refine .next fun _ => .bind hr.expression fun e he => ?_
    exact .next fun _ => .next fun _ => .pure (by simpa using he)
  · exact yields_creation hr
  · exact yields_invalidTerm.imp fun _ h => Nat.le_trans h (Nat.le_add_left ..)

theorem yields_castExpression (hr : r.Bounded n) :
    Yields (castExpression r) (·.height + n ≤ tallest n) := by
  refine .next fun _ => .next fun _ => .next fun _ => .next fun _ => ?_
  refine .bind hr.unary fun e he => .next fun _ => .pure ?_
  simp only [Expr.height]
  omega

theorem yields_unaryBody (hr : r.Bounded n) :
    Yields (unaryBody r) (·.height + (n + 1) + 1 ≤ tallest (n + 1)) := by
  have hsucc := tallest_succ n
  refine .next fun t => .ite (fun _ => ?_) fun _ => .next fun _ => .ite (fun _ => ?_) fun _ => ?_
  · refine .next fun _ => .bind hr.unary fun e he => .next fun _ => .pure ?_
    simp only [Expr.height]
    omega
  · refine .next fun _ => .bind hr.unary fun e he => .next fun _ => .pure ?_
    simp only [Expr.height]
    omega
  refine .next fun _ => .next fun _ => .ite (fun _ => ?_) fun _ => ?_
  · exact (yields_castExpression hr).imp fun e he => by omega
  · refine .bind (yields_primary hr) fun e he => ?_
    -- parentheses count one, and the chain after them one for each level that is left
    have hroom : tallest n ≤ (tallest n + 1) + 2 * n + 1 := by omega
    have hchain := hr.postfixTail 0 t.start hroom he
    exact hchain.imp fun e he => by omega

theorem yields_postfixStep (hr : r.Bounded n) (start : Nat) {k : Nat} (hk : tallest n ≤ k)
    {operand : Expr} (ho : operand.height ≤ k) :
    Yields (postfixStep r start operand) (·.height ≤ k + 1) := by
  refine .next fun _ => ?_
  split
  · exact .next fun _ => .next fun _ => .next fun _ => .pure (by simpa using ho)
  · exact .next fun _ => .next fun _ => .next fun _ => .pure (by simpa using ho)
  · refine .bind (yields_arguments hr _ _) fun es hes => .next fun _ => .pure ?_
    have hes := Expr.heights_le.mpr hes
    simp only [Expr.height]
    omega
  · refine .bind (yields_arguments hr _ _) fun es hes => .next fun _ => .pure ?_
    have hes := Expr.heights_le.mpr hes
    simp only [Expr.height]
    omega
  · exact .next fun _ => .next fun _ => .pure (by simpa using ho)

theorem yields_postfixTailBody (hr : r.Bounded n) (levels start : Nat) {k : Nat}
    (hk : tallest (n + 1) ≤ k + 2 * (n + 1) + 1) {operand : Expr} (ho : operand.height ≤ k) :
    Yields (postfixTailBody r levels start operand) (·.height ≤ k + (n + 1)) := by
  have hsucc := tallest_succ n
  have hleave : Yields (do leave levels; return operand) (·.height ≤ k + (n + 1)) :=
    .next fun _ => .pure (by omega)
  refine .next fun _ => .ite (fun _ => .next fun _ => .ite (fun _ => ?_) fun _ => hleave)
    fun _ => hleave
  have harguments : tallest n ≤ k := by omega
  refine .bind (yields_postfixStep hr start harguments ho) fun e he => ?_
  -- one operator more, one level less
  have hroom : tallest n ≤ (k + 1) + 2 * n + 1 := by omega
  have hchain := hr.postfixTail (levels + 1) start hroom he
  exact hchain.imp fun e he => by omega

/-! ### Operators -/

theorem yields_binary (hr : r.Bounded n) (least : Nat) :
    Yields (binary r least) (·.height + 1 ≤ tallest n) := by
  refine .next fun t => .bind hr.unary fun left hl => ?_
  -- the first operand leaves room for as many operators as there are levels
  obtain ⟨k, hk⟩ : ∃ k, tallest n = k + n + 1 :=
    Nat.exists_eq_add_of_le' (Nat.le_of_lt (lt_tallest n))
  have hleft : left.height ≤ k := by omega
  have hroom : tallest n ≤ k + 2 * n + 2 := by omega
  have hchain := hr.binaryTail 0 least t.start hroom hleft
  exact hchain.imp fun e he => by omega

theorem yields_binaryStep (hr : r.Bounded n) (start : Nat) {k : Nat} (hk : tallest n ≤ k + 1)
    {left : Expr} (hl : left.height ≤ k) (operator : Operator) (p : Precedence) :
    Yields (binaryStep r start left operator p) (·.height ≤ k + 1) := by
  refine .next fun _ => ?_
  split
  · exact .next fun _ => .next fun _ => .pure (by simpa using hl)
  · refine .bind (yields_binary hr _) fun right hright => .next fun _ => .pure ?_
    simp only [Expr.height]
    omega

theorem yields_binaryTailBody (hr : r.Bounded n) (levels least start : Nat) {k : Nat}
    (hk : tallest (n + 1) ≤ k + 2 * (n + 1) + 2) {left : Expr} (hl : left.height ≤ k) :
    Yields (binaryTailBody r levels least start left) (·.height ≤ k + (n + 1)) := by
  have hsucc := tallest_succ n
  have hleave : Yields (do leave levels; return left) (·.height ≤ k + (n + 1)) :=
    .next fun _ => .pure (by omega)
  refine .next fun o? => ?_
  split
  · exact hleave
  next operator p =>
    refine .next fun _ => .ite (fun _ => ?_) fun _ => hleave
    have hright : tallest n ≤ k + 1 := by omega
    refine .bind (yields_binaryStep hr start hright hl operator p) fun e he => ?_
    have hroom : tallest n ≤ (k + 1) + 2 * n + 2 := by omega
    have hchain := hr.binaryTail (levels + 1) least start hroom he
    exact hchain.imp fun e he => by omega

theorem yields_conditional (hr : r.Bounded n) :
    Yields (conditional r) (·.height ≤ tallest n + 1) := by
  refine .next fun _ => .bind (yields_binary hr _) fun c hc => .next fun _ => ?_
  refine .ite (fun _ => ?_) fun _ => .pure (by omega)
  refine .bind hr.expression fun t ht => .next fun _ => ?_
  refine .bind hr.expression fun f hf => .next fun _ => .pure ?_
  simp only [Expr.height]
  omega

theorem yields_assignment (hr : r.Bounded n) :
    Yields (assignment r) (·.height ≤ tallest n + 2) := by
  refine .next fun _ => .bind (yields_conditional hr) fun left hl => ?_
  refine .next fun _ => .next fun _ => .ite (fun _ => ?_) fun _ => .pure (by omega)
  refine .next fun _ => .bind hr.expression fun right hright => .next fun _ => .pure ?_
  simp only [Expr.height]
  omega

/-! ### Queries -/

theorem yields_fromClause (hr : r.Bounded n) :
    Yields (fromClause r) (·.height ≤ tallest n) := by
  have hrest (start : Nat) (type? : Option TypeSyntax) : Yields (do
      let identifier ← identifier
      let _ ← eat (.keyword .kwIn)
      let source ← r.expression
      return ⟨← rangeFrom start, type?, identifier, source⟩)
      (FromClause.height · ≤ tallest n) := by
    refine .next fun _ => .next fun _ => .bind hr.expression fun e he => ?_
    exact .next fun _ => .pure (by simpa using he)
  refine .next fun _ => .next fun _ => .next fun _ => .ite (fun _ => ?_) fun _ => ?_
  · exact hrest _ _
  · exact .next fun _ => hrest _ _

theorem yields_sortKey (hr : r.Bounded n) : Yields (sortKey r) (·.height ≤ tallest n) := by
  refine .next fun _ => .bind hr.expression fun e he => .next fun t => ?_
  have hrest (isDescending : Bool) (start : Nat) : Yields (do
      return (⟨← rangeFrom start, e, isDescending⟩ : SortKey)) (·.height ≤ tallest n) :=
    .next fun _ => .pure (by simpa using he)
  split
  · exact .next fun _ => hrest _ _
  · exact .next fun _ => hrest _ _
  · exact hrest _ _

theorem yields_queryClause? (hr : r.Bounded n) :
    Yields (queryClause? r) fun c? => ∀ c ∈ c?, c.height ≤ tallest n := by
  refine .next fun t => ?_
  split
  · exact .bind (yields_fromClause hr) fun c hc => .pure (by simpa using hc)
  · refine .present (p := letClause r) ?_
    refine .next fun _ => .next fun _ => .next fun _ => .next fun _ => ?_
    exact .bind hr.expression fun e he => .next fun _ => .pure (by simpa using he)
  · refine .present (p := whereClause r) ?_
    refine .next fun _ => .next fun _ => .bind hr.expression fun e he => ?_
    exact .next fun _ => .pure (by simpa using he)
  · refine .present (p := orderByClause r) ?_
    refine .next fun _ => .next fun _ => ?_
    refine .bind (yields_separated (yields_sortKey hr)) fun ks hks => ?_
    exact .next fun _ => .pure (by simpa [SortKey.heights_le] using hks)
  · exact .absent

theorem yields_queryEnding (hr : r.Bounded n) :
    Yields (queryEnding r) (·.height ≤ tallest n) := by
  refine .next fun t => ?_
  split
  · refine .next fun _ => .bind hr.expression fun e he => ?_
    exact .next fun _ => .pure (by simpa using he)
  · refine .next fun _ => .bind hr.expression fun e he => .next fun _ => ?_
    refine .bind hr.expression fun k hk => .next fun _ => .pure ?_
    exact Nat.max_le.mpr ⟨he, hk⟩
  · exact .next fun _ => .next fun _ => .pure (by simp)

theorem yields_continuation? (hr : r.Bounded n) :
    Yields (continuation? r) fun k? => ∀ k ∈ k?, k.height ≤ tallest n := by
  refine .next fun t => .ite (fun _ => ?_) fun _ => .absent
  refine .next fun _ => .next fun i => .bind hr.continuationBody fun b? hb => ?_
  cases b? with
  | none => exact .absent
  | some b => exact .next fun _ => .pure (by simpa using hb)

theorem yields_queryBody (hr : r.Bounded n) :
    Yields (queryBody r) (·.height ≤ tallest n) := by
  refine .next fun _ => .bind (.many (yields_queryClause? hr)) fun cs hcs => ?_
  refine .bind (yields_queryEnding hr) fun e he => ?_
  refine .bind (yields_continuation? hr) fun k? hk => .next fun _ => .pure ?_
  have hcs := QueryClause.heights_le.mpr hcs
  have hk := Continuation.height?_le.mpr hk
  exact Nat.max_le.mpr ⟨hcs, Nat.max_le.mpr ⟨he, hk⟩⟩

theorem yields_query (hr : r.Bounded n) : Yields (query r) (·.height ≤ tallest n + 1) := by
  refine .next fun _ => .bind (yields_fromClause hr) fun c hc => ?_
  refine .bind (yields_queryBody hr) fun b hb => .next fun _ => .pure ?_
  exact Nat.succ_le_succ (Nat.max_le.mpr ⟨hc, hb⟩)

theorem yields_expressionBody (hr : r.Bounded n) :
    Yields (expressionBody r) (·.height ≤ tallest n + 2) :=
  .next fun _ => .ite (fun _ => (yields_query hr).imp fun _ => Nat.le_succ_of_le)
    fun _ => yields_assignment hr

end

/-! ## Statements, and with them whatever the rules yield -/

section

variable {n : Nat} {r : Rules}

/-! ### Declarations of variables -/

theorem yields_declarator (hr : r.Bounded n) (identifier : Identifier) :
    Yields (declarator r identifier) fun d => ∀ e ∈ d.initializer?, e.height ≤ tallest n + 1 := by
  refine .next fun _ => .iteBind (fun _ => .present (yields_element hr)) (fun _ => .absent) ?_
  exact fun e? he => .next fun _ => .pure he

theorem yields_declarators (hr : r.Bounded n) (start : Nat) (type : TypeSyntax)
    (first : Identifier) :
    Yields (declarators r start type first) (·.height ≤ tallest n + 1) := by
  refine .bind (yields_declarator hr first) fun d hd => ?_
  refine .bind (yields_afterCommas (.next fun i => yields_declarator hr i)) fun ds hds => ?_
  refine .next fun _ => .pure (VariableDeclaration.height_le.mpr ?_)
  exact List.forall_mem_cons.mpr ⟨hd, hds⟩

theorem yields_variableDeclaration (hr : r.Bounded n) :
    Yields (variableDeclaration r) (·.height ≤ tallest n + 1) :=
  .next fun _ => .next fun _ => .next fun _ => yields_declarators hr _ _ _

theorem yields_localDeclaration (hr : r.Bounded n) :
    Yields (localDeclaration r) (·.height ≤ tallest n + 2) := by
  refine .next fun _ => .next fun _ => .next fun _ => ?_
  refine .bind (yields_variableDeclaration hr) fun d hd => .next fun _ => .next fun _ => ?_
  exact .pure (by simpa using hd)

/-! ### Statements -/

theorem yields_expressionStatement (hr : r.Bounded n) :
    Yields (expressionStatement r) (·.height ≤ tallest n + 1) := by
  refine .next fun _ => .bind hr.expression fun e he => ?_
  exact .next fun _ => .next fun _ => .next fun _ => .pure (by simpa using he)

theorem yields_blockStatement? (hr : r.Bounded n) :
    Yields (blockStatement? r) fun s? => ∀ s ∈ s?, s.height ≤ tallest n := by
  refine .next fun _ => .ite (fun _ => .absent) fun _ => .next fun _ => ?_
  refine .bind hr.statement fun s hs => .next fun _ => ?_
  have hsome : ∀ u ∈ some s, u.height ≤ tallest n := by simpa using hs
  exact .ite (fun _ => .next fun _ => .pure hsome) fun _ => .pure hsome

theorem yields_block (hr : r.Bounded n) : Yields (block r) (·.height ≤ tallest n) := by
  refine .next fun _ => .next fun _ => .bind (.many (yields_blockStatement? hr)) fun ss hss => ?_
  exact .next fun _ => .next fun _ => .pure (by simpa [Stmt.heights_le] using hss)

theorem yields_condition (hr : r.Bounded n) : Yields (condition r) (·.height ≤ tallest n) :=
  .next fun _ => .bind hr.expression fun _ he => .next fun _ => .pure he

theorem yields_ifStatement (hr : r.Bounded n) :
    Yields (ifStatement r) (·.height ≤ tallest n + 1) := by
  refine .next fun _ => .next fun _ => .bind (yields_condition hr) fun e he => ?_
  refine .bind hr.statement fun s hs => .next fun _ => ?_
  refine .iteBind (fun _ => .present hr.statement) (fun _ => .absent) fun s? hs? => ?_
  have hs? := Stmt.height?_le.mpr hs?
  exact .next fun _ => .pure (Nat.succ_le_succ (Nat.max_le.mpr ⟨he, Nat.max_le.mpr ⟨hs, hs?⟩⟩))

theorem yields_whileStatement (hr : r.Bounded n) :
    Yields (whileStatement r) (·.height ≤ tallest n + 1) := by
  refine .next fun _ => .next fun _ => .bind (yields_condition hr) fun e he => ?_
  refine .bind hr.statement fun s hs => .next fun _ => .pure ?_
  exact Nat.succ_le_succ (Nat.max_le.mpr ⟨he, hs⟩)

theorem yields_doStatement (hr : r.Bounded n) :
    Yields (doStatement r) (·.height ≤ tallest n + 1) := by
  refine .next fun _ => .next fun _ => .bind hr.statement fun s hs => .next fun _ => ?_
  refine .bind (yields_condition hr) fun e he => .next fun _ => .next fun _ => .pure ?_
  exact Nat.succ_le_succ (Nat.max_le.mpr ⟨hs, he⟩)

/-! ### The header of a `for` -/

theorem yields_forExpressionsRest (hr : r.Bounded n) (allowSemicolon : Bool) :
    Yields (forExpressionsRest r allowSemicolon) fun es => ∀ e ∈ es, e.height ≤ tallest n := by
  refine .bind (.loop (fun es => ∀ e ∈ es, e.height ≤ tallest n) (by simp) ?_)
    fun es hes => .pure fun e he => hes e (List.mem_reverse.mp he)
  intro es hes
  refine .next fun _ => .ite (fun _ => .pure hes) fun _ => .ite (fun _ => ?_) fun _ => ?_
  · refine .next fun _ => .bind hr.expression fun e he => .pure ?_
    exact List.forall_mem_cons.mpr ⟨he, hes⟩
  · exact .next fun _ => .ite (fun _ => .pure hes) fun _ => .pure hes

theorem yields_forExpressions (hr : r.Bounded n) (allowSemicolon : Bool) :
    Yields (forExpressions r allowSemicolon) fun es => ∀ e ∈ es, e.height ≤ tallest n := by
  have hrest (found : Bool) : Yields (do
      if found then
        let first ← r.expression
        return first :: (← forExpressionsRest r allowSemicolon)
      else return []) fun es => ∀ e ∈ es, e.height ≤ tallest n := by
    refine .ite (fun _ => .bind hr.expression fun e he => ?_) fun _ => .pure (by simp)
    refine .bind (yields_forExpressionsRest hr allowSemicolon) fun es hes => .pure ?_
    exact List.forall_mem_cons.mpr ⟨he, hes⟩
  refine .next fun _ => .ite (fun _ => .pure (by simp)) fun _ => ?_
  exact .ite (fun _ => hrest true) fun _ => .next hrest

theorem yields_forInitializer? (hr : r.Bounded n) :
    Yields (forInitializer? r) fun i? => ∀ i ∈ i?, i.height ≤ tallest n + 1 := by
  refine .next fun _ => .ite (fun _ => ?_) fun _ => .next fun _ => .ite (fun _ => .absent) ?_
  · exact .bind (yields_variableDeclaration hr) fun d hd => .pure (by simpa using hd)
  · refine fun _ => .bind (yields_forExpressions hr false) fun es hes => .pure ?_
    have hes := Nat.le_succ_of_le (Expr.heights_le.mpr hes)
    split <;> simp [hes]

theorem yields_forCondition? (hr : r.Bounded n) :
    Yields (forCondition? r) fun e? => ∀ e ∈ e?, e.height ≤ tallest n :=
  .next fun _ => .ite (fun _ => .absent) fun _ => .present hr.expression

theorem yields_forHeader (hr : r.Bounded n) :
    Yields (forHeader r) (·.height ≤ tallest n + 1) := by
  refine .next fun w => .next fun o => .bind (yields_forInitializer? hr) fun i? hi => ?_
  refine .next fun s => .bind (yields_forCondition? hr) fun e? he => .next fun s' => ?_
  have hlast {es : List Expr} (hes : ∀ e ∈ es, e.height ≤ tallest n) (o' : Leaf) :
      Yields (do checkStatementExpressions es; return ⟨w, o, i?, s, e?, s', es, o'⟩)
        (ForHeader.height · ≤ tallest n + 1) := by
    have hi := elim_le.mpr hi
    have he := elim_le.mpr he
    have hes := Expr.heights_le.mpr hes
    refine .next fun _ => .pure ?_
    simp only [ForHeader.height]
    omega
  refine .next fun _ => .iteBind (fun _ => .pure (List.forall_mem_nil _))
    (fun _ => yields_forExpressions hr true) fun es hes => .next fun o' => ?_
  dsimp only
  split
  · exact .next fun _ => hlast hes o'
  · exact hlast hes o'

theorem yields_forStatement (hr : r.Bounded n) :
    Yields (forStatement r) (·.height ≤ tallest n + 2) := by
  refine .next fun _ => .bind (yields_forHeader hr) fun h hh => ?_
  refine .bind hr.statement fun s hs => .next fun _ => .pure ?_
  exact Nat.succ_le_succ (Nat.max_le.mpr ⟨hh, Nat.le_succ_of_le hs⟩)

/-! ### Jumps and labels -/

theorem yields_returnStatement (hr : r.Bounded n) :
    Yields (returnStatement r) (·.height ≤ tallest n + 1) := by
  refine .next fun _ => .next fun _ => .next fun _ => ?_
  refine .iteBind (fun _ => .absent) (fun _ => .present hr.expression) fun e? he => ?_
  exact .next fun _ => .next fun _ => .pure (Nat.succ_le_succ (elim_le.mpr he))

theorem yields_gotoStatement : Yields gotoStatement (·.height ≤ 1) :=
  .next fun _ => .next fun _ => .next fun _ => .next fun _ => .next fun _ => .pure (by simp)

theorem yields_labeledStatement (hr : r.Bounded n) :
    Yields (labeledStatement r) (·.height ≤ tallest n + 1) := by
  refine .next fun _ => .next fun _ => .next fun _ => .bind hr.statement fun s hs => ?_
  exact .next fun _ => .pure (by simpa using hs)

theorem yields_wordlessStatement (hr : r.Bounded n) :
    Yields (wordlessStatement r) (·.height ≤ tallest n + 2) := by
  refine .next fun _ => .ite (fun _ => ?_) fun _ => .next fun _ => .ite (fun _ => ?_) fun _ => ?_
  · exact (yields_labeledStatement hr).imp fun _ => Nat.le_succ_of_le
  · exact yields_localDeclaration hr
  · exact (yields_expressionStatement hr).imp fun _ => Nat.le_succ_of_le

theorem yields_statementBody (hr : r.Bounded n) :
    Yields (statementBody r) (·.height ≤ tallest n + 2) := by
  have hone {s : Stmt} (hs : s.height ≤ 1) : s.height ≤ tallest n + 2 := by omega
  refine .next fun t => ?_
  split
  · exact .bind (yields_block hr) fun b hb => .pure (Nat.le_succ_of_le (Nat.succ_le_succ hb))
  · exact .next fun _ => .pure (hone (by simp))
  · exact (yields_ifStatement hr).imp fun _ => Nat.le_succ_of_le
  · exact (yields_whileStatement hr).imp fun _ => Nat.le_succ_of_le
  · exact (yields_doStatement hr).imp fun _ => Nat.le_succ_of_le
  · exact yields_forStatement hr
  · exact (yields_returnStatement hr).imp fun _ => Nat.le_succ_of_le
  · exact .next fun _ => .pure (hone (by simp))
  · exact .next fun _ => .pure (hone (by simp))
  · exact yields_gotoStatement.imp fun _ => hone
  · exact yields_localDeclaration hr
  · exact yields_wordlessStatement hr

/-! ### All rules -/

/-- Whatever adds two at most fits the next level. -/
theorem le_tallest_succ {h : Nat} (hh : h ≤ tallest n + 2) : h ≤ tallest (n + 1) := by
  have hsucc := tallest_succ n
  omega

theorem one_le_tallest {h : Nat} (hh : h ≤ 1) : h ≤ tallest n := by
  have hlt := lt_tallest n
  omega

theorem bounded_rules (n : Nat) : (rules n).Bounded n := by
  induction n with
  | zero => exact Rules.bounded_none
  | succ n ih =>
    have hlt := lt_tallest (n + 1)
    exact {
      statement := .nested (.any _) (yields_emptyStatement.imp fun _ => one_le_tallest)
        ((yields_statementBody ih).imp fun _ => le_tallest_succ)
      expression := .nested (.any _) (yields_missingExpression.imp fun _ => one_le_tallest)
        ((yields_expressionBody ih).imp fun _ => le_tallest_succ)
      unary := .nested (.any _) (yields_missingExpression.imp fun _ h => by omega)
        (yields_unaryBody ih)
      binaryTail := fun levels least start _ _ hk hl =>
        yields_binaryTailBody ih levels least start hk hl
      postfixTail := fun levels start _ _ hk ho => yields_postfixTailBody ih levels start hk ho
      elements := .nested (.any _) (.pure (by simp)) <|
        (yields_elementsBody ih).imp fun _ hes e he =>
          le_tallest_succ (Nat.le_succ_of_le (hes e he))
      continuationBody := .nested (.any _) .absent <| .present <|
        (yields_queryBody ih).imp fun _ hb => le_tallest_succ (Nat.le_add_right_of_le hb) }

end

end CSharpFront.Parser
