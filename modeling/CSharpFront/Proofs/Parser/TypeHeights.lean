import CSharpFront.Proofs.Parser.Keeps
import CSharpFront.Proofs.Syntax.TypeHeight
/-!
How high the types are in what the rules yield. A type enters a level, and within it there are at
most a `?`, type arguments, and any number of brackets and dots, for which no level is entered. So a
level adds two: a `?`, and a name with type arguments.
-/

namespace CSharpFront.Parser

/-! ## Expressions -/

section

/-- A parser in whose results all types are within so many levels; `typeNodes` lists them. -/
abbrev YieldsWithin (k : Nat) {α : Type} (p : P α) (typeNodes : α → List TypeSyntax) : Prop :=
  Yields p fun a => ∀ t ∈ typeNodes a, t.Within k

/-- Rules that yield only types within so many levels, and trees with such types. -/
structure Rules.Within (k : Nat) (r : Rules) : Prop where
  statement : YieldsWithin k r.statement Stmt.typeNodes
  expression : YieldsWithin k r.expression Expr.typeNodes
  unary : YieldsWithin k r.unary Expr.typeNodes
  type : ∀ withRanks, Yields (r.type withRanks) (·.Within k)
  name : Yields (name r) (·.Within k)
  binaryTail : ∀ levels least start {left : Expr}, (∀ t ∈ left.typeNodes, t.Within k) →
    YieldsWithin k (r.binaryTail levels least start left) Expr.typeNodes
  postfixTail : ∀ levels start {operand : Expr}, (∀ t ∈ operand.typeNodes, t.Within k) →
    YieldsWithin k (r.postfixTail levels start operand) Expr.typeNodes
  elements : Yields r.elements fun es => ∀ e ∈ es, ∀ t ∈ e.typeNodes, t.Within k
  continuationBody : Yields r.continuationBody fun b? => ∀ b ∈ b?, ∀ t ∈ b.typeNodes, t.Within k

variable {k n : Nat} {r : Rules}

/-! ### Types and names -/

/-- Brackets need no levels. -/
theorem within_rankSpecifiers (start : Nat) {type : TypeSyntax} (ht : type.Within k) :
    Yields (rankSpecifiers start type) (·.Within k) := by
  refine .loop (TypeSyntax.Within k) ht fun type ht => .next fun _ =>
    .ite (fun _ => ?_) fun _ => .pure ht
  exact .next fun _ => .next fun _ => .next fun _ => .next fun _ => .next fun range =>
    .pure (ht.array range _)

theorem within_simpleName (hr : ∀ withRanks, Yields (r.type withRanks) (·.Within n)) :
    Yields (simpleName r) (·.Within (n + 1)) := by
  refine .next fun _ => .next fun i => .next fun _ => .next fun _ => .ite (fun _ => ?_) fun _ =>
    .pure (TypeSyntax.within_name i)
  refine .next fun _ => .bind (yields_separated (hr true)) fun ts hts => ?_
  exact .next fun _ => .next fun range => .pure (TypeSyntax.within_generic hts range i)

/-- Neither do dots. -/
theorem within_name (hr : ∀ withRanks, Yields (r.type withRanks) (·.Within n)) :
    Yields (name r) (·.Within (n + 1)) := by
  refine .next fun _ => .bind (within_simpleName hr) fun first hfirst => ?_
  refine .loop (TypeSyntax.Within (n + 1)) hfirst fun left hl => .next fun _ =>
    .ite (fun _ => ?_) fun _ => .pure hl
  refine .next fun _ => .bind (within_simpleName hr) fun right hright => .next fun range => ?_
  exact .pure (hl.qualified hright range)

theorem within_typeCore? (hr : ∀ withRanks, Yields (r.type withRanks) (·.Within n)) :
    Yields (typeCore? r) fun t? => ∀ t ∈ t?, t.Within (n + 1) := by
  refine .next fun t => ?_
  split
  next s _ =>
    have hs := TypeSyntax.within_predefined (n := n) t.range s
    exact .next fun _ => .pure (by simpa using hs)
  · exact .ite (fun _ => .present (within_name hr)) fun _ => .absent

theorem within_missingType : Yields missingType (·.Within (n + 1)) :=
  .next fun _ => .pure (TypeSyntax.within_missing _)

/-- Within one level more a type can have a `?` after its name, and arguments. -/
theorem within_typeBody (hr : ∀ withRanks, Yields (r.type withRanks) (·.Within n))
    (withRanks : Bool) : Yields (typeBody withRanks r) (·.Within (n + 2)) := by
  have hrest (start : Nat) {type : TypeSyntax} (ht : type.Within (n + 2)) :
      Yields (if withRanks then rankSpecifiers start type else return type) (·.Within (n + 2)) :=
    .ite (fun _ => within_rankSpecifiers start ht) fun _ => .pure ht
  refine .next fun _ => .bind (within_typeCore? hr) fun core? hcore => ?_
  cases core? with
  | none => exact .next fun _ => .next fun _ => within_missingType
  | some core =>
    have hcore : core.Within (n + 1) := hcore core rfl
    refine .next fun _ => .ite (fun _ => .next fun range => ?_) fun _ => ?_
    · exact hrest _ (hcore.nullable range)
    · exact hrest _ (hcore.mono (Nat.le_succ _))

/-! ### Lists of expressions -/

theorem within_missingExpression : YieldsWithin k missingExpression Expr.typeNodes :=
  .next fun _ => .pure (List.forall_mem_nil _)

theorem within_initializer (hr : r.Within k) :
    YieldsWithin k (initializer r) Initializer.typeNodes := by
  refine .next fun _ => .next fun _ => .bind hr.elements fun _ hes => ?_
  exact .next fun _ => .next fun _ => .pure (Expr.forall_allTypeNodes.mpr hes)

theorem within_element (hr : r.Within k) : YieldsWithin k (element r) Expr.typeNodes := by
  refine .next fun _ => .ite (fun _ => ?_) fun _ => hr.expression
  exact .bind (within_initializer hr) fun _ hi => .pure hi

theorem within_elementsBody (hr : r.Within k) :
    Yields (elementsBody r) fun es => ∀ e ∈ es, ∀ t ∈ e.typeNodes, t.Within k := by
  refine .bind (.loop (fun es => ∀ e ∈ es, ∀ t ∈ e.typeNodes, t.Within k) (by simp) ?_)
    fun es hes => .pure fun e he => hes e (List.mem_reverse.mp he)
  intro es hes
  refine .next fun _ => .ite (fun _ => .pure hes) fun _ => ?_
  refine .bind (within_element hr) fun e he => .next fun _ => ?_
  have hcons : ∀ x ∈ e :: es, ∀ t ∈ x.typeNodes, t.Within k := List.forall_mem_cons.mpr ⟨he, hes⟩
  exact .ite (fun _ => .pure hcons) fun _ => .pure hcons

theorem within_optionalInitializer (hr : r.Within k) :
    YieldsWithin k (optionalInitializer r) Initializer.typeNodes? := by
  refine .next fun _ => .ite (fun _ => ?_) fun _ => .pure (List.forall_mem_nil _)
  exact .bind (within_initializer hr) fun _ hi => .pure hi

theorem within_argument (hr : r.Within k) : YieldsWithin k (argument r) Expr.typeNodes :=
  .next fun _ => .ite (fun _ => .next fun _ => hr.expression) fun _ => hr.expression

theorem within_arguments (hr : r.Within k) (opening closing : Punctuator) :
    YieldsWithin k (arguments r opening closing) Expr.allTypeNodes := by
  refine .next fun _ => .next fun _ => ?_
  refine .iteBind (fun _ => .pure (List.forall_mem_nil _))
    (fun _ => yields_separated (within_argument hr)) fun _ hes => ?_
  exact .next fun _ => .pure (Expr.forall_allTypeNodes.mpr hes)

/-! ### Operands -/

theorem within_sizes (hr : r.Within k) :
    Yields (sizes r) fun p => ∀ e ∈ p.1, ∀ t ∈ e.typeNodes, t.Within k := by
  refine .bind (.loop (fun p : List Expr × Nat => ∀ e ∈ p.1, ∀ t ∈ e.typeNodes, t.Within k)
    (by simp) ?_) fun p hp => .pure fun e he => hp e (List.mem_reverse.mp he)
  rintro ⟨es, rank⟩ hes
  refine .next fun _ => .ite (fun _ => .pure hes) fun _ => ?_
  refine .ite (fun _ => .next fun _ => .pure hes) fun _ => ?_
  refine .bind hr.expression fun e he => .next fun _ => ?_
  have hcons : ∀ x ∈ e :: es, ∀ t ∈ x.typeNodes, t.Within k := List.forall_mem_cons.mpr ⟨he, hes⟩
  exact .ite (fun _ => .pure hcons) fun _ => .pure hcons

theorem within_arrayCreationRest (hr : r.Within k) (start : Nat) {element : TypeSyntax}
    (he : element.Within k) :
    YieldsWithin k (arrayCreationRest r start element) Expr.typeNodes := by
  refine .next fun _ => .bind (within_sizes hr) fun p hp => .next fun _ => .next fun range => ?_
  refine .bind (within_rankSpecifiers _ (he.array range p.2)) fun type ht => ?_
  refine .bind (within_optionalInitializer hr) fun i? hi => .next fun _ => .pure ?_
  have hsizes := Expr.forall_allTypeNodes.mpr hp
  exact List.forall_mem_cons.mpr ⟨ht, List.forall_mem_append.mpr ⟨hsizes, hi⟩⟩

theorem within_objectCreationRest (hr : r.Within k) (start : Nat) {type : TypeSyntax}
    (ht : type.Within k) :
    YieldsWithin k (objectCreationRest r start type) Expr.typeNodes := by
  have hrest {es? : Option (List Expr)} (hes : ∀ t ∈ Expr.typeNodes? es?, t.Within k) :
      YieldsWithin k (do
        let initializer? ← optionalInitializer r
        return .objectCreation (← rangeFrom start) type es? initializer?) Expr.typeNodes := by
    refine .bind (within_optionalInitializer hr) fun i? hi => .next fun _ => .pure ?_
    exact List.forall_mem_cons.mpr ⟨ht, List.forall_mem_append.mpr ⟨hes, hi⟩⟩
  refine .next fun _ => .ite (fun _ => ?_) fun _ => hrest (List.forall_mem_nil _)
  exact .bind (within_arguments hr _ _) fun es hes => hrest hes

theorem within_creation (hr : r.Within k) : YieldsWithin k (creation r) Expr.typeNodes := by
  refine .next fun _ => .next fun _ => .next fun _ => .ite (fun _ => ?_) fun _ => ?_
  · refine .next fun _ => .next fun _ => .next fun _ => ?_
    exact .bind (within_initializer hr) fun i hi => .next fun _ => .pure hi
  · refine .bind (hr.type false) fun type ht => .next fun _ => ?_
    split
    · exact within_arrayCreationRest hr _ ht
    · exact within_objectCreationRest hr _ ht
    · exact within_objectCreationRest hr _ ht
    · refine .next fun _ => .next fun _ => .next fun _ => .pure ?_
      exact List.forall_mem_cons.mpr ⟨ht, List.forall_mem_nil _⟩

theorem within_invalidTerm : YieldsWithin k invalidTerm Expr.typeNodes :=
  .next fun _ => .ite (fun _ => .next fun _ => within_missingExpression)
    fun _ => .next fun _ => within_missingExpression

theorem within_primary (hr : r.Within k) : YieldsWithin k (primary r) Expr.typeNodes := by
  refine .next fun t => ?_
  split
  · exact .next fun _ => .pure (List.forall_mem_nil _)
  split
  · exact .next fun _ => .pure (List.forall_mem_nil _)
  split
  · exact .next fun _ => .next fun _ => .pure (List.forall_mem_nil _)
  · exact .next fun _ => .pure (List.forall_mem_nil _)
  · refine .next fun _ => .bind hr.expression fun e he => ?_
    exact .next fun _ => .next fun _ => .pure he
  · exact within_creation hr
  · exact within_invalidTerm

theorem within_castExpression (hr : r.Within k) :
    YieldsWithin k (castExpression r) Expr.typeNodes := by
  refine .next fun _ => .next fun _ => .bind (hr.type true) fun type ht => .next fun _ => ?_
  refine .bind hr.unary fun e he => .next fun _ => .pure ?_
  exact List.forall_mem_cons.mpr ⟨ht, he⟩

theorem within_unaryBody (hr : r.Within k) : YieldsWithin k (unaryBody r) Expr.typeNodes := by
  refine .next fun t => .ite (fun _ => ?_) fun _ => .next fun _ => .ite (fun _ => ?_) fun _ => ?_
  · exact .next fun _ => .bind hr.unary fun e he => .next fun _ => .pure he
  · exact .next fun _ => .bind hr.unary fun e he => .next fun _ => .pure he
  refine .next fun _ => .next fun _ => .ite (fun _ => within_castExpression hr) fun _ => ?_
  exact .bind (within_primary hr) fun e he => hr.postfixTail 0 t.start he

theorem within_postfixStep (hr : r.Within k) (start : Nat) {operand : Expr}
    (ho : ∀ t ∈ operand.typeNodes, t.Within k) :
    YieldsWithin k (postfixStep r start operand) Expr.typeNodes := by
  refine .next fun _ => ?_
  split
  · exact .next fun _ => .next fun _ => .next fun _ => .pure ho
  · exact .next fun _ => .next fun _ => .next fun _ => .pure ho
  · refine .bind (within_arguments hr _ _) fun es hes => .next fun _ => .pure ?_
    exact List.forall_mem_append.mpr ⟨ho, hes⟩
  · refine .bind (within_arguments hr _ _) fun es hes => .next fun _ => .pure ?_
    exact List.forall_mem_append.mpr ⟨ho, hes⟩
  · exact .next fun _ => .next fun _ => .pure ho

theorem within_postfixTailBody (hr : r.Within k) (levels start : Nat) {operand : Expr}
    (ho : ∀ t ∈ operand.typeNodes, t.Within k) :
    YieldsWithin k (postfixTailBody r levels start operand) Expr.typeNodes := by
  have hleave : YieldsWithin k (do leave levels; return operand) Expr.typeNodes :=
    .next fun _ => .pure ho
  refine .next fun _ => .ite (fun _ => .next fun _ => .ite (fun _ => ?_) fun _ => hleave)
    fun _ => hleave
  exact .bind (within_postfixStep hr start ho) fun e he => hr.postfixTail (levels + 1) start he

/-! ### Operators -/

theorem within_binary (hr : r.Within k) (least : Nat) :
    YieldsWithin k (binary r least) Expr.typeNodes :=
  .next fun t => .bind hr.unary fun _ hl => hr.binaryTail 0 least t.start hl

theorem within_binaryStep (hr : r.Within k) (start : Nat) {left : Expr}
    (hl : ∀ t ∈ left.typeNodes, t.Within k) (operator : Operator) (p : Precedence) :
    YieldsWithin k (binaryStep r start left operator p) Expr.typeNodes := by
  refine .next fun _ => ?_
  split
  · refine .bind (hr.type true) fun type ht => .next fun _ => .pure ?_
    exact List.forall_mem_append.mpr ⟨hl, List.forall_mem_singleton.mpr ht⟩
  · refine .bind (within_binary hr _) fun right hright => .next fun _ => .pure ?_
    exact List.forall_mem_append.mpr ⟨hl, hright⟩

theorem within_binaryTailBody (hr : r.Within k) (levels least start : Nat) {left : Expr}
    (hl : ∀ t ∈ left.typeNodes, t.Within k) :
    YieldsWithin k (binaryTailBody r levels least start left) Expr.typeNodes := by
  have hleave : YieldsWithin k (do leave levels; return left) Expr.typeNodes :=
    .next fun _ => .pure hl
  refine .next fun o? => ?_
  split
  · exact hleave
  next operator p =>
    refine .next fun _ => .ite (fun _ => ?_) fun _ => hleave
    refine .bind (within_binaryStep hr start hl operator p) fun e he => ?_
    exact hr.binaryTail (levels + 1) least start he

theorem within_conditional (hr : r.Within k) :
    YieldsWithin k (conditional r) Expr.typeNodes := by
  refine .next fun _ => .bind (within_binary hr _) fun c hc => .next fun _ => ?_
  refine .ite (fun _ => ?_) fun _ => .pure hc
  refine .bind hr.expression fun t ht => .next fun _ => ?_
  refine .bind hr.expression fun f hf => .next fun _ => .pure ?_
  exact List.forall_mem_append.mpr ⟨hc, List.forall_mem_append.mpr ⟨ht, hf⟩⟩

theorem within_assignment (hr : r.Within k) : YieldsWithin k (assignment r) Expr.typeNodes := by
  refine .next fun _ => .bind (within_conditional hr) fun left hl => ?_
  refine .next fun _ => .next fun _ => .ite (fun _ => ?_) fun _ => .pure hl
  refine .next fun _ => .bind hr.expression fun right hright => .next fun _ => .pure ?_
  exact List.forall_mem_append.mpr ⟨hl, hright⟩

/-! ### Queries -/

theorem within_fromClause (hr : r.Within k) :
    YieldsWithin k (fromClause r) FromClause.typeNodes := by
  have hrest (start : Nat) {type? : Option TypeSyntax} (ht : ∀ t ∈ type?.toList, t.Within k) :
      YieldsWithin k (do
        let identifier ← identifier
        let _ ← eat (.keyword .kwIn)
        let source ← r.expression
        return ⟨← rangeFrom start, type?, identifier, source⟩) FromClause.typeNodes := by
    refine .next fun _ => .next fun _ => .bind hr.expression fun e he => ?_
    exact .next fun _ => .pure (List.forall_mem_append.mpr ⟨ht, he⟩)
  refine .next fun _ => .next fun _ => .next fun _ => .ite (fun _ => ?_) fun _ => ?_
  · exact hrest _ (List.forall_mem_nil _)
  · exact .bind (hr.type true) fun type ht => hrest _ (List.forall_mem_singleton.mpr ht)

theorem within_sortKey (hr : r.Within k) : YieldsWithin k (sortKey r) SortKey.typeNodes := by
  refine .next fun _ => .bind hr.expression fun e he => .next fun t => ?_
  have hrest (isDescending : Bool) (start : Nat) : YieldsWithin k (do
      return (⟨← rangeFrom start, e, isDescending⟩ : SortKey)) SortKey.typeNodes :=
    .next fun _ => .pure he
  split
  · exact .next fun _ => hrest _ _
  · exact .next fun _ => hrest _ _
  · exact hrest _ _

theorem within_queryClause? (hr : r.Within k) :
    Yields (queryClause? r) fun c? => ∀ c ∈ c?, ∀ t ∈ c.typeNodes, t.Within k := by
  refine .next fun t => ?_
  split
  · exact .bind (within_fromClause hr) fun c hc => .pure (by simpa using hc)
  · refine .present (p := letClause r) ?_
    refine .next fun _ => .next fun _ => .next fun _ => .next fun _ => ?_
    exact .bind hr.expression fun e he => .next fun _ => .pure he
  · refine .present (p := whereClause r) ?_
    refine .next fun _ => .next fun _ => .bind hr.expression fun e he => ?_
    exact .next fun _ => .pure he
  · refine .present (p := orderByClause r) ?_
    refine .next fun _ => .next fun _ => ?_
    refine .bind (yields_separated (within_sortKey hr)) fun ks hks => ?_
    exact .next fun _ => .pure (SortKey.forall_allTypeNodes.mpr hks)
  · exact .absent

theorem within_queryEnding (hr : r.Within k) :
    YieldsWithin k (queryEnding r) QueryEnding.typeNodes := by
  refine .next fun t => ?_
  split
  · refine .next fun _ => .bind hr.expression fun e he => ?_
    exact .next fun _ => .pure he
  · refine .next fun _ => .bind hr.expression fun e he => .next fun _ => ?_
    refine .bind hr.expression fun key hkey => .next fun _ => .pure ?_
    exact List.forall_mem_append.mpr ⟨he, hkey⟩
  · exact .next fun _ => .next fun _ => .pure (List.forall_mem_nil _)

theorem within_continuation? (hr : r.Within k) :
    YieldsWithin k (continuation? r) Continuation.typeNodes? := by
  have habsent : YieldsWithin k (pure none) Continuation.typeNodes? :=
    .pure (List.forall_mem_nil _)
  refine .next fun t => .ite (fun _ => ?_) fun _ => habsent
  refine .next fun _ => .next fun i => .bind hr.continuationBody fun b? hb => ?_
  cases b? with
  | none => exact habsent
  | some b => exact .next fun _ => .pure (hb b rfl)

theorem within_queryBody (hr : r.Within k) :
    YieldsWithin k (queryBody r) QueryBody.typeNodes := by
  refine .next fun _ => .bind (.many (within_queryClause? hr)) fun cs hcs => ?_
  refine .bind (within_queryEnding hr) fun e he => ?_
  refine .bind (within_continuation? hr) fun k? hk => .next fun _ => .pure ?_
  have hclauses := QueryClause.forall_allTypeNodes.mpr hcs
  exact List.forall_mem_append.mpr ⟨hclauses, List.forall_mem_append.mpr ⟨he, hk⟩⟩

theorem within_query (hr : r.Within k) : YieldsWithin k (query r) Expr.typeNodes := by
  refine .next fun _ => .bind (within_fromClause hr) fun c hc => ?_
  refine .bind (within_queryBody hr) fun b hb => .next fun _ => .pure ?_
  exact List.forall_mem_append.mpr ⟨hc, hb⟩

theorem within_expressionBody (hr : r.Within k) :
    YieldsWithin k (expressionBody r) Expr.typeNodes :=
  .next fun _ => .ite (fun _ => within_query hr) fun _ => within_assignment hr

end

/-! ## Statements, and with them whatever the rules yield -/

section

variable {k : Nat} {r : Rules}

/-! ### Declarations of variables -/

theorem within_declarator (hr : r.Within k) (identifier : Identifier) :
    YieldsWithin k (declarator r identifier) Declarator.typeNodes := by
  refine .next fun _ => .iteBind (fun _ => .present (within_element hr)) (fun _ => .absent) ?_
  exact fun e? he => .next fun _ => .pure (forall_elim_typeNodes.mpr he)

theorem within_declarators (hr : r.Within k) (start : Nat) {type : TypeSyntax}
    (ht : type.Within k) (first : Identifier) :
    YieldsWithin k (declarators r start type first) VariableDeclaration.typeNodes := by
  refine .bind (within_declarator hr first) fun d hd => ?_
  refine .bind (yields_afterCommas (.next fun i => within_declarator hr i)) fun ds hds => ?_
  refine .next fun _ => .pure (List.forall_mem_cons.mpr ⟨ht, List.forall_mem_flatMap.mpr ?_⟩)
  exact List.forall_mem_cons.mpr ⟨hd, hds⟩

theorem within_variableDeclaration (hr : r.Within k) :
    YieldsWithin k (variableDeclaration r) VariableDeclaration.typeNodes :=
  .next fun _ => .bind (hr.type true) fun _ ht => .next fun _ => within_declarators hr _ ht _

theorem within_localDeclaration (hr : r.Within k) :
    YieldsWithin k (localDeclaration r) Stmt.typeNodes := by
  refine .next fun _ => .next fun _ => .next fun _ => ?_
  refine .bind (within_variableDeclaration hr) fun d hd => .next fun _ => .next fun _ => ?_
  exact .pure hd

/-! ### Statements -/

theorem within_expressionStatement (hr : r.Within k) :
    YieldsWithin k (expressionStatement r) Stmt.typeNodes := by
  refine .next fun _ => .bind hr.expression fun e he => ?_
  exact .next fun _ => .next fun _ => .next fun _ => .pure he

theorem within_blockStatement? (hr : r.Within k) :
    Yields (blockStatement? r) fun s? => ∀ s ∈ s?, ∀ t ∈ s.typeNodes, t.Within k := by
  refine .next fun _ => .ite (fun _ => .absent) fun _ => .next fun _ => ?_
  refine .bind hr.statement fun s hs => .next fun _ => ?_
  have hsome : ∀ u ∈ some s, ∀ t ∈ u.typeNodes, t.Within k := by simpa using hs
  exact .ite (fun _ => .next fun _ => .pure hsome) fun _ => .pure hsome

theorem within_block (hr : r.Within k) : YieldsWithin k (block r) Block.typeNodes := by
  refine .next fun _ => .next fun _ => .bind (.many (within_blockStatement? hr)) fun ss hss => ?_
  exact .next fun _ => .next fun _ => .pure (Stmt.forall_allTypeNodes.mpr hss)

theorem within_condition (hr : r.Within k) : YieldsWithin k (condition r) Expr.typeNodes :=
  .next fun _ => .bind hr.expression fun _ he => .next fun _ => .pure he

theorem within_ifStatement (hr : r.Within k) :
    YieldsWithin k (ifStatement r) Stmt.typeNodes := by
  refine .next fun _ => .next fun _ => .bind (within_condition hr) fun e he => ?_
  refine .bind hr.statement fun s hs => .next fun _ => ?_
  refine .iteBind (fun _ => .present hr.statement) (fun _ => .absent) fun s? hs? => ?_
  have hs? := Stmt.forall_typeNodes?.mpr hs?
  refine .next fun _ => .pure ?_
  exact List.forall_mem_append.mpr ⟨he, List.forall_mem_append.mpr ⟨hs, hs?⟩⟩

theorem within_whileStatement (hr : r.Within k) :
    YieldsWithin k (whileStatement r) Stmt.typeNodes := by
  refine .next fun _ => .next fun _ => .bind (within_condition hr) fun e he => ?_
  refine .bind hr.statement fun s hs => .next fun _ => .pure ?_
  exact List.forall_mem_append.mpr ⟨he, hs⟩

theorem within_doStatement (hr : r.Within k) :
    YieldsWithin k (doStatement r) Stmt.typeNodes := by
  refine .next fun _ => .next fun _ => .bind hr.statement fun s hs => .next fun _ => ?_
  refine .bind (within_condition hr) fun e he => .next fun _ => .next fun _ => .pure ?_
  exact List.forall_mem_append.mpr ⟨hs, he⟩

/-! ### The header of a `for` -/

theorem within_forExpressionsRest (hr : r.Within k) (allowSemicolon : Bool) :
    Yields (forExpressionsRest r allowSemicolon)
      fun es => ∀ e ∈ es, ∀ t ∈ e.typeNodes, t.Within k := by
  refine .bind (.loop (fun es => ∀ e ∈ es, ∀ t ∈ e.typeNodes, t.Within k) (by simp) ?_)
    fun es hes => .pure fun e he => hes e (List.mem_reverse.mp he)
  intro es hes
  refine .next fun _ => .ite (fun _ => .pure hes) fun _ => .ite (fun _ => ?_) fun _ => ?_
  · refine .next fun _ => .bind hr.expression fun e he => .pure ?_
    exact List.forall_mem_cons.mpr ⟨he, hes⟩
  · exact .next fun _ => .ite (fun _ => .pure hes) fun _ => .pure hes

theorem within_forExpressions (hr : r.Within k) (allowSemicolon : Bool) :
    YieldsWithin k (forExpressions r allowSemicolon) Expr.allTypeNodes := by
  have hrest (found : Bool) : YieldsWithin k (do
      if found then
        let first ← r.expression
        return first :: (← forExpressionsRest r allowSemicolon)
      else return []) Expr.allTypeNodes := by
    refine .ite (fun _ => .bind hr.expression fun e he => ?_) fun _ =>
      .pure (List.forall_mem_nil _)
    refine .bind (within_forExpressionsRest hr allowSemicolon) fun es hes => .pure ?_
    exact List.forall_mem_append.mpr ⟨he, Expr.forall_allTypeNodes.mpr hes⟩
  refine .next fun _ => .ite (fun _ => .pure (List.forall_mem_nil _)) fun _ => ?_
  exact .ite (fun _ => hrest true) fun _ => .next hrest

theorem within_forInitializer? (hr : r.Within k) :
    Yields (forInitializer? r) fun i? => ∀ i ∈ i?, ∀ t ∈ i.typeNodes, t.Within k := by
  refine .next fun _ => .ite (fun _ => ?_) fun _ => .next fun _ => .ite (fun _ => .absent) ?_
  · exact .bind (within_variableDeclaration hr) fun d hd => .pure (by simpa using hd)
  · refine fun _ => .bind (within_forExpressions hr false) fun es hes => .pure ?_
    split
    · exact fun i hi => absurd hi (Option.not_mem_none i)
    · simpa using hes

theorem within_forCondition? (hr : r.Within k) :
    Yields (forCondition? r) fun e? => ∀ e ∈ e?, ∀ t ∈ e.typeNodes, t.Within k :=
  .next fun _ => .ite (fun _ => .absent) fun _ => .present hr.expression

theorem within_forHeader (hr : r.Within k) :
    YieldsWithin k (forHeader r) ForHeader.typeNodes := by
  refine .next fun w => .next fun o => .bind (within_forInitializer? hr) fun i? hi => ?_
  refine .next fun s => .bind (within_forCondition? hr) fun e? he => .next fun s' => ?_
  have hlast {es : List Expr} (hes : ∀ t ∈ Expr.allTypeNodes es, t.Within k) (o' : Leaf) :
      YieldsWithin k (do checkStatementExpressions es; return ⟨w, o, i?, s, e?, s', es, o'⟩)
        ForHeader.typeNodes := by
    have hi := forall_elim_typeNodes.mpr hi
    have he := forall_elim_typeNodes.mpr he
    refine .next fun _ => .pure ?_
    exact List.forall_mem_append.mpr ⟨hi, List.forall_mem_append.mpr ⟨he, hes⟩⟩
  refine .next fun _ => .iteBind (fun _ => .pure (List.forall_mem_nil _))
    (fun _ => within_forExpressions hr true) fun es hes => .next fun o' => ?_
  dsimp only
  split
  · exact .next fun _ => hlast hes o'
  · exact hlast hes o'

theorem within_forStatement (hr : r.Within k) :
    YieldsWithin k (forStatement r) Stmt.typeNodes := by
  refine .next fun _ => .bind (within_forHeader hr) fun h hh => ?_
  refine .bind hr.statement fun s hs => .next fun _ => .pure ?_
  exact List.forall_mem_append.mpr ⟨hh, hs⟩

/-! ### Jumps and labels -/

theorem within_returnStatement (hr : r.Within k) :
    YieldsWithin k (returnStatement r) Stmt.typeNodes := by
  refine .next fun _ => .next fun _ => .next fun _ => ?_
  refine .iteBind (fun _ => .absent) (fun _ => .present hr.expression) fun e? he => ?_
  exact .next fun _ => .next fun _ => .pure (forall_elim_typeNodes.mpr he)

theorem within_gotoStatement : YieldsWithin k gotoStatement Stmt.typeNodes :=
  .next fun _ => .next fun _ => .next fun _ => .next fun _ => .next fun _ =>
    .pure (List.forall_mem_nil _)

theorem within_labeledStatement (hr : r.Within k) :
    YieldsWithin k (labeledStatement r) Stmt.typeNodes := by
  refine .next fun _ => .next fun _ => .next fun _ => .bind hr.statement fun s hs => ?_
  exact .next fun _ => .pure hs

theorem within_wordlessStatement (hr : r.Within k) :
    YieldsWithin k (wordlessStatement r) Stmt.typeNodes :=
  .next fun _ => .ite (fun _ => within_labeledStatement hr) fun _ => .next fun _ =>
    .ite (fun _ => within_localDeclaration hr) fun _ => within_expressionStatement hr

theorem within_emptyStatement : YieldsWithin k emptyStatement Stmt.typeNodes :=
  .next fun _ => .pure (List.forall_mem_nil _)

theorem within_statementBody (hr : r.Within k) :
    YieldsWithin k (statementBody r) Stmt.typeNodes := by
  refine .next fun t => ?_
  split
  · exact .bind (within_block hr) fun b hb => .pure hb
  · exact .next fun _ => .pure (List.forall_mem_nil _)
  · exact within_ifStatement hr
  · exact within_whileStatement hr
  · exact within_doStatement hr
  · exact within_forStatement hr
  · exact within_returnStatement hr
  · exact .next fun _ => .pure (List.forall_mem_nil _)
  · exact .next fun _ => .pure (List.forall_mem_nil _)
  · exact within_gotoStatement
  · exact within_localDeclaration hr
  · exact within_wordlessStatement hr

/-! ### All rules -/

theorem within_rules_type (n : Nat) (withRanks : Bool) :
    Yields ((rules n).type withRanks) (TypeSyntax.Within (2 * n + 1)) := by
  induction n generalizing withRanks with
  | zero => exact .next fun _ => .next fun _ => within_missingType
  | succ n ih => exact .nested (.any _) within_missingType (within_typeBody ih withRanks)

theorem Rules.within_none : Rules.none.Within (k + 2) where
  statement := .next fun _ => .next fun _ => within_emptyStatement
  expression := .next fun _ => .next fun _ => within_missingExpression
  unary := .next fun _ => .next fun _ => within_missingExpression
  type _ := .next fun _ => .next fun _ => within_missingType
  name := within_name fun _ => .next fun _ => .next fun _ => within_missingType
  binaryTail _ _ _ _ hl := .next fun _ => .next fun _ => .next fun _ => .pure hl
  postfixTail _ _ _ ho := .next fun _ => .next fun _ => .next fun _ => .pure ho
  elements := .next fun _ => .next fun _ => .pure (List.forall_mem_nil _)
  continuationBody := .next fun _ => .next fun _ => .absent

/-- Rules of fewer levels yield types within the same bound. -/
theorem within_rules {n : Nat} (hn : 2 * n + 2 ≤ k) : (rules n).Within k := by
  induction n with
  | zero =>
    obtain ⟨k, rfl⟩ := Nat.exists_eq_add_of_le' hn
    exact Rules.within_none
  | succ n ih =>
    have hr : (rules n).Within k := ih (by omega)
    exact {
      statement := .nested (.any _) within_emptyStatement (within_statementBody hr)
      expression := .nested (.any _) within_missingExpression (within_expressionBody hr)
      unary := .nested (.any _) within_missingExpression (within_unaryBody hr)
      type := fun withRanks => (within_rules_type (n + 1) withRanks).imp fun _ h =>
        h.mono (by omega)
      name := (within_name (within_rules_type (n + 1))).imp fun _ h => h.mono (by omega)
      binaryTail := fun levels least start _ hl => within_binaryTailBody hr levels least start hl
      postfixTail := fun levels start _ ho => within_postfixTailBody hr levels start ho
      elements := .nested (.any _) (.pure (List.forall_mem_nil _)) (within_elementsBody hr)
      continuationBody := .nested (.any _) .absent (.present (within_queryBody hr)) }

end

end CSharpFront.Parser
