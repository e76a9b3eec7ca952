import CSharpFront.Proofs.Parser.Respells
/-!
Expressions, queries and statements in two spellings, and from them all rules.
-/

namespace CSharpFront.Parser

/-! ## Expressions and queries -/

section

variable {σ : Spelling} {r : Rules}

/-! ### Lists of expressions -/

theorem respells_initializer (hr : r.Respell σ) :
    Respells σ (Initializer.Respelled σ.names) (initializer r) (initializer r) := by
  apply Parallel.bind respells_current
  intro t u ht
  rw [ht.start]
  refine .next (respells_eat _) fun _ _ => .bind hr.elements fun es es' hes => ?_
  refine .next (respells_eat _) fun _ _ => .same (respells_rangeFrom _) fun _ => ?_
  exact .pure (.mk _ hes)

theorem respells_element (hr : r.Respell σ) :
    Respells σ (Expr.Respelled σ.names) (element r) (element r) := by
  refine .same parallel_currentKind fun _ => .ite ?_ hr.expression
  exact .bind (respells_initializer hr) fun _ _ hi => .pure (.initializer hi)

theorem respells_elementsBody (hr : r.Respell σ) :
    Respells σ (List.Forall₂ (Expr.Respelled σ.names)) (elementsBody r) (elementsBody r) := by
  refine .bind (.loop .nil fun es es' hes => ?_) fun es es' hes => .pure (List.rel_reverse hes)
  refine .same parallel_currentKind fun _ => .ite (.pure (.done hes)) ?_
  refine .bind (respells_element hr) fun e e' he => .same (parallel_accept _) fun _ => ?_
  exact .ite (.pure (.yield (.cons he hes))) (.pure (.done (.cons he hes)))

theorem respells_optionalInitializer (hr : r.Respell σ) :
    Respells σ (Option.Rel (Initializer.Respelled σ.names)) (optionalInitializer r)
      (optionalInitializer r) :=
  .same parallel_currentKind fun _ => .ite (respells_initializer hr).present .absent

theorem respells_argument (hr : r.Respell σ) :
    Respells σ (Expr.Respelled σ.names) (argument r) (argument r) :=
  .same parallel_currentKind fun _ => .ite (.next parallel_advance fun _ _ => hr.expression)
    hr.expression

theorem respells_arguments (hr : r.Respell σ) (opening closing : Punctuator) :
    Respells σ (List.Forall₂ (Expr.Respelled σ.names)) (arguments r opening closing)
      (arguments r opening closing) := by
  refine .next (respells_eat _) fun _ _ => .same parallel_currentKind fun _ => ?_
  refine .iteBind (.pure .nil) (parallel_separated (respells_argument hr)) fun es es' hes => ?_
  exact .next (respells_eat _) fun _ _ => .pure hes

/-! ### Operands -/

/-- Sizes with the same number of dimensions. -/
def SizesRespelled (σ : Spelling) (p q : List Expr × Nat) : Prop :=
  List.Forall₂ (Expr.Respelled σ.names) p.1 q.1 ∧ p.2 = q.2

theorem respells_sizes (hr : r.Respell σ) : Respells σ (SizesRespelled σ) (sizes r) (sizes r) := by
  have hstart : SizesRespelled σ ([], 1) ([], 1) := ⟨.nil, rfl⟩
  refine .bind (.loop hstart ?_) fun p q h => .pure ⟨List.rel_reverse h.1, h.2⟩
  rintro ⟨es, rank⟩ ⟨es', _⟩ ⟨hes, rfl⟩
  refine .same parallel_currentKind fun _ => .ite (.pure (.done ⟨hes, rfl⟩)) ?_
  refine .ite (.next parallel_advance fun _ _ => .pure (.yield ⟨hes, rfl⟩)) ?_
  refine .bind hr.expression fun e e' he => .same (parallel_accept _) fun _ => ?_
  exact .ite (.pure (.yield ⟨.cons he hes, rfl⟩)) (.pure (.done ⟨.cons he hes, rfl⟩))

theorem respells_arrayCreationRest (hr : r.Respell σ) (start : Nat)
    {element element' : TypeSyntax} (he : element.Respelled σ.names element') :
    Respells σ (Expr.Respelled σ.names) (arrayCreationRest r start element)
      (arrayCreationRest r start element') := by
  refine .next (respells_eat _) fun _ _ => .bind (respells_sizes hr) ?_
  rintro ⟨es, rank⟩ ⟨es', _⟩ ⟨hes, rfl⟩
  rw [he.range σ.sameRange]
  refine .next (respells_eat _) fun _ _ => .same (respells_rangeFrom _) fun _ => ?_
  refine .bind (respells_rankSpecifiers _ (.array _ _ he)) fun _ _ ht => ?_
  refine .bind (respells_optionalInitializer hr) fun _ _ hi => ?_
  exact .same (respells_rangeFrom _) fun _ => .pure (.arrayCreation _ ht hes hi)

theorem respells_objectCreationRest (hr : r.Respell σ) (start : Nat)
    {type type' : TypeSyntax} (ht : type.Respelled σ.names type') :
    Respells σ (Expr.Respelled σ.names) (objectCreationRest r start type)
      (objectCreationRest r start type') := by
  have hrest {es? es?' : Option (List Expr)}
      (hes : Option.Rel (List.Forall₂ (Expr.Respelled σ.names)) es? es?') :
      Respells σ (Expr.Respelled σ.names)
        (do
          let initializer? ← optionalInitializer r
          return .objectCreation (← rangeFrom start) type es? initializer?)
        (do
          let initializer? ← optionalInitializer r
          return .objectCreation (← rangeFrom start) type' es?' initializer?) := by
    refine .bind (respells_optionalInitializer hr) fun _ _ hi => ?_
    exact .same (respells_rangeFrom _) fun _ => .pure (.objectCreation _ ht hes hi)
  refine .same parallel_currentKind fun _ => .ite ?_ (hrest .none)
  exact .bind (respells_arguments hr _ _) fun _ _ hes => hrest (.some hes)

theorem respells_creation (hr : r.Respell σ) :
    Respells σ (Expr.Respelled σ.names) (creation r) (creation r) := by
  apply Parallel.bind respells_current
  intro t u ht
  rw [ht.start]
  refine .next (respells_eat _) fun _ _ => .same (parallel_accept _) fun _ => .ite ?_ ?_
  · apply Parallel.bind .get
    intro s s' hs
    rw [hs.alike.run]
    refine .next (parallel_advanceBy _) fun _ _ => .next (respells_eat _) fun _ _ => ?_
    refine .bind (respells_initializer hr) fun _ _ hi => ?_
    exact .same (respells_rangeFrom _) fun _ => .pure (.implicitArrayCreation _ hi)
  · refine .bind (hr.type false) fun type type' htype => .same parallel_currentKind fun _ => ?_
    split
    · exact respells_arrayCreationRest hr _ htype
    · exact respells_objectCreationRest hr _ htype
    · exact respells_objectCreationRest hr _ htype
    · refine respells_reportMissing (.same (respells_rangeFrom _) fun _ => ?_)
      exact .pure (.objectCreation _ htype .none .none)

/-- What is reported of a token cites it, unless it is an identifier. -/
theorem respells_invalidTerm {env env' : Env} {s s' : State} (he : env.Respelled σ env')
    (hs : s.Respelled σ s') (hk : (s.rest.headD env.endOfFile).kind ≠ .identifier)
    (hl : literalKind? (s.rest.headD env.endOfFile).kind = none) :
    (invalidTerm env s).1.Respelled σ.names (invalidTerm env' s').1 ∧
      State.Respelled σ (invalidTerm env s).2 (invalidTerm env' s').2 := by
  have hall : ∀ t u : Token, t.Respelled σ u → t.kind ≠ .identifier → literalKind? t.kind = none →
      Respells σ (Expr.Respelled σ.names)
        (do
          if t.kind = .endOfFile then report .expressionExpected t.span
          else report .invalidExpressionTerm t.span [t.text]
          missingExpression)
        (do
          if u.kind = .endOfFile then report .expressionExpected u.span
          else report .invalidExpressionTerm u.span [u.text]
          missingExpression) := by
    intro t u ht hk hl
    rw [← ht.kind, ← ht.span, ← ht.text hk]
    refine .ite (.next (respells_report (σ.reports_of ..)) fun _ _ => respells_missingExpression) ?_
    exact .next (respells_report (ht.term _ hl)) fun _ _ => respells_missingExpression
  exact hall _ _ (he.first hs) hk hl env env' s s' he hs

theorem respells_primary (hr : r.Respell σ) :
    Respells σ (Expr.Respelled σ.names) (primary r) (primary r) := by
  apply respells_first
  intro env env' s s' he hs t u hfirst ht
  have hcite := respells_invalidTerm he hs
  rw [← hfirst] at hcite
  have hrun {p q : P Expr} (h : Respells σ (Expr.Respelled σ.names) p q) :=
    h env env' s s' he hs
  simp only [ht.kind] at hcite ⊢
  cases hl : literalKind? u.kind with
  | some kind =>
    have hk : t.kind ≠ .identifier := by
      rw [ht.kind]
      intro hk
      rw [hk] at hl
      cases hl
    refine hrun (.next parallel_advance fun _ _ => .pure ?_)
    rw [ht.range, ht.text hk, ht.flags]
    exact .literal _
  | none =>
    cases hspecial : u.kind.special? with
    | some special =>
      refine hrun (.next parallel_advance fun _ _ => .pure ?_)
      rw [ht.range]
      exact .predefinedType _ _
    | none =>
      dsimp only
      generalize hkind : u.kind = kind at hl hcite ⊢
      split
      · have hidentifier := respells_identifierOf ht (ht.kind.trans hkind)
        refine hrun (.next parallel_advance fun _ _ => ?_)
        exact .bind hidentifier fun _ _ hi => .pure (.identifier hi)
      · rw [ht.range]
        exact hrun (.next parallel_advance fun _ _ => .pure (.thisWord _))
      · rw [ht.start]
        refine hrun (.next parallel_advance fun _ _ => .bind hr.expression fun _ _ he => ?_)
        refine .next (respells_eat _) fun _ _ => .same (respells_rangeFrom _) fun _ => ?_
        exact .pure (.parenthesized _ he)
      · exact hrun (respells_creation hr)
      next hk _ _ _ => exact hcite hk hl

theorem respells_castExpression (hr : r.Respell σ) :
    Respells σ (Expr.Respelled σ.names) (castExpression r) (castExpression r) := by
  apply Parallel.bind respells_current
  intro t u ht
  rw [ht.start]
  refine .next (respells_eat _) fun _ _ => .bind (hr.type true) fun _ _ htype => ?_
  refine .next (respells_eat _) fun _ _ => .bind hr.unary fun _ _ he => ?_
  exact .same (respells_rangeFrom _) fun _ => .pure (.cast _ htype he)

theorem respells_unaryBody (hr : r.Respell σ) :
    Respells σ (Expr.Respelled σ.names) (unaryBody r) (unaryBody r) := by
  apply Parallel.bind respells_current
  intro t u ht
  rw [ht.kind, ht.start]
  refine .ite ?_ (.bind .read fun env env' he => ?_)
  · refine .same respells_take fun _ => .bind hr.unary fun _ _ he => ?_
    exact .same (respells_rangeFrom _) fun _ => .pure (.prefixUnary _ _ he)
  rw [he.inAsync, ht.looksLike.isContextual]
  refine .ite ?_ (.bind .read fun env env' he => .bind .get fun s s' hs => ?_)
  · refine .next parallel_advance fun _ _ => .bind hr.unary fun _ _ he => ?_
    exact .same (respells_rangeFrom _) fun _ => .pure (.await _ he)
  rw [he.maxDepth, hs.alike.tail.startsCast]
  refine .ite (respells_castExpression hr) ?_
  exact .bind (respells_primary hr) fun _ _ h => hr.postfixTail 0 _ h

theorem respells_postfixStep (hr : r.Respell σ) (start : Nat) {operand operand' : Expr}
    (ho : operand.Respelled σ.names operand') :
    Respells σ (Expr.Respelled σ.names) (postfixStep r start operand)
      (postfixStep r start operand') := by
  have hmember : Respells σ (Expr.Respelled σ.names)
      (do
        let operator ← take
        let name ← identifier
        return .memberAccess (← rangeFrom start) operand operator name)
      (do
        let operator ← take
        let name ← identifier
        return .memberAccess (← rangeFrom start) operand' operator name) := by
    refine .same respells_take fun _ => .bind respells_identifier fun _ _ hi => ?_
    exact .same (respells_rangeFrom _) fun _ => .pure (.memberAccess _ _ ho hi)
  refine .same parallel_currentKind fun _ => ?_
  split
  · exact hmember
  · exact hmember
  · refine .bind (respells_arguments hr _ _) fun _ _ hes => ?_
    exact .same (respells_rangeFrom _) fun _ => .pure (.invocation _ ho hes)
  · refine .bind (respells_arguments hr _ _) fun _ _ hes => ?_
    exact .same (respells_rangeFrom _) fun _ => .pure (.elementAccess _ ho hes)
  · refine .same respells_take fun _ => .same (respells_rangeFrom _) fun _ => ?_
    exact .pure (.postfixUnary _ _ ho)

theorem respells_postfixTailBody (hr : r.Respell σ) (levels start : Nat)
    {operand operand' : Expr} (ho : operand.Respelled σ.names operand') :
    Respells σ (Expr.Respelled σ.names) (postfixTailBody r levels start operand)
      (postfixTailBody r levels start operand') := by
  refine .same parallel_currentKind fun _ => .ite ?_ (parallel_leaveWith _ ho)
  refine .same parallel_enter fun _ => .ite ?_ (parallel_leaveWith _ ho)
  exact .bind (respells_postfixStep hr start ho) fun _ _ h => hr.postfixTail (levels + 1) start h

/-! ### Operators -/

theorem respells_binary (hr : r.Respell σ) (least : Nat) :
    Respells σ (Expr.Respelled σ.names) (binary r least) (binary r least) := by
  apply Parallel.bind respells_current
  intro t u ht
  rw [ht.start]
  exact .bind hr.unary fun _ _ h => hr.binaryTail 0 least _ h

theorem respells_binaryStep (hr : r.Respell σ) (start : Nat) {left left' : Expr}
    (hl : left.Respelled σ.names left') (operator : Operator) (precedence : Precedence) :
    Respells σ (Expr.Respelled σ.names) (binaryStep r start left operator precedence)
      (binaryStep r start left' operator precedence) := by
  refine .next (parallel_advanceBy _) fun _ _ => ?_
  split
  · refine .bind (hr.type true) fun _ _ ht => ?_
    exact .same (respells_rangeFrom _) fun _ => .pure (.typeTest _ _ hl ht)
  · refine .bind (respells_binary hr _) fun _ _ he => ?_
    exact .same (respells_rangeFrom _) fun _ => .pure (.binary _ _ hl he)

theorem respells_binaryTailBody (hr : r.Respell σ) (levels least start : Nat)
    {left left' : Expr} (hl : left.Respelled σ.names left') :
    Respells σ (Expr.Respelled σ.names) (binaryTailBody r levels least start left)
      (binaryTailBody r levels least start left') := by
  refine .same (respells_nextOperator? least) fun next? => ?_
  cases next? with
  | none => exact parallel_leaveWith _ hl
  | some next =>
    refine .same parallel_enter fun _ => .ite ?_ (parallel_leaveWith _ hl)
    refine .bind (respells_binaryStep hr start hl _ _) fun _ _ h => ?_
    exact hr.binaryTail (levels + 1) least start h

theorem respells_conditional (hr : r.Respell σ) :
    Respells σ (Expr.Respelled σ.names) (conditional r) (conditional r) := by
  apply Parallel.bind respells_current
  intro t u ht
  rw [ht.start]
  refine .bind (respells_binary hr _) fun _ _ hc => .same (parallel_accept _) fun _ => ?_
  refine .ite (.bind hr.expression fun _ _ htrue => ?_) (.pure hc)
  refine .next (respells_eat _) fun _ _ => .bind hr.expression fun _ _ hfalse => ?_
  exact .same (respells_rangeFrom _) fun _ => .pure (.conditional _ hc htrue hfalse)

theorem respells_assignment (hr : r.Respell σ) :
    Respells σ (Expr.Respelled σ.names) (assignment r) (assignment r) := by
  apply Parallel.bind respells_current
  intro t u ht
  rw [ht.start]
  refine .bind (respells_conditional hr) fun _ _ hl => .bind .read fun env env' he => ?_
  apply Parallel.bind .get
  intro s s' hs
  rw [Operator.next_respelled he.endOfFile hs.rest]
  refine .ite (.next (parallel_advanceBy _) fun _ _ => ?_) (.pure hl)
  refine .bind hr.expression fun _ _ hright => ?_
  exact .same (respells_rangeFrom _) fun _ => .pure (.assignment _ _ hl hright)

/-! ### Queries -/

theorem respells_fromClause (hr : r.Respell σ) :
    Respells σ (FromClause.Respelled σ.names) (fromClause r) (fromClause r) := by
  apply Parallel.bind respells_current
  intro t u ht
  rw [ht.start]
  have hrest {t? t?' : Option TypeSyntax} (ht : Option.Rel (TypeSyntax.Respelled σ.names) t? t?') :
      Respells σ (FromClause.Respelled σ.names)
        (do
          let identifier ← identifier
          let _ ← eat (.keyword .kwIn)
          let source ← r.expression
          return ⟨← rangeFrom u.start, t?, identifier, source⟩)
        (do
          let identifier ← identifier
          let _ ← eat (.keyword .kwIn)
          let source ← r.expression
          return ⟨← rangeFrom u.start, t?', identifier, source⟩) := by
    refine .bind respells_identifier fun _ _ hi => .next (respells_eat _) fun _ _ => ?_
    refine .bind hr.expression fun _ _ he => ?_
    exact .same (respells_rangeFrom _) fun _ => .pure (.mk _ ht hi he)
  refine .next parallel_advance fun _ _ => .bind .get fun s s' hs => ?_
  simp only [hs.alike.kind, hs.alike.secondKind]
  exact .ite (hrest .none) (.bind (hr.type true) fun _ _ ht => hrest (.some ht))

theorem respells_letClause (hr : r.Respell σ) :
    Respells σ (QueryClause.Respelled σ.names) (letClause r) (letClause r) := by
  apply Parallel.bind respells_current
  intro t u ht
  rw [ht.start]
  refine .next parallel_advance fun _ _ => .bind respells_identifier fun _ _ hi => ?_
  refine .next (respells_eat _) fun _ _ => .bind hr.expression fun _ _ he => ?_
  exact .same (respells_rangeFrom _) fun _ => .pure (.letClause _ hi he)

theorem respells_whereClause (hr : r.Respell σ) :
    Respells σ (QueryClause.Respelled σ.names) (whereClause r) (whereClause r) := by
  apply Parallel.bind respells_current
  intro t u ht
  rw [ht.start]
  refine .next parallel_advance fun _ _ => .bind hr.expression fun _ _ he => ?_
  exact .same (respells_rangeFrom _) fun _ => .pure (.whereClause _ he)

theorem respells_sortKey (hr : r.Respell σ) :
    Respells σ (SortKey.Respelled σ.names) (sortKey r) (sortKey r) := by
  apply Parallel.bind respells_current
  intro t u ht
  rw [ht.start]
  refine .bind hr.expression fun e e' he => .bind respells_current fun v w hv => ?_
  have hmake (isDescending : Bool) : Respells σ (SortKey.Respelled σ.names)
      (do return ⟨← rangeFrom u.start, e, isDescending⟩)
      (do return ⟨← rangeFrom u.start, e', isDescending⟩) :=
    .same (respells_rangeFrom _) fun _ => .pure (.mk _ _ he)
  rw [hv.looksLike.contextual?]
  split
  · exact .next parallel_advance fun _ _ => hmake false
  · exact .next parallel_advance fun _ _ => hmake true
  · exact hmake false

theorem respells_orderByClause (hr : r.Respell σ) :
    Respells σ (QueryClause.Respelled σ.names) (orderByClause r) (orderByClause r) := by
  apply Parallel.bind respells_current
  intro t u ht
  rw [ht.start]
  refine .next parallel_advance fun _ _ => ?_
  refine .bind (parallel_separated (respells_sortKey hr)) fun _ _ hks => ?_
  exact .same (respells_rangeFrom _) fun _ => .pure (.orderByClause _ hks)

theorem respells_queryClause? (hr : r.Respell σ) :
    Respells σ (Option.Rel (QueryClause.Respelled σ.names)) (queryClause? r) (queryClause? r) := by
  apply Parallel.bind respells_current
  intro t u ht
  rw [ht.looksLike.contextual?]
  split
  · exact .bind (respells_fromClause hr) fun _ _ h => .pure (.some (.fromClause h))
  · exact .bind (respells_letClause hr) fun _ _ h => .pure (.some h)
  · exact .bind (respells_whereClause hr) fun _ _ h => .pure (.some h)
  · exact .bind (respells_orderByClause hr) fun _ _ h => .pure (.some h)
  · exact .absent

theorem respells_queryEnding (hr : r.Respell σ) :
    Respells σ (QueryEnding.Respelled σ.names) (queryEnding r) (queryEnding r) := by
  apply Parallel.bind respells_current
  intro t u ht
  rw [ht.looksLike.contextual?, ht.start, ht.span]
  split
  · refine .next parallel_advance fun _ _ => .bind hr.expression fun _ _ he => ?_
    exact .same (respells_rangeFrom _) fun _ => .pure (.select _ he)
  · refine .next parallel_advance fun _ _ => .bind hr.expression fun _ _ he => ?_
    refine .next (respells_eatContextual (by decide)) fun _ _ => ?_
    refine .bind hr.expression fun _ _ hk => ?_
    exact .same (respells_rangeFrom _) fun _ => .pure (.group _ he hk)
  · refine .next (respells_report (σ.reports_of ..)) fun _ _ => .bind .get fun s s' hs => .pure ?_
    rw [hs.prevStop]
    exact .missing _

theorem respells_continuation? (hr : r.Respell σ) :
    Respells σ (Option.Rel (Continuation.Respelled σ.names)) (continuation? r)
      (continuation? r) := by
  apply Parallel.bind respells_current
  intro t u ht
  rw [ht.looksLike.isContextual, ht.start]
  refine .ite (.next parallel_advance fun _ _ => ?_) .absent
  refine .bind respells_identifier fun _ _ hi => .bind hr.continuationBody ?_
  rintro _ _ (hb | _)
  · exact .same (respells_rangeFrom _) fun _ => .pure (.some (.mk _ hi hb))
  · exact .absent

theorem respells_queryBody (hr : r.Respell σ) :
    Respells σ (QueryBody.Respelled σ.names) (queryBody r) (queryBody r) := by
  apply Parallel.bind respells_current
  intro t u ht
  rw [ht.start]
  refine .bind (.many (respells_queryClause? hr)) fun _ _ hqs => ?_
  refine .bind (respells_queryEnding hr) fun _ _ he => ?_
  refine .bind (respells_continuation? hr) fun _ _ hk => ?_
  exact .same (respells_rangeFrom _) fun _ => .pure (.mk _ hqs he hk)

theorem respells_query (hr : r.Respell σ) :
    Respells σ (Expr.Respelled σ.names) (query r) (query r) := by
  apply Parallel.bind respells_current
  intro t u ht
  rw [ht.start]
  refine .bind (respells_fromClause hr) fun _ _ hc => ?_
  refine .bind (respells_queryBody hr) fun _ _ hb => ?_
  exact .same (respells_rangeFrom _) fun _ => .pure (.query _ hc hb)

theorem respells_expressionBody (hr : r.Respell σ) :
    Respells σ (Expr.Respelled σ.names) (expressionBody r) (expressionBody r) := by
  apply Parallel.bind .get
  intro s s' hs
  rw [hs.alike.startsQuery]
  exact .ite (respells_query hr) (respells_assignment hr)

end

/-! ## Statements -/

section

variable {σ : Spelling} {r : Rules}

/-! ### Declarations of variables -/

theorem respells_declarator (hr : r.Respell σ) {i i' : Identifier} (hi : σ.names i i') :
    Respells σ (Declarator.Respelled σ.names) (declarator r i) (declarator r i') := by
  have hrest {e? e?' : Option Expr} (he : Option.Rel (Expr.Respelled σ.names) e? e?') :
      Respells σ (Declarator.Respelled σ.names) (do return ⟨← rangeFrom i.range.start, i, e?⟩)
        (do return ⟨← rangeFrom i'.range.start, i', e?'⟩) := by
    rw [σ.sameRange i i' hi]
    exact .same (respells_rangeFrom _) fun _ => .pure ⟨rfl, hi, he⟩
  refine .same (parallel_accept _) fun _ => .ite ?_ (hrest .none)
  exact .bind (respells_element hr) fun _ _ he => hrest (.some he)

theorem respells_declarators (hr : r.Respell σ) (start : Nat) {type type' : TypeSyntax}
    (ht : type.Respelled σ.names type') {first first' : Identifier} (hf : σ.names first first') :
    Respells σ (VariableDeclaration.Respelled σ.names) (declarators r start type first)
      (declarators r start type' first') := by
  apply Parallel.bind (respells_declarator hr hf)
  intro d d' hd
  have hother : Respells σ (Declarator.Respelled σ.names)
      (do
        let identifier ← identifier
        declarator r identifier)
      (do
        let identifier ← identifier
        declarator r identifier) :=
    .bind respells_identifier fun _ _ hi => respells_declarator hr hi
  refine .bind (parallel_afterCommas hother) fun _ _ hds => ?_
  exact .same (respells_rangeFrom _) fun _ => .pure ⟨rfl, ht, .cons hd hds⟩

theorem respells_variableDeclaration (hr : r.Respell σ) :
    Respells σ (VariableDeclaration.Respelled σ.names) (variableDeclaration r)
      (variableDeclaration r) := by
  apply Parallel.bind respells_current
  intro t u ht
  rw [ht.start]
  refine .bind (hr.type true) fun _ _ htype => .bind respells_identifier fun _ _ hi => ?_
  exact respells_declarators hr _ htype hi

theorem respells_localDeclaration (hr : r.Respell σ) :
    Respells σ (Stmt.Respelled σ.names) (localDeclaration r) (localDeclaration r) := by
  apply Parallel.bind respells_current
  intro t u ht
  rw [ht.start]
  apply Parallel.bind .get
  intro s s' hs
  rw [hs.alike.run]
  refine .next (parallel_advanceBy _) fun _ _ => ?_
  refine .bind (respells_variableDeclaration hr) fun _ _ hd => .same (respells_eat _) fun _ => ?_
  exact .same (respells_rangeFrom _) fun _ => .pure (.localDeclaration _ _ _ hd)

/-! ### Expressions that stand alone -/

theorem respells_checkStatementExpression {e e' : Expr} (h : e.Respelled σ.names e') :
    Respells σ anyway (checkStatementExpression e) (checkStatementExpression e') := by
  simp only [checkStatementExpression, e.containsMissing_respelled σ.sameMissing h,
    h.isStatementExpression, Expr.span, h.range σ.sameRange]
  exact .ite (.pure trivial) (respells_report (σ.reports_of ..))

theorem respells_checkStatementExpressions {es es' : List Expr}
    (h : List.Forall₂ (Expr.Respelled σ.names) es es') :
    Respells σ anyway (checkStatementExpressions es) (checkStatementExpressions es') := by
  induction h with
  | nil => exact .pure trivial
  | cons he _ ih => exact .next (respells_checkStatementExpression he) fun _ _ => ih

theorem respells_expressionStatement (hr : r.Respell σ) :
    Respells σ (Stmt.Respelled σ.names) (expressionStatement r) (expressionStatement r) := by
  apply Parallel.bind respells_current
  intro t u ht
  rw [ht.start]
  refine .bind hr.expression fun _ _ he => .same (respells_eat _) fun _ => ?_
  refine .next (respells_checkStatementExpression he) fun _ _ => ?_
  exact .same (respells_rangeFrom _) fun _ => .pure (.expression _ _ he)

/-! ### Blocks -/

theorem respells_blockStatement? (hr : r.Respell σ) :
    Respells σ (Option.Rel (Stmt.Respelled σ.names)) (blockStatement? r) (blockStatement? r) := by
  refine .same parallel_currentKind fun _ => .ite .absent (.bind .get fun s s' hs => ?_)
  refine .bind hr.statement fun _ _ hstatement => .bind .get fun t t' ht => ?_
  rw [ht.alike.length_eq, hs.alike.length_eq]
  exact .ite (.next parallel_skipToStatement fun _ _ => .pure (.some hstatement))
    (.pure (.some hstatement))

theorem respells_block (hr : r.Respell σ) :
    Respells σ (Block.Respelled σ.names) (block r) (block r) := by
  apply Parallel.bind respells_current
  intro t u ht
  rw [ht.start]
  refine .same (respells_eat _) fun _ => ?_
  refine .bind (.many (respells_blockStatement? hr)) fun _ _ hss => ?_
  refine .same (respells_eat _) fun _ => .same (respells_rangeFrom _) fun _ => ?_
  exact .pure (.mk _ _ _ hss)

/-! ### Conditions and loops -/

theorem respells_condition (hr : r.Respell σ) :
    Respells σ (Expr.Respelled σ.names) (condition r) (condition r) :=
  .next (respells_eat _) fun _ _ => .bind hr.expression fun _ _ h =>
    .next (respells_eat _) fun _ _ => .pure h

theorem respells_ifStatement (hr : r.Respell σ) :
    Respells σ (Stmt.Respelled σ.names) (ifStatement r) (ifStatement r) := by
  apply Parallel.bind respells_current
  intro t u ht
  rw [ht.start]
  refine .next (respells_eat _) fun _ _ => .bind (respells_condition hr) fun e e' he => ?_
  apply Parallel.bind hr.statement
  intro s s' hs
  have hrest {s? s?' : Option Stmt} (h? : Option.Rel (Stmt.Respelled σ.names) s? s?') :
      Respells σ (Stmt.Respelled σ.names) (do return .ifElse (← rangeFrom u.start) e s s?)
        (do return .ifElse (← rangeFrom u.start) e' s' s?') :=
    .same (respells_rangeFrom _) fun _ => .pure (.ifElse _ he hs h?)
  refine .same (parallel_accept _) fun _ => .ite ?_ (hrest .none)
  exact .bind hr.statement.present fun _ _ h? => hrest h?

theorem respells_whileStatement (hr : r.Respell σ) :
    Respells σ (Stmt.Respelled σ.names) (whileStatement r) (whileStatement r) := by
  apply Parallel.bind respells_current
  intro t u ht
  rw [ht.start]
  refine .next (respells_eat _) fun _ _ => .bind (respells_condition hr) fun _ _ he => ?_
  refine .bind hr.statement fun _ _ hs => ?_
  exact .same (respells_rangeFrom _) fun _ => .pure (.whileLoop _ he hs)

theorem respells_doStatement (hr : r.Respell σ) :
    Respells σ (Stmt.Respelled σ.names) (doStatement r) (doStatement r) := by
  apply Parallel.bind respells_current
  intro t u ht
  rw [ht.start]
  refine .next (respells_eat _) fun _ _ => .bind hr.statement fun _ _ hs => ?_
  refine .next (respells_eat _) fun _ _ => .bind (respells_condition hr) fun _ _ he => ?_
  refine .next (respells_eat _) fun _ _ => .same (respells_rangeFrom _) fun _ => ?_
  exact .pure (.doLoop _ hs he)

/-! ### The header of a `for` -/

theorem respells_skipInList (expected : TokenKind) :
    Respells σ Eq (skipInList expected) (skipInList expected) := by
  have hends : Respells σ Eq (do return !endsList (← currentKind))
      (do return !endsList (← currentKind)) :=
    .same parallel_currentKind fun _ => .pure rfl
  refine .same parallel_currentKind fun _ => .ite hends (.next (respells_replace _) fun _ _ => ?_)
  apply Parallel.bind .get
  intro s s' hs
  have hskip := hs.alike.length_takeWhile fun k =>
    k ≠ .punct .comma && !k.startsExpression && !endsList k
  simp only [hskip]
  exact .next (parallel_advanceBy _) fun _ _ => hends

theorem respells_listSeparator : Respells σ anyway listSeparator listSeparator :=
  .same parallel_currentKind fun _ =>
    .ite (respells_replace _) (.next (respells_eat _) fun _ _ => .pure trivial)

theorem respells_forExpressionsRest (hr : r.Respell σ) (allowSemicolon : Bool) :
    Respells σ (List.Forall₂ (Expr.Respelled σ.names)) (forExpressionsRest r allowSemicolon)
      (forExpressionsRest r allowSemicolon) := by
  refine .bind (.loop .nil fun es es' hes => ?_) fun es es' hes => .pure (List.rel_reverse hes)
  refine .same parallel_currentKind fun _ => .ite (.pure (.done hes)) (.ite ?_ ?_)
  · refine .next respells_listSeparator fun _ _ => .bind hr.expression fun _ _ he => ?_
    exact .pure (.yield (.cons he hes))
  · refine .same (respells_skipInList _) fun _ => ?_
    exact .ite (.pure (.yield hes)) (.pure (.done hes))

theorem respells_forExpressions (hr : r.Respell σ) (allowSemicolon : Bool) :
    Respells σ (List.Forall₂ (Expr.Respelled σ.names)) (forExpressions r allowSemicolon)
      (forExpressions r allowSemicolon) := by
  have hlist : Respells σ (List.Forall₂ (Expr.Respelled σ.names))
      (do
        let first ← r.expression
        return first :: (← forExpressionsRest r allowSemicolon))
      (do
        let first ← r.expression
        return first :: (← forExpressionsRest r allowSemicolon)) :=
    .bind hr.expression fun _ _ he =>
      .bind (respells_forExpressionsRest hr _) fun _ _ hes => .pure (.cons he hes)
  refine .same parallel_currentKind fun _ => .ite (.pure .nil) (.ite hlist ?_)
  exact .same (respells_skipInList _) fun _ => .ite hlist (.pure .nil)

theorem respells_forInitializer? (hr : r.Respell σ) :
    Respells σ (Option.Rel (ForInitializer.Respelled σ.names)) (forInitializer? r)
      (forInitializer? r) := by
  refine .same parallel_startsLocalDeclaration fun _ => .ite ?_ ?_
  · exact .bind (respells_variableDeclaration hr) fun _ _ h => .pure (.some (.declaration h))
  refine .same parallel_currentKind fun _ => .ite .absent ?_
  refine .bind (respells_forExpressions hr false) fun es es' hes => .pure ?_
  cases hes with
  | nil => exact .none
  | cons he hes => exact .some (.expressions (.cons he hes))

theorem respells_forSemicolon : Respells σ Eq forSemicolon forSemicolon := by
  refine .same parallel_currentKind fun _ => .same (respells_eat _) fun _ => ?_
  exact .ite (.next parallel_advance fun _ _ => .pure rfl) (.pure rfl)

theorem respells_forCondition? (hr : r.Respell σ) :
    Respells σ (Option.Rel (Expr.Respelled σ.names)) (forCondition? r) (forCondition? r) :=
  .same parallel_currentKind fun _ => .ite .absent hr.expression.present

theorem respells_forCloseParen : Respells σ Eq forCloseParen forCloseParen := by
  have hstart : Eq () () := rfl
  refine .bind (.loop hstart fun _ _ _ => ?_) fun _ _ _ => respells_eat _
  refine .same parallel_currentKind fun _ => ?_
  exact .ite (.next (respells_replace _) fun _ _ => .pure (.yield rfl)) (.pure (.done rfl))

theorem respells_forHeader (hr : r.Respell σ) :
    Respells σ (ForHeader.Respelled σ.names) (forHeader r) (forHeader r) := by
  refine .same (respells_eat _) fun _ => .same (respells_eat _) fun _ => ?_
  refine .bind (respells_forInitializer? hr) fun i? i?' hi => ?_
  refine .same respells_forSemicolon fun _ => .bind (respells_forCondition? hr) fun _ _ hc => ?_
  refine .same respells_forSemicolon fun _ => .same parallel_currentKind fun _ => ?_
  refine .iteBind (.pure .nil) (respells_forExpressions hr true) fun _ _ hes => ?_
  refine .same respells_forCloseParen fun _ => ?_
  have hincrementors := respells_checkStatementExpressions hes
  rcases hi with (hd | hes') | _
  · refine .next hincrementors fun _ _ => .pure ?_
    exact ⟨rfl, rfl, .some (.declaration hd), rfl, hc, rfl, hes, rfl⟩
  · refine .next (respells_checkStatementExpressions hes') fun _ _ => ?_
    refine .next hincrementors fun _ _ => .pure ?_
    exact ⟨rfl, rfl, .some (.expressions hes'), rfl, hc, rfl, hes, rfl⟩
  · refine .next hincrementors fun _ _ => .pure ?_
    exact ⟨rfl, rfl, .none, rfl, hc, rfl, hes, rfl⟩

theorem respells_forStatement (hr : r.Respell σ) :
    Respells σ (Stmt.Respelled σ.names) (forStatement r) (forStatement r) := by
  apply Parallel.bind respells_current
  intro t u ht
  rw [ht.start]
  refine .bind (respells_forHeader hr) fun _ _ hh => .bind hr.statement fun _ _ hs => ?_
  exact .same (respells_rangeFrom _) fun _ => .pure (.forLoop _ hh hs)

/-! ### Jumps and labels -/

theorem respells_returnStatement (hr : r.Respell σ) :
    Respells σ (Stmt.Respelled σ.names) (returnStatement r) (returnStatement r) := by
  apply Parallel.bind respells_current
  intro t u ht
  rw [ht.start]
  refine .next (respells_eat _) fun _ _ => .same parallel_currentKind fun _ => ?_
  refine .iteBind .absent hr.expression.present fun _ _ he => ?_
  refine .next (respells_eat _) fun _ _ => .same (respells_rangeFrom _) fun _ => ?_
  exact .pure (.returnValue _ he)

theorem respells_jump : Respells σ Eq jump jump := by
  apply Parallel.bind respells_current
  intro t u ht
  rw [ht.start]
  refine .next parallel_advance fun _ _ => .next (respells_eat _) fun _ _ => ?_
  exact respells_rangeFrom _

theorem respells_gotoStatement :
    Respells σ (Stmt.Respelled σ.names) gotoStatement gotoStatement := by
  apply Parallel.bind respells_current
  intro t u ht
  rw [ht.start]
  refine .next (respells_eat _) fun _ _ => .bind respells_identifier fun _ _ hi => ?_
  refine .next (respells_eat _) fun _ _ => ?_
  exact .same (respells_rangeFrom _) fun _ => .pure (.goto _ hi)

theorem respells_labeledStatement (hr : r.Respell σ) :
    Respells σ (Stmt.Respelled σ.names) (labeledStatement r) (labeledStatement r) := by
  apply Parallel.bind respells_current
  intro t u ht
  rw [ht.start]
  refine .bind respells_identifier fun _ _ hi => .next (respells_eat _) fun _ _ => ?_
  refine .bind hr.statement fun _ _ hs => ?_
  exact .same (respells_rangeFrom _) fun _ => .pure (.labeled _ hi hs)

theorem respells_wordlessStatement (hr : r.Respell σ) :
    Respells σ (Stmt.Respelled σ.names) (wordlessStatement r) (wordlessStatement r) := by
  apply Parallel.bind .get
  intro s s' hs
  simp only [hs.alike.kind, hs.alike.secondKind]
  refine .ite (respells_labeledStatement hr) (.same parallel_startsLocalDeclaration fun _ => ?_)
  exact .ite (respells_localDeclaration hr) (respells_expressionStatement hr)

theorem respells_statementBody (hr : r.Respell σ) :
    Respells σ (Stmt.Respelled σ.names) (statementBody r) (statementBody r) := by
  apply Parallel.bind respells_current
  intro t u ht
  simp only [ht.kind, ht.range]
  split
  · exact .bind (respells_block hr) fun _ _ h => .pure (.block h)
  · exact .next parallel_advance fun _ _ => .pure (.empty _)
  · exact respells_ifStatement hr
  · exact respells_whileStatement hr
  · exact respells_doStatement hr
  · exact respells_forStatement hr
  · exact respells_returnStatement hr
  · exact .same respells_jump fun _ => .pure (.breakLoop _)
  · exact .same respells_jump fun _ => .pure (.continueLoop _)
  · exact respells_gotoStatement
  · exact respells_localDeclaration hr
  · exact respells_wordlessStatement hr

/-! ### All rules -/

/-- Whatever the bound, the rules do the same in both spellings. -/
theorem rules_respell (σ : Spelling) (n : Nat) : (rules n).Respell σ := by
  induction n with
  | zero => exact Rules.respell_none
  | succ n ih =>
    exact
      { statement := parallel_nested respells_emptyStatement (respells_statementBody ih)
        expression := parallel_nested respells_missingExpression (respells_expressionBody ih)
        unary := parallel_nested respells_missingExpression (respells_unaryBody ih)
        type := fun withRanks =>
          parallel_nested respells_missingType (respells_typeBody withRanks ih)
        binaryTail := fun levels least start _ _ h =>
          respells_binaryTailBody ih levels least start h
        postfixTail := fun levels start _ _ h => respells_postfixTailBody ih levels start h
        elements := parallel_nested (.pure .nil) (respells_elementsBody ih)
        continuationBody := parallel_nested .absent (respells_queryBody ih).present }

end

end CSharpFront.Parser
