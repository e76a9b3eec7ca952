import CSharpFront.Proofs.Parser.InStep
/-!
Expressions, queries and statements in two layouts, and from them all rules.
-/

namespace CSharpFront.Parser

/-! ## Expressions and queries -/

section

variable {l : Rerun} {r : Rules}

/-! ### Lists of expressions -/

theorem inStep_initializer (hr : r.InStep l) :
    InStep l (Initializer.Relaid l) (initializer r) (initializer r) := by
  apply Parallel.bind inStep_current
  intro t u ht
  refine .next (inStep_eat _) fun _ _ => .bind hr.elements fun es es' hes => ?_
  refine .next (inStep_eat _) fun _ _ => .bind (inStep_rangeFrom ht.start) fun _ _ h => ?_
  exact .pure (.mk h hes)

theorem inStep_element (hr : r.InStep l) :
    InStep l (Expr.Relaid l) (element r) (element r) := by
  apply Parallel.bind parallel_currentKind
  rintro kind _ rfl
  exact .ite (.bind (inStep_initializer hr) fun _ _ hi => .pure (.initializer hi)) hr.expression

theorem inStep_elementsBody (hr : r.InStep l) :
    InStep l (List.Forall₂ (Expr.Relaid l)) (elementsBody r) (elementsBody r) := by
  refine .bind (.loop .nil fun es es' hes => ?_) fun es es' hes => .pure (List.rel_reverse hes)
  apply Parallel.bind parallel_currentKind
  rintro kind _ rfl
  refine .ite (.pure (.done hes)) (.bind (inStep_element hr) fun e e' he => ?_)
  apply Parallel.bind (parallel_accept _)
  rintro accepted _ rfl
  exact .ite (.pure (.yield (.cons he hes))) (.pure (.done (.cons he hes)))

theorem inStep_optionalInitializer (hr : r.InStep l) :
    InStep l (Option.Rel (Initializer.Relaid l)) (optionalInitializer r)
      (optionalInitializer r) := by
  apply Parallel.bind parallel_currentKind
  rintro kind _ rfl
  exact .ite (inStep_initializer hr).present .absent

theorem inStep_argument (hr : r.InStep l) :
    InStep l (Expr.Relaid l) (argument r) (argument r) := by
  apply Parallel.bind parallel_currentKind
  rintro kind _ rfl
  exact .ite (.next parallel_advance fun _ _ => hr.expression) hr.expression

theorem inStep_arguments (hr : r.InStep l) (opening closing : Punctuator) :
    InStep l (List.Forall₂ (Expr.Relaid l)) (arguments r opening closing)
      (arguments r opening closing) := by
  refine .next (inStep_eat _) fun _ _ => .bind parallel_currentKind ?_
  rintro kind _ rfl
  refine .iteBind (.pure .nil) (parallel_separated (inStep_argument hr)) fun es es' hes => ?_
  exact .next (inStep_eat _) fun _ _ => .pure hes

/-! ### Operands -/

/-- Sizes with the same number of dimensions. -/
def SizesRelaid (l : Relayout) (p q : List Expr × Nat) : Prop :=
  List.Forall₂ (Expr.Relaid l) p.1 q.1 ∧ p.2 = q.2

theorem inStep_sizes (hr : r.InStep l) : InStep l (SizesRelaid l) (sizes r) (sizes r) := by
  have hstart : SizesRelaid l ([], 1) ([], 1) := ⟨.nil, rfl⟩
  refine .bind (.loop hstart ?_) fun p q h => .pure ⟨List.rel_reverse h.1, h.2⟩
  rintro ⟨es, rank⟩ ⟨es', _⟩ ⟨hes, rfl⟩
  apply Parallel.bind parallel_currentKind
  rintro kind _ rfl
  refine .ite (.pure (.done ⟨hes, rfl⟩)) ?_
  refine .ite (.next parallel_advance fun _ _ => .pure (.yield ⟨hes, rfl⟩)) ?_
  refine .bind hr.expression fun e e' he => .bind (parallel_accept _) ?_
  rintro accepted _ rfl
  exact .ite (.pure (.yield ⟨.cons he hes, rfl⟩)) (.pure (.done ⟨.cons he hes, rfl⟩))

theorem inStep_arrayCreationRest (hr : r.InStep l) {p q : Nat} (hpq : l.starts p q)
    {element element' : TypeSyntax} (he : element.Relaid l element') :
    InStep l (Expr.Relaid l) (arrayCreationRest r p element)
      (arrayCreationRest r q element') := by
  refine .next (inStep_eat _) fun _ _ => .bind (inStep_sizes hr) ?_
  rintro ⟨es, rank⟩ ⟨es', _⟩ ⟨hes, rfl⟩
  refine .next (inStep_eat _) fun _ _ => .next inStep_anyRange fun _ _ => ?_
  refine .bind (inStep_rankSpecifiers _ _ (.array _ _ _ he)) fun _ _ ht => ?_
  refine .bind (inStep_optionalInitializer hr) fun _ _ hi => ?_
  exact .bind (inStep_rangeFrom hpq) fun _ _ h => .pure (.arrayCreation h ht hes hi)

theorem inStep_objectCreationRest (hr : r.InStep l) {p q : Nat} (hpq : l.starts p q)
    {type type' : TypeSyntax} (ht : type.Relaid l type') :
    InStep l (Expr.Relaid l) (objectCreationRest r p type) (objectCreationRest r q type') := by
  have hrest {es? es?' : Option (List Expr)}
      (hes : Option.Rel (List.Forall₂ (Expr.Relaid l)) es? es?') :
      InStep l (Expr.Relaid l)
        (do
          let initializer? ← optionalInitializer r
          return .objectCreation (← rangeFrom p) type es? initializer?)
        (do
          let initializer? ← optionalInitializer r
          return .objectCreation (← rangeFrom q) type' es?' initializer?) :=
    .bind (inStep_optionalInitializer hr) fun _ _ hi => .bind (inStep_rangeFrom hpq) fun _ _ h =>
      .pure (.objectCreation h ht hes hi)
  apply Parallel.bind parallel_currentKind
  rintro kind _ rfl
  exact .ite (.bind (inStep_arguments hr _ _) fun _ _ hes => hrest (.some hes)) (hrest .none)

theorem inStep_creation (hr : r.InStep l) :
    InStep l (Expr.Relaid l) (creation r) (creation r) := by
  apply Parallel.bind inStep_current
  intro t u ht
  refine .next (inStep_eat _) fun _ _ => .bind (parallel_accept _) ?_
  rintro accepted _ rfl
  refine .ite ?_ ?_
  · apply Parallel.bind .get
    intro s s' hs
    rw [hs.rest.alike.run]
    refine .next (parallel_advanceBy _) fun _ _ => .next (inStep_eat _) fun _ _ => ?_
    refine .bind (inStep_initializer hr) fun _ _ hi => ?_
    exact .bind (inStep_rangeFrom ht.start) fun _ _ h => .pure (.implicitArrayCreation h hi)
  · refine .bind (hr.type false) fun type type' htype => .bind parallel_currentKind ?_
    rintro kind _ rfl
    split
    · exact inStep_arrayCreationRest hr ht.start htype
    · exact inStep_objectCreationRest hr ht.start htype
    · exact inStep_objectCreationRest hr ht.start htype
    · refine .next inStep_expectedSpan fun _ _ => .next inStep_report fun _ _ => ?_
      refine .bind (inStep_rangeFrom ht.start) fun _ _ h => ?_
      exact .pure (.objectCreation h htype .none .none)

theorem inStep_invalidTerm : InStep l (Expr.Relaid l) invalidTerm invalidTerm := by
  apply Parallel.bind inStep_current
  intro t u h
  rw [h.kind, h.text]
  exact .ite (.next inStep_report fun _ _ => inStep_missingExpression)
    (.next inStep_report fun _ _ => inStep_missingExpression)

theorem inStep_primary (hr : r.InStep l) :
    InStep l (Expr.Relaid l) (primary r) (primary r) := by
  apply Parallel.bind inStep_current
  intro t u ht
  simp only [ht.kind]
  split
  · exact .next parallel_advance fun _ _ => .pure (.literal ⟨ht.range, rfl, ht.text, ht.flags⟩)
  split
  · exact .next parallel_advance fun _ _ => .pure (.predefinedType _ ht.range)
  split
  · refine .next parallel_advance fun _ _ => ?_
    exact .bind (inStep_identifierOf ht) fun _ _ hi => .pure (.identifier hi)
  · exact .next parallel_advance fun _ _ => .pure (.thisWord ht.range)
  · refine .next parallel_advance fun _ _ => .bind hr.expression fun _ _ he => ?_
    refine .next (inStep_eat _) fun _ _ => ?_
    exact .bind (inStep_rangeFrom ht.start) fun _ _ h => .pure (.parenthesized h he)
  · exact inStep_creation hr
  · exact inStep_invalidTerm

theorem inStep_castExpression (hr : r.InStep l) :
    InStep l (Expr.Relaid l) (castExpression r) (castExpression r) := by
  apply Parallel.bind inStep_current
  intro t u ht
  refine .next (inStep_eat _) fun _ _ => .bind (hr.type true) fun _ _ htype => ?_
  refine .next (inStep_eat _) fun _ _ => .bind hr.unary fun _ _ he => ?_
  exact .bind (inStep_rangeFrom ht.start) fun _ _ h => .pure (.cast h htype he)

theorem inStep_unaryBody (hr : r.InStep l) :
    InStep l (Expr.Relaid l) (unaryBody r) (unaryBody r) := by
  apply Parallel.bind inStep_current
  intro t u ht
  rw [ht.kind]
  refine .ite ?_ (.bind .read fun env env' he => ?_)
  · refine .bind inStep_take fun _ _ ho => .bind hr.unary fun _ _ he => ?_
    exact .bind (inStep_rangeFrom ht.start) fun _ _ h => .pure (.prefixUnary h ho he)
  rw [he.inAsync, ht.isContextual]
  refine .ite ?_ (.bind .read fun env env' he => .bind .get fun s s' hs => ?_)
  · refine .next parallel_advance fun _ _ => .bind hr.unary fun _ _ he => ?_
    exact .bind (inStep_rangeFrom ht.start) fun _ _ h => .pure (.await h he)
  rw [he.maxDepth, hs.rest.alike.tail.startsCast]
  refine .ite (inStep_castExpression hr) ?_
  exact .bind (inStep_primary hr) fun _ _ h => hr.postfixTail 0 ht.start h

theorem inStep_postfixStep (hr : r.InStep l) {p q : Nat} (hpq : l.starts p q)
    {operand operand' : Expr} (ho : operand.Relaid l operand') :
    InStep l (Expr.Relaid l) (postfixStep r p operand) (postfixStep r q operand') := by
  have hmember : InStep l (Expr.Relaid l)
      (do
        let operator ← take
        let name ← identifier
        return .memberAccess (← rangeFrom p) operand operator name)
      (do
        let operator ← take
        let name ← identifier
        return .memberAccess (← rangeFrom q) operand' operator name) :=
    .bind inStep_take fun _ _ hop => .bind inStep_identifier fun _ _ hi =>
      .bind (inStep_rangeFrom hpq) fun _ _ h => .pure (.memberAccess h ho hop hi)
  apply Parallel.bind parallel_currentKind
  rintro kind _ rfl
  split
  · exact hmember
  · exact hmember
  · refine .bind (inStep_arguments hr _ _) fun _ _ hes => ?_
    exact .bind (inStep_rangeFrom hpq) fun _ _ h => .pure (.invocation h ho hes)
  · refine .bind (inStep_arguments hr _ _) fun _ _ hes => ?_
    exact .bind (inStep_rangeFrom hpq) fun _ _ h => .pure (.elementAccess h ho hes)
  · refine .bind inStep_take fun _ _ hop => ?_
    exact .bind (inStep_rangeFrom hpq) fun _ _ h => .pure (.postfixUnary h ho hop)

theorem inStep_postfixTailBody (hr : r.InStep l) (levels : Nat) {p q : Nat} (hpq : l.starts p q)
    {operand operand' : Expr} (ho : operand.Relaid l operand') :
    InStep l (Expr.Relaid l) (postfixTailBody r levels p operand)
      (postfixTailBody r levels q operand') := by
  apply Parallel.bind parallel_currentKind
  rintro kind _ rfl
  refine .ite (.bind parallel_enter ?_) (parallel_leaveWith _ ho)
  rintro entered _ rfl
  refine .ite ?_ (parallel_leaveWith _ ho)
  exact .bind (inStep_postfixStep hr hpq ho) fun _ _ h => hr.postfixTail (levels + 1) hpq h

/-! ### Operators -/

theorem inStep_binary (hr : r.InStep l) (least : Nat) :
    InStep l (Expr.Relaid l) (binary r least) (binary r least) :=
  .bind inStep_current fun _ _ ht => .bind hr.unary fun _ _ h =>
    hr.binaryTail 0 least ht.start h

theorem inStep_binaryStep (hr : r.InStep l) {p q : Nat} (hpq : l.starts p q)
    {left left' : Expr} (hl : left.Relaid l left') {operator operator' : Operator}
    (ho : operator.Relaid operator') (precedence : Precedence) :
    InStep l (Expr.Relaid l) (binaryStep r p left operator precedence)
      (binaryStep r q left' operator' precedence) := by
  simp only [binaryStep, ho.width, ho.kind]
  refine .next (parallel_advanceBy _) fun _ _ => ?_
  split
  · refine .bind (hr.type true) fun _ _ ht => ?_
    exact .bind (inStep_rangeFrom hpq) fun _ _ h => .pure (.typeTest h hl ho.leaf ht)
  · refine .bind (inStep_binary hr _) fun _ _ he => ?_
    exact .bind (inStep_rangeFrom hpq) fun _ _ h => .pure (.binary h hl ho.leaf he)

theorem inStep_binaryTailBody (hr : r.InStep l) (levels least : Nat) {p q : Nat}
    (hpq : l.starts p q) {left left' : Expr} (hl : left.Relaid l left') :
    InStep l (Expr.Relaid l) (binaryTailBody r levels least p left)
      (binaryTailBody r levels least q left') := by
  apply Parallel.bind (inStep_nextOperator? least)
  rintro _ _ (@⟨⟨operator, precedence⟩, ⟨operator', _⟩, ⟨ho, rfl⟩⟩ | _)
  · refine .bind parallel_enter ?_
    rintro entered _ rfl
    refine .ite ?_ (parallel_leaveWith _ hl)
    refine .bind (inStep_binaryStep hr hpq hl ho precedence) fun _ _ h => ?_
    exact hr.binaryTail (levels + 1) least hpq h
  · exact parallel_leaveWith _ hl

theorem inStep_conditional (hr : r.InStep l) :
    InStep l (Expr.Relaid l) (conditional r) (conditional r) := by
  apply Parallel.bind inStep_current
  intro t u ht
  refine .bind (inStep_binary hr _) fun _ _ hc => .bind (parallel_accept _) ?_
  rintro accepted _ rfl
  refine .ite ?_ (.pure hc)
  refine .bind hr.expression fun _ _ htrue => .next (inStep_eat _) fun _ _ => ?_
  refine .bind hr.expression fun _ _ hfalse => ?_
  exact .bind (inStep_rangeFrom ht.start) fun _ _ h => .pure (.conditional h hc htrue hfalse)

theorem inStep_assignment (hr : r.InStep l) :
    InStep l (Expr.Relaid l) (assignment r) (assignment r) := by
  apply Parallel.bind inStep_current
  intro t u ht
  refine .bind (inStep_conditional hr) fun _ _ hl => .bind .read fun env env' he => ?_
  apply Parallel.bind .get
  intro s s' hs
  have ho := hs.rest.next he.endOfFile
  simp only [ho.kind, ho.width]
  refine .ite (.next (parallel_advanceBy _) fun _ _ => ?_) (.pure hl)
  refine .bind hr.expression fun _ _ hright => ?_
  exact .bind (inStep_rangeFrom ht.start) fun _ _ h => .pure (.assignment h hl ho.leaf hright)

/-! ### Queries -/

theorem inStep_fromClause (hr : r.InStep l) :
    InStep l (FromClause.Relaid l) (fromClause r) (fromClause r) := by
  apply Parallel.bind inStep_current
  intro t u _
  have hrest {t? t?' : Option TypeSyntax} (ht : Option.Rel (TypeSyntax.Relaid l) t? t?') :
      InStep l (FromClause.Relaid l)
        (do
          let identifier ← identifier
          let _ ← eat (.keyword .kwIn)
          let source ← r.expression
          return ⟨← rangeFrom t.start, t?, identifier, source⟩)
        (do
          let identifier ← identifier
          let _ ← eat (.keyword .kwIn)
          let source ← r.expression
          return ⟨← rangeFrom u.start, t?', identifier, source⟩) := by
    refine .bind inStep_identifier fun _ _ hi => .next (inStep_eat _) fun _ _ => ?_
    refine .bind hr.expression fun _ _ he => ?_
    exact .next inStep_anyRange fun _ _ => .pure (.mk _ _ ht hi he)
  refine .next parallel_advance fun _ _ => .bind .get fun s s' hs => ?_
  simp only [hs.rest.alike.kind, hs.rest.alike.secondKind]
  exact .ite (hrest .none) (.bind (hr.type true) fun _ _ ht => hrest (.some ht))

theorem inStep_letClause (hr : r.InStep l) :
    InStep l (QueryClause.Relaid l) (letClause r) (letClause r) := by
  refine .next inStep_current fun _ _ => .next parallel_advance fun _ _ => ?_
  refine .bind inStep_identifier fun _ _ hi => .next (inStep_eat _) fun _ _ => ?_
  refine .bind hr.expression fun _ _ he => ?_
  exact .next inStep_anyRange fun _ _ => .pure (.letClause _ _ hi he)

theorem inStep_whereClause (hr : r.InStep l) :
    InStep l (QueryClause.Relaid l) (whereClause r) (whereClause r) := by
  refine .next inStep_current fun _ _ => .next parallel_advance fun _ _ => ?_
  refine .bind hr.expression fun _ _ he => ?_
  exact .next inStep_anyRange fun _ _ => .pure (.whereClause _ _ he)

theorem inStep_sortKey (hr : r.InStep l) :
    InStep l (SortKey.Relaid l) (sortKey r) (sortKey r) := by
  refine .next inStep_current fun _ _ => .bind hr.expression fun e e' he => ?_
  have hmake (isDescending : Bool) {p q : Nat} : InStep l (SortKey.Relaid l)
      (do return ⟨← rangeFrom p, e, isDescending⟩) (do return ⟨← rangeFrom q, e', isDescending⟩) :=
    .next inStep_anyRange fun _ _ => .pure (.mk _ _ _ he)
  apply Parallel.bind inStep_current
  intro t u ht
  rw [ht.contextual?]
  split
  · exact .next parallel_advance fun _ _ => hmake false
  · exact .next parallel_advance fun _ _ => hmake true
  · exact hmake false

theorem inStep_orderByClause (hr : r.InStep l) :
    InStep l (QueryClause.Relaid l) (orderByClause r) (orderByClause r) := by
  refine .next inStep_current fun _ _ => .next parallel_advance fun _ _ => ?_
  refine .bind (parallel_separated (inStep_sortKey hr)) fun _ _ hks => ?_
  exact .next inStep_anyRange fun _ _ => .pure (.orderByClause _ _ hks)

theorem inStep_queryClause? (hr : r.InStep l) :
    InStep l (Option.Rel (QueryClause.Relaid l)) (queryClause? r) (queryClause? r) := by
  apply Parallel.bind inStep_current
  intro t u ht
  rw [ht.contextual?]
  split
  · exact .bind (inStep_fromClause hr) fun _ _ h => .pure (.some (.fromClause h))
  · exact .bind (inStep_letClause hr) fun _ _ h => .pure (.some h)
  · exact .bind (inStep_whereClause hr) fun _ _ h => .pure (.some h)
  · exact .bind (inStep_orderByClause hr) fun _ _ h => .pure (.some h)
  · exact .absent

theorem inStep_queryEnding (hr : r.InStep l) :
    InStep l (QueryEnding.Relaid l) (queryEnding r) (queryEnding r) := by
  apply Parallel.bind inStep_current
  intro t u ht
  rw [ht.contextual?]
  split
  · refine .next parallel_advance fun _ _ => .bind hr.expression fun _ _ he => ?_
    exact .next inStep_anyRange fun _ _ => .pure (.select _ _ he)
  · refine .next parallel_advance fun _ _ => .bind hr.expression fun _ _ he => ?_
    refine .next (inStep_eatContextual _) fun _ _ => .bind hr.expression fun _ _ hk => ?_
    exact .next inStep_anyRange fun _ _ => .pure (.group _ _ he hk)
  · exact .next inStep_report fun _ _ => .next .get fun _ _ => .pure (.missing ..)

theorem inStep_continuation? (hr : r.InStep l) :
    InStep l (Option.Rel (Continuation.Relaid l)) (continuation? r) (continuation? r) := by
  apply Parallel.bind inStep_current
  intro t u ht
  rw [ht.isContextual]
  refine .ite (.next parallel_advance fun _ _ => .bind inStep_identifier fun _ _ hi => ?_) .absent
  apply Parallel.bind hr.continuationBody
  rintro _ _ (hb | _)
  · exact .next inStep_anyRange fun _ _ => .pure (.some (.mk _ _ hi hb))
  · exact .absent

theorem inStep_queryBody (hr : r.InStep l) :
    InStep l (QueryBody.Relaid l) (queryBody r) (queryBody r) := by
  refine .next inStep_current fun _ _ => ?_
  refine .bind (.many (inStep_queryClause? hr)) fun _ _ hqs => ?_
  refine .bind (inStep_queryEnding hr) fun _ _ he => ?_
  refine .bind (inStep_continuation? hr) fun _ _ hk => ?_
  exact .next inStep_anyRange fun _ _ => .pure (.mk _ _ hqs he hk)

theorem inStep_query (hr : r.InStep l) :
    InStep l (Expr.Relaid l) (query r) (query r) := by
  apply Parallel.bind inStep_current
  intro t u ht
  refine .bind (inStep_fromClause hr) fun _ _ hc => .bind (inStep_queryBody hr) fun _ _ hb => ?_
  exact .bind (inStep_rangeFrom ht.start) fun _ _ h => .pure (.query h hc hb)

theorem inStep_expressionBody (hr : r.InStep l) :
    InStep l (Expr.Relaid l) (expressionBody r) (expressionBody r) := by
  apply Parallel.bind .get
  intro s s' hs
  rw [hs.rest.alike.startsQuery]
  exact .ite (inStep_query hr) (inStep_assignment hr)

end

/-! ## Statements -/

section

variable {l : Rerun} {r : Rules}

/-! ### Declarations of variables -/

theorem inStep_declarator (hr : r.InStep l) {i i' : Identifier} (hi : i.Relaid l i') :
    InStep l (Declarator.Relaid l) (declarator r i) (declarator r i') := by
  have hrest {e? e?' : Option Expr} (he : Option.Rel (Expr.Relaid l) e? e?') :
      InStep l (Declarator.Relaid l) (do return ⟨← rangeFrom i.range.start, i, e?⟩)
        (do return ⟨← rangeFrom i'.range.start, i', e?'⟩) :=
    .next inStep_anyRange fun _ _ => .pure ⟨hi, he⟩
  apply Parallel.bind (parallel_accept _)
  rintro accepted _ rfl
  exact .ite (.bind (inStep_element hr) fun _ _ he => hrest (.some he)) (hrest .none)

theorem inStep_declarators (hr : r.InStep l) (p q : Nat) {type type' : TypeSyntax}
    (ht : type.Relaid l type') {first first' : Identifier} (hf : first.Relaid l first') :
    InStep l (VariableDeclaration.Relaid l) (declarators r p type first)
      (declarators r q type' first') := by
  apply Parallel.bind (inStep_declarator hr hf)
  intro d d' hd
  have hother : InStep l (Declarator.Relaid l)
      (do
        let identifier ← identifier
        declarator r identifier)
      (do
        let identifier ← identifier
        declarator r identifier) :=
    .bind inStep_identifier fun _ _ hi => inStep_declarator hr hi
  refine .bind (parallel_afterCommas hother) fun _ _ hds => ?_
  exact .next inStep_anyRange fun _ _ => .pure ⟨ht, .cons hd hds⟩

theorem inStep_variableDeclaration (hr : r.InStep l) :
    InStep l (VariableDeclaration.Relaid l) (variableDeclaration r) (variableDeclaration r) :=
  .next inStep_current fun _ _ => .bind (hr.type true) fun _ _ ht =>
    .bind inStep_identifier fun _ _ hi => inStep_declarators hr _ _ ht hi

theorem inStep_localDeclaration (hr : r.InStep l) :
    InStep l (Stmt.Relaid l) (localDeclaration r) (localDeclaration r) := by
  apply Parallel.bind inStep_current
  intro t u ht
  apply Parallel.bind .get
  intro s s' hs
  rw [hs.rest.alike.run]
  refine .next (parallel_advanceBy _) fun _ _ => ?_
  refine .bind (inStep_variableDeclaration hr) fun _ _ hd => .next (inStep_eat _) fun _ _ => ?_
  exact .bind (inStep_rangeFrom ht.start) fun _ _ h => .pure (.localDeclaration _ _ _ h hd)

/-! ### Expressions that stand alone -/

theorem inStep_checkStatementExpression {e e' : Expr} (h : e.Relaid l e') :
    InStep l anyway (checkStatementExpression e) (checkStatementExpression e') := by
  simp only [checkStatementExpression, e.containsMissing_relaid h, h.isStatementExpression]
  exact .ite (.pure trivial) inStep_report

theorem inStep_checkStatementExpressions {es es' : List Expr}
    (h : List.Forall₂ (Expr.Relaid l) es es') :
    InStep l anyway (checkStatementExpressions es) (checkStatementExpressions es') := by
  induction h with
  | nil => exact .pure trivial
  | cons he _ ih => exact .next (inStep_checkStatementExpression he) fun _ _ => ih

theorem inStep_expressionStatement (hr : r.InStep l) :
    InStep l (Stmt.Relaid l) (expressionStatement r) (expressionStatement r) := by
  apply Parallel.bind inStep_current
  intro t u ht
  refine .bind hr.expression fun _ _ he => .next (inStep_eat _) fun _ _ => ?_
  refine .next (inStep_checkStatementExpression he) fun _ _ => ?_
  exact .bind (inStep_rangeFrom ht.start) fun _ _ h => .pure (.expression _ _ h he)

/-! ### Blocks -/

theorem inStep_blockStatement? (hr : r.InStep l) :
    InStep l (Option.Rel (Stmt.Relaid l)) (blockStatement? r) (blockStatement? r) := by
  apply Parallel.bind parallel_currentKind
  rintro kind _ rfl
  refine .ite .absent (.bind .get fun s s' hs => .bind hr.statement fun _ _ hstatement => ?_)
  apply Parallel.bind .get
  intro t t' ht
  rw [ht.rest.alike.length_eq, hs.rest.alike.length_eq]
  exact .ite (.next parallel_skipToStatement fun _ _ => .pure (.some hstatement))
    (.pure (.some hstatement))

theorem inStep_block (hr : r.InStep l) : InStep l (Block.Relaid l) (block r) (block r) := by
  refine .next inStep_current fun _ _ => .next (inStep_eat _) fun _ _ => ?_
  refine .bind (.many (inStep_blockStatement? hr)) fun _ _ hss => ?_
  refine .next (inStep_eat _) fun _ _ => ?_
  exact .next inStep_anyRange fun _ _ => .pure (.mk _ _ _ _ _ _ hss)

/-! ### Conditions and loops -/

theorem inStep_condition (hr : r.InStep l) :
    InStep l (Expr.Relaid l) (condition r) (condition r) :=
  .next (inStep_eat _) fun _ _ => .bind hr.expression fun _ _ h =>
    .next (inStep_eat _) fun _ _ => .pure h

theorem inStep_ifStatement (hr : r.InStep l) :
    InStep l (Stmt.Relaid l) (ifStatement r) (ifStatement r) := by
  apply Parallel.bind inStep_current
  intro t u ht
  refine .next (inStep_eat _) fun _ _ => .bind (inStep_condition hr) fun e e' he => ?_
  apply Parallel.bind hr.statement
  intro s s' hs
  have hrest {s? s?' : Option Stmt} (h? : Option.Rel (Stmt.Relaid l) s? s?') :
      InStep l (Stmt.Relaid l) (do return .ifElse (← rangeFrom t.start) e s s?)
        (do return .ifElse (← rangeFrom u.start) e' s' s?') :=
    .bind (inStep_rangeFrom ht.start) fun _ _ h => .pure (.ifElse h he hs h?)
  apply Parallel.bind (parallel_accept _)
  rintro accepted _ rfl
  exact .ite (.bind hr.statement.present fun _ _ h? => hrest h?) (hrest .none)

theorem inStep_whileStatement (hr : r.InStep l) :
    InStep l (Stmt.Relaid l) (whileStatement r) (whileStatement r) := by
  apply Parallel.bind inStep_current
  intro t u ht
  refine .next (inStep_eat _) fun _ _ => .bind (inStep_condition hr) fun _ _ he => ?_
  refine .bind hr.statement fun _ _ hs => ?_
  exact .bind (inStep_rangeFrom ht.start) fun _ _ h => .pure (.whileLoop h he hs)

theorem inStep_doStatement (hr : r.InStep l) :
    InStep l (Stmt.Relaid l) (doStatement r) (doStatement r) := by
  apply Parallel.bind inStep_current
  intro t u ht
  refine .next (inStep_eat _) fun _ _ => .bind hr.statement fun _ _ hs => ?_
  refine .next (inStep_eat _) fun _ _ => .bind (inStep_condition hr) fun _ _ he => ?_
  refine .next (inStep_eat _) fun _ _ => ?_
  exact .bind (inStep_rangeFrom ht.start) fun _ _ h => .pure (.doLoop h hs he)

/-! ### The header of a `for` -/

theorem inStep_skipInList (expected : TokenKind) :
    InStep l Eq (skipInList expected) (skipInList expected) := by
  have hends : InStep l Eq (do return !endsList (← currentKind))
      (do return !endsList (← currentKind)) :=
    .bind parallel_currentKind fun _ _ h => .pure (by rw [h])
  apply Parallel.bind parallel_currentKind
  rintro first _ rfl
  refine .ite hends (.next (inStep_replace _) fun _ _ => .bind .get fun s s' hs => ?_)
  have hskip := hs.rest.alike.length_takeWhile fun k =>
    k ≠ .punct .comma && !k.startsExpression && !endsList k
  simp only [hskip]
  exact .next (parallel_advanceBy _) fun _ _ => hends

theorem inStep_listSeparator : InStep l anyway listSeparator listSeparator := by
  apply Parallel.bind parallel_currentKind
  rintro kind _ rfl
  exact .ite (inStep_replace _) (.next (inStep_eat _) fun _ _ => .pure trivial)

theorem inStep_forExpressionsRest (hr : r.InStep l) (allowSemicolon : Bool) :
    InStep l (List.Forall₂ (Expr.Relaid l)) (forExpressionsRest r allowSemicolon)
      (forExpressionsRest r allowSemicolon) := by
  refine .bind (.loop .nil fun es es' hes => ?_) fun es es' hes => .pure (List.rel_reverse hes)
  apply Parallel.bind parallel_currentKind
  rintro kind _ rfl
  refine .ite (.pure (.done hes)) (.ite ?_ (.bind (inStep_skipInList _) ?_))
  · refine .next inStep_listSeparator fun _ _ => .bind hr.expression fun _ _ he => ?_
    exact .pure (.yield (.cons he hes))
  · rintro goesOn _ rfl
    exact .ite (.pure (.yield hes)) (.pure (.done hes))

theorem inStep_forExpressions (hr : r.InStep l) (allowSemicolon : Bool) :
    InStep l (List.Forall₂ (Expr.Relaid l)) (forExpressions r allowSemicolon)
      (forExpressions r allowSemicolon) := by
  have hlist : InStep l (List.Forall₂ (Expr.Relaid l))
      (do
        let first ← r.expression
        return first :: (← forExpressionsRest r allowSemicolon))
      (do
        let first ← r.expression
        return first :: (← forExpressionsRest r allowSemicolon)) :=
    .bind hr.expression fun _ _ he =>
      .bind (inStep_forExpressionsRest hr _) fun _ _ hes => .pure (.cons he hes)
  apply Parallel.bind parallel_currentKind
  rintro kind _ rfl
  refine .ite (.pure .nil) (.ite hlist (.bind (inStep_skipInList _) ?_))
  rintro found _ rfl
  exact .ite hlist (.pure .nil)

theorem inStep_forInitializer? (hr : r.InStep l) :
    InStep l (Option.Rel (ForInitializer.Relaid l)) (forInitializer? r) (forInitializer? r) := by
  apply Parallel.bind parallel_startsLocalDeclaration
  rintro starts _ rfl
  refine .ite ?_ (.bind parallel_currentKind ?_)
  · exact .bind (inStep_variableDeclaration hr) fun _ _ h => .pure (.some (.declaration h))
  rintro kind _ rfl
  refine .ite .absent (.bind (inStep_forExpressions hr false) fun es es' hes => .pure ?_)
  cases hes with
  | nil => exact .none
  | cons he hes => exact .some (.expressions (.cons he hes))

theorem inStep_forSemicolon : InStep l Leaf.Alike forSemicolon forSemicolon := by
  apply Parallel.bind parallel_currentKind
  rintro kind _ rfl
  refine .bind (inStep_eat _) fun o o' ho => ?_
  exact .ite (.next parallel_advance fun _ _ => .pure ho) (.pure ho)

theorem inStep_forCondition? (hr : r.InStep l) :
    InStep l (Option.Rel (Expr.Relaid l)) (forCondition? r) (forCondition? r) := by
  apply Parallel.bind parallel_currentKind
  rintro kind _ rfl
  exact .ite .absent hr.expression.present

theorem inStep_forCloseParen : InStep l Leaf.Alike forCloseParen forCloseParen := by
  have hstart : Eq () () := rfl
  refine .bind (.loop hstart fun _ _ _ => ?_) fun _ _ _ => inStep_eat _
  apply Parallel.bind parallel_currentKind
  rintro kind _ rfl
  exact .ite (.next (inStep_replace _) fun _ _ => .pure (.yield rfl)) (.pure (.done rfl))

theorem inStep_forHeader (hr : r.InStep l) :
    InStep l (ForHeader.Relaid l) (forHeader r) (forHeader r) := by
  refine .next (inStep_eat _) fun _ _ => .next (inStep_eat _) fun _ _ => ?_
  refine .bind (inStep_forInitializer? hr) fun i? i?' hi => .next inStep_forSemicolon fun _ _ => ?_
  refine .bind (inStep_forCondition? hr) fun _ _ hc => .next inStep_forSemicolon fun _ _ => ?_
  apply Parallel.bind parallel_currentKind
  rintro kind _ rfl
  refine .iteBind (.pure .nil) (inStep_forExpressions hr true) fun _ _ hes => ?_
  refine .next inStep_forCloseParen fun _ _ => ?_
  rcases hi with (_ | hes') | _
  · refine .next (inStep_checkStatementExpressions hes) fun _ _ => ?_
    exact .pure ⟨.some (.declaration ‹_›), hc, hes⟩
  · refine .next (inStep_checkStatementExpressions hes') fun _ _ => ?_
    refine .next (inStep_checkStatementExpressions hes) fun _ _ => ?_
    exact .pure ⟨.some (.expressions hes'), hc, hes⟩
  · refine .next (inStep_checkStatementExpressions hes) fun _ _ => ?_
    exact .pure ⟨.none, hc, hes⟩

theorem inStep_forStatement (hr : r.InStep l) :
    InStep l (Stmt.Relaid l) (forStatement r) (forStatement r) := by
  refine .next inStep_current fun _ _ => .bind (inStep_forHeader hr) fun _ _ hh => ?_
  refine .bind hr.statement fun _ _ hs => ?_
  exact .next inStep_anyRange fun _ _ => .pure (.forLoop _ _ hh hs)

/-! ### Jumps and labels -/

theorem inStep_returnStatement (hr : r.InStep l) :
    InStep l (Stmt.Relaid l) (returnStatement r) (returnStatement r) := by
  apply Parallel.bind inStep_current
  intro t u ht
  refine .next (inStep_eat _) fun _ _ => .bind parallel_currentKind ?_
  rintro kind _ rfl
  refine .iteBind .absent hr.expression.present fun _ _ he => .next (inStep_eat _) fun _ _ => ?_
  exact .bind (inStep_rangeFrom ht.start) fun _ _ h => .pure (.returnValue h he)

theorem inStep_jump : InStep l Range.Relaid jump jump :=
  .bind inStep_current fun _ _ ht => .next parallel_advance fun _ _ =>
    .next (inStep_eat _) fun _ _ => inStep_rangeFrom ht.start

theorem inStep_gotoStatement : InStep l (Stmt.Relaid l) gotoStatement gotoStatement := by
  apply Parallel.bind inStep_current
  intro t u ht
  refine .next (inStep_eat _) fun _ _ => .bind inStep_identifier fun _ _ hi => ?_
  refine .next (inStep_eat _) fun _ _ => ?_
  exact .bind (inStep_rangeFrom ht.start) fun _ _ h => .pure (.goto h hi)

theorem inStep_labeledStatement (hr : r.InStep l) :
    InStep l (Stmt.Relaid l) (labeledStatement r) (labeledStatement r) := by
  apply Parallel.bind inStep_current
  intro t u ht
  refine .bind inStep_identifier fun _ _ hi => .next (inStep_eat _) fun _ _ => ?_
  refine .bind hr.statement fun _ _ hs => ?_
  exact .bind (inStep_rangeFrom ht.start) fun _ _ h => .pure (.labeled h hi hs)

theorem inStep_wordlessStatement (hr : r.InStep l) :
    InStep l (Stmt.Relaid l) (wordlessStatement r) (wordlessStatement r) := by
  apply Parallel.bind .get
  intro s s' hs
  simp only [hs.rest.alike.kind, hs.rest.alike.secondKind]
  refine .ite (inStep_labeledStatement hr) (.bind parallel_startsLocalDeclaration ?_)
  rintro starts _ rfl
  exact .ite (inStep_localDeclaration hr) (inStep_expressionStatement hr)

theorem inStep_statementBody (hr : r.InStep l) :
    InStep l (Stmt.Relaid l) (statementBody r) (statementBody r) := by
  apply Parallel.bind inStep_current
  intro t u ht
  simp only [ht.kind]
  split
  · exact .bind (inStep_block hr) fun _ _ h => .pure (.block h)
  · exact .next parallel_advance fun _ _ => .pure (.empty ..)
  · exact inStep_ifStatement hr
  · exact inStep_whileStatement hr
  · exact inStep_doStatement hr
  · exact inStep_forStatement hr
  · exact inStep_returnStatement hr
  · exact .bind inStep_jump fun _ _ h => .pure (.breakLoop h)
  · exact .bind inStep_jump fun _ _ h => .pure (.continueLoop h)
  · exact inStep_gotoStatement
  · exact inStep_localDeclaration hr
  · exact inStep_wordlessStatement hr

/-! ### All rules -/

/-- Whatever the bound, the rules do the same in both layouts. -/
theorem rules_inStep (l : Rerun) (n : Nat) : (rules n).InStep l := by
  induction n with
  | zero => exact Rules.inStep_none
  | succ n ih =>
    exact
      { statement := parallel_nested inStep_emptyStatement (inStep_statementBody ih)
        expression := parallel_nested inStep_missingExpression (inStep_expressionBody ih)
        unary := parallel_nested inStep_missingExpression (inStep_unaryBody ih)
        type := fun withRanks => parallel_nested inStep_missingType (inStep_typeBody withRanks ih)
        binaryTail := fun levels least _ _ _ _ hpq h =>
          inStep_binaryTailBody ih levels least hpq h
        postfixTail := fun levels _ _ _ _ hpq h => inStep_postfixTailBody ih levels hpq h
        elements := parallel_nested (.pure .nil) (inStep_elementsBody ih)
        continuationBody := parallel_nested .absent (inStep_queryBody ih).present }

end

end CSharpFront.Parser
