import CSharpFront.Proofs.Parser.Orderly
/-!
Expressions, queries and statements are orderly, and with them all rules, by induction on their
bound. An expression takes a token wherever one can begin. The lists in the header of a `for` go on
only where a separator or an expression can begin, so that each round takes one of them.
-/

namespace CSharpFront.Parser

/-! ## Expressions and queries -/

section

variable {tokens ts : List Token} {bound : Nat} {r r' : Rules}

/-! ### Lists of expressions -/

theorem orderly_initializer (hr : r.AreOrderly tokens bound r') :
    Orderly tokens bound 0 (initializer r) (initializer r') := by
  refine .bind orderly_current fun _ => .bind (orderly_eat _) fun _ => ?_
  refine .bind hr.elements fun _ => .bind (orderly_eat _) fun _ => ?_
  exact .bind (orderly_rangeFrom _) fun _ => .pure _

theorem orderly_element (hr : r.AreOrderly tokens bound r') :
    Orderly tokens bound 0 (element r) (element r') := by
  refine .bind orderly_currentKind fun _ => .ite ?_ hr.expression.orderly
  exact .bind (orderly_initializer hr) fun _ => .pure _

theorem orderly_elementsBody (hr : r.AreOrderly tokens bound r') :
    Orderly tokens bound 0 (elementsBody r) (elementsBody r') := by
  refine .bind (.loop [] fun es ts => ?_) fun _ => .pure _
  refine .currentKind (.ite (fun _ => .pure trivial) fun _ => ?_)
  refine .bindAfter (orderly_element hr) fun e us => ?_
  refine .bind (advances_accept (by simp)) (fun _ => .ite (.pure _) (.pure _)) ?_
  rintro _ rfl
  exact .pure trivial

theorem orderly_optionalInitializer (hr : r.AreOrderly tokens bound r') :
    Orderly tokens bound 0 (optionalInitializer r) (optionalInitializer r') := by
  refine .bind orderly_currentKind fun _ => .ite ?_ (.pure _)
  exact .bind (orderly_initializer hr) fun _ => .pure _

theorem orderly_argument (hr : r.AreOrderly tokens bound r') :
    Orderly tokens bound 0 (argument r) (argument r') := by
  refine .bind orderly_currentKind fun _ => .ite ?_ hr.expression.orderly
  exact .bind orderly_advance fun _ => hr.expression.orderly

theorem orderly_arguments (hr : r.AreOrderly tokens bound r') (opening closing : Punctuator) :
    Orderly tokens bound 0 (arguments r opening closing) (arguments r' opening closing) := by
  refine .bind (orderly_eat _) fun _ => .bind orderly_currentKind fun _ => ?_
  refine .iteBind (.pure _) (orderly_separated (orderly_argument hr)) fun _ => ?_
  exact .bind (orderly_eat _) fun _ => .pure _

/-! ### Operands -/

theorem orderly_sizes (hr : r.AreOrderly tokens bound r') :
    Orderly tokens bound 0 (sizes r) (sizes r') := by
  refine .bind (.loop ([], 1) fun a ts => ?_) fun _ => .pure _
  refine .currentKind (.ite (fun _ => .pure trivial) fun _ => .ite (fun h => ?_) fun _ => ?_)
  · have hts : ts ≠ [] := ne_nil_of_kind h (by simp)
    exact .bindTakes (takes_advance hts) fun _ => .pure _
  refine .bindAfter hr.expression.orderly fun _ us => ?_
  refine .bind (advances_accept (by simp)) (fun _ => .ite (.pure _) (.pure _)) ?_
  rintro _ rfl
  exact .pure trivial

theorem orderly_arrayCreationRest (hr : r.AreOrderly tokens bound r') (start : Nat)
    (element : TypeSyntax) :
    Orderly tokens bound 0 (arrayCreationRest r start element)
      (arrayCreationRest r' start element) := by
  refine .bind (orderly_eat _) fun _ => .bind (orderly_sizes hr) fun _ => ?_
  refine .bind (orderly_eat _) fun _ => .bind (orderly_rangeFrom _) fun _ => ?_
  refine .bind (orderly_rankSpecifiers _ _) fun _ => ?_
  refine .bind (orderly_optionalInitializer hr) fun _ => ?_
  exact .bind (orderly_rangeFrom _) fun _ => .pure _

theorem orderly_objectCreationRest (hr : r.AreOrderly tokens bound r') (start : Nat)
    (type : TypeSyntax) :
    Orderly tokens bound 0 (objectCreationRest r start type)
      (objectCreationRest r' start type) := by
  have hrest (es? : Option (List Expr)) : Orderly tokens bound 0
      (do
        let initializer? ← optionalInitializer r
        return Expr.objectCreation (← rangeFrom start) type es? initializer?)
      (do
        let initializer? ← optionalInitializer r'
        return Expr.objectCreation (← rangeFrom start) type es? initializer?) :=
    .bind (orderly_optionalInitializer hr) fun _ => .bind (orderly_rangeFrom _) fun _ => .pure _
  refine .bind orderly_currentKind fun _ => .ite ?_ (hrest none)
  exact .bind (orderly_arguments hr _ _) fun es => hrest (some es)

theorem takes_creation (hr : r.AreOrderly tokens bound r')
    (h : Lookahead.kind ts = .keyword .kwNew) :
    Takes tokens bound ts (creation r) (creation r') := by
  refine .current fun _ _ => .bindTakes (takes_eat h (by simp)) fun _ => ?_
  refine .bind (orderly_accept _) fun _ => .ite ?_ ?_
  · refine .get fun _ _ => .bind (orderly_advanceBy _) fun _ => .bind (orderly_eat _) fun _ => ?_
    refine .bind (orderly_initializer hr) fun _ => ?_
    exact .bind (orderly_rangeFrom _) fun _ => .pure _
  refine .bind (hr.type false).orderly fun type => .bind orderly_currentKind fun _ => ?_
  split
  · exact orderly_arrayCreationRest hr _ _
  · exact orderly_objectCreationRest hr _ _
  · exact orderly_objectCreationRest hr _ _
  · refine .bind orderly_expectedSpan fun _ => .bind (orderly_report (by simp) _ _) fun _ => ?_
    exact .bind (orderly_rangeFrom _) fun _ => .pure _

theorem orderly_invalidTerm : Orderly tokens bound 0 invalidTerm invalidTerm := by
  refine .bind orderly_current fun _ => .ite ?_ ?_
  · exact .bind (orderly_report (by simp) _ _) fun _ => orderly_missingExpression
  · exact .bind (orderly_report (by simp) _ _) fun _ => orderly_missingExpression

/-- What begins an expression but no operand stands before one. -/
theorem startsExpression_or_prefix {kind : TokenKind} (hliteral : literalKind? kind = none)
    (hspecial : kind.special? = none) (hidentifier : kind ≠ .identifier)
    (hthis : kind ≠ .keyword .kwThis) (hparen : kind ≠ .punct .openParen)
    (hnew : kind ≠ .keyword .kwNew) :
    kind.startsExpression = false ∨ isPrefixOperator kind = true := by
  cases kind with
  | identifier => exact absurd rfl hidentifier
  | numericLiteral | stringLiteral | characterLiteral => cases hliteral
  | unknown | endOfFile => exact .inl rfl
  | punct p => cases p <;> first | exact .inl rfl | exact .inr rfl | exact absurd rfl hparen
  | keyword k =>
    have hnone : SpecialType.ofKeyword? k = none := hspecial
    refine .inl ?_
    simp only [TokenKind.startsExpression]
    split
    · cases hliteral
    · cases hliteral
    · cases hliteral
    · exact absurd rfl hthis
    · exact absurd rfl hnew
    · rfl
    · rw [hnone]
      rfl

/-- The first tokens of operands are those of expressions without the operators that stand before
them. -/
theorem advances_primary (hr : r.AreOrderly tokens bound r') :
    Advances tokens bound ts
      (fun _ => (Lookahead.kind ts).startsExpression = false ∨
        isPrefixOperator (Lookahead.kind ts) = true)
      (primary r) (primary r') := by
  refine .current fun t ht => ?_
  cases hliteral : literalKind? t.kind with
  | some kind =>
    have hts : ts ≠ [] := by
      rintro rfl
      rw [ht] at hliteral
      cases hliteral
    exact .bindTakes (takes_advance hts) fun _ => .pure _
  | none =>
  cases hspecial : t.kind.special? with
  | some s =>
    have hts : ts ≠ [] := by
      rintro rfl
      rw [ht] at hspecial
      cases hspecial
    exact .bindTakes (takes_advance hts) fun _ => .pure _
  | none =>
  dsimp only
  split
  next hk =>
    have hts : ts ≠ [] := ne_nil_of_kind (ht.symm.trans hk) (by simp)
    refine .bindTakes (takes_advance hts) fun _ => ?_
    exact .bind (orderly_identifierOf _) fun _ => .pure _
  next hk =>
    have hts : ts ≠ [] := ne_nil_of_kind (ht.symm.trans hk) (by simp)
    exact .bindTakes (takes_advance hts) fun _ => .pure _
  next hk =>
    have hts : ts ≠ [] := ne_nil_of_kind (ht.symm.trans hk) (by simp)
    refine .bindTakes (takes_advance hts) fun _ => .bind hr.expression.orderly fun _ => ?_
    exact .bind (orderly_eat _) fun _ => .bind (orderly_rangeFrom _) fun _ => .pure _
  next hk => exact (takes_creation hr (ht.symm.trans hk)).imp fun _ => False.elim
  next hidentifier hthis hparen hnew =>
    refine .of_orderly orderly_invalidTerm fun _ => ?_
    rw [← ht]
    exact startsExpression_or_prefix hliteral hspecial hidentifier hthis hparen hnew

theorem takes_castExpression (hr : r.AreOrderly tokens bound r')
    (h : Lookahead.kind ts = .punct .openParen) :
    Takes tokens bound ts (castExpression r) (castExpression r') := by
  refine .current fun _ _ => .bindTakes (takes_eat h (by simp)) fun _ => ?_
  refine .bind (hr.type true).orderly fun _ => .bind (orderly_eat _) fun _ => ?_
  exact .bind hr.unary.orderly fun _ => .bind (orderly_rangeFrom _) fun _ => .pure _

theorem takesFirst_unaryBody (hr : r.AreOrderly tokens bound r') :
    TakesFirst tokens bound (·.startsExpression) (unaryBody r) (unaryBody r') := by
  intro ts
  refine .current fun t ht => .ite (fun hprefix => ?_) fun hprefix => ?_
  · have hts : ts ≠ [] := by
      rintro rfl
      rw [ht] at hprefix
      cases hprefix
    refine .bindTakes (takes_take hts) fun _ => .bind hr.unary.orderly fun _ => ?_
    exact .bind (orderly_rangeFrom _) fun _ => .pure _
  refine .read fun env env' he => ?_
  rw [he.inAsync]
  refine .ite (fun hawait => ?_) fun _ => ?_
  · have hk := Token.kind_of_isContextual hawait.2
    have hts : ts ≠ [] := ne_nil_of_kind (ht.symm.trans hk) (by simp)
    refine .bindTakes (takes_advance hts) fun _ => .bind hr.unary.orderly fun _ => ?_
    exact .bind (orderly_rangeFrom _) fun _ => .pure _
  refine .read fun env env' he => .get fun s _ hs => ?_
  rw [he.types.startsCast ((List.tail_suffix _).trans hs)]
  refine .ite (fun hcast => ?_) fun _ => ?_
  · exact (takes_castExpression hr (ht.symm.trans hcast.1)).imp fun _ => False.elim
  · refine .bind (advances_primary hr) (fun _ => hr.postfixTail 0 _ _) fun operand h => ?_
    refine .of_orderly (hr.postfixTail 0 _ _) fun _ => h.resolve_right ?_
    rwa [← ht]

theorem orderly_postfixStep (hr : r.AreOrderly tokens bound r') (start : Nat) (operand : Expr) :
    Orderly tokens bound 0 (postfixStep r start operand) (postfixStep r' start operand) := by
  have hmember : Orderly tokens bound 0
      (do
        let operator ← take
        let name ← identifier
        return Expr.memberAccess (← rangeFrom start) operand operator name)
      (do
        let operator ← take
        let name ← identifier
        return Expr.memberAccess (← rangeFrom start) operand operator name) :=
    .bind orderly_take fun _ => .bind orderly_identifier fun _ =>
      .bind (orderly_rangeFrom _) fun _ => .pure _
  refine .bind orderly_currentKind fun _ => ?_
  split
  · exact hmember
  · exact hmember
  · refine .bind (orderly_arguments hr _ _) fun _ => ?_
    exact .bind (orderly_rangeFrom _) fun _ => .pure _
  · refine .bind (orderly_arguments hr _ _) fun _ => ?_
    exact .bind (orderly_rangeFrom _) fun _ => .pure _
  · exact .bind orderly_take fun _ => .bind (orderly_rangeFrom _) fun _ => .pure _

theorem orderly_postfixTailBody (hr : r.AreOrderly tokens bound r') (levels start : Nat)
    (operand : Expr) :
    Orderly tokens (bound + 1) levels (postfixTailBody r levels start operand)
      (postfixTailBody r' levels start operand) := by
  refine .bind orderly_currentKind fun _ => .ite ?_ (.leave levels operand)
  refine .enter ?_ (.leave levels operand)
  exact .bind (orderly_postfixStep hr _ _) fun _ => hr.postfixTail (levels + 1) _ _

/-! ### Operators -/

theorem takesFirst_binary (hr : r.AreOrderly tokens bound r') (least : Nat) :
    TakesFirst tokens bound (·.startsExpression) (binary r least) (binary r' least) :=
  .current fun _ => .bind hr.unary fun _ => hr.binaryTail 0 least _ _

theorem orderly_nextOperator? (least : Nat) :
    Orderly tokens bound 0 (nextOperator? least) (nextOperator? least) := by
  refine .read fun env env' he => .get fun s _ => ?_
  rw [he.endOfFile]
  dsimp only
  split
  · exact .ite (.pure _) (.pure _)
  · exact .pure _

theorem orderly_binaryStep (hr : r.AreOrderly tokens bound r') (start : Nat) (left : Expr)
    (operator : Operator) (p : Precedence) :
    Orderly tokens bound 0 (binaryStep r start left operator p)
      (binaryStep r' start left operator p) := by
  refine .bind (orderly_advanceBy _) fun _ => ?_
  split
  · exact .bind (hr.type true).orderly fun _ => .bind (orderly_rangeFrom _) fun _ => .pure _
  · refine .bind (takesFirst_binary hr _).orderly fun _ => ?_
    exact .bind (orderly_rangeFrom _) fun _ => .pure _

theorem orderly_binaryTailBody (hr : r.AreOrderly tokens bound r') (levels least start : Nat)
    (left : Expr) :
    Orderly tokens (bound + 1) levels (binaryTailBody r levels least start left)
      (binaryTailBody r' levels least start left) := by
  refine .bind (orderly_nextOperator? least) fun o? => ?_
  cases o? with
  | none => exact .leave levels left
  | some o =>
    refine .enter ?_ (.leave levels left)
    exact .bind (orderly_binaryStep hr _ _ _ _) fun _ => hr.binaryTail (levels + 1) least _ _

theorem takesFirst_conditional (hr : r.AreOrderly tokens bound r') :
    TakesFirst tokens bound (·.startsExpression) (conditional r) (conditional r') := by
  refine .current fun _ => .bind (takesFirst_binary hr _) fun _ => ?_
  refine .bind (orderly_accept _) fun _ => .ite ?_ (.pure _)
  refine .bind hr.expression.orderly fun _ => .bind (orderly_eat _) fun _ => ?_
  exact .bind hr.expression.orderly fun _ => .bind (orderly_rangeFrom _) fun _ => .pure _

theorem takesFirst_assignment (hr : r.AreOrderly tokens bound r') :
    TakesFirst tokens bound (·.startsExpression) (assignment r) (assignment r') := by
  refine .current fun _ => .bind (takesFirst_conditional hr) fun _ => ?_
  refine .read fun env env' he => .get fun s _ => ?_
  rw [he.endOfFile]
  refine .ite (.bind (orderly_advanceBy _) fun _ => ?_) (.pure _)
  exact .bind hr.expression.orderly fun _ => .bind (orderly_rangeFrom _) fun _ => .pure _

/-! ### Queries -/

theorem takes_fromClause (hr : r.AreOrderly tokens bound r') (h : ts ≠ []) :
    Takes tokens bound ts (fromClause r) (fromClause r') := by
  refine .current fun t _ => .bindTakes (takes_advance h) fun _ => .get fun _ _ => ?_
  have hrest (type? : Option TypeSyntax) : Orderly tokens bound 0
      (do
        let identifier ← identifier
        let _ ← eat (.keyword .kwIn)
        let source ← r.expression
        return (⟨← rangeFrom t.start, type?, identifier, source⟩ : FromClause))
      (do
        let identifier ← identifier
        let _ ← eat (.keyword .kwIn)
        let source ← r'.expression
        return (⟨← rangeFrom t.start, type?, identifier, source⟩ : FromClause)) := by
    refine .bind orderly_identifier fun _ => .bind (orderly_eat _) fun _ => ?_
    exact .bind hr.expression.orderly fun _ => .bind (orderly_rangeFrom _) fun _ => .pure _
  exact .ite (hrest none) (.bind (hr.type true).orderly fun type => hrest (some type))

theorem takes_letClause (hr : r.AreOrderly tokens bound r') (h : ts ≠ []) :
    Takes tokens bound ts (letClause r) (letClause r') := by
  refine .current fun _ _ => .bindTakes (takes_advance h) fun _ => ?_
  refine .bind orderly_identifier fun _ => .bind (orderly_eat _) fun _ => ?_
  exact .bind hr.expression.orderly fun _ => .bind (orderly_rangeFrom _) fun _ => .pure _

theorem takes_whereClause (hr : r.AreOrderly tokens bound r') (h : ts ≠ []) :
    Takes tokens bound ts (whereClause r) (whereClause r') := by
  refine .current fun _ _ => .bindTakes (takes_advance h) fun _ => ?_
  exact .bind hr.expression.orderly fun _ => .bind (orderly_rangeFrom _) fun _ => .pure _

theorem orderly_sortKey (hr : r.AreOrderly tokens bound r') :
    Orderly tokens bound 0 (sortKey r) (sortKey r') := by
  refine .bind orderly_current fun t => .bind hr.expression.orderly fun e => ?_
  have hrest (isDescending : Bool) : Orderly tokens bound 0
      (do return (⟨← rangeFrom t.start, e, isDescending⟩ : SortKey))
      (do return (⟨← rangeFrom t.start, e, isDescending⟩ : SortKey)) :=
    .bind (orderly_rangeFrom _) fun _ => .pure _
  refine .bind orderly_current fun _ => ?_
  split
  · exact .bind orderly_advance fun _ => hrest false
  · exact .bind orderly_advance fun _ => hrest true
  · exact hrest false

theorem takes_orderByClause (hr : r.AreOrderly tokens bound r') (h : ts ≠ []) :
    Takes tokens bound ts (orderByClause r) (orderByClause r') := by
  refine .current fun _ _ => .bindTakes (takes_advance h) fun _ => ?_
  refine .bind (orderly_separated (orderly_sortKey hr)) fun _ => ?_
  exact .bind (orderly_rangeFrom _) fun _ => .pure _

theorem advances_queryClause? (hr : r.AreOrderly tokens bound r') :
    Advances tokens bound ts (· = none) (queryClause? r) (queryClause? r') := by
  refine .current fun t ht => ?_
  cases hword : t.contextual? with
  | none => exact .pure rfl
  | some word =>
    have hk := Token.kind_of_contextual? hword
    have hts : ts ≠ [] := ne_nil_of_kind (ht.symm.trans hk) (by simp)
    split
    · exact .bindTakes (takes_fromClause hr hts) fun _ => .pure _
    · exact .bindTakes (takes_letClause hr hts) fun _ => .pure _
    · exact .bindTakes (takes_whereClause hr hts) fun _ => .pure _
    · exact .bindTakes (takes_orderByClause hr hts) fun _ => .pure _
    · exact .pure rfl

theorem orderly_queryEnding (hr : r.AreOrderly tokens bound r') :
    Orderly tokens bound 0 (queryEnding r) (queryEnding r') := by
  refine .bind orderly_current fun _ => ?_
  split
  · refine .bind orderly_advance fun _ => .bind hr.expression.orderly fun _ => ?_
    exact .bind (orderly_rangeFrom _) fun _ => .pure _
  · refine .bind orderly_advance fun _ => .bind hr.expression.orderly fun _ => ?_
    refine .bind (orderly_eatContextual _) fun _ => .bind hr.expression.orderly fun _ => ?_
    exact .bind (orderly_rangeFrom _) fun _ => .pure _
  · exact .bind (orderly_report (by simp) _ _) fun _ => .get fun _ _ => .pure _

theorem orderly_continuation? (hr : r.AreOrderly tokens bound r') :
    Orderly tokens bound 0 (continuation? r) (continuation? r') := by
  refine .bind orderly_current fun _ => .ite ?_ (.pure _)
  refine .bind orderly_advance fun _ => .bind orderly_identifier fun _ => ?_
  refine .bind hr.continuationBody fun body? => ?_
  cases body? with
  | some body => exact .bind (orderly_rangeFrom _) fun _ => .pure _
  | none => exact .pure _

theorem orderly_queryBody (hr : r.AreOrderly tokens bound r') :
    Orderly tokens bound 0 (queryBody r) (queryBody r') := by
  refine .bind orderly_current fun _ => .bind (.many fun _ => advances_queryClause? hr) fun _ => ?_
  refine .bind (orderly_queryEnding hr) fun _ => .bind (orderly_continuation? hr) fun _ => ?_
  exact .bind (orderly_rangeFrom _) fun _ => .pure _

theorem takes_query (hr : r.AreOrderly tokens bound r') (h : ts ≠ []) :
    Takes tokens bound ts (query r) (query r') := by
  refine .current fun _ _ => .bindTakes (takes_fromClause hr h) fun _ => ?_
  exact .bind (orderly_queryBody hr) fun _ => .bind (orderly_rangeFrom _) fun _ => .pure _

theorem takesFirst_expressionBody (hr : r.AreOrderly tokens bound r') :
    TakesFirst tokens bound (·.startsExpression) (expressionBody r) (expressionBody r') := by
  intro ts
  refine .get fun s hs _ => .ite (fun hquery => ?_) fun _ => takesFirst_assignment hr ts
  have hts : ts ≠ [] := by
    rintro rfl
    rw [hs] at hquery
    cases hquery
  exact (takes_query hr hts).imp fun _ => False.elim

end

/-! ## Statements -/

section

variable {tokens ts : List Token} {bound : Nat} {r r' : Rules}

/-! ### Declarations of variables -/

theorem orderly_declarator (hr : r.AreOrderly tokens bound r') (i : Identifier) :
    Orderly tokens bound 0 (declarator r i) (declarator r' i) := by
  have hrest (e? : Option Expr) : Orderly tokens bound 0
      (do return (⟨← rangeFrom i.range.start, i, e?⟩ : Declarator))
      (do return (⟨← rangeFrom i.range.start, i, e?⟩ : Declarator)) :=
    .bind (orderly_rangeFrom _) fun _ => .pure _
  refine .bind (orderly_accept _) fun _ => .ite ?_ (hrest none)
  exact .bind (orderly_element hr) fun e => hrest (some e)

theorem orderly_declarators (hr : r.AreOrderly tokens bound r') (start : Nat) (type : TypeSyntax)
    (first : Identifier) :
    Orderly tokens bound 0 (declarators r start type first)
      (declarators r' start type first) := by
  have hitem : Orderly tokens bound 0
      (do let identifier ← identifier; declarator r identifier)
      (do let identifier ← identifier; declarator r' identifier) :=
    .bind orderly_identifier fun _ => orderly_declarator hr _
  refine .bind (orderly_declarator hr _) fun _ => .bind (orderly_afterCommas hitem) fun _ => ?_
  exact .bind (orderly_rangeFrom _) fun _ => .pure _

theorem takesFirst_variableDeclaration (hr : r.AreOrderly tokens bound r') :
    TakesFirst tokens bound startsType (variableDeclaration r) (variableDeclaration r') := by
  refine .current fun _ => .bind (hr.type true) fun _ => ?_
  exact .bind orderly_identifier fun _ => orderly_declarators hr _ _ _

/-- A declaration begins with a type or with `const`. -/
theorem takesFirst_localDeclaration (hr : r.AreOrderly tokens bound r') :
    TakesFirst tokens bound (fun k => startsType k || k == .keyword .kwConst) (localDeclaration r)
      (localDeclaration r') := by
  intro ts
  refine .current fun t _ => .get fun s hs _ => ?_
  have hrest (modifiers : Modifiers) : Orderly tokens bound 0
      (do
        let declaration ← variableDeclaration r
        let semicolon ← eat (.punct .semicolon)
        return Stmt.localDeclaration (← rangeFrom t.start) modifiers declaration semicolon)
      (do
        let declaration ← variableDeclaration r'
        let semicolon ← eat (.punct .semicolon)
        return Stmt.localDeclaration (← rangeFrom t.start) modifiers declaration semicolon) := by
    refine .bind (takesFirst_variableDeclaration hr).orderly fun _ => ?_
    exact .bind (orderly_eat _) fun _ => .bind (orderly_rangeFrom _) fun _ => .pure _
  by_cases hconst : Lookahead.kind ts = .keyword .kwConst
  · have hrun : Lookahead.run (.keyword .kwConst) s.rest ≠ 0 :=
      Lookahead.run_ne_zero (hs ▸ hconst) (by simp)
    have hts : ts ≠ [] := ne_nil_of_kind hconst (by simp)
    exact .bindTakes (takes_advanceBy hts hrun) fun _ => hrest _
  · refine .bindElse (orderly_advanceBy _) (fun _ => hrest _) fun _ => ?_
    refine .bind (takesFirst_variableDeclaration hr ts) (fun _ => ?_) fun _ htype => ?_
    · exact .bind (orderly_eat _) fun _ => .bind (orderly_rangeFrom _) fun _ => .pure _
    · refine .of_orderly ?_ fun _ => ?_
      · exact .bind (orderly_eat _) fun _ => .bind (orderly_rangeFrom _) fun _ => .pure _
      · show (startsType (Lookahead.kind ts) || _) = false
        rw [htype, beq_false_of_ne hconst]
        rfl

theorem startsType_of_startsLocalDeclaration {maxDepth : Nat} {inAsync : Bool}
    (h : Lookahead.startsLocalDeclaration maxDepth inAsync ts = true) :
    startsType (Lookahead.kind ts) = true := by
  simp only [Lookahead.startsLocalDeclaration] at h
  split at h
  · cases h
  split at h
  · cases h
  next hk =>
    rw [← Bool.not_or, Bool.not_eq_true', Bool.not_eq_false] at hk
    exact hk

/-- Where a declaration is found, a type comes first. -/
theorem advances_startsLocalDeclaration :
    Advances tokens bound ts (fun found => found = true → startsType (Lookahead.kind ts) = true)
      startsLocalDeclaration startsLocalDeclaration := by
  refine .read fun env env' he => .get fun s hs hsuffix => ?_
  rw [he.types.startsLocalDeclaration hsuffix, he.inAsync]
  exact .pure fun h => startsType_of_startsLocalDeclaration (hs ▸ h)

theorem orderly_startsLocalDeclaration :
    Orderly tokens bound 0 startsLocalDeclaration startsLocalDeclaration :=
  Advances.orderly fun _ => advances_startsLocalDeclaration

/-! ### Expressions that stand alone -/

theorem orderly_checkStatementExpression (e : Expr) :
    Orderly tokens bound 0 (checkStatementExpression e) (checkStatementExpression e) :=
  .ite (.pure _) (orderly_report (by simp) _ _)

theorem orderly_checkStatementExpressions (es : List Expr) :
    Orderly tokens bound 0 (checkStatementExpressions es) (checkStatementExpressions es) := by
  induction es with
  | nil => exact .pure _
  | cons e es ih => exact .bind (orderly_checkStatementExpression e) fun _ => ih

theorem takesFirst_expressionStatement (hr : r.AreOrderly tokens bound r') :
    TakesFirst tokens bound (·.startsExpression) (expressionStatement r)
      (expressionStatement r') := by
  refine .current fun _ => .bind hr.expression fun _ => .bind (orderly_eat _) fun _ => ?_
  refine .bind (orderly_checkStatementExpression _) fun _ => ?_
  exact .bind (orderly_rangeFrom _) fun _ => .pure _

/-! ### Blocks -/

theorem orderly_skipToStatement :
    Orderly tokens bound 0 skipToStatement skipToStatement :=
  .bind orderly_advance fun _ => .get fun _ _ => orderly_advanceBy _

theorem takes_skipToStatement (h : ts ≠ []) :
    Takes tokens bound ts skipToStatement skipToStatement :=
  .bindTakes (takes_advance h) fun _ => .get fun _ _ => orderly_advanceBy _

/-- A statement that takes no token is followed by a skip that does. -/
theorem advances_blockStatement? (hr : r.AreOrderly tokens bound r') :
    Advances tokens bound ts (· = none) (blockStatement? r) (blockStatement? r') := by
  refine .currentKind (.ite (fun _ => .pure rfl) fun hend => ?_)
  have hts : ts ≠ [] := by
    rintro rfl
    exact hend (.inr rfl)
  refine .get fun s hs _ => ?_
  refine .bindElse hr.statement.orderly (fun _ => ?_) fun _ => ?_
  · refine .get fun _ _ => .ite ?_ (.pure _)
    exact .bind orderly_skipToStatement fun _ => .pure _
  · refine .get fun s' hs' _ => .ite (fun _ => ?_) fun hleft => ?_
    · exact .bindTakes (takes_skipToStatement hts) fun _ => .pure _
    · exact absurd (by rw [hs, hs']) hleft

theorem takesFirst_block (hr : r.AreOrderly tokens bound r') :
    TakesFirst tokens bound (· == .punct .openBrace) (block r) (block r') := by
  refine .current fun _ => .bind (takesFirst_eat (by simp)) fun _ => ?_
  refine .bind (.many fun _ => advances_blockStatement? hr) fun _ => ?_
  exact .bind (orderly_eat _) fun _ => .bind (orderly_rangeFrom _) fun _ => .pure _

/-! ### Conditions and loops -/

theorem orderly_condition (hr : r.AreOrderly tokens bound r') :
    Orderly tokens bound 0 (condition r) (condition r') := by
  refine .bind (orderly_eat _) fun _ => .bind hr.expression.orderly fun _ => ?_
  exact .bind (orderly_eat _) fun _ => .pure _

theorem takes_ifStatement (hr : r.AreOrderly tokens bound r')
    (h : Lookahead.kind ts = .keyword .kwIf) :
    Takes tokens bound ts (ifStatement r) (ifStatement r') := by
  refine .current fun _ _ => .bindTakes (takes_eat h (by simp)) fun _ => ?_
  refine .bind (orderly_condition hr) fun _ => .bind hr.statement.orderly fun _ => ?_
  refine .bind (orderly_accept _) fun _ => ?_
  refine .iteBind hr.statement.orderly.map (.pure _) fun _ => ?_
  exact .bind (orderly_rangeFrom _) fun _ => .pure _

theorem takes_whileStatement (hr : r.AreOrderly tokens bound r')
    (h : Lookahead.kind ts = .keyword .kwWhile) :
    Takes tokens bound ts (whileStatement r) (whileStatement r') := by
  refine .current fun _ _ => .bindTakes (takes_eat h (by simp)) fun _ => ?_
  refine .bind (orderly_condition hr) fun _ => .bind hr.statement.orderly fun _ => ?_
  exact .bind (orderly_rangeFrom _) fun _ => .pure _

theorem takes_doStatement (hr : r.AreOrderly tokens bound r')
    (h : Lookahead.kind ts = .keyword .kwDo) :
    Takes tokens bound ts (doStatement r) (doStatement r') := by
  refine .current fun _ _ => .bindTakes (takes_eat h (by simp)) fun _ => ?_
  refine .bind hr.statement.orderly fun _ => .bind (orderly_eat _) fun _ => ?_
  refine .bind (orderly_condition hr) fun _ => .bind (orderly_eat _) fun _ => ?_
  exact .bind (orderly_rangeFrom _) fun _ => .pure _

/-! ### The header of a `for` -/

theorem orderly_skipInList (expected : TokenKind) :
    Orderly tokens bound 0 (skipInList expected) (skipInList expected) := by
  have hrest : Orderly tokens bound 0 (do return !endsList (← currentKind))
      (do return !endsList (← currentKind)) :=
    .bind orderly_currentKind fun _ => .pure _
  refine .bind orderly_currentKind fun _ => .ite hrest ?_
  refine .bind (orderly_replace _) fun _ => .get fun _ _ => ?_
  exact .bind (orderly_advanceBy _) fun _ => hrest

/-- Where no separator and no expression begins, a skip after which the list goes on takes a
token. -/
theorem advances_skipInList (expected : TokenKind) (hcomma : Lookahead.kind ts ≠ .punct .comma)
    (hstarts : (Lookahead.kind ts).startsExpression = false) :
    Advances tokens bound ts (· = false) (skipInList expected) (skipInList expected) := by
  refine .currentKind (.ite (fun h => ?_) fun h => ?_)
  · have hends : endsList (Lookahead.kind ts) = true := by simpa [hcomma, hstarts] using h
    refine .currentKind (.pure ?_)
    rw [hends]
    rfl
  · have hts : ts ≠ [] := by
      rintro rfl
      exact h (.inr (.inr rfl))
    refine .bindTakes (takes_replace hts) fun _ => .get fun _ _ => ?_
    exact .bind (orderly_advanceBy _) fun _ => .bind orderly_currentKind fun _ => .pure _

/-- Between two expressions a separator or the second expression takes a token. -/
theorem advances_listSeparator :
    Advances tokens bound ts
      (fun _ => Lookahead.kind ts ≠ .punct .semicolon ∧ Lookahead.kind ts ≠ .punct .comma)
      listSeparator listSeparator := by
  refine .currentKind (.ite (fun h => ?_) fun h => ?_)
  · exact (takes_replace (ne_nil_of_kind h (by simp))).imp fun _ => False.elim
  · by_cases hcomma : Lookahead.kind ts = .punct .comma
    · exact .bindTakes (takes_eat hcomma (by simp)) fun _ => .pure _
    · exact .bindElse (orderly_eat _) (fun _ => .pure _) fun _ => .pure ⟨h, hcomma⟩

theorem orderly_forExpressionsRest (hr : r.AreOrderly tokens bound r') (allowSemicolon : Bool) :
    Orderly tokens bound 0 (forExpressionsRest r allowSemicolon)
      (forExpressionsRest r' allowSemicolon) := by
  refine .bind (.loop [] fun es ts => ?_) fun _ => .pure _
  refine .currentKind (.ite (fun _ => .pure trivial) fun hclose => ?_)
  refine .ite (fun hgoes => ?_) fun hstops => ?_
  · refine .bind advances_listSeparator (fun _ => ?_) fun _ hsep => ?_
    · exact .bind hr.expression.orderly fun _ => .pure _
    · have hstarts : (Lookahead.kind ts).startsExpression = true := by
        simpa [continuesList, hsep.1, hsep.2] using hgoes
      exact .bindTakes (hr.expression.takes hstarts) fun _ => .pure _
  · have hkinds : Lookahead.kind ts ≠ .punct .comma ∧
        (Lookahead.kind ts).startsExpression = false := by
      simp only [continuesList, Bool.not_eq_true, Bool.or_eq_false_iff] at hstops
      exact ⟨ne_of_beq_false hstops.1.1, hstops.2⟩
    refine .bind (advances_skipInList _ hkinds.1 hkinds.2) (fun _ => .ite (.pure _) (.pure _)) ?_
    rintro _ rfl
    exact .pure trivial

theorem orderly_forExpressions (hr : r.AreOrderly tokens bound r') (allowSemicolon : Bool) :
    Orderly tokens bound 0 (forExpressions r allowSemicolon)
      (forExpressions r' allowSemicolon) := by
  have hrest (found : Bool) : Orderly tokens bound 0
      (do
        if found then
          let first ← r.expression
          return first :: (← forExpressionsRest r allowSemicolon)
        else return [])
      (do
        if found then
          let first ← r'.expression
          return first :: (← forExpressionsRest r' allowSemicolon)
        else return []) := by
    refine .ite (.bind hr.expression.orderly fun _ => ?_) (.pure _)
    exact .bind (orderly_forExpressionsRest hr _) fun _ => .pure _
  refine .bind orderly_currentKind fun _ => .ite (.pure _) ?_
  exact .ite (hrest true) (.bind (orderly_skipInList _) hrest)

theorem orderly_forInitializer? (hr : r.AreOrderly tokens bound r') :
    Orderly tokens bound 0 (forInitializer? r) (forInitializer? r') := by
  refine .bind orderly_startsLocalDeclaration fun _ => .ite ?_ ?_
  · exact .bind (takesFirst_variableDeclaration hr).orderly fun _ => .pure _
  refine .bind orderly_currentKind fun _ => .ite (.pure _) ?_
  exact .bind (orderly_forExpressions hr false) fun _ => .pure _

theorem orderly_forSemicolon : Orderly tokens bound 0 forSemicolon forSemicolon := by
  refine .bind orderly_currentKind fun _ => .bind (orderly_eat _) fun _ => ?_
  exact .ite (.bind orderly_advance fun _ => .pure _) (.pure _)

theorem orderly_forCondition? (hr : r.AreOrderly tokens bound r') :
    Orderly tokens bound 0 (forCondition? r) (forCondition? r') :=
  .bind orderly_currentKind fun _ => .ite (.pure _) hr.expression.orderly.map

theorem orderly_forCloseParen : Orderly tokens bound 0 forCloseParen forCloseParen := by
  refine .bind (.loop () fun _ ts => ?_) fun _ => orderly_eat _
  refine .currentKind (.ite (fun h => ?_) fun _ => .pure trivial)
  have hts : ts ≠ [] := by
    rcases h with hk | hk
    · exact ne_nil_of_kind hk (by simp)
    · exact ne_nil_of_kind hk (by simp)
  exact .bindTakes (takes_replace hts) fun _ => .pure _

theorem takes_forHeader (hr : r.AreOrderly tokens bound r')
    (h : Lookahead.kind ts = .keyword .kwFor) :
    Takes tokens bound ts (forHeader r) (forHeader r') := by
  refine .bindTakes (takes_eat h (by simp)) fun w => .bind (orderly_eat _) fun o => ?_
  refine .bind (orderly_forInitializer? hr) fun i? => .bind orderly_forSemicolon fun s => ?_
  refine .bind (orderly_forCondition? hr) fun e? => .bind orderly_forSemicolon fun s' => ?_
  have hlast (es : List Expr) (o' : Leaf) : Orderly tokens bound 0
      (do
        checkStatementExpressions es
        return (⟨w, o, i?, s, e?, s', es, o'⟩ : ForHeader))
      (do
        checkStatementExpressions es
        return (⟨w, o, i?, s, e?, s', es, o'⟩ : ForHeader)) :=
    .bind (orderly_checkStatementExpressions es) fun _ => .pure _
  refine .bind orderly_currentKind fun _ => ?_
  refine .iteBind (.pure _) (orderly_forExpressions hr true) fun es => ?_
  refine .bind orderly_forCloseParen fun o' => ?_
  dsimp only
  split
  · exact .bind (orderly_checkStatementExpressions _) fun _ => hlast es o'
  · exact hlast es o'

theorem takes_forStatement (hr : r.AreOrderly tokens bound r')
    (h : Lookahead.kind ts = .keyword .kwFor) :
    Takes tokens bound ts (forStatement r) (forStatement r') := by
  refine .current fun _ _ => .bindTakes (takes_forHeader hr h) fun _ => ?_
  exact .bind hr.statement.orderly fun _ => .bind (orderly_rangeFrom _) fun _ => .pure _

/-! ### Jumps and labels -/

theorem takes_returnStatement (hr : r.AreOrderly tokens bound r')
    (h : Lookahead.kind ts = .keyword .kwReturn) :
    Takes tokens bound ts (returnStatement r) (returnStatement r') := by
  refine .current fun _ _ => .bindTakes (takes_eat h (by simp)) fun _ => ?_
  refine .bind orderly_currentKind fun _ => ?_
  refine .iteBind (.pure _) hr.expression.orderly.map fun _ => .bind (orderly_eat _) fun _ => ?_
  exact .bind (orderly_rangeFrom _) fun _ => .pure _

theorem takes_jump (h : ts ≠ []) : Takes tokens bound ts jump jump := by
  refine .current fun _ _ => .bindTakes (takes_advance h) fun _ => ?_
  exact .bind (orderly_eat _) fun _ => orderly_rangeFrom _

theorem takes_gotoStatement (h : Lookahead.kind ts = .keyword .kwGoto) :
    Takes tokens bound ts gotoStatement gotoStatement := by
  refine .current fun _ _ => .bindTakes (takes_eat h (by simp)) fun _ => ?_
  refine .bind orderly_identifier fun _ => .bind (orderly_eat _) fun _ => ?_
  exact .bind (orderly_rangeFrom _) fun _ => .pure _

theorem takes_labeledStatement (hr : r.AreOrderly tokens bound r')
    (h : Lookahead.kind ts = .identifier) :
    Takes tokens bound ts (labeledStatement r) (labeledStatement r') := by
  refine .current fun _ _ => .bindTakes (takes_identifier h) fun _ => ?_
  refine .bind (orderly_eat _) fun _ => .bind hr.statement.orderly fun _ => ?_
  exact .bind (orderly_rangeFrom _) fun _ => .pure _

theorem takesFirst_wordlessStatement (hr : r.AreOrderly tokens bound r') :
    TakesFirst tokens bound (·.startsExpression) (wordlessStatement r) (wordlessStatement r') := by
  intro ts
  refine .get fun s hs _ => .ite (fun h => ?_) fun _ => ?_
  · exact (takes_labeledStatement hr (hs ▸ h.1)).imp fun _ => False.elim
  refine .bind advances_startsLocalDeclaration (fun _ => ?_) fun found hfound => ?_
  · exact .ite (takesFirst_localDeclaration hr).orderly (takesFirst_expressionStatement hr).orderly
  · refine .ite (fun h => ?_) fun _ => takesFirst_expressionStatement hr ts
    refine ((takesFirst_localDeclaration hr).takes ?_).imp fun _ => False.elim
    rw [hfound h]
    rfl

theorem takesFirst_statementBody (hr : r.AreOrderly tokens bound r') :
    TakesFirst tokens bound (·.startsStatement) (statementBody r) (statementBody r') := by
  intro ts
  refine .current fun t ht => ?_
  split
  next hk =>
    have hbrace := beq_iff_eq.mpr (ht.symm.trans hk)
    exact .bindTakes ((takesFirst_block hr).takes hbrace) fun _ => .pure _
  next hk =>
    have hts : ts ≠ [] := ne_nil_of_kind (ht.symm.trans hk) (by simp)
    exact .bindTakes (takes_advance hts) fun _ => .pure _
  next hk => exact (takes_ifStatement hr (ht.symm.trans hk)).imp fun _ => False.elim
  next hk => exact (takes_whileStatement hr (ht.symm.trans hk)).imp fun _ => False.elim
  next hk => exact (takes_doStatement hr (ht.symm.trans hk)).imp fun _ => False.elim
  next hk => exact (takes_forStatement hr (ht.symm.trans hk)).imp fun _ => False.elim
  next hk => exact (takes_returnStatement hr (ht.symm.trans hk)).imp fun _ => False.elim
  next hk =>
    have hts : ts ≠ [] := ne_nil_of_kind (ht.symm.trans hk) (by simp)
    exact .bindTakes (takes_jump hts) fun _ => .pure _
  next hk =>
    have hts : ts ≠ [] := ne_nil_of_kind (ht.symm.trans hk) (by simp)
    exact .bindTakes (takes_jump hts) fun _ => .pure _
  next hk => exact (takes_gotoStatement (ht.symm.trans hk)).imp fun _ => False.elim
  next hk =>
    have hconst : startsType (Lookahead.kind ts) || Lookahead.kind ts == .keyword .kwConst := by
      rw [← ht, hk]
      rfl
    exact ((takesFirst_localDeclaration hr).takes hconst).imp fun _ => False.elim
  next =>
    refine (takesFirst_wordlessStatement hr ts).imp fun _ h => ?_
    rw [← ht] at h ⊢
    simp only [TokenKind.startsStatement, h, Bool.false_or]
    split
    · contradiction
    · contradiction
    next k hk =>
      split <;> first | rfl | contradiction
    · rfl

/-! ### All rules -/

/-- The rules of a bound, beside those of a greater one. -/
theorem areOrderly_rules {n m : Nat} (h : n ≤ m) :
    Rules.AreOrderly tokens n (rules n) (rules m) := by
  induction n generalizing m with
  | zero => exact Rules.areOrderly_zero _ _
  | succ n ih =>
    obtain ⟨m, rfl⟩ : ∃ k, m = k + 1 := ⟨m - 1, by omega⟩
    have hr := ih (Nat.le_of_succ_le_succ h)
    exact {
      statement := .nested orderly_emptyStatement (takesFirst_statementBody hr) rfl
      expression := .nested orderly_missingExpression (takesFirst_expressionBody hr) rfl
      unary := .nested orderly_missingExpression (takesFirst_unaryBody hr) rfl
      type := fun withRanks => .nested orderly_missingType (takesFirst_typeBody withRanks hr) rfl
      binaryTail := fun levels least start left => orderly_binaryTailBody hr levels least start left
      postfixTail := fun levels start operand => orderly_postfixTailBody hr levels start operand
      elements := .nested (.pure _) (orderly_elementsBody hr)
      continuationBody := .nested (.pure _) (orderly_queryBody hr).map }

end

end CSharpFront.Parser
