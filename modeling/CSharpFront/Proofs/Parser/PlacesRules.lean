import CSharpFront.Proofs.Parser.Places
/-!
The places of expressions, queries and statements, and with them of all rules, by induction on the
number of levels left.
-/

namespace CSharpFront.Parser

/-! ## Expressions and queries -/

section

variable {sort : Nat → Prop} {r : Rules}

/-! ### Lists of expressions -/

theorem places_initializer (hr : r.Placing sort) :
    Places sort (initializer r) (Initializer.Ranges (Range.On sort)) := by
  apply Keeps.bind places_current
  intro t ht
  apply Keeps.bind (places_eat _)
  intro _ _
  apply Keeps.bind hr.elements
  intro es hes
  apply Keeps.bind (places_eat _)
  intro _ _
  apply Keeps.bind (places_rangeFrom ht.start)
  intro _ hrange
  exact .pure (.mk hrange hes)

theorem places_element (hr : r.Placing sort) :
    Places sort (element r) (Expr.Ranges (Range.On sort)) := by
  apply Keeps.bind places_currentKind
  intro _ _
  refine .ite (fun _ => ?_) fun _ => hr.expression
  apply Keeps.bind (places_initializer hr)
  intro _ hi
  exact .pure (.initializer hi)

theorem places_elementsBody (hr : r.Placing sort) :
    Places sort (elementsBody r) fun es => ∀ e ∈ es, e.Ranges (Range.On sort) := by
  refine .bind (.loop (fun es => ∀ e ∈ es, e.Ranges (Range.On sort)) (by simp) ?_)
    fun es hes => .pure fun e he => hes e (List.mem_reverse.mp he)
  intro es hes
  apply Keeps.bind places_currentKind
  intro _ _
  refine .ite (fun _ => .pure hes) fun _ => ?_
  apply Keeps.bind (places_element hr)
  intro e he
  apply Keeps.bind (places_accept _)
  intro _ _
  have hcons := List.forall_mem_cons.mpr ⟨he, hes⟩
  exact .ite (fun _ => .pure hcons) fun _ => .pure hcons

theorem places_optionalInitializer (hr : r.Placing sort) :
    Places sort (optionalInitializer r) fun i? => ∀ i ∈ i?, i.Ranges (Range.On sort) := by
  apply Keeps.bind places_currentKind
  intro _ _
  refine .ite (fun _ => ?_) fun _ => .absent
  exact .present (places_initializer hr)

theorem places_argument (hr : r.Placing sort) :
    Places sort (argument r) (Expr.Ranges (Range.On sort)) := by
  apply Keeps.bind places_currentKind
  intro _ _
  refine .ite (fun _ => ?_) fun _ => hr.expression
  apply Keeps.bind places_advance
  intro _ _
  exact hr.expression

theorem places_arguments (hr : r.Placing sort) (opening closing : Punctuator) :
    Places sort (arguments r opening closing) fun es => ∀ e ∈ es, e.Ranges (Range.On sort) := by
  apply Keeps.bind (places_eat _)
  intro _ _
  apply Keeps.bind places_currentKind
  intro _ _
  apply Keeps.iteBind (fun _ => .pure (List.forall_mem_nil _))
    fun _ => places_separated (places_argument hr)
  intro es hes
  apply Keeps.bind (places_eat _)
  intro _ _
  exact .pure hes

/-! ### Operands -/

theorem places_sizes (hr : r.Placing sort) :
    Places sort (sizes r) fun p => ∀ e ∈ p.1, e.Ranges (Range.On sort) := by
  refine .bind (.loop (fun p : List Expr × Nat => ∀ e ∈ p.1, e.Ranges (Range.On sort))
    (by simp) ?_) fun p hp => .pure fun e he => hp e (List.mem_reverse.mp he)
  rintro ⟨es, rank⟩ hes
  apply Keeps.bind places_currentKind
  intro _ _
  refine .ite (fun _ => .pure hes) fun _ => ?_
  refine .ite (fun _ => .bind places_advance fun _ _ => .pure hes) fun _ => ?_
  apply Keeps.bind hr.expression
  intro e he
  apply Keeps.bind (places_accept _)
  intro _ _
  have hcons := List.forall_mem_cons.mpr ⟨he, hes⟩
  exact .ite (fun _ => .pure hcons) fun _ => .pure hcons

theorem places_arrayCreationRest (hr : r.Placing sort) {start : Nat} (hs : sort start)
    {element : TypeSyntax} (he : element.Ranges (Range.On sort)) :
    Places sort (arrayCreationRest r start element) (Expr.Ranges (Range.On sort)) := by
  have hts : sort element.range.toSpan.start := he.range.toSpan.start
  apply Keeps.bind (places_eat _)
  intro _ _
  apply Keeps.bind (places_sizes hr)
  intro p hp
  apply Keeps.bind (places_eat _)
  intro _ _
  apply Keeps.bind (places_rangeFrom hts)
  intro _ hrange
  apply Keeps.bind (places_rankSpecifiers hts (.array _ hrange he))
  intro t ht
  apply Keeps.bind (places_optionalInitializer hr)
  intro i? hi
  apply Keeps.bind (places_rangeFrom hs)
  intro _ hrange
  exact .pure (.arrayCreation hrange ht hp hi)

theorem places_objectCreationRest (hr : r.Placing sort) {start : Nat} (hs : sort start)
    {type : TypeSyntax} (ht : type.Ranges (Range.On sort)) :
    Places sort (objectCreationRest r start type) (Expr.Ranges (Range.On sort)) := by
  have hrest {es? : Option (List Expr)}
      (hes : ∀ es ∈ es?, ∀ e ∈ es, e.Ranges (Range.On sort)) :
      Places sort (do
        let initializer? ← optionalInitializer r
        return .objectCreation (← rangeFrom start) type es? initializer?)
        (Expr.Ranges (Range.On sort)) := by
    apply Keeps.bind (places_optionalInitializer hr)
    intro i? hi
    apply Keeps.bind (places_rangeFrom hs)
    intro _ hrange
    exact .pure (.objectCreation hrange ht hes hi)
  apply Keeps.bind places_currentKind
  intro _ _
  refine .ite (fun _ => ?_) fun _ => hrest (by simp)
  apply Keeps.bind (places_arguments hr _ _)
  intro es hes
  exact hrest (by simpa using hes)

theorem places_creation (hr : r.Placing sort) :
    Places sort (creation r) (Expr.Ranges (Range.On sort)) := by
  apply Keeps.bind places_current
  intro t ht
  apply Keeps.bind (places_eat _)
  intro _ _
  apply Keeps.bind (places_accept _)
  intro _ _
  refine .ite (fun _ => ?_) fun _ => ?_
  · apply Keeps.bind .get
    intro _ _
    apply Keeps.bind (places_advanceBy _)
    intro _ _
    apply Keeps.bind (places_eat _)
    intro _ _
    apply Keeps.bind (places_initializer hr)
    intro i hi
    apply Keeps.bind (places_rangeFrom ht.start)
    intro _ h
    exact .pure (.implicitArrayCreation h hi)
  · apply Keeps.bind (hr.type false)
    intro type htype
    apply Keeps.bind places_currentKind
    intro _ _
    split
    · exact places_arrayCreationRest hr ht.start htype
    · exact places_objectCreationRest hr ht.start htype
    · exact places_objectCreationRest hr ht.start htype
    · apply Keeps.bind places_expectedSpan
      intro _ hspan
      apply Keeps.bind (places_report _ hspan _)
      intro _ _
      apply Keeps.bind (places_rangeFrom ht.start)
      intro _ h
      exact .pure (.objectCreation h htype (by simp) (by simp))

theorem places_invalidTerm : Places sort invalidTerm (Expr.Ranges (Range.On sort)) := by
  apply Keeps.bind places_current
  intro t ht
  refine .ite (fun _ => ?_) fun _ => ?_
  · apply Keeps.bind (places_report _ ht.toSpan _)
    intro _ _
    exact places_missingExpression
  · apply Keeps.bind (places_report _ ht.toSpan _)
    intro _ _
    exact places_missingExpression

theorem places_primary (hr : r.Placing sort) :
    Places sort (primary r) (Expr.Ranges (Range.On sort)) := by
  apply Keeps.bind places_current
  intro t ht
  split
  · apply Keeps.bind places_advance
    intro _ _
    exact .pure (.literal ht)
  split
  · apply Keeps.bind places_advance
    intro _ _
    exact .pure (.predefinedType _ ht)
  split
  · apply Keeps.bind places_advance
    intro _ _
    apply Keeps.bind (places_identifierOf ht)
    intro _ hi
    exact .pure (.identifier hi)
  · apply Keeps.bind places_advance
    intro _ _
    exact .pure (.thisWord ht)
  · apply Keeps.bind places_advance
    intro _ _
    apply Keeps.bind hr.expression
    intro e he
    apply Keeps.bind (places_eat _)
    intro _ _
    apply Keeps.bind (places_rangeFrom ht.start)
    intro _ h
    exact .pure (.parenthesized h he)
  · exact places_creation hr
  · exact places_invalidTerm

theorem places_castExpression (hr : r.Placing sort) :
    Places sort (castExpression r) (Expr.Ranges (Range.On sort)) := by
  apply Keeps.bind places_current
  intro t ht
  apply Keeps.bind (places_eat _)
  intro _ _
  apply Keeps.bind (hr.type true)
  intro type htype
  apply Keeps.bind (places_eat _)
  intro _ _
  apply Keeps.bind hr.unary
  intro e he
  apply Keeps.bind (places_rangeFrom ht.start)
  intro _ h
  exact .pure (.cast h htype he)

theorem places_unaryBody (hr : r.Placing sort) :
    Places sort (unaryBody r) (Expr.Ranges (Range.On sort)) := by
  apply Keeps.bind places_current
  intro t ht
  refine .ite (fun _ => ?_) fun _ => ?_
  · apply Keeps.bind places_take
    intro o ho
    apply Keeps.bind hr.unary
    intro e he
    apply Keeps.bind (places_rangeFrom ht.start)
    intro _ h
    exact .pure (.prefixUnary h ho he)
  apply Keeps.bind .read
  intro _ _
  refine .ite (fun _ => ?_) fun _ => ?_
  · apply Keeps.bind places_advance
    intro _ _
    apply Keeps.bind hr.unary
    intro e he
    apply Keeps.bind (places_rangeFrom ht.start)
    intro _ h
    exact .pure (.await h he)
  apply Keeps.bind .read
  intro _ _
  apply Keeps.bind .get
  intro _ _
  refine .ite (fun _ => ?_) fun _ => ?_
  · exact places_castExpression hr
  · apply Keeps.bind (places_primary hr)
    intro e he
    exact hr.postfixTail 0 ht.start he

theorem places_postfixStep (hr : r.Placing sort) {start : Nat} (hs : sort start)
    {operand : Expr} (ho : operand.Ranges (Range.On sort)) :
    Places sort (postfixStep r start operand) (Expr.Ranges (Range.On sort)) := by
  have hmember : Places sort (do
      let operator ← take
      let name ← identifier
      return .memberAccess (← rangeFrom start) operand operator name)
      (Expr.Ranges (Range.On sort)) := by
    apply Keeps.bind places_take
    intro o hop
    apply Keeps.bind places_identifier
    intro i hi
    apply Keeps.bind (places_rangeFrom hs)
    intro _ h
    exact .pure (.memberAccess h ho hop hi)
  apply Keeps.bind places_currentKind
  intro _ _
  split
  · exact hmember
  · exact hmember
  · apply Keeps.bind (places_arguments hr _ _)
    intro es hes
    apply Keeps.bind (places_rangeFrom hs)
    intro _ h
    exact .pure (.invocation h ho hes)
  · apply Keeps.bind (places_arguments hr _ _)
    intro es hes
    apply Keeps.bind (places_rangeFrom hs)
    intro _ h
    exact .pure (.elementAccess h ho hes)
  · apply Keeps.bind places_take
    intro o hop
    apply Keeps.bind (places_rangeFrom hs)
    intro _ h
    exact .pure (.postfixUnary h ho hop)

theorem places_postfixTailBody (hr : r.Placing sort) (levels : Nat) {start : Nat}
    (hs : sort start) {operand : Expr} (ho : operand.Ranges (Range.On sort)) :
    Places sort (postfixTailBody r levels start operand) (Expr.Ranges (Range.On sort)) := by
  have hleave : Places sort (do leave levels; return operand) (Expr.Ranges (Range.On sort)) :=
    .bind (.leave levels) fun _ _ => .pure ho
  apply Keeps.bind places_currentKind
  intro _ _
  refine .ite (fun _ => ?_) fun _ => hleave
  apply Keeps.bind (.enter places_refuse)
  intro _ _
  refine .ite (fun _ => ?_) fun _ => hleave
  apply Keeps.bind (places_postfixStep hr hs ho)
  intro e he
  exact hr.postfixTail (levels + 1) hs he

/-! ### Operators -/

theorem places_binary (hr : r.Placing sort) (least : Nat) :
    Places sort (binary r least) (Expr.Ranges (Range.On sort)) :=
  .bind places_current fun _ ht => .bind hr.unary fun _ he => hr.binaryTail 0 least ht.start he

theorem places_binaryStep (hr : r.Placing sort) {start : Nat} (hs : sort start) {left : Expr}
    (hl : left.Ranges (Range.On sort)) {operator : Operator} (ho : operator.range.On sort)
    (p : Precedence) :
    Places sort (binaryStep r start left operator p) (Expr.Ranges (Range.On sort)) := by
  apply Keeps.bind (places_advanceBy _)
  intro _ _
  split
  · apply Keeps.bind (hr.type true)
    intro t ht
    apply Keeps.bind (places_rangeFrom hs)
    intro _ h
    exact .pure (.typeTest h hl ho ht)
  · apply Keeps.bind (places_binary hr _)
    intro e he
    apply Keeps.bind (places_rangeFrom hs)
    intro _ h
    exact .pure (.binary h hl ho he)

theorem places_binaryTailBody (hr : r.Placing sort) (levels least : Nat) {start : Nat}
    (hs : sort start) {left : Expr} (hl : left.Ranges (Range.On sort)) :
    Places sort (binaryTailBody r levels least start left) (Expr.Ranges (Range.On sort)) := by
  have hleave : Places sort (do leave levels; return left) (Expr.Ranges (Range.On sort)) :=
    .bind (.leave levels) fun _ _ => .pure hl
  apply Keeps.bind (places_nextOperator? least)
  intro o? ho
  split
  · exact hleave
  next operator p =>
    apply Keeps.bind (.enter places_refuse)
    intro _ _
    refine .ite (fun _ => ?_) fun _ => hleave
    apply Keeps.bind (places_binaryStep hr hs hl (ho _ rfl) p)
    intro e he
    exact hr.binaryTail (levels + 1) least hs he

theorem places_conditional (hr : r.Placing sort) :
    Places sort (conditional r) (Expr.Ranges (Range.On sort)) := by
  apply Keeps.bind places_current
  intro t ht
  apply Keeps.bind (places_binary hr _)
  intro c hc
  apply Keeps.bind (places_accept _)
  intro _ _
  refine .ite (fun _ => ?_) fun _ => .pure hc
  apply Keeps.bind hr.expression
  intro e he
  apply Keeps.bind (places_eat _)
  intro _ _
  apply Keeps.bind hr.expression
  intro f hf
  apply Keeps.bind (places_rangeFrom ht.start)
  intro _ h
  exact .pure (.conditional h hc he hf)

theorem places_assignment (hr : r.Placing sort) :
    Places sort (assignment r) (Expr.Ranges (Range.On sort)) := by
  apply Keeps.bind places_current
  intro t ht
  apply Keeps.bind (places_conditional hr)
  intro left hl
  apply Keeps.bind .read
  rintro env ⟨_, he⟩
  apply Keeps.bind .get
  rintro s ⟨_, hs⟩
  have ho := Operator.range_on_next he.endOfFile hs.rest
  refine .ite (fun _ => ?_) fun _ => .pure hl
  apply Keeps.bind (places_advanceBy _)
  intro _ _
  apply Keeps.bind hr.expression
  intro e he
  apply Keeps.bind (places_rangeFrom ht.start)
  intro _ h
  exact .pure (.assignment h hl ho he)

/-! ### Queries -/

theorem places_fromClause (hr : r.Placing sort) :
    Places sort (fromClause r) (FromClause.Ranges (Range.On sort)) := by
  apply Keeps.bind places_current
  intro t ht
  apply Keeps.bind places_advance
  intro _ _
  have hrest {type? : Option TypeSyntax} (htype : ∀ type ∈ type?, type.Ranges (Range.On sort)) :
      Places sort (do
        let identifier ← identifier
        let _ ← eat (.keyword .kwIn)
        let source ← r.expression
        return ⟨← rangeFrom t.start, type?, identifier, source⟩)
        (FromClause.Ranges (Range.On sort)) := by
    apply Keeps.bind places_identifier
    intro i hi
    apply Keeps.bind (places_eat _)
    intro _ _
    apply Keeps.bind hr.expression
    intro e he
    apply Keeps.bind (places_rangeFrom ht.start)
    intro _ h
    exact .pure (.mk h htype hi he)
  apply Keeps.bind .get
  intro _ _
  refine .ite (fun _ => hrest (by simp)) fun _ => ?_
  apply Keeps.bind (hr.type true)
  intro type htype
  exact hrest (by simpa using htype)

theorem places_letClause (hr : r.Placing sort) :
    Places sort (letClause r) (QueryClause.Ranges (Range.On sort)) := by
  apply Keeps.bind places_current
  intro t ht
  apply Keeps.bind places_advance
  intro _ _
  apply Keeps.bind places_identifier
  intro i hi
  apply Keeps.bind (places_eat _)
  intro _ _
  apply Keeps.bind hr.expression
  intro e he
  apply Keeps.bind (places_rangeFrom ht.start)
  intro _ h
  exact .pure (.letClause h hi he)

theorem places_whereClause (hr : r.Placing sort) :
    Places sort (whereClause r) (QueryClause.Ranges (Range.On sort)) := by
  apply Keeps.bind places_current
  intro t ht
  apply Keeps.bind places_advance
  intro _ _
  apply Keeps.bind hr.expression
  intro e he
  apply Keeps.bind (places_rangeFrom ht.start)
  intro _ h
  exact .pure (.whereClause h he)

theorem places_sortKey (hr : r.Placing sort) :
    Places sort (sortKey r) (SortKey.Ranges (Range.On sort)) := by
  apply Keeps.bind places_current
  intro t ht
  apply Keeps.bind hr.expression
  intro e he
  have hrest (isDescending : Bool) : Places sort
      (do return ⟨← rangeFrom t.start, e, isDescending⟩) (SortKey.Ranges (Range.On sort)) :=
    .bind (places_rangeFrom ht.start) fun _ h => .pure (.mk isDescending h he)
  apply Keeps.bind places_current
  intro _ _
  split
  · apply Keeps.bind places_advance
    intro _ _
    exact hrest false
  · apply Keeps.bind places_advance
    intro _ _
    exact hrest true
  · exact hrest false

theorem places_orderByClause (hr : r.Placing sort) :
    Places sort (orderByClause r) (QueryClause.Ranges (Range.On sort)) := by
  apply Keeps.bind places_current
  intro t ht
  apply Keeps.bind places_advance
  intro _ _
  apply Keeps.bind (places_separated (places_sortKey hr))
  intro ks hks
  apply Keeps.bind (places_rangeFrom ht.start)
  intro _ h
  exact .pure (.orderByClause h hks)

theorem places_queryClause? (hr : r.Placing sort) :
    Places sort (queryClause? r) fun q? => ∀ q ∈ q?, q.Ranges (Range.On sort) := by
  apply Keeps.bind places_current
  intro _ _
  split
  · apply Keeps.bind (places_fromClause hr)
    intro c hc
    refine .pure ?_
    rintro _ ⟨rfl⟩
    exact .fromClause hc
  · exact .present (places_letClause hr)
  · exact .present (places_whereClause hr)
  · exact .present (places_orderByClause hr)
  · exact .absent

theorem places_queryEnding (hr : r.Placing sort) :
    Places sort (queryEnding r) (QueryEnding.Ranges (Range.On sort)) := by
  apply Keeps.bind places_current
  intro t ht
  split
  · apply Keeps.bind places_advance
    intro _ _
    apply Keeps.bind hr.expression
    intro e he
    apply Keeps.bind (places_rangeFrom ht.start)
    intro _ h
    exact .pure (.select h he)
  · apply Keeps.bind places_advance
    intro _ _
    apply Keeps.bind hr.expression
    intro e he
    apply Keeps.bind (places_eatContextual _)
    intro _ _
    apply Keeps.bind hr.expression
    intro k hk
    apply Keeps.bind (places_rangeFrom ht.start)
    intro _ h
    exact .pure (.group h he hk)
  · apply Keeps.bind (places_report _ ht.toSpan _)
    intro _ _
    apply Keeps.bind .get
    rintro s ⟨_, hs⟩
    exact .pure (.missing (Range.on_emptyAt hs.prevStop))

theorem places_continuation? (hr : r.Placing sort) :
    Places sort (continuation? r) fun k? => ∀ k ∈ k?, k.Ranges (Range.On sort) := by
  apply Keeps.bind places_current
  intro t ht
  refine .ite (fun _ => ?_) fun _ => .absent
  apply Keeps.bind places_advance
  intro _ _
  apply Keeps.bind places_identifier
  intro i hi
  apply Keeps.bind hr.continuationBody
  intro b? hb
  split
  next b =>
    apply Keeps.bind (places_rangeFrom ht.start)
    intro _ h
    refine .pure ?_
    rintro _ ⟨rfl⟩
    exact .mk h hi (hb b rfl)
  · exact .absent

theorem places_queryBody (hr : r.Placing sort) :
    Places sort (queryBody r) (QueryBody.Ranges (Range.On sort)) := by
  apply Keeps.bind places_current
  intro t ht
  apply Keeps.bind (.many (places_queryClause? hr))
  intro qs hqs
  apply Keeps.bind (places_queryEnding hr)
  intro e he
  apply Keeps.bind (places_continuation? hr)
  intro k? hk
  apply Keeps.bind (places_rangeFrom ht.start)
  intro _ h
  exact .pure (.mk h hqs he hk)

theorem places_query (hr : r.Placing sort) :
    Places sort (query r) (Expr.Ranges (Range.On sort)) := by
  apply Keeps.bind places_current
  intro t ht
  apply Keeps.bind (places_fromClause hr)
  intro source hs
  apply Keeps.bind (places_queryBody hr)
  intro body hb
  apply Keeps.bind (places_rangeFrom ht.start)
  intro _ h
  exact .pure (.query h hs hb)

theorem places_expressionBody (hr : r.Placing sort) :
    Places sort (expressionBody r) (Expr.Ranges (Range.On sort)) :=
  .bind .get fun _ _ => .ite (fun _ => places_query hr) fun _ => places_assignment hr

end

/-! ## Statements -/

section

variable {sort : Nat → Prop} {r : Rules}

/-! ### Declarations of variables -/

theorem places_declarator (hr : r.Placing sort) {i : Identifier} (hi : i.range.On sort) :
    Places sort (declarator r i) (Declarator.Ranges (Range.On sort)) := by
  have hrest {e? : Option Expr} (he : ∀ e ∈ e?, e.Ranges (Range.On sort)) : Places sort
      (do return ⟨← rangeFrom i.range.start, i, e?⟩) (Declarator.Ranges (Range.On sort)) :=
    .bind (places_rangeFrom hi.start) fun _ h => .pure ⟨h, hi, he⟩
  apply Keeps.bind (places_accept _)
  intro _ _
  refine .ite (fun _ => ?_) fun _ => hrest (by simp)
  apply Keeps.bind (places_element hr)
  intro e he
  exact hrest (by simpa using he)

theorem places_declarators (hr : r.Placing sort) {start : Nat} (hs : sort start)
    {type : TypeSyntax} (ht : type.Ranges (Range.On sort)) {first : Identifier}
    (hf : first.range.On sort) :
    Places sort (declarators r start type first) (VariableDeclaration.Ranges (Range.On sort)) := by
  apply Keeps.bind (places_declarator hr hf)
  intro d hd
  have hitem : Places sort (do let identifier ← identifier; declarator r identifier)
      (Declarator.Ranges (Range.On sort)) :=
    .bind places_identifier fun _ hi => places_declarator hr hi
  apply Keeps.bind (places_afterCommas hitem)
  intro ds hds
  apply Keeps.bind (places_rangeFrom hs)
  intro _ h
  exact .pure ⟨h, ht, List.forall_mem_cons.mpr ⟨hd, hds⟩⟩

theorem places_variableDeclaration (hr : r.Placing sort) :
    Places sort (variableDeclaration r) (VariableDeclaration.Ranges (Range.On sort)) := by
  apply Keeps.bind places_current
  intro t ht
  apply Keeps.bind (hr.type true)
  intro type htype
  apply Keeps.bind places_identifier
  intro i hi
  exact places_declarators hr ht.start htype hi

theorem places_localDeclaration (hr : r.Placing sort) :
    Places sort (localDeclaration r) (Stmt.Ranges (Range.On sort)) := by
  apply Keeps.bind places_current
  intro t ht
  apply Keeps.bind .get
  intro _ _
  apply Keeps.bind (places_advanceBy _)
  intro _ _
  apply Keeps.bind (places_variableDeclaration hr)
  intro d hd
  apply Keeps.bind (places_eat _)
  intro o ho
  apply Keeps.bind (places_rangeFrom ht.start)
  intro _ h
  exact .pure (.localDeclaration _ h hd ho)

theorem places_startsLocalDeclaration : Places sort startsLocalDeclaration fun _ => True :=
  .bind .read fun _ _ => .bind .get fun _ _ => .pure trivial

/-! ### Expressions that stand alone -/

theorem places_checkStatementExpression {e : Expr} (he : e.Ranges (Range.On sort)) :
    Places sort (checkStatementExpression e) fun _ => True :=
  .ite (fun _ => .pure trivial) fun _ => places_report _ he.range.toSpan _

theorem places_checkStatementExpressions {es : List Expr}
    (hes : ∀ e ∈ es, e.Ranges (Range.On sort)) :
    Places sort (checkStatementExpressions es) fun _ => True := by
  induction es with
  | nil => exact .pure trivial
  | cons e es ih =>
    obtain ⟨he, hes⟩ := List.forall_mem_cons.mp hes
    apply Keeps.bind (places_checkStatementExpression he)
    intro _ _
    exact ih hes

theorem places_expressionStatement (hr : r.Placing sort) :
    Places sort (expressionStatement r) (Stmt.Ranges (Range.On sort)) := by
  apply Keeps.bind places_current
  intro t ht
  apply Keeps.bind hr.expression
  intro e he
  apply Keeps.bind (places_eat _)
  intro o ho
  apply Keeps.bind (places_checkStatementExpression he)
  intro _ _
  apply Keeps.bind (places_rangeFrom ht.start)
  intro _ h
  exact .pure (.expression h he ho)

/-! ### Blocks -/

theorem places_skipToStatement : Places sort skipToStatement fun _ => True :=
  .bind places_advance fun _ _ => .bind .get fun _ _ => places_advanceBy _

theorem places_blockStatement? (hr : r.Placing sort) :
    Places sort (blockStatement? r) fun s? => ∀ s ∈ s?, s.Ranges (Range.On sort) := by
  apply Keeps.bind places_currentKind
  intro _ _
  refine .ite (fun _ => .absent) fun _ => ?_
  apply Keeps.bind .get
  intro _ _
  apply Keeps.bind hr.statement
  intro s hs
  apply Keeps.bind .get
  intro _ _
  have hsome : ∀ u ∈ some s, u.Ranges (Range.On sort) := by simpa using hs
  refine .ite (fun _ => ?_) fun _ => .pure hsome
  apply Keeps.bind places_skipToStatement
  intro _ _
  exact .pure hsome

theorem places_block (hr : r.Placing sort) :
    Places sort (block r) (Block.Ranges (Range.On sort)) := by
  apply Keeps.bind places_current
  intro t ht
  apply Keeps.bind (places_eat _)
  intro o ho
  apply Keeps.bind (.many (places_blockStatement? hr))
  intro ss hss
  apply Keeps.bind (places_eat _)
  intro o' ho'
  apply Keeps.bind (places_rangeFrom ht.start)
  intro _ h
  exact .pure (.mk h ho hss ho')

/-! ### Conditions and loops -/

theorem places_condition (hr : r.Placing sort) :
    Places sort (condition r) (Expr.Ranges (Range.On sort)) := by
  apply Keeps.bind (places_eat _)
  intro _ _
  apply Keeps.bind hr.expression
  intro e he
  apply Keeps.bind (places_eat _)
  intro _ _
  exact .pure he

theorem places_ifStatement (hr : r.Placing sort) :
    Places sort (ifStatement r) (Stmt.Ranges (Range.On sort)) := by
  apply Keeps.bind places_current
  intro t ht
  apply Keeps.bind (places_eat _)
  intro _ _
  apply Keeps.bind (places_condition hr)
  intro e he
  apply Keeps.bind hr.statement
  intro s hs
  apply Keeps.bind (places_accept _)
  intro _ _
  apply Keeps.iteBind (fun _ => .present hr.statement) fun _ => .absent
  intro s? hs?
  apply Keeps.bind (places_rangeFrom ht.start)
  intro _ h
  exact .pure (.ifElse h he hs hs?)

theorem places_whileStatement (hr : r.Placing sort) :
    Places sort (whileStatement r) (Stmt.Ranges (Range.On sort)) := by
  apply Keeps.bind places_current
  intro t ht
  apply Keeps.bind (places_eat _)
  intro _ _
  apply Keeps.bind (places_condition hr)
  intro e he
  apply Keeps.bind hr.statement
  intro s hs
  apply Keeps.bind (places_rangeFrom ht.start)
  intro _ h
  exact .pure (.whileLoop h he hs)

theorem places_doStatement (hr : r.Placing sort) :
    Places sort (doStatement r) (Stmt.Ranges (Range.On sort)) := by
  apply Keeps.bind places_current
  intro t ht
  apply Keeps.bind (places_eat _)
  intro _ _
  apply Keeps.bind hr.statement
  intro s hs
  apply Keeps.bind (places_eat _)
  intro _ _
  apply Keeps.bind (places_condition hr)
  intro e he
  apply Keeps.bind (places_eat _)
  intro _ _
  apply Keeps.bind (places_rangeFrom ht.start)
  intro _ h
  exact .pure (.doLoop h hs he)

/-! ### The header of a `for` -/

theorem places_skipInList (expected : TokenKind) :
    Places sort (skipInList expected) fun _ => True := by
  have hrest : Places sort (do return !endsList (← currentKind)) fun _ => True :=
    .bind places_currentKind fun _ _ => .pure trivial
  apply Keeps.bind places_currentKind
  intro _ _
  refine .ite (fun _ => hrest) fun _ => ?_
  apply Keeps.bind (places_replace _)
  intro _ _
  apply Keeps.bind .get
  intro _ _
  apply Keeps.bind (places_advanceBy _)
  intro _ _
  exact hrest

theorem places_listSeparator : Places sort listSeparator fun _ => True := by
  apply Keeps.bind places_currentKind
  intro _ _
  refine .ite (fun _ => places_replace _) fun _ => ?_
  apply Keeps.bind (places_eat _)
  intro _ _
  exact .pure trivial

theorem places_forExpressionsRest (hr : r.Placing sort) (allowSemicolon : Bool) :
    Places sort (forExpressionsRest r allowSemicolon)
      fun es => ∀ e ∈ es, e.Ranges (Range.On sort) := by
  refine .bind (.loop (fun es => ∀ e ∈ es, e.Ranges (Range.On sort)) (by simp) ?_)
    fun es hes => .pure fun e he => hes e (List.mem_reverse.mp he)
  intro es hes
  apply Keeps.bind places_currentKind
  intro _ _
  refine .ite (fun _ => .pure hes) fun _ => ?_
  refine .ite (fun _ => ?_) fun _ => ?_
  · apply Keeps.bind places_listSeparator
    intro _ _
    apply Keeps.bind hr.expression
    intro e he
    exact .pure (List.forall_mem_cons.mpr ⟨he, hes⟩)
  · apply Keeps.bind (places_skipInList _)
    intro _ _
    exact .ite (fun _ => .pure hes) fun _ => .pure hes

theorem places_forExpressions (hr : r.Placing sort) (allowSemicolon : Bool) :
    Places sort (forExpressions r allowSemicolon)
      fun es => ∀ e ∈ es, e.Ranges (Range.On sort) := by
  have hrest (found : Bool) : Places sort (do
      if found then
        let first ← r.expression
        return first :: (← forExpressionsRest r allowSemicolon)
      else return []) fun es => ∀ e ∈ es, e.Ranges (Range.On sort) := by
    refine .ite (fun _ => ?_) fun _ => .pure (by simp)
    apply Keeps.bind hr.expression
    intro e he
    apply Keeps.bind (places_forExpressionsRest hr allowSemicolon)
    intro es hes
    exact .pure (List.forall_mem_cons.mpr ⟨he, hes⟩)
  apply Keeps.bind places_currentKind
  intro _ _
  refine .ite (fun _ => .pure (by simp)) fun _ => ?_
  refine .ite (fun _ => hrest true) fun _ => ?_
  apply Keeps.bind (places_skipInList _)
  intro found _
  exact hrest found

theorem places_forInitializer? (hr : r.Placing sort) :
    Places sort (forInitializer? r) fun i? => ∀ i ∈ i?, i.Ranges (Range.On sort) := by
  apply Keeps.bind places_startsLocalDeclaration
  intro _ _
  refine .ite (fun _ => ?_) fun _ => ?_
  · apply Keeps.bind (places_variableDeclaration hr)
    intro d hd
    refine .pure ?_
    rintro _ ⟨rfl⟩
    exact .declaration hd
  apply Keeps.bind places_currentKind
  intro _ _
  refine .ite (fun _ => .absent) fun _ => ?_
  apply Keeps.bind (places_forExpressions hr false)
  intro es hes
  refine .pure ?_
  split
  · simp
  · rintro _ ⟨rfl⟩
    exact .expressions hes

theorem places_forSemicolon : Places sort forSemicolon fun o => o.range.On sort := by
  apply Keeps.bind places_currentKind
  intro _ _
  apply Keeps.bind (places_eat _)
  intro o ho
  exact .ite (fun _ => .bind places_advance fun _ _ => .pure ho) fun _ => .pure ho

theorem places_forCondition? (hr : r.Placing sort) :
    Places sort (forCondition? r) fun e? => ∀ e ∈ e?, e.Ranges (Range.On sort) := by
  apply Keeps.bind places_currentKind
  intro _ _
  refine .ite (fun _ => .absent) fun _ => ?_
  exact .present hr.expression

theorem places_forCloseParen : Places sort forCloseParen fun o => o.range.On sort := by
  refine .bind (.loop (fun _ => True) trivial fun _ _ => ?_) fun _ _ => places_eat _
  apply Keeps.bind places_currentKind
  intro _ _
  refine .ite (fun _ => ?_) fun _ => .pure trivial
  apply Keeps.bind (places_replace _)
  intro _ _
  exact .pure trivial

theorem places_forHeader (hr : r.Placing sort) :
    Places sort (forHeader r) (ForHeader.Ranges (Range.On sort)) := by
  apply Keeps.bind (places_eat _)
  intro w hw
  apply Keeps.bind (places_eat _)
  intro o ho
  apply Keeps.bind (places_forInitializer? hr)
  intro i? hi
  apply Keeps.bind places_forSemicolon
  intro s hs
  apply Keeps.bind (places_forCondition? hr)
  intro e? he
  apply Keeps.bind places_forSemicolon
  intro s' hs'
  have hlast {es : List Expr} {o' : Leaf} (hes : ∀ e ∈ es, e.Ranges (Range.On sort))
      (ho' : o'.range.On sort) : Places sort
      (do checkStatementExpressions es; return ⟨w, o, i?, s, e?, s', es, o'⟩)
      (ForHeader.Ranges (Range.On sort)) := by
    apply Keeps.bind (places_checkStatementExpressions hes)
    intro _ _
    exact .pure ⟨hw, ho, hi, hs, he, hs', hes, ho'⟩
  apply Keeps.bind places_currentKind
  intro _ _
  apply Keeps.iteBind (fun _ => .pure (List.forall_mem_nil _))
    fun _ => places_forExpressions hr true
  intro es hes
  apply Keeps.bind places_forCloseParen
  intro o' ho'
  dsimp only
  split
  next first =>
    cases hi _ rfl with
    | expressions hfirst =>
      apply Keeps.bind (places_checkStatementExpressions hfirst)
      intro _ _
      exact hlast hes ho'
  · exact hlast hes ho'

theorem places_forStatement (hr : r.Placing sort) :
    Places sort (forStatement r) (Stmt.Ranges (Range.On sort)) := by
  apply Keeps.bind places_current
  intro t ht
  apply Keeps.bind (places_forHeader hr)
  intro h hh
  apply Keeps.bind hr.statement
  intro s hs
  apply Keeps.bind (places_rangeFrom ht.start)
  intro _ h
  exact .pure (.forLoop h hh hs)

/-! ### Jumps and labels -/

theorem places_returnStatement (hr : r.Placing sort) :
    Places sort (returnStatement r) (Stmt.Ranges (Range.On sort)) := by
  apply Keeps.bind places_current
  intro t ht
  apply Keeps.bind (places_eat _)
  intro _ _
  apply Keeps.bind places_currentKind
  intro _ _
  apply Keeps.iteBind (fun _ => .absent) fun _ => .present hr.expression
  intro e? he
  apply Keeps.bind (places_eat _)
  intro _ _
  apply Keeps.bind (places_rangeFrom ht.start)
  intro _ h
  exact .pure (.returnValue h he)

theorem places_jump : Places sort jump (Range.On sort) := by
  apply Keeps.bind places_current
  intro t ht
  apply Keeps.bind places_advance
  intro _ _
  apply Keeps.bind (places_eat _)
  intro _ _
  exact places_rangeFrom ht.start

theorem places_gotoStatement : Places sort gotoStatement (Stmt.Ranges (Range.On sort)) := by
  apply Keeps.bind places_current
  intro t ht
  apply Keeps.bind (places_eat _)
  intro _ _
  apply Keeps.bind places_identifier
  intro i hi
  apply Keeps.bind (places_eat _)
  intro _ _
  apply Keeps.bind (places_rangeFrom ht.start)
  intro _ h
  exact .pure (.goto h hi)

theorem places_labeledStatement (hr : r.Placing sort) :
    Places sort (labeledStatement r) (Stmt.Ranges (Range.On sort)) := by
  apply Keeps.bind places_current
  intro t ht
  apply Keeps.bind places_identifier
  intro i hi
  apply Keeps.bind (places_eat _)
  intro _ _
  apply Keeps.bind hr.statement
  intro s hs
  apply Keeps.bind (places_rangeFrom ht.start)
  intro _ h
  exact .pure (.labeled h hi hs)

theorem places_wordlessStatement (hr : r.Placing sort) :
    Places sort (wordlessStatement r) (Stmt.Ranges (Range.On sort)) := by
  apply Keeps.bind .get
  intro _ _
  refine .ite (fun _ => places_labeledStatement hr) fun _ => ?_
  apply Keeps.bind places_startsLocalDeclaration
  intro _ _
  exact .ite (fun _ => places_localDeclaration hr) fun _ => places_expressionStatement hr

theorem places_statementBody (hr : r.Placing sort) :
    Places sort (statementBody r) (Stmt.Ranges (Range.On sort)) := by
  apply Keeps.bind places_current
  intro t ht
  split
  · apply Keeps.bind (places_block hr)
    intro b hb
    exact .pure (.block hb)
  · apply Keeps.bind places_advance
    intro _ _
    exact .pure (.empty ht)
  · exact places_ifStatement hr
  · exact places_whileStatement hr
  · exact places_doStatement hr
  · exact places_forStatement hr
  · exact places_returnStatement hr
  · apply Keeps.bind places_jump
    intro _ h
    exact .pure (.breakLoop h)
  · apply Keeps.bind places_jump
    intro _ h
    exact .pure (.continueLoop h)
  · exact places_gotoStatement
  · exact places_localDeclaration hr
  · exact places_wordlessStatement hr

/-! ### All rules -/

theorem placing_rules (n : Nat) : (rules n).Placing sort := by
  induction n with
  | zero => exact Rules.placing_none
  | succ n ih => exact {
      statement := .nested places_refuse places_emptyStatement (places_statementBody ih)
      expression := .nested places_refuse places_missingExpression (places_expressionBody ih)
      unary := .nested places_refuse places_missingExpression (places_unaryBody ih)
      type := fun withRanks => .nested places_refuse places_missingType (places_typeBody withRanks ih)
      binaryTail := fun levels least _ _ hs hl => places_binaryTailBody ih levels least hs hl
      postfixTail := fun levels _ _ hs ho => places_postfixTailBody ih levels hs ho
      elements := .nested places_refuse (.pure (by simp)) (places_elementsBody ih)
      continuationBody := .nested places_refuse .absent (.present (places_queryBody ih)) }

end

end CSharpFront.Parser
