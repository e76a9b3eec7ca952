import CSharpFront.Proofs.Parser.Parallel
/-!
Parsers in step. On the same tokens in two layouts a parser goes through the same moments but for
their places: it builds trees that differ in places only, and reports the same things elsewhere.
Where a report is placed may depend on the layout; nothing else that the parser does depends on it.
-/

namespace CSharpFront

namespace Operator

/-- What each token makes together with the one after it. -/
def joints (ts : List Token) : List (Option Punctuator) := List.zipWith joined? ts ts.tail

theorem joints_tail (ts : List Token) : joints ts.tail = (joints ts).tail := by
  rcases ts with _ | ⟨t, _ | ⟨u, ts⟩⟩ <;> rfl

/-- Operators that differ in their places only. -/
structure Relaid (o p : Operator) : Prop where
  kind : o.kind = p.kind
  width : o.width = p.width

theorem Relaid.leaf {o p : Operator} (h : o.Relaid p) : o.leaf.Alike p.leaf := ⟨h.kind, rfl⟩

end Operator

/-! ### Tokens in two layouts -/

theorem Token.Relaid.looksLike {l : Relayout} {t u : Token} (h : t.Relaid l u) : t.LooksLike u :=
  ⟨h.kind, h.contextual?, fun _ => by rw [h.text]⟩

/-- The same tokens in two layouts that have the same operators. -/
structure Relayout.Tokens (l : Relayout) (ts us : List Token) : Prop where
  each : List.Forall₂ (Token.Relaid l) ts us
  joints : Operator.joints ts = Operator.joints us

namespace Relayout.Tokens

variable {l : Relayout} {ts us : List Token} {e e' : Token}

theorem nil (l : Relayout) : l.Tokens [] [] := ⟨.nil, rfl⟩

theorem tail (h : l.Tokens ts us) : l.Tokens ts.tail us.tail := by
  refine ⟨?_, ?_⟩
  · cases h.each with
    | nil => exact .nil
    | cons _ hrest => exact hrest
  · rw [Operator.joints_tail, Operator.joints_tail, h.joints]

theorem headD (h : l.Tokens ts us) (he : e.Relaid l e') :
    (ts.headD e).Relaid l (us.headD e') := by
  cases h.each with
  | nil => exact he
  | cons htu _ => exact htu

theorem alike (h : l.Tokens ts us) : Lookahead.Alike ts us :=
  h.each.imp fun _ _ htu => htu.looksLike

theorem next (h : l.Tokens ts us) (he : e.Relaid l e') :
    (Operator.next e ts).Relaid (Operator.next e' us) := by
  have hj := h.joints
  cases h.each with
  | nil => exact ⟨he.kind, rfl⟩
  | @cons t u ts us htu hrest =>
    cases hrest with
    | nil => exact ⟨htu.kind, rfl⟩
    | cons =>
      have hj := (List.cons.inj hj).1
      simp only [Operator.next, hj]
      split
      · exact ⟨rfl, rfl⟩
      · exact ⟨htu.kind, rfl⟩

end Relayout.Tokens

namespace Parser

variable {l : Rerun}

/-! ### Parsers in step -/

structure Env.Relaid (l : Relayout) (env env' : Env) : Prop where
  endOfFile : env.endOfFile.Relaid l env'.endOfFile
  /-- Where the parser stands once it has given up. -/
  last : l.stops env.endOfFile.start env'.endOfFile.start
  budget : env.budget = env'.budget
  maxDepth : env.maxDepth = env'.maxDepth
  inAsync : env.inAsync = env'.inAsync

structure State.Relaid (l : Rerun) (s s' : State) : Prop where
  rest : l.Tokens s.rest s'.rest
  prevStop : l.stops s.prevStop s'.prevStop
  depth : s.depth = s'.depth
  tooDeep : s.tooDeep = s'.tooDeep
  diagnostics : l.Reports s.diagnostics s'.diagnostics
  polls : s.polls = s'.polls

/-- Two parsers side by side on tokens in two layouts. -/
abbrev InStep (l : Rerun) {α β : Type} (rel : α → β → Prop) (p : P α) (q : P β) : Prop :=
  Parallel (Env.Relaid l) (State.Relaid l) rel p q

/-! ### Elementary steps -/

theorem inStep_current : InStep l (Token.Relaid l) current current :=
  fun _ _ _ _ he hs => ⟨hs.rest.headD he.endOfFile, hs⟩

theorem inStep_refuse : InStep l anyway refuse refuse := by
  apply Parallel.bind .get
  intro s s' hs
  rw [hs.tooDeep]
  refine .ite (.pure trivial) (.next inStep_current fun _ _ => .bind .read fun env env' he => ?_)
  refine .of_modify fun s s' hs => ?_
  exact ⟨.nil l, he.last, hs.depth, rfl, hs.diagnostics.push ⟨rfl, rfl, rfl⟩, hs.polls⟩

theorem State.Relaid.take {s s' : State} {t u : Token} {ts us : List Token} (hs : s.Relaid l s')
    (ht : s.rest = t :: ts) (hu : s'.rest = u :: us) :
    State.Relaid l (s.moveTo { s.toMoment with rest := ts, prevStop := t.stop })
      (s'.moveTo { s'.toMoment with rest := us, prevStop := u.stop }) := by
  have htokens := hs.rest
  rw [ht, hu] at htokens
  obtain ⟨htu, -⟩ := List.forall₂_cons.mp htokens.each
  exact ⟨htokens.tail, htu.stop, hs.depth, hs.tooDeep, hs.diagnostics, hs.polls⟩

instance : Abreast (Env.Relaid l) (State.Relaid l) where
  endOfFile he := he.endOfFile.looksLike
  budget he := he.budget
  maxDepth he := he.maxDepth
  inAsync he := he.inAsync
  withAsync _ he := ⟨he.endOfFile, he.last, he.budget, he.maxDepth, rfl⟩
  rest hs := hs.rest.alike
  depth hs := hs.depth
  tooDeep hs := hs.tooDeep
  polls hs := hs.polls
  take hs ht hu := hs.take ht hu
  setDepth _ hs := ⟨hs.rest, hs.prevStop, rfl, hs.tooDeep, hs.diagnostics, hs.polls⟩
  setRanOut _ _ hs := ⟨hs.rest, hs.prevStop, hs.depth, hs.tooDeep, hs.diagnostics, hs.polls⟩
  setPolls _ hs := ⟨hs.rest, hs.prevStop, hs.depth, hs.tooDeep, hs.diagnostics, rfl⟩
  setNames _ _ hs := ⟨hs.rest, hs.prevStop, hs.depth, hs.tooDeep, hs.diagnostics, hs.polls⟩
  refuse := inStep_refuse

/-- What is made from a token on to the last one that was taken. -/
theorem inStep_rangeFrom {p q : Nat} (h : l.starts p q) :
    InStep l Range.Relaid (rangeFrom p) (rangeFrom q) :=
  .bind .get fun _ _ hs => .pure (l.relaid_max h hs.prevStop)

/-- The range of a node of which nothing is asked. -/
theorem inStep_anyRange {p q : Nat} : InStep l anyway (rangeFrom p) (rangeFrom q) :=
  .look (fun _ _ => rfl) fun _ _ => rfl

theorem inStep_report {message : Message} {span span' : Span} {arguments : List String} :
    InStep l anyway (report message span arguments) (report message span' arguments) := by
  refine .of_modify fun s s' hs => ?_
  rw [hs.tooDeep]
  split
  · exact hs
  · exact ⟨hs.rest, hs.prevStop, hs.depth, hs.tooDeep, hs.diagnostics.push ⟨rfl, rfl, rfl⟩,
      hs.polls⟩

/-- Where something is missing is the one thing that a line break decides. -/
theorem inStep_expectedSpan : InStep l anyway expectedSpan expectedSpan := by
  have h (env : Env) (s : State) : (expectedSpan env s).2 = s := by
    let t := s.rest.headD env.endOfFile
    show ((if t.kind = .endOfFile ∨ t.flags.afterLineBreak then
      (do return .emptyAt (← get).prevStop) else return t.span : P Span) env s).2 = s
    split <;> rfl
  exact .look h h

theorem inStep_reportExpected {kind : TokenKind} {span span' : Span} :
    InStep l anyway (reportExpected kind span) (reportExpected kind span') :=
  inStep_report

theorem inStep_eat (kind : TokenKind) : InStep l Leaf.Alike (eat kind) (eat kind) := by
  apply Parallel.bind inStep_current
  intro t u h
  rw [h.kind]
  refine .ite (.next parallel_advance fun _ _ => .pure ⟨rfl, rfl⟩) ?_
  refine .next inStep_expectedSpan fun _ _ => .next inStep_reportExpected fun _ _ => ?_
  exact .next .get fun _ _ => .pure ⟨rfl, rfl⟩

theorem inStep_take : InStep l Leaf.Alike take take :=
  .bind inStep_current fun _ _ h => .next parallel_advance fun _ _ => .pure ⟨h.kind, rfl⟩

theorem inStep_replace (kind : TokenKind) : InStep l anyway (replace kind) (replace kind) :=
  .next inStep_current fun _ _ => .next inStep_reportExpected fun _ _ => parallel_advance

theorem inStep_eatContextual (word : String) :
    InStep l anyway (eatContextual word) (eatContextual word) := by
  apply Parallel.bind inStep_current
  intro t u h
  rw [h.isContextual]
  refine .ite parallel_advance ?_
  exact .next inStep_expectedSpan fun _ _ => inStep_report

theorem inStep_identifierOf {t u : Token} (h : t.Relaid l u) :
    InStep l (Identifier.Relaid l) (identifierOf t) (identifierOf u) :=
  .next parallel_noteName fun _ _ =>
    .pure ⟨⟨h.text, h.verbatim, rfl⟩, h.range, fun _ => h.start⟩

theorem inStep_identifier : InStep l (Identifier.Relaid l) identifier identifier := by
  apply Parallel.bind inStep_current
  intro t u h
  rw [h.kind]
  refine .ite (.next parallel_advance fun _ _ => inStep_identifierOf h) ?_
  refine .next inStep_expectedSpan fun _ _ => .next inStep_reportExpected fun _ _ => ?_
  refine .next parallel_noteName fun _ _ => .next .get fun _ _ => ?_
  exact .pure (Identifier.relaid_missing ..)

theorem inStep_missingExpression :
    InStep l (Expr.Relaid l) missingExpression missingExpression :=
  .next .get fun _ _ => .pure (.missing ..)

theorem inStep_missingType : InStep l (TypeSyntax.Relaid l) missingType missingType :=
  .next .get fun _ _ => .pure (.missing ..)

theorem inStep_emptyStatement : InStep l (Stmt.Relaid l) emptyStatement emptyStatement :=
  .next .get fun _ _ => .pure (.empty ..)

/-! ### Rules -/

/-- Rules that are in step with themselves. -/
structure Rules.InStep (l : Rerun) (r : Rules) : Prop where
  statement : Parser.InStep l (Stmt.Relaid l) r.statement r.statement
  expression : Parser.InStep l (Expr.Relaid l) r.expression r.expression
  unary : Parser.InStep l (Expr.Relaid l) r.unary r.unary
  type (withRanks : Bool) :
    Parser.InStep l (TypeSyntax.Relaid l) (r.type withRanks) (r.type withRanks)
  binaryTail (levels least : Nat) {p q : Nat} {left left' : Expr} :
    l.starts p q → left.Relaid l left' →
      Parser.InStep l (Expr.Relaid l) (r.binaryTail levels least p left)
        (r.binaryTail levels least q left')
  postfixTail (levels : Nat) {p q : Nat} {operand operand' : Expr} :
    l.starts p q → operand.Relaid l operand' →
      Parser.InStep l (Expr.Relaid l) (r.postfixTail levels p operand)
        (r.postfixTail levels q operand')
  elements : Parser.InStep l (List.Forall₂ (Expr.Relaid l)) r.elements r.elements
  continuationBody :
    Parser.InStep l (Option.Rel (QueryBody.Relaid l)) r.continuationBody r.continuationBody

theorem Rules.inStep_none : Rules.none.InStep l where
  statement := .next parallel_runOut fun _ _ =>
    .next inStep_refuse fun _ _ => inStep_emptyStatement
  expression := .next parallel_runOut fun _ _ =>
    .next inStep_refuse fun _ _ => inStep_missingExpression
  unary := .next parallel_runOut fun _ _ =>
    .next inStep_refuse fun _ _ => inStep_missingExpression
  type _ := .next parallel_runOut fun _ _ =>
    .next inStep_refuse fun _ _ => inStep_missingType
  binaryTail _ _ _ _ _ _ _ h := .next parallel_runOut fun _ _ => .next inStep_refuse fun _ _ =>
    parallel_leaveWith _ h
  postfixTail _ _ _ _ _ _ h := .next parallel_runOut fun _ _ => .next inStep_refuse fun _ _ =>
    parallel_leaveWith _ h
  elements := .next parallel_runOut fun _ _ =>
    .next inStep_refuse fun _ _ => .pure .nil
  continuationBody := .next parallel_runOut fun _ _ =>
    .next inStep_refuse fun _ _ => .absent

/-- The next operator of sufficient rank is the same one. -/
theorem inStep_nextOperator? (least : Nat) :
    InStep l (Option.Rel fun o o' => o.1.Relaid o'.1 ∧ o.2 = o'.2) (nextOperator? least)
      (nextOperator? least) := by
  apply Parallel.bind .read
  intro env env' he
  apply Parallel.bind .get
  intro s s' hs
  have ho := hs.rest.next he.endOfFile
  simp only [ho.kind]
  split
  · exact .ite (.pure (.some ⟨ho, rfl⟩)) .absent
  · exact .absent

variable {r : Rules}

/-! ### Types -/

theorem inStep_rankSpecifiers (p q : Nat) {type type' : TypeSyntax}
    (h : type.Relaid l type') :
    InStep l (TypeSyntax.Relaid l) (rankSpecifiers p type) (rankSpecifiers q type') := by
  refine .loop h fun type type' h => ?_
  apply Parallel.bind .get
  intro s s' hs
  simp only [hs.rest.alike.kind, hs.rest.alike.secondKind]
  refine .ite (.next parallel_advance fun _ _ => .bind .get fun s s' hs => ?_) (.pure (.done h))
  rw [hs.rest.alike.run]
  refine .next (parallel_advanceBy _) fun _ _ => .next (inStep_eat _) fun _ _ => ?_
  exact .next inStep_anyRange fun _ _ => .pure (.yield (.array _ _ _ h))

theorem inStep_simpleName (hr : r.InStep l) :
    InStep l (TypeSyntax.Relaid l) (simpleName r) (simpleName r) := by
  apply Parallel.bind inStep_current
  intro t u _
  apply Parallel.bind inStep_identifier
  intro i i' hi
  apply Parallel.bind .read
  intro env env' he
  apply Parallel.bind .get
  intro s s' hs
  rw [he.maxDepth, hs.rest.alike.startsTypeArguments]
  refine .ite (.next parallel_advance fun _ _ => ?_) (.pure (.name hi))
  refine .bind (parallel_separated (hr.type true)) fun _ _ hts => .next (inStep_eat _) fun _ _ => ?_
  exact .next inStep_anyRange fun _ _ => .pure (.generic _ _ hi hts)

theorem inStep_name (hr : r.InStep l) :
    InStep l (TypeSyntax.Relaid l) (name r) (name r) := by
  apply Parallel.bind inStep_current
  intro t u _
  apply Parallel.bind (inStep_simpleName hr)
  intro first first' hfirst
  refine .loop hfirst fun left left' hleft => ?_
  apply Parallel.bind .get
  intro s s' hs
  simp only [hs.rest.alike.kind, hs.rest.alike.secondKind]
  refine .ite (.next parallel_advance fun _ _ => ?_) (.pure (.done hleft))
  refine .bind (inStep_simpleName hr) fun _ _ hright => ?_
  exact .next inStep_anyRange fun _ _ => .pure (.yield (.qualified _ _ hleft hright))

theorem inStep_typeCore? (hr : r.InStep l) :
    InStep l (Option.Rel (TypeSyntax.Relaid l)) (typeCore? r) (typeCore? r) := by
  apply Parallel.bind inStep_current
  intro t u h
  rw [h.kind]
  split
  · exact .next parallel_advance fun _ _ => .pure (.some (.predefined ..))
  · exact .ite (inStep_name hr).present .absent

theorem inStep_typeBody (withRanks : Bool) (hr : r.InStep l) :
    InStep l (TypeSyntax.Relaid l) (typeBody withRanks r) (typeBody withRanks r) := by
  apply Parallel.bind inStep_current
  intro t u _
  apply Parallel.bind (inStep_typeCore? hr)
  rintro _ _ (hcore | _)
  · have hrest {type type' : TypeSyntax} (h : type.Relaid l type') :
        InStep l (TypeSyntax.Relaid l)
          (if withRanks then rankSpecifiers t.start type else return type)
          (if withRanks then rankSpecifiers u.start type' else return type') :=
      .ite (inStep_rankSpecifiers _ _ h) (.pure h)
    apply Parallel.bind (parallel_accept _)
    rintro accepted _ rfl
    refine .ite ?_ (hrest hcore)
    exact .next inStep_anyRange fun _ _ => hrest (.nullable _ _ hcore)
  · refine .next inStep_expectedSpan fun _ _ => .next inStep_report fun _ _ => ?_
    exact inStep_missingType

end Parser

end CSharpFront
