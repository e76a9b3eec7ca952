import CSharpFront.Proofs.Parser.Keeps
import CSharpFront.Proofs.Syntax.Ranges
import CSharpFront.Proofs.Text.Boundary
/-!
Where the parser places what it builds and what it reports. Offsets of one sort go in, those of the
tokens, and no others come out: every range of the tree and every span that is reported begins and
ends at such an offset. The sort may be anything; of the boundaries of a text it says that the
parser never cuts a character.
-/

namespace CSharpFront.Parser

variable {sort : Nat → Prop}

/-- All places that a parser can get at are of one sort, and nobody will cancel it. -/
structure Placed (sort : Nat → Prop) (env : Env) (s : State) : Prop where
  endOfFile : env.endOfFile.range.On sort
  rest : ∀ t ∈ s.rest, t.range.On sort
  prevStop : sort s.prevStop
  diagnostics : ∀ d ∈ s.diagnostics, d.span.On sort
  polls : s.polls = none

instance : Blind (Placed sort) :=
  ⟨fun _ hs => ⟨hs.endOfFile, hs.rest, hs.prevStop, hs.diagnostics, hs.polls⟩,
    fun _ hs => ⟨hs.endOfFile, hs.rest, hs.prevStop, hs.diagnostics, hs.polls⟩⟩

/-- A parser that gets at no other places and puts none into its results. -/
abbrev Places {α : Type} (sort : Nat → Prop) (p : P α) (post : α → Prop) : Prop :=
  Keeps (Placed sort) p post

/-! ### Elementary steps -/

theorem places_current : Places sort current fun t => t.range.On sort := by
  intro env s hs
  refine ⟨?_, hs⟩
  show (s.rest.headD env.endOfFile).range.On sort
  cases h : s.rest with
  | nil => exact hs.endOfFile
  | cons t rest => exact hs.rest t (by simp [h])

theorem places_currentKind : Places sort currentKind fun _ => True :=
  places_current.map fun _ _ => trivial

theorem places_advance : Places sort advance fun _ => True := by
  refine .of_modify fun env s hs => ?_
  cases h : s.rest with
  | nil => exact hs
  | cons t rest =>
    have hrest := List.forall_mem_cons.mp (h ▸ hs.rest)
    exact ⟨hs.endOfFile, hrest.2, hrest.1.stop, hs.diagnostics, hs.polls⟩

theorem places_advanceBy (n : Nat) : Places sort (advanceBy n) fun _ => True := by
  induction n with
  | zero => exact .pure trivial
  | succ n ih => exact .bind places_advance fun _ _ => ih

theorem places_rangeFrom {start : Nat} (h : sort start) :
    Places sort (rangeFrom start) (Range.On sort) := by
  apply Keeps.bind .get
  rintro s ⟨_, hs⟩
  refine .pure ⟨h, ?_⟩
  rcases Nat.le_total s.prevStop start with hle | hle
  · rw [Nat.max_eq_right hle]
    exact h
  · rw [Nat.max_eq_left hle]
    exact hs.prevStop

/-- One more report at places of the sort. -/
theorem forall_mem_push {ds : Array Diagnostic} (hds : ∀ d ∈ ds, d.span.On sort)
    {message : Message} {span : Span} {arguments : List String} (h : span.On sort) :
    ∀ d ∈ ds.push (.of message span arguments), d.span.On sort := by
  intro d hd
  rcases Array.mem_push.mp hd with hd | rfl
  · exact hds d hd
  · exact h

theorem places_report (message : Message) {span : Span} (h : span.On sort)
    (arguments : List String) : Places sort (report message span arguments) fun _ => True := by
  refine .of_modify fun env s hs => ?_
  split
  · exact hs
  · exact ⟨hs.endOfFile, hs.rest, hs.prevStop, forall_mem_push hs.diagnostics h, hs.polls⟩

theorem places_expectedSpan : Places sort expectedSpan (Span.On sort) := by
  apply Keeps.bind places_current
  intro t ht
  refine .ite (fun _ => ?_) fun _ => .pure ht.toSpan
  apply Keeps.bind .get
  rintro s ⟨_, hs⟩
  exact .pure (Span.on_emptyAt hs.prevStop)

theorem places_reportExpected (kind : TokenKind) {span : Span} (h : span.On sort) :
    Places sort (reportExpected kind span) fun _ => True :=
  places_report _ h _

theorem places_eat (kind : TokenKind) : Places sort (eat kind) fun o => o.range.On sort := by
  apply Keeps.bind places_current
  intro t ht
  refine .ite (fun _ => ?_) fun _ => ?_
  · apply Keeps.bind places_advance
    intro _ _
    exact .pure ht
  · apply Keeps.bind places_expectedSpan
    intro span hspan
    apply Keeps.bind (places_reportExpected kind hspan)
    intro _ _
    apply Keeps.bind .get
    rintro s ⟨_, hs⟩
    exact .pure (Range.on_emptyAt hs.prevStop)

theorem places_accept (kind : TokenKind) : Places sort (accept kind) fun _ => True := by
  apply Keeps.bind places_currentKind
  intro _ _
  refine .ite (fun _ => ?_) fun _ => .pure trivial
  apply Keeps.bind places_advance
  intro _ _
  exact .pure trivial

theorem places_take : Places sort take fun o => o.range.On sort :=
  .bind places_current fun _ ht => .bind places_advance fun _ _ => .pure ht

theorem places_replace (kind : TokenKind) : Places sort (replace kind) fun _ => True :=
  .bind places_current fun _ ht =>
    .bind (places_reportExpected kind ht.toSpan) fun _ _ => places_advance

theorem places_eatContextual (word : String) :
    Places sort (eatContextual word) fun _ => True := by
  apply Keeps.bind places_current
  intro _ _
  refine .ite (fun _ => places_advance) fun _ => ?_
  apply Keeps.bind places_expectedSpan
  intro _ hspan
  exact places_report _ hspan _

theorem places_noteName (name : String) : Places sort (noteName name) fun _ => True :=
  .of_modify fun _ _ hs => ⟨hs.endOfFile, hs.rest, hs.prevStop, hs.diagnostics, hs.polls⟩

theorem places_identifierOf {t : Token} (ht : t.range.On sort) :
    Places sort (identifierOf t) fun i => i.range.On sort :=
  .bind (places_noteName _) fun _ _ => .pure ht

theorem places_identifier : Places sort identifier fun i => i.range.On sort := by
  apply Keeps.bind places_current
  intro t ht
  refine .ite (fun _ => ?_) fun _ => ?_
  · apply Keeps.bind places_advance
    intro _ _
    exact places_identifierOf ht
  · apply Keeps.bind places_expectedSpan
    intro span hspan
    apply Keeps.bind (places_reportExpected _ hspan)
    intro _ _
    apply Keeps.bind (places_noteName _)
    intro _ _
    apply Keeps.bind .get
    rintro s ⟨_, hs⟩
    exact .pure (Range.on_emptyAt hs.prevStop)

theorem places_missingExpression : Places sort missingExpression (Expr.Ranges (Range.On sort)) :=
  .bind .get fun _ ⟨_, hs⟩ => .pure (.missing (Range.on_emptyAt hs.prevStop))

theorem places_missingType : Places sort missingType (TypeSyntax.Ranges (Range.On sort)) :=
  .bind .get fun _ ⟨_, hs⟩ => .pure (.missing (Range.on_emptyAt hs.prevStop))

theorem places_emptyStatement : Places sort emptyStatement (Stmt.Ranges (Range.On sort)) :=
  .bind .get fun _ ⟨_, hs⟩ => .pure (.empty (Range.on_emptyAt hs.prevStop))

/-- Giving up drops all tokens, so that what follows stands at the end of the file. -/
theorem places_refuse : Places sort refuse fun _ => True := by
  apply Keeps.bind .get
  intro _ _
  refine .ite (fun _ => .pure trivial) fun _ => ?_
  apply Keeps.bind places_current
  intro t ht
  apply Keeps.bind .read
  rintro env ⟨_, hs⟩
  refine .of_modify fun env' s' hs' => ?_
  refine ⟨hs'.endOfFile, by simp [State.moveTo], hs.endOfFile.start, ?_, hs'.polls⟩
  exact forall_mem_push hs'.diagnostics ht.toSpan

theorem places_afterCommas {α : Type} {item : P α} {post : α → Prop}
    (hi : Places sort item post) : Places sort (afterCommas item) fun as => ∀ a ∈ as, post a := by
  refine .many (.bind (places_accept _) fun _ _ => .ite (fun _ => ?_) fun _ => .absent)
  exact .present hi

theorem places_separated {α : Type} {item : P α} {post : α → Prop}
    (hi : Places sort item post) : Places sort (separated item) fun as => ∀ a ∈ as, post a := by
  apply Keeps.bind hi
  intro a ha
  apply Keeps.bind (places_afterCommas hi)
  intro as has
  exact .pure (List.forall_mem_cons.mpr ⟨ha, has⟩)

/-! ### Rules -/

/-- Rules that place what they build and report. -/
structure Rules.Placing (sort : Nat → Prop) (r : Rules) : Prop where
  statement : Places sort r.statement (Stmt.Ranges (Range.On sort))
  expression : Places sort r.expression (Expr.Ranges (Range.On sort))
  unary : Places sort r.unary (Expr.Ranges (Range.On sort))
  type (withRanks : Bool) : Places sort (r.type withRanks) (TypeSyntax.Ranges (Range.On sort))
  binaryTail (levels least : Nat) {start : Nat} {left : Expr} :
    sort start → left.Ranges (Range.On sort) →
      Places sort (r.binaryTail levels least start left) (Expr.Ranges (Range.On sort))
  postfixTail (levels : Nat) {start : Nat} {operand : Expr} :
    sort start → operand.Ranges (Range.On sort) →
      Places sort (r.postfixTail levels start operand) (Expr.Ranges (Range.On sort))
  elements : Places sort r.elements fun es => ∀ e ∈ es, e.Ranges (Range.On sort)
  continuationBody : Places sort r.continuationBody fun b? => ∀ b ∈ b?, b.Ranges (Range.On sort)

theorem Operator.range_on_next {sort : Nat → Prop} {endOfFile : Token} {ts : List Token}
    (he : endOfFile.range.On sort) (ht : ∀ t ∈ ts, t.range.On sort) :
    (Operator.next endOfFile ts).range.On sort := by
  unfold Operator.next
  split
  · exact he
  · exact ht _ (by simp)
  next t u _ =>
    have h₁ := ht t (by simp)
    have h₂ := ht u (by simp)
    split
    · exact ⟨h₁.start, h₂.stop⟩
    · exact h₁

theorem places_nextOperator? (least : Nat) :
    Places sort (nextOperator? least) fun o? => ∀ o ∈ o?, o.1.range.On sort := by
  apply Keeps.bind .read
  rintro env ⟨s₁, hs₁⟩
  apply Keeps.bind .get
  rintro s ⟨_, hs⟩
  have ho := Operator.range_on_next hs₁.endOfFile hs.rest
  dsimp only
  split
  · refine .ite (fun _ => .pure ?_) fun _ => .absent
    rintro _ ⟨rfl⟩
    exact ho
  · exact .absent

theorem Rules.placing_none : Rules.none.Placing sort where
  statement := .bind .runOut fun _ _ => .bind places_refuse fun _ _ => places_emptyStatement
  expression := .bind .runOut fun _ _ => .bind places_refuse fun _ _ => places_missingExpression
  unary := .bind .runOut fun _ _ => .bind places_refuse fun _ _ => places_missingExpression
  type _ := .bind .runOut fun _ _ => .bind places_refuse fun _ _ => places_missingType
  binaryTail _ _ _ _ _ hl := .bind .runOut fun _ _ => .bind places_refuse fun _ _ =>
    .bind (.leave _) fun _ _ => .pure hl
  postfixTail _ _ _ _ ho := .bind .runOut fun _ _ => .bind places_refuse fun _ _ =>
    .bind (.leave _) fun _ _ => .pure ho
  elements := .bind .runOut fun _ _ => .bind places_refuse fun _ _ => .pure (by simp)
  continuationBody := .bind .runOut fun _ _ => .bind places_refuse fun _ _ => .absent

variable {r : Rules}

/-! ### Types -/

theorem places_rankSpecifiers {start : Nat} (hs : sort start) {type : TypeSyntax}
    (ht : type.Ranges (Range.On sort)) :
    Places sort (rankSpecifiers start type) (TypeSyntax.Ranges (Range.On sort)) := by
  refine .loop _ ht fun type ht => ?_
  apply Keeps.bind .get
  intro s _
  refine .ite (fun _ => ?_) fun _ => .pure ht
  apply Keeps.bind places_advance
  intro _ _
  apply Keeps.bind .get
  intro _ _
  apply Keeps.bind (places_advanceBy _)
  intro _ _
  apply Keeps.bind (places_eat _)
  intro _ _
  apply Keeps.bind (places_rangeFrom hs)
  intro _ hr
  exact .pure (.array _ hr ht)

theorem places_simpleName (hr : r.Placing sort) :
    Places sort (simpleName r) (TypeSyntax.Ranges (Range.On sort)) := by
  apply Keeps.bind places_current
  intro t ht
  apply Keeps.bind places_identifier
  intro i hi
  apply Keeps.bind .read
  intro _ _
  apply Keeps.bind .get
  intro _ _
  refine .ite (fun _ => ?_) fun _ => .pure (.name hi)
  apply Keeps.bind places_advance
  intro _ _
  apply Keeps.bind (places_separated (hr.type true))
  intro ts hts
  apply Keeps.bind (places_eat _)
  intro _ _
  apply Keeps.bind (places_rangeFrom ht.start)
  intro _ hr
  exact .pure (.generic hr hi hts)

theorem places_name (hr : r.Placing sort) :
    Places sort (name r) (TypeSyntax.Ranges (Range.On sort)) := by
  apply Keeps.bind places_current
  intro t ht
  apply Keeps.bind (places_simpleName hr)
  intro first hf
  refine .loop _ hf fun left hl => ?_
  apply Keeps.bind .get
  intro _ _
  refine .ite (fun _ => ?_) fun _ => .pure hl
  apply Keeps.bind places_advance
  intro _ _
  apply Keeps.bind (places_simpleName hr)
  intro right hright
  apply Keeps.bind (places_rangeFrom ht.start)
  intro _ hr
  exact .pure (.qualified hr hl hright)

theorem places_typeCore? (hr : r.Placing sort) :
    Places sort (typeCore? r) fun t? => ∀ t ∈ t?, t.Ranges (Range.On sort) := by
  apply Keeps.bind places_current
  intro t ht
  split
  next s _ =>
    apply Keeps.bind places_advance
    intro _ _
    refine .pure ?_
    rintro _ ⟨rfl⟩
    exact .predefined s ht
  · refine .ite (fun _ => ?_) fun _ => .absent
    exact .present (places_name hr)

theorem places_typeBody (withRanks : Bool) (hr : r.Placing sort) :
    Places sort (typeBody withRanks r) (TypeSyntax.Ranges (Range.On sort)) := by
  apply Keeps.bind places_current
  intro t ht
  apply Keeps.bind (places_typeCore? hr)
  intro core? hc
  split
  · apply Keeps.bind places_expectedSpan
    intro _ hspan
    apply Keeps.bind (places_report _ hspan _)
    intro _ _
    exact places_missingType
  next core =>
    have hc := hc core rfl
    have hrest {type : TypeSyntax} (h : type.Ranges (Range.On sort)) :
        Places sort (if withRanks then rankSpecifiers t.start type else return type)
          (TypeSyntax.Ranges (Range.On sort)) :=
      .ite (fun _ => places_rankSpecifiers ht.start h) fun _ => .pure h
    apply Keeps.bind (places_accept _)
    intro _ _
    refine .ite (fun _ => ?_) fun _ => hrest hc
    apply Keeps.bind (places_rangeFrom ht.start)
    intro _ hr
    exact hrest (.nullable hr hc)

end CSharpFront.Parser
