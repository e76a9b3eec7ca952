import CSharpFront.Lexer.Scanner
import CSharpFront.Proofs.Parser.NestingLimit
/-!
What a failed expression shows. A name, a type, an operand or the ending of a query that is missing
stands in the tree as a part that was made up. A missing token does not, and neither do the missing
arguments of `new`. So all that is reported on an expression without made-up parts is about these.
-/

namespace CSharpFront

/-- Whether a message is about something missing that the tree has no part for. -/
def Message.isTraceless : Message → Bool
  | .tokenExpected | .semicolonExpected | .closeParenExpected | .openBraceExpected
  | .closeBraceExpected | .newNeedsArguments => true
  | _ => false

-- what is missing is found by these equations in all that follows
attribute [local simp] Expr.containsMissing Expr.anyMissing TypeSyntax.containsMissing
  TypeSyntax.anyMissing Initializer.containsMissing FromClause.containsMissing
  SortKey.containsMissing SortKey.anyMissing QueryClause.containsMissing QueryClause.anyMissing
  QueryEnding.containsMissing QueryBody.containsMissing Continuation.containsMissing or_assoc

@[simp] theorem Expr.any_containsMissing (es : List Expr) :
    es.any Expr.containsMissing = Expr.anyMissing es := by
  induction es with
  | nil => rfl
  | cons e es ih => simp [ih]

@[simp] theorem TypeSyntax.any_containsMissing (ts : List TypeSyntax) :
    ts.any TypeSyntax.containsMissing = TypeSyntax.anyMissing ts := by
  induction ts with
  | nil => rfl
  | cons t ts ih => simp [ih]

@[simp] theorem SortKey.any_containsMissing (ks : List SortKey) :
    ks.any SortKey.containsMissing = SortKey.anyMissing ks := by
  induction ks with
  | nil => rfl
  | cons k ks ih => simp [ih]

@[simp] theorem QueryClause.any_containsMissing (qs : List QueryClause) :
    qs.any QueryClause.containsMissing = QueryClause.anyMissing qs := by
  induction qs with
  | nil => rfl
  | cons q qs ih => simp [ih]

namespace Parser

variable {since : List Diagnostic} {before : Bool} {r : Rules}

/-- All that has been reported since is traceless, as long as the nesting limit was not hit. -/
def Traceless (since : List Diagnostic) (s : State) : Prop :=
  s.tooDeep = true ∨
    ∃ more, s.diagnostics.toList = since ++ more ∧ ∀ d ∈ more, d.message.isTraceless = true

theorem Traceless.start (s : State) : Traceless s.diagnostics.toList s :=
  .inr ⟨[], (List.append_nil _).symm, nofun⟩

/-- A parser such that something was made up by its end, as told by its result, or all reports since
are traceless, if so it was before. -/
def Traces (since : List Diagnostic) (before : Bool) {α : Type} (p : P α) (made : α → Bool) :
    Prop :=
  ∀ env s, before = true ∨ Traceless since s →
    made (p env s).1 = true ∨ Traceless since (p env s).2

/-- A parser that makes nothing up and reports only what is traceless. -/
abbrev Blank (since : List Diagnostic) {α : Type} (p : P α) : Prop :=
  ∀ before, Traces since before p fun _ => before

namespace Traces

variable {α β : Type} {p q : P α} {made : α → Bool} {after : β → Bool}

theorem pure {a : α} (h : before = true → made a = true) :
    Traces since before (Pure.pure a) made :=
  fun _ _ => Or.imp_left h

theorem bind {f : α → P β} (hp : Traces since before p made)
    (hf : ∀ a, Traces since (made a) (f a) after) : Traces since before (p >>= f) after :=
  fun env s hs => hf _ env _ (hp env s hs)

/-- A step that leaves things as they are. -/
theorem next {f : α → P β} (hp : Blank since p) (hf : ∀ a, Traces since before (f a) after) :
    Traces since before (p >>= f) after :=
  bind (hp before) hf

theorem imp {made' : α → Bool} (hp : Traces since before p made)
    (h : ∀ a, made a = true → made' a = true) : Traces since before p made' :=
  fun env s hs => (hp env s hs).imp_left (h _)

/-- The same from where more has been made up. -/
theorem mono {before' : Bool} (hp : Traces since before' p made)
    (h : before = true → before' = true) : Traces since before p made :=
  fun env s hs => hp env s (hs.imp_left h)

theorem map {f : α → β} (hp : Traces since before p made)
    (h : ∀ a, made a = true → after (f a) = true) : Traces since before (f <$> p) after :=
  hp.bind fun a => .pure (h a)

/-- Nothing need be known of a step before a part that is made up. -/
theorem any : Traces since before p fun _ => true := fun _ _ _ => .inl rfl

theorem lost {f : α → P β} (hf : ∀ a, Traces since true (f a) after) :
    Traces since before (p >>= f) after :=
  any.bind hf

theorem ite {c : Prop} [Decidable c] (hp : Traces since before p made)
    (hq : Traces since before q made) : Traces since before (if c then p else q) made := by
  split
  · exact hp
  · exact hq

/-- Two ways to come to the same last step. -/
theorem iteBind {c : Prop} [Decidable c] {f : α → P β} (hp : Traces since before p made)
    (hq : Traces since before q made) (hf : ∀ a, Traces since (made a) (f a) after) :
    Traces since before (if c then p >>= f else q >>= f) after :=
  .ite (hp.bind hf) (hq.bind hf)

/-- A step that reports nothing. -/
theorem of_eq (hd : ∀ env s, (p env s).2.diagnostics = s.diagnostics)
    (ht : ∀ env s, (p env s).2.tooDeep = s.tooDeep) : Blank since p := by
  refine fun _ env s hs => hs.imp_right ?_
  rw [Traceless, Traceless, hd, ht]
  exact id

theorem get : Blank since (MonadState.get : P State) := of_eq (fun _ _ => rfl) fun _ _ => rfl

theorem read : Blank since (MonadReader.read : P Env) := of_eq (fun _ _ => rfl) fun _ _ => rfl

/-! ### Loops -/

theorem runOut : Blank since (runOut : P Unit) := of_eq (fun _ _ => rfl) fun _ _ => rfl

theorem iterate {step : α → P (ForInStep α)}
    (hs : ∀ a, Traces since (made a) (step a) (made ·.value)) (n : Nat) (a : α) :
    Traces since (made a) (iterate step n a) made := by
  induction n generalizing a with
  | zero => exact .next runOut fun _ => .pure id
  | succ n ih =>
    refine bind (hs a) fun result => ?_
    cases result with
    | done b => exact .pure id
    | yield b => exact ih b

theorem loop {step : α → P (ForInStep α)} {a : α} (ha : made a = before)
    (hs : ∀ a, Traces since (made a) (step a) (made ·.value)) :
    Traces since before (loop a step) made :=
  .next read fun _ => ha ▸ .iterate hs _ a

/-- Items that a loop gathers with the last one first. -/
theorem gather {step : List α → P (ForInStep (List α))} {own : α → Bool}
    (hs : ∀ as, Traces since (before || as.any own) (step as)
      fun result => before || result.value.any own) :
    Traces since before (do let as ← Parser.loop [] step; return as.reverse)
      fun as => before || as.any own :=
  .map (.loop (by simp) hs) fun as => by simp

theorem many {item : P (Option α)} {own : α → Bool}
    (hi : ∀ before, Traces since before item fun a? => before || a?.any own) :
    Traces since before (many item) fun as => before || as.any own := by
  refine gather fun as => .bind (hi _) fun a? => ?_
  cases a? with
  | none => exact .pure (by simp)
  | some a => exact .pure (by simp [or_comm, or_left_comm])

end Traces

/-! ### Elementary steps -/

theorem blank_current : Blank since current := .of_eq (fun _ _ => rfl) fun _ _ => rfl

theorem blank_currentKind : Blank since currentKind := .of_eq (fun _ _ => rfl) fun _ _ => rfl

theorem blank_advance : Blank since advance := by
  refine .of_eq (fun env s => ?_) fun env s => ?_ <;>
  · obtain ⟨⟨rest, _⟩, _⟩ := s
    cases rest <;> rfl

theorem blank_advanceBy (n : Nat) : Blank since (advanceBy n) := by
  intro before
  induction n with
  | zero => exact .pure id
  | succ n ih => exact .next blank_advance fun _ => ih

theorem blank_rangeFrom (start : Nat) : Blank since (rangeFrom start) :=
  .of_eq (fun _ _ => rfl) fun _ _ => rfl

theorem blank_report {message : Message} (hm : message.isTraceless = true) {span : Span}
    {arguments : List String} : Blank since (report message span arguments) := by
  refine fun _ env s hs => hs.imp_right fun hs => ?_
  show Traceless since (if s.tooDeep then s else s.moveTo { s.toMoment with
    diagnostics := s.diagnostics.push (.of message span arguments) })
  split
  · exact hs
  next hdeep =>
    rcases hs with hs | ⟨more, hmore, htraceless⟩
    · exact absurd hs hdeep
    · refine .inr ⟨more ++ [.of message span arguments], ?_, ?_⟩
      · simp [State.moveTo, hmore]
      · intro d hd
        rcases List.mem_append.mp hd with hd | hd
        · exact htraceless d hd
        · rw [List.mem_singleton.mp hd]
          exact hm

theorem blank_expectedSpan : Blank since expectedSpan :=
  fun _ => .next blank_current fun _ => .ite (.next .get fun _ => .pure id) (.pure id)

theorem isTraceless_expectedMessage {kind : TokenKind} (hk : kind ≠ .identifier) :
    (expectedMessage kind).1.isTraceless = true := by
  unfold expectedMessage
  split
  all_goals first | rfl | exact absurd rfl hk

/-- A token other than a name leaves no trace where it is missing. -/
theorem blank_eat {kind : TokenKind} (hk : kind ≠ .identifier) : Blank since (eat kind) := by
  refine fun _ => .next blank_current fun t => .ite ?_ ?_
  · exact .next blank_advance fun _ => .pure id
  · refine .next blank_expectedSpan fun _ => .next ?_ fun _ => .next .get fun _ => .pure id
    exact blank_report (isTraceless_expectedMessage hk)

theorem blank_accept (kind : TokenKind) : Blank since (accept kind) :=
  fun _ => .next blank_currentKind fun _ =>
    .ite (.next blank_advance fun _ => .pure id) (.pure id)

theorem blank_take : Blank since take :=
  fun _ => .next blank_current fun _ => .next blank_advance fun _ => .pure id

theorem blank_eatContextual (word : String) : Blank since (eatContextual word) :=
  fun _ => .next blank_current fun _ => .ite (blank_advance _)
    (.next blank_expectedSpan fun _ => blank_report rfl _)

theorem blank_noteName (name : String) : Blank since (noteName name) :=
  .of_eq (fun _ _ => rfl) fun _ _ => rfl

theorem blank_identifierOf (t : Token) : Blank since (identifierOf t) :=
  fun _ => .next (blank_noteName _) fun _ => .pure id

theorem traces_identifier : Traces since before identifier fun i => before || i.isMissing := by
  refine .next blank_current fun t => .ite ?_ (.lost fun _ => .lost fun _ => .lost fun _ => ?_)
  · exact .next blank_advance fun _ => .next (blank_noteName _) fun _ => .pure (by simp)
  · exact .lost fun _ => .pure (by simp [Identifier.missing])

theorem traces_missingExpression :
    Traces since before missingExpression Expr.containsMissing :=
  .lost fun _ => .pure (by simp)

theorem traces_missingType : Traces since before missingType TypeSyntax.containsMissing :=
  .lost fun _ => .pure (by simp)

section

variable {α : Type} {item : P α} {own : α → Bool}

theorem traces_afterCommas
    (hi : ∀ before, Traces since before item fun a => before || own a) :
    Traces since before (afterCommas item) fun as => before || as.any own :=
  .many fun before => .next (blank_accept _) fun _ =>
    .ite ((hi before).map fun _ => id) (.pure (by simp))

theorem traces_separated (hi : ∀ before, Traces since before item fun a => before || own a) :
    Traces since before (separated item) fun as => before || as.any own :=
  .bind (hi before) fun _ => .bind (traces_afterCommas hi) fun _ => .pure (by simp)

end

/-! ### Levels -/

/-- Whoever gives up has hit the limit. -/
theorem traces_refuse : Traces since before refuse fun _ => false := by
  refine fun env s _ => .inr (.inl ?_)
  cases h : s.tooDeep with
  | false => rw [refuse_apply h]; rfl
  | true =>
    have hrun : refuse env s = ((), s) := by
      show (if s.tooDeep then _ else _ : P Unit) env s = _
      rw [if_pos h]
      rfl
    rw [hrun, h]

/-- Where no level could be entered, the limit has been hit. -/
theorem traces_enter : Traces since before enter fun entered => entered && before := by
  intro env s hs
  cases h : s.tooDeep with
  | true =>
    rw [enter_of_tooDeep h]
    exact .inr (.inl h)
  | false =>
    rcases Nat.lt_or_ge s.depth env.maxDepth with hd | hd
    · rw [enter_of_lt h hd]
      exact hs
    · rw [enter_of_le h hd]
      exact traces_refuse env s hs

theorem blank_leave (levels : Nat) : Blank since (leave levels) :=
  .of_eq (fun _ _ => rfl) fun _ _ => rfl

theorem traces_nested {α : Type} {refused p : P α} {made : α → Bool}
    (hr : Traces since false refused made) (hp : Traces since before p made) :
    Traces since before (nested refused p) made := by
  refine .bind traces_enter fun entered => ?_
  cases entered with
  | true => exact .bind hp fun _ => .next (blank_leave 1) fun _ => .pure id
  | false => exact hr

/-- Rules such that the result tells what was made up. -/
structure Rules.Trace (since : List Diagnostic) (r : Rules) : Prop where
  expression (before : Bool) :
    Traces since before r.expression fun e => before || e.containsMissing
  unary (before : Bool) : Traces since before r.unary fun e => before || e.containsMissing
  type (before : Bool) (withRanks : Bool) :
    Traces since before (r.type withRanks) fun t => before || t.containsMissing
  binaryTail (before : Bool) (levels least start : Nat) (left : Expr) :
    Traces since (before || left.containsMissing) (r.binaryTail levels least start left)
      fun e => before || e.containsMissing
  postfixTail (before : Bool) (levels start : Nat) (operand : Expr) :
    Traces since (before || operand.containsMissing) (r.postfixTail levels start operand)
      fun e => before || e.containsMissing
  elements (before : Bool) : Traces since before r.elements fun es => before || Expr.anyMissing es
  /-- Without a result the nesting limit was hit. -/
  continuationBody (before : Bool) :
    Traces since before r.continuationBody fun b? => b?.any (before || ·.containsMissing)

/-! ### Types -/

theorem traces_rankSpecifiers (start : Nat) (type : TypeSyntax) :
    Traces since (before || type.containsMissing) (rankSpecifiers start type)
      fun t => before || t.containsMissing := by
  refine .loop rfl fun type => .next .get fun _ => .ite ?_ (.pure id)
  refine .next blank_advance fun _ => .next .get fun _ => .next (blank_advanceBy _) fun _ => ?_
  exact .next (blank_eat nofun) fun _ => .next (blank_rangeFrom _) fun _ => .pure (by simp)

theorem traces_simpleName (hr : r.Trace since) :
    Traces since before (simpleName r) fun t => before || t.containsMissing := by
  refine .next blank_current fun _ => .bind traces_identifier fun i => ?_
  refine .next .read fun _ => .next .get fun _ => .ite ?_ (.pure (by simp))
  refine .next blank_advance fun _ => .bind (traces_separated fun _ => hr.type _ true) fun _ => ?_
  exact .next (blank_eat nofun) fun _ => .next (blank_rangeFrom _) fun _ => .pure (by simp)

theorem traces_name (hr : r.Trace since) :
    Traces since before (name r) fun t => before || t.containsMissing := by
  refine .next blank_current fun _ => .bind (traces_simpleName hr) fun first => ?_
  refine .loop rfl fun left => .next .get fun _ => .ite ?_ (.pure id)
  refine .next blank_advance fun _ => .bind (traces_simpleName hr) fun _ => ?_
  exact .next (blank_rangeFrom _) fun _ => .pure (by simp)

theorem traces_typeCore? (hr : r.Trace since) :
    Traces since before (typeCore? r) fun t? => before || t?.any TypeSyntax.containsMissing := by
  refine .next blank_current fun t => ?_
  split
  · exact .next blank_advance fun _ => .pure (by simp)
  · exact .ite ((traces_name hr).map fun _ => id) (.pure (by simp))

theorem traces_typeBody (hr : r.Trace since) (withRanks : Bool) :
    Traces since before (typeBody withRanks r) fun t => before || t.containsMissing := by
  refine .next blank_current fun t => .bind (traces_typeCore? hr) fun core? => ?_
  cases core? with
  | none => exact .lost fun _ => .lost fun _ => traces_missingType.imp fun _ => by simp_all
  | some core =>
    have hrest (type : TypeSyntax) (h : type.containsMissing = core.containsMissing) :
        Traces since (before || core.containsMissing)
          (if withRanks then rankSpecifiers t.start type else return type)
          fun t => before || t.containsMissing :=
      .ite (h ▸ traces_rankSpecifiers _ type) (.pure (by simp [h]))
    refine .next (blank_accept _) fun _ => .ite ?_ (hrest core rfl)
    exact .next (blank_rangeFrom _) fun _ => hrest _ (by simp)

/-! ### Lists of expressions -/

theorem traces_initializer (hr : r.Trace since) :
    Traces since before (initializer r) fun i => before || i.containsMissing := by
  refine .next blank_current fun _ => .next (blank_eat nofun) fun _ => ?_
  refine .bind (hr.elements _) fun _ => .next (blank_eat nofun) fun _ => ?_
  exact .next (blank_rangeFrom _) fun _ => .pure (by simp)

theorem traces_element (hr : r.Trace since) :
    Traces since before (element r) fun e => before || e.containsMissing :=
  .next blank_currentKind fun _ =>
    .ite ((traces_initializer hr).map fun _ => by simp) (hr.expression _)

theorem traces_elementsBody (hr : r.Trace since) :
    Traces since before (elementsBody r) fun es => before || Expr.anyMissing es := by
  have hloop : Traces since before (elementsBody r)
      fun es => before || es.any Expr.containsMissing := by
    refine .gather fun es => .next blank_currentKind fun _ => .ite (.pure id) ?_
    refine .bind (traces_element hr) fun _ => .next (blank_accept _) fun _ => ?_
    exact .ite (.pure (by simp [or_comm])) (.pure (by simp [or_comm]))
  exact hloop.imp fun _ => by simp

theorem traces_optionalInitializer (hr : r.Trace since) :
    Traces since before (optionalInitializer r)
      fun i? => before || i?.any Initializer.containsMissing :=
  .next blank_currentKind fun _ =>
    .ite ((traces_initializer hr).map fun _ => id) (.pure (by simp))

theorem traces_argument (hr : r.Trace since) :
    Traces since before (argument r) fun e => before || e.containsMissing :=
  .next blank_currentKind fun _ =>
    .ite (.next blank_advance fun _ => hr.expression _) (hr.expression _)

theorem traces_arguments (hr : r.Trace since) (opening closing : Punctuator) :
    Traces since before (arguments r opening closing)
      fun es => before || Expr.anyMissing es := by
  have hlast (es : List Expr) : Traces since (before || es.any Expr.containsMissing)
      (do let _ ← eat (.punct closing); return es) fun es => before || Expr.anyMissing es :=
    .next (blank_eat nofun) fun _ => .pure (by simp)
  refine .next (blank_eat nofun) fun _ => .next blank_currentKind fun _ => ?_
  exact .iteBind (.pure (by simp)) (traces_separated fun _ => traces_argument hr) hlast

/-! ### Operands -/

theorem traces_sizes (hr : r.Trace since) :
    Traces since before (sizes r) fun s => before || Expr.anyMissing s.1 := by
  let made (s : List Expr × Nat) := before || s.1.any Expr.containsMissing
  have hloop {step : List Expr × Nat → P (ForInStep (List Expr × Nat))}
      (hs : ∀ s, Traces since (made s) (step s) (made ·.value)) :
      Traces since before (loop ([], 1) step >>= fun s => pure (s.1.reverse, s.2))
        fun s => before || Expr.anyMissing s.1 := by
    have hs : Traces since before (loop ([], 1) step) made := .loop (by simp [made]) hs
    exact hs.bind fun _ => .pure (by simp [made, ← Expr.any_containsMissing])
  refine hloop fun s => .next blank_currentKind fun _ => .ite (.pure id) (.ite ?_ ?_)
  · exact .next blank_advance fun _ => .pure id
  · refine .bind (hr.expression _) fun _ => .next (blank_accept _) fun _ => ?_
    exact .ite (.pure (by simp [made, or_comm])) (.pure (by simp [made, or_comm]))

theorem traces_arrayCreationRest (hr : r.Trace since) (start : Nat) (element : TypeSyntax) :
    Traces since (before || element.containsMissing) (arrayCreationRest r start element)
      fun e => before || e.containsMissing := by
  refine .next (blank_eat nofun) fun _ => .bind (traces_sizes hr) fun ⟨es, rank⟩ => ?_
  refine .next (blank_eat nofun) fun _ => .next (blank_rangeFrom _) fun _ => ?_
  have hranks (start : Nat) (type : TypeSyntax) :
      Traces since (before || Expr.anyMissing es || type.containsMissing)
        (rankSpecifiers start type) fun t => before || Expr.anyMissing es || t.containsMissing :=
    traces_rankSpecifiers start type
  refine .bind (.mono (hranks _ _) (by simp [or_comm, or_left_comm])) fun type => ?_
  refine .bind (traces_optionalInitializer hr) fun i? => .next (blank_rangeFrom _) fun _ => ?_
  cases i? <;> exact .pure (by simp [or_comm, or_left_comm])

theorem traces_objectCreationRest (hr : r.Trace since) (start : Nat) (type : TypeSyntax) :
    Traces since (before || type.containsMissing) (objectCreationRest r start type)
      fun e => before || e.containsMissing := by
  have hrest (es? : Option (List Expr)) :
      Traces since (before || type.containsMissing || es?.any Expr.anyMissing)
        (do
          let initializer? ← optionalInitializer r
          return Expr.objectCreation (← rangeFrom start) type es? initializer?)
        fun e => before || e.containsMissing := by
    refine .bind (traces_optionalInitializer hr) fun i? => .next (blank_rangeFrom _) fun _ => ?_
    cases i? <;> cases es? <;> exact .pure (by simp)
  refine .next blank_currentKind fun _ => .ite ?_ (.bind (.pure (by simp)) hrest)
  exact .bind (traces_arguments hr _ _) fun es => hrest (some es)

theorem traces_creation (hr : r.Trace since) :
    Traces since before (creation r) fun e => before || e.containsMissing := by
  refine .next blank_current fun _ => .next (blank_eat nofun) fun _ => ?_
  refine .next (blank_accept _) fun _ => .ite ?_ ?_
  · refine .next .get fun _ => .next (blank_advanceBy _) fun _ => .next (blank_eat nofun) fun _ => ?_
    exact .bind (traces_initializer hr) fun _ => .next (blank_rangeFrom _) fun _ =>
      .pure (by simp)
  · refine .bind (hr.type _ false) fun type => .next blank_currentKind fun _ => ?_
    split
    · exact traces_arrayCreationRest hr _ type
    · exact traces_objectCreationRest hr _ type
    · exact traces_objectCreationRest hr _ type
    · refine .next blank_expectedSpan fun _ => .next (blank_report rfl) fun _ => ?_
      exact .next (blank_rangeFrom _) fun _ => .pure (by simp)

theorem traces_invalidTerm : Traces since before invalidTerm Expr.containsMissing :=
  .next blank_current fun _ => .ite (.lost fun _ => traces_missingExpression)
    (.lost fun _ => traces_missingExpression)

theorem traces_primary (hr : r.Trace since) :
    Traces since before (primary r) fun e => before || e.containsMissing := by
  refine .next blank_current fun t => ?_
  split
  · exact .next blank_advance fun _ => .pure (by simp)
  split
  · exact .next blank_advance fun _ => .pure (by simp)
  split
  · exact .next blank_advance fun _ => .next (blank_identifierOf _) fun _ => .pure (by simp_all)
  · exact .next blank_advance fun _ => .pure (by simp)
  · refine .next blank_advance fun _ => .bind (hr.expression _) fun _ => ?_
    exact .next (blank_eat nofun) fun _ => .next (blank_rangeFrom _) fun _ => .pure (by simp)
  · exact traces_creation hr
  · exact traces_invalidTerm.imp fun _ => by simp_all

theorem traces_castExpression (hr : r.Trace since) :
    Traces since before (castExpression r) fun e => before || e.containsMissing := by
  refine .next blank_current fun _ => .next (blank_eat nofun) fun _ => ?_
  refine .bind (hr.type _ true) fun _ => .next (blank_eat nofun) fun _ => ?_
  exact .bind (hr.unary _) fun _ => .next (blank_rangeFrom _) fun _ => .pure (by simp)

theorem traces_unaryBody (hr : r.Trace since) :
    Traces since before (unaryBody r) fun e => before || e.containsMissing := by
  refine .next blank_current fun t => .ite ?_ (.next .read fun _ => .ite ?_ ?_)
  · refine .next blank_take fun _ => .bind (hr.unary _) fun _ => ?_
    exact .next (blank_rangeFrom _) fun _ => .pure (by simp)
  · refine .next blank_advance fun _ => .bind (hr.unary _) fun _ => ?_
    exact .next (blank_rangeFrom _) fun _ => .pure (by simp)
  refine .next .read fun _ => .next .get fun _ => .ite (traces_castExpression hr) ?_
  exact .bind (traces_primary hr) fun e => hr.postfixTail _ 0 t.start e

theorem traces_postfixStep (hr : r.Trace since) (start : Nat) (operand : Expr) :
    Traces since (before || operand.containsMissing) (postfixStep r start operand)
      fun e => before || e.containsMissing := by
  have hmember : Traces since (before || operand.containsMissing) (do
      let operator ← take
      let name ← identifier
      return Expr.memberAccess (← rangeFrom start) operand operator name)
      fun e => before || e.containsMissing :=
    .next blank_take fun _ => .bind traces_identifier fun _ => .next (blank_rangeFrom _) fun _ =>
      .pure (by simp)
  refine .next blank_currentKind fun _ => ?_
  split
  · exact hmember
  · exact hmember
  · refine .bind (traces_arguments hr _ _) fun _ => .next (blank_rangeFrom _) fun _ => ?_
    exact .pure (by simp)
  · refine .bind (traces_arguments hr _ _) fun _ => .next (blank_rangeFrom _) fun _ => ?_
    exact .pure (by simp)
  · exact .next blank_take fun _ => .next (blank_rangeFrom _) fun _ => .pure (by simp)

/-- A chain ends with the operand that it has read. -/
theorem traces_leaveWith {made : Expr → Bool} (levels : Nat) {e : Expr}
    (h : before = true → made e = true) :
    Traces since before (do leave levels; return e) made :=
  .next (blank_leave _) fun _ => .pure h

theorem traces_postfixTailBody (hr : r.Trace since) (levels start : Nat) (operand : Expr) :
    Traces since (before || operand.containsMissing) (postfixTailBody r levels start operand)
      fun e => before || e.containsMissing := by
  refine .next blank_currentKind fun _ => .ite ?_ (traces_leaveWith _ id)
  refine .bind traces_enter fun entered => ?_
  cases entered with
  | true => exact .bind (traces_postfixStep hr start operand) fun e => hr.postfixTail _ _ _ e
  | false => exact traces_leaveWith _ (by simp)

/-! ### Operators -/

theorem traces_binary (hr : r.Trace since) (least : Nat) :
    Traces since before (binary r least) fun e => before || e.containsMissing :=
  .next blank_current fun _ => .bind (hr.unary _) fun e => hr.binaryTail _ _ _ _ e

theorem traces_binaryStep (hr : r.Trace since) (start : Nat) (left : Expr) (operator : Operator)
    (p : Precedence) :
    Traces since (before || left.containsMissing) (binaryStep r start left operator p)
      fun e => before || e.containsMissing := by
  refine .next (blank_advanceBy _) fun _ => ?_
  split
  · exact .bind (hr.type _ true) fun _ => .next (blank_rangeFrom _) fun _ => .pure (by simp)
  · exact .bind (traces_binary hr _) fun _ => .next (blank_rangeFrom _) fun _ => .pure (by simp)

theorem blank_nextOperator? (least : Nat) : Blank since (nextOperator? least) := by
  refine fun _ => .next .read fun _ => .next .get fun _ => ?_
  dsimp only
  split
  · exact .ite (.pure id) (.pure id)
  · exact .pure id

theorem traces_binaryTailBody (hr : r.Trace since) (levels least start : Nat) (left : Expr) :
    Traces since (before || left.containsMissing) (binaryTailBody r levels least start left)
      fun e => before || e.containsMissing := by
  refine .next (blank_nextOperator? _) fun found => ?_
  cases found with
  | none => exact traces_leaveWith _ id
  | some found =>
    refine .bind traces_enter fun entered => ?_
    cases entered with
    | true => exact .bind (traces_binaryStep hr start left _ _) fun e => hr.binaryTail _ _ _ _ e
    | false => exact traces_leaveWith _ (by simp)

theorem traces_conditional (hr : r.Trace since) :
    Traces since before (conditional r) fun e => before || e.containsMissing := by
  refine .next blank_current fun _ => .bind (traces_binary hr _) fun _ => ?_
  refine .next (blank_accept _) fun _ => .ite ?_ (.pure id)
  refine .bind (hr.expression _) fun _ => .next (blank_eat nofun) fun _ => ?_
  refine .bind (hr.expression _) fun _ => .next (blank_rangeFrom _) fun _ => ?_
  exact .pure (by simp)

theorem traces_assignment (hr : r.Trace since) :
    Traces since before (assignment r) fun e => before || e.containsMissing := by
  refine .next blank_current fun _ => .bind (traces_conditional hr) fun _ => ?_
  refine .next .read fun _ => .next .get fun _ => ?_
  dsimp only
  refine .ite (.next (blank_advanceBy _) fun _ => .bind (hr.expression _) fun _ => ?_) (.pure id)
  exact .next (blank_rangeFrom _) fun _ => .pure (by simp)

/-! ### Queries -/

theorem traces_fromClause (hr : r.Trace since) :
    Traces since before (fromClause r) fun c => before || c.containsMissing := by
  have hrest (start : Nat) (type? : Option TypeSyntax) :
      Traces since (before || type?.any TypeSyntax.containsMissing) (do
        let identifier ← identifier
        let _ ← eat (.keyword .kwIn)
        let source ← r.expression
        return FromClause.mk (← rangeFrom start) type? identifier source)
        fun c => before || c.containsMissing := by
    refine .bind traces_identifier fun _ => .next (blank_eat nofun) fun _ => ?_
    refine .bind (hr.expression _) fun _ => .next (blank_rangeFrom _) fun _ => ?_
    cases type? <;> exact .pure (by simp)
  refine .next blank_current fun _ => .next blank_advance fun _ => .next .get fun _ => ?_
  exact .ite (.mono (hrest _ none) (by simp)) (.bind (hr.type _ true) fun type => hrest _ (some type))

theorem traces_sortKey (hr : r.Trace since) :
    Traces since before (sortKey r) fun k => before || k.containsMissing := by
  refine .next blank_current fun _ => .bind (hr.expression _) fun e => ?_
  have hmake (start : Nat) (isDescending : Bool) : Traces since (before || e.containsMissing)
      (do return SortKey.mk (← rangeFrom start) e isDescending)
      fun k => before || k.containsMissing :=
    .next (blank_rangeFrom _) fun _ => .pure (by simp)
  refine .next blank_current fun _ => ?_
  split
  · exact .next blank_advance fun _ => hmake _ false
  · exact .next blank_advance fun _ => hmake _ true
  · exact hmake _ false

theorem traces_letClause (hr : r.Trace since) :
    Traces since before (letClause r) fun q => before || q.containsMissing := by
  refine .next blank_current fun _ => .next blank_advance fun _ => ?_
  refine .bind traces_identifier fun _ => .next (blank_eat nofun) fun _ => ?_
  exact .bind (hr.expression _) fun _ => .next (blank_rangeFrom _) fun _ => .pure (by simp)

theorem traces_whereClause (hr : r.Trace since) :
    Traces since before (whereClause r) fun q => before || q.containsMissing := by
  refine .next blank_current fun _ => .next blank_advance fun _ => ?_
  exact .bind (hr.expression _) fun _ => .next (blank_rangeFrom _) fun _ => .pure (by simp)

theorem traces_orderByClause (hr : r.Trace since) :
    Traces since before (orderByClause r) fun q => before || q.containsMissing := by
  refine .next blank_current fun _ => .next blank_advance fun _ => ?_
  refine .bind (traces_separated fun _ => traces_sortKey hr) fun _ => ?_
  exact .next (blank_rangeFrom _) fun _ => .pure (by simp)

theorem traces_queryClause? (hr : r.Trace since) :
    Traces since before (queryClause? r)
      fun q? => before || q?.any QueryClause.containsMissing := by
  refine .next blank_current fun _ => ?_
  split
  · exact .bind (traces_fromClause hr) fun _ => .pure (by simp)
  · exact .bind (traces_letClause hr) fun _ => .pure id
  · exact .bind (traces_whereClause hr) fun _ => .pure id
  · exact .bind (traces_orderByClause hr) fun _ => .pure id
  · exact .pure (by simp)

theorem traces_queryEnding (hr : r.Trace since) :
    Traces since before (queryEnding r) fun q => before || q.containsMissing := by
  refine .next blank_current fun _ => ?_
  split
  · refine .next blank_advance fun _ => .bind (hr.expression _) fun _ => ?_
    exact .next (blank_rangeFrom _) fun _ => .pure (by simp)
  · refine .next blank_advance fun _ => .bind (hr.expression _) fun _ => ?_
    refine .next (blank_eatContextual _) fun _ => .bind (hr.expression _) fun _ => ?_
    exact .next (blank_rangeFrom _) fun _ => .pure (by simp)
  · exact .lost fun _ => .lost fun _ => .pure (by simp)

theorem traces_continuation? (hr : r.Trace since) :
    Traces since before (continuation? r)
      fun k? => before || k?.any Continuation.containsMissing := by
  refine .next blank_current fun _ => .ite ?_ (.pure (by simp))
  refine .next blank_advance fun _ => .bind traces_identifier fun _ => ?_
  refine .bind (hr.continuationBody _) fun b? => ?_
  cases b? with
  | none => exact .pure nofun
  | some b => exact .next (blank_rangeFrom _) fun _ => .pure (by simp)

theorem traces_queryBody (hr : r.Trace since) :
    Traces since before (queryBody r) fun b => before || b.containsMissing := by
  refine .next blank_current fun _ => .bind (.many fun _ => traces_queryClause? hr) fun _ => ?_
  refine .bind (traces_queryEnding hr) fun _ => .bind (traces_continuation? hr) fun k? => ?_
  refine .next (blank_rangeFrom _) fun _ => ?_
  cases k? <;> exact .pure (by simp)

theorem traces_query (hr : r.Trace since) :
    Traces since before (query r) fun e => before || e.containsMissing := by
  refine .next blank_current fun _ => .bind (traces_fromClause hr) fun _ => ?_
  exact .bind (traces_queryBody hr) fun _ => .next (blank_rangeFrom _) fun _ => .pure (by simp)

theorem traces_expressionBody (hr : r.Trace since) :
    Traces since before (expressionBody r) fun e => before || e.containsMissing :=
  .next .get fun _ => .ite (traces_query hr) (traces_assignment hr)

/-! ### All rules -/

theorem trace_none : Rules.none.Trace since where
  expression _ := .next .runOut fun _ => .bind traces_refuse fun _ =>
    traces_missingExpression.imp fun _ => by simp_all
  unary _ := .next .runOut fun _ => .bind traces_refuse fun _ =>
    traces_missingExpression.imp fun _ => by simp_all
  type _ _ := .next .runOut fun _ => .bind traces_refuse fun _ =>
    traces_missingType.imp fun _ => by simp_all
  binaryTail _ levels _ _ _ := .next .runOut fun _ => .bind traces_refuse fun _ =>
    traces_leaveWith levels nofun
  postfixTail _ levels _ _ := .next .runOut fun _ => .bind traces_refuse fun _ =>
    traces_leaveWith levels nofun
  elements _ := .next .runOut fun _ => .bind traces_refuse fun _ => .pure nofun
  continuationBody _ := .next .runOut fun _ => .bind traces_refuse fun _ => .pure nofun

theorem trace_rules (n : Nat) : (rules n).Trace since := by
  induction n with
  | zero => exact trace_none
  | succ n ih =>
    have hexpression {before : Bool} : Traces since false missingExpression
        fun e => before || e.containsMissing :=
      traces_missingExpression.imp fun _ => by simp_all
    exact {
      expression _ := traces_nested hexpression (traces_expressionBody ih)
      unary _ := traces_nested hexpression (traces_unaryBody ih)
      type _ withRanks := traces_nested (traces_missingType.imp fun _ => by simp_all)
        (traces_typeBody ih withRanks)
      binaryTail _ levels least start left := traces_binaryTailBody ih levels least start left
      postfixTail _ levels start operand := traces_postfixTailBody ih levels start operand
      elements _ := traces_nested (.pure nofun) (traces_elementsBody ih)
      continuationBody _ := traces_nested (.pure nofun) ((traces_queryBody ih).map fun _ => id) }

/-! ### Expressions that stand alone -/

section

variable {n : Nat} {env : Env} {s later : State}

/-- What is reported while an expression is read is traceless, or its tree shows that something was
made up. -/
theorem traceless_or_containsMissing_expression (n : Nat) (env : Env) (s : State) :
    ((rules n).expression env s).1.containsMissing = true ∨
      Traceless s.diagnostics.toList ((rules n).expression env s).2 := by
  have hread := (trace_rules n).expression false env s (.inr (.start s))
  simpa using hread

theorem checkStatementExpression_of_tooDeep (e : Expr) (h : later.tooDeep = true) :
    checkStatementExpression e env later = ((), later) := by
  show (if e.containsMissing || e.isStatementExpression then Pure.pure ()
    else report .notStatementExpression e.span : P Unit) env later = _
  split
  · rfl
  · show ((), if later.tooDeep then later else _) = _
    rw [if_pos h]

theorem checkStatementExpression_of_containsMissing {e : Expr} (h : e.containsMissing = true) :
    checkStatementExpression e env later = ((), later) := by
  rw [checkStatementExpression, h]
  rfl

/-- An expression on which more was reported than missing tokens is not also reported for its form,
wherever it is checked later: after the semicolon of its statement, or at the end of a header. -/
theorem checkStatementExpression_of_reported (n : Nat) (env : Env) (s later : State)
    (hlater : ((rules n).expression env s).2.tooDeep = true → later.tooDeep = true)
    (hreported : ∃ d ∈ ((rules n).expression env s).2.diagnostics.toList.drop s.diagnostics.size,
      d.message.isTraceless = false) :
    checkStatementExpression ((rules n).expression env s).1 env later = ((), later) := by
  obtain ⟨d, hd, htraced⟩ := hreported
  rcases traceless_or_containsMissing_expression n env s with hmissing | htooDeep | htraceless
  · exact checkStatementExpression_of_containsMissing hmissing
  · exact checkStatementExpression_of_tooDeep _ (hlater htooDeep)
  · obtain ⟨more, hmore, hall⟩ := htraceless
    rw [hmore, ← Array.length_toList, List.drop_left] at hd
    rw [hall d hd] at htraced
    cases htraced

/-- An operand is missing. -/
theorem checkStatementExpression_missingOperand :
    let tokens := (scan "+;").1
    let s := State.start tokens #[] none
    let read := (rules 3).expression (.of tokens 3) s
    (read.2.tooDeep = true → read.2.tooDeep = true) ∧
      (∃ d ∈ read.2.diagnostics.toList.drop s.diagnostics.size, d.message.isTraceless = false) ∧
      checkStatementExpression read.1 (.of tokens 3) read.2 = ((), read.2) := by
  intro tokens s read
  have hreported : ∃ d ∈ read.2.diagnostics.toList.drop s.diagnostics.size,
      d.message.isTraceless = false := by
    refine ⟨.of .invalidExpressionTerm ⟨1, 1⟩ [";"], ?_, rfl⟩
    simp only [read, s, tokens]
    rw [scan_ofList]
    clear read s tokens
    decide +kernel
  exact ⟨id, hreported, checkStatementExpression_of_reported 3 _ s read.2 id hreported⟩

/-- A missing parenthesis leaves no trace, and the expression is reported for its form as well. -/
theorem not_checkStatementExpression_of_reported :
    ¬ ∀ (n : Nat) (env : Env) (s : State),
        ((rules n).expression env s).2.diagnostics.toList ≠ s.diagnostics.toList →
        (checkStatementExpression ((rules n).expression env s).1 env
          ((rules n).expression env s).2).2.diagnostics.toList =
            ((rules n).expression env s).2.diagnostics.toList := by
  intro h
  have hrun := h 6 (.of (scan "(a;").1 5) (.start (scan "(a;").1 #[] none)
  rw [scan_ofList] at hrun
  revert hrun
  decide +kernel

end

end Parser

end CSharpFront
