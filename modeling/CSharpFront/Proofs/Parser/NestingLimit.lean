import CSharpFront.Proofs.Parser.Keeps
/-!
The parser after the nesting limit was hit. The limit is reported once, where it is hit first, and
nothing is reported after that.
-/

namespace CSharpFront.Parser

/-- The limit was hit, and so much has been reported. -/
def CutOff (reported : Array Diagnostic) (_ : Env) (s : State) : Prop :=
  s.tooDeep = true ∧ s.diagnostics = reported

/-- A parser that reports nothing once the limit was hit. -/
def Silent {α : Type} (p : P α) : Prop := ∀ reported, Keeps (CutOff reported) p fun _ => True

namespace Silent

variable {α β : Type} {p : P α}

theorem pure (a : α) : Silent (Pure.pure a : P α) := fun _ => .pure trivial

theorem bind {f : α → P β} (hp : Silent p) (hf : ∀ a, Silent (f a)) : Silent (p >>= f) :=
  fun reported => (hp reported).bind fun a _ => hf a reported

theorem ite {c : Prop} [Decidable c] {q : P α} (hp : Silent p) (hq : Silent q) :
    Silent (if c then p else q) :=
  fun reported => .ite (fun _ => hp reported) fun _ => hq reported

theorem get : Silent (MonadState.get : P State) := fun _ => Keeps.get.imp fun _ _ => trivial

theorem read : Silent (MonadReader.read : P Env) := fun _ => Keeps.read.imp fun _ _ => trivial

/-- Whatever leaves the diagnostics and the limit alone is silent. -/
theorem of_modify {f : State → State} (ht : ∀ s, (f s).tooDeep = s.tooDeep)
    (hd : ∀ s, (f s).diagnostics = s.diagnostics) : Silent (modify f) :=
  fun _ => .of_modify fun _ s hs => ⟨(ht s).trans hs.1, (hd s).trans hs.2⟩

instance (reported : Array Diagnostic) : Blind (CutOff reported) := ⟨fun _ hs => hs, fun _ hs => hs⟩

theorem refuse : Silent refuse := by
  intro reported env s hs
  have h : Parser.refuse env s = ((), s) := by
    show (if s.tooDeep = true then _ else _ : P Unit) env s = _
    rw [if_pos hs.1]
    rfl
  rw [h]
  exact ⟨trivial, hs⟩

theorem nested {refused : P α} (hr : Silent refused) (hp : Silent p) :
    Silent (nested refused p) :=
  fun reported => .nested (Silent.refuse reported) (hr reported) (hp reported)

theorem runOut : Silent runOut := fun _ => .runOut

theorem loop {step : α → P (ForInStep α)} (a : α) (hs : ∀ a, Silent (step a)) :
    Silent (loop a step) :=
  fun reported => .loop (fun _ => True) trivial
    fun a _ => (hs a reported).imp fun _ _ => trivial

theorem many {item : P (Option α)} (hi : Silent item) : Silent (many item) :=
  fun reported => Keeps.imp (.many ((hi reported).imp fun _ _ _ _ => trivial)) fun _ _ => trivial

end Silent

/-! ### Entering levels -/

section

variable {env : Env} {s : State}

/-- Giving up reports the limit at the first token that is left. -/
theorem refuse_apply (h : s.tooDeep = false) :
    refuse env s = ((), s.moveTo ⟨[], env.endOfFile.start, s.depth, true,
      s.diagnostics.push (.of .tooDeep (s.rest.headD env.endOfFile).span)⟩) := by
  obtain ⟨⟨rest, prevStop, depth, tooDeep, diagnostics⟩, names, polls, trail, ranOut⟩ := s
  obtain rfl : tooDeep = false := h
  rfl

theorem enter_of_tooDeep (h : s.tooDeep = true) : enter env s = (false, s) := by
  show (if s.tooDeep = true then _ else _ : P Bool) env s = _
  rw [if_pos h]
  rfl

theorem enter_of_le (h : s.tooDeep = false) (hd : env.maxDepth ≤ s.depth) :
    enter env s = (false, (refuse env s).2) := by
  show (if s.tooDeep = true then _ else _ : P Bool) env s = _
  rw [if_neg (by simp [h])]
  show (if env.maxDepth ≤ s.depth then _ else _ : P Bool) env s = _
  rw [if_pos hd]
  rfl

theorem enter_of_lt (h : s.tooDeep = false) (hd : s.depth < env.maxDepth) :
    enter env s = (true, s.moveTo { s.toMoment with depth := s.depth + 1 }) := by
  show (if s.tooDeep = true then _ else _ : P Bool) env s = _
  rw [if_neg (by simp [h])]
  show (if env.maxDepth ≤ s.depth then _ else _ : P Bool) env s = _
  rw [if_neg (by omega)]
  rfl

end

/-! ### Elementary steps -/

theorem silent_current : Silent current := .bind .get fun _ => .bind .read fun _ => .pure _

theorem silent_currentKind : Silent currentKind := .bind silent_current fun _ => .pure _

theorem silent_advance : Silent advance := by
  refine .of_modify (fun s => ?_) (fun s => ?_)
  · split <;> rfl
  · split <;> rfl

theorem silent_advanceBy (n : Nat) : Silent (advanceBy n) := by
  induction n with
  | zero => exact .pure _
  | succ n ih => exact .bind silent_advance fun _ => ih

theorem silent_rangeFrom (start : Nat) : Silent (rangeFrom start) := .bind .get fun _ => .pure _

theorem silent_report (message : Message) (span : Span) (arguments : List String) :
    Silent (report message span arguments) := by
  refine fun _ => .of_modify fun _ s hs => ?_
  rw [if_pos hs.1]
  exact hs

theorem silent_expectedSpan : Silent expectedSpan :=
  .bind silent_current fun _ => .ite (.bind .get fun _ => .pure _) (.pure _)

theorem silent_reportExpected (kind : TokenKind) (span : Span) :
    Silent (reportExpected kind span) :=
  silent_report _ _ _

theorem silent_eat (kind : TokenKind) : Silent (eat kind) := by
  refine .bind silent_current fun _ => .ite (.bind silent_advance fun _ => .pure _) ?_
  refine .bind silent_expectedSpan fun _ => .bind (silent_reportExpected _ _) fun _ => ?_
  exact .bind .get fun _ => .pure _

theorem silent_accept (kind : TokenKind) : Silent (accept kind) :=
  .bind silent_currentKind fun _ => .ite (.bind silent_advance fun _ => .pure _) (.pure _)

theorem silent_noteName (name : String) : Silent (noteName name) :=
  .of_modify (fun _ => rfl) fun _ => rfl

theorem silent_identifier : Silent identifier := by
  refine .bind silent_current fun t => .ite ?_ ?_
  · refine .bind silent_advance fun _ => ?_
    exact .bind (silent_noteName _) fun _ => .pure _
  · refine .bind silent_expectedSpan fun _ => .bind (silent_reportExpected _ _) fun _ => ?_
    exact .bind (silent_noteName _) fun _ => .bind .get fun _ => .pure _

theorem silent_missingType : Silent missingType := .bind .get fun _ => .pure _

theorem silent_separated {α : Type} {item : P α} (hi : Silent item) : Silent (separated item) := by
  refine .bind hi fun _ => .bind ?_ fun _ => .pure _
  refine .many (.bind (silent_accept _) fun _ => .ite ?_ (.pure _))
  exact .bind hi fun _ => .pure _

/-! ### Types -/

variable {r : Rules}

/-- One round of reading brackets. -/
def rankStep (start : Nat) (type : TypeSyntax) : P (ForInStep TypeSyntax) := do
  let rest := (← get).rest
  let second := Lookahead.secondKind rest
  if Lookahead.kind rest = .punct .openBracket ∧
      (second = .punct .closeBracket ∨ second = .punct .comma) then
    advance
    let commas := Lookahead.run (.punct .comma) (← get).rest
    advanceBy commas
    let _ ← eat (.punct .closeBracket)
    return .yield (.array (← rangeFrom start) type (commas + 1))
  else return .done type

theorem silent_rankStep (start : Nat) (type : TypeSyntax) : Silent (rankStep start type) := by
  refine .bind .get fun _ => .ite ?_ (.pure _)
  refine .bind silent_advance fun _ => .bind .get fun _ => ?_
  refine .bind (silent_advanceBy _) fun _ => .bind (silent_eat _) fun _ => ?_
  exact .bind (silent_rangeFrom _) fun _ => .pure _

theorem silent_rankSpecifiers (start : Nat) (type : TypeSyntax) :
    Silent (rankSpecifiers start type) :=
  .loop _ (silent_rankStep start)

theorem silent_simpleName (hr : Silent (r.type true)) : Silent (simpleName r) := by
  refine .bind silent_current fun _ => .bind silent_identifier fun _ => ?_
  refine .bind .read fun _ => .bind .get fun _ => .ite ?_ (.pure _)
  refine .bind silent_advance fun _ => .bind (silent_separated hr) fun _ => ?_
  exact .bind (silent_eat _) fun _ => .bind (silent_rangeFrom _) fun _ => .pure _

/-- One round of reading a dotted name. -/
def nameStep (r : Rules) (start : Nat) (left : TypeSyntax) : P (ForInStep TypeSyntax) := do
  let rest := (← get).rest
  let kind := Lookahead.kind rest
  if (kind = .punct .dot ∨ kind = .punct .colonColon) ∧
      Lookahead.secondKind rest = .identifier then
    advance
    let right ← simpleName r
    return .yield (.qualified (← rangeFrom start) left right)
  else return .done left

theorem name_eq (r : Rules) :
    name r = (do
      let start := (← current).start
      loop (← simpleName r) (nameStep r start)) :=
  rfl

theorem silent_nameStep (hr : Silent (r.type true)) (start : Nat) (left : TypeSyntax) :
    Silent (nameStep r start left) := by
  refine .bind .get fun _ => .ite ?_ (.pure _)
  refine .bind silent_advance fun _ => .bind (silent_simpleName hr) fun _ => ?_
  exact .bind (silent_rangeFrom _) fun _ => .pure _

theorem silent_name (hr : Silent (r.type true)) : Silent (name r) := by
  refine .bind silent_current fun _ => .bind (silent_simpleName hr) fun _ => ?_
  exact .loop _ (silent_nameStep hr _)

theorem silent_typeCore? (hr : Silent (r.type true)) : Silent (typeCore? r) := by
  refine .bind silent_current fun _ => ?_
  split
  · exact .bind silent_advance fun _ => .pure _
  · exact .ite (.bind (silent_name hr) fun _ => .pure _) (.pure _)

/-- What follows the part of a type before its `?`. -/
def typeRest (withRanks : Bool) (start : Nat) (core? : Option TypeSyntax) : P TypeSyntax := do
  match core? with
  | none =>
    report .typeExpected (← expectedSpan)
    missingType
  | some core =>
    let type ←
      if ← accept (.punct .question) then
        pure (TypeSyntax.nullable (← rangeFrom start) core)
      else pure core
    if withRanks then rankSpecifiers start type else return type

theorem silent_typeRest (withRanks : Bool) (start : Nat) (core? : Option TypeSyntax) :
    Silent (typeRest withRanks start core?) := by
  cases core? with
  | none =>
    refine .bind silent_expectedSpan fun _ => .bind (silent_report _ _ _) fun _ => ?_
    exact silent_missingType
  | some core =>
    have hrest (type : TypeSyntax) :
        Silent (if withRanks then rankSpecifiers start type else return type) :=
      .ite (silent_rankSpecifiers _ _) (.pure _)
    refine .bind (silent_accept _) fun _ => .ite ?_ (hrest core)
    exact .bind (silent_rangeFrom _) fun _ => hrest _

theorem silent_typeBody (withRanks : Bool) (hr : Silent (r.type true)) :
    Silent (typeBody withRanks r) :=
  .bind silent_current fun _ => .bind (silent_typeCore? hr) fun _ => silent_typeRest _ _ _

theorem silent_type (n : Nat) (withRanks : Bool) : Silent ((rules n).type withRanks) := by
  induction n generalizing withRanks with
  | zero => exact .bind .runOut fun _ => .bind .refuse fun _ => silent_missingType
  | succ n ih => exact .nested silent_missingType (silent_typeBody withRanks (ih true))

end CSharpFront.Parser
