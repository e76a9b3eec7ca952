import CSharpFront.Proofs.Parser.NestingLimit
/-!
Stretches that the parser passes without a report. A parser `Passes` a stretch if it comes through
with a result of some property and reports nothing, unless it hits the nesting limit on the way and
reports that. Steps of which the next tokens tell the outcome `Move` on.
-/

namespace CSharpFront.Parser

/-- The limit was not hit, and so much has been reported. -/
def Calm (reported : Array Diagnostic) (s : State) : Prop :=
  s.tooDeep = false ∧ s.diagnostics = reported

def Passes {α : Type} (reported : Array Diagnostic) (p : P α) (env : Env) (s : State)
    (post : α → State → Prop) : Prop :=
  (∃ span, CutOff (reported.push (.of .tooDeep span)) env (p env s).2) ∨
    (Calm reported (p env s).2 ∧ post (p env s).1 (p env s).2)

/-- A step with a known result that leaves known tokens and reports nothing. -/
def Moves {α : Type} (p : P α) (env : Env) (s : State) (a : α) (rest : List Token) : Prop :=
  ∃ s', p env s = (a, s') ∧ s'.rest = rest ∧ s'.tooDeep = s.tooDeep ∧
    s'.diagnostics = s.diagnostics

/-- What a round of a loop comes to: it is the last one, or the loop goes on with fewer tokens. -/
def Round {α : Type} (inv post : α → State → Prop) (s : State) : ForInStep α → State → Prop
  | .done b, s' => post b s'
  | .yield b, s' => inv b s' ∧ s'.rest.length < s.rest.length

theorem bind_apply {α β : Type} (p : P α) (f : α → P β) (env : Env) (s : State) :
    (p >>= f) env s = f (p env s).1 env (p env s).2 :=
  rfl

/-- One level further in, where one is left. -/
theorem nested_of_lt {α : Type} {refused p : P α} {env : Env} {s : State}
    (ht : s.tooDeep = false) (hd : s.depth < env.maxDepth) :
    nested refused p env s = (p >>= fun a => do leave 1; return a) env
      (s.moveTo { s.toMoment with depth := s.depth + 1 }) := by
  rw [nested, bind_apply, enter_of_lt ht hd]
  rfl

theorem nested_of_le {α : Type} {refused p : P α} {env : Env} {s : State}
    (ht : s.tooDeep = false) (hd : env.maxDepth ≤ s.depth) :
    nested refused p env s = refused env (refuse env s).2 := by
  rw [nested, bind_apply, enter_of_le ht hd]
  rfl

namespace Passes

variable {α β : Type} {reported : Array Diagnostic} {env : Env} {s : State} {p : P α}
  {post : α → State → Prop}

theorem pure {a : α} (hs : Calm reported s) (h : post a s) :
    Passes reported (Pure.pure a) env s post :=
  .inr ⟨hs, h⟩

theorem bind {f : α → P β} {after : β → State → Prop} (hp : Passes reported p env s post)
    (hf : ∀ a s', Calm reported s' → post a s' → Passes reported (f a) env s' after)
    (hsilent : ∀ a, Silent (f a)) : Passes reported (p >>= f) env s after := by
  rcases hp with ⟨span, hcut⟩ | ⟨hs, ha⟩
  · exact .inl ⟨span, (hsilent _ _ env _ hcut).2⟩
  · exact hf _ _ hs ha

theorem imp {after : α → State → Prop} (hp : Passes reported p env s post)
    (h : ∀ a s', post a s' → after a s') : Passes reported p env s after :=
  hp.imp_right fun ⟨hs, ha⟩ => ⟨hs, h _ _ ha⟩

theorem moves {f : α → P β} {after : β → State → Prop} {a : α} {rest : List Token}
    (h : Moves p env s a rest) (hs : Calm reported s)
    (hf : ∀ s', Calm reported s' → s'.rest = rest → Passes reported (f a) env s' after) :
    Passes reported (p >>= f) env s after := by
  obtain ⟨s', hp, hrest, ht, hd⟩ := h
  have hs' : Calm reported s' := ⟨ht.trans hs.1, hd.trans hs.2⟩
  have hb : (p >>= f) env s = f a env s' := by
    rw [bind_apply, hp]
  unfold Passes
  rw [hb]
  exact hf s' hs' hrest

/-- Reading one level further in, where what comes of it has nothing to do with the level. -/
theorem nested {refused : P α} (hsilent : Silent refused) (hs : Calm reported s)
    (hpost : ∀ a t d b, post a t →
      post a { t.moveTo { t.toMoment with depth := d } with ranOut := b })
    (hp : ∀ s', Calm reported s' → s'.rest = s.rest → Passes reported p env s' post) :
    Passes reported (nested refused p) env s post := by
  rcases Nat.lt_or_ge s.depth env.maxDepth with hd | hd
  · unfold Passes
    rw [nested_of_lt hs.1 hd]
    rcases hp (s.moveTo { s.toMoment with depth := s.depth + 1 }) hs rfl with
      ⟨span, hcut⟩ | ⟨hcalm, ha⟩
    · exact .inl ⟨span, hcut⟩
    · exact .inr ⟨hcalm, hpost _ _ _ _ ha⟩
  · refine .inl ⟨(s.rest.headD env.endOfFile).span, ?_⟩
    rw [nested_of_le hs.1 hd, refuse_apply hs.1, hs.2]
    exact (hsilent _ env _ ⟨rfl, rfl⟩).2

/-- Giving up is a way to pass. -/
theorem refuse {f : Unit → P α} (hs : Calm reported s) (hf : Silent (f ())) :
    Passes reported (refuse >>= f) env s post := by
  refine .inl ⟨(s.rest.headD env.endOfFile).span, ?_⟩
  rw [bind_apply, refuse_apply hs.1, hs.2]
  exact (hf _ env _ ⟨rfl, rfl⟩).2

/-- A loop each round of which but the last takes a token. -/
theorem loop {inv : α → State → Prop} {step : α → P (ForInStep α)} {a : α}
    (hsilent : ∀ a, Silent (step a)) (hs : Calm reported s) (ha : inv a s)
    (hb : s.rest.length < env.budget)
    (hstep : ∀ a s, Calm reported s → inv a s → s.rest.length < env.budget →
      Passes reported (step a) env s (Round inv post s)) :
    Passes reported (loop a step) env s post := by
  show Passes reported (iterate step env.budget a) env s post
  have hrounds : ∀ n a s, Calm reported s → inv a s → s.rest.length < n →
      s.rest.length < env.budget → Passes reported (iterate step n a) env s post := by
    intro n
    induction n with
    | zero => intro a s _ _ h; omega
    | succ n ih =>
      intro a s hs ha hn hb
      refine .bind (hstep a s hs ha hb) (fun r s' hs' hr => ?_) fun r => ?_
      · cases r with
        | done b => exact .pure hs' hr
        | yield b =>
          have hlt := hr.2
          exact ih b s' hs' hr.1 (by omega) (by omega)
      · cases r with
        | done b => exact .pure _
        | yield b =>
          exact fun reported => .iterate (fun _ => True)
            (fun a _ => (hsilent a reported).imp fun _ _ => trivial) n trivial
  exact hrounds _ a s hs ha hb hb

/-- The same of items, each of which takes a token. -/
theorem many (inv after : List α → State → Prop) {item : P (Option α)} (hsilent : Silent item)
    (hs : Calm reported s) (h : inv [] s) (hb : s.rest.length < env.budget)
    (hitem : ∀ as s, Calm reported s → inv as s → s.rest.length < env.budget →
      Passes reported item env s fun a? s' =>
        match a? with
        | some a => inv (a :: as) s' ∧ s'.rest.length < s.rest.length
        | none => after as.reverse s') :
    Passes reported (many item) env s after := by
  have hdone (a? : Option α) (as : List α) : Silent (match a? with
      | some a => return .yield (a :: as)
      | none => return .done as : P (ForInStep (List α))) := by
    cases a? <;> exact .pure _
  refine .bind (?_ : Passes reported _ env s fun as s' => after as.reverse s')
    (fun as s' hs' h => .pure hs' h) fun _ => .pure _
  refine .loop (fun as => .bind hsilent fun a? => hdone a? as) hs h hb fun as s hs h hb => ?_
  refine .bind (hitem as s hs h hb) (fun a? s' hs' ha => ?_) fun a? => hdone a? as
  cases a? with
  | some a => exact .pure hs' ha
  | none => exact .pure hs' ha

end Passes

/-! ### Elementary steps -/

variable {env : Env} {s : State} {t : Token} {ts : List Token}

theorem advance_apply (h : s.rest = t :: ts) :
    advance env s = ((), s.moveTo ⟨ts, t.stop, s.depth, s.tooDeep, s.diagnostics⟩) := by
  obtain ⟨⟨rest, prevStop, depth, tooDeep, diagnostics⟩, names, polls, trail, ranOut⟩ := s
  obtain rfl : rest = t :: ts := h
  rfl

theorem moves_advance (h : s.rest = t :: ts) : Moves advance env s () ts :=
  ⟨_, advance_apply h, rfl, rfl, rfl⟩

theorem moves_advanceBy (n : Nat) (s : State) : Moves (advanceBy n) env s () (s.rest.drop n) := by
  induction n generalizing s with
  | zero => exact ⟨s, rfl, rfl, rfl, rfl⟩
  | succ n ih =>
    obtain ⟨⟨rest, prevStop, depth, tooDeep, diagnostics⟩, names, polls, trail, ranOut⟩ := s
    cases rest with
    | nil =>
      obtain ⟨s', hp, hrest, h⟩ :=
        ih ⟨⟨[], prevStop, depth, tooDeep, diagnostics⟩, names, polls, trail, ranOut⟩
      exact ⟨s', hp, by rw [hrest, List.drop_nil, List.drop_nil], h⟩
    | cons t ts =>
      exact ih (State.moveTo ⟨⟨t :: ts, prevStop, depth, tooDeep, diagnostics⟩, names, polls, trail,
        ranOut⟩ ⟨ts, t.stop, depth, tooDeep, diagnostics⟩)

theorem moves_current (env : Env) (s : State) :
    Moves current env s (s.rest.headD env.endOfFile) s.rest :=
  ⟨s, rfl, rfl, rfl, rfl⟩

theorem moves_get (env : Env) (s : State) : Moves MonadState.get env s s s.rest :=
  ⟨s, rfl, rfl, rfl, rfl⟩

theorem moves_read (env : Env) (s : State) : Moves MonadReader.read env s env s.rest :=
  ⟨s, rfl, rfl, rfl, rfl⟩

theorem moves_runOut (env : Env) (s : State) : Moves runOut env s () s.rest :=
  ⟨{ s with ranOut := true }, rfl, rfl, rfl, rfl⟩

theorem moves_rangeFrom (start : Nat) (env : Env) (s : State) :
    Moves (rangeFrom start) env s ⟨start, max s.prevStop start⟩ s.rest :=
  ⟨s, rfl, rfl, rfl, rfl⟩

theorem moves_eat {kind : TokenKind} (h : s.rest = t :: ts) (hk : t.kind = kind) :
    Moves (eat kind) env s ⟨kind, t.range, false⟩ ts := by
  refine ⟨s.moveTo ⟨ts, t.stop, s.depth, s.tooDeep, s.diagnostics⟩, ?_, rfl, rfl, rfl⟩
  show (if (s.rest.headD env.endOfFile).kind = kind then _ else _ : P Leaf) env s = _
  rw [h, List.headD_cons, if_pos hk, bind_apply, advance_apply h]
  rfl

theorem moves_accept {kind : TokenKind} (h : s.rest = t :: ts) (hk : t.kind = kind) :
    Moves (accept kind) env s true ts := by
  refine ⟨s.moveTo ⟨ts, t.stop, s.depth, s.tooDeep, s.diagnostics⟩, ?_, rfl, rfl, rfl⟩
  show (if (s.rest.headD env.endOfFile).kind = kind then _ else _ : P Bool) env s = _
  rw [h, List.headD_cons, if_pos hk, bind_apply, advance_apply h]
  rfl

theorem moves_identifier (h : s.rest = t :: ts) (hk : t.kind = .identifier) :
    Moves identifier env s ⟨t.text, t.range, t.flags.verbatim, false⟩ ts := by
  refine ⟨{ s.moveTo ⟨ts, t.stop, s.depth, s.tooDeep, s.diagnostics⟩ with
    names := t.text :: s.names }, ?_, rfl, rfl, rfl⟩
  show (if (s.rest.headD env.endOfFile).kind = .identifier then _ else _ : P Identifier) env s = _
  rw [h, List.headD_cons, if_pos hk, bind_apply, advance_apply h]
  rfl

/-- Past the last token the parser and its lookahead see the same. -/
theorem kind_headD (he : env.endOfFile.kind = .endOfFile) (ts : List Token) :
    (ts.headD env.endOfFile).kind = Lookahead.kind ts := by
  cases ts with
  | nil => exact he
  | cons t ts => rfl

theorem moves_accept_of_ne (he : env.endOfFile.kind = .endOfFile) {kind : TokenKind}
    (hk : Lookahead.kind s.rest ≠ kind) : Moves (accept kind) env s false s.rest := by
  refine ⟨s, ?_, rfl, rfl, rfl⟩
  rw [← kind_headD he] at hk
  show (if (s.rest.headD env.endOfFile).kind = kind then _ else _ : P Bool) env s = _
  rw [if_neg hk]
  rfl

end CSharpFront.Parser
