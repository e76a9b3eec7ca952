import CSharpFront.Proofs.Parser.Course
import CSharpFront.Proofs.Parser.Lookahead
import CSharpFront.Proofs.Parser.NestingLimit
import CSharpFront.Proofs.Parser.Passes
/-!
Orderly parsers. From any state that leaves it room to nest, an orderly parser takes a course that
leaves again what it has entered, and uses up no bound. Its
counterpart under a higher limit does exactly the same unless the limit is hit.

A loop is orderly if each of its rounds but the last takes a token; `Advances` says where a parser
does.
-/

namespace CSharpFront.Parser

/-! ### Where parsers start -/

/-- An environment for some tokens, and one with a limit that is no lower. Looking ahead for types
finds the same in both. -/
structure Env.Raises (tokens : List Token) (env env' : Env) : Prop where
  endOfFile : env'.endOfFile = env.endOfFile
  budget : env'.budget = env.budget
  inAsync : env'.inAsync = env.inAsync
  kind_endOfFile : env.endOfFile.kind = .endOfFile
  lt_budget : tokens.length < env.budget
  maxDepth_le : env.maxDepth ≤ env'.maxDepth
  types : Lookahead.AgreeOnTypes tokens env.maxDepth env'.maxDepth

/-- The limit may also stay. -/
theorem Env.Raises.refl {tokens : List Token} {env : Env} (he : env.endOfFile.kind = .endOfFile)
    (hb : tokens.length < env.budget) : env.Raises tokens env :=
  ⟨rfl, rfl, rfl, he, hb, Nat.le_refl _, fun _ _ => rfl⟩

theorem Env.Raises.left {tokens : List Token} {env env' : Env} (h : env.Raises tokens env') :
    env.Raises tokens env :=
  .refl h.kind_endOfFile h.lt_budget

/-- Whether `await` is a reserved word has nothing to do with the limit. -/
theorem Env.Raises.withAsync {tokens : List Token} {env env' : Env} (inAsync : Bool)
    (h : env.Raises tokens env') :
    Env.Raises tokens { env with inAsync := inAsync } { env' with inAsync := inAsync } :=
  ⟨h.endOfFile, h.budget, rfl, h.kind_endOfFile, h.lt_budget, h.maxDepth_le, h.types⟩

/-- A state in which rules of a bound do not come to its end before the limit is hit. -/
structure Ready (tokens : List Token) (bound : Nat) (env : Env) (s : State) : Prop where
  rest : s.rest <:+ tokens
  sane : s.toMoment.Sane env.maxDepth
  room : env.maxDepth < s.depth + bound

variable {tokens : List Token} {bound held levels : Nat} {env env' : Env} {s : State}
  {α β : Type}

/-- The limit comes before the end of the bound. -/
theorem not_ready_zero : ¬ Ready tokens 0 env s := by
  intro h
  have hd := h.sane.depth_le
  have hr := h.room
  omega

theorem Ready.of_leads {t : State} (hs : Ready tokens bound env s)
    (h : Leads env s t) (hd : t.depth = s.depth) : Ready tokens bound env t :=
  ⟨h.rest_suffix.trans hs.rest, h.sane hs.sane, hd ▸ hs.room⟩

/-- One level further in there is one less to come. -/
theorem Ready.enter (hs : Ready tokens (bound + 1) env s) (hd : s.depth < env.maxDepth) :
    Ready tokens bound env (s.moveTo { s.toMoment with depth := s.depth + 1 }) := by
  refine ⟨hs.rest, ⟨hd, hs.sane.dropped⟩, ?_⟩
  have hroom := hs.room
  show env.maxDepth < s.depth + 1 + bound
  omega

/-- Giving up at the limit. -/
theorem leads_refuse (ht : s.tooDeep = false) (hd : env.maxDepth ≤ s.depth) :
    Leads env s (refuse env s).2 ∧ (refuse env s).2.depth = s.depth ∧
      (refuse env s).2.tooDeep = true ∧ (refuse env s).2.rest = [] := by
  rw [refuse_apply ht]
  exact ⟨.single (.giveUp _ ht hd) rfl rfl, rfl, rfl, rfl⟩

/-! ### Orderly parsers -/

/-- What a run from a state comes to that leaves some levels which were held before it. -/
structure Runs (held : Nat) (env env' : Env) (p p' : P α) (s : State) : Prop where
  leads : Leads env s (p env s).2
  depth : (p env s).2.depth + held = s.depth
  same : (p env s).2.tooDeep = false → p' env' s = p env s

def Orderly (tokens : List Token) (bound held : Nat) (p p' : P α) : Prop :=
  ∀ env env' s, env.Raises tokens env' → Ready tokens bound env s → held ≤ s.depth →
    Runs held env env' p p' s

namespace Runs

theorem pure (a : α) : Runs 0 env env' (Pure.pure a) (Pure.pure a) s :=
  ⟨.refl _ _, rfl, fun _ => rfl⟩

theorem bind {p p' : P α} {f f' : α → P β} (hp : Runs 0 env env' p p' s)
    (hf : Runs held env env' (f (p env s).1) (f' (p env s).1) (p env s).2) :
    Runs held env env' (p >>= f) (p' >>= f') s := by
  have hd : (p env s).2.depth = s.depth := hp.depth
  have hl := hf.leads
  refine ⟨hp.leads.trans hl, hf.depth.trans hd, ?_⟩
  · intro ht
    -- the limit cannot have been hit before, since then it would stay so
    have ht' : (p env s).2.tooDeep = false := by
      rw [← Bool.not_eq_true]
      intro h
      exact absurd (hl.tooDeep h) (ne_true_of_eq_false ht)
    calc (p' >>= f') env' s = f' (p' env' s).1 env' (p' env' s).2 := bind_apply ..
      _ = f' (p env s).1 env' (p env s).2 := by rw [hp.same ht']
      _ = f (p env s).1 env (p env s).2 := hf.same ht
      _ = (p >>= f) env s := (bind_apply ..).symm

/-- A run that is one step. -/
theorem step {p p' : P α} {a : α} {m : Moment} (hp : p env s = (a, s.moveTo m))
    (hp' : p' env' s = (a, s.moveTo m))
    (hm : s.toMoment.Step env.maxDepth env.endOfFile m) (hd : m.depth = s.depth) :
    Runs 0 env env' p p' s := by
  refine ⟨?_, ?_, fun _ => hp'.trans hp.symm⟩
  · rw [hp]
    exact .single hm rfl rfl
  · rw [hp]
    exact hd

/-- A run that stays where it is. -/
theorem stay {p p' : P α} {a : α} {t : State} (hp : p env s = (a, t)) (hp' : p' env' s = (a, t))
    (hm : t.toMoment = s.toMoment) (ht : t.trail = s.trail) (hr : t.ranOut = s.ranOut) :
    Runs 0 env env' p p' s := by
  refine ⟨?_, ?_, fun _ => hp'.trans hp.symm⟩
  · rw [hp]
    refine ⟨⟨[], ht, ?_⟩, hr⟩
    rw [hm]
    exact .start
  · rw [hp]
    exact congrArg Moment.depth hm

/-- Whether `await` is a reserved word has nothing to do with levels. -/
theorem withAsync {p p' : P α} {inAsync : Bool}
    (hp : Runs held { env with inAsync := inAsync } { env' with inAsync := inAsync } p p' s) :
    Runs held env env' (withReader ({ · with inAsync := inAsync }) p)
      (withReader ({ · with inAsync := inAsync }) p') s :=
  ⟨⟨hp.leads.course, hp.leads.ranOut⟩, hp.depth, hp.same⟩

end Runs

namespace Orderly

variable {p p' : P α} {f f' : α → P β}

theorem pure (a : α) : Orderly tokens bound 0 (Pure.pure a) (Pure.pure a) :=
  fun _ _ _ _ _ _ => .pure a

theorem bind (hp : Orderly tokens bound 0 p p') (hf : ∀ a, Orderly tokens bound held (f a) (f' a)) :
    Orderly tokens bound held (p >>= f) (p' >>= f') := by
  intro env env' s he hs hheld
  have hp := hp env env' s he hs (Nat.zero_le _)
  have hd : (p env s).2.depth = s.depth := hp.depth
  exact .bind hp (hf _ env env' _ he (hs.of_leads hp.leads hd) (hd ▸ hheld))

theorem map {g : α → β} (hp : Orderly tokens bound 0 p p') :
    Orderly tokens bound 0 (g <$> p) (g <$> p') :=
  .bind hp fun _ => .pure _

theorem ite {c : Prop} [Decidable c] {q q' : P α} (hp : Orderly tokens bound held p p')
    (hq : Orderly tokens bound held q q') :
    Orderly tokens bound held (if c then p else q) (if c then p' else q') := by
  split
  · exact hp
  · exact hq

/-- Two ways to come to the same last step. -/
theorem iteBind {c : Prop} [Decidable c] {q q' : P α} (hp : Orderly tokens bound 0 p p')
    (hq : Orderly tokens bound 0 q q') (hf : ∀ a, Orderly tokens bound held (f a) (f' a)) :
    Orderly tokens bound held (if c then p >>= f else q >>= f)
      (if c then p' >>= f' else q' >>= f') :=
  .ite (.bind hp hf) (.bind hq hf)

theorem get {f f' : State → P β}
    (hf : ∀ s, s.rest <:+ tokens → Orderly tokens bound held (f s) (f' s)) :
    Orderly tokens bound held (MonadState.get >>= f) (MonadState.get >>= f') := by
  intro env env' s he hs hheld
  obtain ⟨hl, hd, hsame⟩ := hf s hs.rest env env' s he hs hheld
  exact ⟨hl, hd, hsame⟩

/-- What is read of the environment may differ as far as the limit does. -/
theorem read {f f' : Env → P β}
    (hf : ∀ env env', env.Raises tokens env' → Orderly tokens bound held (f env) (f' env')) :
    Orderly tokens bound held (MonadReader.read >>= f) (MonadReader.read >>= f') := by
  intro env env' s he hs hheld
  obtain ⟨hl, hd, hsame⟩ := hf env env' he env env' s he hs hheld
  exact ⟨hl, hd, hsame⟩

/-- Whatever leaves all but the names and the polls alone is orderly. -/
theorem modify {g : State → State} (hm : ∀ s, (g s).toMoment = s.toMoment)
    (ht : ∀ s, (g s).trail = s.trail) (hr : ∀ s, (g s).ranOut = s.ranOut) :
    Orderly tokens bound 0 (modify g) (modify g) :=
  fun _ _ s _ _ _ => .stay rfl rfl (hm s) (ht s) (hr s)

theorem withAsync (inAsync : Bool) (hp : Orderly tokens bound 0 p p') :
    Orderly tokens bound 0 (withReader ({ · with inAsync := inAsync }) p)
      (withReader ({ · with inAsync := inAsync }) p') := by
  intro env env' s he hs hheld
  exact .withAsync (hp _ _ s (he.withAsync inAsync) ⟨hs.rest, hs.sane, hs.room⟩ hheld)

/-! ### Levels -/

/-- Entering a level, where what follows leaves it again. -/
theorem enter {f f' : Bool → P α} (hbody : Orderly tokens bound (held + 1) (f true) (f' true))
    (hrefused : Orderly tokens (bound + 1) held (f false) (f' false)) :
    Orderly tokens (bound + 1) held (Parser.enter >>= f) (Parser.enter >>= f') := by
  intro env env' s he hs hheld
  rcases Bool.eq_false_or_eq_true s.tooDeep with ht | ht
  · -- nothing can be entered any more
    have hrun : (Parser.enter >>= f) env s = f false env s := by
      rw [bind_apply, enter_of_tooDeep ht]
    obtain ⟨hl, hd, -⟩ := hrefused env env' s he hs hheld
    refine ⟨hrun ▸ hl, hrun ▸ hd, fun h => ?_⟩
    rw [hrun] at h
    exact absurd (hl.tooDeep ht) (ne_true_of_eq_false h)
  rcases Nat.lt_or_ge s.depth env.maxDepth with hlt | hge
  · -- the level is entered under both limits
    let t := s.moveTo { s.toMoment with depth := s.depth + 1 }
    have hrun : (Parser.enter >>= f) env s = f true env t := by
      rw [bind_apply, enter_of_lt ht hlt]
    have hrun' : (Parser.enter >>= f') env' s = f' true env' t := by
      rw [bind_apply, enter_of_lt ht (Nat.lt_of_lt_of_le hlt he.maxDepth_le)]
    have hready : Ready tokens bound env t := hs.enter hlt
    have hentered : Leads env s t := .single (.enter ht hlt) rfl rfl
    obtain ⟨hl, hd, hsame⟩ := hbody env env' t he hready (Nat.succ_le_succ hheld)
    refine ⟨?_, ?_, fun h => ?_⟩
    · rw [hrun]
      exact hentered.trans hl
    · rw [hrun]
      have hd : (f true env t).2.depth + (held + 1) = s.depth + 1 := hd
      omega
    · rw [hrun] at h ⊢
      rw [hrun', hsame h]
  · -- the limit is hit
    let t := (Parser.refuse env s).2
    have hrun : (Parser.enter >>= f) env s = f false env t := by
      rw [bind_apply, enter_of_le ht hge]
    obtain ⟨hleads, hdepth, hdeep, -⟩ := leads_refuse ht hge
    obtain ⟨hl, hd, -⟩ := hrefused env env' t he (hs.of_leads hleads hdepth) (hdepth ▸ hheld)
    refine ⟨?_, ?_, fun h => ?_⟩
    · rw [hrun]
      exact hleads.trans hl
    · rw [hrun]
      exact hd.trans hdepth
    · rw [hrun] at h
      exact absurd (hl.tooDeep hdeep) (ne_true_of_eq_false h)

/-- Leaving the levels that are held, at the end of what held them. -/
theorem leave (levels : Nat) (a : α) :
    Orderly tokens bound levels (do Parser.leave levels; return a)
      (do Parser.leave levels; return a) := by
  intro env env' s _ _ hheld
  refine ⟨.single (.leave hheld) rfl ?_, Nat.sub_add_cancel hheld, fun _ => rfl⟩
  show (s.ranOut || decide (s.depth < levels)) = s.ranOut
  rw [decide_eq_false (Nat.not_lt.mpr hheld), Bool.or_false]

theorem nested {refused : P α} (hr : Orderly tokens (bound + 1) 0 refused refused)
    (hp : Orderly tokens bound 0 p p') :
    Orderly tokens (bound + 1) 0 (nested refused p) (nested refused p') :=
  .enter (.bind hp fun a => .leave 1 a) hr

end Orderly

/-! ### Where tokens are taken -/

/-- An orderly parser that takes one of the tokens that are left, where these are known, unless it
comes to a result of some sort. -/
def Advances (tokens : List Token) (bound : Nat) (ts : List Token) (stays : α → Prop)
    (p p' : P α) : Prop :=
  ∀ env env' s, env.Raises tokens env' → Ready tokens bound env s → s.rest = ts →
    Runs 0 env env' p p' s ∧ (stays (p env s).1 ∨ (p env s).2.rest.length < ts.length)

/-- The same, whatever it comes to. -/
abbrev Takes (tokens : List Token) (bound : Nat) (ts : List Token) (p p' : P α) : Prop :=
  Advances tokens bound ts (fun _ => False) p p'

/-- An orderly parser that takes a token wherever one of some kinds comes first. -/
def TakesFirst (tokens : List Token) (bound : Nat) (first : TokenKind → Bool) (p p' : P α) : Prop :=
  ∀ ts, Advances tokens bound ts (fun _ => first (Lookahead.kind ts) = false) p p'

variable {ts : List Token} {p p' : P α}

namespace Advances

variable {stays : α → Prop} {after : β → Prop} {f f' : α → P β}

theorem pure {a : α} (h : stays a) :
    Advances tokens bound ts stays (Pure.pure a) (Pure.pure a) :=
  fun _ _ _ _ _ _ => ⟨.pure a, .inl h⟩

theorem orderly {stays : List Token → α → Prop}
    (h : ∀ ts, Advances tokens bound ts (stays ts) p p') : Orderly tokens bound 0 p p' :=
  fun env env' s he hs _ => (h s.rest env env' s he hs rfl).1

/-- An orderly parser with nothing more to show. -/
theorem of_orderly (hp : Orderly tokens bound 0 p p') (h : ∀ a, stays a) :
    Advances tokens bound ts stays p p' :=
  fun env env' s he hs _ => ⟨hp env env' s he hs (Nat.zero_le _), .inl (h _)⟩

theorem imp {stays' : α → Prop} (hp : Advances tokens bound ts stays p p')
    (h : ∀ a, stays a → stays' a) : Advances tokens bound ts stays' p p' :=
  fun env env' s he hs hts => (hp env env' s he hs hts).imp_right (.imp_left (h _))

/-- Where the first part may have taken none, what follows has to take a token. -/
theorem bind (hp : Advances tokens bound ts stays p p')
    (hf : ∀ a, Orderly tokens bound 0 (f a) (f' a))
    (hstays : ∀ a, stays a → Advances tokens bound ts after (f a) (f' a)) :
    Advances tokens bound ts after (p >>= f) (p' >>= f') := by
  intro env env' s he hs hts
  obtain ⟨hrun, hround⟩ := hp env env' s he hs hts
  have hready := hs.of_leads hrun.leads hrun.depth
  have hrun' := hf (p env s).1 env env' _ he hready (Nat.zero_le _)
  have hsuffix : (p env s).2.rest <:+ ts := hts ▸ hrun.leads.rest_suffix
  have hle : ((p >>= f) env s).2.rest.length ≤ (p env s).2.rest.length :=
    hrun'.leads.rest_suffix.length_le
  refine ⟨.bind hrun hrun', ?_⟩
  by_cases hrest : (p env s).2.rest = ts
  · have ha := hround.resolve_right (by rw [hrest]; exact Nat.lt_irrefl _)
    exact (hstays _ ha env env' _ he hready hrest).2
  · have hlt := Nat.lt_of_le_of_ne hsuffix.length_le
      fun h => hrest (hsuffix.eq_of_length h)
    exact .inr (Nat.lt_of_le_of_lt hle hlt)

/-- The same where nothing is known of the first part. -/
theorem bindElse (hp : Orderly tokens bound 0 p p')
    (hf : ∀ a, Orderly tokens bound 0 (f a) (f' a))
    (helse : ∀ a, Advances tokens bound ts after (f a) (f' a)) :
    Advances tokens bound ts after (p >>= f) (p' >>= f') :=
  .bind (.of_orderly hp fun _ => trivial) hf fun a _ => helse a

/-- What takes a token has done so whatever follows. -/
theorem bindTakes (hp : Takes tokens bound ts p p')
    (hf : ∀ a, Orderly tokens bound 0 (f a) (f' a)) :
    Advances tokens bound ts after (p >>= f) (p' >>= f') :=
  .bind hp hf fun _ => False.elim

/-- What is known of the first part where it takes none is still known after what follows. -/
theorem bindFirst {c : Prop} (hp : Advances tokens bound ts (fun _ => c) p p')
    (hf : ∀ a, Orderly tokens bound 0 (f a) (f' a)) :
    Advances tokens bound ts (fun _ => c) (p >>= f) (p' >>= f') :=
  .bind hp hf fun a h => .of_orderly (hf a) fun _ => h

theorem map {g : α → β} (hp : Advances tokens bound ts stays p p')
    (h : ∀ a, stays a → after (g a)) : Advances tokens bound ts after (g <$> p) (g <$> p') :=
  .bind hp (fun _ => .pure _) fun a ha => .pure (h a ha)

/-- What follows takes a token from wherever it begins. -/
theorem bindAfter (hp : Orderly tokens bound 0 p p')
    (hf : ∀ a us, Advances tokens bound us after (f a) (f' a)) :
    Advances tokens bound ts after (p >>= f) (p' >>= f') := by
  intro env env' s he hs hts
  have hrun := hp env env' s he hs (Nat.zero_le _)
  have hready := hs.of_leads hrun.leads hrun.depth
  have hle : (p env s).2.rest.length ≤ ts.length := hts ▸ hrun.leads.rest_suffix.length_le
  obtain ⟨hrun', hround⟩ := hf _ _ env env' _ he hready rfl
  exact ⟨.bind hrun hrun', hround.imp_right fun h => Nat.lt_of_lt_of_le h hle⟩

theorem ite {c : Prop} [Decidable c] {q q' : P α}
    (hp : c → Advances tokens bound ts stays p p')
    (hq : ¬ c → Advances tokens bound ts stays q q') :
    Advances tokens bound ts stays (if c then p else q) (if c then p' else q') := by
  split
  next h => exact hp h
  next h => exact hq h

theorem get {f f' : State → P β}
    (hf : ∀ s, s.rest = ts → s.rest <:+ tokens → Advances tokens bound ts after (f s) (f' s)) :
    Advances tokens bound ts after (MonadState.get >>= f) (MonadState.get >>= f') := by
  intro env env' s he hs hts
  obtain ⟨⟨hl, hd, hsame⟩, hround⟩ := hf s hts hs.rest env env' s he hs hts
  exact ⟨⟨hl, hd, hsame⟩, hround⟩

theorem read {f f' : Env → P β}
    (hf : ∀ env env', env.Raises tokens env' →
      Advances tokens bound ts after (f env) (f' env')) :
    Advances tokens bound ts after (MonadReader.read >>= f) (MonadReader.read >>= f') := by
  intro env env' s he hs hts
  obtain ⟨⟨hl, hd, hsame⟩, hround⟩ := hf env env' he env env' s he hs hts
  exact ⟨⟨hl, hd, hsame⟩, hround⟩

theorem current {f f' : Token → P β}
    (hf : ∀ t, t.kind = Lookahead.kind ts → Advances tokens bound ts after (f t) (f' t)) :
    Advances tokens bound ts after (Parser.current >>= f) (Parser.current >>= f') := by
  intro env env' s he hs hts
  have hk : (s.rest.headD env.endOfFile).kind = Lookahead.kind ts :=
    hts ▸ kind_headD he.kind_endOfFile s.rest
  obtain ⟨⟨hl, hd, hsame⟩, hround⟩ := hf _ hk env env' s he hs hts
  refine ⟨⟨hl, hd, fun h => ?_⟩, hround⟩
  show f' (s.rest.headD env'.endOfFile) env' s = _
  rw [he.endOfFile]
  exact hsame h

theorem currentKind {f f' : TokenKind → P β}
    (hf : Advances tokens bound ts after (f (Lookahead.kind ts)) (f' (Lookahead.kind ts))) :
    Advances tokens bound ts after (Parser.currentKind >>= f) (Parser.currentKind >>= f') := by
  show Advances tokens bound ts after (Parser.current >>= fun t => f t.kind)
    (Parser.current >>= fun t => f' t.kind)
  refine .current fun t ht => ?_
  rw [ht]
  exact hf

theorem withAsync (inAsync : Bool) (hp : Advances tokens bound ts stays p p') :
    Advances tokens bound ts stays (withReader ({ · with inAsync := inAsync }) p)
      (withReader ({ · with inAsync := inAsync }) p') := by
  intro env env' s he hs hts
  obtain ⟨hrun, hround⟩ :=
    hp _ _ s (he.withAsync inAsync) ⟨hs.rest, hs.sane, hs.room⟩ hts
  exact ⟨.withAsync hrun, hround⟩

/-- A level in which a token is taken. At the limit all of them are dropped. -/
theorem nested {refused : P α} (hr : Orderly tokens (bound + 1) 0 refused refused)
    (hp : Orderly tokens bound 0 p p')
    (hstays : ts ≠ [] → Advances tokens bound ts stays p p') (hnil : ts = [] → ∀ a, stays a) :
    Advances tokens (bound + 1) ts stays (nested refused p) (nested refused p') := by
  intro env env' s he hs hrest
  have hrun := Orderly.nested hr hp env env' s he hs (Nat.zero_le _)
  refine ⟨hrun, ?_⟩
  by_cases hts : ts = []
  · exact .inl (hnil hts _)
  rcases Bool.eq_false_or_eq_true s.tooDeep with ht | ht
  · exact absurd (hrest ▸ hs.sane.dropped ht) hts
  rcases Nat.lt_or_ge s.depth env.maxDepth with hlt | hge
  · rw [nested_of_lt ht hlt]
    exact (hstays hts env env' _ he (hs.enter hlt) hrest).2
  · let t := (Parser.refuse env s).2
    obtain ⟨hleads, hdepth, -, hdropped⟩ := leads_refuse ht hge
    have hrun' := hr env env t he.left (hs.of_leads hleads hdepth) (Nat.zero_le _)
    have hle := hrun'.leads.rest_suffix.length_le
    rw [hdropped, List.length_nil] at hle
    rw [nested_of_le ht hge]
    exact .inr (Nat.lt_of_le_of_lt hle (List.length_pos_iff.mpr hts))

end Advances

namespace TakesFirst

variable {first : TokenKind → Bool} {f f' : α → P β}

theorem orderly (h : TakesFirst tokens bound first p p') : Orderly tokens bound 0 p p' :=
  Advances.orderly h

theorem takes (h : TakesFirst tokens bound first p p') (hts : first (Lookahead.kind ts) = true) :
    Takes tokens bound ts p p' :=
  (h ts).imp fun _ hf => absurd hts (ne_true_of_eq_false hf)

theorem of_takes (ho : Orderly tokens bound 0 p p')
    (h : ∀ ts, first (Lookahead.kind ts) = true → Takes tokens bound ts p p') :
    TakesFirst tokens bound first p p' := by
  intro ts
  rcases Bool.eq_false_or_eq_true (first (Lookahead.kind ts)) with hts | hts
  · exact (h ts hts).imp fun _ => False.elim
  · exact .of_orderly ho fun _ => hts

theorem bind (hp : TakesFirst tokens bound first p p')
    (hf : ∀ a, Orderly tokens bound 0 (f a) (f' a)) :
    TakesFirst tokens bound first (p >>= f) (p' >>= f') :=
  fun ts => .bindFirst (hp ts) hf

theorem current {f f' : Token → P β} (hf : ∀ t, TakesFirst tokens bound first (f t) (f' t)) :
    TakesFirst tokens bound first (Parser.current >>= f) (Parser.current >>= f') :=
  fun ts => .current fun t _ => hf t ts

/-- A level of which the first token is taken if it is of some kinds. -/
theorem nested {refused : P α} (hr : Orderly tokens (bound + 1) 0 refused refused)
    (hp : TakesFirst tokens bound first p p') (hfirst : first .endOfFile = false) :
    TakesFirst tokens (bound + 1) first (Parser.nested refused p) (Parser.nested refused p') :=
  fun ts => .nested hr hp.orderly (fun _ => hp ts) fun h _ => h ▸ hfirst

end TakesFirst

/-! ### Loops -/

/-- Whether a round is the last one of a loop. -/
def IsLast : ForInStep α → Prop
  | .done _ => True
  | .yield _ => False

/-- One round of reading items until there is none. -/
def itemStep (item : P (Option α)) (items : List α) : P (ForInStep (List α)) := do
  match ← item with
  | some a => return .yield (a :: items)
  | none => return .done items

theorem advances_itemStep {item item' : P (Option α)}
    (hi : Advances tokens bound ts (· = none) item item') (items : List α) :
    Advances tokens bound ts IsLast (itemStep item items) (itemStep item' items) := by
  refine .bind hi (fun a? => ?_) ?_
  · cases a? <;> exact .pure _
  · rintro _ rfl
    exact .pure trivial

namespace Orderly

/-- Rounds of which all but the last take a token are fewer than the tokens and one more. -/
theorem iterate {step step' : α → P (ForInStep α)}
    (hstep : ∀ a ts, Advances tokens bound ts IsLast (step a) (step' a))
    (he : env.Raises tokens env') (n : Nat) (a : α) (s : State) (hs : Ready tokens bound env s)
    (hn : s.rest.length < n) : Runs 0 env env' (iterate step n a) (iterate step' n a) s := by
  induction n generalizing a s with
  | zero => omega
  | succ n ih =>
    obtain ⟨hrun, hround⟩ := hstep a s.rest env env' s he hs rfl
    refine .bind hrun ?_
    cases hr : (step a env s).1 with
    | done b => exact .pure b
    | yield b =>
      rw [hr] at hround
      have hlt := hround.resolve_left id
      exact ih b _ (hs.of_leads hrun.leads hrun.depth) (by omega)

theorem loop {step step' : α → P (ForInStep α)} (a : α)
    (hstep : ∀ a ts, Advances tokens bound ts IsLast (step a) (step' a)) :
    Orderly tokens bound 0 (loop a step) (loop a step') := by
  intro env env' s he hs _
  have hlt : s.rest.length < env.budget := Nat.lt_of_le_of_lt hs.rest.length_le he.lt_budget
  obtain ⟨hl, hd, hsame⟩ := iterate hstep he env.budget a s hs hlt
  refine ⟨hl, hd, fun h => ?_⟩
  show Parser.iterate step' env'.budget a env' s = _
  rw [he.budget]
  exact hsame h

theorem many {item item' : P (Option α)}
    (hi : ∀ ts, Advances tokens bound ts (· = none) item item') :
    Orderly tokens bound 0 (many item) (many item') :=
  .bind (.loop [] fun items ts => advances_itemStep (hi ts) items) fun _ => .pure _

end Orderly

/-! ### Elementary steps -/

theorem orderly_current : Orderly tokens bound 0 current current := by
  refine .get fun s _ => .read fun env env' he => ?_
  rw [he.endOfFile]
  exact .pure _

theorem orderly_currentKind : Orderly tokens bound 0 currentKind currentKind :=
  .bind orderly_current fun _ => .pure _

theorem orderly_advance : Orderly tokens bound 0 advance advance := by
  intro env env' s _ _ _
  cases h : s.rest with
  | nil =>
    have hrun (env : Env) : advance env s = ((), s) := by
      obtain ⟨⟨rest, prevStop, depth, tooDeep, diagnostics⟩, names, polls, trail, ranOut⟩ := s
      obtain rfl : rest = [] := h
      rfl
    exact .stay (hrun env) (hrun env') rfl rfl rfl
  | cons t rest => exact .step (advance_apply h) (advance_apply h) (.take h) rfl

theorem takes_advance (h : ts ≠ []) : Takes tokens bound ts advance advance := by
  intro env env' s he hs hts
  refine ⟨orderly_advance env env' s he hs (Nat.zero_le _), ?_⟩
  obtain ⟨t, rest, rfl⟩ := List.exists_cons_of_ne_nil h
  rw [advance_apply hts]
  exact .inr (Nat.lt_succ_self _)

theorem advances_advance : Advances tokens bound ts (fun _ => ts = []) advance advance := by
  by_cases h : ts = []
  · exact .of_orderly orderly_advance fun _ => h
  · exact (takes_advance h).imp fun _ => False.elim

theorem orderly_advanceBy (n : Nat) : Orderly tokens bound 0 (advanceBy n) (advanceBy n) := by
  induction n with
  | zero => exact .pure _
  | succ n ih => exact .bind orderly_advance fun _ => ih

theorem takes_advanceBy (h : ts ≠ []) {n : Nat} (hn : n ≠ 0) :
    Takes tokens bound ts (advanceBy n) (advanceBy n) := by
  obtain ⟨n, rfl⟩ := Nat.exists_eq_succ_of_ne_zero hn
  exact .bindTakes (takes_advance h) fun _ => orderly_advanceBy n

theorem orderly_rangeFrom (start : Nat) :
    Orderly tokens bound 0 (rangeFrom start) (rangeFrom start) :=
  .get fun _ _ => .pure _

/-- A report of anything but the limit, which only `refuse` reports. -/
theorem orderly_report {message : Message} (hm : message ≠ .tooDeep) (span : Span)
    (arguments : List String) :
    Orderly tokens bound 0 (report message span arguments) (report message span arguments) := by
  intro env env' s _ _ _
  let t := s.moveTo { s.toMoment with
    diagnostics := s.diagnostics.push (.of message span arguments) }
  have hrun (env : Env) : report message span arguments env s =
      ((), if s.tooDeep = true then s else t) := rfl
  rcases Bool.eq_false_or_eq_true s.tooDeep with ht | ht
  · rw [if_pos ht] at hrun
    exact .stay (hrun env) (hrun env') rfl rfl rfl
  · rw [if_neg (ne_true_of_eq_false ht)] at hrun
    exact .step (hrun env) (hrun env') (.report message span arguments ht hm) rfl

theorem orderly_expectedSpan : Orderly tokens bound 0 expectedSpan expectedSpan :=
  .bind orderly_current fun _ => .ite (.get fun _ _ => .pure _) (.pure _)

theorem expectedMessage_ne_tooDeep (kind : TokenKind) : (expectedMessage kind).1 ≠ .tooDeep := by
  unfold expectedMessage
  split <;> simp

theorem orderly_reportExpected (kind : TokenKind) (span : Span) :
    Orderly tokens bound 0 (reportExpected kind span) (reportExpected kind span) :=
  orderly_report (expectedMessage_ne_tooDeep kind) _ _

theorem orderly_eat (kind : TokenKind) : Orderly tokens bound 0 (eat kind) (eat kind) := by
  refine .bind orderly_current fun _ => .ite (.bind orderly_advance fun _ => .pure _) ?_
  refine .bind orderly_expectedSpan fun _ => .bind (orderly_reportExpected _ _) fun _ => ?_
  exact .get fun _ _ => .pure _

theorem orderly_accept (kind : TokenKind) : Orderly tokens bound 0 (accept kind) (accept kind) :=
  .bind orderly_currentKind fun _ => .ite (.bind orderly_advance fun _ => .pure _) (.pure _)

theorem orderly_take : Orderly tokens bound 0 take take :=
  .bind orderly_current fun _ => .bind orderly_advance fun _ => .pure _

theorem orderly_replace (kind : TokenKind) : Orderly tokens bound 0 (replace kind) (replace kind) :=
  .bind orderly_current fun _ => .bind (orderly_reportExpected _ _) fun _ => orderly_advance

theorem orderly_eatContextual (word : String) :
    Orderly tokens bound 0 (eatContextual word) (eatContextual word) := by
  refine .bind orderly_current fun _ => .ite orderly_advance ?_
  exact .bind orderly_expectedSpan fun _ => orderly_report (by simp) _ _

theorem orderly_noteName (name : String) :
    Orderly tokens bound 0 (noteName name) (noteName name) :=
  .modify (fun _ => rfl) (fun _ => rfl) fun _ => rfl

theorem orderly_identifierOf (t : Token) :
    Orderly tokens bound 0 (identifierOf t) (identifierOf t) :=
  .bind (orderly_noteName _) fun _ => .pure _

theorem orderly_identifier : Orderly tokens bound 0 identifier identifier := by
  refine .bind orderly_current fun _ => .ite ?_ ?_
  · exact .bind orderly_advance fun _ => orderly_identifierOf _
  · refine .bind orderly_expectedSpan fun _ => .bind (orderly_reportExpected _ _) fun _ => ?_
    exact .bind (orderly_noteName _) fun _ => .get fun _ _ => .pure _

theorem orderly_missingExpression :
    Orderly tokens bound 0 missingExpression missingExpression :=
  .get fun _ _ => .pure _

theorem orderly_missingType : Orderly tokens bound 0 missingType missingType :=
  .get fun _ _ => .pure _

theorem orderly_emptyStatement : Orderly tokens bound 0 emptyStatement emptyStatement :=
  .get fun _ _ => .pure _

/-! ### Elementary steps that take tokens -/

section

variable {kind : TokenKind}

theorem ne_nil_of_kind (h : Lookahead.kind ts = kind) (hk : kind ≠ .endOfFile) : ts ≠ [] := by
  rintro rfl
  exact hk h.symm

theorem takes_eat (h : Lookahead.kind ts = kind) (hk : kind ≠ .endOfFile) :
    Takes tokens bound ts (eat kind) (eat kind) := by
  refine .current fun t ht => .ite (fun _ => ?_) fun hne => absurd (ht.trans h) hne
  exact .bindTakes (takes_advance (ne_nil_of_kind h hk)) fun _ => .pure _

theorem takesFirst_eat (hk : kind ≠ .endOfFile) :
    TakesFirst tokens bound (· == kind) (eat kind) (eat kind) :=
  .of_takes (orderly_eat kind) fun _ h => takes_eat (eq_of_beq h) hk

theorem takes_take (h : ts ≠ []) : Takes tokens bound ts take take :=
  .current fun _ _ => .bindTakes (takes_advance h) fun _ => .pure _

theorem takes_identifier (h : Lookahead.kind ts = .identifier) :
    Takes tokens bound ts identifier identifier := by
  refine .current fun t ht => .ite (fun _ => ?_) fun hne => absurd (ht.trans h) hne
  exact .bindTakes (takes_advance (ne_nil_of_kind h (by simp))) fun _ => orderly_identifierOf _

theorem takes_replace (h : ts ≠ []) : Takes tokens bound ts (replace kind) (replace kind) :=
  .current fun _ _ => .bindElse (orderly_reportExpected _ _) (fun _ => orderly_advance)
    fun _ => takes_advance h

theorem takesFirst_identifier :
    TakesFirst tokens bound (· == .identifier) identifier identifier :=
  .of_takes orderly_identifier fun _ h => takes_identifier (eq_of_beq h)

/-- A token that was accepted has been taken. -/
theorem advances_accept (hk : kind ≠ .endOfFile) :
    Advances tokens bound ts (· = false) (accept kind) (accept kind) := by
  refine .currentKind (.ite (fun h => ?_) fun _ => .pure rfl)
  exact .bindTakes (takes_advance (ne_nil_of_kind h hk)) fun _ => .pure _

end

/-! ### Lists with commas -/

theorem orderly_afterCommas {item item' : P α} (hi : Orderly tokens bound 0 item item') :
    Orderly tokens bound 0 (afterCommas item) (afterCommas item') := by
  refine .many fun ts => .bind (advances_accept (by simp)) (fun _ => ?_) ?_
  · exact .ite (.bind hi fun _ => .pure _) (.pure _)
  · rintro _ rfl
    exact .pure rfl

theorem orderly_separated {item item' : P α} (hi : Orderly tokens bound 0 item item') :
    Orderly tokens bound 0 (separated item) (separated item') :=
  .bind hi fun _ => .bind (orderly_afterCommas hi) fun _ => .pure _

/-! ### Rules -/

/-- Whether a type can begin with a token of a kind. -/
def startsType (kind : TokenKind) : Bool := kind == .identifier || kind.isPredefinedType

/-- Rules that are orderly, beside their counterparts under a higher limit. Some of them take a
token wherever what they read can begin. -/
structure Rules.AreOrderly (tokens : List Token) (bound : Nat) (r r' : Rules) : Prop where
  statement : TakesFirst tokens bound (·.startsStatement) r.statement r'.statement
  expression : TakesFirst tokens bound (·.startsExpression) r.expression r'.expression
  unary : TakesFirst tokens bound (·.startsExpression) r.unary r'.unary
  type (withRanks : Bool) :
    TakesFirst tokens bound startsType (r.type withRanks) (r'.type withRanks)
  binaryTail (levels least start : Nat) (left : Expr) :
    Orderly tokens bound levels (r.binaryTail levels least start left)
      (r'.binaryTail levels least start left)
  postfixTail (levels start : Nat) (operand : Expr) :
    Orderly tokens bound levels (r.postfixTail levels start operand)
      (r'.postfixTail levels start operand)
  elements : Orderly tokens bound 0 r.elements r'.elements
  continuationBody : Orderly tokens bound 0 r.continuationBody r'.continuationBody

/-- The end of the bound is never reached. -/
theorem Rules.areOrderly_zero (r r' : Rules) : Rules.AreOrderly tokens 0 r r' := by
  have horderly {α : Type} {held : Nat} (p p' : P α) : Orderly tokens 0 held p p' :=
    fun _ _ _ _ hs => (not_ready_zero hs).elim
  have htakes {α : Type} (first : TokenKind → Bool) (p p' : P α) : TakesFirst tokens 0 first p p' :=
    fun _ _ _ _ _ hs => (not_ready_zero hs).elim
  exact ⟨htakes _ _ _, htakes _ _ _, htakes _ _ _, fun _ => htakes _ _ _,
    fun _ _ _ _ => horderly _ _, fun _ _ _ => horderly _ _, horderly _ _, horderly _ _⟩

variable {r r' : Rules}

/-! ### Types -/

theorem advances_rankStep (start : Nat) (type : TypeSyntax) :
    Advances tokens bound ts IsLast (rankStep start type) (rankStep start type) := by
  refine .get fun s hs _ => .ite (fun h => ?_) fun _ => .pure trivial
  have hts : ts ≠ [] := ne_nil_of_kind (hs ▸ h.1) (by simp)
  refine .bindTakes (takes_advance hts) fun _ => .get fun _ _ => ?_
  refine .bind (orderly_advanceBy _) fun _ => .bind (orderly_eat _) fun _ => ?_
  exact .bind (orderly_rangeFrom _) fun _ => .pure _

theorem orderly_rankSpecifiers (start : Nat) (type : TypeSyntax) :
    Orderly tokens bound 0 (rankSpecifiers start type) (rankSpecifiers start type) :=
  .loop _ fun type _ => advances_rankStep start type

theorem takesFirst_simpleName (hr : r.AreOrderly tokens bound r') :
    TakesFirst tokens bound (· == .identifier) (simpleName r) (simpleName r') := by
  refine .current fun _ => .bind takesFirst_identifier fun _ => ?_
  refine .read fun env env' he => .get fun s hs => ?_
  rw [he.types.startsTypeArguments hs]
  refine .ite (.bind orderly_advance fun _ => ?_) (.pure _)
  refine .bind (orderly_separated (hr.type true).orderly) fun _ => ?_
  exact .bind (orderly_eat _) fun _ => .bind (orderly_rangeFrom _) fun _ => .pure _

theorem advances_nameStep (hr : r.AreOrderly tokens bound r') (start : Nat) (left : TypeSyntax) :
    Advances tokens bound ts IsLast (nameStep r start left) (nameStep r' start left) := by
  refine .get fun s hs _ => .ite (fun h => ?_) fun _ => .pure trivial
  have hts : ts ≠ [] := by
    rcases hs ▸ h.1 with hk | hk
    · exact ne_nil_of_kind hk (by simp)
    · exact ne_nil_of_kind hk (by simp)
  refine .bindTakes (takes_advance hts) fun _ => ?_
  refine .bind (takesFirst_simpleName hr).orderly fun _ => ?_
  exact .bind (orderly_rangeFrom _) fun _ => .pure _

theorem takesFirst_name (hr : r.AreOrderly tokens bound r') :
    TakesFirst tokens bound (· == .identifier) (name r) (name r') := by
  refine .current fun _ => .bind (takesFirst_simpleName hr) fun _ => ?_
  exact .loop _ fun left _ => advances_nameStep hr _ left

theorem takesFirst_typeCore? (hr : r.AreOrderly tokens bound r') :
    TakesFirst tokens bound startsType (typeCore? r) (typeCore? r') := by
  refine fun ts => .current fun t ht => ?_
  cases hspecial : t.kind.special? with
  | some s =>
    have hts : ts ≠ [] := by
      rintro rfl
      rw [ht] at hspecial
      cases hspecial
    exact .bindTakes (takes_advance hts) fun _ => .pure _
  | none =>
    refine .ite (fun hi => ?_) fun hi => .pure ?_
    · have hname := (takesFirst_name hr).takes (beq_iff_eq.mpr (ht ▸ hi))
      exact .bindTakes hname fun _ => .pure _
    · rw [ht] at hi hspecial
      simp [startsType, TokenKind.isPredefinedType, hi, hspecial]

theorem orderly_typeRest (withRanks : Bool) (start : Nat) (core? : Option TypeSyntax) :
    Orderly tokens bound 0 (typeRest withRanks start core?) (typeRest withRanks start core?) := by
  cases core? with
  | none =>
    refine .bind orderly_expectedSpan fun _ => .bind (orderly_report (by simp) _ _) fun _ => ?_
    exact orderly_missingType
  | some core =>
    have hrest (type : TypeSyntax) : Orderly tokens bound 0
        (if withRanks then rankSpecifiers start type else return type)
        (if withRanks then rankSpecifiers start type else return type) :=
      .ite (orderly_rankSpecifiers _ _) (.pure _)
    refine .bind (orderly_accept _) fun _ => .ite ?_ (hrest core)
    exact .bind (orderly_rangeFrom _) fun _ => hrest _

theorem takesFirst_typeBody (withRanks : Bool) (hr : r.AreOrderly tokens bound r') :
    TakesFirst tokens bound startsType (typeBody withRanks r) (typeBody withRanks r') :=
  .current fun _ => .bind (takesFirst_typeCore? hr) fun _ => orderly_typeRest _ _ _

end CSharpFront.Parser
