import CSharpFront.Proofs.Parser.Grown
/-!
The elementary steps of the parser, its loops and its levels, and what they add to a tree: a token
that is taken adds itself, and what is made up is made up after a report or past the limit. The
types that are put together of such steps.
-/

namespace CSharpFront.Parser

variable {last : Token} {α β : Type} {start reports : Nat} {os : List Outline} {role : String}

/-! ### What only goes forward -/

theorem quiet_of_moment_eq {p : P α} (h : ∀ env s, (p env s).2.toMoment = s.toMoment) :
    Quiet last p := by
  intro env s _ hs _
  rw [h env s]
  exact ⟨hs, .refl _, trivial⟩

theorem quiet_get : Quiet last (MonadState.get : P State) := quiet_of_moment_eq fun _ _ => rfl

theorem quiet_read : Quiet last (MonadReader.read : P Env) := quiet_of_moment_eq fun _ _ => rfl

theorem quiet_current : Quiet last current := quiet_of_moment_eq fun _ _ => rfl

theorem quiet_currentKind : Quiet last currentKind := quiet_of_moment_eq fun _ _ => rfl

theorem quiet_noteName (name : String) : Quiet last (noteName name) :=
  quiet_of_moment_eq fun _ _ => rfl

theorem quiet_runOut : Quiet last (runOut : P Unit) := quiet_of_moment_eq fun _ _ => rfl

theorem quiet_rangeFrom (start : Nat) : Quiet last (rangeFrom start) :=
  quiet_of_moment_eq fun _ _ => rfl

theorem quiet_expectedSpan : Quiet last expectedSpan :=
  .next quiet_current fun _ => .ite (.next quiet_get fun _ => .pure fun _ _ => id)
    (.pure fun _ _ => id)

theorem toMoment_advance (env : Env) (s : State) :
    (advance env s).2.toMoment = s.toMoment.taken := by
  obtain ⟨⟨rest, _⟩, _⟩ := s
  cases rest <;> rfl

theorem steps_advance {c : Moment → Prop} :
    Steps last c advance fun _ n => ∃ m, m.Settled last ∧ c m ∧ n = m.taken := by
  intro env s _ hs hc
  rw [toMoment_advance]
  exact ⟨hs.taken, hs.before_taken, _, hs, hc, rfl⟩

theorem quiet_advance : Quiet last advance := steps_advance.quiet

theorem quiet_advanceBy (n : Nat) : Quiet last (advanceBy n) := by
  induction n with
  | zero => exact .pure fun _ _ => id
  | succ n ih => exact .next quiet_advance fun _ => ih

/-- A report leaves room for one more placeholder. -/
theorem steps_report (message : Message) (span : Span) (arguments : List String) :
    Steps last (Grown last start reports os) (report message span arguments)
      fun _ => Grown last start (reports + 1) os := by
  intro env s _ hs hg
  by_cases hd : s.tooDeep = true
  · have hrun : (report message span arguments env s).2.toMoment = s.toMoment := by
      show (if s.tooDeep then s else _ : State).toMoment = _
      rw [if_pos hd]
    rw [hrun]
    exact ⟨hs, .refl _, hg.start_le, hg.fits, hg.within, hg.sorted,
      fun h => absurd hd (by simp [h])⟩
  · let m : Moment :=
      { s.toMoment with diagnostics := s.diagnostics.push (.of message span arguments) }
    have hrun : (report message span arguments env s).2.toMoment = m := by
      show (if s.tooDeep then s else _ : State).toMoment = _
      rw [if_neg hd]
      rfl
    have hsize : m.diagnostics.size = s.diagnostics.size + 1 := Array.size_push _
    have hb : s.toMoment.Before last m :=
      ⟨Nat.le_refl _, Nat.le_refl _, by rw [hsize]; exact Nat.le_succ _, id⟩
    rw [hrun]
    refine ⟨⟨hs.kind_last, hs.stop_last, hs.inOrder, hs.prevStop_le, hs.ended⟩, hb, ?_⟩
    refine ⟨hg.start_le, hg.fits, hg.within, hg.sorted, fun h => ?_⟩
    have hle := hg.counted h
    rw [hsize]
    omega

theorem quiet_report {message : Message} {span : Span} {arguments : List String} :
    Quiet last (report message span arguments) := by
  have h : Steps last (Grown last 0 0 []) (report message span arguments) fun _ =>
      Grown last 0 1 [] := steps_report message span arguments
  refine Steps.given (h.imp fun _ _ _ _ => trivial) fun m _ _ => ?_
  exact .nil (Nat.zero_le _) fun _ => Nat.zero_le _

theorem quiet_reportExpected {kind : TokenKind} {span : Span} :
    Quiet last (reportExpected kind span) :=
  quiet_report

/-- The range of a node that ends here. -/
theorem steps_rangeFrom {c : Moment → Prop} :
    Steps last c (rangeFrom start) fun range m => range = Grown.rangeAt start m ∧ c m :=
  fun _ _ _ hs hc => ⟨hs, .refl _, rfl, hc⟩

/-- The last step of what makes a node of all that it has built. -/
theorem Steps.node {f : Range → α} {out : α → List Outline} {kind : NodeKind}
    {attributes : List String} (h : ∀ range, out (f range) = [.node role kind range attributes os])
    (hk : kind ≠ .incompleteMember) :
    Extends last start reports os (rangeFrom start >>= fun range => Pure.pure (f range)) out := by
  refine steps_rangeFrom.bind fun range => .pure fun m _ ⟨hrange, hg⟩ => ?_
  rw [h range]
  exact hg.node hrange (by simpa [OutlineRow.isPlaceholder] using hk)

/-! ### Putting steps together -/

/-- What a parser builds stands after what was built before. -/
theorem Grows.since {p : P α} {out : α → List Outline} {c : Moment → Prop} (hp : Grows last p out) :
    Steps last c p fun a n => ∃ m, m.Settled last ∧ c m ∧ m.Before last n ∧
      Grown last (m.next last).start m.diagnostics.size (out a) n := by
  refine .wherever fun m hm hc => ?_
  have h : Steps last (· = m) p fun a n =>
      Grown last (m.next last).start m.diagnostics.size (out a) n := by
    refine (hp _ _).given fun m' _ h => ?_
    rw [h]
    exact .nil (Nat.le_refl _) fun _ => Nat.le_refl _
  refine h.since.imp fun a n _ ⟨m', hm', h, hb, hg⟩ => ?_
  subst h
  exact ⟨m', hm, hc, hb, hg⟩

theorem Grows.extends {p : P α} {out : α → List Outline} (hp : Grows last p out) :
    Extends last start reports os p fun a => os ++ out a :=
  hp.since.imp fun _ _ _ ⟨_, hm, hg, hb, h⟩ => hg.append hb h hg.start_le hm.prevStop_le

theorem Steps.add {p : P α} {out : α → List Outline} {f : α → P β} {post : β → Moment → Prop}
    (hp : Grows last p out)
    (hf : ∀ a, Steps last (Grown last start reports (os ++ out a)) (f a) post) :
    Steps last (Grown last start reports os) (p >>= f) post :=
  hp.extends.bind hf

theorem Grows.quiet {p : P α} {out : α → List Outline} (hp : Grows last p out) : Quiet last p :=
  hp.since.imp fun _ _ _ _ => trivial

theorem Grows.map {p : P α} {out : α → List Outline} {f : α → β} {out' : β → List Outline}
    (hp : Grows last p out) (h : ∀ a, out' (f a) = out a) : Grows last (f <$> p) out' :=
  fun _ _ => (hp _ _).bind fun a => .pure fun _ _ hg => (h a).symm ▸ hg

theorem Grows.late {p : P α} {out : α → List Outline} (hp : Grows last p out) : Late last p out :=
  fun _ _ => (hp _ _).drop

/-- What is built from the start of the next token on is built from any offset before it. -/
theorem Grows.of_next {p : P α} {out : α → List Outline}
    (hp : ∀ t reports, Steps last (fun m => m.next last = t ∧ Grown last t.start reports [] m) p
      fun a => Grown last t.start reports (out a)) : Grows last p out := by
  refine fun start reports => .wherever fun m _ hg => ?_
  have h : Steps last (· = m) p fun a =>
      Grown last (m.next last).start m.diagnostics.size (out a) := by
    refine (hp (m.next last) m.diagnostics.size).given fun m' _ h => ?_
    rw [h]
    exact ⟨rfl, .nil (Nat.le_refl _) fun _ => Nat.le_refl _⟩
  refine h.since.imp fun a n _ ⟨m', _, h, hb, hn⟩ => ?_
  subst h
  refine hn.widen hg.start_le fun hd => ?_
  have hcount := hg.counted (hb.not_tooDeep hd)
  rwa [Outline.allPlaceholders_nil, Nat.zero_add] at hcount

/-- What begins at the next token. -/
theorem Grows.begin {f : Token → P α} {out : α → List Outline}
    (hf : ∀ t reports, Steps last (fun m => m.next last = t ∧ Grown last t.start reports [] m) (f t)
      fun a => Grown last t.start reports (out a)) :
    Grows last (current >>= f) out :=
  .of_next fun t reports => .currentAt (hf t reports)

/-- The same, where nothing need be known of that token but its start. -/
theorem Grows.starting {f : Token → P α} {out : α → List Outline}
    (hf : ∀ t reports, Extends last t.start reports [] (f t) out) :
    Grows last (current >>= f) out :=
  .begin fun t reports => (hf t reports).drop

/-- The next token is taken as something without children. -/
theorem Steps.take {t : Token} (row : OutlineRow) {f : Unit → P β} {post : β → Moment → Prop}
    (hrow : row.range = t.range) (hp : row.isPlaceholder = false)
    (hf : Steps last (Grown last start reports (os ++ [.mk row []])) (f ()) post) :
    Steps last (fun m => m.next last = t ∧ Grown last start reports os m) (advance >>= f) post := by
  refine steps_advance.bind fun _ => hf.given ?_
  rintro _ - ⟨m, hm, ⟨rfl, hg⟩, rfl⟩
  exact hg.leaf hm hrow hp

/-- The same of a token that is in the text, which then lies behind. -/
theorem Steps.pass {t : Token} (row : OutlineRow) {f : Unit → P β} {post : β → Moment → Prop}
    (hrow : row.range = t.range) (hp : row.isPlaceholder = false) (hk : t.kind ≠ .endOfFile)
    (hf : Steps last (fun m => t.start ≤ m.prevStop ∧
      Grown last start reports (os ++ [.mk row []]) m) (f ()) post) :
    Steps last (fun m => m.next last = t ∧ Grown last start reports os m) (advance >>= f) post := by
  refine steps_advance.bind fun _ => hf.given ?_
  rintro _ - ⟨m, hm, ⟨rfl, hg⟩, rfl⟩
  exact ⟨Moment.start_next_le_taken hm hk, hg.leaf hm hrow hp⟩

/-! ### Loops -/

namespace Steps

variable {step : α → P (ForInStep α)} {post : β → Moment → Prop}

theorem iterate {inv : α → Moment → Prop} [∀ a, Upward last (inv a)]
    (hs : ∀ a, Steps last (inv a) (step a) fun r => inv r.value) (n : Nat) (a : α) :
    Steps last (inv a) (iterate step n a) inv := by
  induction n generalizing a with
  | zero => exact .next quiet_runOut fun _ => .pure fun _ _ => id
  | succ n ih =>
    refine bind (hs a) fun result => ?_
    cases result with
    | done b => exact .pure fun _ _ => id
    | yield b => exact ih b

theorem loop (inv : α → Moment → Prop) [∀ a, Upward last (inv a)]
    (hs : ∀ a, Steps last (inv a) (step a) fun r => inv r.value) (a : α) :
    Steps last (inv a) (loop a step) inv :=
  .next quiet_read fun _ => .iterate hs _ a

end Steps

theorem quiet_loop {step : α → P (ForInStep α)} (hs : ∀ a, Quiet last (step a)) (a : α) :
    Quiet last (loop a step) :=
  .loop (fun _ _ => True) hs a

/-- Items that a loop gathers with the last one first. -/
theorem grows_gather {step : List α → P (ForInStep (List α))} {out : α → List Outline}
    (hs : ∀ start reports as, Extends last start reports (as.reverse.flatMap out) (step as)
      fun result => result.value.reverse.flatMap out) :
    Grows last (do let as ← loop [] step; return as.reverse) fun as => as.flatMap out :=
  fun start reports => .bind
    (.loop (fun as => Grown last start reports (as.reverse.flatMap out)) (hs start reports) [])
    fun _ => .pure fun _ _ => id

theorem grows_many {item : P (Option α)} {out : α → List Outline}
    (hi : Grows last item fun a? => a?.elim [] out) :
    Grows last (many item) fun as => as.flatMap out := by
  refine grows_gather fun start reports as => .add hi fun a? => ?_
  cases a? with
  | none => exact .pure fun _ _ hg => by simpa using hg
  | some a => exact .pure fun _ _ hg => by simpa using hg

/-! ### Tokens -/

/-- What stands for something after a report. -/
theorem grown_placeholder {row : OutlineRow} {m : Moment} (hg : Grown last start (reports + 1) [] m)
    (hrow : row.range = .emptyAt m.prevStop) : Grown last start reports [.mk row []] m := by
  refine .placeholder hg.start_le hrow fun hd => ?_
  have hcount := hg.counted hd
  rwa [Outline.allPlaceholders_nil, Nat.zero_add] at hcount

/-- What stands for something past the limit. -/
theorem grown_refused {row : OutlineRow} {m : Moment} (hg : Grown last start reports [] m)
    (hd : m.tooDeep = true) (hrow : row.range = .emptyAt m.prevStop) :
    Grown last start reports [.mk row []] m :=
  .placeholder hg.start_le hrow fun h => absurd hd (by simp [h])

theorem grows_eat (role : String) (kind : TokenKind) :
    Grows last (eat kind) fun l => [l.outline role] := by
  refine fun start reports => .current fun t => .ite ?_ (.drop ?_)
  · exact .take _ rfl rfl (.pure fun _ _ => id)
  · refine .next quiet_expectedSpan fun _ => (steps_report _ _ _).bind fun _ => ?_
    exact .get fun s => .pure fun m _ ⟨hm, hg⟩ => grown_placeholder hg (by rw [hm]; rfl)

theorem quiet_eat (kind : TokenKind) : Quiet last (eat kind) := by
  have h : Grows last (eat kind) fun l => [l.outline ""] := grows_eat "" kind
  exact h.quiet

/-- A token that is eaten where it comes next lies behind. -/
theorem steps_eat {t : Token} {kind : TokenKind} (ht : t.kind = kind) (hk : kind ≠ .endOfFile) :
    Steps last (fun m => m.next last = t ∧ Grown last start reports os m) (eat kind)
      fun _ m => t.start ≤ m.prevStop ∧ Grown last start reports os m := by
  refine .currentAt ?_
  rw [if_pos ht]
  refine steps_advance.bind fun _ => .pure ?_
  rintro _ - ⟨m, hm, ⟨rfl, hg⟩, rfl⟩
  exact ⟨Moment.start_next_le_taken hm (ht ▸ hk), hg.of_before hm.before_taken⟩

theorem quiet_accept (kind : TokenKind) : Quiet last (accept kind) :=
  .next quiet_currentKind fun _ =>
    .ite (.next quiet_advance fun _ => .pure fun _ _ => id) (.pure fun _ _ => id)

/-- A token that was accepted lies behind. -/
theorem steps_accept {kind : TokenKind} (hk : kind ≠ .endOfFile) :
    Steps last (Grown last start reports os) (accept kind)
      fun b m => (b = true → start ≤ m.prevStop) ∧ Grown last start reports os m := by
  refine .currentKind fun t => ?_
  split
  next ht =>
    refine steps_advance.bind fun _ => .pure ?_
    rintro _ - ⟨m, hm, ⟨rfl, hg⟩, rfl⟩
    refine ⟨fun _ => ?_, hg.of_before hm.before_taken⟩
    exact Nat.le_trans hg.start_le (Moment.start_next_le_taken hm (ht ▸ hk))
  · exact .pure fun _ _ h => ⟨nofun, h.2⟩

theorem grows_take : Grows last take fun l => [l.outline role] :=
  fun _ _ => .current fun _ => .take _ rfl rfl (.pure fun _ _ => id)

theorem quiet_replace (kind : TokenKind) : Quiet last (replace kind) :=
  .next quiet_current fun _ => .next quiet_reportExpected fun _ => quiet_advance

theorem quiet_eatContextual (word : String) : Quiet last (eatContextual word) :=
  .next quiet_current fun _ => .ite quiet_advance
    (.next quiet_expectedSpan fun _ => quiet_report)

theorem steps_identifierOf (t : Token) {c : Moment → Prop} [Upward last c] :
    Steps last c (identifierOf t) fun i m => i = ⟨t.text, t.range, t.flags.verbatim, false⟩ ∧ c m :=
  .next (quiet_noteName _) fun _ => .pure fun _ _ hc => ⟨rfl, hc⟩

/-- A name that was read where a token came next: it begins there, or it is missing and stands at an
offset that is not before another. -/
def NameReadAt (t : Token) (floor : Nat) (i : Identifier) (m : Moment) : Prop :=
  i.range.start = t.start ∧ t.start ≤ m.prevStop ∨
    t.kind ≠ .identifier ∧ i.isMissing = true ∧
      ∃ pos, i.range = .emptyAt pos ∧ floor ≤ pos ∧ pos ≤ m.prevStop

instance (t : Token) (floor : Nat) (i : Identifier) : Upward last (NameReadAt t floor i) where
  of_before h _ hb := by
    refine h.imp (fun ⟨hs, hle⟩ => ⟨hs, Nat.le_trans hle hb.prevStop_le⟩) ?_
    rintro ⟨hk, hm, pos, hr, hfloor, hpos⟩
    exact ⟨hk, hm, pos, hr, hfloor, Nat.le_trans hpos hb.prevStop_le⟩

theorem steps_identifier (role : String) (t : Token) (floor : Nat) :
    Steps last (fun m => m.next last = t ∧ floor ≤ m.prevStop ∧ Grown last start reports [] m)
      identifier fun i m => NameReadAt t floor i m ∧
        Grown last start reports [i.outline role] m := by
  refine .currentAt ?_
  split
  next hk =>
    refine Steps.given (c := fun m => m.next last = t ∧ Grown last start reports [] m) ?_
      fun _ _ ⟨ht, _, hg⟩ => ⟨ht, hg⟩
    let row : OutlineRow :=
      { role, kind := .node .identifierName, range := t.range
        isVerbatim := t.flags.verbatim, attributes := [t.text] }
    refine .pass row rfl rfl (by rw [hk]; nofun) ?_
    exact .next (quiet_noteName _) fun _ => .pure fun _ _ ⟨hle, hg⟩ => ⟨.inl ⟨rfl, hle⟩, hg⟩
  next hk =>
    refine .drop (.next quiet_expectedSpan fun _ => (steps_report _ _ _).frame.bind fun _ => ?_)
    refine .next (quiet_noteName _) fun _ => .get fun s => .pure fun m _ ⟨hm, hfloor, hg⟩ => ?_
    have hs : s.prevStop = m.prevStop := by rw [hm]
    refine ⟨.inr ⟨hk, rfl, m.prevStop, by rw [← hs]; rfl, hfloor, Nat.le_refl _⟩, ?_⟩
    exact grown_placeholder hg (by rw [← hs]; rfl)

theorem grows_identifier (role : String) : Grows last identifier fun i => [i.outline role] := by
  refine .of_next fun t reports => ?_
  refine ((steps_identifier role t 0).imp fun _ _ _ h => h.2).given fun m _ h => ?_
  exact ⟨h.1, Nat.zero_le _, h.2⟩

/-! ### Lists -/

theorem grows_afterCommas {item : P α} {out : α → List Outline} (hi : Late last item out) :
    Grows last (afterCommas item) fun as => as.flatMap out := by
  refine grows_many fun start reports => (steps_accept (by nofun)).bind fun b => ?_
  cases b with
  | true =>
    exact .bind ((hi start reports).given fun _ _ h => ⟨h.1 rfl, h.2⟩) fun _ => .pure fun _ _ => id
  | false => exact .pure fun _ _ h => h.2

theorem grows_separated {item : P α} {out : α → List Outline} (hi : Grows last item out) :
    Grows last (separated item) fun as => as.flatMap out :=
  fun _ _ => .bind (hi _ _) fun _ => .add (grows_afterCommas hi.late) fun _ =>
    .pure fun _ _ hg => hg

/-! ### Levels -/

theorem steps_refuse {c : Moment → Prop} [Upward last c] :
    Steps last c refuse fun _ m => m.tooDeep = true ∧ c m := by
  rintro env s rfl hs hc
  rcases Bool.eq_false_or_eq_true s.tooDeep with hd | hd
  · have hrun : refuse env s = ((), s) := by
      obtain ⟨⟨rest, prevStop, depth, tooDeep, diagnostics⟩, names, polls, trail, ranOut⟩ := s
      obtain rfl : tooDeep = true := hd
      rfl
    rw [hrun]
    exact ⟨hs, .refl _, hd, hc⟩
  · let m : Moment := ⟨[], env.endOfFile.start, s.depth, true,
      s.diagnostics.push (.of .tooDeep (s.rest.headD env.endOfFile).span)⟩
    have hrun : (refuse env s).2.toMoment = m := by
      rw [refuse_apply hd]
      rfl
    have hnext := Moment.start_next_le_start_last hs
    have hempty : TokenStream.InOrder ⟨[], env.endOfFile⟩ :=
      ⟨⟨List.forall_mem_nil _, .nil⟩, List.forall_mem_nil _⟩
    have hsettled : m.Settled env.endOfFile :=
      ⟨hs.kind_last, hs.stop_last, hempty, Nat.le_refl _, fun _ => ⟨rfl, rfl⟩⟩
    have hb : s.toMoment.Before env.endOfFile m := by
      refine ⟨Nat.le_trans hs.prevStop_le hnext, hnext, ?_, fun _ => rfl⟩
      exact Nat.le_of_lt (Nat.lt_of_lt_of_eq (Nat.lt_succ_self _) (Array.size_push _).symm)
    rw [hrun]
    exact ⟨hsettled, hb, rfl, Upward.of_before hc hsettled hb⟩

theorem quiet_refuse : Quiet last refuse := steps_refuse.imp fun _ _ _ _ => trivial

theorem before_depth (m : Moment) (d : Nat) : m.Before last { m with depth := d } :=
  ⟨Nat.le_refl _, Nat.le_refl _, Nat.le_refl _, id⟩

theorem settled_depth {m : Moment} (h : m.Settled last) (d : Nat) :
    Moment.Settled last { m with depth := d } :=
  ⟨h.kind_last, h.stop_last, h.inOrder, h.prevStop_le, h.ended⟩

theorem quiet_leave (levels : Nat) : Quiet last (leave levels) :=
  fun _ _ _ hs _ => ⟨settled_depth hs _, before_depth _ _, trivial⟩

/-- Entering a level stays where it is, unless that lies past the limit. -/
theorem steps_enter {c c' : Moment → Prop}
    (hlevel : ∀ m d, m.Settled last → c m → c { m with depth := d })
    (hdeep : ∀ m n, c m → n.Settled last → m.Before last n → n.tooDeep = true → c' n) :
    Steps last c enter fun b m => (b = true → c m) ∧ (b = false → c' m) := by
  intro env s he hs hc
  rcases Bool.eq_false_or_eq_true s.tooDeep with hd | hd
  · rw [enter_of_tooDeep hd]
    exact ⟨hs, .refl _, nofun, fun _ => hdeep _ _ hc hs (.refl _) hd⟩
  rcases Nat.lt_or_ge s.depth env.maxDepth with hlt | hle
  · rw [enter_of_lt hd hlt]
    exact ⟨settled_depth hs _, before_depth _ _, fun _ => hlevel _ _ hs hc, nofun⟩
  · rw [enter_of_le hd hle]
    obtain ⟨hs', hb, hd', -⟩ := steps_refuse (c := fun _ => True) env s he hs trivial
    exact ⟨hs', hb, nofun, fun _ => hdeep _ _ hc hs' hb hd'⟩

theorem steps_nested {c c' : Moment → Prop} {after : α → Moment → Prop}
    [∀ a, Upward last (after a)] {refused p : P α}
    (hlevel : ∀ m d, m.Settled last → c m → c { m with depth := d })
    (hdeep : ∀ m n, c m → n.Settled last → m.Before last n → n.tooDeep = true → c' n)
    (hr : Steps last c' refused after) (hp : Steps last c p after) :
    Steps last c (nested refused p) after := by
  refine (steps_enter hlevel hdeep).bind fun b => ?_
  cases b with
  | true =>
    refine .bind (hp.given fun _ _ h => h.1 rfl) fun _ => ?_
    exact .next (quiet_leave 1) fun _ => .pure fun _ _ => id
  | false => exact hr.given fun _ _ h => h.2 rfl

/-- A parser that is only run past the limit. -/
abbrev Refuses (last : Token) (p : P α) (out : α → List Outline) : Prop :=
  ∀ start reports, Steps last (fun m => m.tooDeep = true ∧ Grown last start reports [] m) p
    fun a => Grown last start reports (out a)

theorem grows_nested {refused p : P α} {out : α → List Outline} (hr : Refuses last refused out)
    (hp : Grows last p out) : Grows last (nested refused p) out :=
  fun start reports => steps_nested (fun _ _ _ h => h.of_before (before_depth _ _))
    (fun _ _ h _ hb hd => ⟨hd, h.of_before hb⟩) (hr start reports) (hp start reports)

end CSharpFront.Parser

/-! ## Types

A type that is there begins at the next token and takes it; where none can begin, or past the limit,
nothing is taken and one is made up.
-/

namespace CSharpFront

namespace TokenKind

/-- Whether a type begins with the token. -/
def beginsType (k : TokenKind) : Bool := k.isPredefinedType || k == .identifier

end TokenKind

theorem TypeSyntax.outlines_eq_flatMap (role : String) (ts : List TypeSyntax) :
    TypeSyntax.outlines role ts = ts.flatMap fun t => [t.outline role] := by
  induction ts with
  | nil => rfl
  | cons t ts ih => rw [outlines, ih, List.flatMap_cons, List.singleton_append]

namespace Parser

variable {last tok : Token} {start reports floor : Nat} {r : Rules}

/-- A type that begins at a token, which has been taken. -/
structure TypeAt (last tok : Token) (reports : Nat) (t : TypeSyntax) (m : Moment) : Prop where
  grown (role : String) : Grown last tok.start reports [t.outline role] m
  start_eq : t.range.start = tok.start
  start_le : tok.start ≤ m.prevStop

/-- A type that was made up in front of a token, at an offset that is not before another. -/
structure NoTypeAt (last tok : Token) (floor reports : Nat) (t : TypeSyntax) (m : Moment) :
    Prop where
  grown (role : String) : Grown last tok.start reports [t.outline role] m
  missing : ∃ pos, t = .missing pos ∧ floor ≤ pos ∧ pos ≤ m.prevStop ∧
    (m.tooDeep = true ∧ pos = last.start ∨ tok.kind.beginsType = false)

/-- What a rule for types comes to. -/
def Typed (last tok : Token) (floor reports : Nat) (t : TypeSyntax) (m : Moment) : Prop :=
  TypeAt last tok reports t m ∨ NoTypeAt last tok floor reports t m

instance (t : TypeSyntax) : Upward last (TypeAt last tok reports t) where
  of_before h _ hb :=
    ⟨fun role => (h.grown role).of_before hb, h.start_eq, Nat.le_trans h.start_le hb.prevStop_le⟩

instance (t : TypeSyntax) : Upward last (Typed last tok floor reports t) where
  of_before h hn hb := by
    refine h.imp (fun h => Upward.of_before h hn hb) fun ⟨hg, pos, ht, hfloor, hpos, hwhy⟩ => ?_
    refine ⟨fun role => (hg role).of_before hb, pos, ht, hfloor, ?_, ?_⟩
    · exact Nat.le_trans hpos hb.prevStop_le
    · exact hwhy.imp_left fun ⟨hd, hlast⟩ => ⟨hb.tooDeep hd, hlast⟩

theorem Typed.grown {t : TypeSyntax} {m : Moment} (h : Typed last tok floor reports t m)
    (role : String) : Grown last tok.start reports [t.outline role] m :=
  h.elim (·.grown role) (·.grown role)

/-- What is known before a type is read. -/
def BeforeType (last tok : Token) (floor reports : Nat) (m : Moment) : Prop :=
  m.next last = tok ∧ floor ≤ m.prevStop ∧ Grown last tok.start reports [] m

/-- What is known of a rule for types. -/
abbrev TypesGrow (last : Token) (r : Rules) : Prop :=
  ∀ withRanks tok floor reports, Steps last (BeforeType last tok floor reports) (r.type withRanks)
    (Typed last tok floor reports)

/-- A type adds itself. -/
theorem TypesGrow.grows (hr : TypesGrow last r) (withRanks : Bool) (role : String) :
    Grows last (r.type withRanks) fun t => [t.outline role] := by
  refine .of_next fun t reports => ?_
  refine ((hr withRanks t 0 reports).imp fun _ _ _ h => h.grown role).given fun m _ h => ?_
  exact ⟨h.1, Nat.zero_le _, h.2⟩

/-- A type that was read after an offset, and stands after it even if it was made up. -/
structure TypeSince (last : Token) (start reports : Nat) (t : TypeSyntax) (m : Moment) : Prop where
  grown (role : String) : Grown last start reports [t.outline role] m
  start_le : start ≤ t.range.start
  le_prevStop : t.range.start ≤ m.prevStop

instance (t : TypeSyntax) : Upward last (TypeSince last start reports t) where
  of_before h _ hb :=
    ⟨fun role => (h.grown role).of_before hb, h.start_le, Nat.le_trans h.le_prevStop hb.prevStop_le⟩

theorem TypesGrow.since (hr : TypesGrow last r) (withRanks : Bool) :
    Steps last (fun m => start ≤ m.prevStop ∧ Grown last start reports [] m) (r.type withRanks)
      (TypeSince last start reports) := by
  refine .wherever fun m hm ⟨hle, hg⟩ => ?_
  have h : Steps last (· = m) (r.type withRanks)
      (Typed last (m.next last) start m.diagnostics.size) := by
    refine (hr withRanks (m.next last) start m.diagnostics.size).given fun m' _ h => ?_
    rw [h]
    exact ⟨rfl, hle, .nil (Nat.le_refl _) fun _ => Nat.le_refl _⟩
  refine h.since.imp fun t n _ ⟨m', _, h, hb, ht⟩ => ?_
  subst h
  have hgrown (role : String) : Grown last start reports [t.outline role] n :=
    hg.append hb (ht.grown role) hg.start_le hm.prevStop_le
  rcases ht with ht | ⟨-, pos, rfl, hfloor, hpos, -⟩
  · exact ⟨hgrown, ht.start_eq ▸ hg.start_le, ht.start_eq ▸ ht.start_le⟩
  · exact ⟨hgrown, hfloor, hpos⟩

/-- Pairs of brackets around a type, whatever is kept by one of them. -/
theorem steps_rankSpecifiers {inv : TypeSyntax → Moment → Prop} [∀ t, Upward last (inv t)]
    (hw : ∀ t rank m, m.Settled last → inv t m →
      inv (.array (Grown.rangeAt start m) t rank) m) (t : TypeSyntax) :
    Steps last (inv t) (rankSpecifiers start t) inv := by
  refine .loop _ (fun t => .next quiet_get fun _ => .ite ?_ (.pure fun _ _ => id)) t
  refine .next quiet_advance fun _ => .next quiet_get fun _ => ?_
  refine .next (quiet_advanceBy _) fun _ => .next (quiet_eat _) fun _ => ?_
  refine steps_rangeFrom.bind fun range => .pure fun m hm ⟨hrange, ht⟩ => ?_
  rw [hrange]
  exact hw t _ m hm ht

/-- A type around one that begins at the same token. -/
theorem TypeAt.around {t u : TypeSyntax} {m : Moment} {kind : NodeKind} {attributes : List String}
    {role : String} (h : TypeAt last tok reports t m)
    (hu : ∀ role', u.outline role' = .node role' kind (Grown.rangeAt tok.start m) attributes
      [t.outline role]) (hk : kind ≠ .incompleteMember)
    (hrange : u.range.start = tok.start) : TypeAt last tok reports u m where
  grown role' := by
    rw [hu role']
    exact (h.grown role).node rfl (by simpa [OutlineRow.isPlaceholder] using hk)
  start_eq := hrange
  start_le := h.start_le

/-! ### Names -/

/-- What a name comes to: it begins at an identifier if there is one. -/
def NameAt (last tok : Token) (reports : Nat) (t : TypeSyntax) (m : Moment) : Prop :=
  (∀ role, Grown last tok.start reports [t.outline role] m) ∧
    (tok.kind = .identifier → t.range.start = tok.start ∧ tok.start ≤ m.prevStop)

instance (t : TypeSyntax) : Upward last (NameAt last tok reports t) where
  of_before h _ hb :=
    ⟨fun role => (h.1 role).of_before hb, fun hk =>
      ⟨(h.2 hk).1, Nat.le_trans (h.2 hk).2 hb.prevStop_le⟩⟩

theorem steps_simpleName (hr : TypesGrow last r) :
    Steps last (fun m => m.next last = tok ∧ Grown last tok.start reports [] m) (simpleName r)
      (NameAt last tok reports) := by
  have hbegins {i : Identifier} {m : Moment} (h : NameReadAt tok 0 i m)
      (hk : tok.kind = .identifier) : i.range.start = tok.start ∧ tok.start ≤ m.prevStop :=
    h.resolve_right fun ⟨hne, _⟩ => hne hk
  have hidentifier : Steps last (fun m => m.next last = tok ∧ Grown last tok.start reports [] m)
      identifier fun i m => NameReadAt tok 0 i m ∧
        Grown last tok.start reports [i.outline "identifier"] m :=
    (steps_identifier _ tok 0).given fun m _ h => ⟨h.1, Nat.zero_le _, h.2⟩
  refine .currentAt (hidentifier.bind fun i => ?_)
  refine .next quiet_read fun _ => .next quiet_get fun _ => .ite ?_ (.pure ?_)
  · refine .next quiet_advance fun _ => .bind (grows_separated
      (hr.grows true "argument")).extends.frame fun ts => .next (quiet_eat _) fun _ => ?_
    refine steps_rangeFrom.bind fun range => .pure fun m _ ⟨hrange, hname, hg⟩ => ?_
    refine ⟨fun role => ?_, ?_⟩
    · rw [TypeSyntax.outline, TypeSyntax.outlines_eq_flatMap]
      exact hg.node hrange rfl
    · have hstart : range.start = tok.start := by rw [hrange]
      exact fun hk => ⟨hstart, (hbegins hname hk).2⟩
  · intro m _ ⟨hname, hg⟩
    exact ⟨fun role => hg.alike (i.alike_outline _ role), hbegins hname⟩

theorem grows_simpleName (hr : TypesGrow last r) (role : String) :
    Grows last (simpleName r) fun t => [t.outline role] :=
  .of_next fun _ _ => (steps_simpleName hr).imp fun _ _ _ h => h.1 role

theorem steps_name (hr : TypesGrow last r) :
    Steps last (fun m => m.next last = tok ∧ Grown last tok.start reports [] m) (name r)
      (NameAt last tok reports) := by
  refine .currentAt (.bind (steps_simpleName hr) fun first => ?_)
  refine .loop _ (fun left => .next quiet_get fun _ => .ite ?_ (.pure fun _ _ => id)) first
  refine .next quiet_advance fun _ => ?_
  have hright : Steps last (NameAt last tok reports left) (simpleName r) fun right m =>
      NameAt last tok reports left m ∧
        Grown last tok.start reports [left.outline "left", right.outline "right"] m := by
    refine (grows_simpleName hr "right").since.imp fun right n hn ⟨m, hm, hleft, hb, hg⟩ => ?_
    exact ⟨Upward.of_before hleft hn hb,
      (hleft.1 "left").append hb hg (hleft.1 "left").start_le hm.prevStop_le⟩
  refine hright.bind fun right => steps_rangeFrom.bind fun range => .pure ?_
  intro m _ ⟨hrange, hleft, hg⟩
  have hstart : range.start = tok.start := by rw [hrange]
  exact ⟨fun role => hg.node hrange rfl, fun hk => ⟨hstart, (hleft.2 hk).2⟩⟩

theorem grows_name (hr : TypesGrow last r) (role : String) :
    Grows last (name r) fun t => [t.outline role] :=
  .of_next fun _ _ => (steps_name hr).imp fun _ _ _ h => h.1 role

/-! ### Types -/

/-- What is known once it has been seen whether a type comes next. -/
def CoreAt (last tok : Token) (floor reports : Nat) (core? : Option TypeSyntax) (m : Moment) :
    Prop :=
  match core? with
  | none => tok.kind.beginsType = false ∧ floor ≤ m.prevStop ∧ Grown last tok.start reports [] m
  | some core => TypeAt last tok reports core m

theorem steps_typeCore? (hr : TypesGrow last r) :
    Steps last (BeforeType last tok floor reports) (typeCore? r)
      (CoreAt last tok floor reports) := by
  have hdrop {α : Type} {p : P α} {after : α → Moment → Prop}
      (h : Steps last (fun m => m.next last = tok ∧ Grown last tok.start reports [] m) p after) :
      Steps last (BeforeType last tok floor reports) p after :=
    h.given fun _ _ ⟨hnext, _, hg⟩ => ⟨hnext, hg⟩
  refine .currentAt ?_
  split
  next s hs =>
    have hk : tok.kind ≠ .endOfFile := by
      intro hk
      rw [hk] at hs
      cases hs
    let row : OutlineRow :=
      { role := "", kind := .node .predefinedType, range := tok.range, attributes := [s.text] }
    have hrow (role : String) :
        Outline.Alike (.mk row []) ((TypeSyntax.predefined tok.range s).outline role) :=
      ⟨rfl, rfl, rfl, rfl⟩
    refine hdrop (.pass row rfl rfl hk (.pure fun m _ ⟨hle, hg⟩ => ?_))
    exact ⟨fun role => hg.alike (hrow role), rfl, hle⟩
  next hs =>
    split
    next hk =>
      refine hdrop ((steps_name hr).map fun t m ht => ?_)
      exact ⟨ht.1, (ht.2 hk).1, (ht.2 hk).2⟩
    next hk =>
      refine .pure fun m _ ⟨_, hfloor, hg⟩ => ⟨?_, hfloor, hg⟩
      simp [TokenKind.beginsType, TokenKind.isPredefinedType, hs, hk]

theorem steps_typeBody (hr : TypesGrow last r) (withRanks : Bool) :
    Steps last (BeforeType last tok floor reports) (typeBody withRanks r)
      (Typed last tok floor reports) := by
  refine .currentAt ((steps_typeCore? hr).bind fun core? => ?_)
  cases core? with
  | none =>
    show Steps last (fun m => tok.kind.beginsType = false ∧ floor ≤ m.prevStop ∧
      Grown last tok.start reports [] m) _ _
    refine .next quiet_expectedSpan fun _ => ?_
    refine Steps.bind (Steps.frame (Steps.frame (steps_report _ _ _))) fun _ => ?_
    refine .get fun s => .pure fun m _ ⟨hm, hk, hfloor, hg⟩ => .inr ⟨fun role => ?_, ?_⟩
    · exact grown_placeholder hg (by rw [hm])
    · have hs : s.prevStop = m.prevStop := by rw [hm]
      exact ⟨_, rfl, hs ▸ hfloor, Nat.le_of_eq hs, .inr hk⟩
  | some core =>
    have hrest (t : TypeSyntax) : Steps last (TypeAt last tok reports t)
        (if withRanks then rankSpecifiers tok.start t else return t)
        (Typed last tok floor reports) := by
      refine .ite (.imp (steps_rankSpecifiers (fun t rank m _ ht => ?_) t) fun _ _ _ => .inl)
        (.pure fun _ _ => .inl)
      exact ht.around (fun _ => rfl) nofun rfl
    show Steps last (TypeAt last tok reports core) _ _
    refine .next (quiet_accept _) fun _ => .ite ?_ (hrest core)
    refine steps_rangeFrom.bind fun range => (hrest _).given fun m _ ⟨hrange, ht⟩ => ?_
    rw [hrange]
    exact ht.around (fun _ => rfl) nofun rfl

end Parser

end CSharpFront
