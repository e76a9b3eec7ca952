import CSharpFront.Parser.State
/-!
The course of a parser: the moments that it comes through on its way from one state to another. Each
of them comes from the one before by a step. A step takes a token, reports, enters or leaves levels,
or gives up at the nesting limit; what each step keeps, every course keeps.
-/

namespace CSharpFront.Parser

/-- One step of a parser under a nesting limit, in a text that ends with a token. It leaves no more
levels than have been entered. -/
inductive Moment.Step (limit : Nat) (last : Token) : Moment → Moment → Prop
  | take {m : Moment} {t : Token} {rest : List Token} (h : m.rest = t :: rest) :
    Step limit last m { m with rest, prevStop := t.stop }
  | report {m : Moment} (message : Message) (span : Span) (arguments : List String)
    (ht : m.tooDeep = false) (hm : message ≠ .tooDeep) :
    Step limit last m
      { m with diagnostics := m.diagnostics.push (.of message span arguments) }
  | enter {m : Moment} (ht : m.tooDeep = false) (hd : m.depth < limit) :
    Step limit last m { m with depth := m.depth + 1 }
  | leave {m : Moment} {levels : Nat} (h : levels ≤ m.depth) :
    Step limit last m { m with depth := m.depth - levels }
  | giveUp {m : Moment} (span : Span) (ht : m.tooDeep = false) (hd : limit ≤ m.depth) :
    Step limit last m
      ⟨[], last.start, m.depth, true, m.diagnostics.push (.of .tooDeep span)⟩

/-- The moments that lie behind a moment, the last first, since the course was at another one. -/
inductive Course (limit : Nat) (last : Token) (m : Moment) : List Moment → Moment → Prop
  | start : Course limit last m [] m
  | step {ms : List Moment} {n n' : Moment} (h : Course limit last m ms n)
    (hs : n.Step limit last n') : Course limit last m (n' :: ms) n'

/-! ### What a step keeps -/

namespace Moment

variable {limit : Nat} {last : Token} {m n k : Moment}

/-- No more levels have been entered than there are, and nothing is left once the limit was hit. -/
structure Sane (limit : Nat) (m : Moment) : Prop where
  depth_le : m.depth ≤ limit
  dropped : m.tooDeep = true → m.rest = []

/-- What has been reported after other diagnostics: nothing of the limit unless it was hit, and then
just that at the end. -/
def Reported (before : Array Diagnostic) (m : Moment) : Prop :=
  ∃ ds : Array Diagnostic, (∀ d ∈ ds, d.message ≠ .tooDeep) ∧
    ((m.tooDeep = false ∧ m.diagnostics = before ++ ds) ∨
      (m.tooDeep = true ∧ ∃ span, m.diagnostics = (before ++ ds).push (.of .tooDeep span)))

/-- Once the limit was hit and nothing is left, that stays so, and nothing more is reported. -/
def Settles (m n : Moment) : Prop :=
  m.tooDeep = true → m.rest = [] → n.tooDeep = true ∧ n.rest = [] ∧ n.diagnostics = m.diagnostics

theorem Settles.refl (m : Moment) : m.Settles m := fun ht hr => ⟨ht, hr, rfl⟩

theorem Settles.trans (h : m.Settles n) (h' : n.Settles k) : m.Settles k := by
  intro ht hr
  obtain ⟨ht', hr', hd'⟩ := h ht hr
  obtain ⟨ht'', hr'', hd''⟩ := h' ht' hr'
  exact ⟨ht'', hr'', hd''.trans hd'⟩

namespace Step

theorem rest_suffix (h : m.Step limit last n) : n.rest <:+ m.rest := by
  cases h with
  | take h => exact h ▸ List.suffix_cons _ _
  | report | enter | leave => exact List.suffix_rfl
  | giveUp => exact List.nil_suffix

theorem sane (h : m.Step limit last n) (hm : m.Sane limit) : n.Sane limit := by
  cases h with
  | take h =>
    refine ⟨hm.depth_le, fun ht => ?_⟩
    rw [hm.dropped ht] at h
    cases h
  | report => exact ⟨hm.depth_le, hm.dropped⟩
  | enter _ hd => exact ⟨hd, hm.dropped⟩
  | leave => exact ⟨Nat.le_trans (Nat.sub_le _ _) hm.depth_le, hm.dropped⟩
  | giveUp => exact ⟨hm.depth_le, fun _ => rfl⟩

theorem settles (h : m.Step limit last n) : m.Settles n := by
  intro hdeep hrest
  cases h with
  | take h =>
    rw [hrest] at h
    cases h
  | leave => exact ⟨hdeep, hrest, rfl⟩
  | report _ _ _ ht | enter ht | giveUp _ ht =>
    rw [hdeep] at ht
    cases ht

theorem tooDeep (h : m.Step limit last n) (hm : m.tooDeep = true) : n.tooDeep = true := by
  cases h with
  | take | report | enter | leave => exact hm
  | giveUp => rfl

theorem reported {before : Array Diagnostic} (h : m.Step limit last n)
    (hm : m.Reported before) : n.Reported before := by
  obtain ⟨ds, hds, hm⟩ := hm
  cases h with
  | take | enter | leave => exact ⟨ds, hds, hm⟩
  | report message span arguments ht hmessage =>
    obtain ⟨-, hd⟩ := hm.resolve_right (by simp [ht])
    refine ⟨ds.push (.of message span arguments), ?_, .inl ⟨ht, ?_⟩⟩
    · intro d hd
      rcases Array.mem_push.mp hd with hd | rfl
      · exact hds d hd
      · exact hmessage
    · rw [hd, Array.append_push]
  | giveUp span ht =>
    obtain ⟨-, hd⟩ := hm.resolve_right (by simp [ht])
    exact ⟨ds, hds, .inr ⟨rfl, span, by rw [hd]⟩⟩

end Step

end Moment

/-! ### What a course keeps -/

namespace Course

variable {limit : Nat} {last : Token} {m n k : Moment} {ms ns : List Moment}

theorem append (h : Course limit last m ms n) (h' : Course limit last n ns k) :
    Course limit last m (ns ++ ms) k := by
  induction h' with
  | start => exact h
  | step _ hs ih => exact .step ih hs

/-- What every step keeps holds all along the course. -/
theorem invariant {p : Moment → Prop}
    (hp : ∀ {m n : Moment}, m.Step limit last n → p m → p n)
    (h : Course limit last m ms n) (hm : p m) : p n ∧ ∀ k ∈ ms, p k := by
  induction h with
  | start => exact ⟨hm, by simp⟩
  | step _ hs ih =>
    have hn := hp hs ih.1
    exact ⟨hn, List.forall_mem_cons.mpr ⟨hn, ih.2⟩⟩

/-- What every step relates is related all along the course. -/
theorem pairwise {r : Moment → Moment → Prop} (hrefl : ∀ m, r m m)
    (htrans : ∀ {m n k : Moment}, r m n → r n k → r m k)
    (hr : ∀ {m n : Moment}, m.Step limit last n → r m n)
    (h : Course limit last m ms n) :
    r m n ∧ (∀ k ∈ ms, r m k ∧ r k n) ∧ ms.Pairwise fun later earlier => r earlier later := by
  induction h with
  | start => exact ⟨hrefl m, by simp, .nil⟩
  | step _ hs ih =>
    obtain ⟨hm, hms, hpairs⟩ := ih
    have hs := hr hs
    have hm' := htrans hm hs
    refine ⟨hm', List.forall_mem_cons.mpr ⟨⟨hm', hrefl _⟩, fun k hk => ?_⟩, ?_⟩
    · exact ⟨(hms k hk).1, htrans (hms k hk).2 hs⟩
    · exact List.pairwise_cons.mpr ⟨fun k hk => htrans (hms k hk).2 hs, hpairs⟩

end Course

/-! ### From state to state -/

/-- A parser that is in one state comes to another by a course that its trail shows, and without
using up a bound. -/
structure Leads (env : Env) (s t : State) : Prop where
  course : ∃ ms, t.trail = ms ++ s.trail ∧
    Course env.maxDepth env.endOfFile s.toMoment ms t.toMoment
  ranOut : t.ranOut = s.ranOut

namespace Leads

variable {env : Env} {s t u : State}

theorem refl (env : Env) (s : State) : Leads env s s :=
  ⟨⟨[], rfl, .start⟩, rfl⟩

theorem trans (h : Leads env s t) (h' : Leads env t u) : Leads env s u := by
  obtain ⟨⟨ms, hms, hc⟩, hr⟩ := h
  obtain ⟨⟨ns, hns, hc'⟩, hr'⟩ := h'
  refine ⟨⟨ns ++ ms, ?_, hc.append hc'⟩, hr'.trans hr⟩
  rw [hns, hms, List.append_assoc]

theorem single (h : s.toMoment.Step env.maxDepth env.endOfFile t.toMoment)
    (ht : t.trail = t.toMoment :: s.trail) (hr : t.ranOut = s.ranOut) : Leads env s t :=
  ⟨⟨[t.toMoment], ht, .step .start h⟩, hr⟩

theorem rest_suffix (h : Leads env s t) : t.rest <:+ s.rest := by
  obtain ⟨⟨ms, -, hc⟩, -⟩ := h
  exact (hc.pairwise (r := fun m n => n.rest <:+ m.rest) (fun _ => List.suffix_rfl)
    (fun h h' => h'.trans h) fun h => h.rest_suffix).1

theorem sane (h : Leads env s t) (hs : s.toMoment.Sane env.maxDepth) :
    t.toMoment.Sane env.maxDepth := by
  obtain ⟨⟨ms, -, hc⟩, -⟩ := h
  exact (hc.invariant (fun hs => hs.sane) hs).1

theorem tooDeep (h : Leads env s t) (hs : s.tooDeep = true) : t.tooDeep = true := by
  obtain ⟨⟨ms, -, hc⟩, -⟩ := h
  exact (hc.invariant (p := (·.tooDeep = true)) (fun hs => hs.tooDeep) hs).1

end Leads

end CSharpFront.Parser
