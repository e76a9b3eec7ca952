import CSharpFront.Parser.Declarations
import CSharpFront.Proofs.Parser.Passes
import CSharpFront.Proofs.Syntax.Layout
import CSharpFront.Proofs.Syntax.Placement
/-!
How a tree grows while its text is parsed. What a parser has built since it was at an offset covers
text from there to the last token taken, in order and one inside the other, and it holds no more
placeholders than have been reported in the meantime. Each step of a parser keeps this; a node over
all that has been built since an offset begins at that offset.

What a missing name belongs to begins where the last token ended, so it may come before the next
token. `Late` parsers are those that are only asked for after some token of the node was taken.
-/

namespace CSharpFront.Parser

/-! ### Where a parser stands -/

/-- The token that comes next in a text that ends with a token. -/
def Moment.next (last : Token) (m : Moment) : Token := m.rest.headD last

/-- A moment in a text whose tokens stand in order: those that are left come after the last one
taken, and at the nesting limit none are left. -/
structure Moment.Settled (last : Token) (m : Moment) : Prop where
  kind_last : last.kind = .endOfFile
  stop_last : last.stop = last.start
  inOrder : TokenStream.InOrder ⟨m.rest, last⟩
  prevStop_le : m.prevStop ≤ (m.next last).start
  ended : m.tooDeep = true → m.rest = [] ∧ m.prevStop = last.start

/-- What a later moment has gone on to. -/
structure Moment.Before (last : Token) (m n : Moment) : Prop where
  prevStop_le : m.prevStop ≤ n.prevStop
  next_le : (m.next last).start ≤ (n.next last).start
  size_le : m.diagnostics.size ≤ n.diagnostics.size
  tooDeep : m.tooDeep = true → n.tooDeep = true

namespace Moment

variable {last t : Token} {ts : List Token} {m n k : Moment}

theorem Before.refl (m : Moment) : m.Before last m :=
  ⟨Nat.le_refl _, Nat.le_refl _, Nat.le_refl _, id⟩

theorem Before.trans (h : m.Before last n) (h' : n.Before last k) : m.Before last k :=
  ⟨Nat.le_trans h.prevStop_le h'.prevStop_le, Nat.le_trans h.next_le h'.next_le,
    Nat.le_trans h.size_le h'.size_le, h'.tooDeep ∘ h.tooDeep⟩

theorem Before.not_tooDeep (h : m.Before last n) (hn : n.tooDeep = false) : m.tooDeep = false := by
  rw [← Bool.not_eq_true] at hn ⊢
  exact hn ∘ h.tooDeep

theorem start_next_le_start_last (h : m.Settled last) : (m.next last).start ≤ last.start := by
  rw [next]
  cases hr : m.rest with
  | nil => exact Nat.le_refl _
  | cons t ts =>
    have ht : t ∈ m.rest := hr ▸ List.mem_cons_self
    have hle := h.inOrder.stop_le t ht
    have hlt := h.inOrder.tokens.start_lt_stop t ht
    exact Nat.le_trans (Nat.le_of_lt hlt) hle

theorem start_next_le_stop_next (h : m.Settled last) :
    (m.next last).start ≤ (m.next last).stop := by
  rw [next]
  cases hr : m.rest with
  | nil => exact Nat.le_of_eq h.stop_last.symm
  | cons t ts => exact Nat.le_of_lt (h.inOrder.tokens.start_lt_stop t (hr ▸ List.mem_cons_self))

/-- Past the last token the parser and its lookahead see the same. -/
theorem Settled.kind_next (h : m.Settled last) : (m.next last).kind = Lookahead.kind m.rest := by
  rw [next]
  cases m.rest with
  | nil => exact h.kind_last
  | cons t ts => rfl

/-- Past the limit the text ends. -/
theorem prevStop_eq_of_tooDeep (h : m.Settled last) (hd : m.tooDeep = true) :
    m.prevStop = (m.next last).start := by
  obtain ⟨hrest, hstop⟩ := h.ended hd
  rw [next, hrest, hstop]
  rfl

/-- The next token is taken. -/
def taken (m : Moment) : Moment :=
  match m.rest with
  | [] => m
  | t :: rest => { m with rest, prevStop := t.stop }

theorem taken_of_cons (hr : m.rest = t :: ts) :
    m.taken = { m with rest := ts, prevStop := t.stop } := by
  rw [taken, hr]

theorem Settled.taken (h : m.Settled last) : m.taken.Settled last := by
  rw [Moment.taken]
  split
  · exact h
  next t ts hr =>
    have hsuffix : t :: ts <:+ m.rest := hr ▸ List.suffix_rfl
    obtain ⟨hlt, hle⟩ := h.inOrder.of_suffix hsuffix
    refine ⟨h.kind_last, h.stop_last, ?_, hle, fun hd => ?_⟩
    · have hts : ts.Sublist m.rest := hr ▸ List.sublist_cons_self t ts
      exact ⟨h.inOrder.tokens.sublist hts, fun u hu => h.inOrder.stop_le u (hts.subset hu)⟩
    · rw [(h.ended hd).1] at hr
      cases hr

theorem Settled.before_taken (h : m.Settled last) : m.Before last m.taken := by
  have hprev := h.prevStop_le
  rw [Moment.taken]
  split
  · exact .refl m
  next t ts hr =>
    have hnext : m.next last = t := by rw [next, hr]; rfl
    obtain ⟨hlt, hle⟩ := h.inOrder.of_suffix (hr ▸ List.suffix_rfl : t :: ts <:+ m.rest)
    rw [hnext] at hprev
    refine ⟨?_, ?_, Nat.le_refl _, id⟩
    · exact Nat.le_trans hprev (Nat.le_of_lt hlt)
    · rw [hnext]
      exact Nat.le_trans (Nat.le_of_lt hlt) hle

/-- A token that covers text has been taken when it is passed. -/
theorem stop_next_le_taken (h : m.Settled last)
    (hne : (m.next last).start < (m.next last).stop) : (m.next last).stop ≤ m.taken.prevStop := by
  cases hr : m.rest with
  | nil =>
    rw [next, hr, List.headD_nil, h.stop_last] at hne
    exact absurd hne (Nat.lt_irrefl _)
  | cons t ts =>
    rw [taken_of_cons hr, next, hr]
    exact Nat.le_refl _

/-- Once a token other than the end of file is taken, its start is behind. -/
theorem start_next_le_taken (h : m.Settled last) (hk : (m.next last).kind ≠ .endOfFile) :
    (m.next last).start ≤ m.taken.prevStop := by
  cases hr : m.rest with
  | nil =>
    rw [next, hr, List.headD_nil] at hk
    exact absurd h.kind_last hk
  | cons t ts =>
    rw [taken_of_cons hr, next, hr]
    exact Nat.le_of_lt (h.inOrder.tokens.start_lt_stop t (hr ▸ List.mem_cons_self))

end Moment

/-! ### What has been built -/

/-- Outlines that were built since an offset, when so many reports had been made. -/
structure Grown (last : Token) (start reports : Nat) (os : List Outline) (m : Moment) : Prop where
  start_le : start ≤ (m.next last).start
  fits : ∀ o ∈ os, o.FitsAll
  within : ∀ o ∈ os, o.range.start < o.range.stop →
    start ≤ o.range.start ∧ o.range.stop ≤ m.prevStop
  sorted : os.Pairwise fun o o' => o.range.Precedes o'.range
  counted : m.tooDeep = false → Outline.allPlaceholders os + reports ≤ m.diagnostics.size

/-- What holds of a moment and goes on to hold. -/
class Upward (last : Token) (c : Moment → Prop) : Prop where
  of_before {m n : Moment} : c m → n.Settled last → m.Before last n → c n

instance (last : Token) (p : Prop) : Upward last fun _ => p := ⟨fun h _ _ => h⟩

instance (last : Token) (c c' : Moment → Prop) [Upward last c] [Upward last c'] :
    Upward last fun m => c m ∧ c' m :=
  ⟨fun h hn hb => ⟨Upward.of_before h.1 hn hb, Upward.of_before h.2 hn hb⟩⟩

/-- Some text from an offset on has been taken. -/
instance (last : Token) (start : Nat) : Upward last fun m => start ≤ m.prevStop :=
  ⟨fun h _ hb => Nat.le_trans h hb.prevStop_le⟩

instance (last : Token) : Upward last fun m => m.tooDeep = true :=
  ⟨fun h _ hb => hb.tooDeep h⟩

namespace Grown

variable {last : Token} {start start' reports reports' : Nat} {os os' : List Outline}
  {o : Outline} {m n : Moment}

theorem nil (h : start ≤ (m.next last).start)
    (hr : m.tooDeep = false → reports ≤ m.diagnostics.size) : Grown last start reports [] m :=
  ⟨h, nofun, nofun, .nil, fun hd => by simpa using hr hd⟩

theorem of_before (h : Grown last start reports os m) (hb : m.Before last n) :
    Grown last start reports os n where
  start_le := Nat.le_trans h.start_le hb.next_le
  fits := h.fits
  within o ho hne := by
    obtain ⟨hstart, hstop⟩ := h.within o ho hne
    exact ⟨hstart, Nat.le_trans hstop hb.prevStop_le⟩
  sorted := h.sorted
  counted hd := Nat.le_trans (h.counted (hb.not_tooDeep hd)) hb.size_le

instance : Upward last (Grown last start reports os) := ⟨fun h _ hb => h.of_before hb⟩

/-- What has been built since a later offset, after more reports. -/
theorem widen (h : Grown last start' reports' os m) (hs : start ≤ start')
    (hr : m.tooDeep = false → reports ≤ reports') : Grown last start reports os m where
  start_le := Nat.le_trans hs h.start_le
  fits := h.fits
  within o ho hne := by
    obtain ⟨hstart, hstop⟩ := h.within o ho hne
    exact ⟨Nat.le_trans hs hstart, hstop⟩
  sorted := h.sorted
  counted hd := Nat.le_trans (Nat.add_le_add_left (hr hd) _) (h.counted hd)

/-- What is built next comes after what was built before. -/
theorem append (h : Grown last start reports os m) (hb : m.Before last n)
    (h' : Grown last start' m.diagnostics.size os' n) (hs : start ≤ start')
    (hm : m.prevStop ≤ start') : Grown last start reports (os ++ os') n where
  start_le := Nat.le_trans hs h'.start_le
  fits := List.forall_mem_append.mpr ⟨h.fits, h'.fits⟩
  within := by
    refine List.forall_mem_append.mpr ⟨(h.of_before hb).within, fun o ho hne => ?_⟩
    obtain ⟨hstart, hstop⟩ := h'.within o ho hne
    exact ⟨Nat.le_trans hs hstart, hstop⟩
  sorted := by
    refine List.pairwise_append.mpr ⟨h.sorted, h'.sorted, fun o ho o' ho' hne hne' => ?_⟩
    have hstop := (h.within o ho hne).2
    have hstart := (h'.within o' ho' hne').1
    omega
  counted hd := by
    have hfirst := h.counted (hb.not_tooDeep hd)
    have hsecond := h'.counted hd
    rw [Outline.allPlaceholders_append]
    omega

theorem sublist (h : Grown last start reports os m) (hs : os'.Sublist os) :
    Grown last start reports os' m where
  start_le := h.start_le
  fits o ho := h.fits o (hs.subset ho)
  within o ho := h.within o (hs.subset ho)
  sorted := h.sorted.sublist hs
  counted hd :=
    Nat.le_trans (Nat.add_le_add_right (Outline.allPlaceholders_le_of_sublist hs) _) (h.counted hd)

/-- Something that covers no text may stand anywhere. -/
theorem rebase (h : Grown last start' reports [o] m) (ho : o.range.stop ≤ o.range.start)
    (hs : start ≤ (m.next last).start) : Grown last start reports [o] m where
  start_le := hs
  fits := h.fits
  within o' ho' hne := by
    rw [List.mem_singleton.mp ho'] at hne
    exact absurd hne (Nat.not_lt.mpr ho)
  sorted := h.sorted
  counted := h.counted

/-- The role that an outline plays does not matter. -/
theorem alike {o' : Outline} (h : Grown last start reports [o] m) (ho : o.Alike o') :
    Grown last start reports [o'] m where
  start_le := h.start_le
  fits p hp := by
    rw [List.mem_singleton.mp hp]
    exact ho.fitsAll (h.fits o (List.mem_singleton_self o))
  within p hp := by
    rw [List.mem_singleton.mp hp, ho.range_eq]
    exact h.within o (List.mem_singleton_self o)
  sorted := List.pairwise_singleton _ _
  counted hd := by
    have hc := h.counted hd
    simpa [ho.placeholders_eq] using hc

theorem expr {role role' : String} {e : Expr} (h : Grown last start reports [e.outline role] m) :
    Grown last start reports [e.outline role'] m :=
  h.alike (e.alike_outline role role')

theorem type {role role' : String} {t : TypeSyntax}
    (h : Grown last start reports [t.outline role] m) :
    Grown last start reports [t.outline role'] m :=
  h.alike (t.alike_outline role role')

/-- The range of a node that ends here. -/
abbrev rangeAt (start : Nat) (m : Moment) : Range := ⟨start, max m.prevStop start⟩

/-- A single outline from an offset to here. -/
theorem single {row : OutlineRow} (hs : start ≤ (m.next last).start)
    (hrow : row.range = rangeAt start m) (hf : Outline.FitsAll (.mk row os))
    (hc : m.tooDeep = false → Outline.placeholders (.mk row os) + reports ≤ m.diagnostics.size) :
    Grown last start reports [.mk row os] m where
  start_le := hs
  fits o ho := by
    rw [List.mem_singleton.mp ho]
    exact hf
  within o ho hne := by
    obtain rfl := List.mem_singleton.mp ho
    have hr : (Outline.mk row os).range = rangeAt start m := hrow
    rw [hr] at hne ⊢
    refine ⟨Nat.le_refl _, ?_⟩
    show max m.prevStop start ≤ m.prevStop
    have hne : start < max m.prevStop start := hne
    omega
  sorted := List.pairwise_singleton _ _
  counted hd := by simpa using hc hd

/-- What has been built fits into a node from there to here. -/
theorem fits_mk {row : OutlineRow} (h : Grown last start reports os m)
    (hrow : row.range = rangeAt start m) : Outline.Fits (.mk row os) := by
  refine .of_sorted ?_ (fun o ho hne => ?_) h.sorted
  · rw [hrow]
    exact Nat.le_max_right _ _
  · obtain ⟨hstart, hstop⟩ := h.within o ho hne
    rw [hrow]
    exact ⟨hstart, Nat.le_trans hstop (Nat.le_max_left _ _)⟩

/-- A node over all that has been built since its start. -/
theorem node {row : OutlineRow} (h : Grown last start reports os m)
    (hrow : row.range = rangeAt start m) (hp : row.isPlaceholder = false) :
    Grown last start reports [.mk row os] m := by
  refine single h.start_le hrow (Outline.fitsAll_mk.mpr ⟨h.fits_mk hrow, h.fits⟩) fun hd => ?_
  rw [Outline.placeholders_mk, hp]
  exact h.counted hd

/-- A member that could not be read, after a report or past the limit. -/
theorem incomplete {row : OutlineRow} (h : Grown last start (reports + 1) os m)
    (hrow : row.range = rangeAt start m) : Grown last start reports [.mk row os] m := by
  refine single h.start_le hrow (Outline.fitsAll_mk.mpr ⟨h.fits_mk hrow, h.fits⟩) fun hd => ?_
  have hc := h.counted hd
  rw [Outline.placeholders_mk]
  split <;> omega

/-- What was made up after a report, or past the limit. -/
theorem placeholder {row : OutlineRow} (hs : start ≤ (m.next last).start)
    (hrow : row.range = .emptyAt m.prevStop)
    (hr : m.tooDeep = false → reports + 1 ≤ m.diagnostics.size) :
    Grown last start reports [.mk row []] m where
  start_le := hs
  fits o ho := by
    rw [List.mem_singleton.mp ho]
    refine Outline.fitsAll_mk.mpr ⟨.of_sorted ?_ nofun .nil, nofun⟩
    rw [hrow]
    exact Nat.le_refl _
  within o ho hne := by
    obtain rfl := List.mem_singleton.mp ho
    have hr : (Outline.mk row []).range = .emptyAt m.prevStop := hrow
    rw [hr] at hne
    exact absurd hne (Nat.lt_irrefl _)
  sorted := List.pairwise_singleton _ _
  counted hd := by
    have hle := hr hd
    rw [Outline.allPlaceholders_cons, Outline.placeholders_mk]
    simp only [Outline.allPlaceholders_nil]
    split <;> omega

/-- A token that is taken, as what it is shown as. -/
theorem leaf {row : OutlineRow} (h : Grown last start reports os m) (hm : m.Settled last)
    (hrow : row.range = (m.next last).range) (hp : row.isPlaceholder = false) :
    Grown last start reports (os ++ [.mk row []]) m.taken := by
  have hb : m.Before last m.taken := hm.before_taken
  have hn : m.taken.Settled last := hm.taken
  have hle := Moment.start_next_le_stop_next hm
  have htoken : Grown last (m.next last).start m.diagnostics.size [.mk row []] m.taken := by
    refine ⟨hb.next_le, fun o ho => ?_, fun o ho hne => ?_, List.pairwise_singleton _ _,
      fun _ => ?_⟩
    · rw [List.mem_singleton.mp ho]
      refine Outline.fitsAll_mk.mpr ⟨.of_sorted ?_ nofun .nil, nofun⟩
      rw [hrow]
      exact hle
    · obtain rfl := List.mem_singleton.mp ho
      have hr : (Outline.mk row []).range = (m.next last).range := hrow
      rw [hr] at hne ⊢
      exact ⟨Nat.le_refl _, Moment.stop_next_le_taken hm hne⟩
    · rw [Outline.allPlaceholders_cons, Outline.placeholders_mk, hp]
      simpa using hb.size_le
  exact h.append hb htoken h.start_le hm.prevStop_le

end Grown

/-! ### Steps -/

variable {last : Token} {α β : Type}

/-- A parser that goes forward, and after which something holds of its result if something held
before. -/
def Steps (last : Token) (before : Moment → Prop) (p : P α) (after : α → Moment → Prop) : Prop :=
  ∀ env s, env.endOfFile = last → s.toMoment.Settled last → before s.toMoment →
    (p env s).2.toMoment.Settled last ∧ s.toMoment.Before last (p env s).2.toMoment ∧
      after (p env s).1 (p env s).2.toMoment

/-- A parser of which only matters that it goes forward. -/
abbrev Quiet (last : Token) (p : P α) : Prop := Steps last (fun _ => True) p fun _ _ => True

/-- A parser that builds something after what has been built since an offset. -/
abbrev Extends (last : Token) (start reports : Nat) (os : List Outline) (p : P α)
    (out : α → List Outline) : Prop :=
  Steps last (Grown last start reports os) p fun a => Grown last start reports (out a)

/-- A parser that builds its result from wherever it stands. -/
abbrev Grows (last : Token) (p : P α) (out : α → List Outline) : Prop :=
  ∀ start reports, Extends last start reports [] p out

/-- The same, if some text of what it belongs to has been taken. -/
abbrev Late (last : Token) (p : P α) (out : α → List Outline) : Prop :=
  ∀ start reports, Steps last (fun m => start ≤ m.prevStop ∧ Grown last start reports [] m) p
    fun a => Grown last start reports (out a)

namespace Steps

variable {p q : P α} {c c' : Moment → Prop} {after : α → Moment → Prop}
  {post : β → Moment → Prop} {f : α → P β}

theorem pure {a : α} (h : ∀ m, m.Settled last → c m → after a m) :
    Steps last c (Pure.pure a) after :=
  fun _ _ _ hs hc => ⟨hs, .refl _, h _ hs hc⟩

theorem bind (hp : Steps last c p after) (hf : ∀ a, Steps last (after a) (f a) post) :
    Steps last c (p >>= f) post := by
  intro env s he hs hc
  obtain ⟨hs', hb, ha⟩ := hp env s he hs hc
  obtain ⟨hs'', hb', hpost⟩ := hf _ env _ he hs' ha
  exact ⟨hs'', hb.trans hb', hpost⟩

theorem imp {after' : α → Moment → Prop} (hp : Steps last c p after)
    (h : ∀ a m, m.Settled last → after a m → after' a m) : Steps last c p after' := by
  intro env s he hs hc
  obtain ⟨hs', hb, ha⟩ := hp env s he hs hc
  exact ⟨hs', hb, h _ _ hs' ha⟩

theorem given (hp : Steps last c p after) (h : ∀ m, m.Settled last → c' m → c m) :
    Steps last c' p after :=
  fun env s he hs hc => hp env s he hs (h _ hs hc)

/-- What was known of the moment before is known of it still. -/
theorem since (hp : Steps last c p after) :
    Steps last c p fun a n => ∃ m, m.Settled last ∧ c m ∧ m.Before last n ∧ after a n := by
  intro env s he hs hc
  obtain ⟨hs', hb, ha⟩ := hp env s he hs hc
  exact ⟨hs', hb, _, hs, hc, hb, ha⟩

/-- From one moment, whichever it is. -/
theorem wherever (h : ∀ m, m.Settled last → c m → Steps last (· = m) p after) :
    Steps last c p after :=
  fun env s he hs hc => h _ hs hc env s he hs rfl

/-- A step that only goes forward. -/
theorem keep [Upward last c] (hp : Quiet last p) : Steps last c p fun _ => c := by
  intro env s he hs hc
  obtain ⟨hs', hb, -⟩ := hp env s he hs trivial
  exact ⟨hs', hb, Upward.of_before hc hs' hb⟩

theorem next [Upward last c] (hp : Quiet last p) (hf : ∀ a, Steps last c (f a) post) :
    Steps last c (p >>= f) post :=
  bind (keep hp) hf

theorem quiet (hp : Steps last (fun _ => True) p after) : Quiet last p :=
  hp.imp fun _ _ _ _ => trivial

theorem map {g : α → β} (hp : Steps last c p after) (h : ∀ a m, after a m → post (g a) m) :
    Steps last c (g <$> p) post :=
  hp.bind fun a => .pure fun m _ => h a m

theorem ite {b : Prop} [Decidable b] (hp : Steps last c p after) (hq : Steps last c q after) :
    Steps last c (if b then p else q) after := by
  split
  · exact hp
  · exact hq

/-- Two ways to come to the same last step. -/
theorem iteBind {b : Prop} [Decidable b] (hp : Steps last c p after) (hq : Steps last c q after)
    (hf : ∀ a, Steps last (after a) (f a) post) :
    Steps last c (if b then p >>= f else q >>= f) post :=
  .ite (hp.bind hf) (hq.bind hf)

theorem get {f : State → P β}
    (hf : ∀ s : State, Steps last (fun m => m = s.toMoment ∧ c m) (f s) post) :
    Steps last c (MonadState.get >>= f) post :=
  fun _ s he hs hc => hf s _ s he hs ⟨rfl, hc⟩

theorem read {f : Env → P β} (hf : ∀ env : Env, env.endOfFile = last → Steps last c (f env) post) :
    Steps last c (MonadReader.read >>= f) post :=
  fun env s he => hf env he env s he

theorem withReader {g : Env → Env} (hg : ∀ env, (g env).endOfFile = env.endOfFile)
    (hp : Steps last c p after) : Steps last c (withReader g p) after :=
  fun env s he hs hc => hp (g env) s ((hg env).trans he) hs hc

/-- The next token, of which it is known that it comes next. -/
theorem current {f : Token → P β}
    (hf : ∀ t, Steps last (fun m => m.next last = t ∧ c m) (f t) post) :
    Steps last c (Parser.current >>= f) post := by
  rintro env s rfl hs hc
  exact hf _ env s rfl hs ⟨rfl, hc⟩

theorem currentKind {f : TokenKind → P β}
    (hf : ∀ t, Steps last (fun m => m.next last = t ∧ c m) (f t.kind) post) :
    Steps last c (Parser.currentKind >>= f) post := by
  rintro env s rfl hs hc
  exact hf _ env s rfl hs ⟨rfl, hc⟩

/-- The next token is the one that is known to come next. -/
theorem currentAt {t : Token} {f : Token → P β}
    (hf : Steps last (fun m => m.next last = t ∧ c m) (f t) post) :
    Steps last (fun m => m.next last = t ∧ c m) (Parser.current >>= f) post := by
  rintro env s rfl hs ⟨rfl, hc⟩
  exact hf env s rfl hs ⟨rfl, hc⟩

/-- What goes on to hold is kept beside the rest. -/
theorem frame [Upward last c'] (hp : Steps last c p after) :
    Steps last (fun m => c' m ∧ c m) p fun a m => c' m ∧ after a m := by
  intro env s he hs ⟨hc', hc⟩
  obtain ⟨hs', hb, ha⟩ := hp env s he hs hc
  exact ⟨hs', hb, Upward.of_before hc' hs' hb, ha⟩

/-- A fact about the next token that is no longer needed. -/
theorem drop {c'' : Moment → Prop} (hp : Steps last c p after) :
    Steps last (fun m => c'' m ∧ c m) p after :=
  hp.given fun _ _ h => h.2

end Steps

end CSharpFront.Parser
