import CSharpFront.Text.Span
/-!
Offsets at which a text can be cut. An offset falls between two characters when the characters
before it take just that many bytes; two such offsets in order always have a slice between them.
-/

namespace CSharpFront

/-- Both ends of a span are offsets of one sort. -/
structure Span.On (sort : Nat → Prop) (s : Span) : Prop where
  start : sort s.start
  stop : sort s.stop

/-- Both ends of a range are offsets of one sort. -/
structure Range.On (sort : Nat → Prop) (r : Range) : Prop where
  start : sort r.start
  stop : sort r.stop

theorem Span.on_emptyAt {sort : Nat → Prop} {pos : Nat} (h : sort pos) :
    (Span.emptyAt pos).On sort := ⟨h, h⟩

/-- This holds even when the stop comes first. -/
theorem Span.on_between {sort : Nat → Prop} {start stop : Nat} (h₁ : sort start)
    (h₂ : sort stop) : (Span.between start stop).On sort := by
  refine ⟨h₁, ?_⟩
  rcases Nat.le_total start stop with h | h
  · rw [Span.stop_between h]
    exact h₂
  · rw [Span.stop, Span.between, Nat.sub_eq_zero_of_le h]
    exact h₁

theorem Range.on_emptyAt {sort : Nat → Prop} {pos : Nat} (h : sort pos) :
    (Range.emptyAt pos).On sort := ⟨h, h⟩

theorem Range.On.toSpan {sort : Nat → Prop} {r : Range} (h : r.On sort) : r.toSpan.On sort :=
  Span.on_between h.start h.stop

namespace Text

/-- An offset between two characters of a text, or at one of its ends. -/
def IsBoundary (text : String) (pos : Nat) : Prop := String.Pos.Raw.IsValid text ⟨pos⟩

/-- The same of a list of characters. -/
def Offset (cs : List Char) (pos : Nat) : Prop := ∃ before, before <+: cs ∧ byteCount before = pos

theorem byteCount_eq_utf8ByteSize (cs : List Char) :
    byteCount cs = (String.ofList cs).utf8ByteSize := by
  induction cs with
  | nil => rfl
  | cons c cs ih =>
    rw [byteCount_cons, ih, String.ofList_cons, String.utf8ByteSize_append,
      String.utf8ByteSize_singleton]

theorem byteCount_toList (text : String) : byteCount text.toList = text.utf8ByteSize := by
  rw [byteCount_eq_utf8ByteSize, String.ofList_toList]

theorem isBoundary_iff_offset {text : String} {pos : Nat} :
    IsBoundary text pos ↔ Offset text.toList pos := by
  rw [IsBoundary, String.Pos.Raw.isValid_iff_exists_append]
  constructor
  · rintro ⟨before, after, rfl, h⟩
    refine ⟨before.toList, ⟨after.toList, String.toList_append.symm⟩, ?_⟩
    rw [byteCount_toList]
    exact (congrArg String.Pos.Raw.byteIdx h).symm
  · rintro ⟨before, ⟨after, h⟩, rfl⟩
    refine ⟨String.ofList before, String.ofList after, ?_, ?_⟩
    · rw [← String.ofList_append, h, String.ofList_toList]
    · rw [byteCount_eq_utf8ByteSize]
      rfl

/-! ### Offsets in lists of characters -/

theorem byteCount_pos {cs : List Char} (h : cs ≠ []) : 0 < byteCount cs := by
  cases cs with
  | nil => exact absurd rfl h
  | cons c cs =>
    have := c.utf8Size_pos
    rw [byteCount_cons]
    omega

theorem offset_zero (cs : List Char) : Offset cs 0 := ⟨[], List.nil_prefix, rfl⟩

theorem offset_end (cs : List Char) : Offset cs (byteCount cs) := ⟨cs, List.prefix_rfl, rfl⟩

theorem offset_append (before after : List Char) : Offset (before ++ after) (byteCount before) :=
  ⟨before, List.prefix_append _ _, rfl⟩

theorem Offset.le {cs : List Char} {pos : Nat} (h : Offset cs pos) : pos ≤ byteCount cs := by
  obtain ⟨before, ⟨after, rfl⟩, rfl⟩ := h
  rw [byteCount_append]
  omega

/-- An offset of the characters at the front is one of the whole. -/
theorem Offset.of_isPrefix {cs ds : List Char} {pos : Nat} (h : Offset cs pos) (hp : cs <+: ds) :
    Offset ds pos := by
  obtain ⟨before, hb, rfl⟩ := h
  exact ⟨before, hb.trans hp, rfl⟩

/-- An offset of the characters after some others, counted from the first of those. -/
theorem Offset.after {cs : List Char} {pos : Nat} (h : Offset cs pos) (front : List Char) :
    Offset (front ++ cs) (byteCount front + pos) := by
  obtain ⟨before, ⟨after, rfl⟩, rfl⟩ := h
  exact ⟨front ++ before, ⟨after, by simp⟩, byteCount_append _ _⟩

/-! ### Stretches of characters -/

/-- Some characters stand among others, from an offset on. -/
def StandsAt (inside cs : List Char) (pos : Nat) : Prop :=
  ∃ before after, cs = before ++ (inside ++ after) ∧ byteCount before = pos

theorem standsAt_zero (inside after : List Char) : StandsAt inside (inside ++ after) 0 :=
  ⟨[], after, rfl, rfl⟩

theorem StandsAt.after {inside cs : List Char} {pos : Nat} (h : StandsAt inside cs pos)
    (front : List Char) : StandsAt inside (front ++ cs) (byteCount front + pos) := by
  obtain ⟨before, after, rfl, rfl⟩ := h
  exact ⟨front ++ before, after, by rw [List.append_assoc], byteCount_append _ _⟩

/-- An offset of the stretch, counted from its start, is one of the whole. -/
theorem StandsAt.offset {inside cs : List Char} {pos k : Nat} (h : StandsAt inside cs pos)
    (hk : Offset inside k) : Offset cs (pos + k) := by
  obtain ⟨before, after, rfl, rfl⟩ := h
  exact (hk.of_isPrefix (List.prefix_append _ after)).after before

/-! ### Slices -/

theorem slice?_append (before inside after : List Char) {text : String}
    (h : text.toList = before ++ (inside ++ after)) :
    slice? text ⟨byteCount before, byteCount inside⟩ = some (String.ofList inside) := by
  simp only [slice?, h, dropBytes?_append, Option.bind_some, takeBytes?_append, Option.map_some]

theorem StandsAt.slice? {inside : List Char} {text : String} {pos : Nat}
    (h : StandsAt inside text.toList pos) :
    Text.slice? text ⟨pos, byteCount inside⟩ = some (String.ofList inside) := by
  obtain ⟨before, after, ht, rfl⟩ := h
  exact slice?_append before inside after ht

theorem StandsAt.range_on {inside : List Char} {text : String} {pos : Nat}
    (h : StandsAt inside text.toList pos) :
    Range.On (IsBoundary text) ⟨pos, pos + byteCount inside⟩ :=
  ⟨isBoundary_iff_offset.mpr (h.offset (offset_zero inside)),
    isBoundary_iff_offset.mpr (h.offset (offset_end inside))⟩

/-- Of two beginnings of one list the one with fewer bytes begins the other. -/
theorem isPrefix_of_byteCount_le {cs ds es : List Char} (hc : cs <+: es) (hd : ds <+: es)
    (h : byteCount cs ≤ byteCount ds) : cs <+: ds := by
  rcases List.prefix_or_prefix_of_prefix hc hd with hp | ⟨rest, rfl⟩
  · exact hp
  · cases rest with
    | nil => simp
    | cons c rest =>
      have := byteCount_pos (List.cons_ne_nil c rest)
      rw [byteCount_append] at h
      omega

/-- A span between two boundaries of a text has a slice. -/
theorem isSome_slice? {text : String} {s : Span} (h : s.On (IsBoundary text)) :
    (slice? text s).isSome := by
  obtain ⟨before, hb, hs⟩ := isBoundary_iff_offset.mp h.start
  obtain ⟨upto, hu, ht⟩ := isBoundary_iff_offset.mp h.stop
  have hle : byteCount before ≤ byteCount upto := by
    rw [hs, ht]
    exact Nat.le_add_right _ _
  obtain ⟨inside, rfl⟩ := isPrefix_of_byteCount_le hb hu hle
  obtain ⟨after, ha⟩ := hu
  have hl : s.length = byteCount inside := by
    rw [byteCount_append, hs, Span.stop] at ht
    omega
  have hspan : s = ⟨byteCount before, byteCount inside⟩ := Span.ext hs.symm hl
  rw [hspan, slice?_append before inside after (by rw [← ha, List.append_assoc])]
  rfl

end Text

end CSharpFront
