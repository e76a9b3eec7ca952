import CSharpFront.Syntax.Tree
/-!
Ranges that are laid out over tokens. Tokens that stand in order are divided into blocks, and over
each block goes one range, from the start of its first token to the stop of its last. Then every
token lies in exactly one of the ranges.
-/

namespace CSharpFront

/-- Tokens in the order of the text, none of them empty. -/
structure Token.InOrder (ts : List Token) : Prop where
  start_lt_stop : ∀ t ∈ ts, t.start < t.stop
  pairwise : ts.Pairwise fun t u => t.stop ≤ u.start

/-- Whether a token lies in a range. -/
def Range.holds (r : Range) (t : Token) : Bool := r.start ≤ t.start && t.stop ≤ r.stop

/-- A range that begins and ends where tokens do. -/
def Range.GoesOver (r : Range) (ts : List Token) : Prop :=
  ∃ first ∈ ts.head?, ∃ last ∈ ts.getLast?, r = ⟨first.start, last.stop⟩

/-- Ranges that go over tokens one block after the other, and leave none out. -/
inductive LaidOut : List Range → List Token → Prop
  | nil : LaidOut [] []
  | cons {r : Range} {rs : List Range} {ts us : List Token} (hr : r.GoesOver ts)
    (hrs : LaidOut rs us) : LaidOut (r :: rs) (ts ++ us)

variable {r : Range} {rs rs' : List Range} {t u : Token} {ts us : List Token}

namespace Token.InOrder

theorem sublist (h : InOrder us) (hs : ts.Sublist us) : InOrder ts :=
  ⟨fun t ht => h.start_lt_stop t (hs.subset ht), h.pairwise.sublist hs⟩

theorem stop_le_start (h : InOrder (ts ++ us)) (ht : t ∈ ts) (hu : u ∈ us) : t.stop ≤ u.start :=
  (List.pairwise_append.mp h.pairwise).2.2 t ht u hu

theorem nodup_starts (h : InOrder ts) : (ts.map Token.start).Nodup := by
  refine List.pairwise_map.mpr (h.pairwise.imp_of_mem fun ht _ hle => ?_)
  exact Nat.ne_of_lt (Nat.lt_of_lt_of_le (h.start_lt_stop _ ht) hle)

end Token.InOrder

theorem Range.holds_iff : r.holds t = true ↔ r.start ≤ t.start ∧ t.stop ≤ r.stop := by
  simp [holds]

namespace Range.GoesOver

theorem start_of_mem (h : r.GoesOver ts) : ∃ u ∈ ts, r.start = u.start := by
  obtain ⟨first, hfirst, -, -, rfl⟩ := h
  exact ⟨first, List.mem_of_mem_head? hfirst, rfl⟩

theorem stop_of_mem (h : r.GoesOver ts) : ∃ u ∈ ts, r.stop = u.stop := by
  obtain ⟨-, -, last, hlast, rfl⟩ := h
  exact ⟨last, List.mem_of_mem_getLast? hlast, rfl⟩

/-- The range over a block holds all of its tokens. -/
theorem holds (h : r.GoesOver ts) (ho : Token.InOrder ts) (ht : t ∈ ts) : r.holds t = true := by
  obtain ⟨first, hfirst, last, hlast, rfl⟩ := h
  obtain ⟨tail, rfl⟩ := List.head?_eq_some_iff.mp hfirst
  have hstart : first.start ≤ t.start := by
    rcases List.mem_cons.mp ht with rfl | ht
    · exact Nat.le_refl _
    · have hlt := ho.start_lt_stop first List.mem_cons_self
      have hle := (List.pairwise_cons.mp ho.pairwise).1 t ht
      omega
  have hstop : t.stop ≤ last.stop := by
    obtain ⟨init, heq⟩ := List.getLast?_eq_some_iff.mp hlast
    rw [heq] at ht ho
    rcases List.mem_append.mp ht with ht | ht
    · have hlt := ho.start_lt_stop last (List.mem_append_right _ List.mem_cons_self)
      have hle := ho.stop_le_start ht List.mem_cons_self
      omega
    · exact Nat.le_of_eq (congrArg Token.stop (List.mem_singleton.mp ht))
  exact holds_iff.mpr ⟨hstart, hstop⟩

end Range.GoesOver

namespace LaidOut

theorem append (h : LaidOut rs ts) (h' : LaidOut rs' us) : LaidOut (rs ++ rs') (ts ++ us) := by
  induction h with
  | nil => exact h'
  | cons hr _ ih =>
    rw [List.append_assoc]
    exact .cons hr ih

/-- Every range starts at a token. -/
theorem start_of_mem (h : LaidOut rs ts) (hr : r ∈ rs) : ∃ u ∈ ts, r.start = u.start := by
  induction h with
  | nil => cases hr
  | cons hover _ ih =>
    rcases List.mem_cons.mp hr with rfl | hr
    · obtain ⟨u, hu, hstart⟩ := hover.start_of_mem
      exact ⟨u, List.mem_append_left _ hu, hstart⟩
    · obtain ⟨u, hu, hstart⟩ := ih hr
      exact ⟨u, List.mem_append_right _ hu, hstart⟩

/-- Every token lies in exactly one range. -/
theorem countP_holds (h : LaidOut rs ts) (ho : Token.InOrder ts) (ht : t ∈ ts) :
    rs.countP (·.holds t) = 1 := by
  induction h with
  | nil => cases ht
  | @cons r rs ts us hover hrest ih =>
    have hlt := ho.start_lt_stop t ht
    rcases List.mem_append.mp ht with ht | ht
    · -- the ranges of later blocks start after the token
      have hlater : rs.countP (·.holds t) = 0 := by
        refine List.countP_eq_zero.mpr fun r' hr' hholds => ?_
        obtain ⟨u, hu, hstart⟩ := hrest.start_of_mem hr'
        have hle := ho.stop_le_start ht hu
        have hle' := (Range.holds_iff.mp hholds).1
        omega
      have hhere : r.holds t = true := hover.holds (ho.sublist (List.sublist_append_left _ _)) ht
      rw [List.countP_cons, hlater, if_pos hhere]
    · -- the range of this block stops before the token
      have hhere : ¬ r.holds t = true := by
        intro hholds
        obtain ⟨u, hu, hstop⟩ := hover.stop_of_mem
        have hle := ho.stop_le_start hu ht
        have hle' := (Range.holds_iff.mp hholds).2
        omega
      rw [List.countP_cons, if_neg hhere]
      exact ih (ho.sublist (List.sublist_append_right _ _)) ht

end LaidOut

/-- A stream whose tokens stand in order before its end. -/
structure TokenStream.InOrder (stream : TokenStream) : Prop where
  tokens : Token.InOrder stream.tokens
  stop_le : ∀ t ∈ stream.tokens, t.stop ≤ stream.endOfFile.start

theorem TokenStream.InOrder.of_suffix {stream : TokenStream} (h : stream.InOrder)
    (hs : t :: ts <:+ stream.tokens) :
    t.start < t.stop ∧ t.stop ≤ (ts.headD stream.endOfFile).start := by
  have ho := h.tokens.sublist hs.sublist
  refine ⟨ho.start_lt_stop t List.mem_cons_self, ?_⟩
  cases ts with
  | nil => exact h.stop_le t (hs.subset List.mem_cons_self)
  | cons u us => exact (List.pairwise_cons.mp ho.pairwise).1 u List.mem_cons_self

end CSharpFront
