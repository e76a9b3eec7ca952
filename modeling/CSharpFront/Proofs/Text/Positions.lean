import CSharpFront.Proofs.Text.Boundary
import CSharpFront.Text.LineMap
import Mathlib.Data.Set.Card
import Mathlib.Order.Interval.Finset.Nat
/-!
What the line and the column of an offset mean. A line map keeps two tables, of where lines start
and of which bytes continue a character, and looks offsets up in them. Main statement: what it finds
is what a walk over the characters finds, and what counting line ends and characters gives.
-/

namespace CSharpFront

namespace Text

/-- A line has ended just before an offset: what comes last before it is a line feed, or a carriage
return that no line feed follows. -/
def EndsLineAt (cs : List Char) (pos : Nat) : Prop :=
  ∃ before after, cs = before ++ after ∧ byteCount before = pos ∧
    (before.getLast? = some '\n' ∨ before.getLast? = some '\r' ∧ after.head? ≠ some '\n')

/-- A character begins at an offset. -/
def BeginsAt (cs : List Char) (pos : Nat) : Prop :=
  ∃ before c after, cs = before ++ c :: after ∧ byteCount before = pos

/-- The line of an offset starts here: after the last line end that is not past the offset, or where
the text begins. -/
structure LineStartsAt (cs : List Char) (pos start : Nat) : Prop where
  starts : start = 0 ∨ EndsLineAt cs start
  le : start ≤ pos
  last : ∀ q, EndsLineAt cs q → q ≤ pos → q ≤ start

/-- Walks over the characters for some bytes. A line end counts once it is passed as a whole, any
other character once its first byte is passed; between the two characters of one line end the walk
is still on the line. -/
def walk (here : LinePosition) : List Char → Nat → LinePosition
  | [], _ => here
  | _ :: _, 0 => here
  | '\r' :: '\n' :: cs, n + 1 =>
    if n = 0 then ⟨here.line, here.column + 1⟩ else walk ⟨here.line + 1, 1⟩ cs (n - 1)
  | c :: cs, n + 1 =>
    if c = '\r' ∨ c = '\n' then walk ⟨here.line + 1, 1⟩ cs n
    else walk ⟨here.line, here.column + 1⟩ cs (n + 1 - c.utf8Size)

/-! ### The ends of lines -/

theorem not_endsLineAt_nil (pos : Nat) : ¬ EndsLineAt [] pos := by
  rintro ⟨before, after, h, -, hend⟩
  obtain ⟨rfl, rfl⟩ := List.append_eq_nil_iff.mp h.symm
  simp at hend

/-- The first line end of some characters stands after the first of them, or after those. -/
theorem endsLineAt_cons_iff (c : Char) (cs : List Char) (pos : Nat) :
    EndsLineAt (c :: cs) pos ↔
      (pos = c.utf8Size ∧ (c = '\n' ∨ c = '\r' ∧ cs.head? ≠ some '\n')) ∨
        ∃ k, pos = c.utf8Size + k ∧ EndsLineAt cs k := by
  constructor
  · rintro ⟨before, after, h, rfl, hend⟩
    rcases before with _ | ⟨d, before⟩
    · simp at hend
    obtain ⟨rfl, rfl⟩ := List.cons.inj h
    rcases before with _ | ⟨e, before⟩
    · left
      simpa using hend
    · right
      exact ⟨_, rfl, e :: before, after, rfl, rfl, by simpa using hend⟩
  · rintro (⟨rfl, hend⟩ | ⟨k, rfl, before, after, rfl, rfl, hend⟩)
    · exact ⟨[c], cs, rfl, rfl, by simpa using hend⟩
    · refine ⟨c :: before, after, rfl, rfl, ?_⟩
      rcases before with _ | ⟨e, before⟩
      · simp at hend
      · simpa using hend

/-! ### The characters -/

theorem beginsAt_cons_iff (c : Char) (cs : List Char) (pos : Nat) :
    BeginsAt (c :: cs) pos ↔ pos = 0 ∨ ∃ k, pos = c.utf8Size + k ∧ BeginsAt cs k := by
  constructor
  · rintro ⟨before, d, after, h, rfl⟩
    rcases before with _ | ⟨e, before⟩
    · exact .inl rfl
    · obtain ⟨rfl, rfl⟩ := List.cons.inj h
      exact .inr ⟨_, rfl, before, d, after, rfl, rfl⟩
  · rintro (rfl | ⟨k, rfl, before, d, after, rfl, rfl⟩)
    · exact ⟨[], c, cs, rfl, rfl⟩
    · exact ⟨c :: before, d, after, rfl, rfl⟩

theorem BeginsAt.lt {cs : List Char} {pos : Nat} (h : BeginsAt cs pos) : pos < byteCount cs := by
  obtain ⟨before, c, after, rfl, rfl⟩ := h
  have := c.utf8Size_pos
  rw [byteCount_append, byteCount_cons]
  omega

end Text

namespace LineMap

open Text (EndsLineAt BeginsAt LineStartsAt walk byteCount)

/-! ### The table of line starts -/

theorem mem_startsFrom_iff (base : Nat) (cs : List Char) (pos : Nat) :
    pos ∈ startsFrom base cs ↔ ∃ k, pos = base + k ∧ EndsLineAt cs k := by
  have hreturn : '\r'.utf8Size = 1 := rfl
  have hfeed : '\n'.utf8Size = 1 := rfl
  fun_induction startsFrom base cs with
  | case1 base => simp [Text.not_endsLineAt_nil]
  | case2 base cs ih =>
    simp only [List.mem_cons, ih, Text.endsLineAt_cons_iff, hreturn, hfeed]
    constructor
    · rintro (rfl | ⟨k, rfl, h⟩)
      · exact ⟨2, rfl, .inr ⟨1, rfl, .inl ⟨rfl, .inl trivial⟩⟩⟩
      · exact ⟨2 + k, by omega, .inr ⟨1 + k, by omega, .inr ⟨k, rfl, h⟩⟩⟩
    · rintro ⟨_, rfl, ⟨-, h⟩ | ⟨_, rfl, ⟨rfl, -⟩ | ⟨k, rfl, h⟩⟩⟩
      · simp at h
      · exact .inl rfl
      · exact .inr ⟨k, by omega, h⟩
  | case3 base c cs hpair hc ih =>
    have hsize : c.utf8Size = 1 := by rcases hc with rfl | rfl <;> rfl
    have hends : c = '\n' ∨ c = '\r' ∧ cs.head? ≠ some '\n' := by
      refine hc.symm.imp_right fun hr => ⟨hr, fun hn => ?_⟩
      obtain ⟨rest, rfl⟩ := List.head?_eq_some_iff.mp hn
      exact hpair rest hr rfl
    simp only [List.mem_cons, ih, Text.endsLineAt_cons_iff, hsize]
    constructor
    · rintro (rfl | ⟨k, rfl, h⟩)
      · exact ⟨1, rfl, .inl ⟨rfl, hends⟩⟩
      · exact ⟨1 + k, by omega, .inr ⟨k, rfl, h⟩⟩
    · rintro ⟨_, rfl, ⟨rfl, -⟩ | ⟨k, rfl, h⟩⟩
      · exact .inl rfl
      · exact .inr ⟨k, by omega, h⟩
  | case4 base c cs hpair hc ih =>
    simp only [ih, Text.endsLineAt_cons_iff]
    constructor
    · rintro ⟨k, rfl, h⟩
      exact ⟨c.utf8Size + k, by omega, .inr ⟨k, rfl, h⟩⟩
    · rintro ⟨_, rfl, ⟨-, h⟩ | ⟨k, rfl, h⟩⟩
      · exact absurd (h.symm.imp_left And.left) hc
      · exact ⟨k, by omega, h⟩

theorem lt_of_mem_startsFrom {base : Nat} {cs : List Char} {pos : Nat}
    (h : pos ∈ startsFrom base cs) : base < pos := by
  obtain ⟨k, rfl, before, after, -, rfl, hend⟩ := (mem_startsFrom_iff base cs pos).mp h
  have hne : before ≠ [] := by
    rintro rfl
    simp at hend
  have := Text.byteCount_pos hne
  omega

theorem pairwise_startsFrom (base : Nat) (cs : List Char) :
    (startsFrom base cs).Pairwise (· < ·) := by
  fun_induction startsFrom base cs with
  | case1 => exact .nil
  | case2 base cs ih => exact .cons (fun _ h => lt_of_mem_startsFrom h) ih
  | case3 base c cs _ _ ih => exact .cons (fun _ h => lt_of_mem_startsFrom h) ih
  | case4 base c cs _ _ ih => exact ih

/-! ### The table of continuing bytes -/

theorem mem_continuationsFrom_cons (base : Nat) (c : Char) (cs : List Char) (pos : Nat) :
    pos ∈ continuationsFrom base (c :: cs) ↔
      (base < pos ∧ pos < base + c.utf8Size) ∨ pos ∈ continuationsFrom (base + c.utf8Size) cs := by
  rw [continuationsFrom]
  split
  next h =>
    rw [h, or_iff_right (by omega)]
  next h =>
    have := c.utf8Size_pos
    rw [List.mem_append, List.mem_range'_1]
    exact or_congr_left (by omega)

/-- A byte of the text continues a character if none begins with it. -/
theorem mem_continuationsFrom_iff (base : Nat) (cs : List Char) (pos : Nat) :
    pos ∈ continuationsFrom base cs ↔
      ∃ k, pos = base + k ∧ k < byteCount cs ∧ ¬ BeginsAt cs k := by
  induction cs generalizing base with
  | nil => simp [continuationsFrom]
  | cons c cs ih =>
    have hpos := c.utf8Size_pos
    simp only [mem_continuationsFrom_cons, ih, Text.beginsAt_cons_iff, Text.byteCount_cons]
    constructor
    · rintro (⟨hl, hu⟩ | ⟨k, rfl, hk, hb⟩)
      · refine ⟨pos - base, by omega, by omega, ?_⟩
        rintro (h | ⟨k, h, -⟩) <;> omega
      · refine ⟨c.utf8Size + k, by omega, by omega, ?_⟩
        rintro (h | ⟨j, h, hj⟩)
        · omega
        · obtain rfl : k = j := by omega
          exact hb hj
    · rintro ⟨k, rfl, hk, hb⟩
      rcases Nat.lt_or_ge k c.utf8Size with h | h
      · refine .inl ⟨?_, by omega⟩
        have : k ≠ 0 := fun h0 => hb (.inl h0)
        omega
      · refine .inr ⟨k - c.utf8Size, by omega, by omega, fun hj => hb (.inr ⟨_, by omega, hj⟩)⟩

theorem lt_of_mem_continuationsFrom {base : Nat} {cs : List Char} {pos : Nat}
    (h : pos ∈ continuationsFrom base cs) : base < pos := by
  obtain ⟨k, rfl, hk, hb⟩ := (mem_continuationsFrom_iff base cs pos).mp h
  rcases cs with _ | ⟨c, cs⟩
  · exact absurd hk (Nat.not_lt_zero k)
  · have : k ≠ 0 := fun h0 => hb ((Text.beginsAt_cons_iff c cs k).mpr (.inl h0))
    omega

theorem pairwise_continuationsFrom (base : Nat) (cs : List Char) :
    (continuationsFrom base cs).Pairwise (· < ·) := by
  fun_induction continuationsFrom base cs with
  | case1 => exact .nil
  | case2 base c cs _ ih => exact ih
  | case3 base c cs _ ih =>
    refine List.pairwise_append.mpr ⟨List.pairwise_lt_range', ih, fun a ha b hb => ?_⟩
    have := lt_of_mem_continuationsFrom hb
    have := List.mem_range'_1.mp ha
    omega

/-! ### Looking up -/

/-- Of the line starts that are not past an offset, the one at the index that their number gives is
the last. -/
theorem last_getD_countP {first pos : Nat} {starts : List Nat}
    (h : (first :: starts).Pairwise (· < ·)) (hfirst : first ≤ pos) :
    let start := (first :: starts).getD ((first :: starts).countP (· ≤ pos) - 1) 0
    start ∈ first :: starts ∧ start ≤ pos ∧ ∀ q ∈ first :: starts, q ≤ pos → q ≤ start := by
  induction starts generalizing first with
  | nil => simp [hfirst]
  | cons next starts ih =>
    obtain ⟨hlt, hrest⟩ := List.pairwise_cons.mp h
    rcases Nat.lt_or_ge pos next with hpos | hpos
    · have hpast : ∀ q ∈ next :: starts, pos < q := by
        intro q hq
        rcases List.mem_cons.mp hq with rfl | hq
        · exact hpos
        · exact Nat.lt_trans hpos ((List.pairwise_cons.mp hrest).1 q hq)
      have hzero : (next :: starts).countP (· ≤ pos) = 0 :=
        List.countP_eq_zero.mpr fun q hq => by simpa using hpast q hq
      rw [List.countP_cons_of_pos (by simpa using hfirst), hzero]
      refine ⟨List.mem_cons_self, hfirst, fun q hq hle => ?_⟩
      rcases List.mem_cons.mp hq with rfl | hq
      · exact Nat.le_refl _
      · exact absurd hle (Nat.not_le.mpr (hpast q hq))
    · obtain ⟨hmem, hle, hlast⟩ := ih hrest hpos
      have hcount : 0 < (next :: starts).countP (· ≤ pos) :=
        List.countP_pos_iff.mpr ⟨next, List.mem_cons_self, by simpa using hpos⟩
      have hindex : (first :: next :: starts).countP (· ≤ pos) - 1 =
          (next :: starts).countP (· ≤ pos) - 1 + 1 := by
        rw [List.countP_cons_of_pos (by simpa using hfirst)]
        omega
      rw [hindex, List.getD_cons_succ]
      refine ⟨List.mem_cons_of_mem _ hmem, hle, fun q hq hq' => ?_⟩
      rcases List.mem_cons.mp hq with rfl | hq
      · exact Nat.le_of_lt (hlt _ hmem)
      · exact hlast q hq hq'

theorem countP_lt_add {start pos : Nat} (h : start ≤ pos) (bytes : List Nat) :
    bytes.countP (· < start) + bytes.countP (fun b => start ≤ b && b < pos) =
      bytes.countP (· < pos) := by
  induction bytes with
  | nil => rfl
  | cons b bytes ih =>
    simp only [List.countP_cons, Bool.and_eq_true, decide_eq_true_eq]
    split <;> split <;> split <;> omega

theorem ncard_eq_countP {l : List Nat} (h : l.Nodup) (p : Nat → Bool) :
    {q | q ∈ l ∧ p q = true}.ncard = l.countP p := by
  have hset : {q | q ∈ l ∧ p q = true} = ↑(l.filter p).toFinset := by
    ext q
    simp
  rw [hset, Set.ncard_coe_finset, List.toFinset_card_of_nodup (h.filter p),
    List.countP_eq_length_filter]

/-- The bytes of a stretch begin characters or continue them. -/
theorem ncard_beginsAt_add (cs : List Char) (start : Nat) {pos : Nat}
    (hpos : pos ≤ byteCount cs) :
    {q | BeginsAt cs q ∧ start ≤ q ∧ q < pos}.ncard +
      (continuationsFrom 0 cs).countP (fun b => start ≤ b && b < pos) = pos - start := by
  have hnodup : (continuationsFrom 0 cs).Nodup :=
    (pairwise_continuationsFrom 0 cs).imp Nat.ne_of_lt
  have hmem (q : Nat) (hq : q < pos) : q ∈ continuationsFrom 0 cs ↔ ¬ BeginsAt cs q := by
    rw [mem_continuationsFrom_iff]
    exact ⟨fun ⟨k, hk, _, hb⟩ => by rwa [hk, Nat.zero_add],
      fun hb => ⟨q, (Nat.zero_add q).symm, by omega, hb⟩⟩
  have hunion : {q | BeginsAt cs q ∧ start ≤ q ∧ q < pos} ∪
      {q | q ∈ continuationsFrom 0 cs ∧ (decide (start ≤ q) && decide (q < pos)) = true} =
      ↑(Finset.Ico start pos) := by
    ext q
    simp only [Set.mem_union, Set.mem_ofPred_eq, Bool.and_eq_true, decide_eq_true_eq,
      Finset.coe_Ico, Set.mem_Ico]
    constructor
    · rintro (⟨-, h⟩ | ⟨-, h⟩) <;> exact h
    · intro h
      rw [hmem q h.2]
      exact (Classical.em _).imp (⟨·, h⟩) (⟨·, h⟩)
  have hdisjoint : Disjoint {q | BeginsAt cs q ∧ start ≤ q ∧ q < pos}
      {q | q ∈ continuationsFrom 0 cs ∧ (decide (start ≤ q) && decide (q < pos)) = true} := by
    rw [Set.disjoint_left]
    rintro q ⟨hb, -, hlt⟩ ⟨hc, -⟩
    exact (hmem q hlt).mp hc hb
  have hfinite := hunion ▸ Finset.finite_toSet (Finset.Ico start pos)
  rw [← ncard_eq_countP hnodup, ← Set.ncard_union_eq hdisjoint
    (hfinite.subset Set.subset_union_left) (hfinite.subset Set.subset_union_right), hunion,
    Set.ncard_coe_finset, Nat.card_Ico]

/-! ### Walking -/

/-- Before the first line start of the table all is on the first line. -/
theorem positionOf_of_lt {start pos size : Nat} {starts bytes : List Nat} (hstart : start ≤ pos)
    (hsize : pos ≤ size) (h : ∀ q ∈ starts, pos < q) :
    positionOf ⟨start :: starts, bytes, size⟩ pos =
      ⟨1, pos - start - bytes.countP (fun b => start ≤ b && b < pos) + 1⟩ := by
  have hzero : starts.countP (· ≤ pos) = 0 :=
    List.countP_eq_zero.mpr fun q hq => by simpa using h q hq
  have hone : (start :: starts).countP (· ≤ pos) = 1 := by
    rw [List.countP_cons_of_pos (by simpa using hstart), hzero]
  have hbytes := countP_lt_add hstart bytes
  simp only [positionOf, Nat.min_eq_left hsize, hone, Nat.sub_self, List.getD_cons_zero]
  congr 3
  omega

/-- A line start that is not past an offset is one line more. -/
theorem positionOf_cons {start next pos size : Nat} {starts bytes : List Nat}
    (hstart : start ≤ next) (hnext : next ≤ pos) (hsize : next ≤ size) :
    positionOf ⟨start :: next :: starts, bytes, size⟩ pos =
      ⟨(positionOf ⟨next :: starts, bytes, size⟩ pos).line + 1,
        (positionOf ⟨next :: starts, bytes, size⟩ pos).column⟩ := by
  have hle : next ≤ min pos size := Nat.le_min.mpr ⟨hnext, hsize⟩
  have hcount : 0 < (next :: starts).countP (· ≤ min pos size) :=
    List.countP_pos_iff.mpr ⟨next, List.mem_cons_self, by simpa using hle⟩
  have hcons : (start :: next :: starts).countP (· ≤ min pos size) =
      (next :: starts).countP (· ≤ min pos size) + 1 :=
    List.countP_cons_of_pos (by simpa using Nat.le_trans hstart hle)
  have hindex : (next :: starts).countP (· ≤ min pos size) =
      (next :: starts).countP (· ≤ min pos size) - 1 + 1 := by omega
  simp only [positionOf, hcons, Nat.add_sub_cancel]
  rw [hindex, List.getD_cons_succ, Nat.add_sub_cancel]

/-- What is left of a walk, as a line map of what is left of the text: `start` is where the line
began, and `passed` are the continuing bytes that lie behind. -/
def ahead (start base : Nat) (passed : List Nat) (cs : List Char) : LineMap :=
  ⟨start :: startsFrom base cs, passed ++ continuationsFrom base cs, base + byteCount cs⟩

section Ahead

variable {start base : Nat} {passed : List Nat} {cs : List Char}

/-- An offset of the line on which the walk is. -/
theorem positionOf_ahead {pos : Nat} (hstart : start ≤ base) (hpassed : ∀ b ∈ passed, b < base)
    (hbase : base ≤ pos) (hsize : pos ≤ base + byteCount cs)
    (h : ∀ q ∈ startsFrom base cs, pos < q) :
    (ahead start base passed cs).positionOf pos =
      ⟨1, pos - start - (passed.countP (start ≤ ·) +
        (continuationsFrom base cs).countP (· < pos)) + 1⟩ := by
  have hp : passed.countP (fun b => start ≤ b && b < pos) = passed.countP (start ≤ ·) :=
    List.countP_congr fun b hb => by
      have := hpassed b hb
      simp only [Bool.and_eq_true, decide_eq_true_eq]
      omega
  have hc : (continuationsFrom base cs).countP (fun b => start ≤ b && b < pos) =
      (continuationsFrom base cs).countP (· < pos) :=
    List.countP_congr fun b hb => by
      have := lt_of_mem_continuationsFrom hb
      simp only [Bool.and_eq_true, decide_eq_true_eq]
      omega
  rw [ahead, positionOf_of_lt (Nat.le_trans hstart hbase) hsize h, List.countP_append, hp, hc]

/-- None of the bytes that continue characters of a text lies before its second one. -/
theorem countP_continuationsFrom_of_le {pos : Nat} (h : pos ≤ base + 1) :
    (continuationsFrom base cs).countP (· < pos) = 0 :=
  List.countP_eq_zero.mpr fun b hb => by
    have := lt_of_mem_continuationsFrom hb
    simp only [decide_eq_true_eq]
    omega

/-- The bytes within the first character. -/
theorem countP_continuationsFrom_cons {c : Char} {n : Nat} (h : n < c.utf8Size) :
    (continuationsFrom base (c :: cs)).countP (· < base + (n + 1)) = n := by
  rw [continuationsFrom]
  split
  next hone =>
    rw [countP_continuationsFrom_of_le (by omega)]
    omega
  next hmany =>
    have hfirst : (List.range' (base + 1) (c.utf8Size - 1)).countP (· < base + (n + 1)) = n := by
      rw [List.range'_eq_append_iff.mpr ⟨n, by omega, rfl, rfl⟩, List.countP_append,
        List.countP_eq_length.mpr, List.countP_eq_zero.mpr, List.length_range', Nat.add_zero]
      · intro b hb
        have := List.mem_range'_1.mp hb
        simp only [decide_eq_true_eq]
        omega
      · intro b hb
        have := List.mem_range'_1.mp hb
        simp only [decide_eq_true_eq]
        omega
    rw [List.countP_append, hfirst, countP_continuationsFrom_of_le (by omega), Nat.add_zero]

/-- Past a line end the rest of the text is a text of its own, one line further down. -/
theorem positionOf_ahead_break (cs rest : List Char) (width n : Nat) (hstart : start ≤ base)
    (hpassed : ∀ b ∈ passed, b < base)
    (hstarts : startsFrom base cs = (base + width) :: startsFrom (base + width) rest)
    (hbytes : continuationsFrom base cs = continuationsFrom (base + width) rest)
    (hsize : byteCount cs = width + byteCount rest) :
    let behind := ahead (base + width) (base + width) passed rest
    (ahead start base passed cs).positionOf (base + width + n) =
        ⟨(behind.positionOf (base + width + n)).line + 1,
          (behind.positionOf (base + width + n)).column⟩ ∧
      (∀ b ∈ passed, b < base + width) ∧ passed.countP (base + width ≤ ·) = 0 := by
  refine ⟨?_, fun b hb => Nat.lt_add_right width (hpassed b hb), ?_⟩
  · simp only [ahead, hstarts, hbytes, hsize, ← Nat.add_assoc]
    exact positionOf_cons (by omega) (by omega) (by omega)
  · refine List.countP_eq_zero.mpr fun b hb => ?_
    have := hpassed b hb
    simp only [decide_eq_true_eq]
    omega

/-- Where a walk comes to is where the tables say. -/
theorem positionOf_ahead_eq_walk (here : LinePosition) (cs : List Char) (n : Nat)
    (hstart : start ≤ base)
    (hpassed : ∀ b ∈ passed, b < base) (hone : 1 ≤ here.column)
    (hcolumn : here.column + start + passed.countP (start ≤ ·) = base + 1) :
    here.line + ((ahead start base passed cs).positionOf (base + n)).line =
        (walk here cs n).line + 1 ∧
      ((ahead start base passed cs).positionOf (base + n)).column = (walk here cs n).column := by
  have hreturn : '\r'.utf8Size = 1 := rfl
  have hfeed : '\n'.utf8Size = 1 := rfl
  fun_induction walk here cs n generalizing start base passed with
  | case1 here n =>
    have hclamp : (ahead start base passed []).positionOf (base + n) =
        (ahead start base passed []).positionOf base := by
      simp [positionOf, ahead]
    rw [hclamp, positionOf_ahead hstart hpassed (Nat.le_refl _) (by simp) (by simp [startsFrom]),
      countP_continuationsFrom_of_le (by omega)]
    dsimp only
    omega
  | case2 here c cs =>
    rw [Nat.add_zero, positionOf_ahead hstart hpassed (Nat.le_refl _) (by omega)
      fun q hq => lt_of_mem_startsFrom hq, countP_continuationsFrom_of_le (by omega)]
    dsimp only
    omega
  | case3 here cs =>
    have hstarts : ∀ q ∈ startsFrom base ('\r' :: '\n' :: cs), base + 1 < q := by
      intro q hq
      rcases List.mem_cons.mp hq with rfl | hq
      · omega
      · have := lt_of_mem_startsFrom hq
        omega
    rw [positionOf_ahead hstart hpassed (by omega) (by simp [hreturn]) hstarts,
      countP_continuationsFrom_of_le (by omega)]
    dsimp only
    omega
  | case4 here cs n hn ih =>
    obtain ⟨hbreak, hbehind, hnone⟩ :=
      positionOf_ahead_break ('\r' :: '\n' :: cs) cs 2 (n - 1) hstart hpassed rfl
        (by simp [continuationsFrom, hreturn, hfeed])
        (by simp only [Text.byteCount_cons, hreturn, hfeed]; omega)
    obtain ⟨hline, hcol⟩ := ih (Nat.le_refl _) hbehind (Nat.le_refl 1) (by dsimp only; omega)
    have hpos : base + n.succ = base + 2 + (n - 1) := by omega
    rw [hpos, hbreak]
    exact ⟨by dsimp only at hline ⊢; omega, hcol⟩
  | case5 here c cs n hpair hc ih =>
    have hsize : c.utf8Size = 1 := by rcases hc with rfl | rfl <;> rfl
    obtain ⟨hbreak, hbehind, hnone⟩ :=
      positionOf_ahead_break (c :: cs) cs 1 n hstart hpassed
        (by rw [startsFrom.eq_3 _ _ _ hpair, if_pos hc]) (by rw [continuationsFrom, if_pos hsize])
        (by rw [Text.byteCount_cons, hsize])
    obtain ⟨hline, hcol⟩ := ih (Nat.le_refl _) hbehind (Nat.le_refl 1) (by dsimp only; omega)
    have hpos : base + n.succ = base + 1 + n := by omega
    rw [hpos, hbreak]
    exact ⟨by dsimp only at hline ⊢; omega, hcol⟩
  | case6 here c cs n hpair hc ih =>
    have hrest : startsFrom base (c :: cs) = startsFrom (base + c.utf8Size) cs := by
      rw [startsFrom.eq_3 _ _ _ hpair, if_neg hc]
    rcases Nat.lt_or_ge (n + 1) c.utf8Size with hinside | hpast
    · have hzero : n + 1 - c.utf8Size = 0 := by omega
      have hstarts : ∀ q ∈ startsFrom base (c :: cs), base + (n + 1) < q := by
        intro q hq
        rw [hrest] at hq
        have := lt_of_mem_startsFrom hq
        omega
      have hstay : walk ⟨here.line, here.column + 1⟩ cs 0 = ⟨here.line, here.column + 1⟩ := by
        cases cs <;> rfl
      rw [Nat.succ_eq_add_one, positionOf_ahead hstart hpassed (by omega)
        (by rw [Text.byteCount_cons]; omega) hstarts,
        countP_continuationsFrom_cons (Nat.lt_of_succ_lt hinside), hzero, hstay]
      dsimp only
      omega
    · have hpos := c.utf8Size_pos
      have hahead : ahead start base passed (c :: cs) = ahead start (base + c.utf8Size)
          (passed ++ List.range' (base + 1) (c.utf8Size - 1)) cs := by
        have hbytes : continuationsFrom base (c :: cs) = List.range' (base + 1) (c.utf8Size - 1) ++
            continuationsFrom (base + c.utf8Size) cs := by
          rw [continuationsFrom]
          split
          next h => simp [h]
          next => rfl
        simp only [ahead, hrest, hbytes, Text.byteCount_cons, List.append_assoc, Nat.add_assoc]
      have hwithin : (List.range' (base + 1) (c.utf8Size - 1)).countP (start ≤ ·) =
          c.utf8Size - 1 := by
        rw [List.countP_eq_length.mpr, List.length_range']
        intro b hb
        have := List.mem_range'_1.mp hb
        simp only [decide_eq_true_eq]
        omega
      have hbehind : ∀ b ∈ passed ++ List.range' (base + 1) (c.utf8Size - 1),
          b < base + c.utf8Size := by
        intro b hb
        rcases List.mem_append.mp hb with hb | hb
        · exact Nat.lt_add_right _ (hpassed b hb)
        · have := List.mem_range'_1.mp hb
          omega
      have hoffset : base + n.succ = base + c.utf8Size + (n + 1 - c.utf8Size) := by omega
      rw [hahead, hoffset]
      refine ih (by omega) hbehind (Nat.le_add_left 1 _) ?_
      rw [List.countP_append, hwithin]
      dsimp only
      omega

end Ahead

theorem positionOf_ofText_eq_walk (text : String) (pos : Nat) :
    (ofText text).positionOf pos = walk ⟨1, 1⟩ text.toList pos := by
  have hmap : ofText text = ahead 0 0 [] text.toList := by
    simp only [ofText, ahead, List.nil_append, Nat.zero_add]
  obtain ⟨hline, hcolumn⟩ := positionOf_ahead_eq_walk ⟨1, 1⟩ text.toList pos (Nat.le_refl 0)
    (List.forall_mem_nil _) (Nat.le_refl 1) rfl
  rw [Nat.zero_add, ← hmap] at hline hcolumn
  exact LinePosition.ext (by dsimp only at hline; omega) hcolumn

end LineMap

/-! ### The order of positions -/

theorem LinePosition.before_iff (p q : LinePosition) :
    p.before q = true ↔ p.line < q.line ∨ p.line = q.line ∧ p.column < q.column := by
  simp [before]

namespace Text

theorem offset_cons_iff (c : Char) (cs : List Char) (pos : Nat) :
    Offset (c :: cs) pos ↔ pos = 0 ∨ ∃ k, pos = c.utf8Size + k ∧ Offset cs k := by
  constructor
  · rintro ⟨before, hp, rfl⟩
    rcases before with _ | ⟨d, before⟩
    · exact .inl rfl
    · obtain ⟨rfl, htail⟩ := List.cons_prefix_cons.mp hp
      exact .inr ⟨_, rfl, before, htail, rfl⟩
  · rintro (rfl | ⟨k, rfl, before, hp, rfl⟩)
    · exact offset_zero _
    · exact ⟨c :: before, List.cons_prefix_cons.mpr ⟨rfl, hp⟩, rfl⟩

theorem walk_zero (here : LinePosition) (cs : List Char) : walk here cs 0 = here := by
  cases cs <;> rfl

/-- A walk goes on, over the line or to a later one. -/
theorem le_walk (here : LinePosition) (cs : List Char) (n : Nat) :
    here.line < (walk here cs n).line ∨
      here.line = (walk here cs n).line ∧ here.column ≤ (walk here cs n).column := by
  fun_induction walk here cs n with
  | case1 | case2 => exact .inr ⟨rfl, Nat.le_refl _⟩
  | case3 => exact .inr ⟨rfl, Nat.le_succ _⟩
  | case4 | case5 | case6 =>
    next ih =>
    dsimp only at ih
    omega

/-- Each byte adds at most one to the line or to the column. -/
theorem walk_line_add_column_le {here : LinePosition} (h : 1 ≤ here.column) (cs : List Char)
    (n : Nat) :
    (walk here cs n).line + (walk here cs n).column ≤ here.line + here.column + byteCount cs := by
  fun_induction walk here cs n with
  | case1 | case2 => exact Nat.le_add_right _ _
  | case3 here cs =>
    simp only [byteCount_cons, show '\r'.utf8Size = 1 from rfl]
    omega
  | case4 here cs n _ ih =>
    have hrest := ih (Nat.le_refl 1)
    simp only [byteCount_cons, show '\r'.utf8Size = 1 from rfl, show '\n'.utf8Size = 1 from rfl]
    dsimp only at hrest
    omega
  | case5 here c cs n _ _ ih =>
    have hrest := ih (Nat.le_refl 1)
    have := c.utf8Size_pos
    rw [byteCount_cons]
    dsimp only at hrest
    omega
  | case6 here c cs n _ _ ih =>
    have hrest := ih (Nat.le_add_left 1 _)
    have := c.utf8Size_pos
    rw [byteCount_cons]
    dsimp only at hrest
    omega

/-- Of two cuts of the text a walk comes to the later one later. -/
theorem before_walk {here : LinePosition} {cs : List Char} {p q : Nat} (hp : Offset cs p)
    (hq : Offset cs q) (h : p < q) : (walk here cs p).before (walk here cs q) = true := by
  have hreturn : '\r'.utf8Size = 1 := rfl
  have hfeed : '\n'.utf8Size = 1 := rfl
  rw [LinePosition.before_iff]
  fun_induction walk here cs q generalizing p with
  | case1 here n =>
    have := hq.le
    rw [byteCount_nil] at this
    omega
  | case2 => exact absurd h (Nat.not_lt_zero p)
  | case3 here cs =>
    obtain rfl : p = 0 := Nat.lt_one_iff.mp h
    exact .inr ⟨rfl, Nat.lt_succ_self _⟩
  | case4 here cs n hn ih =>
    have hon := le_walk ⟨here.line + 1, 1⟩ cs (n - 1)
    simp only [offset_cons_iff, hreturn, hfeed] at hp
    rcases hp with rfl | ⟨_, rfl, rfl | ⟨k, rfl, hk⟩⟩
    · rw [walk_zero]
      dsimp only at hon
      omega
    · rw [show walk here ('\r' :: '\n' :: cs) (1 + 0) = ⟨here.line, here.column + 1⟩ from rfl]
      dsimp only at hon ⊢
      omega
    · simp only [offset_cons_iff, hreturn, hfeed] at hq
      rcases hq with hq | ⟨_, hq, hq' | ⟨j, hq', hj⟩⟩
      · omega
      · omega
      · obtain rfl : j = n - 1 := by omega
        have hwalk : walk here ('\r' :: '\n' :: cs) (1 + (1 + k)) =
            walk ⟨here.line + 1, 1⟩ cs k := by
          rw [show 1 + (1 + k) = k + 1 + 1 by omega, walk, if_neg (Nat.succ_ne_zero k),
            Nat.add_sub_cancel]
        rw [hwalk]
        exact ih hk hj (by omega)
  | case5 here c cs n hpair hc ih =>
    have hsize : c.utf8Size = 1 := by rcases hc with rfl | rfl <;> rfl
    have hon := le_walk ⟨here.line + 1, 1⟩ cs n
    rw [offset_cons_iff, hsize] at hp
    rcases hp with rfl | ⟨k, rfl, hk⟩
    · rw [walk_zero]
      dsimp only at hon
      omega
    · rw [offset_cons_iff, hsize] at hq
      rcases hq with hq | ⟨j, hq, hj⟩
      · omega
      · obtain rfl : j = n := by omega
        rw [Nat.add_comm 1 k, walk.eq_4 _ _ _ _ hpair, if_pos hc]
        exact ih hk hj (by omega)
  | case6 here c cs n hpair hc ih =>
    have hon := le_walk ⟨here.line, here.column + 1⟩ cs (n + 1 - c.utf8Size)
    have hpos := c.utf8Size_pos
    rw [offset_cons_iff] at hp
    rcases hp with rfl | ⟨k, rfl, hk⟩
    · rw [walk_zero]
      dsimp only at hon
      omega
    · rw [offset_cons_iff] at hq
      rcases hq with hq | ⟨j, hq, hj⟩
      · omega
      · obtain rfl : j = n + 1 - c.utf8Size := by omega
        have hwalk : walk here (c :: cs) (c.utf8Size + k) =
            walk ⟨here.line, here.column + 1⟩ cs k := by
          rw [show c.utf8Size + k = c.utf8Size + k - 1 + 1 by omega, walk.eq_4 _ _ _ _ hpair,
            if_neg hc]
          congr 1
          omega
        rw [hwalk]
        exact ih hk hj (by omega)

end Text

/-! ### The whole text -/

namespace LineMap

open Text (EndsLineAt BeginsAt LineStartsAt walk byteCount)

/-- Nothing that is taken away on looking up an offset of the text exceeds what it is taken from,
and the line is one of the table. -/
def SubtractsInRange (m : LineMap) (pos : Nat) : Prop :=
  let line := m.lineStarts.countP (· ≤ pos)
  let start := m.lineStarts.getD (line - 1) 0
  let before := m.continuationBytes.countP (· < start)
  let upto := m.continuationBytes.countP (· < pos)
  1 ≤ line ∧ line - 1 < m.lineStarts.length ∧ start ≤ pos ∧ before ≤ upto ∧
    upto - before ≤ pos - start

/-- What it takes for a line map to be that of a text. -/
structure Describes (m : LineMap) (text : String) : Prop where
  /-- The tables can be searched by halving. -/
  ascending : m.lineStarts.Pairwise (· < ·) ∧ m.continuationBytes.Pairwise (· < ·)
  clamped : ∀ pos, m.positionOf pos = m.positionOf (min pos text.utf8ByteSize)
  walked : ∀ pos, m.positionOf pos = walk ⟨1, 1⟩ text.toList pos
  /-- The line counts line ends, the column counts the characters that begin on the line. -/
  counted : ∀ pos ≤ text.utf8ByteSize, ∃ start, LineStartsAt text.toList pos start ∧
    m.positionOf pos = ⟨1 + {q | EndsLineAt text.toList q ∧ q ≤ pos}.ncard,
      1 + {q | BeginsAt text.toList q ∧ start ≤ q ∧ q < pos}.ncard⟩
  increasing : ∀ p q, Text.IsBoundary text p → Text.IsBoundary text q → p < q →
    (m.positionOf p).before (m.positionOf q) = true
  inRange : ∀ pos ≤ text.utf8ByteSize, m.SubtractsInRange pos
  /-- Neither number outgrows the text by more than one. -/
  bounded : ∀ pos, (m.positionOf pos).line + (m.positionOf pos).column ≤ text.utf8ByteSize + 2

section OfText

variable {text : String} {pos : Nat}

theorem mem_startsFrom_zero (text : String) (q : Nat) :
    q ∈ startsFrom 0 text.toList ↔ EndsLineAt text.toList q := by
  rw [mem_startsFrom_iff]
  exact ⟨fun ⟨k, hk, h⟩ => by rwa [hk, Nat.zero_add], fun h => ⟨q, (Nat.zero_add q).symm, h⟩⟩

theorem pairwise_lineStarts (text : String) : (ofText text).lineStarts.Pairwise (· < ·) :=
  .cons (fun _ h => lt_of_mem_startsFrom h) (pairwise_startsFrom 0 text.toList)

/-- The line start with which an offset of a text is looked up. -/
theorem lineStartsAt_ofText (text : String) (pos : Nat) :
    LineStartsAt text.toList pos ((ofText text).lineStarts.getD
      ((ofText text).lineStarts.countP (· ≤ pos) - 1) 0) := by
  obtain ⟨hstart, hle, hlast⟩ := last_getD_countP (pairwise_lineStarts text) (Nat.zero_le pos)
  exact ⟨(List.mem_cons.mp hstart).imp_right (mem_startsFrom_zero text _).mp, hle,
    fun q hq => hlast q (List.mem_cons_of_mem _ ((mem_startsFrom_zero text q).mpr hq))⟩

theorem countP_lineStarts (text : String) (pos : Nat) :
    (ofText text).lineStarts.countP (· ≤ pos) =
      {q | EndsLineAt text.toList q ∧ q ≤ pos}.ncard + 1 := by
  have hset : {q | EndsLineAt text.toList q ∧ q ≤ pos} =
      {q | q ∈ startsFrom 0 text.toList ∧ decide (q ≤ pos) = true} := by
    simp only [mem_startsFrom_zero, decide_eq_true_eq]
  have hnodup : (startsFrom 0 text.toList).Nodup :=
    (pairwise_startsFrom 0 text.toList).imp Nat.ne_of_lt
  rw [hset, ncard_eq_countP hnodup, ofText, List.countP_cons_of_pos (by simp)]

theorem subtractsInRange_ofText (h : pos ≤ text.utf8ByteSize) :
    (ofText text).SubtractsInRange pos := by
  have hstart := (lineStartsAt_ofText text pos).le
  have hone := countP_lineStarts text pos
  have hbound := @List.countP_le_length _ (· ≤ pos) (ofText text).lineStarts
  have hsplit := countP_lt_add hstart (ofText text).continuationBytes
  have hcount := ncard_beginsAt_add text.toList
    ((ofText text).lineStarts.getD ((ofText text).lineStarts.countP (· ≤ pos) - 1) 0)
    (Text.byteCount_toList text ▸ h)
  simp only [SubtractsInRange]
  refine ⟨by omega, by omega, hstart, by omega, ?_⟩
  simp only [ofText] at hsplit hcount ⊢
  omega

theorem positionOf_ofText_eq_counts (h : pos ≤ text.utf8ByteSize) :
    ∃ start, LineStartsAt text.toList pos start ∧ (ofText text).positionOf pos =
      ⟨1 + {q | EndsLineAt text.toList q ∧ q ≤ pos}.ncard,
        1 + {q | BeginsAt text.toList q ∧ start ≤ q ∧ q < pos}.ncard⟩ := by
  have hline := countP_lineStarts text pos
  have hstart := lineStartsAt_ofText text pos
  have hsize : min pos (ofText text).textLength = pos := by
    rw [ofText, Text.byteCount_toList, Nat.min_eq_left h]
  refine ⟨_, hstart, ?_⟩
  simp only [positionOf, hsize]
  generalize (ofText text).lineStarts.getD ((ofText text).lineStarts.countP (· ≤ pos) - 1) 0 =
    start at hstart ⊢
  have hsplit := countP_lt_add hstart.le (ofText text).continuationBytes
  have hcount := ncard_beginsAt_add text.toList start (Text.byteCount_toList text ▸ h)
  refine LinePosition.ext (by dsimp only; omega) ?_
  simp only [ofText] at hsplit ⊢
  omega

/-- An offset is on a later line than another if a line ends between them. -/
theorem line_positionOf_lt_iff {p q : Nat} (hpq : p ≤ q) (hq : q ≤ text.utf8ByteSize) :
    ((ofText text).positionOf p).line < ((ofText text).positionOf q).line ↔
      ∃ s, EndsLineAt text.toList s ∧ p < s ∧ s ≤ q := by
  have hline (r : Nat) (hr : r ≤ text.utf8ByteSize) : ((ofText text).positionOf r).line =
      (startsFrom 0 text.toList).countP (· ≤ r) + 1 := by
    simp only [positionOf, ofText, Text.byteCount_toList, Nat.min_eq_left hr]
    rw [List.countP_cons_of_pos (by simp)]
  have hsplit : (startsFrom 0 text.toList).countP (· ≤ p) +
      (startsFrom 0 text.toList).countP (fun s => p < s && s ≤ q) =
      (startsFrom 0 text.toList).countP (· ≤ q) := by
    simpa only [Nat.lt_succ_iff, Nat.succ_le_iff] using
      countP_lt_add (Nat.succ_le_succ hpq) (startsFrom 0 text.toList)
  rw [hline p (Nat.le_trans hpq hq), hline q hq, ← hsplit]
  have hpos := List.countP_pos_iff (p := fun s => p < s && s ≤ q) (l := startsFrom 0 text.toList)
  simp only [mem_startsFrom_zero, Bool.and_eq_true, decide_eq_true_eq] at hpos
  rw [← hpos]
  omega

end OfText

/-- Between a carriage return and its line feed the line goes on, and a byte within a character
counts as past it. -/
example : ((ofText "a\r\né").positionOf 2).line = 1 ∧ (ofText "a\r\né").positionOf 4 = ⟨2, 2⟩ := by
  decide +kernel

end LineMap

end CSharpFront
