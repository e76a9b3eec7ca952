import CSharpFront.Proofs.Lexer.Rescan
import CSharpFront.Proofs.Text.Positions
/-!
Which tokens begin a line. The scanner marks a token if the gap before it holds a line end, whether
bare, in a comment or after one; the line map finds its lines without knowing tokens. Main
statement: a token is marked if and only if it is on a later line than the end of the one before.
-/

namespace CSharpFront

open Text (EndsLineAt byteCount)

/-! ### Line ends in a stretch of a text -/

namespace Text

/-- A line ends within a stretch or with it if the stretch has a line end; only its last carriage
return could make a pair with what follows. -/
theorem exists_endsLineAt_iff {before inside after : List Char} (hafter : after.head? ≠ some '\n') :
    (∃ s, EndsLineAt (before ++ (inside ++ after)) s ∧ byteCount before < s ∧
        s ≤ byteCount before + byteCount inside) ↔
      inside.any isLineEnd = true := by
  have hlineEnd (c : Char) : isLineEnd c = true ↔ c = '\n' ∨ c = '\r' := by simp [isLineEnd]
  simp only [List.any_eq_true, hlineEnd]
  constructor
  · rintro ⟨s, ⟨upto, rest, hsplit, rfl, hend⟩, hlt, hle⟩
    obtain ⟨front, rfl⟩ := isPrefix_of_byteCount_le (List.prefix_append before (inside ++ after))
      ⟨rest, hsplit.symm⟩ (Nat.le_of_lt hlt)
    rw [List.append_assoc, List.append_cancel_left_eq] at hsplit
    rw [byteCount_append] at hlt hle
    have hfrontPrefix : front <+: inside ++ after := ⟨rest, hsplit.symm⟩
    obtain ⟨more, rfl⟩ := isPrefix_of_byteCount_le hfrontPrefix (List.prefix_append inside after)
      (by omega)
    have hfront : front ≠ [] := by
      rintro rfl
      simp at hlt
    rw [List.getLast?_append_of_ne_nil _ hfront] at hend
    rcases hend with hend | ⟨hend, -⟩
    · exact ⟨_, List.mem_append_left _ (List.mem_of_getLast? hend), .inl rfl⟩
    · exact ⟨_, List.mem_append_left _ (List.mem_of_getLast? hend), .inr rfl⟩
  · have hends (front rest : List Char) (c : Char) (hsplit : inside = front ++ c :: rest)
        (hc : c = '\n' ∨ c = '\r' ∧ (rest ++ after).head? ≠ some '\n') :
        ∃ s, EndsLineAt (before ++ (inside ++ after)) s ∧ byteCount before < s ∧
          s ≤ byteCount before + byteCount inside := by
      have := c.utf8Size_pos
      refine ⟨byteCount before + (byteCount front + c.utf8Size), ⟨before ++ (front ++ [c]),
        rest ++ after, by simp [hsplit], by simp, ?_⟩, by omega, ?_⟩
      · rw [← List.append_assoc, List.getLast?_concat]
        exact hc.imp (congrArg some) (.imp_left (congrArg some))
      · rw [hsplit, byteCount_append, byteCount_cons]
        omega
    rintro ⟨c, hc, hlast⟩
    obtain ⟨front, rest, hsplit⟩ := List.mem_iff_append.mp hc
    by_cases hpair : c = '\r' ∧ (rest ++ after).head? = some '\n'
    · -- the line feed of the pair is in the stretch too, and ends the line
      obtain ⟨rfl, hhead⟩ := hpair
      rcases rest with _ | ⟨d, rest⟩
      · exact absurd hhead hafter
      · obtain rfl : d = '\n' := by simpa using hhead
        exact hends (front ++ ['\r']) rest '\n' (by simp [hsplit]) (.inl rfl)
    · exact hends front rest c hsplit (hlast.imp_right fun h => ⟨h, fun hn => hpair ⟨h, hn⟩⟩)

end Text

/-! ### Gaps -/

namespace Gap

theorem isLineEnd_of_isBlank {c : Char} (h : Text.isBlank c = true) :
    Text.isLineEnd c = false := by
  by_contra hl
  simp only [Text.isLineEnd, Bool.not_eq_false, Bool.or_eq_true, beq_iff_eq] at hl
  rcases hl with rfl | rfl <;> exact absurd h (by decide)

/-- The inside of a block comment, with its end if it has one. -/
theorem exists_inside_comment (bytes : Nat) (lineBreak : Bool) (cs : List Char) :
    ∃ inside, cs = inside ++ (comment bytes lineBreak cs).rest ∧
      (comment bytes lineBreak cs).bytes = bytes + byteCount inside ∧
      (comment bytes lineBreak cs).hasLineBreak = (lineBreak || inside.any Text.isLineEnd) := by
  fun_induction comment bytes lineBreak cs with
  | case1 => exact ⟨[], rfl, rfl, by simp⟩
  | case2 => exact ⟨['*', '/'], rfl, rfl, by simp [Text.isLineEnd]⟩
  | case3 bytes lineBreak c cs _ ih =>
    obtain ⟨inside, hsplit, hbytes, hbreak⟩ := ih
    refine ⟨c :: inside, congrArg (c :: ·) hsplit, ?_, ?_⟩
    · rw [hbytes, Text.byteCount_cons, Nat.add_assoc]
    · rw [hbreak, List.any_cons, Bool.or_assoc]

/-- A gap that has passed some characters, and says whether a line end is among them. -/
structure Covers (pos : Nat) (lineBreak : Bool) (cs inside : List Char) (g : Gap) : Prop where
  chars : cs = inside ++ g.rest
  stop : g.stop = pos + byteCount inside
  hasLineBreak : g.hasLineBreak = (lineBreak || inside.any Text.isLineEnd)

theorem covers_nil (pos : Nat) (lineBreak : Bool) (problems : Bag) (cs : List Char)
    (lexeme? : Option Lexeme) :
    Covers pos lineBreak cs [] ⟨pos, lineBreak, problems, cs, lexeme?⟩ :=
  ⟨rfl, rfl, (Bool.or_false _).symm⟩

theorem Covers.append {pos : Nat} {lineBreak : Bool} {rest inside cs : List Char} {g : Gap}
    (front : List Char)
    (h : g.Covers (pos + byteCount front) (lineBreak || front.any Text.isLineEnd) rest inside)
    (hcs : cs = front ++ rest) : g.Covers pos lineBreak cs (front ++ inside) where
  chars := by rw [hcs, h.chars, List.append_assoc]
  stop := by rw [h.stop, Text.byteCount_append, Nat.add_assoc]
  hasLineBreak := by rw [h.hasLineBreak, List.any_append, Bool.or_assoc]

theorem exists_covers_read (pos : Nat) (lineBreak : Bool) (problems : Bag) (cs : List Char) :
    ∃ inside, (read pos lineBreak problems cs).Covers pos lineBreak cs inside := by
  fun_induction read pos lineBreak problems cs with
  | case1 => exact ⟨[], covers_nil ..⟩
  | case2 pos lineBreak problems c cs hl ih =>
    obtain ⟨inside, h⟩ := ih
    have hc : byteCount [c] = 1 := utf8Size_of_isLineEnd hl
    exact ⟨_, .append [c] (by simpa [hc, hl] using h) rfl⟩
  | case3 pos lineBreak problems c cs hl hb ih =>
    obtain ⟨inside, h⟩ := ih
    exact ⟨_, .append [c] (by simpa [isLineEnd_of_isBlank hb] using h) rfl⟩
  | case4 pos lineBreak problems c cs _ _ hc line ih =>
    obtain ⟨inside, h⟩ := ih
    obtain ⟨rfl, hc⟩ := hc
    have hline : line.any Text.isLineEnd = false := by
      simpa using (line_spec cs).1
    have hsplit : cs = line ++ cs.drop line.length :=
      (List.prefix_iff_eq_append.mp (List.takeWhile_prefix _)).symm
    exact ⟨_, .append ('/' :: line)
      (by simpa [hline, utf8Size_slash, Nat.add_assoc, Text.isLineEnd] using h)
      (congrArg ('/' :: ·) hsplit)⟩
  | case5 pos lineBreak problems c cs _ _ _ hc body ih =>
    obtain ⟨inside, h⟩ := ih
    obtain ⟨rfl, hc⟩ := hc
    obtain ⟨cs, rfl⟩ := List.head?_eq_some_iff.mp hc
    obtain ⟨comment, hchars, hbytes, hbreak⟩ := exists_inside_comment 2 false cs
    have hbytes' : body.bytes = byteCount ('/' :: '*' :: comment) := by
      rw [show body.bytes = 2 + byteCount comment from hbytes, Text.byteCount_cons,
        Text.byteCount_cons, utf8Size_slash, utf8Size_asterisk]
      omega
    have hbreak' : body.hasLineBreak = ('/' :: '*' :: comment).any Text.isLineEnd := by
      rw [show body.hasLineBreak = (false || comment.any Text.isLineEnd) from hbreak]
      simp [Text.isLineEnd]
    exact ⟨_, .append ('/' :: '*' :: comment) (by rwa [← hbytes', ← hbreak'])
      (congrArg ('/' :: '*' :: ·) hchars)⟩
  | case6 => exact ⟨[], covers_nil ..⟩
  | case7 pos lineBreak problems c cs hl hb _ _ hr ih =>
    obtain ⟨inside, h⟩ := ih
    have hc : Text.isLineEnd c = false := by simpa using hl
    exact ⟨_, .append [c] (by simpa [hc] using h) rfl⟩

end Gap

/-! ### Tokens -/

/-- Whether each token is marked as the first of its line just if it is on a later line than the
offset at which the tokens before it end. -/
def MarksLines (lines : LineMap) : Nat → List Token → Prop
  | _, [] => True
  | stop, t :: ts =>
    (t.flags.afterLineBreak = true ↔
      (lines.positionOf stop).line < (lines.positionOf t.start).line) ∧ MarksLines lines t.stop ts

/-- A gap that ends before a lexeme or at the end of the text is marked for the lines between. -/
theorem Gap.Covers.hasLineBreak_iff {text : String} {before cs inside : List Char} {g : Gap}
    (h : g.Covers (byteCount before) false cs inside) (htext : text.toList = before ++ cs)
    (hrest : g.rest.head? ≠ some '\n') :
    g.hasLineBreak = true ↔ ((LineMap.ofText text).positionOf (byteCount before)).line <
      ((LineMap.ofText text).positionOf g.stop).line := by
  have hsplit : text.toList = before ++ (inside ++ g.rest) := by rw [htext, h.chars]
  have hsize : g.stop ≤ text.utf8ByteSize := by
    rw [h.stop, ← Text.byteCount_toList, hsplit, Text.byteCount_append, Text.byteCount_append]
    omega
  rw [LineMap.line_positionOf_lt_iff (h.stop ▸ Nat.le_add_right _ _) hsize, hsplit, h.stop,
    Text.exists_endsLineAt_iff hrest, h.hasLineBreak, Bool.false_or]

namespace Scanner

/-- A run marks the tokens that it adds. -/
theorem exists_marksLines_run {text : String} {before : List Char} {s : Scanner}
    (tokens : Array Token) (problems : Array Diagnostic) (htext : text.toList = before ++ s.rest)
    (hpos : s.pos = byteCount before) :
    ∃ ts, (run tokens problems s).1.toList = tokens.toList ++ ts ∧
      MarksLines (.ofText text) s.pos ts := by
  fun_induction run tokens problems s generalizing before with
  | case1 tokens problems s h =>
    obtain ⟨inside, hg⟩ := Gap.exists_covers_read s.pos false [] s.rest
    have hr := Gap.rest_eq_nil_of_lexeme?_eq_none _ _ _ _ h
    generalize hgap : Gap.read s.pos false [] s.rest = g at h hg hr
    have hn : s.next.token = endOfFile g := by simp only [next, hgap, h]
    have hmark := Gap.Covers.hasLineBreak_iff (hpos ▸ hg) htext (by simp [hr])
    exact ⟨[s.next.token], rfl, by rw [hn, hpos]; exact hmark, trivial⟩
  | case2 tokens problems s l h ih =>
    obtain ⟨inside, hg⟩ := Gap.exists_covers_read s.pos false [] s.rest
    have hbegins := Gap.beginsNone_rest_read _ _ _ _ h
    have hread := Gap.lexeme?_read s.pos false [] s.rest
    generalize hgap : Gap.read s.pos false [] s.rest = g at h hg hbegins hread
    rw [h] at hread
    have hn : s.next = ⟨tokenAfter g l, ⟨(tokenAfter g l).stop, g.rest.drop l.text.length⟩,
        g.problems ++ placed g.stop l.problems⟩ := by
      simp only [next, hgap, h]
    have hlexeme : g.rest = l.text ++ g.rest.drop l.text.length :=
      (List.prefix_iff_eq_append.mp (Lexeme.readFrom_read? hread.symm).text).symm
    have hrest : g.rest.head? ≠ some '\n' := by
      intro hhead
      obtain ⟨cs, hcs⟩ := List.head?_eq_some_iff.mp hhead
      rw [hcs] at hbegins
      exact absurd hbegins.1 (by decide)
    have hmark := Gap.Covers.hasLineBreak_iff (hpos ▸ hg) htext hrest
    rw [hn] at ih ⊢
    have hafter : text.toList = (before ++ inside ++ l.text) ++ g.rest.drop l.text.length := by
      rw [htext, hg.chars, List.append_assoc, List.append_assoc, ← hlexeme]
    have hstop : (tokenAfter g l).stop = byteCount (before ++ inside ++ l.text) := by
      rw [Text.byteCount_append, Text.byteCount_append, ← hpos, ← hg.stop]
      rfl
    obtain ⟨ts, hts, hmarks⟩ := ih hafter hstop
    refine ⟨tokenAfter g l :: ts, ?_, by rw [hpos]; exact hmark, hmarks⟩
    rw [hts, Array.toList_push, List.append_assoc, List.singleton_append]

end Scanner

end CSharpFront
