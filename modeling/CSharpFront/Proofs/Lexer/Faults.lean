import CSharpFront.Proofs.Lexer.LineEnds
import CSharpFront.Proofs.Lexer.Scan
/-!
What is reported about a token. Every fault takes some characters of its lexeme, and every gap ends
before the next token begins. Main statement: what is reported from the first byte of a token up to
its end is just what is wrong with the lexeme that the token is.
-/

namespace CSharpFront

open Text (byteCount)

/-! ### Faults take characters -/

namespace Lexeme

theorem start_lt_stop_quotedBody {quote : Char} {b : Body} (cs : List Char)
    (h : ∀ p ∈ b.problems, p.start < p.stop) :
    ∀ p ∈ (quotedBody quote b cs).problems, p.start < p.stop := by
  fun_induction quotedBody quote b cs with
  | case1 => exact h
  | case2 => exact h
  | case3 b cs _ ih =>
    refine ih fun p hp => ?_
    simp only [Body.addEscape] at hp
    split at hp
    · exact h p hp
    · rcases List.mem_append.mp hp with hp | hp
      · exact h p hp
      · obtain rfl := List.mem_singleton.mp hp
        simp only
        omega
  | case4 => exact h
  | case5 _ _ _ _ _ _ ih => exact ih h

/-- Nothing is wrong inside a verbatim string. -/
theorem problems_verbatimBody (b : Body) (cs : List Char) :
    (verbatimBody b cs).problems = b.problems := by
  fun_induction verbatimBody b cs with
  | case1 | case3 => rfl
  | case2 _ _ ih => exact ih
  | case4 _ _ _ _ _ ih => exact ih

theorem start_lt_stop_literal {kind : TokenKind} {opening cs : List Char} {flags : TokenFlags}
    {b : Body} {fault? : Option Message} (ho : opening ≠ [])
    (h : ∀ p ∈ b.problems, p.start < p.stop) :
    ∀ p ∈ (literal kind opening cs flags b fault?).problems, p.start < p.stop := by
  intro p hp
  rcases List.mem_append.mp hp with hp | hp
  · exact h p hp
  · obtain ⟨m, -, rfl⟩ := Option.map_eq_some_iff.mp (Option.mem_toList.mp hp)
    exact Nat.add_pos_left (Text.byteCount_pos ho) _

theorem start_lt_stop_radixNumber {lead : List Char} (hl : lead ≠ []) (flags : TokenFlags)
    (isRadixDigit : Char → Bool) (cs : List Char) :
    ∀ p ∈ (radixNumber lead flags isRadixDigit cs).problems, p.start < p.stop := by
  intro p hp
  simp only [radixNumber] at hp
  split at hp
  · obtain rfl := List.mem_singleton.mp hp
    exact Text.byteCount_pos hl
  · cases hp

theorem start_lt_stop_decimalNumber (whole cs : List Char) :
    ∀ p ∈ (decimalNumber whole cs).problems, p.start < p.stop := by
  intro p hp
  simp only [decimalNumber] at hp
  split at hp
  next hmark =>
    obtain rfl := List.mem_singleton.mp hp
    simp only [Bool.and_eq_true, Bool.not_eq_true', List.isEmpty_eq_false_iff] at hmark
    refine Text.byteCount_pos fun hnil => hmark.1 ?_
    exact (List.append_eq_nil_iff.mp (List.append_eq_nil_iff.mp hnil).1).2
  · cases hp

theorem start_lt_stop_number (c : Char) (cs : List Char) :
    ∀ p ∈ (number c cs).problems, p.start < p.stop := by
  unfold number
  split
  · split
    · exact start_lt_stop_radixNumber (List.cons_ne_nil _ _) _ _ _
    split
    · exact start_lt_stop_radixNumber (List.cons_ne_nil _ _) _ _ _
    split
    · exact start_lt_stop_decimalNumber _ _
    · exact start_lt_stop_decimalNumber _ _
  · exact start_lt_stop_decimalNumber _ _

/-- Whatever is wrong with a lexeme is wrong with some of its characters. -/
theorem start_lt_stop_of_read? {cs : List Char} {l : Lexeme} (h : read? cs = some l) :
    ∀ p ∈ l.problems, p.start < p.stop := by
  have hbody (quote : Char) (cs : List Char) :
      ∀ p ∈ (quotedBody quote {} cs).problems, p.start < p.stop :=
    start_lt_stop_quotedBody cs fun _ hp => absurd hp List.not_mem_nil
  have hverbatim (cs : List Char) : ∀ p ∈ (verbatimBody {} cs).problems, p.start < p.stop := by
    rw [problems_verbatimBody]
    exact fun _ hp => absurd hp List.not_mem_nil
  cases readAs_of_read? h with
  | string | character => exact start_lt_stop_literal (List.cons_ne_nil _ _) (hbody _ _)
  | verbatimString => exact start_lt_stop_literal (List.cons_ne_nil _ _) (hverbatim _)
  | number => exact start_lt_stop_number _ _
  | verbatimIdentifier => exact fun _ hp => absurd hp List.not_mem_nil
  | identifier =>
    simp only [identifier]
    split <;> exact fun _ hp => absurd hp List.not_mem_nil
  | punctuation h =>
    obtain ⟨p, -, rfl⟩ := Option.map_eq_some_iff.mp h
    exact fun _ hp => absurd hp List.not_mem_nil

/-- A lexeme is read from its own text, whatever came after it. -/
theorem read?_text {cs : List Char} {l : Lexeme} (h : read? cs = some l) :
    read? l.text = some l := by
  have hagain := read?_text_append h endsLine_nil fun _ _ => rfl
  rwa [List.append_nil] at hagain

end Lexeme

/-! ### Gaps end before the next token -/

theorem Filler.bounds_of_mem_reports (f : Filler) {pos : Nat} {d : Diagnostic}
    (h : d ∈ f.reports pos) : d.span.start = pos ∧ d.span.start < d.span.stop := by
  cases f with
  | unexpected c =>
    obtain rfl := List.mem_singleton.mp h
    exact ⟨rfl, Nat.lt_add_of_pos_right c.utf8Size_pos⟩
  | openComment body =>
    obtain rfl := List.mem_singleton.mp h
    exact ⟨rfl, Nat.lt_add_of_pos_right Nat.two_pos⟩
  | lineEnd | blank | lineComment | blockComment => exact absurd h List.not_mem_nil

theorem Filler.source_ne_nil (f : Filler) : f.source ≠ [] := by
  cases f <;> exact List.cons_ne_nil _ _

theorem Piece.bounds_of_mem_reports (fs : List Filler) (pos : Nat) :
    ∀ d ∈ Piece.reports pos (fs.map .filler), pos ≤ d.span.start ∧
      d.span.start < d.span.stop ∧
      d.span.start < pos + byteCount (fs.flatMap Filler.source) := by
  induction fs generalizing pos with
  | nil => exact fun d hd => absurd hd List.not_mem_nil
  | cons f fs ih =>
    intro d hd
    have hpos := Text.byteCount_pos f.source_ne_nil
    rw [List.flatMap_cons, Text.byteCount_append]
    rcases List.mem_append.mp hd with hd | hd
    · have hbounds := f.bounds_of_mem_reports hd
      omega
    · have hbounds := ih _ d hd
      omega

theorem Gap.Passes.bounds {pos : Nat} {cs : List Char} {fs : List Filler} {g : Gap}
    (h : g.Passes pos cs [] fs) :
    pos ≤ g.stop ∧ ∀ d ∈ g.problems,
      pos ≤ d.span.start ∧ d.span.start < d.span.stop ∧ d.span.start < g.stop := by
  have hproblems : g.problems = Piece.reports pos (fs.map .filler) := by
    simpa [Piece.reports] using h.problems []
  rw [hproblems, h.stop]
  exact ⟨Nat.le_add_right _ _, Piece.bounds_of_mem_reports fs pos⟩

/-! ### Tokens -/

/-- A diagnostic that lies over characters of a token only. -/
def Diagnostic.Within (d : Diagnostic) (t : Token) : Prop :=
  t.start ≤ d.span.start ∧ d.span.stop ≤ t.stop

/-- A token that is a lexeme. Of what is reported, what begins within the token is just what is
wrong with the lexeme. -/
structure Token.Shows (reported : Bag) (t : Token) (l : Lexeme) : Prop where
  read : Lexeme.read? l.text = some l
  token : ∃ g, t = Scanner.tokenAfter g l
  faults : ∀ d, d ∈ reported ∧ t.start ≤ d.span.start ∧ d.span.start < t.stop ↔
    d ∈ Scanner.placed t.start l.problems

namespace Scanner

/-- What is wrong with a lexeme is reported within its token. -/
theorem bounds_of_mem_placed {cs : List Char} {l : Lexeme} (h : Lexeme.read? cs = some l)
    {pos : Nat} {d : Diagnostic} (hd : d ∈ placed pos l.problems) :
    pos ≤ d.span.start ∧ d.span.start < d.span.stop ∧ d.span.stop ≤ pos + byteCount l.text := by
  obtain ⟨p, hp, rfl⟩ := List.mem_map.mp hd
  have hlt := Lexeme.start_lt_stop_of_read? h p hp
  have hle := ((Lexeme.readFrom_read? h).problems p hp).stop.le
  simp only [Diagnostic.of, Span.start_between]
  rw [Span.stop_between (by omega)]
  omega

/-- Tokens and reports of a run from an offset on. -/
structure Adds (pos : Nat) (ts : List Token) (ds : Bag) : Prop where
  tokens : ∀ t ∈ ts, pos ≤ t.start
  reports : ∀ d ∈ ds, pos ≤ d.span.start ∧ d.span.start < d.span.stop
  shows : ∀ t ∈ ts, ∃ l, t.Shows ds l

/-- One more token, and the gap before it. -/
theorem Adds.cons {pos : Nat} {cs : List Char} {fs : List Filler} {g : Gap} {l : Lexeme}
    {ts : List Token} {ds : Bag} (hgap : g.Passes pos cs [] fs)
    (hread : Lexeme.read? g.rest = some l) (h : Adds (tokenAfter g l).stop ts ds) :
    Adds pos (tokenAfter g l :: ts) (g.problems ++ placed g.stop l.problems ++ ds) := by
  obtain ⟨hle, hproblems⟩ := hgap.bounds
  have hplaced := fun d => @bounds_of_mem_placed _ _ hread g.stop d
  have hstart : (tokenAfter g l).start = g.stop := rfl
  have hstop : (tokenAfter g l).stop = g.stop + byteCount l.text := rfl
  refine ⟨fun t ht => ?_, fun d hd => ?_, fun t ht => ?_⟩
  · rcases List.mem_cons.mp ht with rfl | ht
    · exact hle
    · have hlater := h.tokens t ht
      omega
  · simp only [List.mem_append] at hd
    rcases hd with (hd | hd) | hd
    · have hbefore := hproblems d hd
      omega
    · have hbounds := hplaced d hd
      omega
    · have hlater := h.reports d hd
      omega
  · rcases List.mem_cons.mp ht with rfl | ht
    · refine ⟨l, Lexeme.read?_text hread, ⟨g, rfl⟩, fun d => ⟨?_, fun hd => ?_⟩⟩
      · rintro ⟨hd, hfrom, hto⟩
        simp only [List.mem_append] at hd
        rcases hd with (hd | hd) | hd
        · have hbefore := hproblems d hd
          omega
        · exact hd
        · have hlater := h.reports d hd
          omega
      · have hbounds := hplaced d hd
        refine ⟨List.mem_append_left _ (List.mem_append_right _ hd), ?_, ?_⟩ <;> omega
    · obtain ⟨m, hm⟩ := h.shows t ht
      refine ⟨m, hm.read, hm.token, fun d => ?_⟩
      rw [← hm.faults, List.mem_append]
      refine and_congr_left fun hfrom => or_iff_right fun hd => ?_
      -- what is reported before is reported before the end of the token before
      have hlater := h.tokens t ht
      rcases List.mem_append.mp hd with hd | hd
      · have hbefore := hproblems d hd
        omega
      · have hbounds := hplaced d hd
        omega

theorem exists_adds_run (tokens : Array Token) (problems : Array Diagnostic) (s : Scanner) :
    ∃ (ts : List Token) (ds : Bag), (run tokens problems s).1.tokens = tokens.toList ++ ts ∧
      (run tokens problems s).2.toList = problems.toList ++ ds ∧ Adds s.pos ts ds := by
  fun_induction run tokens problems s with
  | case1 tokens problems s h =>
    obtain ⟨fs, hgap⟩ := Gap.exists_passes_read s.pos false [] s.rest
    have hproblems : s.next.problems = (Gap.read s.pos false [] s.rest).problems := by
      simp only [next, h]
    refine ⟨[], s.next.problems, by simp, by simp, ?_, ?_, ?_⟩
    · exact fun t ht => absurd ht List.not_mem_nil
    · rw [hproblems]
      exact fun d hd => (hgap.bounds.2 d hd).imp_right And.left
    · exact fun t ht => absurd ht List.not_mem_nil
  | case2 tokens problems s l h ih =>
    obtain ⟨fs, hgap⟩ := Gap.exists_passes_read s.pos false [] s.rest
    have hread := (Gap.lexeme?_read s.pos false [] s.rest).symm.trans h
    obtain ⟨ts, ds, htokens, hproblems, hadds⟩ := ih
    generalize hg : Gap.read s.pos false [] s.rest = g at h hgap hread
    have hnext : s.next = ⟨tokenAfter g l, ⟨(tokenAfter g l).stop, g.rest.drop l.text.length⟩,
        g.problems ++ placed g.stop l.problems⟩ := by
      simp only [next, hg, h]
    rw [hnext] at htokens hproblems hadds ⊢
    exact ⟨_, _, by simpa using htokens, by simpa using hproblems, hadds.cons hgap hread⟩

end Scanner

/-- Every token of a text is a lexeme, and shows what is wrong with it. -/
theorem exists_shows_of_mem_scan {text : String} {t : Token} (ht : t ∈ (scan text).1.toList)
    (hk : t.kind ≠ .endOfFile) : ∃ l, t.Shows (scan text).2.toList l := by
  obtain ⟨ts, ds, htokens, hproblems, hadds⟩ := Scanner.exists_adds_run #[] #[] (.ofText text)
  have hreported : (scan text).2.toList = ds := hproblems
  have hlexemes : (scan text).1.tokens = ts := htokens
  rw [hreported]
  rcases List.mem_append.mp ht with ht | ht
  · exact hadds.shows t (hlexemes ▸ ht)
  · obtain rfl := List.mem_singleton.mp ht
    exact absurd (scan_tiles text).endOfFile.1 hk

/-- Whatever is reported about a text is reported about some of its characters. -/
theorem start_lt_stop_of_mem_scan (text : String) :
    ∀ d ∈ (scan text).2.toList, d.span.start < d.span.stop := by
  obtain ⟨ts, ds, -, hproblems, hadds⟩ := Scanner.exists_adds_run #[] #[] (.ofText text)
  have hreported : (scan text).2.toList = ds := hproblems
  rw [hreported]
  exact fun d hd => (hadds.reports d hd).2

/-! ### Reports within a token -/

namespace Token.Shows

variable {reported : Bag} {t : Token} {l : Lexeme}

theorem kind (h : t.Shows reported l) : t.kind = l.kind := by
  obtain ⟨g, rfl⟩ := h.token
  rfl

theorem stop (h : t.Shows reported l) : t.stop = t.start + byteCount l.text := by
  obtain ⟨g, rfl⟩ := h.token
  rfl

/-- The text of a token that is no name is all that it takes. -/
theorem toList_text (h : t.Shows reported l) (hk : t.kind ≠ .identifier) :
    t.text.toList = l.text := by
  have hkind := h.kind
  obtain ⟨g, rfl⟩ := h.token
  rw [hkind] at hk
  simp [Scanner.tokenAfter, Scanner.tokenText, hk]

end Token.Shows

/-! ### Reports within a token of a text -/

/-- A diagnostic over just the characters of a token. -/
theorem Diagnostic.Within.of_span {d : Diagnostic} {t : Token} (h : d.span = t.span)
    (ht : t.start ≤ t.stop) : d.Within t := by
  rw [Diagnostic.Within, h]
  exact ⟨Nat.le_refl _, Nat.le_of_eq (Span.stop_between ht)⟩

namespace Token.Shows

variable {text : String} {t : Token} {l : Lexeme}

theorem within_iff (h : t.Shows (scan text).2.toList l) (d : Diagnostic) :
    d ∈ (scan text).2.toList ∧ d.Within t ↔ d ∈ Scanner.placed t.start l.problems := by
  constructor
  · rintro ⟨hmem, hfrom, hto⟩
    have hlt := start_lt_stop_of_mem_scan text d hmem
    exact (h.faults d).mp ⟨hmem, hfrom, Nat.lt_of_lt_of_le hlt hto⟩
  · intro hplaced
    have hbounds := Scanner.bounds_of_mem_placed h.read hplaced
    exact ⟨((h.faults d).mpr hplaced).1, hbounds.1, h.stop ▸ hbounds.2.2⟩

/-- Some diagnostic lies within a token, by the faults of its lexeme. -/
theorem exists_within_iff (h : t.Shows (scan text).2.toList l) {P : Diagnostic → Prop} :
    (∃ d ∈ (scan text).2.toList, P d ∧ d.Within t) ↔ ∃ p ∈ l.problems,
      P (.of p.message (.between (t.start + p.start) (t.start + p.stop))) := by
  constructor
  · rintro ⟨d, hd, hP, hwithin⟩
    obtain ⟨p, hp, rfl⟩ := List.mem_map.mp ((h.within_iff d).mp ⟨hd, hwithin⟩)
    exact ⟨p, hp, hP⟩
  · rintro ⟨p, hp, hP⟩
    obtain ⟨hd, hwithin⟩ := (h.within_iff _).mpr (List.mem_map_of_mem hp)
    exact ⟨_, hd, hP, hwithin⟩

/-- Some diagnostic lies over all of a token. -/
theorem exists_over_iff (h : t.Shows (scan text).2.toList l) {P : Message → Prop} :
    (∃ d ∈ (scan text).2.toList, P d.message ∧ d.span = t.span) ↔
      ∃ p ∈ l.problems, P p.message ∧ p.start = 0 ∧ p.stop = byteCount l.text := by
  have hspan : t.span = .between t.start (t.start + byteCount l.text) := h.stop ▸ rfl
  have hle : t.start ≤ t.stop := h.stop ▸ Nat.le_add_right _ _
  have hwithin := h.exists_within_iff (P := fun d => P d.message ∧ d.span = t.span)
  constructor
  · rintro ⟨d, hd, hmessage, hover⟩
    obtain ⟨p, hp, hmessage, hover⟩ := hwithin.mp ⟨d, hd, ⟨hmessage, hover⟩, .of_span hover hle⟩
    have hlt := Lexeme.start_lt_stop_of_read? h.read p hp
    simp only [Diagnostic.of, hspan, Span.between, Span.mk.injEq] at hmessage hover
    exact ⟨p, hp, hmessage, by omega, by omega⟩
  · rintro ⟨p, hp, hmessage, hstart, hstop⟩
    obtain ⟨d, hd, ⟨hmessage, hover⟩, -⟩ := hwithin.mpr
      ⟨p, hp, hmessage, by rw [hspan, hstart, hstop]; rfl⟩
    exact ⟨d, hd, hmessage, hover⟩

/-- Some diagnostic begins where a token begins. -/
theorem exists_from_iff (h : t.Shows (scan text).2.toList l) {P : Message → Prop} :
    (∃ d ∈ (scan text).2.toList, P d.message ∧ d.span.start = t.start) ↔
      ∃ p ∈ l.problems, P p.message ∧ p.start = 0 := by
  have hlt : t.start < t.stop := by
    have hpos := Text.byteCount_pos (Lexeme.text_ne_nil_of_read? h.read)
    rw [h.stop]
    omega
  constructor
  · rintro ⟨d, hd, hmessage, hstart⟩
    obtain ⟨p, hp, rfl⟩ := List.mem_map.mp
      ((h.faults d).mp ⟨hd, Nat.le_of_eq hstart.symm, hstart.symm ▸ hlt⟩)
    exact ⟨p, hp, hmessage, Nat.left_eq_add.mp hstart.symm⟩
  · rintro ⟨p, hp, hmessage, hstart⟩
    have hd := ((h.faults _).mpr (List.mem_map_of_mem hp)).1
    exact ⟨_, hd, hmessage, by rw [hstart]; rfl⟩

end Token.Shows

end CSharpFront
