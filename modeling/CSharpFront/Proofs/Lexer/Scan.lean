import CSharpFront.Proofs.Lexer.Tiling
/-!
The scanner tiles the text. Each gap is a row of fillers, each step adds the fillers of a gap and
one token, and so the whole run is a tiling of the text up to its end.
-/

namespace CSharpFront

/-! ### Characters that begin nothing -/

/-- The first character of every punctuation is punctuation by itself. -/
theorem Punctuator.exists_single (p : Punctuator) {c : Char} (h : p.text.toList.head? = some c) :
    ∃ q ∈ Lexeme.punctuators, q.text.toList = [c] ∧ (q == .questionDot) = false := by
  revert h
  cases p <;> (rintro ⟨rfl⟩; decide)

theorem Lexeme.head?_ne_of_punctuation?_eq_none {c : Char} {cs : List Char}
    (h : punctuation? (c :: cs) = none) (p : Punctuator) : p.text.toList.head? ≠ some c := by
  intro hp
  obtain ⟨q, hq, ht, hd⟩ := p.exists_single hp
  have hn := List.find?_eq_none.mp (Option.map_eq_none_iff.mp h) q hq
  apply hn
  rw [beginsWith, ht, hd]
  simp

/-- What is neither blank nor a line end and no lexeme begins with it begins nothing. -/
theorem Lexeme.beginsNothing_of_read?_eq_none {c : Char} {cs : List Char}
    (hl : Text.isLineEnd c = false) (hb : Text.isBlank c = false) (h : read? (c :: cs) = none) :
    BeginsNothing c cs := by
  simp only [read?] at h
  split at h
  · simp at h
  split at h
  · simp at h
  next hq hq' =>
  split at h
  next hv =>
    subst hv
    refine ⟨hl, hb, by decide, by decide +kernel, ⟨hq, hq'⟩, ?_, ?_⟩
    · intro p
      cases p <;> decide
    · intro _ d hd
      cases cs with
      | nil => simp at hd
      | cons e cs =>
        obtain rfl := Option.some.inj hd
        simp only [verbatim?] at h
        split at h
        · simp at h
        split at h
        · simp at h
        next hne hs => exact ⟨hne, by simpa using hs⟩
  next hv =>
  split at h
  · simp at h
  next hd =>
  split at h
  · simp at h
  next hi =>
  simp only [Bool.or_eq_true, not_or, Bool.not_eq_true] at hd hi
  exact ⟨hl, hb, hd.1, hi, ⟨hq, hq'⟩, head?_ne_of_punctuation?_eq_none h, fun hc => absurd hc hv⟩

/-! ### Gaps -/

namespace Gap

/-- The end of a block comment is not found over one more character unless it begins there. -/
theorem not_isInfix_cons {c : Char} {cs body : List Char} (hp : body <+: cs)
    (hc : ∀ rest, c = '*' → cs = '/' :: rest → False) (h : ¬ ['*', '/'] <:+: body) :
    ¬ ['*', '/'] <:+: c :: body := by
  rw [List.infix_cons_iff]
  rintro (⟨rest, hr⟩ | hi)
  · obtain ⟨rfl, rfl⟩ := List.cons.inj hr
    obtain ⟨more, hm⟩ := hp
    exact hc (rest ++ more) rfl hm.symm
  · exact h hi

/-- A block comment that ends after its inside. -/
structure Comment.Closes (bytes : Nat) (cs inside : List Char) (c : Comment) : Prop where
  isClosed : c.isClosed = true
  bytes : c.bytes = bytes + Text.byteCount inside + 2
  chars : cs = inside ++ ['*'] ++ '/' :: c.rest
  noEnd : ¬ ['*', '/'] <:+: inside ++ ['*']

/-- A block comment without an end, which takes all the characters. -/
structure Comment.StaysOpen (bytes : Nat) (cs : List Char) (c : Comment) : Prop where
  isClosed : c.isClosed = false
  bytes : c.bytes = bytes + Text.byteCount cs
  rest : c.rest = []
  noEnd : ¬ ['*', '/'] <:+: cs

/-- The inside of a block comment goes up to the first end of one, or to the end of the text. -/
theorem closes_or_staysOpen_comment (bytes : Nat) (lineBreak : Bool) (cs : List Char) :
    (∃ inside, (comment bytes lineBreak cs).Closes bytes cs inside) ∨
      (comment bytes lineBreak cs).StaysOpen bytes cs := by
  fun_induction comment bytes lineBreak cs with
  | case1 => exact .inr ⟨rfl, rfl, rfl, by decide⟩
  | case2 => exact .inl ⟨[], rfl, rfl, rfl, by decide⟩
  | case3 bytes lineBreak c cs hend ih =>
    rcases ih with ⟨inside, h⟩ | h
    · refine .inl ⟨c :: inside, h.isClosed, ?_, congrArg (c :: ·) h.chars, ?_⟩
      · rw [h.bytes, Text.byteCount_cons]
        omega
      · exact not_isInfix_cons ⟨_, h.chars.symm⟩ hend h.noEnd
    · refine .inr ⟨h.isClosed, ?_, h.rest, not_isInfix_cons List.prefix_rfl hend h.noEnd⟩
      rw [h.bytes, Text.byteCount_cons]
      omega

/-- A gap that has passed a row of fillers since some offset. -/
structure Passes (pos : Nat) (cs : List Char) (problems : Bag) (fs : List Filler) (g : Gap) :
    Prop where
  tiling : ∀ ps, Tiling g.stop g.rest ps → Tiling pos cs (fs.map .filler ++ ps)
  problems : ∀ ps, g.problems ++ Piece.reports g.stop ps =
    problems ++ Piece.reports pos (fs.map .filler ++ ps)
  rest : cs = fs.flatMap Filler.source ++ g.rest
  stop : g.stop = pos + Text.byteCount (fs.flatMap Filler.source)

variable {pos : Nat} {cs : List Char} {problems : Bag} {g : Gap}

theorem passes_nil (h : g.rest = cs) (hp : g.problems = problems) (hs : g.stop = pos) :
    g.Passes pos cs problems [] where
  tiling ps ht := by rw [← hs, ← h]; exact ht
  problems ps := by rw [hp, hs]; rfl
  rest := h.symm
  stop := hs

theorem Passes.cons {pos' : Nat} {rest : List Char} {problems' : Bag} {fs : List Filler}
    (h : g.Passes pos' rest problems' fs) (f : Filler) (hf : f.Stands rest)
    (hs : pos' = pos + Text.byteCount f.source) (hr : problems' = problems ++ f.reports pos) :
    g.Passes pos (f.source ++ rest) problems (f :: fs) where
  tiling ps ht := .filler f hf (hs ▸ h.tiling ps ht)
  problems ps := by
    rw [h.problems ps, hr, hs, List.append_assoc]
    rfl
  rest := by rw [h.rest, List.flatMap_cons, List.append_assoc]
  stop := by rw [h.stop, hs, List.flatMap_cons, Text.byteCount_append, Nat.add_assoc]

theorem utf8Size_of_isLineEnd {c : Char} (h : Text.isLineEnd c = true) : c.utf8Size = 1 := by
  simp only [Text.isLineEnd, Bool.or_eq_true, beq_iff_eq] at h
  rcases h with rfl | rfl <;> rfl

theorem utf8Size_slash : '/'.utf8Size = 1 := rfl

theorem utf8Size_asterisk : '*'.utf8Size = 1 := rfl

/-- The rest of a line goes up to a line end. -/
theorem line_spec (cs : List Char) :
    (∀ c ∈ line cs, Text.isLineEnd c = false) ∧
      ∀ c ∈ (cs.drop (line cs).length).head?, Text.isLineEnd c = true := by
  induction cs with
  | nil => simp [line]
  | cons d cs ih =>
    cases hd : Text.isLineEnd d with
    | true => simp [line, hd]
    | false =>
      have hl : line (d :: cs) = d :: line cs := by simp [line, hd]
      rw [hl]
      refine ⟨?_, by simpa using ih.2⟩
      intro c hc
      rcases List.mem_cons.mp hc with rfl | hc
      · exact hd
      · exact ih.1 c hc

/-- A gap is a row of fillers. -/
theorem exists_passes_read (pos : Nat) (lineBreak : Bool) (problems : Bag) (cs : List Char) :
    ∃ fs, (read pos lineBreak problems cs).Passes pos cs problems fs := by
  fun_induction read pos lineBreak problems cs with
  | case1 => exact ⟨[], passes_nil rfl rfl rfl⟩
  | case2 pos lineBreak problems c cs hl ih =>
    obtain ⟨fs, h⟩ := ih
    have hc : Text.byteCount [c] = 1 := utf8Size_of_isLineEnd hl
    exact ⟨_, h.cons (.lineEnd c) hl (by rw [Filler.source, hc]) (List.append_nil _).symm⟩
  | case3 pos lineBreak problems c cs hl hb ih =>
    obtain ⟨fs, h⟩ := ih
    exact ⟨_, h.cons (.blank c) hb rfl (List.append_nil _).symm⟩
  | case4 pos lineBreak problems c cs _ _ hc line ih =>
    obtain ⟨fs, h⟩ := ih
    obtain ⟨rfl, hc⟩ := hc
    obtain ⟨cs, rfl⟩ := List.head?_eq_some_iff.mp hc
    have hl : line = '/' :: Gap.line cs := by simp [line, Gap.line, Text.isLineEnd]
    have hs : (Filler.lineComment (Gap.line cs)).source ++ cs.drop (Gap.line cs).length =
        '/' :: '/' :: cs := by
      have ht : Gap.line cs ++ cs.drop (Gap.line cs).length = cs :=
        List.prefix_iff_eq_append.mp (List.takeWhile_prefix _)
      simp only [Filler.source, List.cons_append, ht]
    rw [hl, List.length_cons, List.drop_succ_cons] at h
    rw [← hs]
    refine ⟨_, h.cons (.lineComment (Gap.line cs)) (line_spec cs) ?_ (List.append_nil _).symm⟩
    simp only [Filler.source, Text.byteCount_cons, utf8Size_slash]
    omega
  | case5 pos lineBreak problems c cs _ _ _ hc body ih =>
    obtain ⟨fs, h⟩ := ih
    obtain ⟨rfl, hc⟩ := hc
    obtain ⟨cs, rfl⟩ := List.head?_eq_some_iff.mp hc
    rcases closes_or_staysOpen_comment 2 false cs with ⟨inside, hi⟩ | hi
    · have hs : (Filler.blockComment inside).source ++ body.rest = '/' :: '*' :: cs := by
        rw [hi.chars]
        simp [Filler.source, body]
      rw [← hs]
      refine ⟨_, h.cons (.blockComment inside) hi.noEnd ?_ ?_⟩
      · simp only [Filler.source, Text.byteCount_cons, Text.byteCount_append, Text.byteCount_nil,
          utf8Size_slash, utf8Size_asterisk, body, List.drop_one, List.tail_cons, hi.bytes]
        omega
      · simp [commentFault, body, hi.isClosed, Filler.reports]
    · have hs : (Filler.openComment cs).source ++ body.rest = '/' :: '*' :: cs := by
        simp [Filler.source, body, hi.rest]
      rw [← hs]
      refine ⟨_, h.cons (.openComment cs) ⟨hi.noEnd, hi.rest⟩ ?_ ?_⟩
      · simp only [Filler.source, Text.byteCount_cons, utf8Size_slash, utf8Size_asterisk, body,
          List.drop_one, List.tail_cons, hi.bytes]
        omega
      · simp [commentFault, body, hi.isClosed, Filler.reports]
  | case6 => exact ⟨[], passes_nil rfl rfl rfl⟩
  | case7 pos lineBreak problems c cs hl hb _ _ hr ih =>
    obtain ⟨fs, h⟩ := ih
    have hn := Lexeme.beginsNothing_of_read?_eq_none (by simpa using hl) (by simpa using hb) hr
    exact ⟨_, h.cons (.unexpected c) hn rfl rfl⟩

/-- A gap that no lexeme follows goes to the end of the text. -/
theorem rest_eq_nil_of_lexeme?_eq_none (pos : Nat) (lineBreak : Bool) (problems : Bag)
    (cs : List Char) (h : (read pos lineBreak problems cs).lexeme? = none) :
    (read pos lineBreak problems cs).rest = [] := by
  fun_induction read pos lineBreak problems cs with
  | case1 => rfl
  | case2 _ _ _ _ _ _ ih => exact ih h
  | case3 _ _ _ _ _ _ _ ih => exact ih h
  | case4 _ _ _ _ _ _ _ _ _ ih => exact ih h
  | case5 _ _ _ _ _ _ _ _ _ _ ih => exact ih h
  | case6 => simp at h
  | case7 _ _ _ _ _ _ _ _ _ _ ih => exact ih h

end Gap

/-! ### Runs -/

/-- A diagnostic that lies between two characters of a token, and is about its lexeme. -/
def Diagnostic.LiesIn (d : Diagnostic) (t : Token) : Prop :=
  ∃ p : Problem, p.LiesIn t.source ∧ d.message = p.message ∧
    d.span = .between (t.start + p.start) (t.start + p.stop)

namespace Scanner

variable {g : Gap} {l : Lexeme}

theorem source_tokenAfter (h : l.ReadFrom g.rest) : (tokenAfter g l).source = l.text := by
  simp only [Token.source, tokenAfter, tokenText]
  split
  next hv =>
    obtain ⟨cs, hcs⟩ := List.head?_eq_some_iff.mp (h.verbatim hv.1 hv.2)
    simp [hcs]
  · simp

theorem liesIn_of_mem_placed (h : l.ReadFrom g.rest) :
    ∀ d ∈ placed g.stop l.problems, d.LiesIn (tokenAfter g l) ∧ d.message.isOfGap = false := by
  intro d hd
  obtain ⟨p, hp, rfl⟩ := List.mem_map.mp hd
  have hl := h.problems p hp
  refine ⟨⟨p, by rw [source_tokenAfter h]; exact hl, rfl, rfl⟩, ?_⟩
  have hm := hl.isOfLexeme
  simp only [Diagnostic.of]
  revert hm
  cases p.message <;> simp [Message.isOfLexeme, Message.isOfGap]

/-- A run that divides what is left of the text into pieces, after the tokens and faults that were
there before. -/
structure Divides (s : Scanner) (tokens : Array Token) (problems : Array Diagnostic)
    (ps : List Piece) (r : TokenStream × Array Diagnostic) : Prop where
  tiling : Tiling s.pos s.rest ps
  tokens : r.1.tokens = tokens.toList ++ Piece.tokens ps
  kind : r.1.endOfFile.kind = .endOfFile
  range : r.1.endOfFile.range = .emptyAt (s.pos + Text.byteCount s.rest)
  text : r.1.endOfFile.text = ""
  /-- What is reported about gaps, in its order. -/
  gaps : r.2.toList.filter (·.message.isOfGap) =
    problems.toList.filter (·.message.isOfGap) ++ Piece.reports s.pos ps
  lexemes : ∀ d ∈ r.2.toList, d ∈ problems.toList ∨ d.message.isOfGap = true ∨
    ∃ t ∈ Piece.tokens ps, d.LiesIn t

/-- The problems of a gap that has passed fillers from the start on are about gaps. -/
theorem filter_isOfGap_problems {fs : List Filler} {pos : Nat} {cs : List Char}
    (h : g.Passes pos cs [] fs) : g.problems.filter (·.message.isOfGap) = g.problems := by
  have hp : g.problems = Piece.reports pos (fs.map .filler) := by
    simpa [Piece.reports] using h.problems []
  rw [List.filter_eq_self, hp]
  exact Piece.isOfGap_of_mem_reports _ _

/-- A run that begins with a gap and a token. -/
theorem Divides.of_step {s : Scanner} {tokens : Array Token} {problems : Array Diagnostic}
    {fs : List Filler} {ps : List Piece} {r : TokenStream × Array Diagnostic}
    (hg : g.Passes s.pos s.rest [] fs) (hl : l.ReadFrom g.rest) (hne : l.text ≠ [])
    (h : Divides ⟨(tokenAfter g l).stop, g.rest.drop l.text.length⟩
      (tokens.push (tokenAfter g l)) (problems ++ (g.problems ++ placed g.stop l.problems)) ps r) :
    Divides s tokens problems (fs.map .filler ++ .token (tokenAfter g l) :: ps) r := by
  have hs := source_tokenAfter hl
  have hd := liesIn_of_mem_placed hl
  have hstop : (tokenAfter g l).stop = g.stop + Text.byteCount l.text := rfl
  have hrange : (tokenAfter g l).range = ⟨g.stop, g.stop + Text.byteCount l.text⟩ := rfl
  have hk : (tokenAfter g l).kind ≠ .endOfFile := hl.kind
  have hchars : g.rest = l.text ++ g.rest.drop l.text.length :=
    (List.prefix_iff_eq_append.mp hl.text).symm
  generalize tokenAfter g l = t at *
  generalize g.rest.drop l.text.length = rest at *
  rw [← hs] at hstop hrange hchars
  have htiling := h.tiling
  simp only [hstop] at htiling
  refine ⟨?_, ?_, h.kind, ?_, h.text, ?_, ?_⟩
  · refine hg.tiling _ ?_
    rw [hchars]
    exact .token t hk (hs ▸ hne) hrange htiling
  · rw [h.tokens]
    simp [Piece.tokens_append, Piece.tokens_map_filler, Piece.tokens]
  · have hbytes : s.pos + Text.byteCount s.rest = t.stop + Text.byteCount rest := by
      rw [hg.rest, hchars, hstop, hg.stop, Text.byteCount_append, Text.byteCount_append]
      omega
    rw [h.range, hbytes]
  · have hp := hg.problems (.token t :: ps)
    have hnone : (placed g.stop l.problems).filter (·.message.isOfGap) = [] :=
      List.filter_eq_nil_iff.mpr fun d hm => by simp [(hd d hm).2]
    rw [List.nil_append, Piece.reports, ← hstop] at hp
    rw [h.gaps, Array.toList_appendList, List.filter_append, List.filter_append,
      filter_isOfGap_problems hg, hnone, List.append_nil, List.append_assoc, hp]
  · intro d hm
    have hgap : d ∈ g.problems → d.message.isOfGap = true := by
      rw [← filter_isOfGap_problems hg]
      exact fun hf => (List.mem_filter.mp hf).2
    simp only [Piece.tokens_append, Piece.tokens_map_filler, Piece.tokens, List.nil_append]
    rcases h.lexemes d hm with hm | hm | ⟨u, hu, hl⟩
    · rw [Array.toList_appendList, List.mem_append, List.mem_append] at hm
      rcases hm with hm | hm | hm
      · exact .inl hm
      · exact .inr (.inl (hgap hm))
      · exact .inr (.inr ⟨t, List.mem_cons_self, (hd d hm).1⟩)
    · exact .inr (.inl hm)
    · exact .inr (.inr ⟨u, List.mem_cons_of_mem _ hu, hl⟩)

theorem exists_divides_run (tokens : Array Token) (problems : Array Diagnostic) (s : Scanner) :
    ∃ ps, Divides s tokens problems ps (run tokens problems s) := by
  fun_induction run tokens problems s with
  | case1 tokens problems s h =>
    obtain ⟨fs, hg⟩ := Gap.exists_passes_read s.pos false [] s.rest
    have hr := Gap.rest_eq_nil_of_lexeme?_eq_none _ _ _ _ h
    generalize hgap : Gap.read s.pos false [] s.rest = g at h hg hr
    have hn : s.next = ⟨endOfFile g, ⟨g.stop, []⟩, g.problems⟩ := by simp only [next, hgap, h]
    have hrest := hg.rest
    have hp := hg.problems []
    rw [hr, List.append_nil] at hrest
    simp only [Piece.reports, List.append_nil, List.nil_append] at hp
    simp only [hn]
    refine ⟨fs.map .filler, ?_, ?_, rfl, ?_, rfl, ?_, ?_⟩
    · simpa using hg.tiling [] (hr ▸ .done _)
    · simp [Piece.tokens_map_filler]
    · rw [hrest, ← hg.stop]
      rfl
    · rw [Array.toList_appendList, List.filter_append, filter_isOfGap_problems hg, hp]
    · intro d hd
      rw [Array.toList_appendList, List.mem_append, hp] at hd
      exact hd.imp_right fun hd => .inl (Piece.isOfGap_of_mem_reports _ _ d hd)
  | case2 tokens problems s l h ih =>
    obtain ⟨fs, hg⟩ := Gap.exists_passes_read s.pos false [] s.rest
    obtain ⟨ps, ih⟩ := ih
    have hr := Gap.lexeme?_read s.pos false [] s.rest
    generalize hgap : Gap.read s.pos false [] s.rest = g at h hg hr
    rw [h] at hr
    have hn : s.next = ⟨tokenAfter g l, ⟨(tokenAfter g l).stop, g.rest.drop l.text.length⟩,
        g.problems ++ placed g.stop l.problems⟩ := by
      simp only [next, hgap, h]
    simp only [hn] at ih ⊢
    exact ⟨_, .of_step hg (Lexeme.readFrom_read? hr.symm) (Lexeme.text_ne_nil_of_read? hr.symm) ih⟩

end Scanner

/-! ### The whole text -/

theorem exists_divides_scan (text : String) :
    ∃ ps, Scanner.Divides (.ofText text) #[] #[] ps (scan text) :=
  Scanner.exists_divides_run _ _ _

theorem Token.source_of_endOfFile {t : Token} (hk : t.kind = .endOfFile) (ht : t.text = "") :
    t.source = [] := by
  simp [source, hk, ht]

theorem standsAt_of_mem_scan (text : String) :
    ∀ t ∈ (scan text).1.toList, Text.StandsAt t.source text.toList t.start ∧
      t.range = ⟨t.start, t.start + Text.byteCount t.source⟩ := by
  obtain ⟨ps, h⟩ := exists_divides_scan text
  intro t ht
  rcases List.mem_append.mp ht with ht | ht
  · rw [h.tokens] at ht
    obtain ⟨k, hs, hr⟩ := h.tiling.exists_standsAt_of_mem_tokens t ht
    have hk : t.start = k := by rw [Token.start, hr]; exact Nat.zero_add k
    have hz : (Scanner.ofText text).pos + k = k := Nat.zero_add k
    rw [hz] at hr
    exact hk ▸ ⟨hs, hr⟩
  · obtain rfl := List.mem_singleton.mp ht
    have hr := h.range
    have hs := Token.source_of_endOfFile h.kind h.text
    refine ⟨⟨text.toList, [], ?_, ?_⟩, ?_⟩
    · rw [hs]
      simp
    · rw [Token.start, hr]
      simp [Scanner.ofText, Range.emptyAt]
    · rw [hs, Token.start, hr]
      rfl

/-- A stream that makes up a text together with the gaps between its tokens. -/
structure TokenStream.Tiles (text : String) (problems : Bag) (s : TokenStream) : Prop where
  endOfFile : s.endOfFile.kind = .endOfFile ∧ s.endOfFile.text = "" ∧
    s.endOfFile.range = .emptyAt text.utf8ByteSize
  tokens : ∀ t ∈ s.tokens, t.kind ≠ .endOfFile ∧ t.start < t.stop
  order : s.toList.Pairwise fun t u => t.stop ≤ u.start
  boundaries : ∀ t ∈ s.toList, Text.IsBoundary text t.start ∧ Text.IsBoundary text t.stop
  slices : ∀ t ∈ s.toList, Text.slice? text t.span = some (String.ofList t.source)
  /-- The gaps are rows of fillers, and what is reported about gaps is just what is reported about
  those, in the order of the text. -/
  gaps : ∃ ps, Tiling 0 text.toList ps ∧ Piece.tokens ps = s.tokens ∧
    problems.filter (·.message.isOfGap) = Piece.reports 0 ps

/-- The tokens of a text and the gaps between them make up the text, without overlap. -/
theorem scan_tiles (text : String) : (scan text).1.Tiles text (scan text).2.toList := by
  obtain ⟨ps, h⟩ := exists_divides_scan text
  have htokens : Piece.tokens ps = (scan text).1.tokens := h.tokens.symm
  have hend : (scan text).1.endOfFile.range = .emptyAt text.utf8ByteSize := by
    rw [h.range, ← Text.byteCount_toList]
    exact congrArg _ (Nat.zero_add _)
  have hbounds := h.tiling.bounds_of_mem_tokens
  rw [htokens] at hbounds
  have hstands := standsAt_of_mem_scan text
  refine ⟨⟨h.kind, h.text, hend⟩, ?_, ?_, ?_, ?_, ⟨ps, h.tiling, htokens, h.gaps⟩⟩
  · intro t ht
    exact ⟨h.tiling.kind_ne_of_mem_tokens t (htokens ▸ ht), (hbounds t ht).2.1⟩
  · refine List.pairwise_append.mpr ⟨htokens ▸ h.tiling.pairwise_stop_le_start, by simp, ?_⟩
    intro t ht u hu
    obtain rfl := List.mem_singleton.mp hu
    have hle := (hbounds t ht).2.2
    rw [Token.start, hend, Range.emptyAt, ← Text.byteCount_toList]
    simpa [Scanner.ofText] using hle
  · intro t ht
    obtain ⟨hs, hr⟩ := hstands t ht
    have hon := hs.range_on
    rw [← hr] at hon
    exact ⟨hon.start, hon.stop⟩
  · intro t ht
    obtain ⟨hs, hr⟩ := hstands t ht
    rw [Token.span, hr, Range.toSpan, Span.between, Nat.add_sub_cancel_left]
    exact hs.slice?

/-- Whatever is reported about a text is reported between boundaries of it. -/
theorem span_on_of_mem_scan (text : String) :
    ∀ d ∈ (scan text).2, d.span.On (Text.IsBoundary text) := by
  obtain ⟨ps, h⟩ := exists_divides_scan text
  intro d hd
  rw [← Array.mem_toList_iff] at hd
  rcases h.lexemes d hd with hm | hm | ⟨t, ht, p, hp, -, hspan⟩
  · simp at hm
  · have hr : d ∈ Piece.reports 0 ps := by
      have hf := (List.mem_filter (p := (·.message.isOfGap))).mpr ⟨hd, hm⟩
      rw [h.gaps] at hf
      exact hf
    obtain ⟨k, inside, hs, hspan⟩ := h.tiling.exists_standsAt_of_mem_reports d hr
    have hon := hs.range_on.toSpan
    rw [hspan]
    simpa [Range.toSpan, Span.between, Scanner.ofText] using hon
  · obtain ⟨hs, -⟩ := standsAt_of_mem_scan text t (by
      rw [TokenStream.toList, h.tokens]
      exact List.mem_append_left _ ht)
    rw [hspan]
    exact Span.on_between (Text.isBoundary_iff_offset.mpr (hs.offset hp.start))
      (Text.isBoundary_iff_offset.mpr (hs.offset hp.stop))

end CSharpFront
