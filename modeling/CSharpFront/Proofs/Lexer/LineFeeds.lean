import CSharpFront.Proofs.Lexer.Apart
import CSharpFront.Proofs.Lexer.PlainNames
/-!
Where the line feeds of a text go. A verbatim string is the only token that may go over the end of a
line, and what the scanner reports about a text has no line feeds in its arguments.
-/

namespace CSharpFront

/-- Whether a token is a string written with `@`. -/
def Token.isVerbatimString (t : Token) : Bool := t.kind == .stringLiteral && t.flags.verbatim

theorem Text.isIdentifierPart_lineFeed : isIdentifierPart '\n' = false := by decide +kernel

namespace Lexeme

/-! ### Numbers -/

theorem lineFeed_notMem_takeWhile {p : Char → Bool} (hp : Stops p) (cs : List Char) :
    '\n' ∉ cs.takeWhile p := by
  intro h
  have hn := List.mem_takeWhile_imp h
  rw [hp.2] at hn
  cases hn

theorem lineFeed_notMem_integerSuffix (cs : List Char) : '\n' ∉ integerSuffix cs := by
  have hletter {c : Char} (hc : isUnsignedSuffix c = true ∨ isLongSuffix c = true) : '\n' ≠ c := by
    rintro rfl
    rcases hc with hc | hc <;> cases hc
  unfold integerSuffix
  split
  next c d _ =>
    by_cases hcu : isUnsignedSuffix c = true
    · by_cases hdl : isLongSuffix d = true <;> simp [hcu, hdl, hletter]
    · by_cases hcl : isLongSuffix c = true
      · by_cases hdu : isUnsignedSuffix d = true <;> simp [hcu, hcl, hdu, hletter]
      · simp [hcu, hcl]
  next c =>
    by_cases hc : isUnsignedSuffix c = true ∨ isLongSuffix c = true
    · simp [hc, hletter hc]
    · simp [hc]
  · exact List.not_mem_nil

theorem lineFeed_notMem_fraction (cs : List Char) : '\n' ∉ fraction cs := by
  unfold fraction
  split
  next c cs =>
    by_cases hc : c = '.' ∧ beginsWithDigit cs = true
    · simp [hc, lineFeed_notMem_takeWhile stops_isDigitOrSeparator]
    · simp [hc]
  · exact List.not_mem_nil

theorem lineFeed_notMem_exponent (cs : List Char) :
    '\n' ∉ (exponent cs).1 ∧ '\n' ∉ (exponent cs).2 := by
  have hmark {e : Char} (he : e = 'e' ∨ e = 'E') : '\n' ≠ e := by
    rintro rfl
    simp at he
  have hsign {s : Char} (hs : s = '+' ∨ s = '-') : '\n' ≠ s := by
    rintro rfl
    simp at hs
  have hdigits := lineFeed_notMem_takeWhile stops_isDigit
  unfold exponent
  split
  next e s cs =>
    by_cases he : e = 'e' ∨ e = 'E'
    · by_cases hs : s = '+' ∨ s = '-'
      · simp [if_pos he, if_pos hs, hmark he, hsign hs, hdigits]
      · simp only [if_pos he, if_neg hs]
        exact ⟨by simp [hmark he], hdigits _⟩
    · simp [he]
  next e =>
    by_cases he : e = 'e' ∨ e = 'E'
    · simp [he, hmark he]
    · simp [he]
  · simp

theorem lineFeed_notMem_radixNumber {lead : List Char} (hlead : '\n' ∉ lead) (flags : TokenFlags)
    {isRadixDigit : Char → Bool} (hr : Stops isRadixDigit) (cs : List Char) :
    '\n' ∉ (radixNumber lead flags isRadixDigit cs).text := by
  simp only [radixNumber, List.mem_append, not_or]
  exact ⟨⟨hlead, lineFeed_notMem_takeWhile hr.or_separator cs⟩, lineFeed_notMem_integerSuffix _⟩

theorem lineFeed_notMem_decimalNumber {whole : List Char} (hwhole : '\n' ∉ whole)
    (cs : List Char) : '\n' ∉ (decimalNumber whole cs).text := by
  have hreal (n : Nat) : '\n' ∉ ((cs.drop n).take 1).takeWhile isRealSuffix :=
    lineFeed_notMem_takeWhile stops_isRealSuffix _
  obtain ⟨hmark, hdigits⟩ := lineFeed_notMem_exponent (cs.drop (fraction cs).length)
  simp only [decimalNumber, List.mem_append, not_or]
  refine ⟨⟨⟨⟨hwhole, lineFeed_notMem_fraction cs⟩, hmark⟩, hdigits⟩, ?_⟩
  split
  · exact hreal _
  split
  · exact List.not_mem_nil
  · exact lineFeed_notMem_integerSuffix _

theorem lineFeed_notMem_number {c : Char} (hc : c ≠ '\n') (cs : List Char) :
    '\n' ∉ (number c cs).text := by
  have hfirst : '\n' ∉ [c] := by simpa using hc.symm
  unfold number
  split
  next x r =>
    by_cases hx : c = '0' ∧ (x = 'x' ∨ x = 'X')
    · have hlead : '\n' ∉ [c, x] := by
        rcases hx with ⟨rfl, rfl | rfl⟩ <;> decide
      rw [if_pos hx]
      exact lineFeed_notMem_radixNumber hlead _ stops_isHexDigit r
    by_cases hb : c = '0' ∧ (x = 'b' ∨ x = 'B')
    · have hlead : '\n' ∉ [c, x] := by
        rcases hb with ⟨rfl, rfl | rfl⟩ <;> decide
      rw [if_neg hx, if_pos hb]
      exact lineFeed_notMem_radixNumber hlead _ stops_isBinaryDigit r
    rw [if_neg hx, if_neg hb]
    split
    · exact lineFeed_notMem_decimalNumber List.not_mem_nil _
    · refine lineFeed_notMem_decimalNumber ?_ _
      simp [hc.symm, lineFeed_notMem_takeWhile stops_isDigitOrSeparator]
  · exact lineFeed_notMem_decimalNumber hfirst []

/-! ### Strings and characters -/

theorem lineFeed_notMem_hexEscape {c : Char} (hc : c ≠ '\n') (least most : Nat) (cs : List Char) :
    '\n' ∉ (c :: cs).take (hexEscape least most cs).length := by
  have hdigits : (cs.take most).takeWhile Text.isHexDigit <+: cs :=
    (List.takeWhile_prefix _).trans (List.take_prefix _ _)
  simp only [hexEscape, List.take_succ_cons, ← List.prefix_iff_eq_take.mp hdigits]
  simp [hc.symm, lineFeed_notMem_takeWhile stops_isHexDigit]

/-- A line end is never part of an escape sequence. -/
theorem lineFeed_notMem_escape (cs : List Char) : '\n' ∉ cs.take (escape cs).length := by
  cases cs with
  | nil => simp
  | cons c cs =>
    simp only [escape]
    by_cases hu : c = 'u'
    · rw [if_pos hu]
      exact lineFeed_notMem_hexEscape (by simp [hu]) 4 4 cs
    by_cases hU : c = 'U'
    · rw [if_neg hu, if_pos hU]
      exact lineFeed_notMem_hexEscape (by simp [hU]) 8 8 cs
    by_cases hx : c = 'x'
    · rw [if_neg hu, if_neg hU, if_pos hx]
      exact lineFeed_notMem_hexEscape (by simp [hx]) 1 4 cs
    rw [if_neg hu, if_neg hU, if_neg hx]
    by_cases hl : Text.isLineEnd c = true
    · simp [hl]
    · have hc : '\n' ≠ c := by
        rintro rfl
        exact hl rfl
      simp [hl, hc]

/-- The inside of a literal on one line goes on with characters of that line. -/
theorem exists_line_quotedBody {quote : Char} (hq : quote ≠ '\n') (b : Body) (cs : List Char) :
    ∃ more, more <+: cs ∧ (quotedBody quote b cs).length = b.length + more.length ∧
      '\n' ∉ more := by
  fun_induction quotedBody quote b cs with
  | case1 b => exact ⟨[], List.nil_prefix, rfl, List.not_mem_nil⟩
  | case2 b cs => exact ⟨[quote], by simp, rfl, by simpa using hq.symm⟩
  | case3 b cs hc ih =>
    obtain ⟨more, hm, hlength, hmore⟩ := ih
    have htaken : (cs.take (escape cs).length).length = (escape cs).length :=
      List.length_take_of_le (length_escape_le cs)
    refine ⟨'\\' :: (cs.take (escape cs).length ++ more), ?_, ?_, ?_⟩
    · rw [List.prefix_cons_inj]
      exact isPrefix_append_drop (List.take_prefix _ _) (by rw [htaken]; exact hm)
    · rw [hlength]
      simp only [Body.addEscape, List.length_cons, List.length_append, htaken]
      omega
    · simp [lineFeed_notMem_escape, hmore]
  | case4 b c cs => exact ⟨[], List.nil_prefix, rfl, List.not_mem_nil⟩
  | case5 b c cs hc hb hl ih =>
    obtain ⟨more, hm, hlength, hmore⟩ := ih
    have hne : '\n' ≠ c := by
      rintro rfl
      exact hl rfl
    refine ⟨c :: more, by simpa using hm, ?_, by simp [hne, hmore]⟩
    rw [hlength]
    simp only [Body.addChar, List.length_cons]
    omega

theorem lineFeed_notMem_quoted {quote : Char} (hq : quote ≠ '\n') (kind : TokenKind)
    (flags : TokenFlags) (cs : List Char) (fault? : Option Message) :
    '\n' ∉ (literal kind [quote] cs flags (quotedBody quote {} cs) fault?).text := by
  obtain ⟨inside, hp, hlength, hinside⟩ := exists_line_quotedBody hq {} cs
  have htake : cs.take (quotedBody quote {} cs).length = inside := by
    rw [hlength]
    simpa using (List.prefix_iff_eq_take.mp hp).symm
  simp [literal, htake, hq.symm, hinside]

/-! ### Any lexeme -/

theorem lineFeed_notMem_identifier {c : Char} (hc : Text.isIdentifierStart c = true)
    (cs : List Char) : '\n' ∉ (identifier c cs).text := by
  have hword := Text.notMem_word Text.isIdentifierPart_lineFeed hc cs
  simp only [identifier]
  split
  · exact hword
  · exact hword

theorem lineFeed_notMem_verbatim? {cs : List Char} {l : Lexeme} (h : verbatim? cs = some l)
    (hl : ¬ (l.kind = .stringLiteral ∧ l.flags.verbatim = true)) : '\n' ∉ l.text := by
  unfold verbatim? at h
  split at h
  next c cs =>
    split at h
    · obtain rfl := Option.some.inj h
      exact absurd ⟨rfl, rfl⟩ hl
    split at h
    next hc =>
      obtain rfl := Option.some.inj h
      have hword := Text.notMem_word Text.isIdentifierPart_lineFeed hc cs
      simpa [verbatimIdentifier] using hword
    · cases h
  · cases h

/-- A lexeme that is no verbatim string lies on one line. -/
theorem lineFeed_notMem_text {cs : List Char} {l : Lexeme} (h : read? cs = some l)
    (hl : ¬ (l.kind = .stringLiteral ∧ l.flags.verbatim = true)) : '\n' ∉ l.text := by
  unfold read? at h
  split at h
  · cases h
  next c cs =>
    split at h
    · obtain rfl := Option.some.inj h
      exact lineFeed_notMem_quoted (by decide) _ _ _ _
    split at h
    · obtain rfl := Option.some.inj h
      exact lineFeed_notMem_quoted (by decide) _ _ _ _
    split at h
    · exact lineFeed_notMem_verbatim? h hl
    split at h
    next hn =>
      obtain rfl := Option.some.inj h
      refine lineFeed_notMem_number ?_ cs
      rintro rfl
      cases hn
    split at h
    next hc =>
      obtain rfl := Option.some.inj h
      exact lineFeed_notMem_identifier hc cs
    · obtain ⟨p, -, rfl⟩ := Option.map_eq_some_iff.mp h
      cases p <;> decide

end Lexeme

/-! ### Whole texts -/

/-- What is reported about a gap cites characters that end no line. -/
theorem Gap.arguments_of_mem_problems (pos : Nat) (lineBreak : Bool) (problems : Bag)
    (cs : List Char) (h : ∀ d ∈ problems, ∀ a ∈ d.arguments, '\n' ∉ a.toList) :
    ∀ d ∈ (read pos lineBreak problems cs).problems, ∀ a ∈ d.arguments, '\n' ∉ a.toList := by
  fun_induction read pos lineBreak problems cs with
  | case1 => exact h
  | case2 _ _ _ _ _ _ ih => exact ih h
  | case3 _ _ _ _ _ _ _ ih => exact ih h
  | case4 _ _ _ _ _ _ _ _ _ ih => exact ih h
  | case5 pos lineBreak problems c cs _ _ _ _ body ih =>
    refine ih (List.forall_mem_append.mpr ⟨h, fun d hd => ?_⟩)
    unfold commentFault at hd
    split at hd
    · cases hd
    · obtain rfl := List.mem_singleton.mp hd
      exact List.forall_mem_nil _
  | case6 => exact h
  | case7 pos lineBreak problems c cs hl _ _ _ _ ih =>
    have hc : '\n' ≠ c := by
      rintro rfl
      exact hl rfl
    refine ih (List.forall_mem_append.mpr ⟨h, List.forall_mem_singleton.mpr ?_⟩)
    refine List.forall_mem_singleton.mpr ?_
    simpa using hc

namespace Scanner

theorem lineFeed_notMem_tokenAfter (g : Gap) {cs : List Char} {l : Lexeme}
    (h : Lexeme.read? cs = some l) (ht : (tokenAfter g l).isVerbatimString = false) :
    '\n' ∉ (tokenAfter g l).text.toList := by
  have htext : '\n' ∉ l.text := by
    refine Lexeme.lineFeed_notMem_text h fun hl => ?_
    simp [Token.isVerbatimString, tokenAfter, hl] at ht
  simp only [tokenAfter, tokenText, String.toList_ofList]
  split
  · exact fun hmem => htext (List.mem_of_mem_tail hmem)
  · exact htext

theorem arguments_of_mem_problems (s : Scanner) :
    ∀ d ∈ s.next.problems, ∀ a ∈ d.arguments, '\n' ∉ a.toList := by
  have hgap := Gap.arguments_of_mem_problems s.pos false [] s.rest (List.forall_mem_nil _)
  unfold next
  dsimp only
  split
  · exact hgap
  next l _ =>
    refine List.forall_mem_append.mpr ⟨hgap, fun d hd => ?_⟩
    obtain ⟨p, -, rfl⟩ := List.mem_map.mp hd
    exact List.forall_mem_nil _

end Scanner

/-- The tokens of a text lie on one line each, but for verbatim strings, and nothing that is reported
by the scanner cites a line feed. -/
theorem lineFeed_notMem_of_mem_scan (text : String) :
    (∀ t ∈ (scan text).1.tokens, t.isVerbatimString = false → '\n' ∉ t.text.toList) ∧
      ∀ d ∈ (scan text).2, ∀ a ∈ d.arguments, '\n' ∉ a.toList :=
  Scanner.forall_mem_run (fun g _ _ => Scanner.lineFeed_notMem_tokenAfter g)
    Scanner.arguments_of_mem_problems _ _ _ (by simp) (by simp)

end CSharpFront
