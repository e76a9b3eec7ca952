import CSharpFront.Proofs.Lexer.Apart
/-!
Lexemes at the end of a line. What a lexeme is depends on its own characters alone, as long as a
line feed comes after it or the text ends there. That holds of lexemes with faults too, but for a
verbatim string without an end, which goes over line ends up to the end of the text.
-/

namespace CSharpFront

/-- Whether characters begin with a line feed, or are none at all. -/
def EndsLine (cs : List Char) : Prop := ∀ c ∈ cs.head?, c = '\n'

theorem endsLine_nil : EndsLine [] := by simp [EndsLine]

theorem endsLine_lineFeed (cs : List Char) : EndsLine ('\n' :: cs) := by simp [EndsLine]

theorem EndsLine.cases {cs : List Char} (h : EndsLine cs) :
    cs = [] ∨ ∃ more, cs = '\n' :: more := by
  cases cs with
  | nil => exact .inl rfl
  | cons c cs =>
    obtain rfl := h c rfl
    exact .inr ⟨cs, rfl⟩

theorem EndsLine.beginsApart {cs : List Char} (h : EndsLine cs) : BeginsApart cs :=
  fun c hc => .inr (h c hc)

namespace Lexeme

variable {u v w : List Char}

/-! ### Strings and characters -/

theorem escape_of_endsLine (hm : EndsLine w) : escape w = ⟨0, false⟩ := by
  rcases hm.cases with rfl | ⟨cs, rfl⟩ <;> rfl

/-- An escape sequence that takes nothing stands before a line end or at the end of the text. -/
theorem escape_of_length_eq_zero {cs : List Char} (h : (escape cs).length = 0) :
    escape cs = ⟨0, false⟩ := by
  cases cs with
  | nil => rfl
  | cons c cs =>
    simp only [escape, hexEscape] at h ⊢
    by_cases hu : c = 'u'
    · simp [hu] at h
    by_cases hU : c = 'U'
    · simp [hU] at h
    by_cases hx : c = 'x'
    · simp [hx] at h
    by_cases hl : Text.isLineEnd c = true
    · simp [hu, hU, hx, hl]
    · simp [hu, hU, hx, hl] at h

theorem escape_cut (hm : EndsLine w) (h : (escape (u ++ v)).length ≤ u.length) :
    escape (u ++ w) = escape (u ++ v) := by
  cases u with
  | nil =>
    rw [List.nil_append] at h ⊢
    rw [List.nil_append, escape_of_endsLine hm, escape_of_length_eq_zero (Nat.le_zero.mp h)]
  | cons c u =>
    simp only [List.cons_append, escape, List.length_cons] at h ⊢
    by_cases hu : c = 'u'
    · simp only [if_pos hu] at h ⊢
      exact hexEscape_cut hm.beginsApart h
    by_cases hU : c = 'U'
    · simp only [if_neg hu, if_pos hU] at h ⊢
      exact hexEscape_cut hm.beginsApart h
    by_cases hx : c = 'x'
    · simp only [if_neg hu, if_neg hU, if_pos hx] at h ⊢
      exact hexEscape_cut hm.beginsApart h
    · simp only [if_neg hu, if_neg hU, if_neg hx]

theorem Body.length_addChar (b : Body) (c : Char) : (b.addChar c).length = b.length + 1 := rfl

theorem Body.length_close (b : Body) : b.close.length = b.length + 1 := rfl

theorem Body.length_addEscape (b : Body) (offset : Nat) (cs : List Char) :
    (b.addEscape offset cs).length = b.length + 1 + (escape cs).length := rfl

theorem length_le_quotedBody (quote : Char) (b : Body) (cs : List Char) :
    b.length ≤ (quotedBody quote b cs).length := by
  fun_induction quotedBody quote b cs with
  | case1 => exact Nat.le_refl _
  | case2 => exact Nat.le_succ _
  | case3 b cs hc ih => exact Nat.le_trans (by rw [Body.length_addEscape]; omega) ih
  | case4 => exact Nat.le_refl _
  | case5 b c cs hq hc hl ih => exact Nat.le_trans (Nat.le_succ _) ih

theorem quotedBody_of_endsLine {quote : Char} (hq : quote ≠ '\n') (b : Body) (hm : EndsLine w) :
    quotedBody quote b w = b := by
  rcases hm.cases with rfl | ⟨cs, rfl⟩
  · rw [quotedBody]
  · rw [quotedBody, if_neg hq.symm, if_neg (by decide), if_pos (by decide)]

/-- The inside of a literal on one line goes no further than that line. -/
theorem quotedBody_cut {q : Char} (hq : q ≠ '\n') (b : Body) (hm : EndsLine w)
    (h : (quotedBody q b (u ++ v)).length ≤ b.length + u.length) :
    quotedBody q b (u ++ w) = quotedBody q b (u ++ v) := by
  generalize hcs : u ++ v = cs at h ⊢
  fun_induction quotedBody q b cs generalizing u with
  | case1 b =>
    obtain ⟨rfl, rfl⟩ := List.append_eq_nil_iff.mp hcs
    exact quotedBody_of_endsLine hq b hm
  | case2 b cs =>
    cases u with
    | nil =>
      rw [Body.length_close] at h
      exact absurd h (by simp)
    | cons c u =>
      rw [List.cons_append] at hcs
      obtain ⟨rfl, rfl⟩ := List.cons.inj hcs
      rw [List.cons_append, quotedBody, if_pos rfl]
  | case3 b cs hc ih =>
    have hle := length_le_quotedBody q (b.addEscape 1 cs) (cs.drop (escape cs).length)
    rw [Body.length_addEscape] at hle
    cases u with
    | nil =>
      simp only [List.length_nil] at h
      omega
    | cons c u =>
      rw [List.cons_append] at hcs
      obtain ⟨rfl, rfl⟩ := List.cons.inj hcs
      simp only [List.length_cons] at h
      have hescape : (escape (u ++ v)).length ≤ u.length := by omega
      have hdrop := (@List.drop_append_of_le_length Char u · _ hescape)
      have htake := (@List.take_append_of_le_length Char u · _ hescape)
      have hadd : b.addEscape 1 (u ++ w) = b.addEscape 1 (u ++ v) := by
        simp only [Body.addEscape, escape_cut hm hescape, htake]
      rw [List.cons_append, quotedBody, if_neg hc, if_pos rfl, hadd, escape_cut hm hescape, hdrop]
      refine ih (hdrop v).symm ?_
      rw [List.length_drop]
      rw [Body.length_addEscape]
      omega
  | case4 b c cs hc hb hl =>
    cases u with
    | nil => exact quotedBody_of_endsLine hq b hm
    | cons d u =>
      rw [List.cons_append] at hcs
      obtain ⟨rfl, rfl⟩ := List.cons.inj hcs
      rw [List.cons_append, quotedBody, if_neg hc, if_neg hb, if_pos hl]
  | case5 b c cs hc hb hl ih =>
    have hle := length_le_quotedBody q (b.addChar c) cs
    simp only [Body.length_addChar] at hle
    cases u with
    | nil =>
      simp only [List.length_nil] at h
      omega
    | cons d u =>
      rw [List.cons_append] at hcs
      obtain ⟨rfl, rfl⟩ := List.cons.inj hcs
      rw [List.cons_append, quotedBody, if_neg hc, if_neg hb, if_neg hl]
      refine ih rfl ?_
      simp only [Body.length_addChar, List.length_cons] at h ⊢
      omega

theorem length_le_verbatimBody (b : Body) (cs : List Char) :
    b.length ≤ (verbatimBody b cs).length := by
  fun_induction verbatimBody b cs with
  | case1 => exact Nat.le_refl _
  | case2 b cs ih => exact Nat.le_trans (by simp only [Body.length_addChar]; omega) ih
  | case3 => exact Nat.le_succ _
  | case4 b c cs hne hq ih => exact Nat.le_trans (Nat.le_succ _) ih

/-- The inside of a verbatim string without an end goes on to the end of the text. -/
theorem length_verbatimBody_of_open (b : Body) (cs : List Char)
    (h : (verbatimBody b cs).isClosed = false) :
    (verbatimBody b cs).length = b.length + cs.length := by
  fun_induction verbatimBody b cs with
  | case1 => rfl
  | case2 b cs ih =>
    rw [ih h]
    simp only [Body.length_addChar, List.length_cons]
    omega
  | case3 => cases h
  | case4 b c cs hne hq ih =>
    rw [ih h]
    simp only [Body.length_addChar, List.length_cons]
    omega

theorem verbatimBody_cut (b : Body) (hm : EndsLine w) (hb : b.isClosed = false)
    (hc : (verbatimBody b (u ++ v)).isClosed = true)
    (h : (verbatimBody b (u ++ v)).length ≤ b.length + u.length) :
    verbatimBody b (u ++ w) = verbatimBody b (u ++ v) := by
  -- no doubled quote begins where none did before the rest was cut off
  have hsingle (c : Char) (cs : List Char)
      (hne : ∀ r, c = '"' → cs ++ v = '"' :: r → False) :
      ∀ r, c = '"' → cs ++ w = '"' :: r → False := by
    intro r hq hcs
    cases cs with
    | nil =>
      rw [List.nil_append] at hcs
      exact absurd (hm '"' (by rw [hcs]; rfl)) (by decide)
    | cons d cs =>
      obtain ⟨rfl, -⟩ := List.cons.inj hcs
      exact hne _ hq rfl
  generalize hcs : u ++ v = cs at h hc ⊢
  fun_induction verbatimBody b cs generalizing u with
  | case1 b => exact absurd hc (by simp [hb])
  | case2 b cs ih =>
    have hle := length_le_verbatimBody ((b.addChar '"').addChar '"') cs
    simp only [Body.length_addChar] at hle
    rcases u with _ | ⟨c, _ | ⟨d, u⟩⟩
    · simp only [List.length_nil] at h
      omega
    · simp only [List.length_cons, List.length_nil] at h
      omega
    · simp only [List.cons_append, List.cons.injEq] at hcs
      obtain ⟨rfl, rfl, rfl⟩ := hcs
      refine ih hb rfl ?_ hc
      simp only [Body.length_addChar, List.length_cons] at h ⊢
      omega
  | case3 b cs hne =>
    cases u with
    | nil =>
      rw [Body.length_close] at h
      exact absurd h (by simp)
    | cons c u =>
      rw [List.cons_append] at hcs
      obtain ⟨rfl, rfl⟩ := List.cons.inj hcs
      rw [List.cons_append, verbatimBody.eq_3 _ _ _ (hsingle _ _ hne), if_pos rfl]
  | case4 b c cs hne hq ih =>
    have hle := length_le_verbatimBody (b.addChar c) cs
    simp only [Body.length_addChar] at hle
    cases u with
    | nil =>
      simp only [List.length_nil] at h
      omega
    | cons d u =>
      rw [List.cons_append] at hcs
      obtain ⟨rfl, rfl⟩ := List.cons.inj hcs
      rw [List.cons_append, verbatimBody.eq_3 _ _ _ (hsingle _ _ hne), if_neg hq]
      refine ih hb rfl ?_ hc
      simp only [Body.length_addChar, List.length_cons] at h ⊢
      omega

theorem literal_cut {kind : TokenKind} {opening : List Char} {flags : TokenFlags} {b : Body}
    {fault? : Option Message} (hb : b.length ≤ u.length) :
    literal kind opening (u ++ w) flags b fault? = literal kind opening (u ++ v) flags b fault? := by
  simp only [literal, List.take_append_of_le_length hb]

/-- How far the inside of a literal goes is told by the text of the literal. -/
theorem Body.Notes.length_le {kind : TokenKind} {opening cs inside : List Char}
    {flags : TokenFlags} {b : Body} {fault? : Option Message} (hn : b.Notes opening inside)
    (hp : inside <+: cs) {n : Nat}
    (h : (literal kind opening cs flags b fault?).text.length ≤ n + opening.length) :
    b.length ≤ n := by
  have hle : b.length ≤ cs.length := hn.length ▸ hp.length_le
  simp only [literal, List.length_append, List.length_take_of_le hle] at h
  omega

theorem stringLiteral_cut (hm : EndsLine w)
    (h : (stringLiteral (u ++ v)).text.length ≤ u.length + 1) :
    stringLiteral (u ++ w) = stringLiteral (u ++ v) := by
  obtain ⟨inside, hp, hn⟩ : ∃ inside, inside <+: u ++ v ∧
      (quotedBody '"' {} (u ++ v)).Notes ['"'] ([] ++ inside) :=
    exists_notes_quotedBody rfl rfl {} _ [] (Body.notes_nil _)
  have hle := hn.length_le hp h
  have hbody := quotedBody_cut (q := '"') (by decide) {} hm (by simpa using hle)
  simp only [stringLiteral, hbody]
  exact literal_cut hle

theorem characterLiteral_cut (hm : EndsLine w)
    (h : (characterLiteral (u ++ v)).text.length ≤ u.length + 1) :
    characterLiteral (u ++ w) = characterLiteral (u ++ v) := by
  obtain ⟨inside, hp, hn⟩ : ∃ inside, inside <+: u ++ v ∧
      (quotedBody '\'' {} (u ++ v)).Notes ['\''] ([] ++ inside) :=
    exists_notes_quotedBody rfl rfl {} _ [] (Body.notes_nil _)
  have hle := hn.length_le hp h
  have hbody := quotedBody_cut (q := '\'') (by decide) {} hm (by simpa using hle)
  simp only [characterLiteral, hbody]
  exact literal_cut hle

theorem verbatimString_cut (hm : EndsLine w)
    (hopen : (verbatimString (u ++ v)).flags.unterminated = true → w = [])
    (h : (verbatimString (u ++ v)).text.length ≤ u.length + 2) :
    verbatimString (u ++ w) = verbatimString (u ++ v) := by
  obtain ⟨inside, hp, hn⟩ : ∃ inside, inside <+: u ++ v ∧
      (verbatimBody {} (u ++ v)).Notes ['@', '"'] ([] ++ inside) :=
    exists_notes_verbatimBody {} _ [] (Body.notes_nil _)
  have hle := hn.length_le hp h
  cases hclosed : (verbatimBody {} (u ++ v)).isClosed with
  | true =>
    have hbody := verbatimBody_cut {} hm rfl hclosed (by simpa using hle)
    simp only [verbatimString, hbody]
    exact literal_cut hle
  | false =>
    obtain rfl := hopen (by simp [verbatimString, literal, hclosed])
    have hlength := length_verbatimBody_of_open {} (u ++ v) hclosed
    have hv : v = [] := by
      rw [hlength, List.length_append] at hle
      exact List.length_eq_zero_iff.mp (by omega)
    rw [hv]

/-! ### Any lexeme -/

theorem verbatim?_cut {l : Lexeme} (hm : EndsLine w) (h : verbatim? (u ++ v) = some l)
    (hopen : l.flags.verbatim = true → l.flags.unterminated = true → w = [])
    (hlength : l.text.length ≤ u.length + 1) : verbatim? (u ++ w) = some l := by
  rcases u with _ | ⟨c, u⟩
  · rcases v with _ | ⟨c, v⟩
    · cases h
    · -- what comes after the `@` is one more character at least
      simp only [List.nil_append, verbatim?] at h
      have hlong : 2 ≤ l.text.length := by
        split at h
        · obtain rfl := Option.some.inj h
          simp [verbatimString, literal]
        split at h
        · obtain rfl := Option.some.inj h
          simp [verbatimIdentifier]
        · cases h
      exact absurd hlong (by simpa using Nat.lt_succ_of_le hlength)
  · simp only [List.cons_append, verbatim?] at h ⊢
    by_cases hc : c = '"'
    · rw [if_pos hc] at h ⊢
      obtain rfl := Option.some.inj h
      rw [verbatimString_cut hm (hopen rfl) (by simpa using hlength)]
    rw [if_neg hc] at h ⊢
    by_cases hi : Text.isIdentifierStart c = true
    · rw [if_pos hi] at h ⊢
      obtain rfl := Option.some.inj h
      rw [verbatimIdentifier_cut hm.beginsApart (by simpa using hlength)]
    · rw [if_neg hi] at h
      cases h

/-- Whether a number begins is told by its own characters. -/
theorem beginsNumber_cut {c : Char} (hm : EndsLine w)
    (h : c = '.' → beginsWithDigit (u ++ v) = true → u ≠ []) :
    (Text.isDigit c || (c == '.' && beginsWithDigit (u ++ w))) =
      (Text.isDigit c || (c == '.' && beginsWithDigit (u ++ v))) := by
  rcases u with _ | ⟨d, u⟩
  · rw [List.nil_append, List.nil_append, beginsWithDigit_of_beginsApart hm.beginsApart, Bool.and_false]
    by_cases hc : c = '.'
    · cases hv : beginsWithDigit v with
      | true => exact absurd rfl (h hc hv)
      | false => rw [Bool.and_false]
    · rw [beq_eq_false_iff_ne.mpr hc, Bool.false_and]
  · rfl

/-- A lexeme at the end of a line is read from its own text. -/
theorem read?_text_append {cs : List Char} {l : Lexeme} (h : read? cs = some l) (hm : EndsLine w)
    (hopen : l.flags.verbatim = true → l.flags.unterminated = true → w = []) :
    read? (l.text ++ w) = some l := by
  obtain ⟨v, rfl⟩ := (readFrom_read? h).text
  rcases htext : l.text with _ | ⟨c, u⟩
  · exact absurd htext (text_ne_nil_of_read? h)
  have hlength : l.text.length = u.length + 1 := by rw [htext, List.length_cons]
  rw [htext] at h
  simp only [List.cons_append, read?] at h ⊢
  by_cases hdouble : c = '"'
  · rw [if_pos hdouble] at h ⊢
    obtain rfl := Option.some.inj h
    rw [stringLiteral_cut hm (Nat.le_of_eq hlength)]
  rw [if_neg hdouble] at h ⊢
  by_cases hsingle : c = '\''
  · rw [if_pos hsingle] at h ⊢
    obtain rfl := Option.some.inj h
    rw [characterLiteral_cut hm (Nat.le_of_eq hlength)]
  rw [if_neg hsingle] at h ⊢
  by_cases hat : c = '@'
  · rw [if_pos hat] at h ⊢
    exact verbatim?_cut hm h hopen (Nat.le_of_eq hlength)
  rw [if_neg hat] at h ⊢
  have hbegins := beginsNumber_cut (c := c) (u := u) (v := v) hm (by
    rintro rfl hdigit rfl
    rw [if_pos (by simpa using Or.inr hdigit)] at h
    obtain rfl := Option.some.inj h
    have hlong := two_le_length_number_dot hdigit
    rw [hlength] at hlong
    exact absurd hlong (by simp))
  rw [hbegins]
  by_cases hnumber : (Text.isDigit c || (c == '.' && beginsWithDigit (u ++ v))) = true
  · rw [if_pos hnumber] at h ⊢
    obtain rfl := Option.some.inj h
    rw [number_cut hm.beginsApart hnumber (Nat.le_of_eq hlength)]
  rw [if_neg hnumber] at h ⊢
  by_cases hword : Text.isIdentifierStart c = true
  · rw [if_pos hword] at h ⊢
    obtain rfl := Option.some.inj h
    rw [identifier_cut hm.beginsApart (Nat.le_of_eq hlength)]
  · rw [if_neg hword] at h ⊢
    have hself := punctuation?_text h
    rw [htext] at hself
    rw [← List.cons_append, punctuation?_append_beginsApart hm.beginsApart, hself]

end Lexeme

end CSharpFront
