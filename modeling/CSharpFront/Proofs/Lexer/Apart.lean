import CSharpFront.Proofs.Lexer.Lexeme
/-!
Lexemes and what comes after them. Before a blank or a line feed, and at the end of the text, a
lexeme that is no literal is what it is because of its own characters alone. Wherever a reader has
taken characters in front of some others, those others may be cut off and such an end put there.
-/

namespace CSharpFront

/-- Whether characters begin with a blank or a line feed, or are none at all. -/
def BeginsApart (cs : List Char) : Prop := ∀ c ∈ cs.head?, c = ' ' ∨ c = '\n'

theorem BeginsApart.cases {cs : List Char} (h : BeginsApart cs) :
    cs = [] ∨ ∃ c more, (c = ' ' ∨ c = '\n') ∧ cs = c :: more := by
  cases cs with
  | nil => exact .inl rfl
  | cons c cs => exact .inr ⟨c, cs, h c rfl, rfl⟩

theorem beginsApart_nil : BeginsApart [] := by simp [BeginsApart]

theorem beginsApart_blank (cs : List Char) : BeginsApart (' ' :: cs) := by simp [BeginsApart]

namespace Lexeme

/-- Whether a stretch of such characters stops at a blank and at a line feed. -/
def Stops (p : Char → Bool) : Prop := p ' ' = false ∧ p '\n' = false

theorem Stops.of_or {p : Char → Bool} (hp : Stops p) {c : Char} (hc : c = ' ' ∨ c = '\n') :
    p c = false := by
  rcases hc with rfl | rfl
  · exact hp.1
  · exact hp.2

variable {u v w : List Char}

/-! ### Numbers -/

theorem takeWhile_of_beginsApart {p : Char → Bool} (hp : Stops p) (hm : BeginsApart w) :
    w.takeWhile p = [] := by
  rcases hm.cases with rfl | ⟨c, cs, hc, rfl⟩
  · rfl
  · exact List.takeWhile_cons_of_neg (by simp [hp.of_or hc])

/-- What is taken lies in front of what is cut off. -/
theorem takeWhile_cut {p : Char → Bool} (hp : Stops p) (hm : BeginsApart w)
    (h : ((u ++ v).takeWhile p).length ≤ u.length) :
    (u ++ w).takeWhile p = (u ++ v).takeWhile p := by
  induction u with
  | nil =>
    have hnil : v.takeWhile p = [] := by simpa using h
    rw [List.nil_append, List.nil_append, takeWhile_of_beginsApart hp hm, hnil]
  | cons c u ih =>
    rw [List.cons_append, List.cons_append] at *
    by_cases hc : p c = true
    · rw [List.takeWhile_cons_of_pos hc] at h ⊢
      rw [List.takeWhile_cons_of_pos hc, ih (by simpa using h)]
    · rw [List.takeWhile_cons_of_neg hc, List.takeWhile_cons_of_neg hc]

theorem takeWhile_take_cut {p : Char → Bool} (hp : Stops p) (hm : BeginsApart w) (n : Nat)
    (h : (((u ++ v).take n).takeWhile p).length ≤ u.length) :
    ((u ++ w).take n).takeWhile p = ((u ++ v).take n).takeWhile p := by
  induction n generalizing u with
  | zero => rfl
  | succ n ih =>
    cases u with
    | nil =>
      have hnil : (v.take (n + 1)).takeWhile p = [] := by simpa using h
      rw [List.nil_append, List.nil_append, hnil]
      rcases hm.cases with rfl | ⟨c, cs, hc, rfl⟩
      · rfl
      · exact List.takeWhile_cons_of_neg (by simp [hp.of_or hc])
    | cons c u =>
      rw [List.cons_append, List.cons_append, List.take_succ_cons, List.take_succ_cons] at *
      by_cases hc : p c = true
      · rw [List.takeWhile_cons_of_pos hc] at h ⊢
        rw [List.takeWhile_cons_of_pos hc, ih (by simpa using h)]
      · rw [List.takeWhile_cons_of_neg hc, List.takeWhile_cons_of_neg hc]

theorem stops_isDigit : Stops Text.isDigit := ⟨rfl, rfl⟩

theorem stops_isDigitOrSeparator : Stops Text.isDigitOrSeparator := ⟨rfl, rfl⟩

theorem stops_isHexDigit : Stops Text.isHexDigit := ⟨rfl, rfl⟩

theorem stops_isBinaryDigit : Stops Text.isBinaryDigit := ⟨rfl, rfl⟩

theorem stops_isUnsignedSuffix : Stops isUnsignedSuffix := ⟨rfl, rfl⟩

theorem stops_isLongSuffix : Stops isLongSuffix := ⟨rfl, rfl⟩

theorem stops_isRealSuffix : Stops isRealSuffix := ⟨rfl, rfl⟩

theorem Stops.or_separator {p : Char → Bool} (hp : Stops p) : Stops fun c => p c || c == '_' :=
  ⟨by simp [hp.1], by simp [hp.2]⟩

theorem beginsWithDigit_of_beginsApart (hm : BeginsApart w) : beginsWithDigit w = false := by
  rcases hm.cases with rfl | ⟨c, cs, hc, rfl⟩
  · rfl
  · exact stops_isDigit.of_or hc

theorem integerSuffix_of_beginsApart (hm : BeginsApart w) : integerSuffix w = [] := by
  rcases hm.cases with rfl | ⟨c, cs, hc, rfl⟩
  · rfl
  · have hu := stops_isUnsignedSuffix.of_or hc
    have hl := stops_isLongSuffix.of_or hc
    cases cs <;> simp [integerSuffix, hu, hl]

/-- A suffix of one letter, before whatever is no letter of a suffix. -/
theorem integerSuffix_cons_of_beginsApart (c : Char) (hm : BeginsApart w) :
    integerSuffix (c :: w) = if isUnsignedSuffix c || isLongSuffix c then [c] else [] := by
  rcases hm.cases with rfl | ⟨d, cs, hd, rfl⟩
  · rfl
  · have hu := stops_isUnsignedSuffix.of_or hd
    have hl := stops_isLongSuffix.of_or hd
    by_cases hc : isUnsignedSuffix c = true <;> simp [integerSuffix, hc, hl, hu]

theorem integerSuffix_cut (hm : BeginsApart w)
    (h : (integerSuffix (u ++ v)).length ≤ u.length) :
    integerSuffix (u ++ w) = integerSuffix (u ++ v) := by
  rcases u with _ | ⟨c, _ | ⟨d, u⟩⟩
  · have hnil : integerSuffix v = [] := by simpa using h
    rw [List.nil_append, List.nil_append, integerSuffix_of_beginsApart hm, hnil]
  · rw [List.singleton_append] at h ⊢
    rw [List.singleton_append, integerSuffix_cons_of_beginsApart c hm]
    cases v with
    | nil => rfl
    | cons d v =>
      by_cases hcu : isUnsignedSuffix c = true
      · by_cases hd : isLongSuffix d = true
        · simp [integerSuffix, hcu, hd] at h
        · simp [integerSuffix, hcu, hd]
      · by_cases hcl : isLongSuffix c = true
        · by_cases hd : isUnsignedSuffix d = true
          · simp [integerSuffix, hcu, hcl, hd] at h
          · simp [integerSuffix, hcu, hcl, hd]
        · simp [integerSuffix, hcu, hcl]
  · rfl

theorem isDigitOrSeparator_of_isDigit {c : Char} (h : Text.isDigit c = true) :
    Text.isDigitOrSeparator c = true := by
  rw [Text.isDigitOrSeparator, h, Bool.true_or]

theorem fraction_cut (hm : BeginsApart w) (h : (fraction (u ++ v)).length ≤ u.length) :
    fraction (u ++ w) = fraction (u ++ v) := by
  have hdigit := beginsWithDigit_of_beginsApart hm
  rcases u with _ | ⟨c, _ | ⟨d, u⟩⟩
  · have hnil : fraction v = [] := by simpa using h
    rw [List.nil_append, List.nil_append, hnil]
    rcases hm.cases with rfl | ⟨c, cs, rfl | rfl, rfl⟩
    · rfl
    · simp [fraction]
    · simp [fraction]
  · have hnone : ¬ (c = '.' ∧ beginsWithDigit v = true) := by
      rintro ⟨rfl, hd⟩
      cases v with
      | nil => cases hd
      | cons d v =>
        have htaken : Text.isDigitOrSeparator d = true := isDigitOrSeparator_of_isDigit hd
        simp [fraction, hd, htaken] at h
    simp [fraction, hdigit, hnone]
  · have hu : beginsWithDigit (d :: (u ++ w)) = beginsWithDigit (d :: (u ++ v)) := rfl
    simp only [List.cons_append, fraction, hu] at h ⊢
    by_cases hc : c = '.' ∧ beginsWithDigit (d :: (u ++ v)) = true
    · rw [if_pos hc] at h ⊢
      have htake := takeWhile_cut (u := d :: u) stops_isDigitOrSeparator hm (by simpa using h)
      simp only [List.cons_append] at htake
      rw [if_pos hc, htake]
    · rw [if_neg hc, if_neg hc]

theorem exponent_of_beginsApart (hm : BeginsApart w) : exponent w = ([], []) := by
  rcases hm.cases with rfl | ⟨c, cs, rfl | rfl, rfl⟩
  · rfl
  · cases cs <;> rfl
  · cases cs <;> rfl

theorem exponent_eq_nil {e : Char} (he : ¬ (e = 'e' ∨ e = 'E')) (cs : List Char) :
    exponent (e :: cs) = ([], []) := by
  cases cs <;> exact if_neg he

theorem exponent_cut (hm : BeginsApart w)
    (h : (exponent (u ++ v)).1.length + (exponent (u ++ v)).2.length ≤ u.length) :
    exponent (u ++ w) = exponent (u ++ v) := by
  rcases u with _ | ⟨e, _ | ⟨s, u⟩⟩
  · have hnil : (exponent v).1 = [] ∧ (exponent v).2 = [] := by simpa using h
    rw [List.nil_append, List.nil_append, exponent_of_beginsApart hm]
    exact (Prod.ext hnil.1 hnil.2).symm
  · rw [List.singleton_append] at h ⊢
    rw [List.singleton_append]
    by_cases he : e = 'e' ∨ e = 'E'
    · have hmark : exponent (e :: w) = ([e], []) := by
        rcases hm.cases with rfl | ⟨c, cs, rfl | rfl, rfl⟩
        · exact if_pos he
        · simp [exponent, he, Text.isDigit]
        · simp [exponent, he, Text.isDigit]
      rw [hmark]
      cases v with
      | nil => exact (if_pos he).symm
      | cons s v =>
        by_cases hs : s = '+' ∨ s = '-'
        · simp only [exponent, if_pos he, if_pos hs, List.length_cons, List.length_nil] at h
          omega
        · simp only [exponent, if_pos he, if_neg hs, List.length_singleton] at h ⊢
          have hdigits : (s :: v).takeWhile Text.isDigit = [] :=
            List.length_eq_zero_iff.mp (by omega)
          rw [hdigits]
    · rw [exponent_eq_nil he, exponent_eq_nil he]
  · by_cases he : e = 'e' ∨ e = 'E'
    · by_cases hs : s = '+' ∨ s = '-'
      · simp only [List.cons_append, exponent, if_pos he, if_pos hs, List.length_cons,
          List.length_nil] at h ⊢
        rw [takeWhile_cut (v := v) stops_isDigit hm (by omega)]
      · simp only [List.cons_append, exponent, if_pos he, if_neg hs, List.length_cons,
          List.length_nil] at h ⊢
        have htake := takeWhile_cut (u := s :: u) (v := v) stops_isDigit hm (by
          rw [List.cons_append, List.length_cons]
          omega)
        simp only [List.cons_append] at htake
        rw [htake]
    · simp only [List.cons_append, exponent_eq_nil he]

theorem radixNumber_cut {lead : List Char} {flags : TokenFlags} {isRadixDigit : Char → Bool}
    (hr : Stops isRadixDigit) (hm : BeginsApart w)
    (h : (radixNumber lead flags isRadixDigit (u ++ v)).text.length ≤
      lead.length + u.length) :
    radixNumber lead flags isRadixDigit (u ++ w) =
      radixNumber lead flags isRadixDigit (u ++ v) := by
  simp only [radixNumber, List.length_append] at h
  have hle : ((u ++ v).takeWhile fun c => isRadixDigit c || c == '_').length ≤
      u.length := by omega
  have hdrop := (@List.drop_append_of_le_length Char u · _ hle)
  rw [hdrop] at h
  have htake := takeWhile_cut hr.or_separator hm hle
  have hsuffix := integerSuffix_cut (v := v) hm (u := u.drop
    ((u ++ v).takeWhile fun c => isRadixDigit c || c == '_').length) (by
      rw [List.length_drop]
      omega)
  simp only [radixNumber, htake, hdrop, hsuffix]

theorem decimalNumber_cut {whole : List Char} (hm : BeginsApart w)
    (h : (decimalNumber whole (u ++ v)).text.length ≤ whole.length + u.length) :
    decimalNumber whole (u ++ w) = decimalNumber whole (u ++ v) := by
  have hfraction := fraction_cut (u := u) (v := v) hm
  simp only [decimalNumber, List.length_append] at h ⊢
  rw [hfraction (by omega)]
  generalize fraction (u ++ v) = f at h ⊢
  have hf : f.length ≤ u.length := by omega
  have hexponent := exponent_cut (u := u.drop f.length) (v := v) hm
  simp only [List.drop_append_of_le_length hf, List.length_drop] at h hexponent ⊢
  rw [hexponent (by omega)]
  generalize exponent (u.drop f.length ++ v) = e at h ⊢
  have hn : f.length + e.1.length + e.2.length ≤ u.length := by omega
  simp only [List.drop_append_of_le_length hn] at h ⊢
  have hreal := takeWhile_take_cut (v := v) stops_isRealSuffix hm 1
    (u := u.drop (f.length + e.1.length + e.2.length))
  have hinteger := integerSuffix_cut (v := v) hm
    (u := u.drop (f.length + e.1.length + e.2.length))
  have hlength : (u.drop (f.length + e.1.length + e.2.length)).length =
      u.length - (f.length + e.1.length + e.2.length) := List.length_drop
  generalize u.drop (f.length + e.1.length + e.2.length) = left at h hreal hinteger hlength ⊢
  cases hsuffix : ((left ++ v).take 1).takeWhile isRealSuffix with
  | nil =>
    rw [hsuffix] at h hreal
    rw [hreal (Nat.zero_le _)]
    cases hisReal : !f.isEmpty || !e.1.isEmpty with
    | true => simp
    | false =>
      simp only [hisReal] at h
      rw [hinteger (by simp at h; omega)]
  | cons c cs =>
    rw [hsuffix] at h hreal
    rw [hreal (by simp at h ⊢; omega)]
    simp

/-- A number that begins with a digit is decimal unless it says otherwise. -/
theorem number_eq_decimalNumber {c : Char} {cs : List Char} (hdot : c ≠ '.')
    (hx : ∀ x ∈ cs.head?, ¬ (c = '0' ∧ (x = 'x' ∨ x = 'X')))
    (hb : ∀ x ∈ cs.head?, ¬ (c = '0' ∧ (x = 'b' ∨ x = 'B'))) :
    number c cs = decimalNumber (c :: cs.takeWhile Text.isDigitOrSeparator)
      (cs.drop (cs.takeWhile Text.isDigitOrSeparator).length) := by
  cases cs with
  | nil => rfl
  | cons x r => simp only [number, if_neg (hx x rfl), if_neg (hb x rfl), if_neg hdot]

theorem length_le_decimalNumber (whole cs : List Char) :
    whole.length ≤ (decimalNumber whole cs).text.length := by
  simp only [decimalNumber, List.length_append]
  omega

/-- A number of one character is that character in front of no more digits. -/
theorem number_eq_of_length_le {c : Char} {cs : List Char} (hdot : c ≠ '.')
    (h : (number c cs).text.length ≤ 1) : number c cs = decimalNumber [c] cs := by
  cases cs with
  | nil => rfl
  | cons x r =>
    have hx : ¬ (c = '0' ∧ (x = 'x' ∨ x = 'X')) := by
      intro hx
      simp only [number, if_pos hx, radixNumber, List.length_append, List.length_cons] at h
      omega
    have hb : ¬ (c = '0' ∧ (x = 'b' ∨ x = 'B')) := by
      intro hb
      simp only [number, if_neg hx, if_pos hb, radixNumber, List.length_append,
        List.length_cons] at h
      omega
    rw [number_eq_decimalNumber hdot (by simpa using hx) (by simpa using hb)] at h ⊢
    have hle := Nat.le_trans (length_le_decimalNumber _ _) h
    have hnil : (x :: r).takeWhile Text.isDigitOrSeparator = [] :=
      List.length_eq_zero_iff.mp (by simpa using hle)
    rw [hnil]
    rfl

theorem two_le_length_number_dot {cs : List Char} (h : beginsWithDigit cs = true) :
    2 ≤ (number '.' cs).text.length := by
  rcases cs with _ | ⟨d, cs⟩
  · cases h
  · have htaken : Text.isDigitOrSeparator d = true := isDigitOrSeparator_of_isDigit h
    have hbegins : beginsWithDigit (d :: cs) = true := h
    rw [show number '.' (d :: cs) = decimalNumber [] ('.' :: d :: cs) from rfl]
    simp only [decimalNumber, fraction, hbegins, List.takeWhile_cons_of_pos htaken, and_self,
      if_true, List.length_append, List.length_cons]
    omega

/-- What is left of a number with a point in front, which a digit follows. -/
theorem number_dot_cut (hm : BeginsApart w) (hdigit : beginsWithDigit (u ++ v) = true)
    (h : (number '.' (u ++ v)).text.length ≤ u.length + 1) :
    number '.' (u ++ w) = number '.' (u ++ v) := by
  have hdecimal (d : Char) (cs : List Char) :
      number '.' (d :: cs) = decimalNumber [] ('.' :: d :: cs) := rfl
  rcases u with _ | ⟨d, u⟩
  · exact absurd (Nat.le_trans (two_le_length_number_dot hdigit) h) (by simp)
  · rw [List.cons_append, hdecimal] at h
    rw [List.cons_append, List.cons_append, hdecimal, hdecimal]
    exact decimalNumber_cut (u := '.' :: d :: u) hm (by simpa using h)

theorem number_cut {c : Char} (hm : BeginsApart w)
    (hc : (Text.isDigit c || (c == '.' && beginsWithDigit (u ++ v))) = true)
    (h : (number c (u ++ v)).text.length ≤ u.length + 1) :
    number c (u ++ w) = number c (u ++ v) := by
  by_cases hdot : c = '.'
  · subst hdot
    exact number_dot_cut hm hc h
  rcases u with _ | ⟨x, u⟩
  · have hw : number c w = decimalNumber [c] w := by
      have hhead : ∀ x ∈ w.head?, x = ' ' ∨ x = '\n' := hm
      have hx : ∀ x ∈ w.head?, ¬ (c = '0' ∧ (x = 'x' ∨ x = 'X')) := by
        intro x hx
        rcases hhead x hx with rfl | rfl <;> simp
      have hb : ∀ x ∈ w.head?, ¬ (c = '0' ∧ (x = 'b' ∨ x = 'B')) := by
        intro x hx
        rcases hhead x hx with rfl | rfl <;> simp
      rw [number_eq_decimalNumber hdot hx hb,
        takeWhile_of_beginsApart stops_isDigitOrSeparator hm]
      rfl
    rw [List.nil_append] at h ⊢
    rw [List.nil_append, hw, number_eq_of_length_le hdot h]
    rw [number_eq_of_length_le hdot h] at h
    exact decimalNumber_cut (u := []) hm h
  · simp only [List.cons_append, List.length_cons] at h ⊢
    by_cases hx : c = '0' ∧ (x = 'x' ∨ x = 'X')
    · simp only [number, if_pos hx] at h ⊢
      exact radixNumber_cut stops_isHexDigit hm (by simp only [List.length_cons, List.length_nil]; omega)
    by_cases hb : c = '0' ∧ (x = 'b' ∨ x = 'B')
    · simp only [number, if_neg hx, if_pos hb] at h ⊢
      exact radixNumber_cut stops_isBinaryDigit hm (by simp only [List.length_cons, List.length_nil]; omega)
    · rw [number_eq_decimalNumber hdot (by simpa using hx) (by simpa using hb)] at h ⊢
      rw [number_eq_decimalNumber hdot (by simpa using hx) (by simpa using hb)]
      have hle := Nat.le_trans (length_le_decimalNumber _ _) h
      have htake := takeWhile_cut (u := x :: u) (v := v) stops_isDigitOrSeparator hm (by simpa using hle)
      simp only [List.cons_append] at htake
      rw [htake]
      generalize (x :: (u ++ v)).takeWhile Text.isDigitOrSeparator = whole at h hle ⊢
      have hwhole : whole.length ≤ (x :: u).length := by simpa using hle
      have hdrop (r : List Char) : (x :: (u ++ r)).drop whole.length =
          (x :: u).drop whole.length ++ r := List.drop_append_of_le_length hwhole
      rw [hdrop] at h
      rw [hdrop, hdrop]
      refine decimalNumber_cut hm ?_
      rw [List.length_drop]
      simp only [List.length_cons] at h hle hwhole ⊢
      omega

/-! ### Escapes -/

theorem hexEscape_cut {least most : Nat} (hm : BeginsApart w)
    (h : (hexEscape least most (u ++ v)).length ≤ u.length + 1) :
    hexEscape least most (u ++ w) = hexEscape least most (u ++ v) := by
  simp only [hexEscape] at h ⊢
  rw [takeWhile_take_cut (v := v) stops_isHexDigit hm most (by omega)]

/-! ### Identifiers and punctuation -/

theorem stops_isIdentifierPart : Stops Text.isIdentifierPart :=
  ⟨by decide +kernel, by decide +kernel⟩

theorem identifier_cut {c : Char} (hm : BeginsApart w)
    (h : (identifier c (u ++ v)).text.length ≤ u.length + 1) :
    identifier c (u ++ w) = identifier c (u ++ v) := by
  have htext : (identifier c (u ++ v)).text = c :: (u ++ v).takeWhile Text.isIdentifierPart := by
    simp only [identifier]
    split <;> rfl
  rw [htext] at h
  simp only [identifier, takeWhile_cut (v := v) stops_isIdentifierPart hm (by simpa using h)]

theorem verbatimIdentifier_cut {c : Char} (hm : BeginsApart w)
    (h : (verbatimIdentifier c (u ++ v)).text.length ≤ u.length + 2) :
    verbatimIdentifier c (u ++ w) = verbatimIdentifier c (u ++ v) := by
  simp only [verbatimIdentifier, List.length_cons] at h ⊢
  rw [takeWhile_cut (v := v) stops_isIdentifierPart hm (by omega)]

theorem isPrefixOf_append_beginsApart {text : List Char} (hblank : ' ' ∉ text)
    (hline : '\n' ∉ text) (hm : BeginsApart w) (cs : List Char) :
    text.isPrefixOf (cs ++ w) = text.isPrefixOf cs := by
  induction text generalizing cs with
  | nil => simp
  | cons d text ih =>
    simp only [List.mem_cons, not_or] at hblank hline
    cases cs with
    | nil =>
      rcases hm.cases with rfl | ⟨c, more, rfl | rfl, rfl⟩
      · simp
      · simp [List.isPrefixOf, Ne.symm hblank.1]
      · simp [List.isPrefixOf, Ne.symm hline.1]
    | cons c cs => simp only [List.cons_append, List.isPrefixOf, ih hblank.2 hline.2]

theorem beginsWithDigit_append_beginsApart (hm : BeginsApart w) (cs : List Char) :
    beginsWithDigit (cs ++ w) = beginsWithDigit cs := by
  cases cs with
  | nil => exact beginsWithDigit_of_beginsApart hm
  | cons c cs => rfl

theorem beginsWith_append_beginsApart (hm : BeginsApart w) (cs : List Char) (p : Punctuator) :
    beginsWith (cs ++ w) p = beginsWith cs p := by
  have hblank : ' ' ∉ p.text.toList := by cases p <;> decide
  have hline : '\n' ∉ p.text.toList := by cases p <;> decide
  simp only [beginsWith, isPrefixOf_append_beginsApart hblank hline hm]
  by_cases hp : p = .questionDot
  · subst hp
    rcases cs with _ | ⟨c, _ | ⟨d, cs⟩⟩
    · rfl
    · simp [Punctuator.text, List.isPrefixOf]
    · simp only [List.cons_append, List.drop_succ_cons, List.drop_zero,
        beginsWithDigit_append_beginsApart hm]
  · simp [beq_eq_false_iff_ne.mpr hp]

theorem punctuation?_append_beginsApart (hm : BeginsApart w) (cs : List Char) :
    punctuation? (cs ++ w) = punctuation? cs := by
  have hp : beginsWith (cs ++ w) = beginsWith cs := funext (beginsWith_append_beginsApart hm cs)
  simp only [punctuation?, hp]

/-- Punctuation is read from its own text, since a longer one would have been read before. -/
theorem punctuation?_text {cs : List Char} {l : Lexeme} (h : punctuation? cs = some l) :
    punctuation? l.text = some l := by
  obtain ⟨p, hp, rfl⟩ := Option.map_eq_some_iff.mp h
  have hall : ∀ q ∈ punctuators, punctuators.find? (beginsWith q.text.toList) = some q := by
    decide +kernel
  rw [punctuation?, hall p (List.mem_of_find?_eq_some hp)]
  rfl

end Lexeme

end CSharpFront
