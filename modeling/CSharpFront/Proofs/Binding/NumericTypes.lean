import CSharpFront.Proofs.Binding.Constants
import CSharpFront.Proofs.Lexer.Numerals
/-!
The types of numbers. The binder finds the type of a number in its text, and splits it once more
into a mark, digits and a suffix. Main statement: a number that has digits is of the type that its
spelling gives. A real number is of that of its suffix, and an integer of the first type that holds
its value, among those of its suffix.
-/

namespace CSharpFront

namespace Radix

def base : Radix → Nat
  | decimal => 10
  | hexadecimal => 16
  | binary => 2

/-- The value of the digits of a number, the most significant first. Separators have none. -/
def value (r : Radix) (digits : List Char) : Nat :=
  Nat.ofDigits r.base ((digits.filter (· ≠ '_')).reverse.map Text.digitValue)

end Radix

namespace Numeral

/-- The types of integers by their suffix in lower case, the smallest first. -/
def integerTypes : List (List Char × List SpecialType) :=
  [([], [.int, .uint, .long, .ulong]), (['u'], [.uint, .ulong]), (['l'], [.long, .ulong]),
   (['u', 'l'], [.ulong]), (['l', 'u'], [.ulong])]

/-- The types of real numbers by their suffix in lower case. -/
def realTypes : List (List Char × SpecialType) :=
  [([], .double), (['f'], .float), (['d'], .double), (['m'], .decimal)]

/-- The type that the spelling of a number gives. Integers that no type holds are of the largest. -/
inductive Typed (cs : List Char) : SpecialType → Prop
  | integer {r : Radix} {digits suffix : List Char} {types : List SpecialType}
      (h : IsInteger cs r digits suffix) (hdigit : ∃ c ∈ digits, r.isDigit c = true)
      (htypes : (suffix.map Text.lowerAscii, types) ∈ integerTypes) :
      Typed cs ((types.find? fun s => s.holds (r.value digits)).getD .ulong)
  | real {whole fraction mark exponent suffix : List Char} {s : SpecialType}
      (h : IsReal cs whole fraction mark exponent suffix) (hdigit : mark ≠ [] → exponent ≠ [])
      (htype : (suffix.map Text.lowerAscii, s) ∈ realTypes) : Typed cs s

end Numeral

/-! ### Digits in lower case -/

/-- A digit is one in lower case too, of the same value. -/
theorem Radix.digit_lower {r : Radix} {c : Char} (h : r.isDigit c = true) :
    Literal.isDigitOf r.base (Text.lowerAscii c) = true ∧
      Text.digitValue (Text.lowerAscii c) = Text.digitValue c ∧
        Literal.isIntegerSuffix (Text.lowerAscii c) = false ∧ c ≠ '_' := by
  have hdigits : ∀ c ∈ Text.hexDigits, r.isDigit c = true →
      Literal.isDigitOf r.base (Text.lowerAscii c) = true ∧
        Text.digitValue (Text.lowerAscii c) = Text.digitValue c ∧
          Literal.isIntegerSuffix (Text.lowerAscii c) = false ∧ c ≠ '_' := by
    refine List.forall_iff_forall_mem.mp ?_
    cases r <;> decide +kernel
  exact hdigits c (Text.mem_of_isHexDigit (Radix.isHexDigit_of_isDigit h)) h

theorem Text.isHexDigit_of_lower {c : Char} (h : isHexDigit (lowerAscii c) = true) :
    isHexDigit c = true := by
  have hupper : ∀ d ∈ hexDigits, lowerAscii (Char.ofNat (d.toNat - 32)) = d →
      isHexDigit (Char.ofNat (d.toNat - 32)) = true := by
    refine List.forall_iff_forall_mem.mp ?_
    decide +kernel
  rcases eq_or_of_lowerAscii (c := c) rfl with hc | hc
  · rwa [← hc] at h
  · rw [hc]
    exact hupper _ (mem_of_isHexDigit h) (hc ▸ rfl)

theorem Radix.isDigit_of_lower {r : Radix} {c : Char}
    (h : Literal.isDigitOf r.base (Text.lowerAscii c) = true) : r.isDigit c = true := by
  have hhex : Text.isHexDigit (Text.lowerAscii c) = true := (Bool.and_eq_true_iff.mp h).1
  have hdigits : ∀ d ∈ Text.hexDigits, Literal.isDigitOf r.base (Text.lowerAscii d) = true →
      r.isDigit d = true := by
    refine List.forall_iff_forall_mem.mp ?_
    cases r <;> decide +kernel
  exact hdigits c (Text.mem_of_isHexDigit (Text.isHexDigit_of_lower hhex)) h

theorem Radix.isDigitOf_lower (r : Radix) (c : Char) :
    Literal.isDigitOf r.base (Text.lowerAscii c) = r.isDigit c :=
  Bool.eq_iff_iff.mpr ⟨isDigit_of_lower, fun h => (digit_lower h).1⟩

theorem Text.digitsValue_eq (radix : Nat) (cs : List Char) :
    digitsValue radix cs = Nat.ofDigits radix (cs.reverse.map digitValue) := by
  rw [digitsValue, Nat.ofDigits_eq_foldr, List.foldr_map, List.foldr_reverse]
  simp only [Nat.cast_id]
  congr 1
  funext n c
  ring

/-! ### Marks and suffixes -/

namespace Literal

open Text (lowerAscii)

theorem radix_cons (c x : Char) (cs : List Char) : radix (c :: x :: cs) =
    if c = '0' ∧ x = 'x' then 16 else if c = '0' ∧ x = 'b' then 2 else 10 := by
  unfold radix
  split
  · simp_all
  · simp_all
  next hx hb => rw [if_neg (by simpa using hx), if_neg (by simpa using hb)]

/-- The mark of the radix is found in lower case, and it is all that comes before the digits. -/
theorem radix_lower (cs : List Char) :
    radix (cs.map lowerAscii) = (Radix.split cs).1.base ∧
      (if radix (cs.map lowerAscii) = 10 then cs.map lowerAscii
        else (cs.map lowerAscii).drop 2) = (Radix.split cs).2.map lowerAscii := by
  match cs with
  | [] => exact ⟨rfl, rfl⟩
  | [c] =>
    have hten : radix ([c].map lowerAscii) = 10 := by
      unfold radix
      split <;> simp_all
    rw [hten]
    exact ⟨rfl, rfl⟩
  | c :: x :: cs =>
    have hzero : lowerAscii c = '0' ↔ c = '0' := Text.lowerAscii_eq_iff_of_ne rfl (by decide)
    have hx : lowerAscii x = 'x' ↔ x = 'x' ∨ x = 'X' := Text.lowerAscii_eq_iff rfl rfl
    have hb : lowerAscii x = 'b' ↔ x = 'b' ∨ x = 'B' := Text.lowerAscii_eq_iff rfl rfl
    simp only [List.map_cons, radix_cons, Radix.split, hzero, hx, hb]
    split
    · exact ⟨rfl, rfl⟩
    split <;> exact ⟨rfl, rfl⟩

theorem digits_lower (cs : List Char) : digits (cs.map lowerAscii) =
    ((Radix.split cs).2.filter (· ≠ '_')).map lowerAscii := by
  rw [digits, (radix_lower cs).2, List.filter_map]
  congr 1
  refine List.filter_congr fun c _ => ?_
  simp [Text.lowerAscii_eq_iff_of_ne (c := c) (d := '_') rfl (by decide)]

/-- Characters that spell an integer: the mark of its radix, and digits of that radix, at least one,
with separators anywhere among them. -/
structure Spells (cs : List Char) (n : Nat) : Prop where
  isDigits : ∀ c ∈ (Radix.split cs).2, (Radix.split cs).1.isDigit c = true ∨ c = '_'
  hasDigit : ∃ c ∈ (Radix.split cs).2, (Radix.split cs).1.isDigit c = true
  value : (Radix.split cs).1.value (Radix.split cs).2 = n

/-- The digits in lower case are worth what they are worth as they are spelled. -/
theorem digitsValue_lower {r : Radix} {ds : List Char}
    (h : ∀ c ∈ ds.filter (· ≠ '_'), r.isDigit c = true) :
    Text.digitsValue r.base ((ds.filter (· ≠ '_')).map lowerAscii) = r.value ds := by
  rw [Text.digitsValue_eq, Radix.value, ← List.map_reverse, List.map_map]
  congr 1
  exact List.map_congr_left fun c hc => (Radix.digit_lower (h c (List.mem_reverse.mp hc))).2.1

/-- Without the separators, digits are left, and nothing else. -/
theorem filter_separators_iff {r : Radix} {ds : List Char} :
    (ds.filter (· ≠ '_') ≠ [] ∧ ∀ c ∈ ds.filter (· ≠ '_'), r.isDigit c = true) ↔
      (∀ c ∈ ds, r.isDigit c = true ∨ c = '_') ∧ ∃ c ∈ ds, r.isDigit c = true := by
  constructor
  · rintro ⟨hne, hall⟩
    refine ⟨fun c hc => ?_, ?_⟩
    · by_cases hseparator : c = '_'
      · exact .inr hseparator
      · exact .inl (hall c (List.mem_filter.mpr ⟨hc, by simpa using hseparator⟩))
    · obtain ⟨c, hc⟩ := List.exists_mem_of_ne_nil _ hne
      exact ⟨c, (List.mem_filter.mp hc).1, hall c hc⟩
  · rintro ⟨hdigits, c, hc, hdigit⟩
    refine ⟨List.ne_nil_of_mem (List.mem_filter.mpr ⟨hc, ?_⟩), fun d hd => ?_⟩
    · simpa using (Radix.digit_lower hdigit).2.2.2
    · obtain ⟨hmem, hne⟩ := List.mem_filter.mp hd
      exact (hdigits d hmem).resolve_right (by simpa using hne)

/-- An integer is read in lower case just if it is spelled, and as the number that is spelled. -/
theorem integer?_lower_eq_some_iff {cs : List Char} {n : Nat} :
    integer? (cs.map lowerAscii) = some n ↔ Spells cs n := by
  have hall : ((digits (cs.map lowerAscii)).all (isDigitOf (radix (cs.map lowerAscii)))) = true ↔
      ∀ c ∈ (Radix.split cs).2.filter (· ≠ '_'), (Radix.split cs).1.isDigit c = true := by
    simp only [digits_lower, (radix_lower cs).1, List.all_map, List.all_eq_true,
      Function.comp_apply, Radix.isDigitOf_lower]
  have hempty : (digits (cs.map lowerAscii)).isEmpty = false ↔
      (Radix.split cs).2.filter (· ≠ '_') ≠ [] := by
    rw [digits_lower, List.isEmpty_map, List.isEmpty_eq_false_iff]
  have hguard : ((digits (cs.map lowerAscii)).isEmpty ||
      !(digits (cs.map lowerAscii)).all (isDigitOf (radix (cs.map lowerAscii)))) = false ↔
      (∀ c ∈ (Radix.split cs).2, (Radix.split cs).1.isDigit c = true ∨ c = '_') ∧
        ∃ c ∈ (Radix.split cs).2, (Radix.split cs).1.isDigit c = true := by
    rw [Bool.or_eq_false_iff, Bool.not_eq_false', hempty, hall, filter_separators_iff]
  rw [integer?]
  cases h : (digits (cs.map lowerAscii)).isEmpty ||
      !(digits (cs.map lowerAscii)).all (isDigitOf (radix (cs.map lowerAscii))) with
  | true =>
    have hnone : ¬Spells cs n := fun hspells => by
      rw [hguard.mpr ⟨hspells.isDigits, hspells.hasDigit⟩] at h
      cases h
    simpa [h] using hnone
  | false =>
    obtain ⟨hdigits, hdigit⟩ := hguard.mp h
    have hvalue := digitsValue_lower (filter_separators_iff.mpr ⟨hdigits, hdigit⟩).2
    rw [← (radix_lower cs).1, ← digits_lower] at hvalue
    simp only [Bool.false_eq_true, if_false, hvalue, Option.some.injEq]
    exact ⟨fun hn => ⟨hdigits, hdigit, hn⟩, Spells.value⟩

theorem splitSuffix_append {front digits suffix : List Char} (hne : digits ≠ [])
    (hdigits : ∀ c ∈ digits, isIntegerSuffix c = false)
    (hsuffix : ∀ c ∈ suffix, isIntegerSuffix c = true) :
    splitSuffix (front ++ digits ++ suffix) = (front ++ digits, suffix) := by
  have htake : (front ++ digits ++ suffix).reverse.takeWhile isIntegerSuffix = suffix.reverse := by
    obtain ⟨ds, d, rfl⟩ := List.eq_nil_or_concat' digits |>.resolve_left hne
    rw [List.reverse_append, List.takeWhile_append_of_pos (by simpa using hsuffix),
      ← List.append_assoc, List.reverse_append]
    simp [hdigits d (by simp)]
  have hlength : (front ++ digits ++ suffix).length - suffix.reverse.length =
      (front ++ digits).length := by
    rw [List.length_append, List.length_reverse, Nat.add_sub_cancel]
  rw [splitSuffix, htake, hlength, List.take_left, List.reverse_reverse]

/-- A number that is not hexadecimal shows at its end that it is real. -/
theorem numericType_of_ne {text : String} {flags : TokenFlags}
    (h : (Radix.split text.toList).1 ≠ .hexadecimal) :
    numericType text flags =
      if (lower text).getLast? = some 'f' then .float
      else if (lower text).getLast? = some 'm' then .decimal
      else if (lower text).getLast? = some 'd' ∨ flags.real then .double
      else integerType (lower text) := by
  refine if_neg ?_
  rw [lower, (radix_lower text.toList).1]
  revert h
  cases (Radix.split text.toList).1 <;> simp [Radix.base]

end Literal

namespace Radix

/-- What comes before the digits does not depend on them. -/
theorem exists_mark_of_split {cs ds : List Char} {r : Radix} (h : split cs = (r, ds)) :
    r = decimal ∧ ds = cs ∨ ∃ mark, cs = mark ++ ds ∧ ∀ rest, split (mark ++ rest) = (r, rest) := by
  unfold split at h
  split at h
  next c x rest =>
    split at h
    next hx =>
      obtain ⟨rfl, rfl⟩ := Prod.mk.inj h
      exact .inr ⟨[c, x], rfl, fun _ => if_pos hx⟩
    next hx =>
    split at h
    next hb =>
      obtain ⟨rfl, rfl⟩ := Prod.mk.inj h
      exact .inr ⟨[c, x], rfl, fun _ => (if_neg hx).trans (if_pos hb)⟩
    next hb =>
      obtain ⟨rfl, rfl⟩ := Prod.mk.inj h
      exact .inl ⟨rfl, rfl⟩
  · obtain ⟨rfl, rfl⟩ := Prod.mk.inj h
    exact .inl ⟨rfl, rfl⟩

end Radix

namespace Numeral

open Text (lowerAscii)

/-! ### Integers -/

namespace IsInteger

variable {cs digits suffix : List Char} {r : Radix}

/-- An integer is a mark, digits and a suffix. -/
theorem exists_mark (h : IsInteger cs r digits suffix) :
    ∃ mark, cs = mark ++ digits ++ suffix ∧ Radix.split (mark ++ digits) = (r, digits) := by
  rcases Radix.exists_mark_of_split h.split with ⟨rfl, rfl⟩ | ⟨mark, rfl, hsplit⟩
  · have hletters : ∀ d ∈ ['x', 'X', 'b', 'B'], Text.isDigit d = false ∧ d ≠ '_' := by
      simp [Text.isDigit]
    refine ⟨[], rfl, Radix.split_of_forall fun d hd hmem => ?_⟩
    obtain ⟨hdigit, hseparator⟩ := hletters d hd
    rcases h.isDigits d hmem with hd | hd
    · rw [show Text.isDigit d = true from hd] at hdigit
      cases hdigit
    · exact hseparator hd
  · exact ⟨mark, (List.append_assoc mark digits suffix).symm, hsplit digits⟩

/-- The value of the digits is found in lower case, without the separators. -/
theorem integer?_lower (h : IsInteger cs r digits suffix)
    (hdigit : ∃ c ∈ digits, r.isDigit c = true) {body : List Char}
    (hbody : Radix.split body = (r, digits)) :
    Literal.integer? (body.map lowerAscii) = some (r.value digits) := by
  rw [Literal.integer?_lower_eq_some_iff]
  constructor <;> rw [hbody]
  · exact h.isDigits
  · exact hdigit

/-- An integer is of the first of its types that holds its value. -/
theorem integerType_lower (h : IsInteger cs r digits suffix)
    (hdigit : ∃ c ∈ digits, r.isDigit c = true) {types : List SpecialType}
    (htypes : (suffix.map lowerAscii, types) ∈ integerTypes) :
    Literal.integerType (cs.map lowerAscii) =
      (types.find? fun s => s.holds (r.value digits)).getD .ulong := by
  obtain ⟨mark, rfl, hsplit⟩ := h.exists_mark
  have hvalue := h.integer?_lower hdigit hsplit
  have hdigits : ∀ c ∈ digits.map lowerAscii, Literal.isIntegerSuffix c = false := by
    simp only [List.forall_mem_map]
    intro c hc
    rcases h.isDigits c hc with hd | rfl
    · exact (Radix.digit_lower hd).2.2.1
    · rfl
  have hsuffix : ∀ c ∈ suffix.map lowerAscii, Literal.isIntegerSuffix c = true := by
    have hall : ∀ ss ∈ integerSuffixes, ∀ c ∈ ss, Literal.isIntegerSuffix c = true := by
      simp [integerSuffixes, Literal.isIntegerSuffix]
    exact hall _ h.isSuffix
  have hne : digits.map lowerAscii ≠ [] := by
    obtain ⟨c, hc, -⟩ := hdigit
    exact List.ne_nil_of_mem (List.mem_map_of_mem hc)
  rw [Literal.integerType, List.map_append, List.map_append,
    Literal.splitSuffix_append hne hdigits hsuffix, ← List.map_append]
  dsimp only
  rw [hvalue]
  simp only [integerTypes, List.mem_cons, Prod.mk.injEq, List.not_mem_nil, or_false] at htypes
  rcases htypes with ⟨hs, rfl⟩ | ⟨hs, rfl⟩ | ⟨hs, rfl⟩ | ⟨hs, rfl⟩ | ⟨hs, rfl⟩ <;> rw [hs] <;> rfl

/-- No integer but a hexadecimal one ends like a real number. -/
theorem getLast?_lower (h : IsInteger cs r digits suffix)
    (hdigit : ∃ c ∈ digits, r.isDigit c = true) (hr : r ≠ .hexadecimal) {c : Char}
    (hc : c ∈ ['f', 'm', 'd']) : (cs.map lowerAscii).getLast? ≠ some c := by
  have hdigits : ∀ d ∈ Text.hexDigits, r.isDigit d = true → lowerAscii d ∉ ['f', 'm', 'd'] := by
    refine List.forall_iff_forall_mem.mp ?_
    cases r with
    | hexadecimal => exact absurd rfl hr
    | decimal | binary => decide +kernel
  have hsuffixes : ∀ ss ∈ integerSuffixes, ∀ d ∈ ss, d ∉ ['f', 'm', 'd'] := by
    simp [integerSuffixes]
  obtain ⟨mark, rfl, -⟩ := h.exists_mark
  have hne : (digits ++ suffix).map lowerAscii ≠ [] := by
    obtain ⟨d, hd, -⟩ := hdigit
    exact List.ne_nil_of_mem (List.mem_map_of_mem (List.mem_append_left _ hd))
  rw [List.append_assoc, List.map_append, List.getLast?_append_of_ne_nil _ hne]
  intro hlast
  have hmem := List.mem_of_getLast? hlast
  rw [List.map_append, List.mem_append] at hmem
  rcases hmem with hmem | hmem
  · obtain ⟨d, hd, rfl⟩ := List.mem_map.mp hmem
    rcases h.isDigits d hd with hd | rfl
    · exact hdigits d (Text.mem_of_isHexDigit (Radix.isHexDigit_of_isDigit hd)) hd hc
    · exact absurd hc (by decide)
  · exact hsuffixes _ h.isSuffix c hmem hc

theorem numericType_eq {text : String} {flags : TokenFlags}
    (h : IsInteger text.toList r digits suffix) (hdigit : ∃ c ∈ digits, r.isDigit c = true)
    {types : List SpecialType} (htypes : (suffix.map lowerAscii, types) ∈ integerTypes)
    (hreal : flags.real = false) :
    Literal.numericType text flags =
      (types.find? fun s => s.holds (r.value digits)).getD .ulong := by
  rw [← h.integerType_lower hdigit htypes]
  by_cases hr : r = .hexadecimal
  · subst hr
    have hradix := (Literal.radix_lower text.toList).1
    rw [h.split] at hradix
    exact if_pos hradix
  · have hlast {c : Char} (hc : c ∈ ['f', 'm', 'd']) : (Literal.lower text).getLast? ≠ some c :=
      h.getLast?_lower hdigit hr hc
    rw [Literal.numericType_of_ne (by rwa [h.split]), if_neg (hlast (by decide)),
      if_neg (hlast (by decide)), if_neg (by simp [hlast, hreal])]
    rfl

end IsInteger

/-! ### Real numbers -/

namespace IsReal

variable {cs whole fraction mark exponent suffix : List Char}

/-- The letter of a suffix stands at the end only. -/
theorem notMem_body (h : IsReal cs whole fraction mark exponent suffix) {d : Char}
    (hd : d ∈ ['f', 'F', 'm', 'M', 'd', 'D']) : d ∉ whole ++ fraction ++ (mark ++ exponent) := by
  have hletters : ∀ d ∈ ['f', 'F', 'm', 'M', 'd', 'D'],
      (Text.isDigitOrSeparator d = false ∧ d ≠ '.') ∧ d ∉ ['e', 'E', '+', '-'] ∧
        Text.isDigit d = false := by
    simp [Text.isDigitOrSeparator, Text.isDigit]
  obtain ⟨hfront, hmark, hdigit⟩ := hletters d hd
  rw [List.mem_append, List.mem_append (s := mark), not_or, not_or]
  exact ⟨h.notMem_front hfront.1 hfront.2, mt h.isExponent.mem_of_mem_mark hmark,
    Text.notMem_of_forall h.isExponent.isDigit_of_mem hdigit⟩

theorem numericType_eq {text : String} {flags : TokenFlags} {s : SpecialType}
    (h : IsReal text.toList whole fraction mark exponent suffix)
    (htype : (suffix.map lowerAscii, s) ∈ realTypes) (hreal : flags.real = true) :
    Literal.numericType text flags = s := by
  have hlower : Literal.lower text =
      (whole ++ fraction ++ (mark ++ exponent)).map lowerAscii ++ suffix.map lowerAscii := by
    rw [Literal.lower, h.text, ← List.map_append]
    simp
  rw [Literal.numericType_of_ne (by simp [h.split]), hlower]
  simp only [realTypes, List.mem_cons, Prod.mk.injEq, List.not_mem_nil, or_false] at htype
  rcases htype with ⟨hs, rfl⟩ | ⟨hs, rfl⟩ | ⟨hs, rfl⟩ | ⟨hs, rfl⟩
  · -- without a suffix nothing but the exponent or the fraction tells
    have hlast {c : Char} (hc : c = 'f' ∨ c = 'm') :
        ((whole ++ fraction ++ (mark ++ exponent)).map lowerAscii).getLast? ≠ some c := by
      intro hlast
      obtain ⟨d, hd, hdc⟩ := List.mem_map.mp (List.mem_of_getLast? hlast)
      have hletter := Text.eq_or_of_lowerAscii hdc
      refine h.notMem_body ?_ hd
      rcases hc with rfl | rfl <;> rcases hletter with rfl | rfl <;> decide
    rw [hs, List.append_nil, if_neg (hlast (.inl rfl)), if_neg (hlast (.inr rfl)),
      if_pos (.inr hreal)]
  · simp [hs]
  · simp [hs]
  · simp [hs]

/-- A real number has a character that no integer has. -/
theorem exists_mem (h : IsReal cs whole fraction mark exponent suffix) :
    ∃ c ∈ cs, Text.isDigitOrSeparator c = false ∧ lowerAscii c ∉ ['u', 'l'] := by
  rw [h.text]
  rcases h.isReal with hne | hne | hne
  · cases h.isFraction with
    | none => exact absurd rfl hne
    | some => exact ⟨'.', by simp, by decide⟩
  · cases h.isExponent with
    | none => exact absurd rfl hne
    | @some e _ _ he =>
      refine ⟨e, by simp, ?_⟩
      rcases he with rfl | rfl <;> decide
  · cases suffix with
    | nil => exact absurd rfl hne
    | cons c cs =>
      have hsuffix := h.isSuffix
      simp only [List.map_cons, realSuffixes, List.mem_cons, List.cons.injEq, List.not_mem_nil,
        or_false, reduceCtorEq, false_or] at hsuffix
      refine ⟨c, by simp, ?_⟩
      rcases hsuffix with ⟨hc, -⟩ | ⟨hc, -⟩ | ⟨hc, -⟩ <;>
        rcases Text.eq_or_of_lowerAscii hc with rfl | rfl <;> decide

end IsReal

/-- No number is both an integer and real. -/
theorem IsInteger.not_isReal {cs digits suffix whole fraction mark exponent letter : List Char}
    {r : Radix} (h : IsInteger cs r digits suffix) :
    ¬ IsReal cs whole fraction mark exponent letter := by
  intro hreal
  obtain ⟨rfl, rfl⟩ := Prod.mk.inj (h.split.symm.trans hreal.split)
  obtain ⟨c, hc, hdigit, hletter⟩ := hreal.exists_mem
  rcases List.mem_append.mp hc with hc | hc
  · rcases h.isDigits c hc with hd | rfl
    · rw [Text.isDigitOrSeparator, show Text.isDigit c = true from hd] at hdigit
      cases hdigit
    · cases hdigit
  · have hletters : ∀ ss ∈ integerSuffixes, ∀ d ∈ ss, d ∈ ['u', 'l'] := by
      simp [integerSuffixes]
    exact hletter (hletters _ h.isSuffix _ (List.mem_map_of_mem hc))

/-! ### The type of a number -/

theorem exists_types {suffix : List Char} (h : suffix.map Text.lowerAscii ∈ integerSuffixes) :
    ∃ types, (suffix.map Text.lowerAscii, types) ∈ integerTypes := by
  have hall : ∀ ss ∈ integerSuffixes, ∃ types, (ss, types) ∈ integerTypes := by
    simp [integerSuffixes, integerTypes]
  exact hall _ h

theorem exists_type {suffix : List Char} (h : suffix.map Text.lowerAscii ∈ realSuffixes) :
    ∃ s ∈ [.float, .double, .decimal], (suffix.map Text.lowerAscii, s) ∈ realTypes := by
  have hall : ∀ ss ∈ realSuffixes, ∃ s ∈ [.float, .double, .decimal], (ss, s) ∈ realTypes := by
    simp [realSuffixes, realTypes]
  exact hall _ h

theorem notMem_of_integerTypes {suffix : List Char} {types : List SpecialType}
    (h : (suffix, types) ∈ integerTypes) (holds : SpecialType → Bool) :
    (types.find? holds).getD .ulong ∉ [.float, .double, .decimal] := by
  have hall : ∀ p ∈ integerTypes, ∀ s ∈ p.2, s ∉ [.float, .double, .decimal] := by decide
  cases hfind : types.find? holds with
  | none => decide
  | some s => exact hall _ h s (List.mem_of_find?_eq_some hfind)

/-- The digits of an integer are none of its suffix. -/
theorem IsInteger.exists_digit {cs digits suffix : List Char} {r : Radix}
    (h : IsInteger cs r digits suffix)
    (hdigit : ∃ c ∈ (Radix.split cs).2, (Radix.split cs).1.isDigit c = true) :
    ∃ c ∈ digits, r.isDigit c = true := by
  obtain ⟨c, hc, hd⟩ := hdigit
  rw [h.split] at hc hd
  rcases List.mem_append.mp hc with hc | hc
  · exact ⟨c, hc, hd⟩
  · rw [h.isDigit_of_mem_suffix c hc] at hd
    cases hd

end Numeral

namespace Lexeme

open Numeral

variable {l : Lexeme} {text : String} {flags : TokenFlags}

/-- A number that has digits is of just the type that its spelling gives. -/
theorem IsNumeral.numericType_eq_iff (h : l.IsNumeral) (htext : text.toList = l.text)
    (hflags : flags.real = l.flags.real)
    (hdigit : ∃ c ∈ (Radix.split l.text).2, (Radix.split l.text).1.isDigit c = true)
    (hvalid : ¬ l.IsFaulty) :
    (Literal.numericType text flags ∈ [.float, .double, .decimal] ↔ flags.real = true) ∧
      ∀ s, Literal.numericType text flags = s ↔ Typed l.text s := by
  rw [← htext] at hdigit ⊢
  cases h with
  | @integer r digits suffix h hreal _ =>
    rw [← htext] at h
    rw [hreal] at hflags
    replace hdigit := h.exists_digit hdigit
    obtain ⟨types, htypes⟩ := exists_types h.isSuffix
    have heq := h.numericType_eq hdigit htypes hflags
    refine ⟨iff_of_false ?_ (by simp [hflags]), fun s => ⟨?_, fun hs => ?_⟩⟩
    · rw [heq]
      exact notMem_of_integerTypes htypes _
    · rintro rfl
      rw [heq]
      exact .integer h hdigit htypes
    · cases hs with
      | integer h hdigit htypes => exact h.numericType_eq hdigit htypes hflags
      | real hreal => exact absurd hreal h.not_isReal
  | real h hreal hfaulty =>
    rw [← htext] at h
    rw [hreal] at hflags
    obtain ⟨s, hs, htype⟩ := exists_type h.isSuffix
    have heq := h.numericType_eq htype hflags
    refine ⟨iff_of_true (heq ▸ hs) hflags, fun s => ⟨?_, fun hs => ?_⟩⟩
    · rintro rfl
      rw [heq]
      refine .real h (fun hmark hnone => hvalid (hfaulty.mpr ⟨hmark, hnone⟩)) htype
    · cases hs with
      | integer hinteger => exact absurd h hinteger.not_isReal
      | real h _ htype => exact h.numericType_eq htype hflags

end Lexeme

/-- A number that has digits is of just the type that its spelling gives. -/
theorem numericType_iff_typed {text : String} {t : Token} (ht : t ∈ (scan text).1.toList)
    (hk : t.kind = .numericLiteral)
    (hdigit : ∃ c ∈ (Radix.split t.text.toList).2, (Radix.split t.text.toList).1.isDigit c = true)
    (hvalid : ¬ ∃ d ∈ (scan text).2.toList, d.message = .invalidNumber ∧ d.span.start = t.start) :
    (Literal.numericType t.text t.flags ∈ [.float, .double, .decimal] ↔ t.flags.real = true) ∧
      ∀ s, Literal.numericType t.text t.flags = s ↔ Numeral.Typed t.text.toList s := by
  obtain ⟨l, hl⟩ := exists_shows_of_mem_scan ht (by simp [hk])
  have htext := hl.toList_text (by simp [hk])
  have hflags : t.flags.real = l.flags.real := by
    obtain ⟨g, rfl⟩ := hl.token
    rfl
  rw [hl.exists_from_iff (P := (· = .invalidNumber))] at hvalid
  rw [htext] at hdigit ⊢
  exact (Lexeme.isNumeral_of_read? hl.read (hl.kind.symm.trans hk)).numericType_eq_iff htext
    hflags hdigit hvalid

/-- A hexadecimal number that ends like a real one. -/
theorem numericType_iff_typed_hexadecimal :
    let text := "1e2m 0X_8000_000f"
    let t : Token := ⟨.numericLiteral, ⟨5, 17⟩, "0X_8000_000f", { hexadecimal := true }⟩
    t ∈ (scan text).1.toList ∧ t.kind = .numericLiteral ∧
      (∃ c ∈ (Radix.split t.text.toList).2, (Radix.split t.text.toList).1.isDigit c = true) ∧
      (¬ ∃ d ∈ (scan text).2.toList, d.message = .invalidNumber ∧ d.span.start = t.start) ∧
      Literal.numericType t.text t.flags = .uint := by
  intro text t
  have ht : t ∈ (scan text).1.toList := by
    rw [scan_ofList]
    decide +kernel
  have hdigit : ∃ c ∈ (Radix.split t.text.toList).2,
      (Radix.split t.text.toList).1.isDigit c = true := ⟨'8', by decide, by decide⟩
  have hvalid : ¬ ∃ d ∈ (scan text).2.toList,
      d.message = .invalidNumber ∧ d.span.start = t.start := by
    rw [scan_ofList]
    decide +kernel
  have htype : ([SpecialType.int, .uint, .long, .ulong].find? fun s =>
      s.holds (Radix.hexadecimal.value "_8000_000f".toList)).getD .ulong = .uint := by
    decide +kernel
  have hspelled : Numeral.IsInteger t.text.toList .hexadecimal "_8000_000f".toList [] :=
    ⟨by decide +kernel, List.forall_iff_forall_mem.mp (by decide), by decide, by decide⟩
  refine ⟨ht, rfl, hdigit, hvalid, ((numericType_iff_typed ht rfl hdigit hvalid).2 .uint).mpr ?_⟩
  rw [← htype]
  exact .integer hspelled ⟨'8', by decide, by decide⟩ (by decide)

end CSharpFront
