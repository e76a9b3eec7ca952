import CSharpFront.Project.Options
import CSharpFront.Proofs.Expectations
import CSharpFront.Proofs.Text.Characters
/-!
What written codes denote. The letters before the digits are told from the first two bytes of the
text, where a character may be cut in two, and the digits are taken in one by one by a machine word.
Neither shows in the result. Main statement: a text denotes a code just if it is digits of that
value, behind the two letters or alone; codes are read back as they were written, and options that
are accepted name one code with each of their texts.
-/

namespace CSharpFront.Code

/-- A text that denotes a code: decimal digits of its value, with the letters `CS` in any case
before them or without. -/
structure Denotes (text : String) (code : Nat) : Prop where
  spelled : ∃ letters ds : List Char, text.toList = letters ++ ds ∧
    (letters = [] ∨ letters.map Text.lowerAscii = ['c', 's']) ∧
    ds ≠ [] ∧ (∀ c ∈ ds, Text.isDigit c = true) ∧ Nat.ofDigitChars 10 ds 0 = code
  lt_bound : code < 2 ^ 32

/-! ### The letters -/

theorem letters_iff {c s : Char} :
    [c, s].map Text.lowerAscii = ['c', 's'] ↔ (c = 'c' ∨ c = 'C') ∧ (s = 's' ∨ s = 'S') := by
  have hc : Text.lowerAscii c = 'c' ↔ c = 'c' ∨ c = 'C' := Text.lowerAscii_eq_iff rfl rfl
  have hs : Text.lowerAscii s = 's' ↔ s = 's' ∨ s = 'S' := Text.lowerAscii_eq_iff rfl rfl
  simp [hc, hs]

theorem eq_pair_of_letters {letters : List Char}
    (h : letters.map Text.lowerAscii = ['c', 's']) : ∃ c s, letters = [c, s] := by
  have hlength : letters.length = 2 := by simpa using congrArg List.length h
  exact List.length_eq_two.mp hlength

theorem digits_letters {letters cs : List Char}
    (h : letters.map Text.lowerAscii = ['c', 's']) : digits (letters ++ cs) = cs := by
  obtain ⟨c, s, rfl⟩ := eq_pair_of_letters h
  exact if_pos (letters_iff.mp h)

/-- A text that does not begin with the letters is all digits or no code. -/
theorem digits_eq_self {cs : List Char}
    (h : ∀ letters ds, cs = letters ++ ds → letters.map Text.lowerAscii ≠ ['c', 's']) :
    digits cs = cs := by
  match cs with
  | [] | [_] => rfl
  | c :: s :: cs => exact if_neg fun hletters => h [c, s] cs rfl (letters_iff.mpr hletters)

/-- Digits are no letters. -/
theorem digits_of_isDigit {ds : List Char} (h : ∀ c ∈ ds, Text.isDigit c = true) :
    digits ds = ds := by
  refine digits_eq_self fun letters rest hds hletters => ?_
  obtain ⟨c, s, rfl⟩ := eq_pair_of_letters hletters
  have hdigit : Text.isDigit c = true := h c (hds ▸ List.mem_cons_self)
  obtain ⟨rfl | rfl, -⟩ := letters_iff.mp hletters <;> cases hdigit

/-- What stands before the digits of a text is the letters or nothing. -/
theorem exists_letters (cs : List Char) : ∃ letters, cs = letters ++ digits cs ∧
    (letters = [] ∨ letters.map Text.lowerAscii = ['c', 's']) := by
  by_cases h : ∃ letters ds, cs = letters ++ ds ∧ letters.map Text.lowerAscii = ['c', 's']
  · obtain ⟨letters, ds, rfl, hletters⟩ := h
    exact ⟨letters, by rw [digits_letters hletters], .inr hletters⟩
  · have hself : digits cs = cs :=
      digits_eq_self fun letters ds hcs hletters => h ⟨letters, ds, hcs, hletters⟩
    exact ⟨[], by rw [hself, List.nil_append], .inl rfl⟩

/-! ### The value -/

theorem parse?_eq_some_iff {text : String} {code : Nat} : parse? text = some code ↔
    digits text.toList ≠ [] ∧ (∀ c ∈ digits text.toList, Text.isDigit c = true) ∧
      Nat.ofDigitChars 10 (digits text.toList) 0 = code ∧ code < 2 ^ 32 := by
  by_cases h : digits text.toList ≠ [] ∧ ∀ c ∈ digits text.toList, Text.isDigit c = true
  · have hvalue : Text.decimal? (digits text.toList) =
        some (Nat.ofDigitChars 10 (digits text.toList) 0) := by
      rw [Text.decimal?, if_neg (by simpa using h), Text.digitsValue_of_isDigit h.2]
    rw [parse?, hvalue]
    constructor
    · intro hread
      obtain ⟨hlt, hcode⟩ := Option.ite_none_right_eq_some.mp hread
      cases hcode
      exact ⟨h.1, h.2, rfl, hlt⟩
    · rintro ⟨-, -, rfl, hlt⟩
      exact if_pos hlt
  · have hnone : Text.decimal? (digits text.toList) = none := by
      rw [Text.decimal?, if_pos]
      by_contra hdigits
      exact h (by simpa using hdigits)
    simp only [parse?, hnone, reduceCtorEq, false_iff]
    exact fun hparts => h ⟨hparts.1, hparts.2.1⟩

theorem parse?_eq_some_iff_denotes {text : String} {code : Nat} :
    parse? text = some code ↔ Denotes text code := by
  rw [parse?_eq_some_iff]
  constructor
  · rintro ⟨hne, hdigits, hvalue, hlt⟩
    obtain ⟨letters, htext, hletters⟩ := exists_letters text.toList
    exact ⟨⟨letters, _, htext, hletters, hne, hdigits, hvalue⟩, hlt⟩
  · rintro ⟨⟨letters, ds, htext, hletters, hne, hdigits, hvalue⟩, hlt⟩
    have hds : digits text.toList = ds := by
      rcases hletters with rfl | hletters
      · rw [htext, List.nil_append, digits_of_isDigit hdigits]
      · rw [htext, digits_letters hletters]
    rw [hds]
    exact ⟨hne, hdigits, hvalue, hlt⟩

/-! ### Codes as they are written -/

theorem toList_pushn (s : String) (c : Char) (n : Nat) :
    (s.pushn c n).toList = s.toList ++ List.replicate n c := by
  induction n with
  | zero => simp [String.pushn, Nat.repeat]
  | succ n ih =>
    rw [String.pushn, Nat.repeat, ← String.pushn, String.toList_push, ih, List.append_assoc,
      List.replicate_succ']

theorem toList_render (code : Nat) : ∃ zeros, (render code).toList =
    ['C', 'S'] ++ (List.replicate zeros '0' ++ Text.decimal code) := by
  refine ⟨4 - (toString code).length, ?_⟩
  rw [render, Text.padDecimal, String.toList_append, String.toList_append, toList_pushn,
    Nat.toString_eq_repr, Text.toList_repr]
  rfl

/-- Zeros in front do not change the value. -/
theorem denotes_render {code : Nat} (h : code < 2 ^ 32) : Denotes (render code) code := by
  obtain ⟨zeros, htext⟩ := toList_render code
  refine ⟨⟨_, _, htext, .inr rfl, ?_, ?_, ?_⟩, h⟩
  · simp [Text.decimal]
  · intro c hc
    rcases List.mem_append.mp hc with hzero | hdigit
    · rw [List.eq_of_mem_replicate hzero]
      rfl
    · exact Text.isDigit_of_mem_decimal hdigit
  · rw [Nat.ofDigitChars_append, Nat.ofDigitChars_replicate_zero, Nat.mul_zero,
      Nat.ofDigitChars_ten_toDigits]

/-! ### Reading by bytes and machine words -/

/-- The digits by the bytes of the text, or nothing if the letters were cut off inside a
character. -/
def digitsByBytes? (cs : List Char) : Option (List Char) :=
  match Text.takeBytes? cs 2 with
  | some letters =>
    if letters.map Text.lowerAscii = ['c', 's'] then Text.dropBytes? cs 2 else some cs
  | none => some cs

theorem byteCount_letters {letters : List Char}
    (h : letters.map Text.lowerAscii = ['c', 's']) : Text.byteCount letters = 2 := by
  obtain ⟨c, s, rfl⟩ := eq_pair_of_letters h
  obtain ⟨rfl | rfl, rfl | rfl⟩ := letters_iff.mp h <;> rfl

/-- The letters take a byte each, so that the cut behind them is no cut through a character. -/
theorem digitsByBytes?_eq (cs : List Char) : digitsByBytes? cs = some (digits cs) := by
  by_cases h : ∃ letters ds, cs = letters ++ ds ∧ letters.map Text.lowerAscii = ['c', 's']
  · obtain ⟨letters, ds, rfl, hletters⟩ := h
    have htake := Text.takeBytes?_append letters ds
    have hdrop := Text.dropBytes?_append letters ds
    rw [byteCount_letters hletters] at htake hdrop
    rw [digitsByBytes?, htake, digits_letters hletters]
    exact (if_pos hletters).trans hdrop
  · have hself : digits cs = cs :=
      digits_eq_self fun letters ds hcs hletters => h ⟨letters, ds, hcs, hletters⟩
    rw [digitsByBytes?, hself]
    split
    next letters htake =>
      obtain ⟨ds, hcs, -⟩ := Text.eq_append_of_takeBytes? htake
      exact if_neg fun hletters => h ⟨letters, ds, hcs, hletters⟩
    · rfl

/-- The code of a text by its bytes and by numbers of 32 bits. The outer result is nothing if a
character was cut in two. -/
def parseByBytes? (text : String) : Option (Option Nat) :=
  (digitsByBytes? text.toList).map fun ds =>
    if ds.isEmpty || !ds.all Text.isDigit then none else Text.checkedValue? bound 10 ds

theorem parseByBytes?_eq (text : String) : parseByBytes? text = some (parse? text) := by
  rw [parseByBytes?, digitsByBytes?_eq, Option.map_some, parse?, Text.decimal?]
  split
  · rfl
  · rw [Text.checkedValue?_eq (by decide) (by decide)]

/-! ### Accepted options -/

theorem exists_parse?_of_problem?_eq_none {o : CompilerOptions} (h : o.problem? = none)
    {text : String} (hmem : text ∈ o.noWarn ++ o.reporting.map (·.1)) :
    ∃ code, parse? text = some code := by
  rw [CompilerOptions.problem?] at h
  split at h
  · cases h
  · split at h
    · cases h
    · have hfind := List.find?_eq_none.mp (Option.map_eq_none_iff.mp h) text hmem
      exact Option.ne_none_iff_exists'.mp fun hnone => hfind (by rw [hnone]; rfl)

theorem Denotes.unique {text : String} {m n : Nat} (hm : Denotes text m) (hn : Denotes text n) :
    m = n :=
  Option.some.inj <| (parse?_eq_some_iff_denotes.mpr hm).symm.trans
    (parse?_eq_some_iff_denotes.mpr hn)

/-- Reading by bytes and by machine words reads what the text denotes: every code as it is written,
and all else just if it is digits of that code, behind the letters or alone. A text of accepted
options denotes one code. -/
theorem reads_written_codes :
    (∀ text, parseByBytes? text = some (parse? text)) ∧
    (∀ code : UInt32, parse? (render code.toNat) = some code.toNat) ∧
    (∀ text code, parse? text = some code ↔ Denotes text code) ∧
    ∀ o : CompilerOptions, o.problem? = none →
      ∀ text ∈ o.noWarn ++ o.reporting.map (·.1), ∃! code, Denotes text code := by
  refine ⟨parseByBytes?_eq, fun code => ?_, fun _ _ => parse?_eq_some_iff_denotes, ?_⟩
  · exact parse?_eq_some_iff_denotes.mpr (denotes_render code.toNat_lt)
  · intro o h text hmem
    obtain ⟨code, hcode⟩ := exists_parse?_of_problem?_eq_none h hmem
    have hdenotes : Denotes text code := parse?_eq_some_iff_denotes.mp hcode
    exact ⟨code, hdenotes, fun other hother => hother.unique hdenotes⟩

theorem reads_written_codes_mixed_case :
    ∃ o : CompilerOptions, o.problem? = none ∧ o.noWarn = ["cS0162"] ∧
      ∃! code, Denotes "cS0162" code := by
  refine ⟨{ noWarn := ["cS0162"] }, by decide, rfl, ?_⟩
  exact reads_written_codes.2.2.2 { noWarn := ["cS0162"] } (by decide) "cS0162" (by decide)

/-- Seven digits in a row are a code too, and a character of two bytes is no letter. -/
example : parse? "Cs0000219" = some 219 ∧ parse? "cé219" = none ∧ parse? "4294967296" = none := by
  decide

end CSharpFront.Code
