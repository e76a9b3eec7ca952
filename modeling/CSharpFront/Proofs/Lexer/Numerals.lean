import Mathlib.Data.List.Basic
import Mathlib.Data.List.TakeWhile
import CSharpFront.Proofs.Lexer.Faults
import CSharpFront.Proofs.Lexer.PlainNames
/-!
Numbers as they are spelled: integers of three radices, and decimal numbers with a fraction, an
exponent or the suffix of a real type. Main statement: of the numbers that announce digits and have
none, all are reported but those with separators where the digits should be.
-/

namespace CSharpFront

/-! ### Spellings -/

/-- The radix of a number. -/
inductive Radix
  | decimal
  | hexadecimal
  | binary
deriving DecidableEq

namespace Radix

def isDigit : Radix → Char → Bool
  | decimal => Text.isDigit
  | hexadecimal => Text.isHexDigit
  | binary => Text.isBinaryDigit

/-- The radix whose mark a number begins with, and what comes after the mark. -/
def split : List Char → Radix × List Char
  | c :: x :: cs =>
    if c = '0' ∧ (x = 'x' ∨ x = 'X') then (hexadecimal, cs)
    else if c = '0' ∧ (x = 'b' ∨ x = 'B') then (binary, cs)
    else (decimal, c :: x :: cs)
  | cs => (decimal, cs)

/-- Characters none of which is the letter of a mark are decimal. -/
theorem split_of_forall {cs : List Char} (h : ∀ d ∈ ['x', 'X', 'b', 'B'], d ∉ cs) :
    split cs = (decimal, cs) := by
  simp only [List.forall_mem_cons, List.not_mem_nil, false_imp_iff, implies_true, and_true] at h
  unfold split
  split
  next c x cs =>
    have hx (d : Char) (hd : d ∉ c :: x :: cs) : x ≠ d := by
      rintro rfl
      simp at hd
    rw [if_neg (by simp [hx, h]), if_neg (by simp [hx, h])]
  · rfl

end Radix

/-- A number that announces digits which do not come: no digit of its radix follows its mark, or no
digit follows the letter of its exponent. -/
inductive LacksDigits (cs : List Char) : Prop
  | ofMark (hmark : (Radix.split cs).1 ≠ .decimal)
      (hnone : ∀ c ∈ (Radix.split cs).2, (Radix.split cs).1.isDigit c = false)
  | ofExponent {front back : List Char} {e : Char}
      (hsplit : Radix.split cs = (.decimal, front ++ e :: back)) (he : e = 'e' ∨ e = 'E')
      (hnone : ∀ c ∈ back, Text.isDigit c = false)

namespace Numeral

/-- The suffixes of integers in lower case. -/
def integerSuffixes : List (List Char) := [[], ['u'], ['l'], ['u', 'l'], ['l', 'u']]

/-- The suffixes of real numbers in lower case. -/
def realSuffixes : List (List Char) := [[], ['f'], ['d'], ['m']]

/-- The spelling of an integer: digits with separators among them, and a suffix. -/
structure IsInteger (cs : List Char) (r : Radix) (digits suffix : List Char) : Prop where
  split : Radix.split cs = (r, digits ++ suffix)
  isDigits : ∀ c ∈ digits, r.isDigit c = true ∨ c = '_'
  beginsWithDigit : r = .decimal → Lexeme.beginsWithDigit digits = true
  isSuffix : suffix.map Text.lowerAscii ∈ integerSuffixes

/-- A fraction: a point, and digits with separators among them. -/
inductive IsFraction : List Char → Prop
  | none : IsFraction []
  | some {digits : List Char} (hfirst : Lexeme.beginsWithDigit digits = true)
      (hdigits : ∀ c ∈ digits, Text.isDigitOrSeparator c = true) : IsFraction ('.' :: digits)

/-- An exponent: its letter and sign, and its digits. -/
inductive IsExponent : List Char → List Char → Prop
  | none : IsExponent [] []
  | some {e : Char} {sign digits : List Char} (he : e = 'e' ∨ e = 'E')
      (hsign : sign ∈ [[], ['+'], ['-']]) (hdigits : ∀ c ∈ digits, Text.isDigit c = true) :
      IsExponent (e :: sign) digits

/-- The spelling of a real number: digits, a fraction, an exponent and a suffix. -/
structure IsReal (cs whole fraction mark exponent suffix : List Char) : Prop where
  text : cs = whole ++ fraction ++ (mark ++ exponent ++ suffix)
  isWhole : ∀ c ∈ whole, Text.isDigitOrSeparator c = true
  isFraction : IsFraction fraction
  isExponent : IsExponent mark exponent
  isSuffix : suffix.map Text.lowerAscii ∈ realSuffixes
  beginsWithDigit : Lexeme.beginsWithDigit whole = true ∨ whole = [] ∧ fraction ≠ []
  isReal : fraction ≠ [] ∨ mark ≠ [] ∨ suffix ≠ []

end Numeral

/-! ### The characters of numbers -/

namespace Text

theorem notMem_of_forall {p : Char → Bool} {cs : List Char} (h : ∀ c ∈ cs, p c = true) {d : Char}
    (hd : p d = false) : d ∉ cs := by
  intro hmem
  rw [h d hmem] at hd
  cases hd

/-- The hexadecimal digits one by one, so that what holds of all of them is decided. -/
def hexDigits : List Char :=
  "0123456789abcdefABCDEF".toList

theorem mem_of_isHexDigit {c : Char} (h : isHexDigit c = true) : c ∈ hexDigits := by
  have hascii : ∀ n < 0x80, isHexDigit (Char.ofNat n) = true → Char.ofNat n ∈ hexDigits := by
    decide +kernel
  have hlt : c.toNat < 0x80 := by
    simp only [isHexDigit, isDigit, Char.le_def, UInt32.le_iff_toNat_le, Bool.or_eq_true,
      Bool.and_eq_true, decide_eq_true_eq] at h
    rcases h with (⟨-, h⟩ | ⟨-, h⟩) | ⟨-, h⟩
    all_goals exact h.trans_lt (by decide)
  have hmem := hascii c.toNat hlt
  rw [Char.ofNat_toNat] at hmem
  exact hmem h

end Text

theorem Radix.isHexDigit_of_isDigit {r : Radix} {c : Char} (h : r.isDigit c = true) :
    Text.isHexDigit c = true := by
  cases r with
  | decimal => simp [Text.isHexDigit, show Text.isDigit c = true from h]
  | hexadecimal => exact h
  | binary =>
    simp only [isDigit, Text.isBinaryDigit, Bool.or_eq_true, beq_iff_eq] at h
    rcases h with rfl | rfl <;> rfl

namespace Numeral

/-- What is in no suffix of a kind, whatever its case, is in none of them as it stands. -/
theorem notMem_of_suffix {suffix : List Char} {suffixes : List (List Char)}
    (h : suffix.map Text.lowerAscii ∈ suffixes) {d : Char}
    (hd : ∀ cs ∈ suffixes, Text.lowerAscii d ∉ cs) : d ∉ suffix :=
  fun hmem => hd _ h (List.mem_map_of_mem hmem)

/-- No letter of an integer's suffix is a digit. -/
theorem isHexDigit_of_mem_suffix {suffix : List Char}
    (h : suffix.map Text.lowerAscii ∈ integerSuffixes) :
    ∀ c ∈ suffix, Text.isHexDigit c = false := by
  have hdigits : ∀ d ∈ Text.hexDigits, ∀ cs ∈ integerSuffixes, Text.lowerAscii d ∉ cs :=
    List.forall_iff_forall_mem.mp (by decide +kernel)
  intro c hc
  by_contra hd
  rw [Bool.not_eq_false] at hd
  exact notMem_of_suffix h (hdigits c (Text.mem_of_isHexDigit hd)) hc

theorem isInteger_decimal {digits suffix : List Char}
    (hdigits : ∀ c ∈ digits, Text.isDigitOrSeparator c = true)
    (hfirst : Lexeme.beginsWithDigit digits = true)
    (hsuffix : suffix.map Text.lowerAscii ∈ integerSuffixes) :
    IsInteger (digits ++ suffix) .decimal digits suffix := by
  have hletters : ∀ d ∈ ['x', 'X', 'b', 'B'], Text.isDigitOrSeparator d = false ∧
      ∀ cs ∈ integerSuffixes, Text.lowerAscii d ∉ cs :=
    List.forall_iff_forall_mem.mp (by decide +kernel)
  refine ⟨Radix.split_of_forall fun d hd => ?_, fun c hc => ?_, fun _ => hfirst, hsuffix⟩
  · rw [List.mem_append, not_or]
    exact ⟨Text.notMem_of_forall hdigits (hletters d hd).1,
      notMem_of_suffix hsuffix (hletters d hd).2⟩
  · simpa [Text.isDigitOrSeparator, Radix.isDigit] using hdigits c hc

namespace IsExponent

variable {mark exponent : List Char}

theorem isDigit_of_mem (h : IsExponent mark exponent) : ∀ c ∈ exponent, Text.isDigit c = true := by
  cases h with
  | none => exact fun c hc => absurd hc List.not_mem_nil
  | some _ _ hdigits => exact hdigits

theorem mem_of_mem_mark (h : IsExponent mark exponent) {c : Char} (hc : c ∈ mark) :
    c ∈ ['e', 'E', '+', '-'] := by
  cases h with
  | none => exact absurd hc List.not_mem_nil
  | @some e sign _ he hsign _ =>
    simp only [List.mem_cons, List.not_mem_nil, or_false] at hsign
    rcases List.mem_cons.mp hc with rfl | hc
    · rcases he with rfl | rfl <;> decide
    · rcases hsign with rfl | rfl | rfl
      · exact absurd hc List.not_mem_nil
      · simp [List.mem_singleton.mp hc]
      · simp [List.mem_singleton.mp hc]

end IsExponent

namespace IsReal

variable {cs whole fraction mark exponent suffix : List Char}

theorem notMem_front (h : IsReal cs whole fraction mark exponent suffix) {d : Char}
    (hd : Text.isDigitOrSeparator d = false) (hdot : d ≠ '.') : d ∉ whole ++ fraction := by
  rw [List.mem_append, not_or]
  refine ⟨Text.notMem_of_forall h.isWhole hd, ?_⟩
  cases h.isFraction with
  | none => exact List.not_mem_nil
  | some _ hdigits =>
    exact List.not_mem_cons_of_ne_of_not_mem hdot (Text.notMem_of_forall hdigits hd)

/-- No letter of a mark is in a real number. -/
theorem split (h : IsReal cs whole fraction mark exponent suffix) :
    Radix.split cs = (.decimal, cs) := by
  have hletters : ∀ d ∈ ['x', 'X', 'b', 'B'],
      (Text.isDigitOrSeparator d = false ∧ d ≠ '.') ∧ d ∉ ['e', 'E', '+', '-'] ∧
        Text.isDigit d = false ∧ ∀ cs ∈ realSuffixes, Text.lowerAscii d ∉ cs :=
    List.forall_iff_forall_mem.mp (by decide +kernel)
  refine Radix.split_of_forall fun d hd => ?_
  obtain ⟨hfront, hmark, hdigit, hsuffix⟩ := hletters d hd
  rw [h.text, List.mem_append, List.mem_append (t := suffix), List.mem_append (s := mark), not_or,
    not_or, not_or]
  exact ⟨h.notMem_front hfront.1 hfront.2, ⟨mt h.isExponent.mem_of_mem_mark hmark,
    Text.notMem_of_forall h.isExponent.isDigit_of_mem hdigit⟩, notMem_of_suffix h.isSuffix hsuffix⟩

end IsReal

end Numeral

/-! ### Numbers as they are read -/

namespace Lexeme

/-- A lexeme that is said to be no valid number. -/
def IsFaulty (l : Lexeme) : Prop := ∃ p ∈ l.problems, p.message = .invalidNumber ∧ p.start = 0

/-- A lexeme that is spelled as a number, and at fault just if it has no digits where it is read as
having some. -/
inductive IsNumeral (l : Lexeme) : Prop
  | integer {r : Radix} {digits suffix : List Char}
      (h : Numeral.IsInteger l.text r digits suffix) (hreal : l.flags.real = false)
      (hfaulty : l.IsFaulty ↔ digits = [])
  | real {whole fraction mark exponent suffix : List Char}
      (h : Numeral.IsReal l.text whole fraction mark exponent suffix) (hreal : l.flags.real = true)
      (hfaulty : l.IsFaulty ↔ mark ≠ [] ∧ exponent = [])

open Numeral

theorem isSuffix_integerSuffix (cs : List Char) :
    (integerSuffix cs).map Text.lowerAscii ∈ integerSuffixes := by
  have hu {c : Char} (h : isUnsignedSuffix c = true) : Text.lowerAscii c = 'u' := by
    simp only [isUnsignedSuffix, Bool.or_eq_true, beq_iff_eq] at h
    rcases h with rfl | rfl <;> rfl
  have hl {c : Char} (h : isLongSuffix c = true) : Text.lowerAscii c = 'l' := by
    simp only [isLongSuffix, Bool.or_eq_true, beq_iff_eq] at h
    rcases h with rfl | rfl <;> rfl
  unfold integerSuffix
  split
  · split_ifs <;> simp [integerSuffixes, *]
  · split
    next h =>
      rcases (Bool.or_eq_true _ _).mp h with h | h
      · simp [integerSuffixes, hu h]
      · simp [integerSuffixes, hl h]
    · simp [integerSuffixes]
  · simp [integerSuffixes]

theorem isSuffix_realSuffix (cs : List Char) :
    ((cs.take 1).takeWhile isRealSuffix).map Text.lowerAscii ∈ realSuffixes := by
  cases cs with
  | nil => decide
  | cons c cs =>
    rw [List.take_succ_cons, List.take_zero, List.takeWhile_cons]
    split
    next h =>
      simp only [isRealSuffix, Bool.or_eq_true, beq_iff_eq] at h
      rcases h with ((((rfl | rfl) | rfl) | rfl) | rfl) | rfl <;> decide
    · decide

theorem isFraction_fraction (cs : List Char) : IsFraction (fraction cs) := by
  unfold fraction
  split
  next c cs =>
    split
    next h =>
      obtain ⟨rfl, hdigit⟩ := h
      cases cs with
      | nil => cases hdigit
      | cons d ds =>
        have hd : Text.isDigit d = true := hdigit
        refine .some ?_ fun c hc => List.mem_takeWhile_imp hc
        rw [List.takeWhile_cons_of_pos (by simp [Text.isDigitOrSeparator, hd])]
        exact hd
    · exact .none
  · exact .none

theorem isExponent_exponent (cs : List Char) : IsExponent (exponent cs).1 (exponent cs).2 := by
  unfold exponent
  split
  next e s cs =>
    split
    next he =>
      split
      next hs =>
        refine .some he ?_ fun c hc => List.mem_takeWhile_imp hc
        rcases hs with rfl | rfl <;> decide
      · exact .some he (by decide) fun c hc => List.mem_takeWhile_imp hc
    · exact .none
  next e =>
    split
    next he => exact .some he (by decide) (by simp)
    · exact .none
  · exact .none

theorem isFaulty_iff {l : Lexeme} {b : Bool} {stop : Nat}
    (h : l.problems = if b then [⟨.invalidNumber, 0, stop⟩] else []) : l.IsFaulty ↔ b = true := by
  rw [IsFaulty, h]
  cases b <;> simp

theorem isNumeral_radixNumber {r : Radix} (hr : r ≠ .decimal) {lead : List Char}
    (hlead : ∀ cs, Radix.split (lead ++ cs) = (r, cs)) {flags : TokenFlags}
    (hreal : flags.real = false) (cs : List Char) :
    (radixNumber lead flags r.isDigit cs).IsNumeral := by
  have hspelled : IsInteger (radixNumber lead flags r.isDigit cs).text r
      (cs.takeWhile fun c => r.isDigit c || c == '_')
      (integerSuffix (cs.drop (cs.takeWhile fun c => r.isDigit c || c == '_').length)) := by
    refine ⟨?_, fun c hc => ?_, fun h => absurd h hr, isSuffix_integerSuffix _⟩
    · simp only [radixNumber, List.append_assoc, hlead]
    · simpa using List.mem_takeWhile_imp hc
  exact .integer hspelled hreal ((isFaulty_iff rfl).trans List.isEmpty_iff)

theorem isNumeral_decimalNumber {whole cs : List Char}
    (hwhole : ∀ c ∈ whole, Text.isDigitOrSeparator c = true)
    (hlead : beginsWithDigit whole = true ∨ whole = [] ∧ fraction cs ≠ []) :
    (decimalNumber whole cs).IsNumeral := by
  have hfraction := isFraction_fraction cs
  have hexponent := isExponent_exponent (cs.drop (fraction cs).length)
  unfold decimalNumber
  dsimp only
  generalize fraction cs = fraction at *
  generalize exponent (cs.drop fraction.length) = e at *
  obtain ⟨mark, exponent⟩ := e
  dsimp only at *
  generalize cs.drop (fraction.length + mark.length + exponent.length) = rest
  have hreal := isSuffix_realSuffix rest
  generalize (rest.take 1).takeWhile isRealSuffix = suffix at *
  -- a real number has no suffix of an integer, and an integer has nothing of a real number
  by_cases hsome : fraction ≠ [] ∨ mark ≠ [] ∨ suffix ≠ []
  · have hsuffix : (if !suffix.isEmpty then suffix
        else if !fraction.isEmpty || !mark.isEmpty then [] else integerSuffix rest) = suffix := by
      cases suffix <;> simp_all
    rw [hsuffix]
    refine .real ⟨by simp, hwhole, hfraction, hexponent, hreal, hlead, hsome⟩ ?_ ?_
    · simpa [or_assoc] using hsome
    · exact (isFaulty_iff rfl).trans (by simp)
  · simp only [not_or, not_not] at hsome
    obtain ⟨rfl, rfl, rfl⟩ := hsome
    cases hexponent
    have hfirst := hlead.resolve_right fun h => h.2 rfl
    have hspelled := isInteger_decimal hwhole hfirst (isSuffix_integerSuffix rest)
    have hne : whole ≠ [] := by
      rintro rfl
      cases hfirst
    exact .integer (by simpa using hspelled) rfl (by simp [IsFaulty, hne])

theorem isNumeral_number {c : Char} {cs : List Char}
    (hc : (Text.isDigit c || (c == '.' && beginsWithDigit cs)) = true) :
    (number c cs).IsNumeral := by
  have hdecimal (hdot : c ≠ '.') {whole : List Char}
      (hwhole : ∀ d ∈ whole, Text.isDigitOrSeparator d = true) (rest : List Char) :
      (decimalNumber (c :: whole) rest).IsNumeral := by
    have hdigit : Text.isDigit c = true := by simpa [hdot] using hc
    refine isNumeral_decimalNumber ?_ (.inl hdigit)
    exact List.forall_mem_cons.mpr ⟨by simp [Text.isDigitOrSeparator, hdigit], hwhole⟩
  unfold number
  split
  next x r =>
    split
    next h =>
      obtain ⟨rfl, hx⟩ := h
      have hsplit (cs : List Char) : Radix.split (['0', x] ++ cs) = (.hexadecimal, cs) :=
        if_pos ⟨rfl, hx⟩
      exact isNumeral_radixNumber (r := .hexadecimal) (by decide) hsplit rfl r
    next hhexadecimal =>
    split
    next h =>
      obtain ⟨rfl, hx⟩ := h
      have hsplit (cs : List Char) : Radix.split (['0', x] ++ cs) = (.binary, cs) :=
        (if_neg hhexadecimal).trans (if_pos ⟨rfl, hx⟩)
      exact isNumeral_radixNumber (r := .binary) (by decide) hsplit rfl r
    split
    next hdot =>
      subst hdot
      refine isNumeral_decimalNumber (fun _ h => absurd h List.not_mem_nil) (.inr ⟨rfl, ?_⟩)
      have hdigit : beginsWithDigit (x :: r) = true := hc
      simp [fraction, hdigit]
    next hdot => exact hdecimal hdot (fun d hd => List.mem_takeWhile_imp hd) _
  · have hdot : c ≠ '.' := by
      rintro rfl
      cases hc
    exact hdecimal hdot (fun d hd => absurd hd List.not_mem_nil) _

theorem isNumeral_of_read? {cs : List Char} {l : Lexeme} (h : read? cs = some l)
    (hk : l.kind = .numericLiteral) : l.IsNumeral := by
  cases readAs_of_read? h with
  | number hc => exact isNumeral_number hc
  | string | character | verbatimString | verbatimIdentifier => cases hk
  | identifier =>
    unfold identifier at hk
    dsimp only at hk
    split at hk <;> cases hk
  | punctuation h =>
    obtain ⟨p, -, rfl⟩ := Option.map_eq_some_iff.mp h
    cases hk

end Lexeme

/-! ### Numbers without digits -/

namespace Numeral

theorem IsInteger.isDigit_of_mem_suffix {cs digits suffix : List Char} {r : Radix}
    (h : IsInteger cs r digits suffix) : ∀ c ∈ suffix, r.isDigit c = false := by
  intro c hc
  by_contra hd
  rw [Bool.not_eq_false] at hd
  have hhex := Radix.isHexDigit_of_isDigit hd
  rw [isHexDigit_of_mem_suffix h.isSuffix c hc] at hhex
  cases hhex

/-- An integer with no digits is a mark and a suffix. -/
theorem IsInteger.lacksDigits_iff {cs digits suffix : List Char} {r : Radix}
    (h : IsInteger cs r digits suffix) :
    LacksDigits cs ∧ (Radix.split cs).2.head? ≠ some '_' ↔ digits = [] := by
  constructor
  · rintro ⟨hlacks, hhead⟩
    rw [h.split] at hhead
    cases hlacks with
    | ofMark _ hnone =>
      rw [h.split] at hnone
      cases digits with
      | nil => rfl
      | cons d ds =>
        have hd := hnone d (by simp)
        rcases h.isDigits d List.mem_cons_self with hdigit | rfl
        · rw [hdigit] at hd
          cases hd
        · exact absurd rfl hhead
    | @ofExponent front back e hsplit he _ =>
      -- neither the digits nor the suffix have the letter of an exponent
      obtain ⟨rfl, htext⟩ := Prod.mk.inj (h.split.symm.trans hsplit)
      have hletters : ∀ d ∈ ['e', 'E'], (Text.isDigit d = false ∧ d ≠ '_') ∧
          ∀ cs ∈ integerSuffixes, Text.lowerAscii d ∉ cs :=
        List.forall_iff_forall_mem.mp (by decide +kernel)
      obtain ⟨⟨hdigit, hseparator⟩, hsuffix⟩ := hletters e (by simpa using he)
      have hmem : e ∈ digits ++ suffix := htext ▸ by simp
      rcases List.mem_append.mp hmem with hmem | hmem
      · rcases h.isDigits e hmem with hd | hd
        · exact absurd hd (by simp [Radix.isDigit, hdigit])
        · exact absurd hd hseparator
      · exact absurd hmem (notMem_of_suffix h.isSuffix hsuffix)
  · rintro rfl
    have hmark : r ≠ .decimal := fun hr => by cases h.beginsWithDigit hr
    have hsplit : Radix.split cs = (r, suffix) := h.split
    refine ⟨.ofMark (by rw [hsplit]; exact hmark) ?_, ?_⟩
    · rw [hsplit]
      exact h.isDigit_of_mem_suffix
    · rw [hsplit]
      intro hhead
      exact notMem_of_suffix h.isSuffix (by decide) (List.mem_of_head? hhead)

namespace IsReal

variable {cs whole fraction mark exponent suffix : List Char}

theorem head?_ne (h : IsReal cs whole fraction mark exponent suffix) : cs.head? ≠ some '_' := by
  rw [h.text]
  rcases h.beginsWithDigit with hdigit | ⟨rfl, hne⟩
  · cases whole with
    | nil => cases hdigit
    | cons c _ =>
      have hc : Text.isDigit c = true := hdigit
      simp only [List.cons_append, List.head?_cons, ne_eq, Option.some.injEq]
      rintro rfl
      cases hc
  · cases h.isFraction with
    | none => exact absurd rfl hne
    | some => simp

/-- The letter of an exponent stands nowhere but before its digits. -/
theorem split_at_letter (h : IsReal cs whole fraction mark exponent suffix) {front back : List Char}
    {e : Char} (he : e = 'e' ∨ e = 'E') (hcs : cs = front ++ e :: back) :
    ∃ sign, mark = e :: sign ∧ back = sign ++ exponent ++ suffix := by
  have hletters : ∀ d ∈ ['e', 'E'], (Text.isDigitOrSeparator d = false ∧ d ≠ '.') ∧
      (Text.isDigit d = false ∧ ∀ cs ∈ [[], ['+'], ['-']], d ∉ cs) ∧
        ∀ cs ∈ realSuffixes, Text.lowerAscii d ∉ cs :=
    List.forall_iff_forall_mem.mp (by decide +kernel)
  obtain ⟨hfront, ⟨hdigit, hsign⟩, hsuffix⟩ := hletters e (by simpa using he)
  have hbefore := h.notMem_front hfront.1 hfront.2
  have hafter := notMem_of_suffix h.isSuffix hsuffix
  have htext := hcs.symm.trans h.text
  have hexponent := h.isExponent
  cases hexponent with
  | none =>
    have hmem : e ∈ whole ++ fraction ++ ([] ++ [] ++ suffix) := htext ▸ by simp
    rcases List.mem_append.mp hmem with hmem | hmem
    · exact absurd hmem hbefore
    · exact absurd hmem hafter
  | @some _ sign _ _ hs hdigits =>
    have hrest : e ∉ sign ++ exponent ++ suffix := by
      rw [List.mem_append, List.mem_append, not_or, not_or]
      exact ⟨⟨hsign sign hs, Text.notMem_of_forall hdigits hdigit⟩, hafter⟩
    rw [List.cons_append, List.cons_append] at htext
    obtain ⟨-, rfl, rfl⟩ := (List.append_cons_inj_of_notMem hbefore hrest).mp htext.symm
    exact ⟨sign, rfl, rfl⟩

/-- A real number with no digits where some should be has an exponent. -/
theorem lacksDigits_iff (h : IsReal cs whole fraction mark exponent suffix) :
    LacksDigits cs ∧ (Radix.split cs).2.head? ≠ some '_' ↔ mark ≠ [] ∧ exponent = [] := by
  rw [h.split]
  constructor
  · rintro ⟨hlacks, -⟩
    cases hlacks with
    | ofMark hmark _ =>
      rw [h.split] at hmark
      exact absurd rfl hmark
    | ofExponent hsplit he hnone =>
      obtain ⟨-, htext⟩ := Prod.mk.inj (h.split.symm.trans hsplit)
      obtain ⟨sign, rfl, rfl⟩ := h.split_at_letter he htext
      refine ⟨List.cons_ne_nil _ _, List.eq_nil_iff_forall_not_mem.mpr fun c hc => ?_⟩
      have hdigit := h.isExponent.isDigit_of_mem c hc
      rw [hnone c (by simp [hc])] at hdigit
      cases hdigit
  · rintro ⟨hmark, rfl⟩
    refine ⟨?_, h.head?_ne⟩
    have hexponent := h.isExponent
    have htext := h.text
    cases hexponent with
    | none => exact absurd rfl hmark
    | @some e sign _ he hsign _ =>
      rw [List.append_nil, List.cons_append] at htext
      refine .ofExponent (h.split.trans (congrArg _ htext)) he fun c hc => ?_
      rcases List.mem_append.mp hc with hc | hc
      · have hsigns : ∀ cs ∈ [[], ['+'], ['-']], ∀ c ∈ cs, Text.isDigit c = false := by
          simp [Text.isDigit]
        exact hsigns sign hsign c hc
      · have hdigits : ∀ d ∈ Text.hexDigits, Text.isDigit d = true →
            ∀ cs ∈ realSuffixes, Text.lowerAscii d ∉ cs :=
          List.forall_iff_forall_mem.mp (by decide +kernel)
        by_contra hd
        rw [Bool.not_eq_false] at hd
        have hhex := Radix.isHexDigit_of_isDigit (r := .decimal) hd
        exact notMem_of_suffix h.isSuffix (hdigits c (Text.mem_of_isHexDigit hhex) hd) hc

end IsReal

end Numeral

theorem Lexeme.isFaulty_iff_lacksDigits {cs : List Char} {l : Lexeme} (h : read? cs = some l)
    (hk : l.kind = .numericLiteral) :
    l.IsFaulty ↔ LacksDigits l.text ∧ (Radix.split l.text).2.head? ≠ some '_' := by
  cases isNumeral_of_read? h hk with
  | integer h _ hfaulty => exact hfaulty.trans h.lacksDigits_iff.symm
  | real h _ hfaulty => exact hfaulty.trans h.lacksDigits_iff.symm

/-- That a number is invalid is reported where it begins just if it lacks digits, unless a separator
comes after its mark. -/
theorem scan_invalidNumbers {text : String} {t : Token} (ht : t ∈ (scan text).1.toList)
    (hk : t.kind = .numericLiteral) :
    (∃ d ∈ (scan text).2.toList, d.message = .invalidNumber ∧ d.span.start = t.start) ↔
      LacksDigits t.text.toList ∧ (Radix.split t.text.toList).2.head? ≠ some '_' := by
  obtain ⟨l, hl⟩ := exists_shows_of_mem_scan ht (by simp [hk])
  rw [hl.exists_from_iff (P := (· = .invalidNumber)), hl.toList_text (by simp [hk])]
  exact Lexeme.isFaulty_iff_lacksDigits hl.read (hl.kind.symm.trans hk)

/-- An exponent with a sign and a suffix, but no digits. -/
theorem scan_invalidNumbers_exponent :
    let text := "0x_F 2e-f"
    let t : Token := ⟨.numericLiteral, ⟨5, 9⟩, "2e-f", { real := true, suffixed := true }⟩
    t ∈ (scan text).1.toList ∧ t.kind = .numericLiteral ∧
      ∃ d ∈ (scan text).2.toList, d.message = .invalidNumber ∧ d.span.start = t.start := by
  intro text t
  have ht : t ∈ (scan text).1.toList := by
    rw [scan_ofList]
    decide +kernel
  have hsplit : Radix.split t.text.toList = (.decimal, ['2'] ++ 'e' :: ['-', 'f']) := by decide
  refine ⟨ht, rfl, (scan_invalidNumbers ht rfl).mpr ⟨.ofExponent hsplit (.inl rfl) ?_, ?_⟩⟩
  · exact List.forall_iff_forall_mem.mp (by decide)
  · rw [hsplit]
    decide

/-- Separators are taken for the digits that a mark announces. -/
theorem scan_invalidNumbers_separators :
    let text := "0x_"
    let t : Token := ⟨.numericLiteral, ⟨0, 3⟩, "0x_", { hexadecimal := true }⟩
    t ∈ (scan text).1.toList ∧ LacksDigits t.text.toList ∧ (scan text).2 = #[] := by
  intro text t
  refine ⟨?_, .ofMark (by decide) (List.forall_iff_forall_mem.mp (by decide)), ?_⟩
  · rw [scan_ofList]
    decide +kernel
  · rw [scan_ofList]
    decide +kernel

end CSharpFront
