import CSharpFront.Text.Decimal
import Mathlib.Data.Nat.Digits.Defs
/-!
What the characters of a text are. A decimal digit is one in every radix from ten on and in either
case, and the digits of a number denote that number; a machine word takes them in one after the
other and finds that number if it is small enough. A plain text has blanks, letters, digits and
signs, with nothing in them that ends a line. Line feeds are counted; those of texts that are put
together add up.
-/

namespace CSharpFront.Text

/-! ### Decimal digits -/

theorem isDigit_of_isDigit {c : Char} (h : c.isDigit = true) : isDigit c = true := by
  simpa [isDigit, Char.isDigit, Char.le_def] using h

theorem digitsValue_of_isDigit {cs : List Char} (h : ∀ c ∈ cs, isDigit c = true) :
    digitsValue 10 cs = Nat.ofDigitChars 10 cs 0 := by
  rw [digitsValue, Nat.ofDigitChars_eq_foldl]
  generalize 0 = n
  induction cs generalizing n with
  | nil => rfl
  | cons c cs ih =>
    obtain ⟨hc, hcs⟩ := List.forall_mem_cons.mp h
    rw [List.foldl_cons, List.foldl_cons, ih hcs, digitValue, if_pos hc, Nat.mul_comm]

theorem lowerAscii_of_isDigit {c : Char} (h : isDigit c = true) : lowerAscii c = c := by
  refine if_neg fun hupper => ?_
  simp only [isDigit, Char.le_def, UInt32.le_iff_toNat_le, Bool.and_eq_true,
    decide_eq_true_eq] at h hupper
  exact absurd (hupper.1.trans h.2) (by decide)

theorem isHexDigit_of_isDigit {c : Char} (h : isDigit c = true) : isHexDigit c = true := by
  simp [isHexDigit, h]

theorem digitValue_lt_of_isDigit {c : Char} (h : isDigit c = true) : digitValue c < 10 := by
  rw [digitValue, if_pos h]
  simp only [isDigit, Char.le_def, UInt32.le_iff_toNat_le, Bool.and_eq_true,
    decide_eq_true_eq] at h
  have hupper : c.toNat ≤ 57 := h.2
  have hzero : '0'.toNat = 48 := rfl
  omega

/-- The digits of a number, the most significant first. -/
abbrev decimal (n : Nat) : List Char := Nat.toDigits 10 n

theorem toList_repr (n : Nat) : n.repr.toList = decimal n := by
  rw [Nat.repr_eq_ofList_toDigits, String.toList_ofList]

theorem isDigit_of_mem_decimal {n : Nat} {c : Char} (h : c ∈ decimal n) : isDigit c = true :=
  isDigit_of_isDigit (Nat.isDigit_of_mem_toDigits (by decide) (by decide) h)

theorem digitsValue_decimal (n : Nat) : digitsValue 10 (decimal n) = n := by
  rw [digitsValue_of_isDigit fun c => isDigit_of_mem_decimal, Nat.ofDigitChars_ten_toDigits]

/-! ### Characters in lower case -/

theorem eq_or_of_lowerAscii {c d : Char} (h : lowerAscii c = d) :
    c = d ∨ c = Char.ofNat (d.toNat - 32) := by
  unfold lowerAscii at h
  split at h
  next hupper =>
    have hupper' : ∀ n < 91, Char.ofNat n = Char.ofNat ((Char.ofNat (n + 32)).toNat - 32) := by
      decide +kernel
    have hlt : c.toNat ≤ 90 := by
      simp only [Char.le_def, UInt32.le_iff_toNat_le, Bool.and_eq_true, decide_eq_true_eq] at hupper
      exact hupper.2
    have hc := hupper' c.toNat (by omega)
    rw [h, Char.ofNat_toNat] at hc
    exact .inr hc
  · exact .inl h

/-- A letter in lower case is in either case before. -/
theorem lowerAscii_eq_iff {c d : Char} (hd : lowerAscii d = d)
    (hupper : lowerAscii (Char.ofNat (d.toNat - 32)) = d) :
    lowerAscii c = d ↔ c = d ∨ c = Char.ofNat (d.toNat - 32) := by
  refine ⟨eq_or_of_lowerAscii, ?_⟩
  rintro (rfl | rfl)
  · exact hd
  · exact hupper

/-- What is no letter is itself in lower case. -/
theorem lowerAscii_eq_iff_of_ne {c d : Char} (hd : lowerAscii d = d)
    (hupper : lowerAscii (Char.ofNat (d.toNat - 32)) ≠ d) : lowerAscii c = d ↔ c = d := by
  refine ⟨fun h => (eq_or_of_lowerAscii h).resolve_right ?_, ?_⟩
  · rintro rfl
    exact hupper h
  · rintro rfl
    exact hd

/-! ### Digits in machine words -/

/-- A number with one more digit behind it, if it stays below a bound. -/
def pushDigit? (bound radix n : Nat) (c : Char) : Option Nat :=
  if n * radix + digitValue c < bound then some (n * radix + digitValue c) else none

/-- The value of digits where no number on the way may reach a bound. -/
def checkedValue? (bound radix : Nat) (cs : List Char) : Option Nat :=
  cs.foldlM (pushDigit? bound radix) 0

/-- More digits do not make a number smaller. -/
theorem le_foldl_digits {radix : Nat} (hradix : 0 < radix) (cs : List Char) (n : Nat) :
    n ≤ cs.foldl (fun n c => n * radix + digitValue c) n := by
  induction cs generalizing n with
  | nil => exact n.le_refl
  | cons c cs ih =>
    have hstep : n ≤ n * radix + digitValue c :=
      (Nat.le_mul_of_pos_right n hradix).trans (Nat.le_add_right _ _)
    exact hstep.trans (ih _)

theorem foldlM_pushDigit? {bound radix : Nat} (hradix : 0 < radix) (cs : List Char) {n : Nat}
    (hn : n < bound) : cs.foldlM (pushDigit? bound radix) n =
      if cs.foldl (fun n c => n * radix + digitValue c) n < bound then
        some (cs.foldl (fun n c => n * radix + digitValue c) n) else none := by
  induction cs generalizing n with
  | nil => exact (if_pos hn).symm
  | cons c cs ih =>
    rw [List.foldlM_cons, List.foldl_cons, pushDigit?]
    by_cases hnext : n * radix + digitValue c < bound
    · rw [if_pos hnext]
      exact ih hnext
    · have hle := le_foldl_digits hradix cs (n * radix + digitValue c)
      rw [if_neg hnext, if_neg (by omega)]
      rfl

/-- The last number is the largest one on the way, so that only it can reach the bound. -/
theorem checkedValue?_eq {bound radix : Nat} (hradix : 0 < radix) (hbound : 0 < bound)
    (cs : List Char) : checkedValue? bound radix cs =
      if digitsValue radix cs < bound then some (digitsValue radix cs) else none :=
  foldlM_pushDigit? hradix cs hbound

/-! ### Plain texts -/

def isPlain (s : String) : Bool := s.toList.all fun c => ' ' ≤ c && c ≤ '~'

/-- A text whose characters are known is read without its encoding. -/
theorem isPlain_of_eq {s : String} {cs : List Char} (h : s = String.ofList cs)
    (hcs : (cs.all fun c => ' ' ≤ c && c ≤ '~') = true) : isPlain s = true := by
  rw [h, isPlain, String.toList_ofList, hcs]

/-- How many line feeds a text has. -/
def lineFeeds (s : String) : Nat := s.toList.count '\n'

theorem lineFeed_notMem_of_isPlain {s : String} (h : isPlain s = true) : '\n' ∉ s.toList := by
  intro hmem
  have hplain := List.all_eq_true.mp h '\n' hmem
  simp at hplain

theorem lineFeeds_eq_zero {s : String} (h : '\n' ∉ s.toList) : lineFeeds s = 0 :=
  List.count_eq_zero.mpr h

theorem lineFeeds_of_isPlain {s : String} (h : isPlain s = true) : lineFeeds s = 0 :=
  lineFeeds_eq_zero (lineFeed_notMem_of_isPlain h)

@[simp] theorem lineFeeds_append (s t : String) :
    lineFeeds (s ++ t) = lineFeeds s + lineFeeds t := by
  simp [lineFeeds]

/-- Decimal digits are plain. -/
theorem lineFeeds_toString (n : Nat) : lineFeeds (toString n) = 0 := by
  refine lineFeeds_eq_zero fun hmem => ?_
  have hdigits : '\n' ∈ Nat.toDigits 10 n := by simpa using hmem
  have hdigit := Nat.isDigit_of_mem_toDigits (by decide) (by decide) hdigits
  simp at hdigit

end CSharpFront.Text
