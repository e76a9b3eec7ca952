import CSharpFront.Binding.Expressions
import CSharpFront.Proofs.Text.Characters
import CSharpFront.Proofs.Types.Widening
/-!
Integer constants and the types that hold them. A number in decimal digits is of the first type
among `int`, `uint`, `long` and `ulong` that holds it. An `int` is assigned wherever its value fits,
and any other number where its type widens to the target.

Three kinds of values are not assigned to a type that holds them. The least values of `int` and of
`long` have digits that are too large for the type, and the minus sign before them does not lead
back to it. The values of `ulong` that `long` holds and `uint` does not are of type `long`.
-/

namespace CSharpFront

/-! ### Literals in decimal digits -/

namespace Literal

open Text (decimal isDigit_of_mem_decimal)

theorem lower_repr (n : Nat) : lower n.repr = decimal n := by
  rw [lower, Text.toList_repr]
  refine (List.map_congr_left fun c hc => ?_).trans (List.map_id _)
  exact Text.lowerAscii_of_isDigit (isDigit_of_mem_decimal hc)

variable {cs : List Char}

/-- Digits have no mark of another radix before them. -/
theorem radix_of_isDigit (h : ∀ c ∈ cs, Text.isDigit c = true) : radix cs = 10 := by
  unfold radix
  split
  · exact absurd (h 'x' (by simp)) (by decide)
  · exact absurd (h 'b' (by simp)) (by decide)
  · rfl

theorem digits_of_isDigit (h : ∀ c ∈ cs, Text.isDigit c = true) : digits cs = cs := by
  rw [digits, if_pos (radix_of_isDigit h), List.filter_eq_self]
  intro c hc
  have hd := h c hc
  rw [decide_eq_true_eq]
  rintro rfl
  exact absurd hd (by decide)

theorem integer?_decimal (n : Nat) : integer? (decimal n) = some n := by
  have hdigits : ∀ c ∈ decimal n, Text.isDigit c = true := fun c => isDigit_of_mem_decimal
  have hnonempty : (decimal n).isEmpty = false :=
    List.isEmpty_eq_false_iff.mpr Nat.toDigits_ne_nil
  have hall : (decimal n).all (isDigitOf 10) = true := by
    refine List.all_eq_true.mpr fun c hc => ?_
    simp [isDigitOf, Text.isHexDigit_of_isDigit (hdigits c hc),
      Text.digitValue_lt_of_isDigit (hdigits c hc)]
  simp [integer?, digits_of_isDigit hdigits, radix_of_isDigit hdigits, hnonempty, hall,
    Text.digitsValue_decimal]

/-- No suffix ends with a digit. -/
theorem getLast?_ne_of_isDigit (h : ∀ c ∈ cs, Text.isDigit c = true) {d : Char}
    (hd : Text.isDigit d = false) : cs.getLast? ≠ some d := by
  intro hlast
  rw [h d (List.mem_of_getLast? hlast)] at hd
  cases hd

theorem isIntegerSuffix_of_isDigit {c : Char} (h : Text.isDigit c = true) :
    isIntegerSuffix c = false := by
  by_contra hs
  simp only [isIntegerSuffix, Bool.not_eq_false, Bool.or_eq_true, beq_iff_eq] at hs
  rcases hs with rfl | rfl <;> exact absurd h (by decide)

theorem splitSuffix_of_isDigit (h : ∀ c ∈ cs, Text.isDigit c = true) :
    splitSuffix cs = (cs, []) := by
  have hnone : cs.reverse.takeWhile isIntegerSuffix = [] := by
    cases hreverse : cs.reverse with
    | nil => rfl
    | cons c ds =>
      have hc : c ∈ cs := List.mem_reverse.mp (hreverse ▸ List.mem_cons_self)
      rw [List.takeWhile_cons, isIntegerSuffix_of_isDigit (h c hc)]
      rfl
  simp [splitSuffix, hnone]

/-- The type of a number without a suffix. -/
def typeOf (n : Nat) : SpecialType := firstHolding (some n) [.int, .uint, .long, .ulong]

theorem numericType_repr (n : Nat) {flags : TokenFlags} (hreal : flags.real = false) :
    numericType n.repr flags = typeOf n := by
  have hdigits : ∀ c ∈ decimal n, Text.isDigit c = true := fun c => isDigit_of_mem_decimal
  have hlast (d : Char) (hd : Text.isDigit d = false) := getLast?_ne_of_isDigit hdigits hd
  simp [numericType, lower_repr, radix_of_isDigit hdigits, hlast 'f' (by decide),
    hlast 'm' (by decide), hlast 'd' (by decide), hreal, integerType,
    splitSuffix_of_isDigit hdigits, integer?_decimal, typeOf]

theorem constant?_repr {n : Nat} (hn : n < constantBound) (r : Range) {flags : TokenFlags}
    (hreal : flags.real = false) : constant? ⟨r, .numeric, n.repr, flags⟩ = some n := by
  have hdigits : ∀ c ∈ decimal n, Text.isDigit c = true := fun c => isDigit_of_mem_decimal
  have hsuffix : (decimal n).getLast?.any isIntegerSuffix = false := by
    rw [Option.any_eq_false]
    intro c hc
    simp [isIntegerSuffix_of_isDigit (hdigits c (List.mem_of_getLast? hc))]
  simp [constant?, lower_repr, hreal, hsuffix, integer?_decimal, hn]

theorem typeOf_cases {n : Nat} (h : n ≤ 18446744073709551615) :
    n ≤ 2147483647 ∧ typeOf n = .int ∨
      2147483648 ≤ n ∧ n ≤ 4294967295 ∧ typeOf n = .uint ∨
      4294967296 ≤ n ∧ n ≤ 9223372036854775807 ∧ typeOf n = .long ∨
      9223372036854775808 ≤ n ∧ typeOf n = .ulong := by
  have hcons (s : SpecialType) (ss : List SpecialType) : firstHolding (some n) (s :: ss) =
      if s.holds n then s else firstHolding (some n) ss := by
    cases hs : s.holds n <;> simp [firstHolding, hs]
  have hlast : firstHolding (some n) [] = .ulong := rfl
  simp only [typeOf, hcons, hlast, SpecialType.holds, SpecialType.range?, Bool.and_eq_true,
    decide_eq_true_eq]
  split_ifs <;> simp <;> omega

end Literal

/-! ### Constants in their places -/

/-- The integer that an expression writes in decimal digits, with a minus sign before them if it is
negative. -/
inductive Expr.Writes : Expr → Int → Prop
  | digits (r : Range) (n : Nat) {flags : TokenFlags} (hreal : flags.real = false) :
      Writes (.literal ⟨r, .numeric, n.repr, flags⟩) (.ofNat n)
  | negated (r s t : Range) (n : Nat) {flags : TokenFlags} (hreal : flags.real = false) :
      Writes (.prefixUnary r ⟨.punct .minus, s, false⟩ (.literal ⟨t, .numeric, n.succ.repr, flags⟩))
        (.negSucc n)

/-- The type of an integer as it is written. -/
def Ty.ofWritten : Int → Ty
  | .ofNat n => .special (Literal.typeOf n)
  | .negSucc n => .ofUnary (.punct .minus) (.special (Literal.typeOf n.succ))

/-- Whether a value of a type is written as a number of another type that does not convert to it. -/
def SpecialType.misfits (s : SpecialType) (n : Int) : Bool :=
  match s with
  | .int => n == -2147483648
  | .long => n == -9223372036854775808
  | .ulong => 4294967296 ≤ n && n ≤ 9223372036854775807
  | _ => false

theorem Expr.Writes.integerConstant? {e : Expr} {n : Int} (h : e.Writes n)
    (hn : n.natAbs < Literal.constantBound) : e.integerConstant? = some n := by
  cases h with
  | @digits r n flags hreal =>
    have hconstant : Literal.constant? ⟨r, .numeric, n.repr, flags⟩ = some n :=
      Literal.constant?_repr hn r hreal
    rw [Expr.integerConstant?, hconstant, Option.map_some]
  | @negated r s t n flags hreal =>
    have hconstant : Literal.constant? ⟨t, .numeric, n.succ.repr, flags⟩ = some n.succ :=
      Literal.constant?_repr hn t hreal
    simp only [Expr.integerConstant?, hconstant, Option.map_some, Int.ofNat_eq_natCast,
      Int.negSucc_eq]
    rfl

theorem SpecialType.bounds_of_holds {s : SpecialType} {n : Int} (h : s.holds n = true) :
    -9223372036854775808 ≤ n ∧ n ≤ 18446744073709551615 := by
  cases s <;> simp [holds, range?] at h <;> omega

theorem SpecialType.natAbs_lt_of_holds {s : SpecialType} {n : Int} (h : s.holds n = true) :
    n.natAbs < Literal.constantBound := by
  have hbounds := bounds_of_holds h
  rw [Literal.constantBound]
  omega

namespace SpecialType

variable {s : SpecialType} {n : Int}

/-! ### Which types hold what does not fit into `int` -/

theorem eq_of_holds_uint (h : s.holds n = true) (hn : 2147483648 ≤ n) :
    s = uint ∨ s = long ∨ s = ulong := by
  cases s <;> simp [holds, range?] at h ⊢ <;> omega

theorem eq_of_holds_long (h : s.holds n = true) (hn : 4294967296 ≤ n) : s = long ∨ s = ulong := by
  cases s <;> simp [holds, range?] at h ⊢ <;> omega

theorem eq_of_holds_ulong (h : s.holds n = true) (hn : 9223372036854775808 ≤ n) : s = ulong := by
  cases s <;> simp [holds, range?] at h ⊢ <;> omega

theorem eq_of_holds_negative (h : s.holds n = true) (hn : n ≤ -2147483648) :
    s = int ∧ n = -2147483648 ∨ s = long := by
  cases s <;> simp [holds, range?] at h ⊢ <;> omega

theorem isIntegral_of_holds (h : s.holds n = true) : s.isIntegral = true := by
  cases s <;> simp [holds, range?, isIntegral] at h ⊢

theorem isNumberLike_of_holds (h : s.holds n = true) : s.isNumberLike = true := by
  cases s <;> simp [holds, range?, isNumberLike, isNumeric] at h ⊢

theorem misfits_of_lt (hlow : -2147483648 < n) (hhigh : n < 4294967296) : s.misfits n = false := by
  cases s <;> simp [misfits] <;> omega

/-- A number that converts to a type by itself unless the value is one of those that do not fit. -/
structure SuitsAs (a s : SpecialType) (n : Int) : Prop where
  isNumberLike : a.isNumberLike = true
  isImplicit : (a.conversion s).isImplicit = !s.misfits n

variable {a : SpecialType}

theorem SuitsAs.of_fits (ha : a.isNumberLike = true) (hc : (a.conversion s).isImplicit = true)
    (hn : s.misfits n = false) : a.SuitsAs s n :=
  ⟨ha, by rw [hc, hn]; rfl⟩

theorem SuitsAs.of_misfits (ha : a.isNumberLike = true) (hc : (a.conversion s).isImplicit = false)
    (hn : s.misfits n = true) : a.SuitsAs s n :=
  ⟨ha, by rw [hc, hn]; rfl⟩

end SpecialType

namespace Ty

variable {s : SpecialType}

theorem exists_ofWritten_ofNat {m : Nat} (h : s.holds m = true) :
    ∃ a, ofWritten (.ofNat m) = .special a ∧
      (a = .int ∧ s.misfits m = false ∨ a ≠ .int ∧ a.SuitsAs s m) := by
  have hhigh := (SpecialType.bounds_of_holds h).2
  obtain ⟨hm, ht⟩ | ⟨hm, hm', ht⟩ | ⟨hm, hm', ht⟩ | ⟨hm, ht⟩ :=
    Literal.typeOf_cases (n := m) (by omega)
  · have hfits : s.misfits m = false := SpecialType.misfits_of_lt (by omega) (by omega)
    exact ⟨.int, congrArg Ty.special ht, .inl ⟨rfl, hfits⟩⟩
  · have hfits : s.misfits m = false := SpecialType.misfits_of_lt (by omega) (by omega)
    refine ⟨.uint, congrArg Ty.special ht, .inr ⟨by decide, .of_fits rfl ?_ hfits⟩⟩
    rcases SpecialType.eq_of_holds_uint h (by omega) with rfl | rfl | rfl <;> rfl
  · refine ⟨.long, congrArg Ty.special ht, .inr ⟨by decide, ?_⟩⟩
    rcases SpecialType.eq_of_holds_long h (by omega) with rfl | rfl
    · exact .of_fits rfl rfl (by simp [SpecialType.misfits])
    · exact .of_misfits rfl rfl (by simp [SpecialType.misfits]; omega)
  · obtain rfl := SpecialType.eq_of_holds_ulong h (by omega)
    refine ⟨.ulong, congrArg Ty.special ht, .inr ⟨by decide, ?_⟩⟩
    exact .of_fits rfl rfl (by simp [SpecialType.misfits]; omega)

/-- The minus sign makes a `long` of a `uint`, and leaves any other number as it is. -/
theorem exists_ofWritten_negSucc {m : Nat} (h : s.holds (.negSucc m) = true) :
    ∃ a, ofWritten (.negSucc m) = .special a ∧
      (a = .int ∧ s.misfits (.negSucc m) = false ∨ a ≠ .int ∧ a.SuitsAs s (.negSucc m)) := by
  have hlow := (SpecialType.bounds_of_holds h).1
  obtain ⟨hm, ht⟩ | ⟨hm, hm', ht⟩ | ⟨hm, hm', ht⟩ | ⟨hm, ht⟩ :=
    Literal.typeOf_cases (n := m + 1) (by omega)
  · have hfits : s.misfits (.negSucc m) = false := SpecialType.misfits_of_lt (by omega) (by omega)
    exact ⟨.int, by rw [ofWritten, ht]; rfl, .inl ⟨rfl, hfits⟩⟩
  · refine ⟨.long, by rw [ofWritten, ht]; rfl, .inr ⟨by decide, ?_⟩⟩
    rcases SpecialType.eq_of_holds_negative h (by omega) with ⟨rfl, hn⟩ | rfl
    · exact .of_misfits rfl rfl (by simp [SpecialType.misfits, hn])
    · exact .of_fits rfl rfl (by simp [SpecialType.misfits]; omega)
  · obtain ⟨-, hn⟩ | rfl := SpecialType.eq_of_holds_negative h (by omega)
    · omega
    · refine ⟨.long, by rw [ofWritten, ht]; rfl, .inr ⟨by decide, ?_⟩⟩
      exact .of_fits rfl rfl (by simp [SpecialType.misfits]; omega)
  · obtain ⟨-, hn⟩ | rfl := SpecialType.eq_of_holds_negative h (by omega)
    · omega
    · refine ⟨.ulong, by rw [ofWritten, ht]; rfl, .inr ⟨by decide, ?_⟩⟩
      exact .of_misfits rfl rfl (by simp [SpecialType.misfits]; omega)

/-- What a type holds is written as a constant of type `int`, or as a number whose type converts to
it by itself unless the value is one of those that do not fit. -/
theorem exists_ofWritten {n : Int} (h : s.holds n = true) :
    ∃ a, ofWritten n = .special a ∧
      (a = .int ∧ s.misfits n = false ∨ a ≠ .int ∧ a.SuitsAs s n) :=
  match n with
  | .ofNat _ => exists_ofWritten_ofNat h
  | .negSucc _ => exists_ofWritten_negSucc h

theorem standardConversion_special {a s : SpecialType} (ha : a.isNumberLike = true)
    (hs : s.isNumberLike = true) :
    (Ty.special a).standardConversion (.special s) = a.conversion s := by
  have hne : ∀ u : SpecialType, u.isNumberLike = true → u ≠ .object ∧ u ≠ .void := by
    intro u hu
    constructor <;> (rintro rfl; cases hu)
  by_cases heq : a = s
  · rw [heq, standardConversion_self, SpecialType.conversion, if_pos rfl]
  · unfold standardConversion
    simp [heq, isError, hne a ha, hne s hs]

/-- Where a text declares no conversions, a number is complained about if it needs a cast. -/
theorem isNone_mismatch?_special {a s : SpecialType} {n : Int} (hs : s.isNumberLike = true)
    (h : a.SuitsAs s n) (span : Span) :
    (mismatch? [] span (.special a) (.special s)).isNone = !s.misfits n := by
  have hconversion : (Ty.special a).conversion [] (.special s) = a.conversion s := by
    simp [conversion, standardConversion_special h.isNumberLike hs]
  rw [mismatch?, hconversion, if_neg (by simp [isError]), ← h.isImplicit]
  cases a.conversion s <;> rfl

end Ty

namespace Binding

variable {c : Context} {e : Expr} {n : Int} {s : SpecialType}

/-- The binder gives a written integer its type and reports nothing. -/
theorem expression_writes (h : e.Writes n) (expected? : Option Ty) (st : State) :
    ∃ st', expression c expected? e st = (.value (.ofWritten n), st') ∧
      st'.diagnostics = st.diagnostics := by
  cases h with
  | digits r n hreal =>
    refine ⟨st, ?_, rfl⟩
    rw [Ty.ofWritten, ← Literal.numericType_repr n hreal, expression]
    rfl
  | @negated r u t n flags hreal =>
    refine ⟨{ st with listing := st.listing.add (.ofWritten (.negSucc n)) }, ?_, rfl⟩
    rw [Ty.ofWritten, ← Literal.numericType_repr n.succ hreal, expression, expression]
    rfl

theorem complain_apply (d? : Option Diagnostic) (st : State) :
    complain d? st = ((), { st with diagnostics := st.diagnostics ++ d?.toArray }) := by
  cases d? with
  | none => simp [complain, Option.toArray]; rfl
  | some d => simp [complain, Option.toArray]; rfl

/-- A variable of a type that holds an integer takes it as its value without complaint, unless the
integer is one of those that do not fit. -/
theorem initialValue_writes (h : e.Writes n) (hs : s.holds n = true) (hc : c.conversions = [])
    (st : State) : ∃ (st' : State) (complaint? : Option Diagnostic),
      initialValue c (.special s) e st = ((), st') ∧
        st'.diagnostics = st.diagnostics ++ complaint?.toArray ∧
        complaint?.isNone = !s.misfits n := by
  obtain ⟨st', hrun, hdiagnostics⟩ := expression_writes (c := c) h (some (.special s)) st
  obtain ⟨a, ha, hsuits⟩ := Ty.exists_ofWritten hs
  have hinitializer : e.isInitializer = false := by cases h <;> rfl
  have hassigns : initialValue c (.special s) e st = c.assign e (.special a) (.special s) st' := by
    have hbind : initialValue c (.special s) e st =
        ((fun t => if e.isInitializer then pure () else c.assign e t (.special s))
          (expression c (some (.special s)) e st).1.valueType)
          (expression c (some (.special s)) e st).2 := rfl
    rw [hbind, hrun, hinitializer, ha]
    rfl
  rcases hsuits with ⟨rfl, hfits⟩ | ⟨hint, hsuits⟩
  · have hconstant := h.integerConstant? (SpecialType.natAbs_lt_of_holds hs)
    have hheld : Context.isConstantOf e (.special .int) (.special s) = true := by
      simp [Context.isConstantOf, hconstant, Ty.unlifted, Ty.underlying?, Ty.special?, hs]
    rw [Context.assign, if_pos hheld] at hassigns
    exact ⟨st', none, hassigns, by simp [hdiagnostics], by rw [hfits]; rfl⟩
  · have hother : Context.isConstantOf e (.special a) (.special s) = false := by
      simp [Context.isConstantOf, hint]
    have hnone := Ty.isNone_mismatch?_special (SpecialType.isNumberLike_of_holds hs) hsuits e.span
    rw [Context.assign, if_neg (by simp [hother]), hc] at hassigns
    rw [complain_apply] at hassigns
    exact ⟨_, _, hassigns, by rw [hdiagnostics], hnone⟩

end Binding

end CSharpFront
