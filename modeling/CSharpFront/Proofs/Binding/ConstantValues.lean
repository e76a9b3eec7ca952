import CSharpFront.Proofs.Binding.NumericTypes
import CSharpFront.Text.Span
/-!
The values of integer constants. A constant is evaluated on machine integers: the mark of a radix is
cut off by its bytes, the digits are read into a number without a sign of 128 bits, which becomes
one with a sign if it fits, and minus signs negate that. Every one of these steps can fail, and the
cut and the negation would end the compiler. Main statement: neither ever fails, and an expression
has the value that its digits and signs denote, if 127 bits hold it.
-/

namespace CSharpFront

namespace Literal

open Text (lowerAscii)

/-! ### Machine integers -/

/-- What would end the compiler in the middle of a constant. -/
inductive Fault
  /-- A text was to be cut outside of it or inside a character. -/
  | cut
  /-- The least number of a type was to be negated, whose negation the type does not hold. -/
  | negation
deriving DecidableEq

/-- What comes after the mark of a radix, which takes two bytes. -/
def cutMark (cs : List Char) : Except Fault (List Char) :=
  if radix cs = 10 then .ok cs
  else match Text.dropBytes? cs 2 with
    | some ds => .ok ds
    | none => .error .cut

/-- The number of 128 bits, without a sign, that digits denote. No text of an integer has a sign
before its digits. -/
def readUnsigned? (radix : Nat) (ds : List Char) : Option Nat :=
  if ds.isEmpty || !ds.all (isDigitOf radix) then none else Text.checkedValue? (2 ^ 128) radix ds

/-- The number of 128 bits with a sign, if one without is not too large for it. -/
def toSigned? (n : Nat) : Option Int := if n < 2 ^ 127 then some n else none

/-- The value of a literal that is an integer without a suffix. -/
def machineConstant? (l : Literal) : Except Fault (Option Int) :=
  let cs := lower l.text
  if l.kind ≠ .numeric ∨ l.flags.real ∨ cs.getLast?.any isIntegerSuffix then .ok none
  else (cutMark cs).map fun ds =>
    (readUnsigned? (radix cs) (ds.filter (· ≠ '_'))).bind toSigned?

/-- The mark of a radix is cut off where it ends. -/
theorem cutMark_eq (cs : List Char) :
    cutMark cs = .ok (if radix cs = 10 then cs else cs.drop 2) := by
  unfold cutMark
  split
  · rfl
  next h =>
    have hcut : Text.dropBytes? cs 2 = some (cs.drop 2) := by
      unfold radix at h
      split at h
      next cs => exact Text.dropBytes?_append ['0', 'x'] cs
      next cs => exact Text.dropBytes?_append ['0', 'b'] cs
      · exact absurd rfl h
    rw [hcut]

theorem radix_pos (cs : List Char) : 0 < radix cs := by
  unfold radix
  split <;> decide

/-- Numbers that fit with a sign fit without one. -/
theorem readUnsigned?_bind_toSigned? (cs : List Char) :
    (readUnsigned? (radix cs) (digits cs)).bind toSigned? = (integer? cs).bind toSigned? := by
  rw [readUnsigned?, integer?]
  split
  · rfl
  · rw [Text.checkedValue?_eq (radix_pos cs) (by decide)]
    generalize Text.digitsValue (radix cs) (digits cs) = n
    by_cases hn : n < 2 ^ 128
    · rw [if_pos hn]
    · have hlarge : ¬n < 2 ^ 127 := by omega
      rw [if_neg hn]
      exact (if_neg hlarge).symm

theorem machineConstant?_eq (l : Literal) :
    l.machineConstant? = .ok (l.constant?.map Int.ofNat) := by
  rw [machineConstant?, constant?]
  split
  · rfl
  · rw [cutMark_eq, Except.map, ← digits, readUnsigned?_bind_toSigned?]
    cases integer? (lower l.text) with
    | none => rfl
    | some n =>
      have hbound : constantBound = 2 ^ 127 := rfl
      rw [Option.bind_some, toSigned?, hbound]
      by_cases hn : n < 2 ^ 127
      · simp only [if_pos hn, Option.map_some, Int.ofNat_eq_natCast]
      · simp only [if_neg hn, Option.map_none]

/-- An integer that ends with a digit or a separator has no suffix. -/
theorem Spells.getLast?_lower {cs : List Char} {n : Nat} (h : Spells cs n) :
    (cs.map lowerAscii).getLast?.any isIntegerSuffix = false := by
  have hne : (Radix.split cs).2 ≠ [] := by
    obtain ⟨c, hc, -⟩ := h.hasDigit
    exact List.ne_nil_of_mem hc
  have hlast : cs.getLast? = (Radix.split cs).2.getLast? := by
    rcases Radix.exists_mark_of_split (Prod.eta (Radix.split cs)).symm with ⟨-, hds⟩ | hmark
    · rw [hds]
    · obtain ⟨mark, hcs, -⟩ := hmark
      conv_lhs => rw [hcs]
      exact List.getLast?_append_of_ne_nil mark hne
  rw [List.getLast?_map, hlast, Option.any_eq_false]
  intro d hd
  obtain ⟨c, hc, rfl⟩ := Option.map_eq_some_iff.mp hd
  rcases h.isDigits c (List.mem_of_getLast? hc) with hdigit | rfl
  · simp [(Radix.digit_lower hdigit).2.2.1]
  · simp [isIntegerSuffix, lowerAscii]

/-- A literal has the value that its text spells, if it is an integer without a suffix and if 127
bits hold the value. -/
theorem constant?_eq_some_iff {l : Literal} {n : Nat} : l.constant? = some n ↔
    (l.kind = .numeric ∧ l.flags.real = false ∧ Spells l.text.toList n) ∧ n < 2 ^ 127 := by
  constructor
  · intro h
    rw [constant?] at h
    obtain ⟨hguard, hread⟩ := Option.ite_none_left_eq_some.mp h
    simp only [not_or, not_not, Bool.not_eq_true] at hguard
    cases hvalue : integer? (lower l.text) with
    | none =>
      rw [hvalue] at hread
      cases hread
    | some m =>
      rw [hvalue] at hread
      obtain ⟨hlt, hm⟩ := Option.ite_none_right_eq_some.mp hread
      cases hm
      exact ⟨⟨hguard.1, hguard.2.1, integer?_lower_eq_some_iff.mp hvalue⟩, hlt⟩
  · rintro ⟨⟨hkind, hreal, hspells⟩, hlt⟩
    have hvalue : integer? (lower l.text) = some n := integer?_lower_eq_some_iff.mpr hspells
    have hsuffix : (lower l.text).getLast?.any isIntegerSuffix = false := hspells.getLast?_lower
    rw [constant?, if_neg (by simp [hkind, hreal, hsuffix]), hvalue]
    exact if_pos hlt

end Literal

/-! ### Signs and parentheses -/

namespace Expr

/-- The value of an integer constant by its digits and signs, however large it is. -/
inductive Denotes : Expr → Int → Prop
  | literal {l : Literal} {n : Nat} (hkind : l.kind = .numeric) (hreal : l.flags.real = false)
      (hspells : Literal.Spells l.text.toList n) : Denotes (.literal l) n
  | parenthesized {e : Expr} {v : Int} (r : Range) (h : Denotes e v) :
      Denotes (.parenthesized r e) v
  | plus {e : Expr} {v : Int} {o : Leaf} (r : Range) (ho : o.kind = .punct .plus)
      (h : Denotes e v) : Denotes (.prefixUnary r o e) v
  | minus {e : Expr} {v : Int} {o : Leaf} (r : Range) (ho : o.kind = .punct .minus)
      (h : Denotes e v) : Denotes (.prefixUnary r o e) (-v)

/-- The negation of a number of 128 bits with a sign. -/
def machineNegation (v : Int) : Except Literal.Fault Int :=
  if v = -2 ^ 127 then .error .negation else .ok (-v)

/-- A number of 128 bits behind an operator, if that is a sign. -/
def machineSign (o : Leaf) (v : Int) : Except Literal.Fault (Option Int) :=
  match o.kind with
  | .punct .minus => (machineNegation v).map some
  | .punct .plus => .ok (some v)
  | _ => .ok none

/-- The value of an integer constant in machine integers. An operand is evaluated before its
operator is looked at. -/
def machineConstant? : Expr → Except Literal.Fault (Option Int)
  | .literal l => l.machineConstant?
  | .parenthesized _ e => e.machineConstant?
  | .prefixUnary _ o e => e.machineConstant?.bind fun v? => v?.elim (.ok none) (machineSign o)
  | _ => .ok none

/-- Behind an operator that is no sign there is no constant. -/
theorem integerConstant?_of_not_sign {o : Leaf} (hminus : o.kind ≠ .punct .minus)
    (hplus : o.kind ≠ .punct .plus) (r : Range) (e : Expr) :
    (prefixUnary r o e).integerConstant? = none := by
  rw [integerConstant?]
  split
  next ho => exact absurd ho hminus
  next ho => exact absurd ho hplus
  · rfl

/-- Signs and parentheses leave the size of a value as it is. -/
theorem integerConstant?_eq_some_iff (e : Expr) (v : Int) :
    e.integerConstant? = some v ↔ e.Denotes v ∧ v.natAbs < 2 ^ 127 := by
  induction e using integerConstant?.induct generalizing v with
  | case1 l =>
    simp only [integerConstant?, Option.map_eq_some_iff, Literal.constant?_eq_some_iff]
    constructor
    · rintro ⟨n, ⟨⟨hkind, hreal, hspells⟩, hlt⟩, rfl⟩
      exact ⟨.literal hkind hreal hspells, hlt⟩
    · rintro ⟨⟨hkind, hreal, hspells⟩, hlt⟩
      exact ⟨_, ⟨⟨hkind, hreal, hspells⟩, hlt⟩, rfl⟩
  | case2 r e ih =>
    rw [integerConstant?, ih]
    refine and_congr_left fun _ => ⟨.parenthesized r, fun hdenotes => ?_⟩
    cases hdenotes with
    | parenthesized _ h => exact h
  | case3 r o e ho ih =>
    simp only [integerConstant?, ho, Option.map_eq_some_iff]
    constructor
    · rintro ⟨w, hw, rfl⟩
      obtain ⟨hdenotes, hlt⟩ := (ih w).mp hw
      exact ⟨.minus r ho hdenotes, by rwa [Int.natAbs_neg]⟩
    · rintro ⟨hdenotes, hlt⟩
      cases hdenotes with
      | plus _ hplus => simp [ho] at hplus
      | minus _ _ h => exact ⟨_, (ih _).mpr ⟨h, by rwa [Int.natAbs_neg] at hlt⟩, rfl⟩
  | case4 r o e ho ih =>
    simp only [integerConstant?, ho, ih]
    refine and_congr_left fun _ => ⟨.plus r ho, fun hdenotes => ?_⟩
    cases hdenotes with
    | plus _ _ h => exact h
    | minus _ hminus => simp [ho] at hminus
  | case5 r o e hminus hplus =>
    rw [integerConstant?_of_not_sign hminus hplus]
    refine iff_of_false (Option.some_ne_none v).symm fun hdenotes => ?_
    cases hdenotes.1 with
    | plus _ ho => exact hplus ho
    | minus _ ho => exact hminus ho
  | case6 e hliteral hparenthesized hunary =>
    rw [integerConstant?.eq_4 e hliteral hparenthesized hunary]
    refine iff_of_false (Option.some_ne_none v).symm fun hdenotes => ?_
    cases hdenotes.1 with
    | literal => exact hliteral _ rfl
    | parenthesized => exact hparenthesized _ _ rfl
    | plus | minus => exact hunary _ _ _ rfl

/-- The least number has no constant, so that the negation of none is too large. -/
theorem machineNegation_eq {e : Expr} {v : Int} (h : e.integerConstant? = some v) :
    machineNegation v = .ok (-v) := by
  have hlt := ((integerConstant?_eq_some_iff e v).mp h).2
  exact if_neg (by omega)

theorem machineSign_eq {e : Expr} {v : Int} (h : e.integerConstant? = some v) (r : Range)
    (o : Leaf) : machineSign o v = .ok (prefixUnary r o e).integerConstant? := by
  by_cases hminus : o.kind = .punct .minus
  · simp [machineSign, integerConstant?, hminus, machineNegation_eq h, h, Except.map]
  by_cases hplus : o.kind = .punct .plus
  · simp [machineSign, integerConstant?, hplus, h]
  · rw [integerConstant?_of_not_sign hminus hplus, machineSign]
    split
    next ho => exact absurd ho hminus
    next ho => exact absurd ho hplus
    · rfl

theorem machineConstant?_eq (e : Expr) : e.machineConstant? = .ok e.integerConstant? := by
  fun_induction machineConstant? e with
  | case1 l => exact l.machineConstant?_eq
  | case2 r e ih => exact ih
  | case3 r o e ih =>
    rw [ih, Except.bind]
    cases hv : e.integerConstant? with
    | none =>
      rw [Option.elim_none, integerConstant?, hv]
      split <;> rfl
    | some v => exact machineSign_eq hv r o
  | case4 e hliteral hparenthesized hunary =>
    rw [integerConstant?]
    · exact hliteral
    · exact hparenthesized
    · exact hunary

/-- The value of a constant is exact: no cut or negation fails, in whatever expression, and the
value found is the one that digits and signs denote, which 127 bits hold. -/
theorem constants_exact (e : Expr) :
    e.machineConstant? = .ok e.integerConstant? ∧
      ∀ v, e.integerConstant? = some v ↔ e.Denotes v ∧ v.natAbs < 2 ^ 127 :=
  ⟨machineConstant?_eq e, integerConstant?_eq_some_iff e⟩

end Expr

end CSharpFront
