import CSharpFront.Proofs.Types.Listing
/-!
The order in which types widen. One type widens to another by a few rules, and between types that
are built well the standard conversion is implicit exactly where they lead. The rules can be followed
one after another, and never lead back.
-/

namespace CSharpFront

/-! ### Numbers -/

namespace SpecialType

theorem mem_widenings_trans {s t u : SpecialType} (hst : t ∈ s.widenings) (htu : u ∈ t.widenings) :
    u ∈ s.widenings := by
  have hall : ∀ t ∈ s.widenings, ∀ u ∈ t.widenings, u ∈ s.widenings := by cases s <;> decide
  exact hall t hst u htu

theorem not_mem_widenings_of_mem {s t : SpecialType} (h : t ∈ s.widenings) : s ∉ t.widenings := by
  have hall : ∀ t ∈ s.widenings, s ∉ t.widenings := by cases s <;> decide
  exact hall t h

theorem isNumberLike_of_mem_widenings {s t : SpecialType} (h : t ∈ s.widenings) :
    s.isNumberLike = true ∧ t.isNumberLike = true := by
  have hall : ∀ t ∈ s.widenings, s.isNumberLike = true ∧ t.isNumberLike = true := by
    cases s <;> decide
  exact hall t h

theorem conversion_isImplicit_iff {s t : SpecialType} :
    (s.conversion t).isImplicit = true ↔ s = t ∨ t ∈ s.widenings := by
  unfold conversion
  by_cases he : s = t
  · simp [he, Conversion.isImplicit]
  by_cases hw : t ∈ s.widenings
  · have hn := isNumberLike_of_mem_widenings hw
    simp [he, hw, hn, Conversion.isImplicit]
  · simp only [he, hw, if_false, List.contains_iff_mem, or_false, iff_false]
    split <;> simp [Conversion.isImplicit]

end SpecialType

namespace Ty

theorem isReferenceType_of_isNumberLike {s : SpecialType} (h : s.isNumberLike = true) :
    (Ty.special s).isReferenceType = false := by
  cases s <;> simp_all [isReferenceType, SpecialType.isNumberLike, SpecialType.isNumeric]

/-- Of the predefined types only strings can be enumerated. -/
theorem eq_string_of_element? {s : SpecialType} {e : Ty} (h : (Ty.special s).element? = some e) :
    s = .string ∧ e = .char := by
  cases s <;> simp_all [element?]

theorem element?_of_isNumberLike {s : SpecialType} (h : s.isNumberLike = true) :
    (Ty.special s).element? = none := by
  cases s <;> simp_all [element?, SpecialType.isNumberLike, SpecialType.isNumeric]

theorem isError_of_element? {t e : Ty} (h : t.element? = some e) : t.isError = false := by
  cases t <;> simp_all [element?, isError]

/-- One type widens to another: to itself, to `object`, with null added, or with what it holds
widened in a place that is only read. -/
inductive Widens : Ty → Ty → Prop
  | refl (t : Ty) : Widens t t
  | null {t : Ty} (ht : t.isReferenceType = true ∨ t.isNullable = true) : Widens .null t
  | object {s : Ty} (hs : s.isError = false) (hv : s ≠ .void) : Widens s .object
  | number {s t : SpecialType} (h : t ∈ s.widenings) : Widens (.special s) (.special t)
  | wrapped {s t : Ty} (hv : t.isValueType = true) (hn : t.isNullable = false) (h : Widens s t) :
      Widens s (.nullable t)
  | lifted {s t : Ty} (hv : t.isValueType = true) (hn : t.isNullable = false) (h : Widens s t) :
      Widens (.nullable s) (.nullable t)
  | array {s t : Ty} (rank : Nat) (hs : s.isReferenceType = true) (ht : t.isReferenceType = true)
      (h : Widens s t) : Widens (.array s rank) (.array t rank)
  | elements {s e : Ty} (he : s.element? = some e) : Widens s (.sequence e)
  | covariant {s e t : Ty} (he : s.element? = some e) (hre : e.isReferenceType = true)
      (hrt : t.isReferenceType = true) (h : Widens e t) : Widens s (.sequence t)

namespace Widens

variable {s t u : Ty}

/-! ### Where the rules lead from and to -/

theorem eq_null (h : Widens s .null) : s = .null := by
  cases h with
  | refl => rfl
  | null ht => rfl

theorem eq_void (h : Widens s t) (hs : s = .void) : t = .void := by
  induction h with
  | refl => exact hs
  | object _ hv => exact absurd hs hv
  | number h =>
    cases hs
    simp [SpecialType.widenings] at h
  | wrapped hv _ _ ih =>
    rw [ih hs] at hv
    simp [isValueType, SpecialType.isValueType] at hv
  | elements he | covariant he =>
    subst hs
    simp [element?] at he
  | null | lifted | array => cases hs

theorem eq_object (h : Widens s t) (hs : s = .object) : t = .object := by
  induction h with
  | refl => exact hs
  | object => rfl
  | number h =>
    cases hs
    simp [SpecialType.widenings] at h
  | wrapped hv _ _ ih =>
    rw [ih hs] at hv
    simp [isValueType, SpecialType.isValueType] at hv
  | elements he | covariant he =>
    subst hs
    simp [element?] at he
  | null | lifted | array => cases hs

theorem not_isError (h : Widens s t) (ht : t.isError = false) : s.isError = false := by
  induction h with
  | refl => exact ht
  | object hs => exact hs
  | wrapped hv _ _ ih => exact ih (isError_of_isValueType hv)
  | elements he | covariant he => exact isError_of_element? he
  | null | number | lifted | array => rfl

/-- A nullable type widens to nullable types and to `object` only. -/
theorem of_nullable (h : Widens (.nullable s) t) (ht : t.isNullable = false) : t = .object := by
  cases h with
  | refl => simp [isNullable, underlying?] at ht
  | object => rfl
  | wrapped | lifted => simp [isNullable, underlying?] at ht
  | elements he | covariant he => simp [element?] at he

/-- Nothing with null in it widens to a value type without. -/
theorem not_isNullable (h : Widens s t) (hv : t.isValueType = true) (hn : t.isNullable = false) :
    s.isNullable = false := by
  cases s with
  | nullable s =>
    have ht : t = .object := of_nullable h hn
    subst ht
    simp [isValueType, SpecialType.isValueType] at hv
  | _ => rfl

/-! ### An order -/

theorem trans (hst : Widens s t) (htu : Widens t u) : Widens s u := by
  induction htu generalizing s with
  | refl => exact hst
  | null ht =>
    rw [eq_null hst]
    exact .null ht
  | @object t he hv =>
    refine .object (not_isError hst he) fun hs => ?_
    subst hs
    exact hv (eq_void hst rfl)
  | @number t u h =>
    cases hst with
    | refl => exact .number h
    | null ht =>
      have hn := (SpecialType.isNumberLike_of_mem_widenings h).1
      rcases ht with ht | ht
      · rw [isReferenceType_of_isNumberLike hn] at ht
        cases ht
      · cases ht
    | object => simp [SpecialType.widenings] at h
    | number h' => exact .number (SpecialType.mem_widenings_trans h' h)
  | wrapped hv hn _ ih => exact .wrapped hv hn (ih hst)
  | lifted hv hn h ih =>
    cases hst with
    | refl => exact .lifted hv hn h
    | null => exact .null (.inr rfl)
    | wrapped _ _ h' => exact .wrapped hv hn (ih h')
    | lifted _ _ h' => exact .lifted hv hn (ih h')
  | array rank hs ht h ih =>
    cases hst with
    | refl => exact .array rank hs ht h
    | null => exact .null (.inl rfl)
    | array _ hs' _ h' => exact .array rank hs' ht (ih h')
  | elements he =>
    cases hst with
    | refl => exact .elements he
    | null => exact .null (.inl rfl)
    | object => simp [element?] at he
    | number h =>
      rw [element?_of_isNumberLike (SpecialType.isNumberLike_of_mem_widenings h).2] at he
      cases he
    | wrapped | lifted => simp [element?] at he
    | array rank hs ht h =>
      cases he
      exact .covariant rfl hs ht h
    | elements he' =>
      cases he
      exact .elements he'
    | covariant he' hre hrt h =>
      cases he
      exact .covariant he' hre hrt h
  | covariant he hre hrt h ih =>
    cases hst with
    | refl => exact .covariant he hre hrt h
    | null => exact .null (.inl rfl)
    | object => simp [element?] at he
    | number h =>
      rw [element?_of_isNumberLike (SpecialType.isNumberLike_of_mem_widenings h).2] at he
      cases he
    | wrapped | lifted => simp [element?] at he
    | array rank hs ht h' =>
      cases he
      exact .covariant rfl hs hrt (ih h')
    | elements he' =>
      cases he
      exact .covariant he' hre hrt h
    | covariant he' hre' _ h' =>
      cases he
      exact .covariant he' hre' hrt (ih h')

theorem antisymm (hst : Widens s t) (hts : Widens t s) : s = t := by
  induction hst with
  | refl => rfl
  | null => exact (eq_null hts).symm
  | object => exact eq_object hts rfl
  | @number s t h =>
    cases hts with
    | refl => rfl
    | object => simp [SpecialType.widenings] at h
    | number h' => exact absurd h' (SpecialType.not_mem_widenings_of_mem h)
  | @wrapped s t hv hn h ih =>
    have hs : s = .object := of_nullable hts (not_isNullable h hv hn)
    subst hs
    rw [eq_object h rfl] at hv
    simp [isValueType, SpecialType.isValueType] at hv
  | @lifted s t hv hn h ih =>
    cases hts with
    | refl => rfl
    | wrapped hv' hn' h' =>
      have hnull := not_isNullable h' hv' hn'
      simp [isNullable, underlying?] at hnull
    | lifted _ _ h' => rw [ih h']
  | array rank hs ht h ih =>
    cases hts with
    | refl => rfl
    | array _ _ _ h' => rw [ih h']
  | elements he =>
    cases hts with
    | refl => rfl
    | object | wrapped => simp [element?] at he
    | elements he' | covariant he' =>
      cases he
      cases he'
      rfl
  | covariant he _ _ h ih =>
    cases hts with
    | refl => rfl
    | object | wrapped => simp [element?] at he
    | elements he' =>
      cases he
      cases he'
      rfl
    | covariant he' _ _ h' =>
      cases he
      cases he'
      rw [ih h']

end Widens

/-! ### The standard conversion -/

theorem isImplicit_of_lift {c : Conversion} (h : c.lift.isImplicit = true) :
    c.isImplicit = true := by
  cases c <;> simp_all [Conversion.lift, Conversion.isImplicit]

theorem lift_isImplicit {c : Conversion} (h : c.isImplicit = true) (hd : c ≠ .implicitDeclared) :
    c.lift.isImplicit = true := by
  cases c <;> simp_all [Conversion.lift, Conversion.isImplicit]

theorem interfaceConversion_eq (t : Ty) :
    t.interfaceConversion = .explicitOnly ∨ t.interfaceConversion = .none := by
  unfold interfaceConversion
  split
  all_goals simp

theorem standardConversion_ne_implicitDeclared (s t : Ty) :
    s.standardConversion t ≠ .implicitDeclared := by
  have hlift : ∀ c : Conversion, c.lift ≠ .implicitDeclared := by
    intro c
    cases c <;> simp [Conversion.lift]
  have hinterface : ∀ t : Ty, t.interfaceConversion ≠ .implicitDeclared := by
    intro t
    rcases interfaceConversion_eq t with h | h <;> simp [h]
  have hspecial : ∀ s t : SpecialType, s.conversion t ≠ .implicitDeclared := by
    intro s t
    unfold SpecialType.conversion
    repeat' split
    all_goals simp
  fun_induction Ty.standardConversion s t
  all_goals first | exact hlift _ | exact hinterface _ | exact hspecial _ _ | simp

theorem widens_of_isImplicit {s t : Ty} (hs : s.WellBuilt) (ht : t.WellBuilt)
    (hse : s.isError = false) (hte : t.isError = false)
    (h : (s.standardConversion t).isImplicit = true) : Widens s t := by
  have hinterface : ∀ t : Ty, t.interfaceConversion.isImplicit = false := by
    intro t
    rcases interfaceConversion_eq t with h | h <;> simp [h, Conversion.isImplicit]
  fun_induction Ty.standardConversion s t
  case case1 => exact .refl _
  case case2 he => simp [hse, hte] at he
  case case4 he _ _ _ => exact .null (by simpa using he)
  case case7 hv => exact .object hse (by simp at hv; exact hv)
  case case9 hne _ _ =>
    rcases SpecialType.conversion_isImplicit_iff.mp h with rfl | hw
    · exact absurd rfl hne
    · exact .number hw
  case case10 ih =>
    have hse' := isError_of_isValueType hs.1
    have hte' := isError_of_isValueType ht.1
    exact .lifted ht.1 ht.2.1 (ih hs.2.2 ht.2.2 hse' hte' (isImplicit_of_lift h))
  case case11 ih =>
    have hte' := isError_of_isValueType ht.1
    exact .wrapped ht.1 ht.2.1 (ih hs ht.2.2 hse hte' (isImplicit_of_lift h))
  case case14 hr _ _ _ ih =>
    simp only [Bool.and_eq_true, decide_eq_true_eq] at hr
    obtain ⟨⟨rfl, hrs⟩, hrt⟩ := hr
    exact .array _ hrs hrt (ih hs.2.2 ht.2.2 hs.1 ht.1 (isImplicit_of_lift h))
  case case16 he _ _ _ ih =>
    simp only [Bool.or_eq_true, Bool.and_eq_true, decide_eq_true_eq] at he
    rcases he with rfl | ⟨⟨hrs, hrt⟩, hi⟩
    · exact .elements rfl
    · exact .covariant rfl hrs hrt (ih hs.2.2 ht.2 hs.1 ht.1 hi)
  case case18 he _ _ _ ih =>
    simp only [Bool.or_eq_true, Bool.and_eq_true, decide_eq_true_eq] at he
    rcases he with rfl | ⟨⟨hrs, hrt⟩, hi⟩
    · exact .elements rfl
    · exact .covariant rfl hrs hrt (ih hs.2 ht.2 hs.1 ht.1 hi)
  case case20 he _ _ _ ih =>
    simp only [Bool.or_eq_true, Bool.and_eq_true, decide_eq_true_eq] at he
    rcases he with rfl | ⟨⟨hrs, hrt⟩, hi⟩
    · exact .elements rfl
    · exact .covariant rfl hrs hrt (ih hs.2 ht.2 hs.1 ht.1 hi)
  case case22 he _ _ _ ih =>
    simp only [Bool.or_eq_true, Bool.and_eq_true, decide_eq_true_eq] at he
    rcases he with rfl | ⟨⟨hrs, hrt⟩, hi⟩
    · exact .elements rfl
    · exact .covariant rfl hrs hrt (ih hs.2.2.2 ht.2 hs.2.1 ht.1 hi)
  case case24 he _ _ _ =>
    simp only [Bool.and_eq_true, decide_eq_true_eq] at he
    obtain ⟨rfl, rfl⟩ := he
    exact .elements rfl
  case case26 => simp [hinterface] at h
  case case27 => simp [hinterface] at h
  all_goals simp [Conversion.isImplicit] at h

theorem standardConversion_self (t : Ty) : t.standardConversion t = .identity := by
  unfold standardConversion
  exact if_pos rfl

theorem Widens.isImplicit {s t : Ty} (hs : s.isError = false) (ht : t.isError = false)
    (h : Widens s t) : (s.standardConversion t).isImplicit = true := by
  induction h with
  | refl => simp [standardConversion_self, Conversion.isImplicit]
  | @null t hr =>
    have hv : t ≠ .void := by
      rintro rfl
      simp [isReferenceType, isNullable, underlying?] at hr
    have hr' : (t.isReferenceType || t.isNullable) = true := by simpa using hr
    unfold standardConversion
    split
    · rfl
    · simp [hs, ht, hv, hr', Conversion.isImplicit]
  | @object s _ hv =>
    by_cases ho : s = .object
    · simp [ho, standardConversion_self, Conversion.isImplicit]
    · unfold standardConversion
      cases s <;> simp_all [isReferenceType, Conversion.isImplicit, isError]
  | @number s t h =>
    have himplicit := SpecialType.conversion_isImplicit_iff.mpr (.inr h)
    obtain ⟨hs, ht⟩ := SpecialType.isNumberLike_of_mem_widenings h
    have hne : ∀ u : SpecialType, u.isNumberLike = true → u ≠ .object ∧ u ≠ .void := by
      intro u hu
      constructor <;> (rintro rfl; cases hu)
    unfold standardConversion
    split
    · rfl
    · simp [isError, hne s hs, hne t ht, himplicit]
  | @wrapped s t hv hn h ih =>
    have himplicit := lift_isImplicit (ih hs (isError_of_isValueType hv))
      (standardConversion_ne_implicitDeclared s t)
    have hne : s ≠ .object ∧ s ≠ .void := by
      constructor
      · intro hs
        simp [h.eq_object hs, isValueType, SpecialType.isValueType] at hv
      · intro hs
        simp [h.eq_void hs, isValueType, SpecialType.isValueType] at hv
    have hsn := h.not_isNullable hv hn
    unfold standardConversion
    split
    · rfl
    · cases s <;> simp_all [isNullable, underlying?, isError, Conversion.isImplicit, isReferenceType]
  | @lifted s t hv hn h ih =>
    have hse := h.not_isError (isError_of_isValueType hv)
    have himplicit := lift_isImplicit (ih hse (isError_of_isValueType hv))
      (standardConversion_ne_implicitDeclared s t)
    unfold standardConversion
    split
    · rfl
    · simpa [isError] using himplicit
  | @array s t rank hrs hrt h ih =>
    have himplicit := lift_isImplicit
      (ih (isError_of_isReferenceType hrs) (isError_of_isReferenceType hrt))
      (standardConversion_ne_implicitDeclared s t)
    unfold standardConversion
    split
    · rfl
    · simpa [isError, hrs, hrt] using himplicit
  | @elements s e he =>
    unfold standardConversion
    split
    · rfl
    · cases s with
      | special s =>
        obtain ⟨rfl, rfl⟩ := eq_string_of_element? he
        simp [isError, Conversion.isImplicit]
      | _ => simp_all [element?, isError, Conversion.isImplicit]
  | @covariant s e t he hre hrt h ih =>
    have himplicit := ih (isError_of_isReferenceType hre) (isError_of_isReferenceType hrt)
    unfold standardConversion
    split
    · rfl
    · cases s with
      | special s =>
        obtain ⟨-, rfl⟩ := eq_string_of_element? he
        simp [isReferenceType] at hre
      | _ => simp_all [element?, isError, Conversion.isImplicit]

/-- Between types that are built well, the standard conversion is implicit exactly where one widens
to the other. -/
theorem widens_iff {s t : Ty} (hs : s.WellBuilt) (ht : t.WellBuilt) (hse : s.isError = false)
    (hte : t.isError = false) : (s.standardConversion t).isImplicit = true ↔ Widens s t :=
  ⟨widens_of_isImplicit hs ht hse hte, Widens.isImplicit hse hte⟩

end Ty

end CSharpFront
