import CSharpFront.Proofs.Types.Universe
/-!
Casts back. Where one type converts to another by itself, a cast leads back, except from null. Main
statement: in a table without operators, the one exception is strings as the sequences of characters
that they are, and the arrays of these.
-/

namespace CSharpFront

namespace SpecialType

/-- Numbers that widen are narrowed by a cast. -/
theorem conversion_ne_none_of_widens {s t : SpecialType} (h : s.conversion t = .implicitStandard) :
    t.conversion s ≠ .none := by
  have himplicit : (s.conversion t).isImplicit = true := by rw [h]; rfl
  rcases SpecialType.conversion_isImplicit_iff.mp himplicit with rfl | hw
  · simp [SpecialType.conversion] at h
  · have hn := SpecialType.isNumberLike_of_mem_widenings hw
    simp only [SpecialType.conversion, hn]
    split
    · simp
    split
    · simp_all
    split <;> simp

end SpecialType

namespace Ty

/-- Strings as what they enumerate, and arrays of the one as arrays of the other. -/
inductive ReadsString : Ty → Ty → Prop
  | string : ReadsString .string (.sequence .char)
  | array {s t : Ty} (rank : Nat) (h : ReadsString s t) :
      ReadsString (.array s rank) (.array t rank)

variable {s t : Ty}

theorem ReadsString.isReferenceType (h : ReadsString s t) :
    s.isReferenceType = true ∧ t.isReferenceType = true := by
  cases h <;> exact ⟨rfl, rfl⟩

theorem ReadsString.ne (h : ReadsString s t) : s ≠ t := by
  induction h with
  | string => simp
  | array _ _ ih => simpa using ih

theorem ReadsString.standardConversion_back (h : ReadsString s t) :
    t.standardConversion s = .none := by
  induction h with
  | string =>
    unfold standardConversion
    simp [isError, isInterface, interfaceConversion]
  | array rank h ih =>
    unfold standardConversion
    simp [isError, h.ne.symm, h.isReferenceType, ih, Conversion.lift]

/-! ### Conversions back -/

theorem lift_ne_none {c : Conversion} (h : c ≠ .none) (hd : c ≠ .implicitDeclared) :
    c.lift ≠ .none := by
  cases c <;> simp_all [Conversion.lift]

theorem eq_or_eq_of_lift {c : Conversion} (h : c.lift = .implicitStandard) :
    c = .identity ∨ c = .implicitStandard := by
  cases c <;> simp_all [Conversion.lift]

theorem standardConversion_special_ne_none {s t : SpecialType} (hs : s ≠ .object ∧ s ≠ .void)
    (ht : t ≠ .object ∧ t ≠ .void) (h : t.conversion s ≠ .none) :
    (Ty.special t).standardConversion (.special s) ≠ .none := by
  unfold standardConversion
  split
  · simp
  · simpa [isError, hs, ht] using h

/-- An object is cast to anything. -/
theorem standardConversion_ne_none_of_object (he : s.isError = false) (hn : s ≠ .null)
    (hv : s ≠ .void) : Ty.object.standardConversion s ≠ .none := by
  unfold standardConversion
  split
  · simp
  · cases s with
    | special s => cases s <;> simp_all [isError]
    | _ => simp_all [isError]

/-- A sequence is cast to what can be one. -/
theorem standardConversion_ne_none_of_sequence (h : s.interfaceConversion = .explicitOnly)
    (t : Ty) : (Ty.sequence t).standardConversion s ≠ .none := by
  unfold standardConversion
  split
  · simp
  · cases s <;> simp_all [isError, interfaceConversion, isInterface]
    split <;> simp

/-- A value is taken out of what adds null to its type. -/
theorem standardConversion_ne_none_of_nullable (hn : s ≠ .null) (hv : s ≠ .void)
    (hs : s.isNullable = false) (h : t.standardConversion s ≠ .none) :
    (Ty.nullable t).standardConversion s ≠ .none := by
  unfold standardConversion
  split
  · simp
  · cases s with
    | special s => cases s <;> simp_all [isError, Conversion.isPossible]
    | _ => simp_all [isError, isNullable, underlying?, Conversion.isPossible]

theorem standardConversion_nullable_ne_none (h : t.standardConversion s ≠ .none) :
    (Ty.nullable t).standardConversion (.nullable s) ≠ .none := by
  unfold standardConversion
  split
  · simp
  · simpa [isError] using lift_ne_none h (standardConversion_ne_implicitDeclared t s)

theorem standardConversion_array_ne_none (hs : s.isReferenceType = true)
    (ht : t.isReferenceType = true) (rank : Nat) (h : t.standardConversion s ≠ .none) :
    (Ty.array t rank).standardConversion (.array s rank) ≠ .none := by
  unfold standardConversion
  split
  · simp
  · simpa [isError, hs, ht] using lift_ne_none h (standardConversion_ne_implicitDeclared t s)

theorem isReferenceType_of_isValueType (h : t.isValueType = true) : t.isReferenceType = false := by
  cases t with
  | special s => cases s <;> simp_all [isValueType, isReferenceType, SpecialType.isValueType]
  | _ => simp_all [isValueType, isReferenceType]

theorem not_readsString_of_isValueType (h : t.isValueType = true) : ¬ ReadsString s t := by
  intro hreads
  have href := hreads.isReferenceType.2
  rw [isReferenceType_of_isValueType h] at href
  cases href

/-- Nothing converts by itself only because one of the types is an interface. -/
theorem interfaceConversion_ne {c : Conversion} (h : c.isImplicit = true) (t : Ty) :
    t.interfaceConversion ≠ c := by
  rintro rfl
  rcases interfaceConversion_eq t with ht | ht <;> simp [ht, Conversion.isImplicit] at h

/-- Only a type itself converts to it without a change. -/
theorem eq_of_identity (hse : s.isError = false) (hte : t.isError = false)
    (h : s.standardConversion t = .identity) : s = t := by
  have hlift : ∀ c : Conversion, c.lift ≠ .identity := by
    intro c
    cases c <;> simp [Conversion.lift]
  fun_induction Ty.standardConversion s t
  case case1 => rfl
  case case2 he => simp [hse, hte] at he
  case case9 =>
    simp only [SpecialType.conversion] at h
    split at h
    next heq => rw [heq]
    split at h
    · cases h
    split at h <;> cases h
  case case10 | case11 | case14 => exact absurd h (hlift _)
  case case26 | case27 => exact absurd h (interfaceConversion_ne rfl _)
  all_goals cases h

/-- Every rule by which a type converts to another has one by which a cast leads back, but that of
strings and what they enumerate. -/
theorem ne_none_or_readsString (hs : s.Formed) (ht : t.Formed)
    (hse : s.isError = false) (hte : t.isError = false) (hsn : s ≠ .null)
    (h : s.standardConversion t = .implicitStandard) :
    t.standardConversion s ≠ .none ∨ ReadsString s t := by
  fun_induction Ty.standardConversion s t
  case case4 => exact absurd rfl hsn
  case case7 hv => exact .inl (standardConversion_ne_none_of_object hse hsn (by simpa using hv))
  case case9 s t hto hso _ _ hv =>
    simp only [Bool.or_eq_true, decide_eq_true_eq, not_or, Ty.special.injEq] at hv
    have hback := SpecialType.conversion_ne_none_of_widens h
    exact .inl (standardConversion_special_ne_none ⟨hso, hv.1⟩ ⟨hto, hv.2⟩ hback)
  case case10 s t hne _ _ ih =>
    have hse' := isError_of_isValueType hs.1
    have hte' := isError_of_isValueType ht.1
    rcases eq_or_eq_of_lift h with h | h
    · exact absurd (congrArg _ (eq_of_identity hse' hte' h)) hne
    · have hsn' : s ≠ .null := by
        rintro rfl
        cases hs.1
      have hback := (ih hs.2.2 ht.2.2 hse' hte' hsn' h).resolve_right
        (not_readsString_of_isValueType ht.1)
      exact .inl (standardConversion_nullable_ne_none hback)
  case case11 s t _ _ hnullable _ _ hv ih =>
    have hvoid : s ≠ .void := by simpa using hv
    have hnone : s.isNullable = false := by
      cases s with
      | nullable s => exact absurd rfl (hnullable s)
      | _ => rfl
    refine .inl (standardConversion_ne_none_of_nullable hsn hvoid hnone ?_)
    have hte' := isError_of_isValueType ht.1
    rcases eq_or_eq_of_lift h with h | h
    · rw [eq_of_identity hse hte' h, standardConversion_self]
      simp
    · have hback := ih hs ht.2.2 hse hte' hsn h
      exact hback.resolve_right (not_readsString_of_isValueType ht.1)
  case case14 s m t n hr hne _ _ ih =>
    simp only [Bool.and_eq_true, decide_eq_true_eq] at hr
    obtain ⟨⟨rfl, hrs⟩, hrt⟩ := hr
    have hse' := isError_of_isReferenceType hrs
    have hte' := isError_of_isReferenceType hrt
    have hsn' : s ≠ .null := by
      rintro rfl
      cases hrs
    rcases eq_or_eq_of_lift h with h | h
    · rw [eq_of_identity hse' hte' h] at hne
      exact absurd rfl hne
    · exact (ih hs ht hse' hte' hsn' h).imp (standardConversion_array_ne_none hrs hrt m) (.array m)
  case case16 | case18 | case20 | case22 =>
    exact .inl (standardConversion_ne_none_of_sequence rfl _)
  case case24 he _ _ _ =>
    simp only [Bool.and_eq_true, decide_eq_true_eq] at he
    obtain ⟨rfl, rfl⟩ := he
    exact .inr .string
  case case26 | case27 => exact absurd h (interfaceConversion_ne rfl _)
  all_goals cases h

end Ty

/-! ### Tables without operators -/

namespace Universe

variable {u u' : Universe}

/-- One operation, other than the declaration of an operator, on types that stand in the table. The
arguments of a generic type may be the error type. -/
inductive Extends (u : Universe) : Universe → Prop
  | nullable {i : Nat} (hi : i < u.listing.size) :
      Extends u (u.add (u.listing.typeAt i).toNullable)
  | array {i : Nat} (hi : i < u.listing.size) (rank : Nat) :
      Extends u (u.add ((u.listing.typeAt i).toArray rank))
  | generic {g : Generic} {places : List Nat} {t : Ty}
      (h : Ty.ofGeneric? g (places.map u.listing.typeAt) = some t)
      (hplaces : ∀ i ∈ places, i < u.listing.size) : Extends u (u.add t)
  | named (name : String) (isStruct : Bool) : Extends u (u.add (.named name isStruct))
  | field {owner i : Nat} (ho : owner < u.listing.size) (hi : i < u.listing.size) (name : String) :
      Extends u (u.declareField (u.listing.typeAt owner) name (u.listing.typeAt i))
  | method {owner i : Nat} (ho : owner < u.listing.size) (hi : i < u.listing.size) (name : String) :
      Extends u (u.declareMethod (u.listing.typeAt owner) name (u.listing.typeAt i))

/-- A table that such operations built from the first one. -/
def IsOperatorFree (u : Universe) : Prop := Relation.ReflTransGen Extends {} u

/-- What such operations keep: the types are formed, and no operator is declared. -/
structure IsFormed (u : Universe) : Prop where
  types : ∀ t ∈ u.listing.types, t.Formed
  conversions : u.conversions = []

theorem IsFormed.typeAt (h : u.IsFormed) {i : Nat} (hi : i < u.listing.size) :
    (u.listing.typeAt i).Formed :=
  h.types _ (Listing.typeAt_mem hi)

theorem IsFormed.add (h : u.IsFormed) {t : Ty} (ht : t.Formed) : (u.add t).IsFormed where
  types s hs := by
    rw [listing_add_of_formed h.types] at hs
    unfold Listing.add at hs
    split at hs
    · exact h.types s hs
    split at hs
    · exact h.types s hs
    · rcases List.mem_append.mp hs with hs | hs
      · exact h.types s hs
      · exact List.mem_singleton.mp hs ▸ ht
  conversions := by
    unfold Universe.add
    split
    · exact h.conversions
    · simp [fill, h.conversions]

theorem Extends.isFormed (hstep : u.Extends u') (h : u.IsFormed) : u'.IsFormed := by
  cases hstep with
  | nullable hi => exact h.add (h.typeAt hi).toNullable
  | array hi rank => exact h.add ((h.typeAt hi).toArray rank)
  | generic ht hplaces =>
    refine h.add (.ofGeneric? ht fun s hs => ?_)
    obtain ⟨i, hi, rfl⟩ := List.mem_map.mp hs
    exact h.typeAt (hplaces i hi)
  | named => exact h.add trivial
  | field | method => exact ⟨h.types, h.conversions⟩

theorem IsOperatorFree.isFormed (h : u.IsOperatorFree) : u.IsFormed := by
  induction h with
  | refl => exact ⟨fun t ht => (Listing.sound_first.wellBuilt t ht).formed, rfl⟩
  | tail _ hstep ih => exact hstep.isFormed ih

theorem IsFormed.conversion_eq (h : u.IsFormed) (s t : Ty) :
    u.conversion s t = s.standardConversion t := by
  simp [Universe.conversion, Ty.conversion, h.conversions]

/-- Where a type other than null converts to another by itself, nothing leads back just if the one
is that of strings and the other that of sequences of characters, or if they are arrays of these. -/
theorem casts_back (h : u.IsOperatorFree) {i j : Nat} (hi : u.IsTyped i) (hj : u.IsTyped j)
    (hnull : u.listing.typeAt i ≠ .null)
    (himplicit : u.conversion (u.listing.typeAt i) (u.listing.typeAt j) = .implicitStandard) :
    u.conversion (u.listing.typeAt j) (u.listing.typeAt i) = .none ↔
      Ty.ReadsString (u.listing.typeAt i) (u.listing.typeAt j) := by
  have hformed := h.isFormed
  rw [hformed.conversion_eq] at himplicit ⊢
  refine ⟨fun hnone => ?_, fun hreads => hreads.standardConversion_back⟩
  have hback := Ty.ne_none_or_readsString (hformed.typeAt hi.lt) (hformed.typeAt hj.lt) hi hj hnull
    himplicit
  exact hback.resolve_left (absurd hnone)

/-- The sequences and the lists of characters. -/
def ofCharacters : Universe :=
  (({} : Universe).add (.sequence .char)).add (.list .char)

theorem ofCharacters_isOperatorFree : ofCharacters.IsOperatorFree := by
  have hsequence : IsOperatorFree (({} : Universe).add (.sequence .char)) :=
    .single (@Extends.generic _ .sequence [3] _ rfl (by decide))
  exact hsequence.tail (@Extends.generic _ .list [3] _ rfl (by decide))

/-- A sequence of characters is cast back to a list of them. -/
theorem casts_back_list :
    ofCharacters.conversion (ofCharacters.listing.typeAt 19) (ofCharacters.listing.typeAt 18) =
        .implicitStandard ∧
      ofCharacters.conversion (ofCharacters.listing.typeAt 18) (ofCharacters.listing.typeAt 19) ≠
        .none := by
  have h := ofCharacters_isOperatorFree
  have hlist : ofCharacters.listing.typeAt 19 = .list .char := rfl
  have hsequence : ofCharacters.listing.typeAt 18 = .sequence .char := rfl
  have himplicit : ofCharacters.conversion (ofCharacters.listing.typeAt 19)
      (ofCharacters.listing.typeAt 18) = .implicitStandard := by
    rw [h.isFormed.conversion_eq, hlist, hsequence]
    unfold Ty.standardConversion
    simp [Ty.isError]
  have hback := not_congr (casts_back h (i := 19) (j := 18) rfl rfl (by decide) himplicit)
  rw [hlist, hsequence] at hback
  refine ⟨himplicit, hback.mpr ?_⟩
  rintro ⟨⟩

/-- A string is a sequence of characters, but no cast makes one of such a sequence. -/
theorem casts_back_string :
    ofCharacters.IsOperatorFree ∧ ofCharacters.listing.typeAt 15 = .string ∧
      ofCharacters.listing.typeAt 18 = .sequence .char ∧
        ofCharacters.conversion .string (.sequence .char) = .implicitStandard ∧
          ofCharacters.conversion (.sequence .char) .string = .none := by
  have h := ofCharacters_isOperatorFree
  refine ⟨h, rfl, rfl, ?_, ?_⟩
  · rw [h.isFormed.conversion_eq]
    unfold Ty.standardConversion
    simp [Ty.isError]
  · rw [h.isFormed.conversion_eq]
    exact Ty.ReadsString.string.standardConversion_back

end Universe

end CSharpFront
