import Mathlib.Logic.Relation
import CSharpFront.Types.Universe
/-!
Listings whose types are built one after another. A type is built of types that are listed before
it, so that a listing is a table of layers: each holds the places of the types within it. Places are
then as good as types, and following them from one type to those within it comes to an end.
-/

namespace CSharpFront

/-! ### Types that are built well -/

namespace Ty

/-- The types directly within a type. -/
def parts : Ty → List Ty
  | .nullable t | .array t _ | .sequence t | .list t => [t]
  | .grouping k t => [k, t]
  | .error | .unlisted _ | .null | .special _ | .named _ _ => []

/-- A type in which null is added only to value types that lack it, arrays have a dimension, and
nothing within is the error type. -/
def WellBuilt : Ty → Prop
  | .nullable t => t.isValueType = true ∧ t.isNullable = false ∧ t.WellBuilt
  | .array t rank => t.isError = false ∧ 1 ≤ rank ∧ t.WellBuilt
  | .sequence t | .list t => t.isError = false ∧ t.WellBuilt
  | .grouping k t => k.isError = false ∧ t.isError = false ∧ k.WellBuilt ∧ t.WellBuilt
  | .unlisted _ => False
  | .error | .null | .special _ | .named _ _ => True

/-- A type in which null is added only to value types that lack it, and no place stands for a type
that is not listed. -/
def Formed : Ty → Prop
  | .nullable t => t.isValueType = true ∧ t.isNullable = false ∧ t.Formed
  | .array t _ | .sequence t | .list t => t.Formed
  | .grouping k t => k.Formed ∧ t.Formed
  | .unlisted _ => False
  | .error | .null | .special _ | .named _ _ => True

theorem WellBuilt.formed {t : Ty} (h : t.WellBuilt) : t.Formed := by
  induction t with
  | nullable t ih => exact ⟨h.1, h.2.1, ih h.2.2⟩
  | array t rank ih => exact ih h.2.2
  | sequence t ih | list t ih => exact ih h.2
  | grouping k t ihk iht => exact ⟨ihk h.2.2.1, iht h.2.2.2⟩
  | unlisted => exact h
  | error | null | special | named => trivial

theorem isError_of_isValueType {t : Ty} (h : t.isValueType = true) : t.isError = false := by
  cases t <;> simp_all [isValueType, isError]

theorem isError_of_isReferenceType {t : Ty} (h : t.isReferenceType = true) : t.isError = false := by
  cases t <;> simp_all [isReferenceType, isError]

theorem WellBuilt.part {t s : Ty} (h : t.WellBuilt) (hs : s ∈ t.parts) :
    s.isError = false ∧ s.WellBuilt := by
  cases t with
  | nullable t =>
    obtain rfl := List.mem_singleton.mp hs
    exact ⟨isError_of_isValueType h.1, h.2.2⟩
  | array t rank =>
    obtain rfl := List.mem_singleton.mp hs
    exact ⟨h.1, h.2.2⟩
  | sequence t | list t =>
    obtain rfl := List.mem_singleton.mp hs
    exact h
  | grouping k t =>
    rcases List.mem_cons.mp hs with rfl | hs
    · exact ⟨h.1, h.2.2.1⟩
    · obtain rfl := List.mem_singleton.mp hs
      exact ⟨h.2.1, h.2.2.2⟩
  | error | unlisted | null | special | named => simp [parts] at hs

theorem WellBuilt.toNullable {t : Ty} (h : t.WellBuilt) : t.toNullable.WellBuilt := by
  unfold Ty.toNullable
  split
  · exact h
  next hc =>
    simp only [Bool.or_eq_true, Bool.not_eq_true', not_or, Bool.not_eq_true, Bool.not_eq_false] at hc
    exact ⟨hc.2, hc.1.2, h⟩

theorem WellBuilt.toArray {t : Ty} (h : t.WellBuilt) (rank : Nat) : (t.toArray rank).WellBuilt := by
  unfold Ty.toArray
  split
  · exact h
  next hc => exact ⟨by simpa using hc, by omega, h⟩

theorem WellBuilt.ofGeneric? {g : Generic} {ts : List Ty} {t : Ty}
    (h : Ty.ofGeneric? g ts = some t) (hts : ∀ s ∈ ts, s.isError = false ∧ s.WellBuilt) :
    t.WellBuilt := by
  rw [ofGeneric?_eq_some_iff] at h
  cases t <;> simp only [generic?, Option.some.injEq, Prod.mk.injEq, reduceCtorEq] at h
  all_goals
    obtain ⟨rfl, rfl⟩ := h
    simp_all [WellBuilt]

theorem Formed.toNullable {t : Ty} (h : t.Formed) : t.toNullable.Formed := by
  unfold Ty.toNullable
  split
  · exact h
  next hc =>
    simp only [Bool.or_eq_true, Bool.not_eq_true', not_or, Bool.not_eq_true,
      Bool.not_eq_false] at hc
    exact ⟨hc.2, hc.1.2, h⟩

theorem Formed.toArray {t : Ty} (h : t.Formed) (rank : Nat) : (t.toArray rank).Formed := by
  unfold Ty.toArray
  split <;> exact h

theorem Formed.ofGeneric? {g : Generic} {ts : List Ty} {t : Ty}
    (h : Ty.ofGeneric? g ts = some t) (hts : ∀ s ∈ ts, s.Formed) : t.Formed := by
  rw [ofGeneric?_eq_some_iff] at h
  cases t <;> simp only [generic?, Option.some.injEq, Prod.mk.injEq, reduceCtorEq] at h
  all_goals
    obtain ⟨rfl, rfl⟩ := h
    simp_all [Formed]

/-- A type with null added is the type itself or is built of it. -/
theorem toNullable_cases (t : Ty) : t.toNullable = t ∨ t.toNullable = .nullable t := by
  unfold toNullable
  split
  · exact .inl rfl
  · exact .inr rfl

theorem toArray_cases (t : Ty) (rank : Nat) :
    t.toArray rank = t ∨ t.toArray rank = .array t (max rank 1) := by
  unfold toArray
  split
  · exact .inl rfl
  · exact .inr rfl

theorem parts_of_generic? {t : Ty} {g : Generic} {ts : List Ty} (h : t.generic? = some (g, ts)) :
    t.parts = ts := by
  cases t <;> simp_all [generic?, parts]

theorem fill_of_formed {t : Ty} (h : t.Formed) (place : Nat) (u : Ty) : t.fill place u = t := by
  induction t with
  | unlisted => exact absurd h id
  | nullable t ih => rw [fill, ih h.2.2]
  | array t rank ih => rw [fill, ih h]
  | sequence t ih => rw [fill, ih h]
  | list t ih => rw [fill, ih h]
  | grouping k t ihk iht => rw [fill, ihk h.1, iht h.2]
  | error | null | special | named => rfl

end Ty

/-! ### Listings that are built well -/

namespace Listing

/-- A listing that begins with the types that every listing begins with, holds no type twice, and
holds all within a type before the type. -/
structure Sound (l : Listing) : Prop where
  first : ({} : Listing).types <+: l.types
  nodup : l.types.Nodup
  wellBuilt : ∀ t ∈ l.types, t.WellBuilt
  parts : ∀ (i : Nat) (t : Ty), l.types[i]? = some t → ∀ s ∈ t.parts, s ∈ l.types.take i

variable {l l' : Listing} {t : Ty}

theorem sound_first : ({} : Listing).Sound where
  first := List.prefix_rfl
  nodup := by decide
  wellBuilt t ht := by
    rcases List.mem_cons.mp ht with rfl | ht
    · trivial
    rcases List.mem_cons.mp ht with rfl | ht
    · trivial
    obtain ⟨s, -, rfl⟩ := List.mem_map.mp ht
    trivial
  parts i t h s hs := by
    have ht : t ∈ ({} : Listing).types := List.mem_of_getElem? h
    rcases List.mem_cons.mp ht with rfl | ht
    · simp [Ty.parts] at hs
    rcases List.mem_cons.mp ht with rfl | ht
    · simp [Ty.parts] at hs
    obtain ⟨u, -, rfl⟩ := List.mem_map.mp ht
    simp [Ty.parts] at hs

theorem Sound.mem_of_first (h : l.Sound) {t : Ty} (ht : t ∈ ({} : Listing).types) : t ∈ l.types :=
  h.first.subset ht

theorem Sound.error_mem (h : l.Sound) : Ty.error ∈ l.types := h.mem_of_first (by simp)

theorem Sound.special_mem (h : l.Sound) (s : SpecialType) : Ty.special s ∈ l.types :=
  h.mem_of_first (by simp [SpecialType.mem_all])

theorem Sound.part_mem (h : l.Sound) {t s : Ty} (ht : t ∈ l.types) (hs : s ∈ t.parts) :
    s ∈ l.types := by
  obtain ⟨i, hi⟩ := List.mem_iff_getElem?.mp ht
  exact List.mem_of_mem_take (h.parts i t hi s hs)

/-- Whatever a listing was before, it was built well. -/
theorem Sound.of_isPrefix (h : l'.Sound) (hfirst : ({} : Listing).types <+: l.types)
    (hle : l.types <+: l'.types) : l.Sound where
  first := hfirst
  nodup := h.nodup.sublist hle.sublist
  wellBuilt t ht := h.wellBuilt t (hle.subset ht)
  parts i t ht s hs := by
    obtain ⟨rest, hrest⟩ := hle
    have hi : i < l.types.length := (List.getElem?_eq_some_iff.mp ht).1
    have ht' : l'.types[i]? = some t := by rw [← hrest, List.getElem?_append_left hi, ht]
    have hmem := h.parts i t ht' s hs
    rw [← hrest, List.take_append_of_le_length (Nat.le_of_lt hi)] at hmem
    exact hmem

/-- A type that is built of listed types may be listed. -/
theorem Sound.add (h : l.Sound) {t : Ty} (ht : t.WellBuilt) (hs : ∀ s ∈ t.parts, s ∈ l.types) :
    (l.add t).Sound := by
  have hle := isPrefix_types_add l t
  have hnodup := nodup_add t h.nodup
  unfold Listing.add at hle hnodup ⊢
  split
  · exact h
  split
  · exact h
  next hne hnew =>
  simp only [hnew, if_neg, Bool.false_eq_true, not_false_eq_true] at hle hnodup
  refine ⟨h.first.trans hle, hnodup, ?_, ?_⟩
  · intro u hu
    rcases List.mem_append.mp hu with hu | hu
    · exact h.wellBuilt u hu
    · obtain rfl := List.mem_singleton.mp hu
      exact ht
  · intro i u hu s hsu
    rcases Nat.lt_or_ge i l.types.length with hi | hi
    · rw [List.getElem?_append_left hi] at hu
      rw [List.take_append_of_le_length (Nat.le_of_lt hi)]
      exact h.parts i u hu s hsu
    · rw [List.getElem?_append_right hi] at hu
      obtain ⟨hlast, rfl⟩ := List.getElem?_eq_some_iff.mp hu
      simp only [List.length_singleton] at hlast
      have hi' : i = l.types.length := by omega
      subst hi'
      rw [List.take_left]
      exact hs s (by simpa using hsu)

/-! ### Places -/

/-- A type in a listing stands at its place and at no other. -/
theorem Sound.getElem?_eq_some_iff (h : l.Sound) {i : Nat} {t : Ty} :
    l.types[i]? = some t ↔ t ∈ l.types ∧ l.placeOf t = i := by
  constructor
  · intro hi
    have ht : t ∈ l.types := List.mem_of_getElem? hi
    refine ⟨ht, ?_⟩
    obtain ⟨hlt, rfl⟩ := List.getElem?_eq_some_iff.mp hi
    have hplace : l.placeOf l.types[i] = l.types.idxOf l.types[i] := by
      have hw := h.wellBuilt _ ht
      cases hc : l.types[i] <;> simp_all [placeOf, Ty.WellBuilt]
    rw [hplace, h.nodup.idxOf_getElem i hlt]
  · rintro ⟨ht, rfl⟩
    have hplace : l.placeOf t = l.types.idxOf t := by
      have hw := h.wellBuilt _ ht
      cases t <;> simp_all [placeOf, Ty.WellBuilt]
    rw [hplace]
    have hlt := List.idxOf_lt_length_iff.mpr ht
    exact List.getElem?_eq_some_iff.mpr ⟨hlt, List.getElem_idxOf hlt⟩

theorem Sound.placeOf_lt (h : l.Sound) {t : Ty} (ht : t ∈ l.types) : l.placeOf t < l.size := by
  obtain ⟨hlt, -⟩ := List.getElem?_eq_some_iff.mp (h.getElem?_eq_some_iff.mpr ⟨ht, rfl⟩)
  exact hlt

theorem Sound.placeOf_inj (h : l.Sound) {s t : Ty} (hs : s ∈ l.types) (ht : t ∈ l.types) :
    l.placeOf s = l.placeOf t ↔ s = t := by
  constructor
  · intro he
    have hs' := h.getElem?_eq_some_iff.mpr ⟨hs, he⟩
    have ht' := h.getElem?_eq_some_iff.mpr ⟨ht, rfl⟩
    exact Option.some.inj (hs'.symm.trans ht')
  · rintro rfl
    rfl

theorem typeAt_of_lt {i : Nat} (hi : i < l.size) : l.types[i]? = some (l.typeAt i) := by
  unfold typeAt
  unfold size at hi
  simp [hi]

theorem typeAt_mem {i : Nat} (hi : i < l.size) : l.typeAt i ∈ l.types :=
  List.mem_of_getElem? (typeAt_of_lt hi)

theorem typeAt_of_le {i : Nat} (hi : l.size ≤ i) : l.typeAt i = .unlisted i := by
  have hnone : l.types[i]? = none := List.getElem?_eq_none hi
  simp [typeAt, hnone]

/-- Two places hold the same type only if they are one place. -/
theorem Sound.typeAt_inj (h : l.Sound) {i j : Nat} : l.typeAt i = l.typeAt j ↔ i = j := by
  have hlisted : ∀ {k : Nat}, k < l.size → ∀ place, l.typeAt k ≠ .unlisted place := by
    intro k hk place he
    have hw := h.wellBuilt _ (typeAt_mem hk)
    simp [he, Ty.WellBuilt] at hw
  refine ⟨fun he => ?_, fun he => he ▸ rfl⟩
  rcases Nat.lt_or_ge i l.size with hi | hi
  · rcases Nat.lt_or_ge j l.size with hj | hj
    · have hi' := (h.getElem?_eq_some_iff.mp (typeAt_of_lt hi)).2
      have hj' := (h.getElem?_eq_some_iff.mp (typeAt_of_lt hj)).2
      rw [← hi', ← hj', he]
    · exact absurd (he.trans (typeAt_of_le hj)) (hlisted hi j)
  · rw [typeAt_of_le hi] at he
    rcases Nat.lt_or_ge j l.size with hj | hj
    · exact absurd he.symm (hlisted hj i)
    · rw [typeAt_of_le hj] at he
      exact Ty.unlisted.inj he

/-! ### Listings that grow -/

/-- The types that a listing holds, and those that can be built of them. -/
inductive Offers (l : Listing) : Ty → Prop
  | listed {t : Ty} (ht : t ∈ l.types) : Offers l t
  | nullable {t : Ty} (ht : t ∈ l.types) : Offers l t.toNullable
  | array {t : Ty} (ht : t ∈ l.types) (rank : Nat) : Offers l (t.toArray rank)
  | generic {g : Generic} {ts : List Ty} {t : Ty} (h : Ty.ofGeneric? g ts = some t)
      (hts : ∀ s ∈ ts, s ∈ l.types ∧ s.isError = false) : Offers l t
  | named (name : String) (isStruct : Bool) : Offers l (.named name isStruct)

theorem Offers.wellBuilt (ho : l.Offers t) (h : l.Sound) : t.WellBuilt := by
  cases ho with
  | listed ht => exact h.wellBuilt t ht
  | nullable ht => exact (h.wellBuilt _ ht).toNullable
  | array ht rank => exact (h.wellBuilt _ ht).toArray rank
  | generic ht hts => exact .ofGeneric? ht fun s hs => ⟨(hts s hs).2, h.wellBuilt s (hts s hs).1⟩
  | named => trivial

theorem Offers.part_mem (ho : l.Offers t) (h : l.Sound) : ∀ s ∈ t.parts, s ∈ l.types := by
  intro s hs
  cases ho with
  | listed ht => exact h.part_mem ht hs
  | @nullable t ht =>
    rcases t.toNullable_cases with he | he
    · rw [he] at hs
      exact h.part_mem ht hs
    · rw [he] at hs
      obtain rfl := List.mem_singleton.mp hs
      exact ht
  | @array t ht rank =>
    rcases t.toArray_cases rank with he | he
    · rw [he] at hs
      exact h.part_mem ht hs
    · rw [he] at hs
      obtain rfl := List.mem_singleton.mp hs
      exact ht
  | generic ht hts =>
    rw [Ty.parts_of_generic? (Ty.ofGeneric?_eq_some_iff.mp ht)] at hs
    exact (hts s hs).1
  | named => simp [Ty.parts] at hs

theorem Offers.mem_add (ho : l.Offers t) (h : l.Sound) : t ∈ (l.add t).types := by
  have hw := ho.wellBuilt h
  exact Listing.mem_add fun place ht => by simp [ht, Ty.WellBuilt] at hw

/-- One type more, or none. -/
def Step (l l' : Listing) : Prop := ∃ t, l.Offers t ∧ l' = l.add t

/-- Any number of types more. -/
abbrev Grows : Listing → Listing → Prop := Relation.ReflTransGen Step

theorem Offers.grows (ho : l.Offers t) : l.Grows (l.add t) := .single ⟨t, ho, rfl⟩

theorem Step.sound (hstep : l.Step l') (h : l.Sound) : l'.Sound := by
  obtain ⟨t, ho, rfl⟩ := hstep
  exact h.add (ho.wellBuilt h) (ho.part_mem h)

theorem Grows.sound (hg : l.Grows l') (h : l.Sound) : l'.Sound := by
  induction hg with
  | refl => exact h
  | tail _ hstep ih => exact hstep.sound ih

theorem Grows.isPrefix (hg : l.Grows l') : l.types <+: l'.types := by
  induction hg with
  | refl => exact List.prefix_rfl
  | tail _ hstep ih =>
    obtain ⟨t, -, rfl⟩ := hstep
    exact ih.trans (isPrefix_types_add _ _)

theorem Grows.mem (hg : l.Grows l') (ht : t ∈ l.types) : t ∈ l'.types :=
  hg.isPrefix.subset ht

end Listing

end CSharpFront
