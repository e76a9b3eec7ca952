import CSharpFront.Proofs.Types.Listing
/-!
What binding builds types of. No type should be built on `void` or on that of null. If no type syntax
does it, then three inferences do, which look at a type too loosely: from the elements of an array,
from the results of a query, and from groups. All other such types are of the elements of these.
-/

namespace CSharpFront

/-! ### Types that are built on nothing -/

namespace Ty

/-- The types that none should be built on: `void`, and that of null. -/
def isUnfit (t : Ty) : Bool := t = .void || t = .null

/-- Whether a type is built directly on an unfit one. -/
def isHollow (t : Ty) : Bool := t.parts.any isUnfit

/-- The hollow types that inferences come upon. -/
def isMisinferred : Ty → Bool
  | .array t rank => t = .void && rank = 1
  | .sequence t => t = .null
  | .grouping k t => k.isUnfit || t.isUnfit
  | _ => false

/-- The hollow types that inferences come upon, and the arrays and lists of the elements of hollow
types. -/
def isMisbuilt : Ty → Bool
  | .array t rank => t.isUnfit && rank = 1
  | .list t => t.isUnfit
  | t => t.isMisinferred

theorem isHollow_iff {t : Ty} : t.isHollow = true ↔ ∃ s ∈ t.parts, s.isUnfit = true :=
  List.any_eq_true

theorem isUnfit_of_isValueType {t : Ty} (h : t.isValueType = true) : t.isUnfit = false := by
  cases t with
  | special s => cases s <;> simp_all [isValueType, SpecialType.isValueType, isUnfit]
  | _ => simp_all [isValueType, isUnfit]

theorem isHollow_nullable {t : Ty} (h : t.isValueType = true) : (nullable t).isHollow = false := by
  simp [isHollow, parts, isUnfit_of_isValueType h]

theorem isUnfit_toNullable {t : Ty} (h : t.isUnfit = false) : t.toNullable.isUnfit = false := by
  rcases t.toNullable_cases with he | he <;> rw [he]
  · exact h
  · rfl

theorem isUnfit_toArray {t : Ty} (h : t.isUnfit = false) (rank : Nat) :
    (t.toArray rank).isUnfit = false := by
  rcases t.toArray_cases rank with he | he <;> rw [he]
  · exact h
  · rfl

theorem isHollow_of_isMisinferred {t : Ty} (h : t.isMisinferred = true) : t.isHollow = true := by
  cases t <;> simp_all [isMisinferred, isHollow, parts, isUnfit]

/-- What an enumeration yields is within the type that is enumerated, or it is a character. -/
theorem mem_parts_of_element? {t e : Ty} (h : t.element? = some e) : e ∈ t.parts ∨ e = .char := by
  cases t with
  | special s => cases s <;> simp_all [element?]
  | _ => simp_all [element?, parts]

end Ty

namespace Listing

variable {p : Prop} {l l' : Listing} {t : Ty}

/-! ### What binding lists -/

/-- What binding may list, by where it comes from. Where `p` holds, no type syntax of a text builds
on an unfit type. -/
inductive Infers (p : Prop) (l : Listing) : Ty → Prop
  | listed {t : Ty} (ht : t ∈ l.types) : Infers p l t
  | named (name : String) (isStruct : Bool) : Infers p l (.named name isStruct)
  | nullable {t : Ty} (ht : t ∈ l.types) : Infers p l t.toNullable
  /-- Brackets in type syntax. -/
  | written {t : Ty} (ht : t ∈ l.types) (hp : p → t.isUnfit = false) (rank : Nat) :
      Infers p l (t.toArray rank)
  /-- Type arguments in type syntax. -/
  | applied {g : Generic} {ts : List Ty} {t : Ty} (h : Ty.ofGeneric? g ts = some t)
      (hts : ∀ s ∈ ts, s ∈ l.types ∧ s.isError = false) (hp : p → ∀ s ∈ ts, s.isUnfit = false) :
      Infers p l t
  /-- The array of some elements, of which the best type is never that of null. -/
  | elements {t : Ty} (ht : t ∈ l.types) (hnull : t ≠ .null) : Infers p l (t.toArray 1)
  /-- The results of a query, which are never of type `void`. -/
  | results {t : Ty} (ht : t ∈ l.types) (he : t.isError = false) (hvoid : t ≠ .void) :
      Infers p l (.sequence t)
  | groups {k t : Ty} (hk : k ∈ l.types) (ht : t ∈ l.types) (hke : k.isError = false)
      (hte : t.isError = false) : Infers p l (.grouping k t)
  /-- What the library makes an array of. -/
  | copied {t e : Ty} (ht : t ∈ l.types) (he : t.element? = some e) (hmem : e ∈ l.types) :
      Infers p l (e.toArray 1)
  /-- What the library makes a list of. -/
  | collected {t e : Ty} (ht : t ∈ l.types) (he : t.element? = some e) (hmem : e ∈ l.types)
      (herror : e.isError = false) : Infers p l (.list e)

theorem Infers.offers (h : l.Infers p t) : l.Offers t := by
  cases h with
  | listed ht => exact .listed ht
  | named name isStruct => exact .named name isStruct
  | nullable ht => exact .nullable ht
  | written ht _ rank => exact .array ht rank
  | applied h hts => exact .generic h hts
  | elements ht | copied _ _ ht => exact .array ht 1
  | @results t ht he =>
    refine @Offers.generic l .sequence [t] _ rfl fun s hs => ?_
    obtain rfl := List.mem_singleton.mp hs
    exact ⟨ht, he⟩
  | @groups k t hk ht hke hte =>
    refine @Offers.generic l .grouping [k, t] _ rfl fun s hs => ?_
    rcases List.mem_cons.mp hs with rfl | hs
    · exact ⟨hk, hke⟩
    · obtain rfl := List.mem_singleton.mp hs
      exact ⟨ht, hte⟩
  | @collected t e _ _ hmem herror =>
    refine @Offers.generic l .list [e] _ rfl fun s hs => ?_
    obtain rfl := List.mem_singleton.mp hs
    exact ⟨hmem, herror⟩

/-- A listing and what binding makes of it in one step. -/
def Gain (p : Prop) (l l' : Listing) : Prop := ∃ t, l.Infers p t ∧ l' = l.add t

/-- A listing and what binding makes of it. -/
abbrev Gains (p : Prop) : Listing → Listing → Prop := Relation.ReflTransGen (Gain p)

theorem Infers.gains (h : l.Infers p t) : l.Gains p (l.add t) := .single ⟨t, h, rfl⟩

theorem Infers.mem_add (h : l.Infers p t) (hl : l.Sound) : t ∈ (l.add t).types :=
  h.offers.mem_add hl

namespace Gains

theorem grows (h : l.Gains p l') : l.Grows l' :=
  Relation.ReflTransGen.mono (fun _ _ ⟨t, ht, he⟩ => ⟨t, ht.offers, he⟩) l l' h

theorem mem (h : l.Gains p l') (ht : t ∈ l.types) : t ∈ l'.types := h.grows.mem ht

theorem sound (h : l.Gains p l') (hl : l.Sound) : l'.Sound := h.grows.sound hl

theorem infers (hgains : l.Gains p l') (h : l.Infers p t) : l'.Infers p t := by
  cases h with
  | listed ht => exact .listed (hgains.mem ht)
  | named name isStruct => exact .named name isStruct
  | nullable ht => exact .nullable (hgains.mem ht)
  | written ht hp rank => exact .written (hgains.mem ht) hp rank
  | applied h hts hp => exact .applied h (fun s hs => ⟨hgains.mem (hts s hs).1, (hts s hs).2⟩) hp
  | elements ht hnull => exact .elements (hgains.mem ht) hnull
  | results ht he hvoid => exact .results (hgains.mem ht) he hvoid
  | groups hk ht hke hte => exact .groups (hgains.mem hk) (hgains.mem ht) hke hte
  | copied ht he hmem => exact .copied (hgains.mem ht) he (hgains.mem hmem)
  | collected ht he hmem herror => exact .collected (hgains.mem ht) he (hgains.mem hmem) herror

end Gains

/-! ### Where hollow types come from -/

/-- The hollow types of a listing are built as inferences and the library build them, and there are
none unless an inference came upon one. -/
structure Founded (l : Listing) : Prop where
  misbuilt : ∀ t ∈ l.types, t.isHollow = true → t.isMisbuilt = true
  misinferred : (∃ t ∈ l.types, t.isHollow = true) → ∃ t ∈ l.types, t.isMisinferred = true

theorem founded_first : ({} : Listing).Founded := by
  have hnone : ∀ t ∈ ({} : Listing).types, t.isHollow = false := by decide
  refine ⟨fun t ht hollow => ?_, fun ⟨t, ht, hollow⟩ => ?_⟩
  all_goals
    rw [hnone t ht] at hollow
    cases hollow

theorem eq_or_mem_of_mem_add {u : Ty} (h : u ∈ (l.add t).types) : u = t ∨ u ∈ l.types := by
  unfold Listing.add at h
  split at h
  · exact .inr h
  split at h
  · exact .inr h
  · rcases List.mem_append.mp h with h | h
    · exact .inr h
    · exact .inl (List.mem_singleton.mp h)

/-- A hollow type may be listed where an inference comes upon it, or where one is listed already. -/
theorem Founded.add (h : l.Founded)
    (ht : t.isHollow = true → t.isMisbuilt = true ∧
      (t.isMisinferred = true ∨ ∃ u ∈ l.types, u.isHollow = true)) : (l.add t).Founded := by
  have hsubset := (isPrefix_types_add l t).subset
  have hlisted : (∃ u ∈ l.types, u.isHollow = true) →
      ∃ u ∈ (l.add t).types, u.isMisinferred = true := by
    intro hollow
    obtain ⟨u, hu, hmis⟩ := h.misinferred hollow
    exact ⟨u, hsubset hu, hmis⟩
  refine ⟨fun u hu hollow => ?_, fun ⟨u, hu, hollow⟩ => ?_⟩
  · rcases eq_or_mem_of_mem_add hu with rfl | hu
    · exact (ht hollow).1
    · exact h.misbuilt u hu hollow
  · rcases eq_or_mem_of_mem_add hu with rfl | hmem
    · rcases (ht hollow).2 with hmis | hollow
      · exact ⟨u, hu, hmis⟩
      · exact hlisted hollow
    · exact hlisted ⟨u, hmem, hollow⟩

/-- An array is as listed types are, or it is built on its elements. -/
theorem Founded.add_toArray (h : l.Founded) (ht : t ∈ l.types) {rank : Nat}
    (hunfit : t.isUnfit = true → rank = 1 ∧
      (t = .void ∨ ∃ u ∈ l.types, u.isHollow = true)) : (l.add (t.toArray rank)).Founded := by
  rcases t.toArray_cases rank with he | he <;> rw [he]
  · exact h.add fun hollow => ⟨h.misbuilt t ht hollow, .inr ⟨t, ht, hollow⟩⟩
  · refine h.add fun hollow => ?_
    have hu : t.isUnfit = true := by simpa [Ty.isHollow, Ty.parts] using hollow
    obtain ⟨rfl, hsource⟩ := hunfit hu
    refine ⟨by simp [Ty.isMisbuilt, hu], hsource.imp ?_ id⟩
    rintro rfl
    rfl

/-- What an enumeration yields is unfit only where the type that is enumerated is hollow. -/
theorem hollow_of_element? {e : Ty} (ht : t ∈ l.types) (he : t.element? = some e)
    (hu : e.isUnfit = true) : ∃ u ∈ l.types, u.isHollow = true := by
  rcases Ty.mem_parts_of_element? he with hpart | rfl
  · exact ⟨t, ht, Ty.isHollow_iff.mpr ⟨e, hpart, hu⟩⟩
  · cases hu

/-- Whatever binding lists, where no type syntax builds on an unfit type. -/
theorem Founded.infers (h : l.Founded) (hp : p) (ht : l.Infers p t) : (l.add t).Founded := by
  have hsolid : ∀ u : Ty, u.isHollow = false → (l.add u).Founded := by
    intro u hu
    refine h.add fun hollow => ?_
    rw [hu] at hollow
    cases hollow
  cases ht with
  | listed ht => exact h.add fun hollow => ⟨h.misbuilt t ht hollow, .inr ⟨t, ht, hollow⟩⟩
  | named name isStruct => exact hsolid _ rfl
  | @nullable t ht =>
    unfold Ty.toNullable
    split
    · exact h.add fun hollow => ⟨h.misbuilt t ht hollow, .inr ⟨t, ht, hollow⟩⟩
    next hvalue =>
      simp only [Bool.or_eq_true, Bool.not_eq_true', not_or, Bool.not_eq_false] at hvalue
      exact hsolid _ (Ty.isHollow_nullable hvalue.2)
  | written ht hfit rank =>
    refine h.add_toArray ht fun hu => ?_
    rw [hfit hp] at hu
    cases hu
  | applied hg hts hfit =>
    refine hsolid _ (Bool.eq_false_iff.mpr fun hollow => ?_)
    obtain ⟨s, hs, hu⟩ := Ty.isHollow_iff.mp hollow
    rw [Ty.parts_of_generic? (Ty.ofGeneric?_eq_some_iff.mp hg)] at hs
    rw [hfit hp s hs] at hu
    cases hu
  | elements ht hnull =>
    refine h.add_toArray ht fun hu => ⟨rfl, .inl ?_⟩
    simpa [Ty.isUnfit, hnull] using hu
  | @results t ht _ hvoid =>
    refine h.add fun hollow => ?_
    have hnull : t = .null := by simpa [Ty.isHollow, Ty.parts, Ty.isUnfit, hvoid] using hollow
    subst hnull
    exact ⟨rfl, .inl rfl⟩
  | @groups k t =>
    refine h.add fun hollow => ?_
    have hmis : (Ty.grouping k t).isMisinferred = true := by
      simpa [Ty.isHollow, Ty.parts, Ty.isMisinferred] using hollow
    exact ⟨hmis, .inl hmis⟩
  | @copied t e ht he hmem =>
    exact h.add_toArray hmem fun hu => ⟨rfl, .inr (hollow_of_element? ht he hu)⟩
  | @collected t e ht he =>
    refine h.add fun hollow => ?_
    have hu : e.isUnfit = true := by simpa [Ty.isHollow, Ty.parts] using hollow
    exact ⟨hu, .inr (hollow_of_element? ht he hu)⟩

theorem Gains.founded (h : l.Gains p l') (hp : p) (hl : l.Founded) : l'.Founded := by
  induction h with
  | refl => exact hl
  | tail _ hgain ih =>
    obtain ⟨t, ht, rfl⟩ := hgain
    exact ih.infers hp ht

end Listing

end CSharpFront
