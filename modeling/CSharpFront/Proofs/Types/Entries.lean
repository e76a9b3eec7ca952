import CSharpFront.Proofs.Types.Listing
import CSharpFront.Types.Conversion
/-!
Listings as tables of entries. An entry is one layer of a type, with places where the type has
others within it. In a listing that is built well the entries say all about the types, and following
the places in them comes to an end: this displays a type, and finds the conversion between two.
-/

namespace CSharpFront

/-- One layer of a type: the places of the types within it stand for them. -/
inductive Entry
  | error | null
  | special (type : SpecialType)
  | nullable (place : Nat)
  | array (place rank : Nat)
  | generic (definition : Generic) (places : List Nat)
  | named (name : String) (isStruct : Bool)
deriving DecidableEq

namespace Entry

/-- The places that an entry mentions. -/
def mentions : Entry → List Nat
  | .nullable place | .array place _ => [place]
  | .generic _ places => places
  | .error | .null | .special _ | .named _ _ => []

end Entry

namespace Listing

/-- The layer of a type that a listing holds for it. -/
def entryOf (l : Listing) : Ty → Entry
  | .error | .unlisted _ => .error
  | .null => .null
  | .special s => .special s
  | .nullable t => .nullable (l.placeOf t)
  | .array t rank => .array (l.placeOf t) rank
  | .sequence t => .generic .sequence [l.placeOf t]
  | .list t => .generic .list [l.placeOf t]
  | .grouping k t => .generic .grouping [l.placeOf k, l.placeOf t]
  | .named name isStruct => .named name isStruct

/-- The entry at a place. Beyond the last one every entry is that of the error type. -/
def entryAt (l : Listing) (i : Nat) : Entry := l.entryOf (l.typeAt i)

/-- The type of which an entry is the layer. -/
def typeOf (l : Listing) : Entry → Ty
  | .error => .error
  | .null => .null
  | .special s => .special s
  | .nullable place => .nullable (l.typeAt place)
  | .array place rank => .array (l.typeAt place) rank
  | .generic g places => (Ty.ofGeneric? g (places.map l.typeAt)).getD .error
  | .named name isStruct => .named name isStruct

/-- The place that is known for an entry. -/
def indexOf? (l : Listing) (e : Entry) : Option Nat := l.types.findIdx? (l.entryOf · = e)

/-- A table of types in which each entry stands once and mentions earlier ones only. -/
structure Interned (l : Listing) : Prop where
  distinct : ∀ {i j : Nat}, i < l.size → j < l.size → l.entryAt i = l.entryAt j → i = j
  indexOf : ∀ {e : Entry} {i : Nat}, l.indexOf? e = some i ↔ i < l.size ∧ l.entryAt i = e
  mentions : ∀ {i : Nat}, i < l.size → ∀ j ∈ (l.entryAt i).mentions, j < i ∧ l.entryAt j ≠ .error
  nullable : ∀ {i j : Nat}, i < l.size → l.entryAt i = .nullable j →
    (l.typeAt j).isValueType = true ∧ (l.typeAt j).isNullable = false
  array : ∀ {i j rank : Nat}, i < l.size → l.entryAt i = .array j rank → 1 ≤ rank
  generic : ∀ {i : Nat} {g : Generic} {places : List Nat}, i < l.size →
    l.entryAt i = .generic g places → places.length = g.arity
  place : ∀ {s t : Ty}, s ∈ l.types → t ∈ l.types → (l.placeOf s = l.placeOf t ↔ s = t)
  offers : ∀ {t : Ty}, l.Offers t →
    l.indexOf? (l.entryOf t) = if t ∈ l.types then some (l.placeOf t) else none

variable {l : Listing}

theorem mentions_entryOf (l : Listing) (t : Ty) : (l.entryOf t).mentions = t.parts.map l.placeOf := by
  cases t <;> rfl

theorem entryOf_eq_error_iff {t : Ty} : l.entryOf t = .error ↔ t.isError = true := by
  cases t <;> simp [entryOf, Ty.isError]

theorem Sound.typeAt_placeOf (h : l.Sound) {t : Ty} (ht : t ∈ l.types) :
    l.typeAt (l.placeOf t) = t := by
  have hget := typeAt_of_lt (h.placeOf_lt ht)
  rw [h.getElem?_eq_some_iff.mpr ⟨ht, rfl⟩] at hget
  exact (Option.some.inj hget).symm

theorem lt_of_mem_parts {i : Nat} {s : Ty} (hs : s ∈ (l.typeAt i).parts) : i < l.size := by
  rcases Nat.lt_or_ge i l.size with hi | hi
  · exact hi
  · simp [typeAt_of_le hi, Ty.parts] at hs

/-- What is within a type stands before it. -/
theorem Sound.placeOf_part_lt (h : l.Sound) {i : Nat} {s : Ty} (hs : s ∈ (l.typeAt i).parts) :
    s ∈ l.types ∧ l.placeOf s < i := by
  have hi := lt_of_mem_parts hs
  have hmem := h.parts i _ (typeAt_of_lt hi) s hs
  obtain ⟨j, hj, hget⟩ := List.getElem_of_mem hmem
  have hji : j < i := by
    rw [List.length_take] at hj
    omega
  rw [List.getElem_take] at hget
  have hj' : l.types[j]? = some s := by
    rw [← hget]
    exact List.getElem?_eq_getElem _
  obtain ⟨hs', hplace⟩ := h.getElem?_eq_some_iff.mp hj'
  exact ⟨hs', by omega⟩

/-- A type is built again of its entry, if the types within it are listed. -/
theorem Sound.typeOf_entryOf (h : l.Sound) {t : Ty} (ho : l.Offers t) :
    l.typeOf (l.entryOf t) = t := by
  have hparts : ∀ s ∈ t.parts, l.typeAt (l.placeOf s) = s := fun s hs =>
    h.typeAt_placeOf (ho.part_mem h s hs)
  have hw := ho.wellBuilt h
  cases t <;> simp_all [entryOf, typeOf, Ty.parts, Ty.ofGeneric?, Ty.WellBuilt]

/-- A table knows a type by its entry. -/
theorem Sound.entryOf_inj (h : l.Sound) {s t : Ty} (hs : l.Offers s) (ht : l.Offers t) :
    l.entryOf s = l.entryOf t ↔ s = t := by
  refine ⟨fun he => ?_, fun he => he ▸ rfl⟩
  rw [← h.typeOf_entryOf hs, he, h.typeOf_entryOf ht]

theorem Sound.entryAt_inj (h : l.Sound) {i j : Nat} (hi : i < l.size) (hj : j < l.size) :
    l.entryAt i = l.entryAt j ↔ i = j := by
  unfold entryAt
  rw [h.entryOf_inj (.listed (typeAt_mem hi)) (.listed (typeAt_mem hj)), h.typeAt_inj]

theorem Sound.indexOf?_eq_some_iff (h : l.Sound) {e : Entry} {i : Nat} :
    l.indexOf? e = some i ↔ i < l.size ∧ l.entryAt i = e := by
  have hat : ∀ {j : Nat} (hj : j < l.types.length), l.types[j] = l.typeAt j := fun hj =>
    Option.some.inj ((List.getElem?_eq_getElem hj).symm.trans (typeAt_of_lt hj))
  unfold indexOf?
  rw [List.findIdx?_eq_some_iff_getElem]
  constructor
  · rintro ⟨hi, he, -⟩
    rw [hat hi, decide_eq_true_eq] at he
    exact ⟨hi, he⟩
  · rintro ⟨hi, rfl⟩
    refine ⟨hi, by simp [hat hi, entryAt], fun j hj he => ?_⟩
    have hjl : j < l.types.length := Nat.lt_trans hj hi
    rw [hat hjl, decide_eq_true_eq] at he
    have hji := (h.entryAt_inj hjl hi).mp he
    omega

/-- What is about to be listed is known by its entry exactly if it is listed. -/
theorem Sound.indexOf?_entryOf (h : l.Sound) {t : Ty} (ho : l.Offers t) :
    l.indexOf? (l.entryOf t) = if t ∈ l.types then some (l.placeOf t) else none := by
  split
  next ht =>
    refine h.indexOf?_eq_some_iff.mpr ⟨h.placeOf_lt ht, ?_⟩
    rw [entryAt, h.typeAt_placeOf ht]
  next ht =>
    cases hi : l.indexOf? (l.entryOf t) with
    | none => rfl
    | some i =>
      obtain ⟨hlt, he⟩ := h.indexOf?_eq_some_iff.mp hi
      rw [entryAt, h.entryOf_inj (.listed (typeAt_mem hlt)) ho] at he
      exact absurd (he ▸ typeAt_mem hlt) ht

theorem Sound.interned (h : l.Sound) : l.Interned where
  distinct hi hj he := (h.entryAt_inj hi hj).mp he
  indexOf := h.indexOf?_eq_some_iff
  mentions {i} hi j hj := by
    unfold entryAt at hj
    rw [mentions_entryOf] at hj
    obtain ⟨s, hs, rfl⟩ := List.mem_map.mp hj
    obtain ⟨hmem, hlt⟩ := h.placeOf_part_lt hs
    refine ⟨hlt, ?_⟩
    unfold entryAt
    rw [h.typeAt_placeOf hmem, ne_eq, entryOf_eq_error_iff]
    have he := ((h.wellBuilt _ (typeAt_mem hi)).part hs).1
    simp [he]
  nullable {i j} hi he := by
    have hw := h.wellBuilt _ (typeAt_mem hi)
    have hmem : ∀ s ∈ (l.typeAt i).parts, s ∈ l.types := fun s hs => h.part_mem (typeAt_mem hi) hs
    unfold entryAt at he
    cases ht : l.typeAt i with
    | nullable t =>
      rw [ht] at hw hmem he
      obtain rfl : l.placeOf t = j := by simpa [entryOf] using he
      rw [h.typeAt_placeOf (hmem t (by simp [Ty.parts]))]
      exact ⟨hw.1, hw.2.1⟩
    | _ => simp [ht, entryOf] at he
  array {i j rank} hi he := by
    have hw := h.wellBuilt _ (typeAt_mem hi)
    unfold entryAt at he
    cases ht : l.typeAt i with
    | array t n =>
      rw [ht] at hw he
      obtain ⟨-, rfl⟩ : l.placeOf t = j ∧ n = rank := by simpa [entryOf] using he
      exact hw.2.1
    | _ => simp [ht, entryOf] at he
  generic {i g places} hi he := by
    unfold entryAt at he
    cases ht : l.typeAt i <;> simp [ht, entryOf] at he
    all_goals
      obtain ⟨rfl, rfl⟩ := he
      rfl
  place := h.placeOf_inj
  offers := h.indexOf?_entryOf

/-! ### Following places -/

/-- The spelling of the type at a place, by the entries alone, if it has no more layers than a
bound. -/
def displayWithin (l : Listing) : Nat → Nat → Option String
  | 0, _ => none
  | bound + 1, i =>
    match l.entryAt i with
    | .error => some "?"
    | .null => some "<null>"
    | .special s => some s.text
    | .nullable j => do return (← l.displayWithin bound j) ++ "?"
    | .array j rank => do
      return (← l.displayWithin bound j) ++ "[" ++ "".pushn ',' (rank - 1) ++ "]"
    | .generic g places => do
      let shown ← places.mapM (l.displayWithin bound)
      return g.fullName ++ "<" ++ String.join (shown.intersperse ", ") ++ ">"
    | .named name _ => some name

/-- The place of the type of what an enumeration of a value yields. -/
def elementAt? (l : Listing) (i : Nat) : Option Nat :=
  match l.entryAt i with
  | .array j _ | .generic .sequence [j] | .generic .list [j] | .generic .grouping [_, j] => some j
  | .special .string => some (l.placeOf .char)
  | _ => none

/-- The conversion that the language gives between the types at two places, by the entries alone, if
they have no more layers than a bound. -/
def conversionWithin (l : Listing) : Nat → Nat → Nat → Option Conversion
  | 0, _, _ => none
  | bound + 1, i, j =>
    if i = j then some .identity
    else match l.entryAt i, l.entryAt j with
      | .error, _ | _, .error => some .identity
      | .special .void, _ | _, .special .void => some .none
      | .null, _ =>
        some (if (l.typeAt j).isReferenceType || (l.typeAt j).isNullable then .implicitStandard
          else .none)
      | _, .null => some .none
      | _, .special .object => some .implicitStandard
      | .special .object, _ => some .explicitOnly
      | .special s, .special t => some (s.conversion t)
      | .nullable s, .nullable t => do return (← l.conversionWithin bound s t).lift
      | _, .nullable t => do return (← l.conversionWithin bound i t).lift
      | .nullable s, _ => do
        return if (← l.conversionWithin bound s j).isPossible then .explicitOnly else .none
      | .array s m, .array t n =>
        if m = n && (l.typeAt s).isReferenceType && (l.typeAt t).isReferenceType then do
          return (← l.conversionWithin bound s t).lift
        else some .none
      | _, .generic .sequence [t] =>
        match l.elementAt? i with
        | none => some (l.typeAt i).interfaceConversion
        | some s =>
          if s = t then some .implicitStandard
          else if (l.typeAt s).isReferenceType && (l.typeAt t).isReferenceType then do
            return if (← l.conversionWithin bound s t).isImplicit then .implicitStandard
              else (l.typeAt i).interfaceConversion
          else some (l.typeAt i).interfaceConversion
      | .generic g _, _ => some (if g.isInterface then (l.typeAt j).interfaceConversion else .none)
      | _, _ => some .none

/-- Types are displayed by following places. -/
theorem Sound.displayWithin_eq (h : l.Sound) {bound i : Nat} (hi : i < bound) :
    l.displayWithin bound i = some (l.typeAt i).display := by
  induction bound generalizing i with
  | zero => omega
  | succ bound ih =>
    have hpart : ∀ s ∈ (l.typeAt i).parts, l.displayWithin bound (l.placeOf s) = some s.display := by
      intro s hs
      obtain ⟨hmem, hlt⟩ := h.placeOf_part_lt hs
      rw [ih (by omega), h.typeAt_placeOf hmem]
    unfold displayWithin entryAt
    cases ht : l.typeAt i <;> simp_all [entryOf, Ty.parts, Ty.display, String.join, String.append_assoc]

/-- Conversions are found by following places, in either type or in both. -/
theorem Sound.conversionWithin_eq (h : l.Sound) {bound i j : Nat} (hij : i + j < bound) :
    l.conversionWithin bound i j = some ((l.typeAt i).standardConversion (l.typeAt j)) := by
  induction bound generalizing i j with
  | zero => omega
  | succ bound ih =>
    have hleft : ∀ s ∈ (l.typeAt i).parts,
        l.conversionWithin bound (l.placeOf s) j = some (s.standardConversion (l.typeAt j)) := by
      intro s hs
      obtain ⟨hmem, hlt⟩ := h.placeOf_part_lt hs
      rw [ih (by omega), h.typeAt_placeOf hmem]
    have hright : ∀ t ∈ (l.typeAt j).parts,
        l.conversionWithin bound i (l.placeOf t) = some ((l.typeAt i).standardConversion t) := by
      intro t ht
      obtain ⟨hmem, hlt⟩ := h.placeOf_part_lt ht
      rw [ih (by omega), h.typeAt_placeOf hmem]
    have hboth : ∀ s ∈ (l.typeAt i).parts, ∀ t ∈ (l.typeAt j).parts,
        l.conversionWithin bound (l.placeOf s) (l.placeOf t) = some (s.standardConversion t) := by
      intro s hs t ht
      obtain ⟨hmem, hlt⟩ := h.placeOf_part_lt hs
      obtain ⟨hmem', hlt'⟩ := h.placeOf_part_lt ht
      rw [ih (by omega), h.typeAt_placeOf hmem, h.typeAt_placeOf hmem']
    have hplace : ∀ s ∈ (l.typeAt i).parts ++ (l.typeAt j).parts, l.typeAt (l.placeOf s) = s := by
      intro s hs
      rcases List.mem_append.mp hs with hs | hs
      · exact h.typeAt_placeOf (h.placeOf_part_lt hs).1
      · exact h.typeAt_placeOf (h.placeOf_part_lt hs).1
    have hsame : ∀ s ∈ (l.typeAt i).parts ++ [.char], ∀ t ∈ (l.typeAt j).parts,
        (l.placeOf s = l.placeOf t ↔ s = t) := by
      intro s hs t ht
      refine h.placeOf_inj ?_ (h.placeOf_part_lt ht).1
      rcases List.mem_append.mp hs with hs | hs
      · exact (h.placeOf_part_lt hs).1
      · rw [List.mem_singleton.mp hs]
        exact h.special_mem .char
    have hchar : l.typeAt (l.placeOf .char) = .char := h.typeAt_placeOf (h.special_mem .char)
    unfold conversionWithin Ty.standardConversion
    by_cases he : i = j
    · simp [he]
    · have hne : l.typeAt i ≠ l.typeAt j := fun h' => he (h.typeAt_inj.mp h')
      unfold elementAt? entryAt
      generalize l.typeAt i = s at *
      generalize l.typeAt j = t at *
      clear ih
      -- the predefined types that the language treats apart come first
      have hspecial : ∀ k : SpecialType,
          k = .void ∨ k = .object ∨ k = .string ∨ (k ≠ .void ∧ k ≠ .object ∧ k ≠ .string) := by
        intro k
        cases k <;> simp
      cases s with
      | special s =>
        rcases hspecial s with rfl | rfl | rfl | ⟨hsv, hso, hss⟩
        all_goals
          cases t with
          | special t =>
            rcases hspecial t with rfl | rfl | rfl | ⟨htv, hto, hts⟩
            all_goals simp_all [entryOf, Ty.isError]
          | sequence t =>
            simp_all [entryOf, Ty.parts, Ty.isError, Ty.interfaceConversion, Ty.isReferenceType] <;>
              grind
          | _ => simp_all [entryOf, Ty.parts, Ty.isError, Ty.isInterface]
      | _ =>
        cases t with
        | special t =>
          rcases hspecial t with rfl | rfl | rfl | ⟨htv, hto, hts⟩
          all_goals
            simp_all [entryOf, Ty.parts, Ty.isError, Ty.isInterface, Generic.isInterface]
        | _ =>
          simp_all [entryOf, Ty.parts, Ty.isError, Ty.isInterface, Generic.isInterface,
            Ty.interfaceConversion] <;> grind

end Listing

end CSharpFront
