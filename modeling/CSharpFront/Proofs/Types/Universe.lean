import CSharpFront.Proofs.Types.Widening
/-!
Tables of types that grow by their operations on places that are taken. Such a table never fills in
what stands at a place, so that its listing is built well, and the conversions that take no operator
order its places.
-/

namespace CSharpFront

namespace Universe

variable {u u' : Universe}

/-- One operation on types that stand in the table. -/
inductive Step (u : Universe) : Universe → Prop
  | nullable {i : Nat} (hi : i < u.listing.size) : Step u (u.add (u.listing.typeAt i).toNullable)
  | array {i : Nat} (hi : i < u.listing.size) (rank : Nat) :
      Step u (u.add ((u.listing.typeAt i).toArray rank))
  | generic {g : Generic} {places : List Nat} {t : Ty}
      (h : Ty.ofGeneric? g (places.map u.listing.typeAt) = some t)
      (hplaces : ∀ i ∈ places, i < u.listing.size ∧ (u.listing.typeAt i).isError = false) :
      Step u (u.add t)
  | named (name : String) (isStruct : Bool) : Step u (u.add (.named name isStruct))
  | field {owner i : Nat} (ho : owner < u.listing.size) (hi : i < u.listing.size) (name : String) :
      Step u (u.declareField (u.listing.typeAt owner) name (u.listing.typeAt i))
  | method {owner i : Nat} (ho : owner < u.listing.size) (hi : i < u.listing.size) (name : String) :
      Step u (u.declareMethod (u.listing.typeAt owner) name (u.listing.typeAt i))
  | conversion {i j : Nat} (hi : i < u.listing.size) (hj : j < u.listing.size)
      (isImplicit : Bool) :
      Step u (u.declareConversion ⟨u.listing.typeAt i, u.listing.typeAt j, isImplicit⟩)

/-- A table that operations built from the first one. -/
def Reachable (u : Universe) : Prop := Relation.ReflTransGen Step {} u

/-- No type mentions a place that is not taken, so that one more type changes none. -/
theorem listing_add_of_formed (h : ∀ s ∈ u.listing.types, s.Formed) (t : Ty) :
    (u.add t).listing = u.listing.add t := by
  have hprefix := Listing.isPrefix_types_add u.listing t
  unfold add
  split
  next hsize =>
    have htypes := hprefix.eq_of_length hsize.symm
    exact Listing.ext htypes
  next =>
    have hfill : u.listing.types.map (·.fill u.listing.size t) = u.listing.types :=
      (List.map_congr_left fun s hs => Ty.fill_of_formed (h s hs) _ _).trans (List.map_id _)
    simp [fill, hfill]

theorem listing_add (h : u.listing.Sound) (t : Ty) : (u.add t).listing = u.listing.add t :=
  listing_add_of_formed (fun s hs => (h.wellBuilt s hs).formed) t

theorem Step.grows (hstep : u.Step u') (h : u.listing.Sound) : u.listing.Grows u'.listing := by
  cases hstep with
  | nullable hi =>
    rw [listing_add h]
    exact Listing.Offers.grows (.nullable (Listing.typeAt_mem hi))
  | array hi rank =>
    rw [listing_add h]
    exact Listing.Offers.grows (.array (Listing.typeAt_mem hi) rank)
  | generic ht hplaces =>
    rw [listing_add h]
    refine Listing.Offers.grows (.generic ht fun s hs => ?_)
    obtain ⟨i, hi, rfl⟩ := List.mem_map.mp hs
    obtain ⟨hlt, he⟩ := hplaces i hi
    exact ⟨Listing.typeAt_mem hlt, he⟩
  | named name isStruct =>
    rw [listing_add h]
    exact Listing.Offers.grows (.named name isStruct)
  | field | method | conversion => exact .refl

theorem Reachable.sound (h : u.Reachable) : u.listing.Sound := by
  induction h with
  | refl => exact Listing.sound_first
  | tail _ hstep ih => exact (hstep.grows ih).sound ih

/-- Whether the type at one place converts to that at another by itself, and without an operator. -/
def Converts (u : Universe) (i j : Nat) : Prop :=
  ((u.listing.typeAt i).standardConversion (u.listing.typeAt j)).isImplicit = true

/-- Whether something else than the error type stands at a place. -/
def IsTyped (u : Universe) (i : Nat) : Prop := (u.listing.typeAt i).isError = false

theorem IsTyped.lt {i : Nat} (hi : u.IsTyped i) : i < u.listing.size := by
  rcases Nat.lt_or_ge i u.listing.size with hlt | hge
  · exact hlt
  · unfold IsTyped at hi
    simp [Listing.typeAt_of_le hge, Ty.isError] at hi

theorem Reachable.converts_iff (h : u.Reachable) {i j : Nat} (hi : u.IsTyped i)
    (hj : u.IsTyped j) :
    u.Converts i j ↔ Ty.Widens (u.listing.typeAt i) (u.listing.typeAt j) :=
  Ty.widens_iff (h.sound.wellBuilt _ (Listing.typeAt_mem hi.lt))
    (h.sound.wellBuilt _ (Listing.typeAt_mem hj.lt)) hi hj

/-- The conversions that take no operator order the places of the types in a table, however it was
built: each type converts to itself, two conversions make one, and types that convert to each other
stand at one place. -/
theorem converts_order (h : u.Reachable) :
    (∀ i, u.IsTyped i → u.Converts i i) ∧
      (∀ i j k, u.IsTyped i → u.IsTyped j → u.IsTyped k →
        u.Converts i j → u.Converts j k → u.Converts i k) ∧
      ∀ i j, u.IsTyped i → u.IsTyped j → u.Converts i j → u.Converts j i → i = j := by
  refine ⟨?_, ?_, ?_⟩
  · intro i hi
    exact (h.converts_iff hi hi).mpr (.refl _)
  · intro i j k hi hj hk hij hjk
    have hij' := (h.converts_iff hi hj).mp hij
    have hjk' := (h.converts_iff hj hk).mp hjk
    exact (h.converts_iff hi hk).mpr (hij'.trans hjk')
  · intro i j hi hj hij hji
    have hij' := (h.converts_iff hi hj).mp hij
    have hji' := (h.converts_iff hj hi).mp hji
    exact h.sound.typeAt_inj.mp (hij'.antisymm hji')

/-- The arrays of strings, and the sequences of strings and of objects. -/
def ofStrings : Universe :=
  let u : Universe := ({} : Universe).add (Ty.string.toArray 1)
  (u.add (.sequence .string)).add (.sequence .object)

theorem ofStrings_reachable : ofStrings.Reachable := by
  have harray : Reachable (({} : Universe).add (Ty.string.toArray 1)) :=
    .single (.array (i := 15) (by decide) 1)
  have hstrings := harray.tail (@Step.generic _ .sequence [15] _ rfl (by decide))
  exact hstrings.tail (@Step.generic _ .sequence [16] _ rfl (by decide))

theorem converts_order_ofStrings :
    ofStrings.Reachable ∧ ofStrings.Converts 18 20 ∧ ¬ ofStrings.Converts 20 18 := by
  have h := ofStrings_reachable
  have harray : ofStrings.IsTyped 18 := rfl
  have hstrings : ofStrings.IsTyped 19 := rfl
  have hobjects : ofStrings.IsTyped 20 := rfl
  obtain ⟨-, htrans, hantisymm⟩ := converts_order h
  have hfirst : ofStrings.Converts 18 19 := (h.converts_iff harray hstrings).mpr (.elements rfl)
  have hsecond : ofStrings.Converts 19 20 :=
    (h.converts_iff hstrings hobjects).mpr (.covariant rfl rfl rfl (.object rfl (by decide)))
  have hboth := htrans 18 19 20 harray hstrings hobjects hfirst hsecond
  refine ⟨h, hboth, fun hback => ?_⟩
  have heq := hantisymm 18 20 harray hobjects hboth hback
  omega

end Universe

end CSharpFront
