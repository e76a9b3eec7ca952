import CSharpFront.Binding.Statements
import CSharpFront.Proofs.Types.Inferred
/-!
The types that binding comes upon are built of listed ones: those that operators and members of the
library yield, and those of what a context declares.
-/

namespace CSharpFront

/-! ## Computations that list types

`Builds` says that a computation lets a listing grow by nothing but what binding may infer from it,
and that its results have a property of what the listing has become. One rule for each way to put
steps together carries this from the steps to the whole.
-/

section

/-- However far the listing in the state has grown from a listing, the computation only lets it
grow, and its result has a property of the listing then. -/
def Builds (p : Prop) {σ α : Type} (listing : σ → Listing) (l : Listing) (m : StateM σ α)
    (post : Listing → α → Prop) : Prop :=
  ∀ s, l.Gains p (listing s) →
    (listing s).Gains p (listing (m s).2) ∧ post (listing (m s).2) (m s).1

namespace Builds

variable {p : Prop} {σ α β : Type} {listing : σ → Listing} {l : Listing} {m : StateM σ α}
  {post : Listing → α → Prop}

theorem pure {a : α} (h : ∀ l', l.Gains p l' → post l' a) :
    Builds p listing l (Pure.pure a) post :=
  fun s hs => ⟨.refl, h (listing s) hs⟩

theorem bind {f : α → StateM σ β} {after : Listing → β → Prop} (hm : Builds p listing l m post)
    (hf : ∀ a l', l.Gains p l' → post l' a → Builds p listing l' (f a) after) :
    Builds p listing l (m >>= f) after := by
  intro s hs
  obtain ⟨hgains, hpost⟩ := hm s hs
  obtain ⟨hgains', hafter⟩ := hf (m s).1 _ (hs.trans hgains) hpost (m s).2 .refl
  exact ⟨hgains.trans hgains', hafter⟩

theorem imp {after : Listing → α → Prop} (hm : Builds p listing l m post)
    (h : ∀ a l', l.Gains p l' → post l' a → after l' a) : Builds p listing l m after := by
  intro s hs
  obtain ⟨hgains, hpost⟩ := hm s hs
  exact ⟨hgains, h _ _ (hs.trans hgains) hpost⟩

theorem map {f : α → β} {after : Listing → β → Prop} (hm : Builds p listing l m post)
    (h : ∀ a l', l.Gains p l' → post l' a → after l' (f a)) :
    Builds p listing l (f <$> m) after := by
  intro s hs
  obtain ⟨hgains, hpost⟩ := hm s hs
  exact ⟨hgains, h _ _ (hs.trans hgains) hpost⟩

theorem ite {q : Prop} [Decidable q] {n : StateM σ α} (hm : q → Builds p listing l m post)
    (hn : ¬ q → Builds p listing l n post) : Builds p listing l (if q then m else n) post := by
  split
  next h => exact hm h
  next h => exact hn h

theorem mono {l' : Listing} (hm : Builds p listing l m post) (hgains : l.Gains p l') :
    Builds p listing l' m post :=
  fun s hs => hm s (hgains.trans hs)

theorem foldlM {f : β → α → StateM σ β} {good : Listing → β → Prop} {as : List α}
    (hgood : ∀ {l l' b}, good l b → l.Gains p l' → good l' b)
    (hf : ∀ b, ∀ a ∈ as, ∀ l', l.Gains p l' → good l' b → Builds p listing l' (f b a) good) (b : β)
    (hb : good l b) : Builds p listing l (as.foldlM f b) good := by
  induction as generalizing b l with
  | nil => exact .pure fun l' hgains => hgood hb hgains
  | cons a as ih =>
    rw [List.foldlM_cons]
    apply Builds.bind (hf b a List.mem_cons_self l .refl hb)
    intro b' l' hgains hb'
    refine ih (fun b a ha l'' hgains' => ?_) b' hb'
    exact hf b a (List.mem_cons_of_mem _ ha) l'' (hgains.trans hgains')

theorem forM {f : α → StateM σ Unit} {as : List α}
    (hf : ∀ a ∈ as, Builds p listing l (f a) fun _ _ => True) :
    Builds p listing l (as.forM f) fun _ _ => True := by
  induction as with
  | nil => exact .pure fun _ _ => trivial
  | cons a as ih =>
    rw [List.forM_eq_forM, List.forM_cons]
    apply Builds.bind (hf a List.mem_cons_self)
    intro _ l' hgains _
    exact (ih fun a ha => hf a (List.mem_cons_of_mem _ ha)).mono hgains

/-- What leaves the listing alone lists nothing. -/
theorem of_listing_eq (h : ∀ s, listing (m s).2 = listing s) :
    Builds p listing l m fun _ _ => True := by
  intro s _
  rw [h s]
  exact ⟨.refl, trivial⟩

end Builds

end

/-! ## What is inferred -/

section

variable {p : Prop} {l l' : Listing} {s t : Ty}

/-! ### Parts of listed types -/

namespace Listing

theorem Sound.isError_part (h : l.Sound) (ht : t ∈ l.types) (hs : s ∈ t.parts) :
    s.isError = false :=
  ((h.wellBuilt t ht).part hs).1

theorem Sound.element_mem (h : l.Sound) (ht : t ∈ l.types) (hs : t.element? = some s) :
    s ∈ l.types ∧ s.isError = false := by
  have hpart : ∀ u ∈ t.parts, u ∈ l.types ∧ u.isError = false := fun u hu =>
    ⟨h.part_mem ht hu, h.isError_part ht hu⟩
  cases t with
  | special k =>
    cases k <;> simp [Ty.element?] at hs
    subst hs
    exact ⟨h.special_mem .char, rfl⟩
  | array e | sequence e | list e | grouping k e =>
    obtain rfl := Option.some.inj hs
    exact hpart e (by simp [Ty.parts])
  | _ => simp [Ty.element?] at hs

theorem Sound.getD_element_mem (h : l.Sound) (ht : t ∈ l.types) :
    t.element?.getD .error ∈ l.types := by
  cases he : t.element? with
  | none => exact h.error_mem
  | some e => exact (h.element_mem ht he).1

end Listing

/-! ### What operators yield -/

theorem SpecialType.isValueType_of_promote {a b c : SpecialType} (h : a.promote b = some c) :
    c.isValueType = true := by
  unfold promote at h
  dsimp only at h
  repeat' split at h
  all_goals cases h
  all_goals rfl

namespace Ty

open Listing

theorem infers_special (h : l.Sound) (k : SpecialType) : l.Infers p (.special k) :=
  .listed (h.special_mem k)

theorem infers_error (h : l.Sound) : l.Infers p .error := .listed h.error_mem

theorem infers_nullable_special (h : l.Sound) {k : SpecialType} (hk : k.isValueType = true) :
    l.Infers p (.nullable (.special k)) := by
  have hnull : (Ty.special k).toNullable = .nullable (.special k) := by
    simp [toNullable, isError, isNullable, underlying?, isValueType, hk]
  rw [← hnull]
  exact .nullable (h.special_mem k)

theorem infers_arithmetic (h : l.Sound) (s t : Ty) : l.Infers p (s.arithmetic t) := by
  unfold arithmetic
  split
  next a b _ _ =>
    split
    next c hc =>
      split
      · exact infers_nullable_special h (SpecialType.isValueType_of_promote hc)
      · exact infers_special h c
    next => exact infers_error h
  next => exact infers_error h

theorem coalesce_mem (h : l.Sound) (hs : s ∈ l.types) : s.coalesce t ∈ l.types := by
  unfold coalesce
  split
  · exact h.error_mem
  split
  · split
    · exact hs
    · exact h.part_mem hs (by simp [parts])
  · exact hs

theorem infers_bitwise (h : l.Sound) (s t : Ty) : l.Infers p (s.bitwise t) := by
  unfold bitwise
  split
  · split
    · exact infers_special h .bool
    · exact infers_nullable_special h rfl
  · exact infers_arithmetic h s t

theorem infers_ofBinary (h : l.Sound) (operator : TokenKind) (hs : s ∈ l.types) :
    l.Infers p (.ofBinary operator s t) := by
  unfold ofBinary
  split
  next p =>
    split
    case h_9 => exact .listed (coalesce_mem h hs)
    case h_10 =>
      split
      · exact infers_special h .string
      · exact infers_arithmetic h s t
    all_goals
      first
      | exact infers_special h .bool
      | exact infers_arithmetic h _ _
      | exact infers_bitwise h s t
      | exact infers_error h
  next => exact infers_error h

theorem infers_ofUnary (h : l.Sound) (operator : TokenKind) (ht : t ∈ l.types) :
    l.Infers p (.ofUnary operator t) := by
  unfold ofUnary
  split
  · split
    · exact .listed ht
    · exact infers_error h
  · exact .listed ht
  · exact .listed ht
  · split
    · exact infers_special h .long
    · exact infers_arithmetic h t t
  · exact infers_arithmetic h t t

theorem choice_mem (h : l.Sound) (declared : List DeclaredConversion) (hs : s ∈ l.types)
    (ht : t ∈ l.types) : choice declared s t ∈ l.types := by
  unfold choice
  split
  · exact hs
  split
  · exact h.error_mem
  split
  · exact ht
  · exact hs
  · exact h.error_mem

theorem best?_mem {declared : List DeclaredConversion} {ts : List Ty}
    (h : best? declared ts = some t) : t ∈ ts :=
  List.mem_of_find?_eq_some h

theorem best?_ne_null {declared : List DeclaredConversion} {ts : List Ty}
    (h : best? declared ts = some t) : t ≠ .null := by
  have hbest := List.find?_some h
  simp_all

theorem indexed_mem (h : l.Sound) (ht : t ∈ l.types) : t.indexed ∈ l.types := by
  unfold indexed
  split
  · exact h.part_mem ht (by simp [parts])
  · exact h.part_mem ht (by simp [parts])
  · exact h.special_mem .char
  · exact h.error_mem

/-! ### Members -/

/-- The type is listed, or it is built of a listed type and holds null by itself. -/
def InferredWithNull (p : Prop) (l : Listing) (t : Ty) : Prop :=
  t ∈ l.types ∨ l.Infers p t ∧ t.isValueType = false

theorem inferredWithNull_list (h : l.Sound) (ht : t ∈ l.types) :
    InferredWithNull p l ((t.element?.map Ty.list).getD .error) := by
  cases he : t.element? with
  | none => exact .inl h.error_mem
  | some e =>
    obtain ⟨hmem, herror⟩ := h.element_mem ht he
    exact .inr ⟨.collected ht he hmem herror, rfl⟩

theorem inferredWithNull_array (h : l.Sound) (ht : t ∈ l.types) :
    InferredWithNull p l ((t.element?.map (·.toArray 1)).getD .error) := by
  cases he : t.element? with
  | none => exact .inl h.error_mem
  | some e =>
    obtain ⟨hmem, herror⟩ := h.element_mem ht he
    have hvalue : (e.toArray 1).isValueType = false := by simp [toArray, herror, isValueType]
    exact .inr ⟨.copied ht he hmem, hvalue⟩

theorem inferredWithNull_libraryMethod (h : l.Sound) (ht : t ∈ l.types) (name : String) :
    InferredWithNull p l (t.libraryMethod name) := by
  have hsome : ∀ s u : Ty, s ∈ l.types → u ∈ l.types → ∀ q : Prop, [Decidable q] →
      InferredWithNull p l (if q then s else u) := by
    intro s u hs hu q _
    split
    · exact .inl hs
    · exact .inl hu
  unfold libraryMethod
  split
  all_goals
    first
    | exact .inl (h.special_mem _)
    | exact hsome _ _ (h.special_mem _) h.error_mem _
    | exact .inl (h.getD_element_mem ht)
    | exact inferredWithNull_list h ht
    | exact inferredWithNull_array h ht
    | exact .inl h.error_mem

theorem libraryProperty_mem (h : l.Sound) (t : Ty) (name : String) :
    t.libraryProperty name ∈ l.types := by
  unfold libraryProperty
  split
  · exact h.special_mem .int
  · exact h.special_mem .int
  · exact h.special_mem .int
  · exact h.error_mem

end Ty

/-- What a context declares for the members of types is listed. -/
def Members.Listed (ms : Members) (l : Listing) : Prop :=
  ∀ t n u, ms.field? t n = some u ∨ ms.method? t n = some u → u ∈ l.types

namespace Denotation

/-- The type that an expression names is listed. -/
def Listed (d : Denotation) (l : Listing) : Prop :=
  match d with
  | .value t | .type t => t ∈ l.types
  | .unknown => True

theorem Listed.valueType {d : Denotation} (hd : d.Listed l) (h : l.Sound) :
    d.valueType ∈ l.types := by
  cases d with
  | value t => exact hd
  | type | unknown => exact h.error_mem

theorem inferredWithNull_member {d : Denotation} {ms : Members} (hd : d.Listed l) (h : l.Sound)
    (hms : ms.Listed l) (name : String) (isCall : Bool) :
    Ty.InferredWithNull p l (d.member ms name isCall) := by
  have hdeclared : ∀ t u : Ty,
      (if isCall then ms.method? t name else ms.field? t name) = some u → u ∈ l.types := by
    intro t u hu
    cases isCall with
    | true => exact hms t name u (.inr (by simpa using hu))
    | false => exact hms t name u (.inl (by simpa using hu))
  unfold member
  cases d with
  | unknown => exact .inl h.error_mem
  | type t =>
    dsimp only
    split
    next u hu => exact .inl (hdeclared t u hu)
    next =>
      split
      · exact .inl hd
      · exact .inl h.error_mem
  | value t =>
    dsimp only
    split
    · exact .inl h.error_mem
    split
    next u hu => exact .inl (hdeclared t u hu)
    next =>
      split
      · exact Ty.inferredWithNull_libraryMethod h hd name
      · exact .inl (Ty.libraryProperty_mem h t name)

end Denotation

namespace Binding

theorem infers_reach (operator : Leaf) (ht : Ty.InferredWithNull p l t) :
    l.Infers p (reach operator t) := by
  unfold reach
  split
  · rcases ht with ht | ⟨ho, hv⟩
    · exact .nullable ht
    · have hsame : t.toNullable = t := by simp [Ty.toNullable, hv]
      rw [hsame]
      exact ho
  · rcases ht with ht | ⟨ho, -⟩
    · exact .listed ht
    · exact ho

end Binding

end

end CSharpFront
