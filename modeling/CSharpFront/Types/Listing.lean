import CSharpFront.Types.Basic
/-!
The types that a text uses, each once, in the order in which binding came upon them. A type is
shown to readers by its place in the listing.
-/

namespace CSharpFront

@[ext] structure Listing where
  /-- The error type, the type of null and the predefined types come first. -/
  types : List Ty := .error :: .null :: SpecialType.all.map Ty.special

namespace Listing

def size (l : Listing) : Nat := l.types.length

/-- The type at a place. -/
def typeAt (l : Listing) (place : Nat) : Ty := l.types[place]?.getD (.unlisted place)

/-- The place of a type; one that is not listed comes after all that are. -/
def placeOf (l : Listing) : Ty → Nat
  | .unlisted place => place
  | t => l.types.idxOf t

/-- The listing with a type, which keeps its place if it has one. -/
def add (l : Listing) (t : Ty) : Listing :=
  match t with
  | .unlisted _ => l
  | t => if l.types.contains t then l else ⟨l.types ++ [t]⟩

/-- The types after the first ones, with their places. -/
def later (l : Listing) : List (Nat × Ty) :=
  let first : Listing := {}
  (l.types.zipIdx.drop first.size).map fun (t, i) => (i, t)

theorem mem_add {l : Listing} {t : Ty} (h : ∀ place, t ≠ .unlisted place) :
    t ∈ (l.add t).types := by
  unfold add
  split
  next place => exact absurd rfl (h place)
  next =>
    split
    next hc => simpa using hc
    next => simp

theorem isPrefix_types_add (l : Listing) (t : Ty) : l.types <+: (l.add t).types := by
  unfold add
  split
  next => exact List.prefix_rfl
  next =>
    split
    next => exact List.prefix_rfl
    next => exact List.prefix_append _ _

theorem nodup_add {l : Listing} (t : Ty) (h : l.types.Nodup) : (l.add t).types.Nodup := by
  unfold add
  split
  next => exact h
  next =>
    split
    next => exact h
    next hc =>
      simp only [List.contains_iff_mem] at hc
      simpa [List.nodup_append, h] using fun a ha (heq : a = t) => hc (heq ▸ ha)

end Listing

end CSharpFront
