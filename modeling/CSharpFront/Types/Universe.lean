import CSharpFront.Types.Conversion
import CSharpFront.Types.Listing
import CSharpFront.Types.Member
/-!
Types that are listed one after another, with their members and the operators that convert between
them. A place can be meant before a type stands there. Once one does, it is what was meant wherever
the place was mentioned, so types are equal exactly when they stand at one place.
-/

namespace CSharpFront

/-- The type with another one for what stands at a place. -/
def Ty.fill (t : Ty) (place : Nat) (u : Ty) : Ty :=
  match t with
  | .unlisted p => if p = place then u else .unlisted p
  | .nullable t => .nullable (t.fill place u)
  | .array t rank => .array (t.fill place u) rank
  | .sequence t => .sequence (t.fill place u)
  | .list t => .list (t.fill place u)
  | .grouping k t => .grouping (k.fill place u) (t.fill place u)
  | .error | .null | .special _ | .named _ _ => t

def NamedTypes.fill (ns : NamedTypes) (place : Nat) (u : Ty) : NamedTypes :=
  ns.map fun (name, t) => (name, t.fill place u)

def MemberTable.fill (m : MemberTable) (place : Nat) (u : Ty) : MemberTable :=
  ⟨m.fields.fill place u, m.methods.fill place u⟩

def DeclaredConversion.fill (c : DeclaredConversion) (place : Nat) (u : Ty) : DeclaredConversion :=
  { c with source := c.source.fill place u, target := c.target.fill place u }

@[ext] structure Universe where
  listing : Listing := {}
  members : Members := []
  conversions : List DeclaredConversion := []

namespace Universe

/-- Takes what stands at a place for a type, wherever the place is mentioned. -/
def fill (u : Universe) (place : Nat) (t : Ty) : Universe where
  listing := ⟨u.listing.types.map (·.fill place t)⟩
  members := u.members.map fun (owner, m) => (owner.fill place t, m.fill place t)
  conversions := u.conversions.map (·.fill place t)

/-- Lists a type, unless it is listed. It is what was meant by the place that it gets. -/
def add (u : Universe) (t : Ty) : Universe :=
  if (u.listing.add t).size = u.listing.size then u
  else
    let filled := u.fill u.listing.size t
    { filled with listing := filled.listing.add t }

def declareField (u : Universe) (owner : Ty) (name : String) (t : Ty) : Universe :=
  { u with members := u.members.declareField owner name t }

def declareMethod (u : Universe) (owner : Ty) (name : String) (t : Ty) : Universe :=
  { u with members := u.members.declareMethod owner name t }

def declareConversion (u : Universe) (c : DeclaredConversion) : Universe :=
  { u with conversions := u.conversions ++ [c] }

/-- The strongest conversion from one type to another. -/
def conversion (u : Universe) (s t : Ty) : Conversion := s.conversion u.conversions t

theorem size_fill (u : Universe) (place : Nat) (t : Ty) :
    (u.fill place t).listing.size = u.listing.size := by
  simp [fill, Listing.size]

/-- A type stands somewhere once it is added. -/
theorem mem_types_add (u : Universe) {t : Ty} (h : ∀ place, t ≠ .unlisted place) :
    t ∈ (u.add t).listing.types := by
  unfold add
  split
  next hs =>
    have hp := Listing.isPrefix_types_add u.listing t
    have he : u.listing.types = (u.listing.add t).types := hp.eq_of_length hs.symm
    rw [he]
    exact Listing.mem_add h
  next => exact Listing.mem_add h

end Universe

end CSharpFront
