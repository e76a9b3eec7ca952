/-!
The distinct names of a text, each known by the position at which it first came.
-/

namespace CSharpFront

/-- Distinct names in the order of their first use. -/
structure NameTable where
  names : List String := []

namespace NameTable

def size (t : NameTable) : Nat := t.names.length

def isEmpty (t : NameTable) : Bool := t.names.isEmpty

/-- The position of a name, with the table that knows it: a name already known keeps its place. -/
def intern (t : NameTable) (name : String) : Nat × NameTable :=
  match t.names.idxOf? name with
  | some i => (i, t)
  | none => (t.names.length, ⟨t.names ++ [name]⟩)

def resolve? (t : NameTable) (i : Nat) : Option String := t.names[i]?

/-- The table of all the names of a list. -/
def ofNames (names : List String) : NameTable :=
  names.foldl (fun t n => (t.intern n).2) {}

/-- A position as shown to a reader. -/
def renderPosition (i : Nat) : String := s!"#{i}"

/-- The table as shown to a reader: only its size. -/
def render (t : NameTable) : String := s!"StringInterner({t.size} names)"

theorem resolve?_intern (t : NameTable) (name : String) :
    (t.intern name).2.resolve? (t.intern name).1 = some name := by
  unfold intern resolve?
  split
  next i h =>
    obtain ⟨hi, he, _⟩ := List.idxOf?_eq_some_iff.mp h
    simp [List.getElem?_eq_getElem hi, he]
  next => simp

end NameTable

end CSharpFront
