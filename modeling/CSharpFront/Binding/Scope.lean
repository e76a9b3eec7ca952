import CSharpFront.Text.Span
import CSharpFront.Types.Basic
/-!
Scopes. A scope holds the variables and the labels that are declared in it; a chain of scopes leads
from the innermost one outwards, and what an inner scope declares hides what outer ones do.
-/

namespace CSharpFront

/-- A variable, a parameter or a range variable of a query. -/
@[ext] structure Local where
  type : Ty
  span : Span
deriving DecidableEq

/-- What one scope declares. A label is known by the place of its name in the text. -/
@[ext] structure Scope where
  locals : List (String × Local) := []
  labels : List (String × Nat) := []
deriving DecidableEq

/-- A scope with those around it, the nearest first. -/
@[ext] structure ScopeChain where
  inner : Scope := {}
  outer : List Scope := []
deriving DecidableEq

namespace ScopeChain

def toList (c : ScopeChain) : List Scope := c.inner :: c.outer

/-- The chain inside a new scope. -/
def push (c : ScopeChain) (s : Scope := {}) : ScopeChain := ⟨s, c.toList⟩

/-- The chain around the innermost scope, if there is one. -/
def pop? (c : ScopeChain) : Option ScopeChain :=
  match c.outer with
  | [] => none
  | s :: ss => some ⟨s, ss⟩

/-- The chain with a variable in its innermost scope, which hides an earlier one of its name. -/
def shadow (c : ScopeChain) (name : String) (l : Local) : ScopeChain :=
  { c with inner := { c.inner with locals := (name, l) :: c.inner.locals } }

/-- The chain with a variable in its innermost scope, if the scope has none of that name. -/
def declareLocal? (c : ScopeChain) (name : String) (l : Local) : Option ScopeChain :=
  if (c.inner.locals.lookup name).isSome then none else some (c.shadow name l)

/-- The chain with a label in its innermost scope, if the scope has none of that name. -/
def declareLabel? (c : ScopeChain) (name : String) (place : Nat) : Option ScopeChain :=
  if (c.inner.labels.lookup name).isSome then none
  else some { c with inner := { c.inner with labels := (name, place) :: c.inner.labels } }

/-- The variable that a name means. -/
def findLocal? (c : ScopeChain) (name : String) : Option Local :=
  c.toList.findSome? (·.locals.lookup name)

/-- The label that a name means. Those of blocks further in are not in the chain. -/
def findLabel? (c : ScopeChain) (name : String) : Option Nat :=
  c.toList.findSome? (·.labels.lookup name)

theorem pop?_push (c : ScopeChain) (s : Scope) : (c.push s).pop? = some c := rfl

theorem findLocal?_push (c : ScopeChain) (name : String) :
    c.push.findLocal? name = c.findLocal? name := by
  simp [findLocal?, push, toList, List.findSome?]

theorem findLabel?_push (c : ScopeChain) (name : String) :
    c.push.findLabel? name = c.findLabel? name := by
  simp [findLabel?, push, toList, List.findSome?]

theorem declareLocal?_eq_some_iff {c d : ScopeChain} {name : String} {l : Local} :
    c.declareLocal? name l = some d ↔
      c.inner.locals.lookup name = none ∧ c.shadow name l = d := by
  unfold declareLocal?
  cases c.inner.locals.lookup name <;> simp

theorem findLocal?_shadow (c : ScopeChain) (m n : String) (l : Local) :
    (c.shadow n l).findLocal? m = if m = n then some l else c.findLocal? m := by
  unfold findLocal? shadow toList
  by_cases h : m = n
  · simp [h, List.findSome?]
  · simp [h, List.findSome?, List.lookup_cons, beq_eq_false_iff_ne.mpr h]

theorem findLabel?_shadow (c : ScopeChain) (m n : String) (l : Local) :
    (c.shadow n l).findLabel? m = c.findLabel? m := rfl

end ScopeChain

end CSharpFront
