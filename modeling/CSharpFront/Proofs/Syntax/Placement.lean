import CSharpFront.Syntax.Outline
import Mathlib.Algebra.Ring.Nat
/-!
Where the parts of a tree stand, and which of them were made up. A node fits its children if those
that cover text lie inside it, one after the other. Two nodes are set apart: the type of a new array
spans the brackets with the sizes, and the first variable of a declaration without a type and
without that name begins where the text before the declaration ends.
-/

namespace CSharpFront

namespace Range

/-- A range that covers text covers none outside another. -/
def Inside (r outer : Range) : Prop :=
  r.start < r.stop → outer.start ≤ r.start ∧ r.stop ≤ outer.stop

/-- Of two ranges that cover text the first ends before the second begins. -/
def Precedes (r r' : Range) : Prop :=
  r.start < r.stop → r'.start < r'.stop → r.stop ≤ r'.start

instance (r outer : Range) : Decidable (r.Inside outer) :=
  inferInstanceAs (Decidable (_ → _))

instance (r r' : Range) : Decidable (r.Precedes r') := inferInstanceAs (Decidable (_ → _ → _))

end Range

namespace OutlineRow

/-- Whether the row stands for something that the parser did not find in the text. -/
def isPlaceholder (r : OutlineRow) : Bool := r.isMissing || r.kind == .node .incompleteMember

end OutlineRow

namespace Outline

abbrev range (o : Outline) : Range := o.row.range

mutual

/-- An outline with all that is in it, in preorder. -/
def parts : Outline → List Outline
  | .mk r cs => .mk r cs :: partsAll cs

def partsAll : List Outline → List Outline
  | [] => []
  | o :: os => o.parts ++ partsAll os

end

theorem partsAll_eq_flatMap (os : List Outline) : partsAll os = os.flatMap parts := by
  induction os with
  | nil => rfl
  | cons o os ih => rw [partsAll, ih, List.flatMap_cons]

theorem parts_mk (r : OutlineRow) (cs : List Outline) :
    (mk r cs).parts = mk r cs :: cs.flatMap parts := by
  rw [parts, partsAll_eq_flatMap]

mutual

/-- The parts have the rows of the listing. -/
theorem map_row_parts (depth : Nat) : (o : Outline) → o.parts.map row = (o.rows depth).map (·.2)
  | .mk r cs => by
    rw [parts, rows, List.map_cons, List.map_cons, map_row_partsAll (depth + 1) cs]
    rfl

theorem map_row_partsAll (depth : Nat) : (os : List Outline) →
    (partsAll os).map row = (rowsAll depth os).map (·.2)
  | [] => rfl
  | o :: os => by
    rw [partsAll, rowsAll, List.map_append, List.map_append, map_row_parts depth o,
      map_row_partsAll depth os]

end

/-! ### Placeholders -/

/-- How many rows were made up. -/
def placeholders (o : Outline) : Nat := o.parts.countP (·.row.isPlaceholder)

def allPlaceholders (os : List Outline) : Nat := (os.map placeholders).sum

theorem placeholders_mk (r : OutlineRow) (cs : List Outline) :
    (mk r cs).placeholders = allPlaceholders cs + if r.isPlaceholder then 1 else 0 := by
  have hrest : (cs.flatMap parts).countP (·.row.isPlaceholder) = allPlaceholders cs := by
    rw [List.countP_flatMap]
    rfl
  rw [placeholders, parts_mk, List.countP_cons, hrest]
  rfl

@[simp] theorem allPlaceholders_nil : allPlaceholders [] = 0 := rfl

@[simp] theorem allPlaceholders_cons (o : Outline) (os : List Outline) :
    allPlaceholders (o :: os) = o.placeholders + allPlaceholders os := rfl

@[simp] theorem allPlaceholders_append (os os' : List Outline) :
    allPlaceholders (os ++ os') = allPlaceholders os + allPlaceholders os' := by
  simp [allPlaceholders]

theorem allPlaceholders_le_of_sublist {os os' : List Outline} (h : os.Sublist os') :
    allPlaceholders os ≤ allPlaceholders os' := by
  induction h with
  | slnil => exact Nat.le_refl _
  | cons o _ ih => exact Nat.le_trans ih (Nat.le_add_left _ _)
  | cons_cons o _ ih => exact Nat.add_le_add_left ih _

/-! ### Geometry -/

/-- A node declares variables without a type, and of these a child is the first and has no name. -/
def Headless (o c : Outline) : Prop :=
  o.row.kind = .node .variableDeclaration ∧
    ∃ type rest name more, o.children = type :: c :: rest ∧ type.row.isMissing = true ∧
      c.children = name :: more ∧ name.row.isMissing = true

/-- The type of a new array and one of its sizes. -/
def Straddles (o c d : Outline) : Prop :=
  o.row.kind = .node .arrayCreationExpression ∧ c.row.role = "type" ∧ d.row.role = "size"

/-- A node with a place of its own has its children inside and in order. -/
structure Fits (o : Outline) : Prop where
  start_le_stop : o.range.start ≤ o.range.stop
  inside : ∀ c ∈ o.children,
    c.range.Inside o.range ∨ o.Headless c ∧ c.range.stop ≤ o.range.stop
  sorted : o.children.Pairwise fun c d => c.range.Precedes d.range ∨ o.Straddles c d

/-- All parts of an outline fit. -/
def FitsAll (o : Outline) : Prop := ∀ p ∈ o.parts, p.Fits

theorem fitsAll_mk {r : OutlineRow} {cs : List Outline} :
    (mk r cs).FitsAll ↔ (mk r cs).Fits ∧ ∀ c ∈ cs, c.FitsAll := by
  unfold FitsAll
  rw [parts_mk, List.forall_mem_cons]
  simp only [List.mem_flatMap]
  exact and_congr_right fun _ => ⟨fun h c hc p hp => h p ⟨c, hc, hp⟩,
    fun h p ⟨c, hc, hp⟩ => h c hc p hp⟩

/-- A node whose children all lie inside it in order. -/
theorem Fits.of_sorted {r : OutlineRow} {cs : List Outline} (hr : r.range.start ≤ r.range.stop)
    (hi : ∀ c ∈ cs, c.range.Inside r.range)
    (hs : cs.Pairwise fun c d => c.range.Precedes d.range) : Fits (.mk r cs) :=
  ⟨hr, fun c hc => .inl (hi c hc), hs.imp .inl⟩

/-! ### Roles -/

/-- Two outlines that differ at most in the role of their first row and in how it is shown. -/
structure Alike (o o' : Outline) : Prop where
  kind_eq : o'.row.kind = o.row.kind
  range_eq : o'.range = o.range
  isMissing_eq : o'.row.isMissing = o.row.isMissing
  children_eq : o'.children = o.children

variable {o o' : Outline}

theorem Alike.placeholders_eq (h : o.Alike o') : o'.placeholders = o.placeholders := by
  obtain ⟨r, cs⟩ := o
  obtain ⟨r', cs'⟩ := o'
  obtain rfl : cs' = cs := h.children_eq
  have hkind : r'.kind = r.kind := h.kind_eq
  have hmissing : r'.isMissing = r.isMissing := h.isMissing_eq
  have hrow : r'.isPlaceholder = r.isPlaceholder := by
    rw [OutlineRow.isPlaceholder, OutlineRow.isPlaceholder, hkind, hmissing]
  rw [placeholders_mk, placeholders_mk, hrow]

/-- Whether a node fits its children has nothing to do with its own role. -/
theorem Alike.fitsAll (h : o.Alike o') (ho : o.FitsAll) : o'.FitsAll := by
  obtain ⟨r, cs⟩ := o
  obtain ⟨r', cs'⟩ := o'
  obtain rfl : cs' = cs := h.children_eq
  have hkind : r'.kind = r.kind := h.kind_eq
  have hrange : (Outline.mk r' cs').range = (Outline.mk r cs').range := h.range_eq
  obtain ⟨⟨hr, hi, hs⟩, hcs⟩ := fitsAll_mk.mp ho
  refine fitsAll_mk.mpr ⟨⟨?_, fun c hc => ?_, hs.imp fun hcd => ?_⟩, hcs⟩
  · rw [hrange]
    exact hr
  · rw [hrange]
    exact (hi c hc).imp_right fun ⟨⟨hk, hparts⟩, hle⟩ => ⟨⟨hkind.trans hk, hparts⟩, hle⟩
  · exact hcd.imp_right fun ⟨hk, hroles⟩ => ⟨hkind.trans hk, hroles⟩

end Outline

theorem TypeSyntax.alike_outline (role role' : String) (t : TypeSyntax) :
    (t.outline role).Alike (t.outline role') := by
  cases t <;> exact ⟨rfl, rfl, rfl, rfl⟩

/-- A type that is a name is shown as the name. -/
theorem Identifier.alike_outline (role role' : String) (i : Identifier) :
    (i.outline role).Alike ((TypeSyntax.name i).outline role') :=
  ⟨rfl, rfl, rfl, rfl⟩

theorem Expr.alike_outline (role role' : String) (e : Expr) :
    (e.outline role).Alike (e.outline role') := by
  cases e with
  | initializer i =>
    obtain ⟨_, _⟩ := i
    exact ⟨rfl, rfl, rfl, rfl⟩
  | _ => exact ⟨rfl, rfl, rfl, rfl⟩

end CSharpFront
