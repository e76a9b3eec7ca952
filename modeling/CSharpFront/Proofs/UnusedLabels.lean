import CSharpFront.Compilation
import CSharpFront.Proofs.Binding.AccountsUnit
import CSharpFront.Proofs.Flow.Labels
import CSharpFront.Proofs.Parser.MarksDeclarations
import Mathlib.Data.List.Pairwise
/-!
Labels to which nothing jumps. The binder notes the places of the labels to which the jumps of a
body lead; the walk over all bodies reports each label that is not noted. The name of a label is a
token, so that no two labels are at one place, and jumps in one body cannot be taken for jumps in
another.
-/

namespace CSharpFront

namespace Body

variable {b : Body} {l : Identifier}

/-- Whether a `goto` of a body jumps to the label of a name in it. -/
def JumpsTo (b : Body) (l : Identifier) : Prop :=
  ∃ j ∈ Flow.bodyJumps b.statements, j.2.place = l.range.start

instance : Decidable (b.JumpsTo l) := inferInstanceAs (Decidable (∃ j ∈ _, _))

/-- The labels of a body to which none of its jumps leads. The jumps do not count where a type
around the body has no name. -/
def unusedLabels (b : Body) : List Identifier :=
  b.labels.filter fun l => ¬ (b.isNamed ∧ b.JumpsTo l)

theorem start_mem_noted_iff : l.range.start ∈ b.noted ↔ b.isNamed ∧ b.JumpsTo l := by
  unfold noted JumpsTo
  cases b.isNamed <;> simp

/-- What is noted of a body are places of its own labels. -/
theorem noted_subset (b : Body) : b.noted ⊆ b.labels.map (·.range.start) := by
  intro place hplace
  unfold noted at hplace
  split at hplace
  · obtain ⟨j, hj, rfl⟩ := List.mem_map.mp hplace
    exact Flow.place_mem_of_mem_bodyJumps hj
  · exact absurd hplace List.not_mem_nil

end Body

/-- Of parts that have nothing in common, what lies in one is chosen only there. -/
theorem mem_flatMap_iff_of_nodup {α β : Type} {part chosen : α → List β} {xs : List α}
    (h : (xs.flatMap part).Nodup) (hsub : ∀ x, chosen x ⊆ part x) {x : α} (hx : x ∈ xs) {b : β}
    (hb : b ∈ part x) : b ∈ xs.flatMap chosen ↔ b ∈ chosen x := by
  refine ⟨fun hmem => ?_, fun hmem => List.mem_flatMap_of_mem hx hmem⟩
  obtain ⟨y, hy, hchosen⟩ := List.mem_flatMap.mp hmem
  by_cases hxy : x = y
  · exact hxy ▸ hchosen
  · have hsymm : Std.Symm (Function.onFun List.Disjoint part) := ⟨fun _ _ h b hb hb' => h hb' hb⟩
    have hdisjoint := (List.nodup_flatMap.mp h).2.forall hx hy hxy
    exact absurd (hsub y hchosen) (hdisjoint hb)

/-- A label of a body is noted if a jump of the same body leads to it, and all types around the body
have names. -/
theorem CompilationUnit.start_mem_noted_iff {u : CompilationUnit}
    (h : ((u.marks .everywhere).map Mark.start).Nodup) {b : Body} (hb : b ∈ u.namedBodies)
    {l : Identifier} (hl : l ∈ b.labels) :
    l.range.start ∈ u.namedBodies.flatMap Body.noted ↔ b.isNamed ∧ b.JumpsTo l := by
  have hplaces := u.nodup_labels h
  rw [List.map_flatMap] at hplaces
  refine (mem_flatMap_iff_of_nodup hplaces Body.noted_subset hb ?_).trans Body.start_mem_noted_iff
  exact List.mem_map_of_mem hl

/-- Every text is compiled to its end, and of labels the walk over its bodies reports just those to
which no `goto` of the same body jumps, and all labels of bodies in types without names. -/
theorem compileText_reports_labels (text : String) (maxDepth : Nat) :
    ∃ u parsed bound bag,
      Parser.parseUnit (scan text).1 maxDepth (scan text).2 none = (.ok u, parsed) ∧
      bindUnit u parsed.diagnostics none = (.ok (), none, bound) ∧
      compileText text maxDepth none = .ok bag ∧
      bag.filter (·.message = .labelNotReferenced) =
        bound.state.diagnostics.toList.filter (·.message = .labelNotReferenced) ++
          u.namedBodies.flatMap fun b =>
            b.unusedLabels.map fun l => .of .labelNotReferenced l.span := by
  obtain ⟨u, parsed, hparse, hpolls, hnodup, hsorted⟩ :=
    Parser.exists_parseUnit_scan text maxDepth
  obtain ⟨bound, hbind, -, hnoted⟩ := Binding.accounts_bindUnit hsorted parsed.diagnostics
  let c : Flow.Context := ⟨(scan text).1, bound.isReferenced⟩
  refine ⟨u, parsed, bound, (Flow.unit c u bound.state.diagnostics).toList, hparse, hbind, ?_, ?_⟩
  · simp only [compileText, hparse, hpolls, hbind, c]
  · rw [Flow.unused_unit]
    refine congrArg (_ ++ ·) (List.flatMap_congr fun b hb => ?_)
    refine congrArg (List.map _) (List.filter_congr fun l hl => ?_)
    have hlabel := (hnoted l.range.start).trans (u.start_mem_noted_iff hnodup hb hl)
    rw [decide_not]
    exact congrArg not (Bool.eq_iff_iff.mpr (hlabel.trans decide_eq_true_iff.symm))

/-- A `goto` jumps to a label, and all the same the label is reported, since a type around it has no
name. -/
theorem compileText_nameless :
    let text := "class { void M() { a: goto a; } }"
    ((Parser.parseUnit (scan text).1 maxParseDepth (scan text).2 none).1.toOption.map fun u =>
        u.namedBodies.flatMap fun b => (b.labels.filter (b.JumpsTo ·)).map Identifier.span) =
      some [⟨19, 1⟩] ∧
    .of .labelNotReferenced ⟨19, 1⟩ ∈ compileSource text := by
  intro text
  rw [compileSource, compileText, scan_ofList]
  decide +kernel

end CSharpFront
