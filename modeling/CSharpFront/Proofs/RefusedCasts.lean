import CSharpFront.Compilation
import CSharpFront.Proofs.Binding.AccountsUnit
import CSharpFront.Proofs.Parser.MarksDeclarations
/-!
Casts that are refused. Each cast of a text begins with a token of its own, so that no two are at
one place, and what the binder reports at a place is about the one cast there.
-/

namespace CSharpFront

theorem Mark.sublist_casts (ms : List Mark) :
    ((ms.filterMap Mark.cast?).map (·.range.start)).Sublist (ms.map Mark.start) := by
  induction ms with
  | nil => exact .refl _
  | cons m ms ih =>
    cases m with
    | cast k => exact ih.cons_cons _
    | label l => exact ih.cons _

/-- Where no two marks of a unit begin at one place, no two of its casts are at one place. -/
theorem CompilationUnit.countP_casts_le {u : CompilationUnit}
    (h : ((u.marks .everywhere).map Mark.start).Nodup) (span : Span) :
    (u.casts .everywhere).countP (·.span = span) ≤ 1 := by
  have hcasts := h.sublist (Mark.sublist_casts _)
  refine Nat.le_trans ?_ (List.nodup_iff_count_le_one.mp hcasts span.start)
  show _ ≤ List.countP _ _
  rw [List.countP_map]
  refine List.countP_mono_left fun x _ hx => ?_
  have hspan : x.span = span := of_decide_eq_true hx
  exact beq_iff_eq.mpr (congrArg Span.start hspan)

namespace Binding

/-- In every text the binder refuses at most one cast at each place, and none where no cast stands.
Of the casts that it always looks at, those of literals to predefined types to which no conversion
leads are refused exactly once. -/
theorem bindUnit_refuses (text : String) (maxDepth : Nat) :
    ∃ u parsed bound,
      Parser.parseUnit (scan text).1 maxDepth (scan text).2 none = (.ok u, parsed) ∧
      bindUnit u parsed.diagnostics none = (.ok (), none, bound) ∧
      let before := refusals parsed.diagnostics
      let after := refusals bound.state.diagnostics
      let ds := Declarations.ofMembers u.members
      (∀ span, before span ≤ after span ∧ after span ≤ before span + 1) ∧
      (∀ span, (∀ x ∈ u.casts .everywhere, x.span ≠ span) → after span = before span) ∧
      ∀ x ∈ u.casts (.surely ds.names), x.isRefused ds.conversions →
        after x.span = before x.span + 1 := by
  obtain ⟨u, parsed, hparse, -, hnodup, hsorted⟩ := Parser.exists_parseUnit_scan text maxDepth
  obtain ⟨bound, hbind, hcounts, -⟩ := accounts_bindUnit hsorted parsed.diagnostics
  have hmost (span : Span) : (Setting.of u span).most (u.casts ·) ≤ 1 :=
    u.countP_casts_le hnodup span
  refine ⟨u, parsed, bound, hparse, hbind, fun span => ?_, fun span hnone => ?_, fun x hx hr => ?_⟩
  · obtain ⟨hleast, hle⟩ := hcounts span
    have hone := hmost span
    omega
  · obtain ⟨hleast, hle⟩ := hcounts span
    have hzero : (Setting.of u span).most (u.casts ·) = 0 :=
      List.countP_eq_zero.mpr fun x hx h => hnone x hx (of_decide_eq_true h)
    omega
  · obtain ⟨hleast, hle⟩ := hcounts x.span
    have hone := hmost x.span
    have hpos : 0 < (Setting.of u x.span).least (u.casts ·) :=
      List.countP_pos_iff.mpr ⟨x, hx, decide_eq_true ⟨hr, rfl⟩⟩
    omega

/-- Inside a call that cannot be resolved, and inside another cast. -/
example :
    ((compileSource "class C { object x = y[(bool)1, (z)(char)true]; }").filter
      (·.message = .noConversion)).map (·.span) = [⟨23, 7⟩, ⟨35, 10⟩] := by
  decide +kernel

/-- A cast to which no conversion leads stands in a new array of a type without a declaration, and
nothing is reported. -/
theorem compileText_unresolvedArray :
    let text := "class C { object x = new D[] { (bool)1 }; }"
    ((Parser.parseUnit (scan text).1 maxParseDepth (scan text).2 none).1.toOption.map fun u =>
        let ds := Declarations.ofMembers u.members
        ((u.casts .everywhere).filter (·.isRefused ds.conversions)).map Cast.span) =
      some [⟨31, 7⟩] ∧
    compileSource text = [] := by
  decide +kernel

end Binding

end CSharpFront
