import CSharpFront.Project.Options
import Mathlib.Data.List.Forall2
/-!
The reported view of a bag. Options look at the messages of diagnostics and at nothing else, so each
diagnostic is reported or left out by itself. Main statement: the laws of the view, of one set of
options and of two that are compared.
-/

namespace CSharpFront

/-- Diagnostics that differ in their severity at most. -/
structure Diagnostic.SameButSeverity (d e : Diagnostic) : Prop where
  message : d.message = e.message
  span : d.span = e.span
  arguments : d.arguments = e.arguments

namespace Diagnostic

variable {d e f : Diagnostic}

theorem sameButSeverity_withSeverity (d : Diagnostic) (s : Severity) :
    d.SameButSeverity (d.withSeverity s) := ⟨rfl, rfl, rfl⟩

theorem SameButSeverity.symm (h : d.SameButSeverity e) : e.SameButSeverity d :=
  ⟨h.message.symm, h.span.symm, h.arguments.symm⟩

theorem SameButSeverity.trans (h : d.SameButSeverity e) (h' : e.SameButSeverity f) :
    d.SameButSeverity f :=
  ⟨h.message.trans h'.message, h.span.trans h'.span, h.arguments.trans h'.arguments⟩

end Diagnostic

namespace CompilerOptions

variable {o p : CompilerOptions}

/-! ### Options to compare -/

/-- The second options let through what the first do, at a level that is no lower and with no code
more to leave out. -/
structure Widens (o p : CompilerOptions) : Prop where
  warningLevel : o.warningLevel ≤ p.warningLevel
  noWarn : p.noWarn ⊆ o.noWarn
  treatWarningsAsErrors : p.treatWarningsAsErrors = o.treatWarningsAsErrors
  reporting : p.reporting = o.reporting

/-- Texts that denote the same code, or none both. -/
def SameCode (s t : String) : Prop := Code.parse? s = Code.parse? t

/-- The second options are the first with codes in other spellings. -/
structure Respells (o p : CompilerOptions) : Prop where
  warningLevel : p.warningLevel = o.warningLevel
  treatWarningsAsErrors : p.treatWarningsAsErrors = o.treatWarningsAsErrors
  noWarn : List.Forall₂ SameCode o.noWarn p.noWarn
  reporting : List.Forall₂ (fun r q => SameCode r.1 q.1 ∧ r.2 = q.2) o.reporting p.reporting

/-! ### The severity of one message -/

theorem leavesOut_of_subset (h : p.noWarn ⊆ o.noWarn) {code : Nat}
    (hp : p.leavesOut code = true) : o.leavesOut code = true := by
  obtain ⟨text, htext, hcode⟩ := List.any_eq_true.mp hp
  exact List.any_eq_true.mpr ⟨text, h htext, hcode⟩

/-- A message that is let through keeps its severity when more are. -/
theorem Widens.severity? (h : Widens o p) {m : Message} {s : Severity}
    (hs : o.severity? m = some s) : p.severity? m = some s := by
  have hreporting : p.reporting? m.code = o.reporting? m.code := by
    rw [reporting?, reporting?, h.reporting]
  unfold CompilerOptions.severity? at hs ⊢
  rw [hreporting, h.treatWarningsAsErrors]
  by_cases hout : o.leavesOut m.code = true
  · rw [if_pos hout] at hs
    cases hs
  · rw [if_neg hout] at hs
    rw [if_neg (mt (leavesOut_of_subset h.noWarn) hout)]
    have hlevel := h.warningLevel
    split at hs
    · exact hs
    · split at hs
      · cases hs
      · rw [if_neg (by omega)]
        exact hs

theorem Respells.leavesOut (h : Respells o p) (code : Nat) :
    p.leavesOut code = o.leavesOut code := by
  unfold CompilerOptions.leavesOut
  have hcodes := h.noWarn
  generalize o.noWarn = ss, p.noWarn = ts at hcodes
  induction hcodes with
  | nil => rfl
  | cons hst _ ih => rw [List.any_cons, List.any_cons, ih, hst]

theorem Respells.reporting? (h : Respells o p) (code : Nat) :
    p.reporting? code = o.reporting? code := by
  unfold CompilerOptions.reporting?
  have hcodes := List.rel_reverse h.reporting
  generalize o.reporting.reverse = rs, p.reporting.reverse = qs at hcodes
  induction hcodes with
  | nil => rfl
  | @cons r q rs qs hrq _ ih =>
    obtain ⟨⟨text, way⟩, ⟨text', way'⟩⟩ := r, q
    obtain ⟨hcode : Code.parse? text = Code.parse? text', rfl : way = way'⟩ := hrq
    simp only [List.find?_cons, hcode]
    split
    · rfl
    · exact ih

theorem Respells.severity? (h : Respells o p) (m : Message) :
    p.severity? m = o.severity? m := by
  rw [CompilerOptions.severity?, CompilerOptions.severity?, h.leavesOut, h.reporting?,
    h.warningLevel, h.treatWarningsAsErrors]

/-- Whether warnings are errors has no say in which are let through. -/
theorem isSome_severity?_treatWarningsAsErrors (o : CompilerOptions) (treat : Bool) (m : Message) :
    ({ o with treatWarningsAsErrors := treat }.severity? m).isSome = (o.severity? m).isSome := by
  unfold CompilerOptions.severity?
  have hout : leavesOut { o with treatWarningsAsErrors := treat } m.code = o.leavesOut m.code := rfl
  have hway : CompilerOptions.reporting? { o with treatWarningsAsErrors := treat } m.code =
      o.reporting? m.code := rfl
  rw [hout, hway]
  split
  · rfl
  · split
    · rfl
    · dsimp only
      split <;> rfl

/-! ### One diagnostic -/

theorem sameButSeverity_of_report? {d r : Diagnostic} (h : o.report? d = some r) :
    d.SameButSeverity r ∧ (d.message.severity ≠ .warning → r = d) := by
  unfold report? at h
  split at h
  next hwarning =>
    obtain ⟨s, -, rfl⟩ := Option.map_eq_some_iff.mp h
    exact ⟨d.sameButSeverity_withSeverity s, absurd hwarning⟩
  next =>
    obtain rfl := Option.some.inj h
    exact ⟨⟨rfl, rfl, rfl⟩, fun _ => rfl⟩

/-- What was reported is reported as it is. -/
theorem report?_of_report? {d r : Diagnostic} (h : o.report? d = some r) :
    o.report? r = some r := by
  unfold report? at h
  split at h
  next hwarning =>
    obtain ⟨s, hs, rfl⟩ := Option.map_eq_some_iff.mp h
    have hs' : o.severity? (d.withSeverity s).message = some s := hs
    have hwarning' : (d.withSeverity s).message.severity = .warning := hwarning
    rw [report?, if_pos hwarning', hs']
    rfl
  next hother =>
    obtain rfl := Option.some.inj h
    rw [report?, if_neg hother]

theorem Widens.report? (h : Widens o p) {d r : Diagnostic} (hr : o.report? d = some r) :
    p.report? d = some r := by
  unfold CompilerOptions.report? at hr ⊢
  split
  next hwarning =>
    rw [if_pos hwarning] at hr
    obtain ⟨s, hs, rfl⟩ := Option.map_eq_some_iff.mp hr
    rw [h.severity? hs, Option.map_some]
  next hother => rwa [if_neg hother] at hr

theorem isSome_report?_treatWarningsAsErrors (o : CompilerOptions) (treat : Bool)
    (d : Diagnostic) :
    ({ o with treatWarningsAsErrors := treat }.report? d).isSome = (o.report? d).isSome := by
  unfold CompilerOptions.report?
  split
  · rw [Option.isSome_map, Option.isSome_map, isSome_severity?_treatWarningsAsErrors]
  · rfl

/-! ### The laws of the view -/

/-- What holds of the reported view of every bag. -/
structure ViewLaws (o : CompilerOptions) : Prop where
  /-- Each diagnostic is reported or left out by itself. -/
  append (b c : Bag) : o.apply (b ++ c) = o.apply b ++ o.apply c
  narrowed (b : Bag) : ∃ kept, kept.Sublist b ∧
    List.Forall₂ Diagnostic.SameButSeverity kept (o.apply b)
  /-- What is no warning by its message comes through unchanged. -/
  others (b : Bag) : (o.apply b).filter (·.message.severity ≠ .warning) =
    b.filter (·.message.severity ≠ .warning)
  again (b : Bag) : o.apply (o.apply b) = o.apply b
  /-- Under wider options all stays that was reported, with the severity that it had. -/
  widened (p : CompilerOptions) : o.Widens p → ∀ b, (o.apply b).Sublist (p.apply b)
  /-- Whether warnings are errors changes nothing but severities. -/
  promoted (treat : Bool) (b : Bag) : List.Forall₂ Diagnostic.SameButSeverity (o.apply b)
    ({ o with treatWarningsAsErrors := treat }.apply b)
  respelled (p : CompilerOptions) : o.Respells p → ∀ b, p.apply b = o.apply b

theorem exists_sublist_apply (o : CompilerOptions) (b : Bag) :
    ∃ kept, kept.Sublist b ∧ List.Forall₂ Diagnostic.SameButSeverity kept (o.apply b) := by
  induction b with
  | nil => exact ⟨[], .slnil, .nil⟩
  | cons d b ih =>
    obtain ⟨kept, hkept, hview⟩ := ih
    cases hr : o.report? d with
    | none =>
      rw [apply, List.filterMap_cons_none hr]
      exact ⟨kept, hkept.cons d, hview⟩
    | some r =>
      rw [apply, List.filterMap_cons_some hr]
      exact ⟨d :: kept, hkept.cons_cons d, .cons (sameButSeverity_of_report? hr).1 hview⟩

theorem report?_of_not_warning {d : Diagnostic} (h : d.message.severity ≠ .warning) :
    o.report? d = some d := if_neg h

theorem filter_apply (o : CompilerOptions) (b : Bag) :
    (o.apply b).filter (·.message.severity ≠ .warning) =
      b.filter (·.message.severity ≠ .warning) := by
  induction b with
  | nil => rfl
  | cons d b ih =>
    by_cases hd : d.message.severity = .warning
    · rw [List.filter_cons_of_neg (by simpa using hd), ← ih]
      cases hr : o.report? d with
      | none => rw [apply, List.filterMap_cons_none hr, apply]
      | some r =>
        have hmessage := (sameButSeverity_of_report? hr).1.message
        rw [apply, List.filterMap_cons_some hr, List.filter_cons_of_neg, apply]
        simpa [← hmessage] using hd
    · have hr : o.report? d = some d := report?_of_not_warning hd
      rw [List.filter_cons_of_pos (by simpa using hd), ← ih, apply,
        List.filterMap_cons_some hr, List.filter_cons_of_pos (by simpa using hd), apply]

theorem apply_apply (o : CompilerOptions) (b : Bag) : o.apply (o.apply b) = o.apply b := by
  rw [apply, apply, List.filterMap_filterMap]
  refine List.filterMap_congr fun d _ => ?_
  cases hr : o.report? d with
  | none => rfl
  | some r => exact report?_of_report? hr

theorem Widens.apply_sublist (h : Widens o p) (b : Bag) : (o.apply b).Sublist (p.apply b) := by
  induction b with
  | nil => exact .slnil
  | cons d b ih =>
    cases hr : o.report? d with
    | none =>
      rw [apply, List.filterMap_cons_none hr]
      exact ih.trans ((List.sublist_cons_self d b).filterMap _)
    | some r =>
      rw [apply, apply, List.filterMap_cons_some hr, List.filterMap_cons_some (h.report? hr)]
      exact ih.cons_cons r

theorem sameButSeverity_apply_treatWarningsAsErrors (o : CompilerOptions) (treat : Bool)
    (b : Bag) : List.Forall₂ Diagnostic.SameButSeverity (o.apply b)
      ({ o with treatWarningsAsErrors := treat }.apply b) := by
  induction b with
  | nil => exact .nil
  | cons d b ih =>
    have hsome := isSome_report?_treatWarningsAsErrors o treat d
    rw [apply, apply]
    cases hr : o.report? d with
    | none =>
      rw [hr, Option.isSome_none, Option.isSome_eq_false_iff, Option.isNone_iff_eq_none] at hsome
      rw [List.filterMap_cons_none hr, List.filterMap_cons_none hsome]
      exact ih
    | some r =>
      rw [hr, Option.isSome_some] at hsome
      obtain ⟨q, hq⟩ := Option.isSome_iff_exists.mp hsome
      rw [List.filterMap_cons_some hr, List.filterMap_cons_some hq]
      have hsame := (sameButSeverity_of_report? hr).1.symm.trans (sameButSeverity_of_report? hq).1
      exact .cons hsame ih

theorem Respells.apply_eq (h : Respells o p) (b : Bag) : p.apply b = o.apply b := by
  refine List.filterMap_congr fun d _ => ?_
  rw [CompilerOptions.report?, CompilerOptions.report?, h.severity?]

/-- The reported view has its laws under all options. -/
theorem viewLaws_apply (o : CompilerOptions) : o.ViewLaws where
  append _ _ := List.filterMap_append
  narrowed := exists_sublist_apply o
  others := filter_apply o
  again := apply_apply o
  widened _ h := h.apply_sublist
  promoted := sameButSeverity_apply_treatWarningsAsErrors o
  respelled _ h := h.apply_eq

/-- A code that is left out, one that is not, and the first in another spelling. -/
theorem viewLaws_apply_unreachable :
    let unreachable := Diagnostic.of .unreachableCode ⟨4, 2⟩
    let o : CompilerOptions := { noWarn := ["cs162", "219"] }
    let p : CompilerOptions := { noWarn := ["219"] }
    let q : CompilerOptions := { noWarn := ["CS0162", "Cs219"] }
    (o.Widens p ∧ o.apply [unreachable] = [] ∧ p.apply [unreachable] = [unreachable] ∧
      (o.apply [unreachable]).Sublist (p.apply [unreachable])) ∧
    o.Respells q ∧ q.apply [unreachable] = o.apply [unreachable] := by
  intro unreachable o p q
  have hwidens : o.Widens p := ⟨Nat.le_refl _, List.subset_cons_self _ _, rfl, rfl⟩
  have hrespells : o.Respells q := by
    refine ⟨rfl, rfl, .cons ?_ (.cons ?_ .nil), .nil⟩
    · show Code.parse? "cs162" = Code.parse? "CS0162"
      decide +kernel
    · show Code.parse? "219" = Code.parse? "Cs219"
      decide +kernel
  have hleft : o.apply [unreachable] = [] ∧ p.apply [unreachable] = [unreachable] := by
    decide +kernel
  exact ⟨⟨hwidens, hleft.1, hleft.2, (viewLaws_apply o).widened p hwidens _⟩, hrespells,
    (viewLaws_apply o).respelled q hrespells _⟩

end CompilerOptions

end CSharpFront
