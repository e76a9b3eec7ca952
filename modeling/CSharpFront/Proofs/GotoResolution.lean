import CSharpFront.Proofs.Binding.TellsUnit
/-!
Which labels `goto` statements mean. In the bodies of a unit that are bound, and among its statements
outside types, the binder reports the `goto` statements whose label no scope around them declares and
the labels that their scope has declared before, and it notes the first declaration of each label
that is found in the nearest scope.
-/

namespace CSharpFront

/-- Reports on labels of one sort are among those on labels. -/
theorem filter_message_of_isOfLabel {m : Message} (hm : m.isOfLabel = true) (ds : List Diagnostic) :
    ds.filter (·.message = m) = (ds.filter (·.message.isOfLabel)).filter (·.message = m) := by
  rw [List.filter_filter]
  refine List.filter_congr fun d _ => ?_
  by_cases hd : d.message = m
  · rw [decide_eq_true hd, hd, hm]
    rfl
  · simp [hd]

namespace LabelUse

/-- Of the reports on labels, those of labels that are not found belong to the `goto` statements. -/
theorem filter_noSuchLabel (uses : List LabelUse) :
    (uses.flatMap reports).filter (·.message = .noSuchLabel) =
      ((uses.filterMap goto?).filter Goto.isLost).map fun g =>
        .of .noSuchLabel g.label.span [g.label.text] := by
  induction uses with
  | nil => rfl
  | cons use uses ih =>
    rw [List.flatMap_cons, List.filter_append, ih]
    cases use with
    | declaration d =>
      by_cases hd : d.isRepeated = true <;>
        simp [reports, goto?, List.filterMap_cons, hd, Diagnostic.of]
    | goto g => by_cases hg : g.isLost = true <;> simp [reports, goto?, hg, Diagnostic.of]

/-- Those of labels that are declared again belong to the declarations. -/
theorem filter_duplicateLabel (uses : List LabelUse) :
    (uses.flatMap reports).filter (·.message = .duplicateLabel) =
      ((uses.filterMap declaration?).filter LabelDeclaration.isRepeated).map fun d =>
        .of .duplicateLabel d.label.span [d.label.text] := by
  induction uses with
  | nil => rfl
  | cons use uses ih =>
    rw [List.flatMap_cons, List.filter_append, ih]
    cases use with
    | declaration d =>
      by_cases hd : d.isRepeated = true <;> simp [reports, declaration?, hd, Diagnostic.of]
    | goto g =>
      by_cases hg : g.isLost = true <;>
        simp [reports, declaration?, List.filterMap_cons, hg, Diagnostic.of]

theorem mem_filterMap_noted? {uses : List LabelUse} {place : Nat} :
    place ∈ uses.filterMap noted? ↔
      ∃ g ∈ uses.filterMap goto?, ∃ l ∈ g.target?, l.range.start = place := by
  induction uses with
  | nil => simp
  | cons use uses ih =>
    cases use with
    | declaration d => simpa [noted?, goto?] using ih
    | goto g => cases htarget : g.target? <;> simp [noted?, goto?, ih, htarget, eq_comm]

end LabelUse

/-- A unit is bound unless the binding is cancelled, and then of all `goto` statements with a label
those are reported for which no scope around declares it, of all labels those that have been declared
before in the same scope, and the labels noted are the first declarations that the others find in
the nearest scope. -/
theorem bindUnit_resolves_gotos (u : CompilationUnit) (before : Array Diagnostic) (polls : Polls) :
    (∃ polls' b, bindUnit u before polls = (.ok (), polls', b) ∧
      b.state.diagnostics.toList.filter (·.message = .noSuchLabel) =
        before.toList.filter (·.message = .noSuchLabel) ++
          (u.gotos.filter Goto.isLost).map (fun g =>
            .of .noSuchLabel g.label.span [g.label.text]) ∧
      b.state.diagnostics.toList.filter (·.message = .duplicateLabel) =
        before.toList.filter (·.message = .duplicateLabel) ++
          (u.labelDeclarations.filter LabelDeclaration.isRepeated).map (fun d =>
            .of .duplicateLabel d.label.span [d.label.text]) ∧
      ∀ place, b.isReferenced place = true ↔
        ∃ g ∈ u.gotos, ∃ l ∈ g.target?, l.range.start = place) ∨
    polls ≠ none ∧ ∃ e, (bindUnit u before polls).1 = .error e := by
  have htypes : (Declarations.ofMembers u.members).names.Worded fun _ => True :=
    fun name t _ => Ty.worded_any t
  have hbind := Binding.told_bindUnit wording_any htypes (fun _ _ _ => trivial) before polls
  rcases hbind with ⟨polls', b, hrun, ⟨ds, hds, hlabels, -⟩, hnoted⟩ | hcancelled
  · refine .inl ⟨polls', b, hrun, ?_, ?_, fun place => ?_⟩
    · rw [hds, List.filter_append, filter_message_of_isOfLabel rfl ds, hlabels]
      exact congrArg (_ ++ ·) (LabelUse.filter_noSuchLabel u.labelUses)
    · rw [hds, List.filter_append, filter_message_of_isOfLabel rfl ds, hlabels]
      exact congrArg (_ ++ ·) (LabelUse.filter_duplicateLabel u.labelUses)
    · rw [BoundUnit.isReferenced, hnoted, List.append_nil, List.contains_iff_mem,
        List.mem_reverse]
      exact LabelUse.mem_filterMap_noted?
  · exact .inr hcancelled

/-- The label of the statement in the `if` hides the one before the `if`. -/
example :
    let label (start : Nat) : Identifier := { text := "a", range := ⟨start, start + 1⟩ }
    let inner : Stmt := .labeled ⟨10, 20⟩ (label 10) (.goto ⟨13, 20⟩ (label 18))
    let outer : Stmt := .labeled ⟨0, 20⟩ (label 0) (.ifElse ⟨3, 20⟩ (.missing 7) inner none)
    let u : CompilationUnit :=
      ⟨⟨0, 20⟩, [], [.globalStatement outer], .missing .endOfFile 20⟩
    u.gotos.map Goto.target? = [some (label 10)] := rfl

end CSharpFront
