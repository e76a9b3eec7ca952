import CSharpFront.Flow.Reachability
import CSharpFront.Proofs.Binding.Reordered
import CSharpFront.Proofs.Lexer.PlainNames
import CSharpFront.Proofs.Parser.DeclaredNames
/-!
The order of the declarations of a text does not matter. Where a text declares nothing but types
with different simple names, the binder and the walk over the bodies report the same of each type in
whatever order the types are looked at.
-/

/-! ## The walk over a body

A walk does not look at what was reported before: what it reports comes after that, and is the same
as if nothing had been.
-/

namespace CSharpFront.Flow

namespace State

variable {c : Context} {before : Array Diagnostic} {s t : State}

/-- The state with reports before its own. -/
def after (before : Array Diagnostic) (s : State) : State :=
  { s with diagnostics := before ++ s.diagnostics }

theorem goOn_after (b : Bool) : (s.after before).goOn b = (s.goOn b).after before := rfl

theorem reachable_after : (s.after before).reachable = s.reachable := rfl

theorem exits_after : (s.after before).exits = s.exits := rfl

theorem enterLoop_after : (s.after before).enterLoop = s.enterLoop.after before := rfl

theorem leaveLoop_after :
    (s.after before).leaveLoop (t.after before) = (s.leaveLoop t).after before := rfl

theorem report_after (message : Message) (span : Span) :
    (s.after before).report message span = (s.report message span).after before :=
  congrArg (fun diagnostics => { s with diagnostics }) Array.push_append

theorem check_after (span : Span) :
    (s.after before).check c span = (s.check c span).after before := by
  have hsame : ((s.after before).reachable || (s.after before).reported || span.isEmpty) =
      (s.reachable || s.reported || span.isEmpty) := rfl
  have hreport (anchor : Span) :
      { (s.after before).report .unreachableCode anchor with reported := true } =
        State.after before { s.report .unreachableCode anchor with reported := true } := by
    rw [report_after]
    rfl
  unfold check
  rw [hsame]
  split
  · rfl
  · exact hreport _

theorem checks_after (spans : List Span) :
    spans.foldl (·.check c ·) (s.after before) = (spans.foldl (·.check c ·) s).after before := by
  induction spans generalizing s with
  | nil => rfl
  | cons span spans ih => rw [List.foldl_cons, List.foldl_cons, check_after, ih]

theorem jump_after (note : Bool → LoopExits → LoopExits) :
    (s.after before).jump note = (s.jump note).after before := by
  have hsame : (s.after before).loop? = s.loop? := rfl
  unfold jump
  rw [hsame]
  split <;> rfl

end State

variable {c : Context}

mutual

theorem statement_after (before : Array Diagnostic) : (b : Stmt) → ∀ s,
    statement c b (s.after before) = (statement c b s).after before
  | .block ⟨_, _, ss, _⟩, s => by
    rw [statement, statement]
    exact statements_after before ss s
  | .empty _, s => by rw [statement, statement]
  | .localDeclaration r _ _ _, s | .expression r _ _, s => by
    rw [statement, statement, State.check_after]
  | .returnValue r _, s | .goto r _, s => by
    rw [statement, statement, State.check_after, State.goOn_after]
  | .breakLoop r, s | .continueLoop r, s => by
    rw [statement, statement, State.check_after, State.jump_after]
  | .ifElse r e body none, s => by
    have hbody := statement_after before body
    simp only [statement, State.check_after, State.reachable_after, State.goOn_after, hbody]
  | .ifElse r e body (some other), s => by
    have hbody := statement_after before body
    have hother := statement_after before other
    simp only [statement, State.check_after, State.reachable_after, State.goOn_after, hbody, hother]
  | .whileLoop r e body, s => by
    have hbody := statement_after before body
    simp only [statement, State.check_after, State.reachable_after, State.enterLoop_after,
      State.goOn_after, hbody, State.exits_after, State.leaveLoop_after]
  | .doLoop r body e, s => by
    have hbody := statement_after before body
    simp only [statement, State.check_after, State.reachable_after, State.enterLoop_after,
      State.goOn_after, hbody, State.exits_after, State.leaveLoop_after]
  | .forLoop r h body, s => by
    have hbody := statement_after before body
    simp only [statement, State.checks_after, State.reachable_after, State.enterLoop_after,
      State.goOn_after, hbody, State.exits_after, ← apply_ite (State.after before),
      State.leaveLoop_after]
  | .labeled r l body, s => by
    have hbody := statement_after before body
    rw [statement, statement, ← hbody]
    congr 1
    split
    · rfl
    · dsimp only
      rw [State.check_after]
      split
      · rfl
      · exact State.report_after _ _

theorem statements_after (before : Array Diagnostic) : (bs : List Stmt) → ∀ s,
    statements c bs (s.after before) = (statements c bs s).after before
  | [], _ => rfl
  | b :: bs, s => by
    rw [statements, statements, statement_after before b, statements_after before bs]

end

/-- What is reported of a body. -/
def bodyReports (c : Context) (body : List Stmt) : List Diagnostic :=
  (statements c body {}).diagnostics.toList

/-- What is reported of the bodies of a type. -/
def reports (c : Context) (d : TypeDeclaration) : List Diagnostic :=
  d.bodies.flatMap (bodyReports c)

/-- Each body of a unit is walked over by itself. -/
theorem toList_unit (c : Context) (u : CompilationUnit) (diagnostics : Array Diagnostic) :
    (unit c u diagnostics).toList =
      diagnostics.toList ++ u.bodies.flatMap (bodyReports c) := by
  unfold unit
  generalize u.bodies = bodies
  induction bodies generalizing diagnostics with
  | nil => exact (List.append_nil _).symm
  | cons body bodies ih =>
    have hbody : (statements c body { diagnostics }).diagnostics.toList =
        diagnostics.toList ++ bodyReports c body := by
      have hstart : ({ diagnostics } : State) = State.after diagnostics {} := by
        simp [State.after]
      rw [hstart, statements_after]
      exact Array.toList_append
    rw [List.foldl_cons, ih, hbody, List.flatMap_cons, List.append_assoc]

theorem allBodies_map_typeMember (types : List TypeDeclaration) :
    Member.allBodies (types.map .typeMember) = types.flatMap TypeDeclaration.bodies := by
  induction types with
  | nil => rfl
  | cons d types ih => rw [List.map_cons, Member.allBodies, ih, Member.bodies, List.flatMap_cons]

/-- In a unit of types there are only the bodies of these. -/
theorem toList_unit_of_types (c : Context) {u : CompilationUnit} {types : List TypeDeclaration}
    (h : u.members = types.map .typeMember) (diagnostics : Array Diagnostic) :
    (unit c u diagnostics).toList = diagnostics.toList ++ types.flatMap (reports c) := by
  have hglobals : u.globalStatements = [] := by
    rw [CompilationUnit.globalStatements, h, List.filterMap_map]
    exact List.filterMap_eq_nil_iff.mpr fun _ _ => rfl
  have hempty : bodyReports c [] = [] := rfl
  rw [toList_unit, CompilationUnit.bodies, hglobals, h, allBodies_map_typeMember, List.flatMap_cons,
    hempty, List.nil_append, List.flatMap_assoc]
  rfl

end CSharpFront.Flow

/-! ## Whole texts -/

namespace CSharpFront

variable {u : CompilationUnit} {types types' : List TypeDeclaration}

/-- Binding a unit of types binds one of them after the other. -/
theorem Binding.does_unit {c c' : Context} (hc : c.Alike c')
    (h : u.members = types.map .typeMember) :
    Does ((unit c' u).run none) (.ok (), none) (types.flatMap (reports c))
      (types.reverse.flatMap (jumps c)) := by
  have hglobals : u.globalStatements = [] := by
    rw [CompilationUnit.globalStatements, h, List.filterMap_map]
    exact List.filterMap_eq_nil_iff.mpr fun _ _ => rfl
  have hlabels : Does ((liftM (declareLabels c' u.globalStatements) : Cancellable Context).run none)
      (.ok c', none) [] [] := by
    rw [hglobals]
    exact .pure _
  have hmembers := (does_members hc c'.scopes types).bindAll (f := fun _ => Pure.pure ()) (.pure _)
  rw [← h] at hmembers
  have hunit := hlabels.bindAll (f := fun globals =>
    members c' "" globals.scopes u.members >>= fun _ => Pure.pure ()) hmembers
  simpa [unit] using hunit

/-- What is left of a unit of types, once it is bound in whatever order. -/
theorem exists_bindUnit_eq (hn : Member.PlainlyNamed (types.map .typeMember))
    (hp : types'.Perm types) (h : u.members = types'.map .typeMember) (before : Array Diagnostic) :
    let c := Binding.Context.of (.ofMembers (types.map .typeMember))
    ∃ bound, bindUnit u before none = (.ok (), none, bound) ∧
      bound.declarations = .ofMembers u.members ∧
      bound.state.diagnostics.toList = before.toList ++ types'.flatMap (Binding.reports c) ∧
      bound.state.referenced = types'.reverse.flatMap (Binding.jumps c) := by
  intro c
  let ds := Declarations.ofMembers u.members
  have hc : c.Alike (.of ds) := by
    have hperm : (types.map Member.typeMember).Perm u.members := h ▸ (hp.map _).symm
    exact Declarations.context_alike_ofMembers hn hperm
  have hunit := Binding.does_unit hc h
  let s : Binding.State := { listing := ds.listing, diagnostics := before }
  let run := (Binding.unit (.of ds) u).run none s
  refine ⟨⟨ds, run.2⟩, ?_, rfl, hunit.diagnostics s, ?_⟩
  · show (run.1.1, run.1.2, (⟨ds, run.2⟩ : BoundUnit)) = _
    rw [hunit.result s]
  · exact (hunit.referenced s).trans (List.append_nil _)

/-- Every text is parsed. If its members are types with different simple names, then whatever is
bound before, what the binder and the walk over the bodies report in any order of the types is what
they report of each of them, one after the other; of each type that is the same in all orders. -/
theorem reports_perm (text : String) (maxDepth : Nat) :
    ∃ u parsed, Parser.parseUnit (scan text).1 maxDepth (scan text).2 none = (.ok u, parsed) ∧
      ∀ types : List TypeDeclaration, u.members = types.map .typeMember →
        ((Member.declared u.members).map (·.2.identifier.text)).Nodup →
        ∀ before, ∃ bound, bindUnit u before none = (.ok (), none, bound) ∧
          let c := Binding.Context.of bound.declarations
          let flow : Flow.Context := ⟨(scan text).1, bound.isReferenced⟩
          ∀ types' : List TypeDeclaration, types'.Perm types →
            let u' := { u with members := types'.map .typeMember }
            ∃ bound', bindUnit u' before none = (.ok (), none, bound') ∧
              let bag' := Flow.unit ⟨(scan text).1, bound'.isReferenced⟩ u' bound'.state.diagnostics
              bound'.state.diagnostics.toList =
                before.toList ++ types'.flatMap (Binding.reports c) ∧
              bag'.toList =
                bound'.state.diagnostics.toList ++ types'.flatMap (Flow.reports flow) ∧
              bag'.toList.Perm (Flow.unit flow u bound.state.diagnostics).toList := by
  obtain ⟨u, parsed, hparse⟩ := Parser.exists_parseUnit_eq (scan text).1 maxDepth (scan text).2
  refine ⟨u, parsed, hparse, fun types hu hdistinct before => ?_⟩
  have hn : Member.PlainlyNamed u.members := by
    obtain ⟨hkind, -, -⟩ := scan_inOrder text
    have hok : (Parser.parseUnit (scan text).1 maxDepth (scan text).2 none).1 = .ok u :=
      congrArg Prod.fst hparse
    have hplain := Parser.good_of_mem_declared ('.' ∉ ·.toList) hkind hok
      (not_dot_mem_of_mem_scan text)
    exact ⟨hplain, hdistinct⟩
  rw [hu] at hn
  obtain ⟨bound, hbound, hdeclared, hreports, hjumps⟩ := exists_bindUnit_eq hn (.refl _) hu before
  refine ⟨bound, hbound, fun types' hp => ?_⟩
  obtain ⟨bound', hbound', -, hreports', hjumps'⟩ :=
    exists_bindUnit_eq (u := { u with members := types'.map .typeMember }) hn hp rfl before
  have hreferenced : bound'.isReferenced = bound.isReferenced := by
    funext place
    have hreverse : types'.reverse.Perm types.reverse :=
      ((List.reverse_perm types').trans hp).trans (List.reverse_perm types).symm
    have hjumped : bound'.state.referenced.Perm bound.state.referenced := by
      rw [hjumps, hjumps']
      exact hreverse.flatMap_right _
    rw [BoundUnit.isReferenced, BoundUnit.isReferenced, Bool.eq_iff_iff, List.contains_iff_mem,
      List.contains_iff_mem]
    exact hjumped.mem_iff
  have hbag := Flow.toList_unit_of_types ⟨(scan text).1, bound.isReferenced⟩ hu
    bound.state.diagnostics
  have hbag' := Flow.toList_unit_of_types ⟨(scan text).1, bound'.isReferenced⟩
    (u := { u with members := types'.map .typeMember }) rfl bound'.state.diagnostics
  rw [hreferenced] at hbag'
  rw [hdeclared, hu]
  refine ⟨bound', hbound', hreports', ?_, ?_⟩
  · rw [hreferenced]
    exact hbag'
  · rw [hreferenced, hbag', hbag, hreports, hreports']
    exact ((hp.flatMap_right _).append_left _).append (hp.flatMap_right _)

end CSharpFront
