import CSharpFront.Proofs.Parser.OrderlyDeclarations
/-!
The discipline of nesting. A parser is called for a unit, for a statement or for an expression, and
may be called again after that. Whatever it was called for, and also where it finds that it has been
cancelled, it leaves just the levels that it entered, stays within the limit all the time, and
reports the limit at most once, as the last thing that it reports.
-/

namespace CSharpFront.Parser

variable {tokens : List Token} {env : Env} {s t : State}

/-! ### Calls -/

/-- What a parser can be called for. -/
inductive Call
  | unit
  | statement
  | expression

/-- The state after a call, whatever its result is. -/
def Call.run (env : Env) (s : State) : Call → State
  | .unit => ((compilationUnit env.bound).run env s).2
  | .statement => (parseStatement env s).2
  | .expression => (parseExpression env s).2

/-- A call comes back to the depth from which it started. -/
theorem Call.leads (he : env.endOfFile.kind = .endOfFile) (hb : tokens.length < env.budget)
    (hs : Ready tokens env.bound env s) (call : Call) :
    Leads env s (call.run env s) ∧ (call.run env s).depth = s.depth := by
  have hraises : env.Raises tokens env := .refl he hb
  have hrules : (rules env.bound).AreOrderly tokens env.bound (rules env.bound) :=
    areOrderly_rules (Nat.le_refl _)
  cases call with
  | unit =>
    have hrun := orderly_compilationUnit (Nat.le_refl _) env env s hraises hs (Nat.zero_le _)
    exact ⟨hrun.leads, hrun.depth⟩
  | statement =>
    have hrun := hrules.statement.orderly env env s hraises hs (Nat.zero_le _)
    exact ⟨hrun.leads, hrun.depth⟩
  | expression =>
    have hrun := hrules.expression.orderly env env s hraises hs (Nat.zero_le _)
    exact ⟨hrun.leads, hrun.depth⟩

/-- So do any number of calls, by induction on them. -/
theorem Call.leads_foldl (he : env.endOfFile.kind = .endOfFile) (hb : tokens.length < env.budget)
    (calls : List Call) (hs : Ready tokens env.bound env s) :
    Leads env s (calls.foldl (run env) s) ∧
      (calls.foldl (run env) s).depth = s.depth := by
  induction calls generalizing s with
  | nil => exact ⟨.refl _ _, rfl⟩
  | cons call calls ih =>
    obtain ⟨hl, hd⟩ := call.leads he hb hs
    obtain ⟨hl', hd'⟩ := ih (hs.of_leads hl hd)
    exact ⟨hl.trans hl', hd'.trans hd⟩

/-! ### A whole life of a parser -/

theorem ready_start (stream : TokenStream) (maxDepth : Nat) (before : Array Diagnostic)
    (polls : Polls) :
    Ready stream.tokens (Env.of stream maxDepth).bound (Env.of stream maxDepth)
      (.start stream before polls) := by
  refine ⟨List.suffix_rfl, ⟨Nat.zero_le _, fun h => ?_⟩, ?_⟩
  · cases h
  · show maxDepth < 0 + (maxDepth + 1)
    omega

/-- What a parser that began after some diagnostics keeps to in a call from one state to another. -/
structure ObservesLimit (maxDepth : Nat) (before : Array Diagnostic) (s t : State) : Prop where
  /-- All levels that were entered have been left again. -/
  depth : t.depth = s.depth
  /-- At no time were more levels left than had been entered. -/
  ranOut : t.ranOut = false
  depth_le : ∀ m ∈ t.toMoment :: t.trail, m.depth ≤ maxDepth
  /-- The limit is reported at most once, and nothing is reported after it. -/
  reported : ∀ m ∈ t.toMoment :: t.trail, m.Reported before
  /-- From then on the parser stays at the end of the file. -/
  dropped : ∀ m ∈ t.toMoment :: t.trail, m.tooDeep = true → m.rest = []
  settled : (t.toMoment :: t.trail).Pairwise fun later earlier =>
    earlier.tooDeep = true → later.tooDeep = true ∧ later.diagnostics = earlier.diagnostics

/-- Every moment of a parser's life is sane, has reported what it should, and settles those after
it. -/
theorem Leads.life {stream : TokenStream} {before : Array Diagnostic} {polls : Polls}
    (h : Leads env (.start stream before polls) t) :
    (∀ m ∈ t.toMoment :: t.trail, m.Sane env.maxDepth ∧ m.Reported before) ∧
      (t.toMoment :: t.trail).Pairwise fun later earlier => earlier.Settles later := by
  obtain ⟨⟨ms, htrail, hcourse⟩, -⟩ := h
  have htrail : t.trail = ms := htrail.trans (List.append_nil ms)
  rw [htrail]
  have hsane : (State.start stream before polls).toMoment.Sane env.maxDepth :=
    ⟨Nat.zero_le _, fun h => by cases h⟩
  have hreported : (State.start stream before polls).toMoment.Reported before :=
    ⟨#[], by simp, .inl ⟨rfl, Array.append_empty.symm⟩⟩
  obtain ⟨hlast, hmoments⟩ := hcourse.invariant
    (p := fun m => m.Sane env.maxDepth ∧ m.Reported before)
    (fun hstep hm => ⟨hstep.sane hm.1, hstep.reported hm.2⟩) ⟨hsane, hreported⟩
  obtain ⟨-, hends, hpairs⟩ := hcourse.pairwise Moment.Settles.refl
    (fun h h' => h.trans h') fun hstep => hstep.settles
  exact ⟨List.forall_mem_cons.mpr ⟨hlast, hmoments⟩,
    List.pairwise_cons.mpr ⟨fun m hm => (hends m hm).2, hpairs⟩⟩

/-- A parser observes the limit in every call of its life, however many calls came before. -/
theorem call_observesLimit {stream : TokenStream} (he : stream.endOfFile.kind = .endOfFile)
    (maxDepth : Nat) (before : Array Diagnostic) (polls : Polls) (calls : List Call)
    (call : Call) :
    let env := Env.of stream maxDepth
    let s := calls.foldl (Call.run env) (.start stream before polls)
    ObservesLimit maxDepth before s (call.run env s) := by
  intro env s
  have hb : stream.tokens.length < env.budget := Nat.lt_succ_self _
  have hstart := ready_start stream maxDepth before polls
  obtain ⟨hl, hd⟩ := Call.leads_foldl he hb calls hstart
  obtain ⟨hl', hd'⟩ := call.leads he hb (hstart.of_leads hl hd)
  obtain ⟨hmoments, hpairs⟩ := (hl.trans hl').life
  refine ⟨hd', ?_, fun m hm => (hmoments m hm).1.depth_le, fun m hm => (hmoments m hm).2,
    fun m hm => (hmoments m hm).1.dropped, ?_⟩
  · calc (call.run env s).ranOut = s.ranOut := hl'.ranOut
      _ = (State.start stream before polls).ranOut := hl.ranOut
      _ = false := rfl
  · refine hpairs.imp_of_mem fun hlater hearlier hsettles ht => ?_
    obtain ⟨ht', -, hdiagnostics⟩ := hsettles ht ((hmoments _ hearlier).1.dropped ht)
    exact ⟨ht', hdiagnostics⟩

/-- The tokens of `((x`. -/
def openParens : TokenStream :=
  ⟨[⟨.punct .openParen, ⟨0, 1⟩, "(", {}⟩, ⟨.punct .openParen, ⟨1, 2⟩, "(", {}⟩,
      ⟨.identifier, ⟨2, 3⟩, "x", {}⟩],
    ⟨.endOfFile, ⟨3, 3⟩, "", {}⟩⟩

/-- An expression hits the limit, and a unit is asked for after that. -/
theorem observesLimit_of_openParens :
    let env := Env.of openParens 2
    let s := [Call.expression].foldl (Call.run env) (.start openParens #[] (some 0))
    openParens.endOfFile.kind = .endOfFile ∧ s.tooDeep = true ∧
      ObservesLimit 2 #[] s (Call.unit.run env s) :=
  ⟨rfl, rfl, call_observesLimit rfl 2 #[] (some 0) [.expression] .unit⟩

end CSharpFront.Parser
