import CSharpFront.Proofs.Flow.Graph
/-!
What the walk reports as unreachable, point by point. The findings are those diagnostics and no
others, in the same order, and each has the text of its point. They do not depend on what has been
reported before.
-/

namespace CSharpFront.Flow

/-- The first token of a stretch of text, where the walk reports it. -/
def Context.anchor (c : Context) (span : Span) : Span :=
  ((c.stream.tokenFrom? span.start).map Token.span).getD span

/-- A point that the walk reports, with the text there. -/
structure Finding where
  point : Point
  span : Span

def Finding.diagnostic (c : Context) (f : Finding) : Diagnostic :=
  .of .unreachableCode (c.anchor f.span)

def findingAt (q : Point) (span : Span) (s : State) : List Finding :=
  if s.reachable || s.reported || span.isEmpty then [] else [⟨q, span⟩]

/-- The findings at points that are passed one after another. -/
def findingsAlong (c : Context) (part : Nat → Point) : Nat → List Span → State → List Finding
  | _, [], _ => []
  | i, span :: spans, s =>
    findingAt (part i) span s ++ findingsAlong c part (i + 1) spans (s.check c span)

/-- The state after the body of a `for`, to which `continue` leads as well. -/
def State.roundEnd (s : State) : State := if s.exits.continued then s.goOn true else s

/-- The state in which the walk comes to the statement after a label. -/
def labelStart (c : Context) (r : Range) (l : Identifier) (s : State) : State :=
  if !l.isMissing && c.isReferenced l.range.start then s.goOn true
  else
    let s := s.check c r.toSpan
    if l.isMissing then s else s.report .labelNotReferenced l.span

/-- The state in which the walk comes to a statement that is part of another. -/
def childStart (c : Context) : Stmt → State → Nat → State
  | .block ⟨_, _, ss, _⟩, s, i => statements c (ss.take i) s
  | .ifElse r e _ _, s, 0 =>
    let s := s.check c r.toSpan
    s.goOn (s.reachable && mayHold e.truth?)
  | .ifElse r e body _, s, _ =>
    let s := s.check c r.toSpan
    (statement c body (s.goOn (s.reachable && mayHold e.truth?))).goOn
      (s.reachable && mayFail e.truth?)
  | .whileLoop r e _, s, _ =>
    let s := s.check c r.toSpan
    s.enterLoop.goOn (s.reachable && mayHold e.truth?)
  | .doLoop r _ _, s, _ => (s.check c r.toSpan).enterLoop
  | .forLoop _ h _, s, _ =>
    let s := (headerSpans h.initializer?).foldl (·.check c ·) s
    s.enterLoop.goOn (s.reachable && mayHold (loopTruth? h.condition?))
  | .labeled r l _, s, _ => labelStart c r l s
  | _, s, _ => s

mutual

/-- What the walk over a statement reports as unreachable. -/
def findings (c : Context) (p : List Nat) : Stmt → State → List Finding
  | .block ⟨_, _, ss, _⟩, s => findingsAmong c p 0 ss s
  | .empty _, _ => []
  | .ifElse r e body else?, s =>
    findingAt ⟨p, .entry⟩ r.toSpan s ++
      findings c (p ++ [0]) body (childStart c (.ifElse r e body else?) s 0) ++
        match else? with
        | some other =>
          findings c (p ++ [1]) other (childStart c (.ifElse r e body (some other)) s 1)
        | none => []
  | .whileLoop r e body, s =>
    findingAt ⟨p, .entry⟩ r.toSpan s ++
      findings c (p ++ [0]) body (childStart c (.whileLoop r e body) s 0)
  | .doLoop r body e, s =>
    findingAt ⟨p, .entry⟩ r.toSpan s ++
      findings c (p ++ [0]) body (childStart c (.doLoop r body e) s 0)
  | .forLoop r h body, s =>
    let start := childStart c (.forLoop r h body) s 0
    findingsAlong c (⟨p, .initializer ·⟩) 0 (headerSpans h.initializer?) s ++
      findings c (p ++ [0]) body start ++
        findingsAlong c (⟨p, .incrementor ·⟩) 0 (h.incrementors.map Expr.span)
          (statement c body start).roundEnd
  | .labeled r l body, s =>
    (if !l.isMissing && c.isReferenced l.range.start then []
      else findingAt ⟨p, .entry⟩ r.toSpan s) ++
      findings c (p ++ [0]) body (childStart c (.labeled r l body) s 0)
  | .localDeclaration r _ _ _, s | .expression r _ _, s | .returnValue r _, s | .goto r _, s
  | .breakLoop r, s | .continueLoop r, s => findingAt ⟨p, .entry⟩ r.toSpan s

def findingsAmong (c : Context) (p : List Nat) : Nat → List Stmt → State → List Finding
  | _, [], _ => []
  | i, b :: bs, s => findings c (p ++ [i]) b s ++ findingsAmong c p (i + 1) bs (statement c b s)

end

/-- What the walk over a body reports as unreachable. -/
def bodyFindings (c : Context) (body : List Stmt) : List Finding := findingsAmong c [] 0 body {}

variable {c : Context} {s t : State}

/-! ### The walk, statement by statement -/

theorem statement_ifElse (r : Range) (e : Expr) (body : Stmt) :
    statement c (.ifElse r e body none) s =
      (childStart c (.ifElse r e body none) s 1).goOn
        ((statement c body (childStart c (.ifElse r e body none) s 0)).reachable ||
          (childStart c (.ifElse r e body none) s 1).reachable) := by
  rw [statement]
  rfl

theorem statement_ifElse_some (r : Range) (e : Expr) (body other : Stmt) :
    statement c (.ifElse r e body (some other)) s =
      (statement c other (childStart c (.ifElse r e body (some other)) s 1)).goOn
        ((statement c body (childStart c (.ifElse r e body (some other)) s 0)).reachable ||
          (statement c other (childStart c (.ifElse r e body (some other)) s 1)).reachable) := by
  rw [statement]
  rfl

theorem statement_whileLoop (r : Range) (e : Expr) (body : Stmt) :
    statement c (.whileLoop r e body) s =
      ((statement c body (childStart c (.whileLoop r e body) s 0)).leaveLoop
        (s.check c r.toSpan)).goOn ((s.check c r.toSpan).reachable && mayFail e.truth? ||
          (statement c body (childStart c (.whileLoop r e body) s 0)).exits.broken) := by
  rw [statement]
  rfl

theorem statement_doLoop (r : Range) (e : Expr) (body : Stmt) :
    statement c (.doLoop r body e) s =
      let bodyEnd := statement c body (childStart c (.doLoop r body e) s 0)
      (bodyEnd.leaveLoop (s.check c r.toSpan)).goOn
        ((bodyEnd.reachable || bodyEnd.exits.continued) && mayFail e.truth? ||
          bodyEnd.exits.broken) := by
  rw [statement]
  rfl

theorem statement_forLoop (r : Range) (h : ForHeader) (body : Stmt) :
    statement c (.forLoop r h body) s =
      let start := (headerSpans h.initializer?).foldl (·.check c ·) s
      let bodyEnd := statement c body (childStart c (.forLoop r h body) s 0)
      (((h.incrementors.map Expr.span).foldl (·.check c ·) bodyEnd.roundEnd).leaveLoop start).goOn
        (start.reachable && mayFail (loopTruth? h.condition?) || bodyEnd.exits.broken) := by
  rw [statement]
  rfl

theorem statement_labeled (r : Range) (l : Identifier) (body : Stmt) :
    statement c (.labeled r l body) s =
      statement c body (childStart c (.labeled r l body) s 0) := by
  rw [statement]
  rfl

/-! ### Findings and reports -/

/-- What has been reported as unreachable. -/
def State.unreachable (s : State) : List Diagnostic :=
  s.diagnostics.toList.filter (·.message = .unreachableCode)

theorem unreachable_check (q : Point) (span : Span) :
    (s.check c span).unreachable = s.unreachable ++ (findingAt q span s).map (·.diagnostic c) := by
  unfold State.check findingAt
  split
  · simp
  · simp [State.unreachable, State.report, Finding.diagnostic, Context.anchor, Diagnostic.of]

theorem unreachable_checks (part : Nat → Point) (i : Nat) (spans : List Span) :
    (spans.foldl (·.check c ·) s).unreachable =
      s.unreachable ++ (findingsAlong c part i spans s).map (·.diagnostic c) := by
  induction spans generalizing i s with
  | nil => simp [findingsAlong]
  | cons span spans ih =>
    rw [List.foldl_cons, ih (i + 1), unreachable_check (part i), findingsAlong, List.map_append,
      List.append_assoc]

theorem unreachable_jump (note : Bool → LoopExits → LoopExits) :
    (s.jump note).unreachable = s.unreachable := by
  unfold State.jump
  split <;> rfl

theorem unreachable_roundEnd : s.roundEnd.unreachable = s.unreachable := by
  unfold State.roundEnd
  split <;> rfl

theorem unreachable_labelStart (q : Point) (r : Range) (l : Identifier) :
    (labelStart c r l s).unreachable =
      s.unreachable ++ (if !l.isMissing && c.isReferenced l.range.start then []
        else findingAt q r.toSpan s).map (·.diagnostic c) := by
  unfold labelStart
  split
  · rw [List.map_nil, List.append_nil]
    rfl
  · have hcheck := unreachable_check (c := c) (s := s) q r.toSpan
    dsimp only
    split
    · exact hcheck
    · rw [← hcheck]
      simp [State.unreachable, State.report, Diagnostic.of]

mutual

/-- The walk over a statement reports its findings as unreachable, and nothing else. -/
theorem unreachable_statement (p : List Nat) : (b : Stmt) → ∀ s, (statement c b s).unreachable =
    s.unreachable ++ (findings c p b s).map (·.diagnostic c)
  | .block ⟨_, _, ss, _⟩, s => by
    rw [statement, findings]
    exact unreachable_statements p 0 ss s
  | .empty _, s => by simp [statement, findings]
  | .localDeclaration r _ _ _, s | .expression r _ _, s | .returnValue r _, s | .goto r _, s => by
    rw [statement, findings]
    exact unreachable_check _ _
  | .breakLoop r, s | .continueLoop r, s => by
    rw [statement, findings, unreachable_jump]
    exact unreachable_check _ _
  | .ifElse r e body none, s => by
    have hbody := unreachable_statement (p ++ [0]) body (childStart c (.ifElse r e body none) s 0)
    rw [statement_ifElse, findings, List.append_nil, List.map_append, ← List.append_assoc,
      ← unreachable_check]
    exact hbody
  | .ifElse r e body (some other), s => by
    have hbody := unreachable_statement (p ++ [0]) body
      (childStart c (.ifElse r e body (some other)) s 0)
    have hother := unreachable_statement (p ++ [1]) other
      (childStart c (.ifElse r e body (some other)) s 1)
    rw [statement_ifElse_some, findings, List.map_append, List.map_append, ← List.append_assoc,
      ← List.append_assoc, ← unreachable_check]
    refine hother.trans (congrArg (· ++ _) ?_)
    exact hbody
  | .whileLoop r e body, s => by
    have hbody := unreachable_statement (p ++ [0]) body (childStart c (.whileLoop r e body) s 0)
    rw [statement_whileLoop, findings, List.map_append, ← List.append_assoc, ← unreachable_check]
    exact hbody
  | .doLoop r body e, s => by
    have hbody := unreachable_statement (p ++ [0]) body (childStart c (.doLoop r body e) s 0)
    rw [statement_doLoop, findings, List.map_append, ← List.append_assoc, ← unreachable_check]
    exact hbody
  | .forLoop r h body, s => by
    have hbody := unreachable_statement (p ++ [0]) body (childStart c (.forLoop r h body) s 0)
    rw [statement_forLoop, findings, List.map_append, List.map_append, ← List.append_assoc,
      ← List.append_assoc, ← unreachable_checks]
    refine (unreachable_checks (⟨p, .incrementor ·⟩) 0 _).trans (congrArg (· ++ _) ?_)
    rw [unreachable_roundEnd]
    exact hbody
  | .labeled r l body, s => by
    have hbody := unreachable_statement (p ++ [0]) body (childStart c (.labeled r l body) s 0)
    rw [statement_labeled, findings, List.map_append, ← List.append_assoc, ← unreachable_labelStart]
    exact hbody

theorem unreachable_statements (p : List Nat) (i : Nat) : (bs : List Stmt) → ∀ s,
    (statements c bs s).unreachable =
      s.unreachable ++ (findingsAmong c p i bs s).map (·.diagnostic c)
  | [], s => by simp [statements, findingsAmong]
  | b :: bs, s => by
    rw [statements, findingsAmong, List.map_append, ← List.append_assoc,
      ← unreachable_statement (p ++ [i]) b s]
    exact unreachable_statements p (i + 1) bs _

end

/-! ### What was reported before -/

/-- States that differ only in what has been reported. -/
structure State.Agrees (s t : State) : Prop where
  reachable : s.reachable = t.reachable
  reported : s.reported = t.reported
  loop? : s.loop? = t.loop?

namespace State.Agrees

theorem check (h : s.Agrees t) (span : Span) : (s.check c span).Agrees (t.check c span) := by
  unfold State.check
  rw [h.reachable, h.reported]
  split
  · exact h
  · exact ⟨h.reachable, rfl, h.loop?⟩

theorem checks (h : s.Agrees t) (spans : List Span) :
    (spans.foldl (·.check c ·) s).Agrees (spans.foldl (·.check c ·) t) := by
  induction spans generalizing s t with
  | nil => exact h
  | cons span spans ih => exact ih (h.check span)

theorem goOn (h : s.Agrees t) {b b' : Bool} (hb : b = b') : (s.goOn b).Agrees (t.goOn b') := by
  subst hb
  exact ⟨rfl, congrArg (· && !b) h.reported, h.loop?⟩

theorem goOnIf (h : s.Agrees t) (b : Bool) :
    (s.goOn (s.reachable && b)).Agrees (t.goOn (t.reachable && b)) :=
  h.goOn (congrArg (· && b) h.reachable)

theorem report (h : s.Agrees t) (message : Message) (span : Span) :
    (s.report message span).Agrees (t.report message span) := ⟨h.1, h.2, h.3⟩

theorem enterLoop (h : s.Agrees t) : s.enterLoop.Agrees t.enterLoop :=
  ⟨h.reachable, h.reported, rfl⟩

theorem leaveLoop (h : s.Agrees t) {s' t' : State} (h' : s'.Agrees t') :
    (s.leaveLoop s').Agrees (t.leaveLoop t') := ⟨h.reachable, h.reported, h'.loop?⟩

theorem exits (h : s.Agrees t) : s.exits = t.exits := congrArg (·.getD {}) h.loop?

theorem jump (h : s.Agrees t) (note : Bool → LoopExits → LoopExits) :
    (s.jump note).Agrees (t.jump note) := by
  unfold State.jump
  rw [h.loop?, h.reachable]
  cases t.loop? with
  | none => exact h
  | some l => exact ⟨rfl, (h.goOn rfl).reported, rfl⟩

theorem roundEnd (h : s.Agrees t) : s.roundEnd.Agrees t.roundEnd := by
  unfold State.roundEnd
  rw [h.exits]
  split
  · exact h.goOn rfl
  · exact h

theorem labelStart (h : s.Agrees t) (r : Range) (l : Identifier) :
    (labelStart c r l s).Agrees (labelStart c r l t) := by
  unfold Flow.labelStart
  split
  · exact h.goOn rfl
  · dsimp only
    split
    · exact h.check _
    · exact (h.check _).report _ _

end State.Agrees

mutual

theorem agrees_statement :
    (b : Stmt) → ∀ s t, s.Agrees t → (statement c b s).Agrees (statement c b t)
  | .block ⟨_, _, ss, _⟩, s, t, h => by
    rw [statement, statement]
    exact agrees_statements ss s t h
  | .empty _, s, t, h => by
    rw [statement, statement]
    exact h
  | .localDeclaration r _ _ _, s, t, h | .expression r _ _, s, t, h => by
    rw [statement, statement]
    exact h.check _
  | .returnValue r _, s, t, h | .goto r _, s, t, h => by
    rw [statement, statement]
    exact (h.check _).goOn rfl
  | .breakLoop r, s, t, h | .continueLoop r, s, t, h => by
    rw [statement, statement]
    exact (h.check _).jump _
  | .ifElse r e body none, s, t, h => by
    have hs := h.check (c := c) r.toSpan
    have hthen := agrees_statement body _ _ (hs.goOnIf (mayHold e.truth?))
    have helse := hthen.goOn (congrArg (· && mayFail e.truth?) hs.reachable)
    rw [statement_ifElse, statement_ifElse]
    exact helse.goOn (congrArg₂ or hthen.reachable helse.reachable)
  | .ifElse r e body (some other), s, t, h => by
    have hs := h.check (c := c) r.toSpan
    have hthen := agrees_statement body _ _ (hs.goOnIf (mayHold e.truth?))
    have helse := agrees_statement other _ _
      (hthen.goOn (congrArg (· && mayFail e.truth?) hs.reachable))
    rw [statement_ifElse_some, statement_ifElse_some]
    exact helse.goOn (congrArg₂ or hthen.reachable helse.reachable)
  | .whileLoop r e body, s, t, h => by
    have hs := h.check (c := c) r.toSpan
    have hbody := agrees_statement body _ _ (hs.enterLoop.goOnIf (mayHold e.truth?))
    rw [statement_whileLoop, statement_whileLoop]
    exact (hbody.leaveLoop hs).goOn (congrArg₂ or
      (congrArg (· && mayFail e.truth?) hs.reachable) (congrArg LoopExits.broken hbody.exits))
  | .doLoop r body e, s, t, h => by
    have hs := h.check (c := c) r.toSpan
    have hbody := agrees_statement body _ _ hs.enterLoop
    have hround := congrArg₂ or hbody.reachable (congrArg LoopExits.continued hbody.exits)
    rw [statement_doLoop, statement_doLoop]
    exact (hbody.leaveLoop hs).goOn (congrArg₂ or
      (congrArg (· && mayFail e.truth?) hround) (congrArg LoopExits.broken hbody.exits))
  | .forLoop r header body, s, t, h => by
    have hs := h.checks (c := c) (headerSpans header.initializer?)
    have hbody := agrees_statement body _ _
      (hs.enterLoop.goOnIf (mayHold (loopTruth? header.condition?)))
    rw [statement_forLoop, statement_forLoop]
    exact ((hbody.roundEnd.checks _).leaveLoop hs).goOn (congrArg₂ or
      (congrArg (· && mayFail (loopTruth? header.condition?)) hs.reachable)
      (congrArg LoopExits.broken hbody.exits))
  | .labeled r l body, s, t, h => by
    rw [statement_labeled, statement_labeled]
    exact agrees_statement body _ _ (h.labelStart r l)

theorem agrees_statements :
    (bs : List Stmt) → ∀ s t, s.Agrees t → (statements c bs s).Agrees (statements c bs t)
  | [], _, _, h => h
  | b :: bs, s, t, h => agrees_statements bs _ _ (agrees_statement b s t h)

end

theorem agrees_childStart (c : Context) (h : s.Agrees t) :
    (b : Stmt) → (i : Nat) → (childStart c b s i).Agrees (childStart c b t i)
  | .block ⟨_, _, ss, _⟩, i => agrees_statements (ss.take i) s t h
  | .ifElse r e _ _, 0 => (h.check r.toSpan).goOnIf (mayHold e.truth?)
  | .ifElse r e body _, _ + 1 => by
    have hs := h.check (c := c) r.toSpan
    have hthen := agrees_statement (c := c) body _ _ (hs.goOnIf (mayHold e.truth?))
    exact hthen.goOn (congrArg (· && mayFail e.truth?) hs.reachable)
  | .whileLoop r e _, _ => (h.check r.toSpan).enterLoop.goOnIf (mayHold e.truth?)
  | .doLoop r _ _, _ => (h.check r.toSpan).enterLoop
  | .forLoop _ header _, _ =>
    (h.checks (headerSpans header.initializer?)).enterLoop.goOnIf
      (mayHold (loopTruth? header.condition?))
  | .labeled r l _, _ => h.labelStart r l
  | .empty _, _ | .localDeclaration _ _ _ _, _ | .expression _ _ _, _ | .returnValue _ _, _
  | .goto _ _, _ | .breakLoop _, _ | .continueLoop _, _ => h

theorem findingAt_eq (h : s.Agrees t) (q : Point) (span : Span) :
    findingAt q span s = findingAt q span t := by
  rw [findingAt, findingAt, h.reachable, h.reported]

theorem findingsAlong_eq (h : s.Agrees t) (part : Nat → Point) (i : Nat) (spans : List Span) :
    findingsAlong c part i spans s = findingsAlong c part i spans t := by
  induction spans generalizing i s t with
  | nil => rfl
  | cons span spans ih =>
    rw [findingsAlong, findingsAlong, findingAt_eq h, ih (h.check span)]

mutual

/-- What was reported before makes no difference to the findings. -/
theorem findings_eq (p : List Nat) :
    (b : Stmt) → ∀ s t, s.Agrees t → findings c p b s = findings c p b t
  | .block ⟨_, _, ss, _⟩, s, t, h => by
    rw [findings, findings]
    exact findingsAmong_eq p 0 ss s t h
  | .empty _, s, t, _ => by rw [findings, findings]
  | .localDeclaration _ _ _ _, s, t, h | .expression _ _ _, s, t, h | .returnValue _ _, s, t, h
  | .goto _ _, s, t, h | .breakLoop _, s, t, h | .continueLoop _, s, t, h => by
    rw [findings, findings, findingAt_eq h]
  | .ifElse r e body none, s, t, h => by
    have hbody := findings_eq (p ++ [0]) body _ _ (agrees_childStart c h (.ifElse r e body none) 0)
    rw [findings, findings, findingAt_eq h, hbody]
  | .ifElse r e body (some other), s, t, h => by
    have hbody := findings_eq (p ++ [0]) body _ _
      (agrees_childStart c h (.ifElse r e body (some other)) 0)
    have hother := findings_eq (p ++ [1]) other _ _
      (agrees_childStart c h (.ifElse r e body (some other)) 1)
    rw [findings, findings, findingAt_eq h, hbody, hother]
  | .whileLoop r e body, s, t, h => by
    have hbody := findings_eq (p ++ [0]) body _ _ (agrees_childStart c h (.whileLoop r e body) 0)
    rw [findings, findings, findingAt_eq h, hbody]
  | .doLoop r body e, s, t, h => by
    have hbody := findings_eq (p ++ [0]) body _ _ (agrees_childStart c h (.doLoop r body e) 0)
    rw [findings, findings, findingAt_eq h, hbody]
  | .forLoop r header body, s, t, h => by
    have hstart := agrees_childStart c h (.forLoop r header body) 0
    have hbody := findings_eq (p ++ [0]) body _ _ hstart
    have hround := (agrees_statement (c := c) body _ _ hstart).roundEnd
    rw [findings, findings, findingsAlong_eq h, hbody, findingsAlong_eq hround]
  | .labeled r l body, s, t, h => by
    have hbody := findings_eq (p ++ [0]) body _ _ (agrees_childStart c h (.labeled r l body) 0)
    rw [findings, findings, findingAt_eq h, hbody]

theorem findingsAmong_eq (p : List Nat) (i : Nat) :
    (bs : List Stmt) → ∀ s t, s.Agrees t → findingsAmong c p i bs s = findingsAmong c p i bs t
  | [], _, _, _ => rfl
  | b :: bs, s, t, h => by
    rw [findingsAmong, findingsAmong, findings_eq (p ++ [i]) b s t h,
      findingsAmong_eq p (i + 1) bs _ _ (agrees_statement b s t h)]

end

/-- The walk over a body reports the findings in it as unreachable, and nothing else. -/
theorem unreachable_body (body : List Stmt) (diagnostics : Array Diagnostic) :
    (statements c body { diagnostics }).unreachable =
      State.unreachable { diagnostics } ++ (bodyFindings c body).map (·.diagnostic c) := by
  rw [unreachable_statements [] 0, bodyFindings,
    findingsAmong_eq [] 0 body { diagnostics } {} ⟨rfl, rfl, rfl⟩]

theorem unreachable_unit (c : Context) (u : CompilationUnit) (diagnostics : Array Diagnostic) :
    (unit c u diagnostics).toList.filter (·.message = .unreachableCode) =
      diagnostics.toList.filter (·.message = .unreachableCode) ++
        u.bodies.flatMap fun body => (bodyFindings c body).map (·.diagnostic c) := by
  unfold unit
  generalize u.bodies = bodies
  induction bodies generalizing diagnostics with
  | nil => simp
  | cons body bodies ih =>
    rw [List.foldl_cons, ih, List.flatMap_cons, ← List.append_assoc]
    exact congrArg (· ++ _) (unreachable_body body diagnostics)

/-! ### The code of a finding -/

/-- A finding in a statement, with the text at its point. -/
def Finding.IsIn (f : Finding) (p : List Nat) (b : Stmt) : Prop :=
  ∃ q b', f.point.path = p ++ q ∧ descend? b q = some b' ∧
    partSpan? b' f.point.part = some f.span

namespace Finding.IsIn

variable {f : Finding} {p : List Nat} {b b' : Stmt}

theorem child {i : Nat} (hb : child? b i = some b') (h : f.IsIn (p ++ [i]) b') : f.IsIn p b := by
  obtain ⟨q, b'', hpath, hq, hspan⟩ := h
  refine ⟨i :: q, b'', by rw [hpath, List.append_assoc, List.singleton_append], ?_, hspan⟩
  rw [descend?, hb]
  exact hq

theorem of_findingAt {part : Part} {span : Span} (h : f ∈ findingAt ⟨p, part⟩ span s)
    (hspan : partSpan? b part = some span) : f.IsIn p b := by
  unfold findingAt at h
  split at h
  · simp at h
  · obtain rfl := List.mem_singleton.mp h
    exact ⟨[], b, (List.append_nil p).symm, rfl, hspan⟩

theorem of_findingsAlong {part : Nat → Part} {i : Nat} {spans : List Span}
    (h : f ∈ findingsAlong c (fun j => ⟨p, part j⟩) i spans s)
    (hspans : ∀ j, (h : j < spans.length) → partSpan? b (part (i + j)) = some spans[j]) :
    f.IsIn p b := by
  induction spans generalizing i s with
  | nil => simp [findingsAlong] at h
  | cons span spans ih =>
    rw [findingsAlong, List.mem_append] at h
    rcases h with h | h
    · exact of_findingAt h (hspans 0 (Nat.zero_lt_succ _))
    · refine ih h fun j hj => ?_
      have hnext := hspans (j + 1) (Nat.succ_lt_succ hj)
      rw [List.getElem_cons_succ, ← Nat.add_assoc, Nat.add_right_comm] at hnext
      exact hnext

end Finding.IsIn

mutual

theorem isIn_of_mem_findings (p : List Nat) :
    (b : Stmt) → ∀ s, ∀ f ∈ findings c p b s, f.IsIn p b
  | .block ⟨_, _, ss, _⟩, s, f, hf => by
    rw [findings] at hf
    obtain ⟨i, b, hb, h⟩ := isIn_of_mem_findingsAmong p 0 ss s f hf
    exact .child hb (Nat.zero_add i ▸ h)
  | .empty _, s, f, hf => by simp [findings] at hf
  | .localDeclaration _ _ _ _, s, f, hf | .expression _ _ _, s, f, hf | .returnValue _ _, s, f, hf
  | .goto _ _, s, f, hf | .breakLoop _, s, f, hf | .continueLoop _, s, f, hf => by
    rw [findings] at hf
    exact .of_findingAt hf rfl
  | .ifElse r e body none, s, f, hf => by
    rw [findings, List.append_nil, List.mem_append] at hf
    rcases hf with hf | hf
    · exact .of_findingAt hf rfl
    · exact .child rfl (isIn_of_mem_findings (p ++ [0]) body _ f hf)
  | .ifElse r e body (some other), s, f, hf => by
    rw [findings, List.mem_append, List.mem_append] at hf
    rcases hf with (hf | hf) | hf
    · exact .of_findingAt hf rfl
    · exact .child rfl (isIn_of_mem_findings (p ++ [0]) body _ f hf)
    · exact .child rfl (isIn_of_mem_findings (p ++ [1]) other _ f hf)
  | .whileLoop r e body, s, f, hf | .doLoop r body e, s, f, hf => by
    rw [findings, List.mem_append] at hf
    rcases hf with hf | hf
    · exact .of_findingAt hf rfl
    · exact .child rfl (isIn_of_mem_findings (p ++ [0]) body _ f hf)
  | .forLoop r h body, s, f, hf => by
    rw [findings, List.mem_append, List.mem_append] at hf
    rcases hf with (hf | hf) | hf
    · refine .of_findingsAlong hf fun j hj => ?_
      rw [Nat.zero_add, partSpan?, List.getElem?_eq_getElem hj]
    · exact .child rfl (isIn_of_mem_findings (p ++ [0]) body _ f hf)
    · refine .of_findingsAlong hf fun j hj => ?_
      rw [Nat.zero_add, partSpan?, List.getElem?_eq_getElem hj]
  | .labeled r l body, s, f, hf => by
    rw [findings, List.mem_append] at hf
    rcases hf with hf | hf
    · split at hf
      · simp at hf
      · exact .of_findingAt hf rfl
    · exact .child rfl (isIn_of_mem_findings (p ++ [0]) body _ f hf)

theorem isIn_of_mem_findingsAmong (p : List Nat) (i : Nat) : (bs : List Stmt) → ∀ s,
    ∀ f ∈ findingsAmong c p i bs s, ∃ j b, bs[j]? = some b ∧ f.IsIn (p ++ [i + j]) b
  | [], s, f, hf => by simp [findingsAmong] at hf
  | b :: bs, s, f, hf => by
    rw [findingsAmong, List.mem_append] at hf
    rcases hf with hf | hf
    · exact ⟨0, b, rfl, isIn_of_mem_findings (p ++ [i]) b s f hf⟩
    · obtain ⟨j, b', hb, h⟩ := isIn_of_mem_findingsAmong p (i + 1) bs _ f hf
      refine ⟨j + 1, b', hb, ?_⟩
      rwa [Nat.add_assoc, Nat.add_comm 1 j] at h

end

/-- A finding has the text at its point. -/
theorem codeAt?_of_mem_bodyFindings {body : List Stmt} {f : Finding}
    (hf : f ∈ bodyFindings c body) : codeAt? body f.point = some f.span := by
  obtain ⟨i, b, hb, q, b', hpath, hq, hspan⟩ := isIn_of_mem_findingsAmong [] 0 body {} f hf
  simp only [Nat.zero_add, List.nil_append, List.singleton_append] at hpath
  simp [codeAt?, hpath, hb, hq, hspan]

end CSharpFront.Flow
