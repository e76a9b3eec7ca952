import CSharpFront.Proofs.Flow.Findings
import CSharpFront.Proofs.Syntax.NamedBodies
/-!
The labels that the walk over a body reports: those to which nothing is noted to jump, in the order
of the text. A jump leads to a label of its own body.
-/

namespace CSharpFront.Flow

variable {c : Context} {s : State}

/-! ### Reports -/

/-- What is reported of labels. -/
def unusedLabels (c : Context) (ls : List Identifier) : List Diagnostic :=
  (ls.filter fun l => !c.isReferenced l.range.start).map fun l =>
    .of .labelNotReferenced l.span

theorem unusedLabels_append (ls ls' : List Identifier) :
    unusedLabels c (ls ++ ls') = unusedLabels c ls ++ unusedLabels c ls' := by
  simp [unusedLabels]

/-- What has been reported of labels. -/
def State.unused (s : State) : List Diagnostic :=
  s.diagnostics.toList.filter (·.message = .labelNotReferenced)

theorem unused_check (span : Span) : (s.check c span).unused = s.unused := by
  unfold State.check
  split
  · rfl
  · simp [State.unused, State.report, Diagnostic.of]

theorem unused_checks (spans : List Span) : (spans.foldl (·.check c ·) s).unused = s.unused := by
  induction spans generalizing s with
  | nil => rfl
  | cons span spans ih => rw [List.foldl_cons, ih, unused_check]

theorem unused_jump (note : Bool → LoopExits → LoopExits) : (s.jump note).unused = s.unused := by
  unfold State.jump
  split <;> rfl

theorem unused_roundEnd : s.roundEnd.unused = s.unused := by
  unfold State.roundEnd
  split <;> rfl

theorem unused_labelStart (r : Range) (l : Identifier) :
    (labelStart c r l s).unused =
      s.unused ++ unusedLabels c (if l.isMissing then [] else [l]) := by
  unfold labelStart
  cases hl : l.isMissing with
  | true =>
    show (s.check c r.toSpan).unused = _
    rw [unused_check]
    exact (List.append_nil _).symm
  | false =>
    cases hr : c.isReferenced l.range.start with
    | true =>
      show s.unused = _
      simp [unusedLabels, hr]
    | false =>
      show ((s.check c r.toSpan).report .labelNotReferenced l.span).unused = _
      rw [← unused_check (c := c) (s := s) r.toSpan]
      simp [State.unused, State.report, unusedLabels, hr, Diagnostic.of]

mutual

/-- The walk over a statement reports those of its labels to which nothing is noted to jump. -/
theorem unused_statement : (b : Stmt) → ∀ s,
    (statement c b s).unused = s.unused ++ unusedLabels c b.namedLabels
  | .block ⟨_, _, ss, _⟩, s => by
    rw [statement]
    exact unused_statements ss s
  | .empty _, s => (List.append_nil _).symm
  | .localDeclaration r _ _ _, s | .expression r _ _, s => by
    rw [statement, unused_check]
    simp [Stmt.namedLabels, Stmt.marks, unusedLabels]
  | .returnValue r _, s | .goto r _, s => by
    show (s.check c r.toSpan).unused = _
    rw [unused_check]
    simp [Stmt.namedLabels, Stmt.marks, unusedLabels]
  | .breakLoop r, s | .continueLoop r, s => by
    rw [statement, unused_jump, unused_check]
    exact (List.append_nil _).symm
  | .ifElse r e body none, s => by
    have hbody := unused_statement body (childStart c (.ifElse r e body none) s 0)
    rw [statement_ifElse, Stmt.namedLabels_ifElse, ← unused_check (c := c) (s := s) r.toSpan]
    exact hbody
  | .ifElse r e body (some other), s => by
    have hbody := unused_statement body (childStart c (.ifElse r e body (some other)) s 0)
    have hother := unused_statement other (childStart c (.ifElse r e body (some other)) s 1)
    rw [statement_ifElse_some, Stmt.namedLabels_ifElse_some, unusedLabels_append,
      ← List.append_assoc, ← unused_check (c := c) (s := s) r.toSpan]
    refine hother.trans (congrArg (· ++ _) ?_)
    exact hbody
  | .whileLoop r e body, s => by
    have hbody := unused_statement body (childStart c (.whileLoop r e body) s 0)
    rw [statement_whileLoop, Stmt.namedLabels_whileLoop, ← unused_check (c := c) (s := s) r.toSpan]
    exact hbody
  | .doLoop r body e, s => by
    have hbody := unused_statement body (childStart c (.doLoop r body e) s 0)
    rw [statement_doLoop, Stmt.namedLabels_doLoop, ← unused_check (c := c) (s := s) r.toSpan]
    exact hbody
  | .forLoop r h body, s => by
    have hbody := unused_statement body (childStart c (.forLoop r h body) s 0)
    rw [statement_forLoop, Stmt.namedLabels_forLoop,
      ← unused_checks (c := c) (s := s) (headerSpans h.initializer?)]
    refine (unused_checks _).trans ?_
    rw [unused_roundEnd]
    exact hbody
  | .labeled r l body, s => by
    have hbody := unused_statement body (childStart c (.labeled r l body) s 0)
    rw [statement_labeled, Stmt.namedLabels_labeled, unusedLabels_append, ← List.append_assoc,
      ← unused_labelStart]
    exact hbody

theorem unused_statements : (bs : List Stmt) → ∀ s,
    (statements c bs s).unused = s.unused ++ unusedLabels c (Stmt.allLabels bs)
  | [], s => (List.append_nil _).symm
  | b :: bs, s => by
    rw [statements, Stmt.allLabels_cons, unusedLabels_append, ← List.append_assoc,
      ← unused_statement b s]
    exact unused_statements bs _

end

/-- The walk over a unit reports the labels to which nothing is noted to jump. -/
theorem unused_unit (c : Context) (u : CompilationUnit) (diagnostics : Array Diagnostic) :
    (unit c u diagnostics).toList.filter (·.message = .labelNotReferenced) =
      diagnostics.toList.filter (·.message = .labelNotReferenced) ++
        u.namedBodies.flatMap fun b => unusedLabels c b.labels := by
  have hbodies : (u.namedBodies.flatMap fun b => unusedLabels c b.labels) =
      u.bodies.flatMap fun body => unusedLabels c (Stmt.allLabels body) := by
    rw [← u.map_namedBodies, List.flatMap_map]
    rfl
  rw [hbodies]
  unfold unit
  generalize u.bodies = bodies
  induction bodies generalizing diagnostics with
  | nil => simp
  | cons body bodies ih =>
    rw [List.foldl_cons, ih, List.flatMap_cons, ← List.append_assoc]
    exact congrArg (· ++ _) (unused_statements body { diagnostics })

/-! ### Jumps stay in their body -/

/-- The places of names. -/
def placesOf (ls : List Identifier) : List Nat := ls.map (·.range.start)

theorem placesOf_append (ls ls' : List Identifier) :
    placesOf (ls ++ ls') = placesOf ls ++ placesOf ls' :=
  List.map_append

theorem place_mem_of_mem_labelsBefore (p : List Nat) : (b : Stmt) → ∀ l ∈ labelsBefore p b,
    l.place ∈ placesOf b.namedLabels
  | .labeled r name b, l, hl => by
    have hbody := place_mem_of_mem_labelsBefore (p ++ [0]) b
    rw [Stmt.namedLabels_labeled, placesOf_append]
    rw [labelsBefore] at hl
    cases hname : name.isMissing with
    | true =>
      simp only [hname, if_true] at hl
      exact hbody l hl
    | false =>
      simp only [hname, Bool.false_eq_true, if_false] at hl
      rcases List.mem_cons.mp hl with rfl | hl
      · exact List.mem_append_left _ (List.mem_singleton_self _)
      · exact List.mem_append_right _ (hbody l hl)
  | .block _, _, hl | .empty _, _, hl | .localDeclaration .., _, hl | .expression .., _, hl
  | .ifElse .., _, hl | .whileLoop .., _, hl | .doLoop .., _, hl | .forLoop .., _, hl
  | .returnValue .., _, hl | .breakLoop _, _, hl | .continueLoop _, _, hl | .goto .., _, hl =>
    absurd hl List.not_mem_nil

theorem place_mem_of_mem_labelsAmong (p : List Nat) (i : Nat) (bs : List Stmt) :
    ∀ l ∈ labelsAmong p i bs, l.place ∈ placesOf (Stmt.allLabels bs) := by
  induction bs generalizing i with
  | nil => exact List.forall_mem_nil _
  | cons b bs ih =>
    rw [labelsAmong, Stmt.allLabels_cons, placesOf_append]
    refine List.forall_mem_append.mpr ⟨fun l hl => ?_, fun l hl => ?_⟩
    · exact List.mem_append_left _ (place_mem_of_mem_labelsBefore _ b l hl)
    · exact List.mem_append_right _ (ih (i + 1) l hl)

/-- Jumps to some labels or to names of a list. -/
def LeadTo (labels : List Label) (ls : List Identifier) (js : List (Point × Label)) : Prop :=
  ∀ j ∈ js, j.2 ∈ labels ∨ j.2.place ∈ placesOf ls

namespace LeadTo

variable {labels own : List Label} {ls ls' : List Identifier} {js js' : List (Point × Label)}

theorem append (h : LeadTo labels ls js) (h' : LeadTo labels ls' js') :
    LeadTo labels (ls ++ ls') (js ++ js') := by
  rw [LeadTo, placesOf_append]
  refine List.forall_mem_append.mpr ⟨fun j hj => ?_, fun j hj => ?_⟩
  · exact (h j hj).imp_right (List.mem_append_left _)
  · exact (h' j hj).imp_right (List.mem_append_right _)

/-- Labels that are among the names are left out. -/
theorem of_own (h : LeadTo (own ++ labels) ls js) (hown : ∀ l ∈ own, l.place ∈ placesOf ls) :
    LeadTo labels ls js := by
  intro j hj
  rcases h j hj with hl | hplace
  · rcases List.mem_append.mp hl with hl | hl
    · exact .inr (hown j.2 hl)
    · exact .inl hl
  · exact .inr hplace

theorem part {p : List Nat} {b : Stmt}
    (h : LeadTo (labelsBefore p b ++ labels) b.namedLabels js) : LeadTo labels b.namedLabels js :=
  h.of_own (place_mem_of_mem_labelsBefore p b)

end LeadTo

theorem mem_of_target?_eq_some {labels : List Label} {name : Identifier} {l : Label}
    (h : target? labels name = some l) : l ∈ labels := by
  unfold target? at h
  split at h
  · exact absurd h nofun
  · exact List.mem_of_find?_eq_some h

mutual

theorem leadTo_jumps (labels : List Label) (p : List Nat) : (b : Stmt) →
    LeadTo labels b.namedLabels (jumps labels p b)
  | .block ⟨_, _, ss, _⟩ =>
    (leadTo_jumpsAmong _ p 0 ss).of_own (place_mem_of_mem_labelsAmong p 0 ss)
  | .ifElse r e body none => by
    rw [Stmt.namedLabels_ifElse]
    exact (leadTo_jumps _ (p ++ [0]) body).part
  | .ifElse r e body (some other) => by
    rw [Stmt.namedLabels_ifElse_some]
    exact (leadTo_jumps _ (p ++ [0]) body).part.append (leadTo_jumps _ (p ++ [1]) other).part
  | .whileLoop r e body => by
    rw [Stmt.namedLabels_whileLoop]
    exact (leadTo_jumps _ (p ++ [0]) body).part
  | .doLoop r body e => by
    rw [Stmt.namedLabels_doLoop]
    exact (leadTo_jumps _ (p ++ [0]) body).part
  | .forLoop r h body => by
    rw [Stmt.namedLabels_forLoop]
    exact (leadTo_jumps _ (p ++ [0]) body).part
  | .labeled r l body => by
    rw [Stmt.namedLabels_labeled]
    have hnone : LeadTo labels (if l.isMissing then [] else [l]) [] := List.forall_mem_nil _
    exact hnone.append (leadTo_jumps labels (p ++ [0]) body)
  | .goto r l => by
    intro j hj
    rw [jumps] at hj
    split at hj
    next found hfound =>
      rw [List.mem_singleton.mp hj]
      exact .inl (mem_of_target?_eq_some hfound)
    · exact absurd hj List.not_mem_nil
  | .empty _ | .localDeclaration .. | .expression .. | .returnValue .. | .breakLoop _
  | .continueLoop _ => List.forall_mem_nil _

theorem leadTo_jumpsAmong (labels : List Label) (p : List Nat) (i : Nat) : (bs : List Stmt) →
    LeadTo labels (Stmt.allLabels bs) (jumpsAmong labels p i bs)
  | [] => List.forall_mem_nil _
  | b :: bs => by
    rw [Stmt.allLabels_cons, jumpsAmong]
    exact (leadTo_jumps labels (p ++ [i]) b).append (leadTo_jumpsAmong labels p (i + 1) bs)

end

/-- The jumps of a body lead to its own labels. -/
theorem place_mem_of_mem_bodyJumps {body : List Stmt} {j : Point × Label}
    (hj : j ∈ bodyJumps body) : j.2.place ∈ placesOf (Stmt.allLabels body) := by
  rcases leadTo_jumpsAmong _ [] 0 body j hj with hl | hplace
  · exact place_mem_of_mem_labelsAmong [] 0 body j.2 hl
  · exact hplace

end CSharpFront.Flow
