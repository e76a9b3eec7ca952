import CSharpFront.Flow.Reachability
import CSharpFront.Proofs.Syntax.Relaid
/-!
Two walks in step. The walk over a body asks of places no more than whether a stretch is empty and
whether a label is one of those that are jumped to; of corresponding bodies it reports the same.
-/

namespace CSharpFront

variable {l : Relayout}

theorem Expr.truth?_relaid : (e : Expr) → {e' : Expr} → e.Relaid l e' → e.truth? = e'.truth?
  | .literal _, _, h => by
    cases h with
    | literal h => rw [truth?, truth?, h.kind]
  | .parenthesized _ e, _, h => by
    cases h with
    | parenthesized _ he => rw [truth?, truth?, e.truth?_relaid he]
  | .prefixUnary _ _ e, _, h => by
    cases h with
    | prefixUnary _ ho he => rw [truth?, truth?, e.truth?_relaid he, ho.kind]
  | .identifier _, _, h | .thisWord _, _, h | .predefinedType _ _, _, h | .binary .., _, h
  | .assignment .., _, h | .conditional .., _, h | .postfixUnary .., _, h | .cast .., _, h
  | .typeTest .., _, h | .memberAccess .., _, h | .invocation .., _, h | .elementAccess .., _, h
  | .objectCreation .., _, h | .arrayCreation .., _, h | .implicitArrayCreation .., _, h
  | .initializer _, _, h | .await .., _, h | .query .., _, h | .missing _, _, h => by
    cases h
    rfl

namespace Flow

variable {l : Rerun}

structure Context.Relaid (l : Relayout) (c c' : Context) : Prop where
  isReferenced {p q : Nat} : l.starts p q → c.isReferenced p = c'.isReferenced q

structure State.Relaid (l : Rerun) (s s' : State) : Prop where
  reachable : s.reachable = s'.reachable
  reported : s.reported = s'.reported
  loop : s.loop? = s'.loop?
  diagnostics : l.Reports s.diagnostics s'.diagnostics

namespace State.Relaid

variable {s s' : State}

theorem report (h : s.Relaid l s') (message : Message) (span span' : Span) :
    (s.report message span).Relaid l (s'.report message span') :=
  { h with diagnostics := h.diagnostics.push ⟨rfl, rfl, rfl⟩ }

theorem goOn (h : s.Relaid l s') {b b' : Bool} (hb : b = b') : (s.goOn b).Relaid l (s'.goOn b') :=
  ⟨hb, by simp only [State.goOn, h.reported, hb], h.loop, h.diagnostics⟩

/-- The stretches may begin at different tokens, but both are reported or none. -/
theorem check (c c' : Context) (h : s.Relaid l s') {span span' : Span}
    (he : span.isEmpty = span'.isEmpty) :
    (s.check c span).Relaid l (s'.check c' span') := by
  unfold State.check
  rw [h.reachable, h.reported, he]
  split
  · exact h
  · exact { h.report _ _ _ with reported := rfl }

theorem checks (c c' : Context) (h : s.Relaid l s') {spans spans' : List Span}
    (he : List.Forall₂ (fun a b => a.isEmpty = b.isEmpty) spans spans') :
    (spans.foldl (·.check c ·) s).Relaid l (spans'.foldl (·.check c' ·) s') := by
  induction he generalizing s s' with
  | nil => exact h
  | cons he _ ih => exact ih (h.check c c' he)

theorem exits (h : s.Relaid l s') : s.exits = s'.exits := by rw [State.exits, State.exits, h.loop]

theorem enterLoop (h : s.Relaid l s') : s.enterLoop.Relaid l s'.enterLoop := { h with loop := rfl }

theorem leaveLoop {t t' : State} (h : s.Relaid l s') (ht : t.Relaid l t') :
    (s.leaveLoop t).Relaid l (s'.leaveLoop t') :=
  { h with loop := ht.loop }

theorem round (h : s.Relaid l s') : (if s.exits.continued then s.goOn true else s).Relaid l
    (if s'.exits.continued then s'.goOn true else s') := by
  rw [h.exits]
  split
  · exact h.goOn rfl
  · exact h

theorem jump (h : s.Relaid l s') (note : Bool → LoopExits → LoopExits) :
    (s.jump note).Relaid l (s'.jump note) := by
  unfold State.jump
  rw [h.loop, h.reachable]
  split
  · exact h
  · exact { h.goOn rfl with loop := rfl }

end State.Relaid

theorem spans_relaid {α : Type} {rel : α → α → Prop} {span : α → Span} {as as' : List α}
    (h : List.Forall₂ rel as as')
    (hspan : ∀ a a', rel a a' → (span a).isEmpty = (span a').isEmpty) :
    List.Forall₂ (fun a b : Span => a.isEmpty = b.isEmpty) (as.map span) (as'.map span) :=
  List.forall₂_map_left_iff.mpr (List.forall₂_map_right_iff.mpr (h.imp hspan))

theorem headerSpans_relaid {i? i?' : Option ForInitializer}
    (h : Option.Rel (ForInitializer.Relaid l) i? i?') :
    List.Forall₂ (fun a b => a.isEmpty = b.isEmpty) (headerSpans i?) (headerSpans i?') := by
  cases h with
  | none => exact .nil
  | some h =>
    cases h with
    | declaration h =>
      exact spans_relaid h.declarators fun _ _ hv => hv.identifier.range
    | expressions h => exact spans_relaid h fun _ _ he => he.range

theorem loopTruth?_relaid {e? e?' : Option Expr} (h : Option.Rel (Expr.Relaid l) e? e?') :
    loopTruth? e? = loopTruth? e?' := by
  cases h with
  | none => rfl
  | some he => exact Expr.truth?_relaid _ he

mutual

theorem relaid_statement {c c' : Context} (hc : c.Relaid l c') :
    (b : Stmt) → {b' : Stmt} → b.Relaid l b' → {s s' : State} → s.Relaid l s' →
      (statement c b s).Relaid l (statement c' b' s')
  | .block ⟨_, _, ss, _⟩, _, hb, _, _, h => by
    cases hb with
    | block hb =>
      cases hb with
      | mk _ _ _ _ _ _ hss => exact relaid_statements hc ss hss h
  | .empty _, _, hb, _, _, h => by
    cases hb
    exact h
  | .localDeclaration .., _, hb, _, _, h => by
    cases hb with
    | localDeclaration _ _ _ hr _ => exact h.check _ _ hr
  | .expression .., _, hb, _, _, h => by
    cases hb with
    | expression _ _ hr _ => exact h.check _ _ hr
  | .ifElse r e body else?, _, hb, s, s', h => by
    cases hb with
    | @ifElse _ r' _ e' _ body' _ else?' hr he hbody helse =>
      have hs := h.check c c' hr
      have ht := e.truth?_relaid he
      have hthen := relaid_statement hc body hbody
        (hs.goOn (congrArg₂ (· && ·) hs.reachable (congrArg mayHold ht)))
      have helseStart := hthen.goOn (congrArg₂ (· && ·) hs.reachable (congrArg mayFail ht))
      unfold statement
      cases helse with
      | none => exact helseStart.goOn (congrArg₂ (· || ·) hthen.reachable helseStart.reachable)
      | some hbody =>
        have helseEnd := relaid_statement hc _ hbody helseStart
        exact helseEnd.goOn (congrArg₂ (· || ·) hthen.reachable helseEnd.reachable)
  | .whileLoop r e body, _, hb, s, s', h => by
    cases hb with
    | whileLoop hr he hbody =>
      have hs := h.check c c' hr
      have ht := e.truth?_relaid he
      have hend := relaid_statement hc body hbody
        (hs.enterLoop.goOn (congrArg₂ (· && ·) hs.reachable (congrArg mayHold ht)))
      refine (hend.leaveLoop hs).goOn ?_
      rw [hend.exits, hs.reachable, ht]
  | .doLoop r body e, _, hb, s, s', h => by
    cases hb with
    | doLoop hr hbody he =>
      have hs := h.check c c' hr
      have hend := relaid_statement hc body hbody hs.enterLoop
      refine (hend.leaveLoop hs).goOn ?_
      rw [hend.exits, hend.reachable, e.truth?_relaid he]
  | .forLoop _ header body, _, hb, s, s', h => by
    cases hb with
    | forLoop _ _ hh hbody =>
      have hs := h.checks c c' (headerSpans_relaid hh.initializer)
      have ht := loopTruth?_relaid hh.condition
      have hend := relaid_statement hc body hbody
        (hs.enterLoop.goOn (congrArg₂ (· && ·) hs.reachable (congrArg mayHold ht)))
      have hchecked := hend.round.checks c c'
        (spans_relaid hh.incrementors fun _ _ he => he.range)
      refine (hchecked.leaveLoop hs).goOn ?_
      rw [hend.exits, hs.reachable, ht]
  | .returnValue .., _, hb, _, _, h => by
    cases hb with
    | returnValue hr _ => exact (h.check _ _ hr).goOn rfl
  | .goto .., _, hb, _, _, h => by
    cases hb with
    | goto hr _ => exact (h.check _ _ hr).goOn rfl
  | .breakLoop _, _, hb, _, _, h => by
    cases hb with
    | breakLoop hr => exact (h.check _ _ hr).jump _
  | .continueLoop _, _, hb, _, _, h => by
    cases hb with
    | continueLoop hr => exact (h.check _ _ hr).jump _
  | .labeled _ i body, _, hb, _, _, h => by
    cases hb with
    | labeled hr hi hbody =>
      refine relaid_statement hc body hbody ?_
      rw [← hi.isMissing]
      cases hm : i.isMissing with
      | true => exact h.check _ _ hr
      | false =>
        rw [hc.isReferenced (hi.start hm)]
        split
        · exact h.goOn rfl
        · exact (h.check _ _ hr).report _ _ _
termination_by structural x => x

theorem relaid_statements {c c' : Context} (hc : c.Relaid l c') :
    (bs : List Stmt) → {bs' : List Stmt} → List.Forall₂ (Stmt.Relaid l) bs bs' →
      {s s' : State} → s.Relaid l s' → (statements c bs s).Relaid l (statements c' bs' s')
  | [], _, .nil, _, _, h => h
  | b :: bs, _, .cons hb hbs, _, _, h =>
    relaid_statements hc bs hbs (relaid_statement hc b hb h)
termination_by structural x => x

end

/-- What the walks over a unit and over its counterpart report agrees. -/
theorem unit_inStep {c c' : Context} (hc : c.Relaid l c') {u u' : CompilationUnit}
    (hu : u.Relaid l u') : l.Reports (unit c u l.before) (unit c' u' l.before') := by
  have hbodies := hu.bodies
  have hstart : l.Reports l.before l.before' := .refl _ _
  unfold unit
  generalize u.bodies = bs, u'.bodies = bs' at hbodies ⊢
  generalize l.before = ds, l.before' = ds' at hstart ⊢
  induction hbodies generalizing ds ds' with
  | nil => exact hstart
  | cons hbody _ ih =>
    have hafter : State.Relaid l { diagnostics := ds } { diagnostics := ds' } :=
      ⟨rfl, rfl, rfl, hstart⟩
    exact ih _ _ (relaid_statements hc _ hbody hafter).diagnostics

end Flow

end CSharpFront
