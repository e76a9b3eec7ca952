import CSharpFront.Compilation
import CSharpFront.Flow.Reachability
import CSharpFront.Proofs.Binding.Places
import CSharpFront.Proofs.Lexer.Scan
import CSharpFront.Proofs.Parser.PlacesDeclarations
import CSharpFront.Proofs.Syntax.Ranges
import CSharpFront.Proofs.Text.Boundary
/-!
Where whole compilations report. The scanner finds the boundaries of the text, and no later stage
leaves them.
-/

/-! ## The walk over the bodies

The walk reports at tokens of the text, at labels, and where no token comes at the stretch that it
passes.
-/

namespace CSharpFront.Flow

variable {sort : Nat → Prop} {c : Context} {s : State}

/-- All that has been reported begins and ends at offsets of one sort. -/
def Placed (sort : Nat → Prop) (s : State) : Prop := ∀ d ∈ s.diagnostics, d.span.On sort

theorem Placed.goOn (h : Placed sort s) (reachable : Bool) : Placed sort (s.goOn reachable) := h

theorem Placed.enterLoop (h : Placed sort s) : Placed sort s.enterLoop := h

theorem Placed.report (h : Placed sort s) (message : Message) {span : Span} (hs : span.On sort) :
    Placed sort (s.report message span) := by
  intro d hd
  rcases Array.mem_push.mp hd with hd | rfl
  · exact h d hd
  · exact hs

theorem Placed.check (h : Placed sort s) (hc : ∀ t ∈ c.stream.toList, t.range.On sort)
    {span : Span} (hs : span.On sort) : Placed sort (s.check c span) := by
  unfold State.check
  split
  · exact h
  · refine h.report _ ?_
    cases ht : c.stream.tokenFrom? span.start with
    | none => exact hs
    | some t => exact (hc t (List.mem_of_find?_eq_some ht)).toSpan

theorem Placed.checks (h : Placed sort s) (hc : ∀ t ∈ c.stream.toList, t.range.On sort)
    {spans : List Span} (hs : ∀ span ∈ spans, span.On sort) :
    Placed sort (spans.foldl (·.check c ·) s) := by
  induction spans generalizing s with
  | nil => exact h
  | cons span spans ih =>
    obtain ⟨hspan, hspans⟩ := List.forall_mem_cons.mp hs
    exact ih (h.check hc hspan) hspans

theorem Placed.jump (h : Placed sort s) (note : Bool → LoopExits → LoopExits) :
    Placed sort (s.jump note) := by
  unfold State.jump
  split
  · exact h
  · exact h

theorem on_of_mem_headerSpans {i? : Option ForInitializer}
    (h : ∀ i ∈ i?, i.Ranges (Range.On sort)) : ∀ span ∈ headerSpans i?, span.On sort := by
  intro span hspan
  cases i? with
  | none => simp [headerSpans] at hspan
  | some i =>
    cases h i rfl with
    | declaration hd =>
      obtain ⟨v, hv, rfl⟩ := List.mem_map.mp hspan
      exact (hd.declarators v hv).identifier.toSpan
    | expressions hes =>
      obtain ⟨e, he, rfl⟩ := List.mem_map.mp hspan
      exact (hes e he).range.toSpan

mutual

theorem placed_statement (hc : ∀ t ∈ c.stream.toList, t.range.On sort) :
    (b : Stmt) → b.Ranges (Range.On sort) → ∀ s, Placed sort s → Placed sort (statement c b s)
  | .block ⟨_, _, ss, _⟩, .block (.mk _ _ hss _), s, h => placed_statements hc ss hss s h
  | .empty _, _, _, h => h
  | .localDeclaration .., .localDeclaration _ hr _ _, _, h => h.check hc hr.toSpan
  | .expression .., .expression hr _ _, _, h => h.check hc hr.toSpan
  | .ifElse r e body else?, .ifElse hr _ hb helse, s, h => by
    have hs := h.check hc hr.toSpan
    have hthen (b : Bool) := placed_statement hc body hb _ (hs.goOn b)
    unfold statement
    cases else? with
    | none => exact hthen _
    | some b => exact placed_statement hc b (helse b rfl) _ ((hthen _).goOn _)
  | .whileLoop r e body, .whileLoop hr _ hb, s, h =>
    placed_statement hc body hb _ (h.check hc hr.toSpan)
  | .doLoop r body e, .doLoop hr hb _, s, h =>
    placed_statement hc body hb _ (h.check hc hr.toSpan)
  | .forLoop _ header body, .forLoop _ hh hb, s, h => by
    have hs := (h.checks hc (on_of_mem_headerSpans hh.initializer)).enterLoop
    have hbody (b : Bool) := placed_statement hc body hb _ (hs.goOn b)
    have hround {t : State} (ht : Placed sort t) :
        Placed sort (if t.exits.continued then t.goOn true else t) := by
      split
      · exact ht.goOn true
      · exact ht
    refine (hround (hbody _)).checks hc fun span hspan => ?_
    obtain ⟨e, he, rfl⟩ := List.mem_map.mp hspan
    exact (hh.incrementors e he).range.toSpan
  | .returnValue .., .returnValue hr _, _, h => h.check hc hr.toSpan
  | .goto .., .goto hr _, _, h => h.check hc hr.toSpan
  | .breakLoop _, .breakLoop hr, _, h => (h.check hc hr.toSpan).jump _
  | .continueLoop _, .continueLoop hr, _, h => (h.check hc hr.toSpan).jump _
  | .labeled r l body, .labeled hr hl hb, s, h => by
    refine placed_statement hc body hb _ ?_
    split
    · exact h
    · dsimp only
      split
      · exact h.check hc hr.toSpan
      · exact (h.check hc hr.toSpan).report _ hl.toSpan

theorem placed_statements (hc : ∀ t ∈ c.stream.toList, t.range.On sort) :
    (bs : List Stmt) → (∀ b ∈ bs, b.Ranges (Range.On sort)) →
      ∀ s, Placed sort s → Placed sort (statements c bs s)
  | [], _, _, h => h
  | b :: bs, hbs, s, h => by
    obtain ⟨hb, hbs⟩ := List.forall_mem_cons.mp hbs
    exact placed_statements hc bs hbs _ (placed_statement hc b hb s h)

end

theorem on_of_mem_unit (hc : ∀ t ∈ c.stream.toList, t.range.On sort) {u : CompilationUnit}
    (h : u.Ranges (Range.On sort)) {diagnostics : Array Diagnostic}
    (hd : ∀ d ∈ diagnostics, d.span.On sort) :
    ∀ d ∈ unit c u diagnostics, d.span.On sort := by
  have hbodies := h.bodies
  unfold unit
  generalize u.bodies = bodies at hbodies ⊢
  induction bodies generalizing diagnostics with
  | nil => exact hd
  | cons body bodies ih =>
    obtain ⟨hb, hbs⟩ := List.forall_mem_cons.mp hbodies
    exact ih (placed_statements hc body hb { diagnostics } hd) hbs

end CSharpFront.Flow

/-! ## Whole compilations -/

namespace CSharpFront

theorem range_on_of_mem_scan (text : String) :
    ∀ t ∈ (scan text).1.toList, t.range.On (Text.IsBoundary text) := by
  intro t ht
  obtain ⟨hs, hr⟩ := standsAt_of_mem_scan text t ht
  rw [hr]
  exact hs.range_on

/-- A text that is not cancelled is compiled to its end. -/
theorem exists_ok_compileText (text : String) (maxDepth : Nat) :
    ∃ bag, compileText text maxDepth none = .ok bag ∧
      ∀ d ∈ bag, d.span.On (Text.IsBoundary text) := by
  have htokens := range_on_of_mem_scan text
  have hscanned := span_on_of_mem_scan text
  have hzero : Text.IsBoundary text 0 := Text.isBoundary_iff_offset.mpr (Text.offset_zero _)
  obtain ⟨u, s, hparse, hu, hpolls, hs⟩ :=
    Parser.exists_ok_parseUnit maxDepth hzero htokens hscanned
  obtain ⟨hok, hbound⟩ := Binding.bindUnit_places hu hs
  rcases hbind : bindUnit u s.diagnostics none with ⟨result, polls, b⟩
  rw [hbind] at hok hbound
  obtain rfl : result = .ok () := hok
  have hcompile : compileText text maxDepth none = .ok (Flow.unit
      ⟨(scan text).1, b.isReferenced⟩ u b.state.diagnostics).toList := by
    simp only [compileText, hparse, hpolls, hbind]
  refine ⟨_, hcompile, fun d hd => ?_⟩
  exact Flow.on_of_mem_unit htokens hu hbound d (Array.mem_toList_iff.mp hd)

/-- Whatever is reported about a text lies in it and cuts no character, so that the text under it
can be shown. -/
theorem compileUnit_spans (o : CompilerOptions) (file text : String) :
    ∃ bag, (compileUnit o none file text).outcome = .ok bag ∧
      ∀ d ∈ bag, d.span.stop ≤ text.utf8ByteSize ∧ Text.IsBoundary text d.span.start ∧
        Text.IsBoundary text d.span.stop ∧ (Text.slice? text d.span).isSome := by
  obtain ⟨bag, hok, hbag⟩ := exists_ok_compileText text o.depth
  refine ⟨bag, hok, fun d hd => ?_⟩
  have hd := hbag d hd
  refine ⟨?_, hd.start, hd.stop, Text.isSome_slice? hd⟩
  rw [← Text.byteCount_toList]
  exact (Text.isBoundary_iff_offset.mp hd.stop).le

end CSharpFront
