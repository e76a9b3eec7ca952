import CSharpFront.Compilation
import CSharpFront.Flow.Reachability
import CSharpFront.Proofs.Binding.WordedNames
import CSharpFront.Proofs.Parser.RespellsDeclarations
/-!
What diagnostics cite. The words of a text that come into its diagnostics are names, and tokens that
are no literals, as far as the parser looks for an expression. Only where it looks for a member, any
token is cited as it is written.
-/

/-! ## The walk over the bodies

What the walk reports has no arguments. So whatever holds of such diagnostics, and of all that was
reported before, holds of all that has been reported after the walk.
-/

namespace CSharpFront.Flow

variable {fine : Diagnostic → Prop} {c : Context} {s : State}

/-- All that has been reported is fine. -/
def Fine (fine : Diagnostic → Prop) (s : State) : Prop := ∀ d ∈ s.diagnostics, fine d

theorem Fine.goOn (h : Fine fine s) (reachable : Bool) : Fine fine (s.goOn reachable) := h

theorem Fine.enterLoop (h : Fine fine s) : Fine fine s.enterLoop := h

theorem Fine.report (h : Fine fine s) (hf : ∀ message span, fine (.of message span))
    (message : Message) (span : Span) : Fine fine (s.report message span) := by
  intro d hd
  rcases Array.mem_push.mp hd with hd | rfl
  · exact h d hd
  · exact hf message span

theorem Fine.check (h : Fine fine s) (hf : ∀ message span, fine (.of message span)) (span : Span) :
    Fine fine (s.check c span) := by
  unfold State.check
  split
  · exact h
  · exact h.report hf _ _

theorem Fine.checks (h : Fine fine s) (hf : ∀ message span, fine (.of message span))
    (spans : List Span) : Fine fine (spans.foldl (·.check c ·) s) := by
  induction spans generalizing s with
  | nil => exact h
  | cons span spans ih => exact ih (h.check hf span)

theorem Fine.jump (h : Fine fine s) (note : Bool → LoopExits → LoopExits) :
    Fine fine (s.jump note) := by
  unfold State.jump
  split
  · exact h
  · exact h

mutual

theorem fine_statement (hf : ∀ message span, fine (.of message span)) :
    (b : Stmt) → ∀ s, Fine fine s → Fine fine (statement c b s)
  | .block ⟨_, _, ss, _⟩, s, h => fine_statements hf ss s h
  | .empty _, _, h => h
  | .localDeclaration r _ _ _, _, h | .expression r _ _, _, h | .returnValue r _, _, h
  | .goto r _, _, h => h.check hf r.toSpan
  | .breakLoop r, _, h | .continueLoop r, _, h => (h.check hf r.toSpan).jump _
  | .ifElse r e body else?, s, h => by
    have hs := h.check (c := c) hf r.toSpan
    have hthen (b : Bool) := fine_statement hf body _ (hs.goOn b)
    unfold statement
    cases else? with
    | none => exact hthen _
    | some other => exact fine_statement hf other _ ((hthen _).goOn _)
  | .whileLoop r e body, _, h => fine_statement hf body _ (h.check hf r.toSpan)
  | .doLoop r body e, _, h => fine_statement hf body _ (h.check hf r.toSpan)
  | .forLoop r header body, s, h => by
    have hs := h.checks (c := c) hf (headerSpans header.initializer?)
    have hbody (b : Bool) := fine_statement hf body _ (hs.enterLoop.goOn b)
    have hround {t : State} (ht : Fine fine t) :
        Fine fine (if t.exits.continued then t.goOn true else t) := by
      split
      · exact ht.goOn true
      · exact ht
    exact (hround (hbody _)).checks hf _
  | .labeled r l body, s, h => by
    refine fine_statement hf body _ ?_
    split
    · exact h
    · dsimp only
      split
      · exact h.check hf r.toSpan
      · exact (h.check hf r.toSpan).report hf _ _

theorem fine_statements (hf : ∀ message span, fine (.of message span)) :
    (bs : List Stmt) → ∀ s, Fine fine s → Fine fine (statements c bs s)
  | [], _, h => h
  | b :: bs, s, h => fine_statements hf bs _ (fine_statement hf b s h)

end

theorem fine_of_mem_unit (hf : ∀ message span, fine (.of message span)) (c : Context)
    (u : CompilationUnit) {diagnostics : Array Diagnostic} (hd : ∀ d ∈ diagnostics, fine d) :
    ∀ d ∈ unit c u diagnostics, fine d := by
  unfold unit
  generalize u.bodies = bodies
  induction bodies generalizing diagnostics with
  | nil => exact hd
  | cons body bodies ih => exact ih (fine_statements hf body { diagnostics } hd)

end CSharpFront.Flow

/-! ## Whole texts -/

namespace CSharpFront

variable {ok : String → Prop}

/-- A diagnostic that cites a token where a member of a type should stand. -/
structure Diagnostic.CitesMember (tokens : List Token) (d : Diagnostic) : Prop where
  message : d.message = .invalidMemberToken
  arguments : ∃ t ∈ tokens, d.arguments = [t.text]

/-- A diagnostic in good words, but for a token that stands in the place of a member. -/
def Diagnostic.Cites (ok : String → Prop) (tokens : List Token) (d : Diagnostic) : Prop :=
  d.Worded ok ∨ d.CitesMember tokens

namespace Parser

/-- Identifiers with good texts, each by itself, and diagnostics that cite tokens of a text. -/
def citing (w : Wording ok) (tokens : List Token) : Spelling where
  names i i' := i = i' ∧ ok i.text
  reports := Diagnostic.Cites ok tokens
  missing _ := ⟨rfl, w.plain (s := "") (by decide)⟩
  sameMissing := by
    rintro i _ ⟨rfl, -⟩
    rfl
  sameRange := by
    rintro i _ ⟨rfl, -⟩
    rfl
  plain h := .inl fun a ha => w.plain (List.all_eq_true.mp h a ha)

theorem respelled_self (w : Wording ok) {tokens : List Token} {t : Token}
    (hcited : t ∈ tokens ∨ ok t.text) (h : literalKind? t.kind = none → ok t.text) :
    t.Respelled (citing w tokens) t where
  looksLike := ⟨rfl, rfl, fun _ => Iff.rfl⟩
  range := rfl
  flags := rfl
  text _ := rfl
  name hk := ⟨rfl, h (by rw [hk]; rfl)⟩
  member _ := hcited.elim (fun ht => .inr ⟨rfl, t, ht, rfl⟩)
    fun hok => .inl (List.forall_mem_singleton.mpr hok)
  term _ hk := .inl (List.forall_mem_singleton.mpr (h hk))

/-- Where tokens that are no literals are good words, so are all names of the tree, and the reports
cite good words or tokens in the place of members. -/
theorem parseUnit_cites (w : Wording ok) {stream : TokenStream}
    (htokens : ∀ t ∈ stream.tokens, literalKind? t.kind = none → ok t.text)
    (hend : ok stream.endOfFile.text) (maxDepth : Nat) {before : Array Diagnostic}
    (hbefore : ∀ d ∈ before, d.Worded ok) (polls : Polls) :
    let run := parseUnit stream maxDepth before polls
    (∀ u, run.1 = .ok u → u.Respelled (citing w stream.tokens).names u) ∧
      ∀ d ∈ run.2.diagnostics, d.Cites ok stream.tokens := by
  have hself : List.Forall₂ (Token.Respelled (citing w stream.tokens)) stream.tokens
      stream.tokens :=
    List.forall₂_same.mpr fun t ht => respelled_self w (.inl ht) (htokens t ht)
  obtain ⟨htree, hstate⟩ := parseUnit_respells maxDepth before polls hself
    (respelled_self w (.inr hend) fun _ => hend) rfl fun d hd => .inl (hbefore d hd)
  refine ⟨fun u hu => ?_, hstate.reports⟩
  rw [hu] at htree
  cases htree with
  | ok h => exact h

end Parser

namespace Binding

/-- The binder puts only good words into its reports if the names of the tree are good words. -/
theorem bindUnit_cites (w : Wording ok) {u : CompilationUnit} {tokens : List Token}
    (hu : u.Respelled (Parser.citing w tokens).names u) {before : Array Diagnostic}
    (hbefore : ∀ d ∈ before, d.Cites ok tokens) {polls polls' : Polls} {b : BoundUnit}
    (h : bindUnit u before polls = (.ok (), polls', b)) :
    ∀ d ∈ b.state.diagnostics, d.Cites ok tokens := by
  have htypes := Declarations.worded_ofMembers w (fun _ _ hi => hi.2) hu.members
  have hnames : ∀ i ∈ Member.allNames u.members, i.Worded ok :=
    Member.good_allNames (fun _ _ hi _ => hi.2) _ hu.members
  rcases told_bindUnit w htypes hnames before polls with
    ⟨_, b', hbind, ⟨ds, hds, -, hworded⟩, -⟩ | ⟨-, e, he⟩
  · rw [h] at hbind
    cases hbind
    intro d hd
    rw [← Array.mem_toList_iff, hds] at hd
    rcases List.mem_append.mp hd with hd | hd
    · exact hbefore d (Array.mem_toList_iff.mp hd)
    · exact .inl (hworded d hd)
  · rw [h] at he
    cases he

end Binding

/-- Where tokens that are no literals are good words, the diagnostics of a text cite good words or
tokens in the place of members. -/
theorem compileText_cites (w : Wording ok) {text : String}
    (htokens : ∀ t ∈ (scan text).1.tokens, Parser.literalKind? t.kind = none → ok t.text)
    (hend : ok (scan text).1.endOfFile.text) (hscan : ∀ d ∈ (scan text).2, d.Worded ok)
    {maxDepth : Nat} {polls : Polls} {bag : Bag} (h : compileText text maxDepth polls = .ok bag) :
    ∀ d ∈ bag, d.Cites ok (scan text).1.tokens := by
  obtain ⟨htree, hparsed⟩ := Parser.parseUnit_cites w htokens hend maxDepth hscan polls
  unfold compileText at h
  dsimp only at h
  split at h
  · cases h
  next u parsed hparse =>
    rw [hparse] at htree hparsed
    split at h
    · cases h
    next polls' bound hbind =>
      obtain rfl := Except.ok.inj h
      have hbound := Binding.bindUnit_cites w (htree u rfl) hparsed hbind
      have hwalk (message : Message) (span : Span) :
          (Diagnostic.of message span).Cites ok (scan text).1.tokens :=
        .inl (List.forall_mem_nil _)
      intro d hd
      exact Flow.fine_of_mem_unit hwalk _ u hbound d (Array.mem_toList_iff.mp hd)

end CSharpFront
