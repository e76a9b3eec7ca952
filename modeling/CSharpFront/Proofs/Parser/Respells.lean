import CSharpFront.Proofs.Parser.Parallel
import CSharpFront.Proofs.Syntax.Respelled
import CSharpFront.Proofs.Text.Characters
/-!
Parsers on tokens that are spelled in two ways. The tokens stand in the same places and look alike;
only identifiers may have other texts. Then the parser goes through the same moments, it reports the
same things, and it builds the same tree but for the identifiers that are made of such tokens.

What is known of the identifiers and of the reports is left open. So this also says what the names
of one tree and the reports of one run are like.
-/

namespace CSharpFront

/-- How identifiers that are spelled in two ways correspond, and what may be reported. -/
structure Spelling where
  names : Identifier → Identifier → Prop
  reports : Diagnostic → Prop
  missing (pos : Nat) : names (.missing pos) (.missing pos)
  sameMissing : SameMissing names
  sameRange : SameRange names
  plain {message : Message} {span : Span} {arguments : List String} :
    arguments.all Text.isPlain = true → reports (.of message span arguments)

theorem Spelling.reports_of (σ : Spelling) (message : Message) (span : Span) :
    σ.reports (.of message span) := σ.plain rfl

/-- The identifier that a token stands for. -/
def Token.name (t : Token) : Identifier := ⟨t.text, t.range, t.flags.verbatim, false⟩

/-- A token in two spellings. Other tokens than identifiers may be cited in two reports. -/
structure Token.Respelled (σ : Spelling) (t u : Token) : Prop where
  looksLike : t.LooksLike u
  range : t.range = u.range
  flags : t.flags = u.flags
  text : t.kind ≠ .identifier → t.text = u.text
  name : t.kind = .identifier → σ.names t.name u.name
  member (span : Span) : σ.reports (.of .invalidMemberToken span [t.text])
  term (span : Span) : Parser.literalKind? t.kind = none →
    σ.reports (.of .invalidExpressionTerm span [t.text])

namespace Token.Respelled

variable {σ : Spelling} {t u : Token}

theorem kind (h : t.Respelled σ u) : t.kind = u.kind := h.looksLike.kind

theorem start (h : t.Respelled σ u) : t.start = u.start := by rw [Token.start, h.range, Token.start]

theorem span (h : t.Respelled σ u) : t.span = u.span := by rw [Token.span, h.range, Token.span]

theorem stop (h : t.Respelled σ u) : t.stop = u.stop := by rw [Token.stop, h.range, Token.stop]

end Token.Respelled

namespace Operator

variable {σ : Spelling} {e e' : Token} {ts us : List Token}

theorem next_respelled (he : e.Respelled σ e') (h : List.Forall₂ (Token.Respelled σ) ts us) :
    next e ts = next e' us := by
  cases h with
  | nil => simp only [next, he.kind, he.range]
  | cons htu hrest =>
    cases hrest with
    | nil => simp only [next, htu.kind, htu.range]
    | cons hsecond _ =>
      simp only [next, joined?, htu.kind, htu.range, htu.start, htu.stop, hsecond.kind,
        hsecond.start, hsecond.stop]

end Operator

namespace Parser

variable {σ : Spelling}

structure Env.Respelled (σ : Spelling) (env env' : Env) : Prop where
  endOfFile : env.endOfFile.Respelled σ env'.endOfFile
  text : env.endOfFile.text = env'.endOfFile.text
  budget : env.budget = env'.budget
  maxDepth : env.maxDepth = env'.maxDepth
  inAsync : env.inAsync = env'.inAsync

structure State.Respelled (σ : Spelling) (s s' : State) : Prop where
  rest : List.Forall₂ (Token.Respelled σ) s.rest s'.rest
  prevStop : s.prevStop = s'.prevStop
  depth : s.depth = s'.depth
  tooDeep : s.tooDeep = s'.tooDeep
  diagnostics : s.diagnostics = s'.diagnostics
  reports : ∀ d ∈ s.diagnostics, σ.reports d
  polls : s.polls = s'.polls

/-- Two parsers side by side on tokens in two spellings. -/
abbrev Respells (σ : Spelling) {α β : Type} (rel : α → β → Prop) (p : P α) (q : P β) : Prop :=
  Parallel (Env.Respelled σ) (State.Respelled σ) rel p q

/-! ### Elementary steps -/

theorem State.Respelled.alike {s s' : State} (hs : s.Respelled σ s') :
    Lookahead.Alike s.rest s'.rest :=
  hs.rest.imp fun _ _ htu => htu.looksLike

/-- The first token, in both spellings. -/
theorem Env.Respelled.first {env env' : Env} {s s' : State} (he : env.Respelled σ env')
    (hs : s.Respelled σ s') :
    (s.rest.headD env.endOfFile).Respelled σ (s'.rest.headD env'.endOfFile) := by
  have hrest := hs.rest
  generalize s.rest = ts, s'.rest = us at hrest
  cases hrest with
  | nil => exact he.endOfFile
  | cons htu _ => exact htu

theorem State.Respelled.push {s s' : State} {d : Diagnostic} (hs : s.Respelled σ s')
    (hd : σ.reports d) : s.diagnostics.push d = s'.diagnostics.push d ∧
      ∀ e ∈ s.diagnostics.push d, σ.reports e := by
  refine ⟨by rw [hs.diagnostics], fun e he => ?_⟩
  rcases Array.mem_push.mp he with he | rfl
  · exact hs.reports e he
  · exact hd

theorem respells_current : Respells σ (Token.Respelled σ) current current :=
  fun _ _ _ _ he hs => ⟨he.first hs, hs⟩

/-- What begins with a look at the first token may go on as that token tells. -/
theorem respells_first {α β : Type} {rel : α → β → Prop} {f : Token → P α} {g : Token → P β}
    (h : ∀ env env' s s', env.Respelled σ env' → State.Respelled σ s s' → ∀ t u,
      t = s.rest.headD env.endOfFile → t.Respelled σ u →
        rel (f t env s).1 (g u env' s').1 ∧ State.Respelled σ (f t env s).2 (g u env' s').2) :
    Respells σ rel (current >>= f) (current >>= g) :=
  fun env env' s s' he hs => h env env' s s' he hs _ _ rfl (he.first hs)

theorem respells_report {message : Message} {span : Span} {arguments : List String}
    (h : σ.reports (.of message span arguments)) :
    Respells σ anyway (report message span arguments) (report message span arguments) := by
  refine .of_modify fun s s' hs => ?_
  rw [hs.tooDeep]
  split
  · exact hs
  · obtain ⟨hdiagnostics, hreports⟩ := hs.push h
    exact ⟨hs.rest, hs.prevStop, hs.depth, hs.tooDeep, hdiagnostics, hreports, hs.polls⟩

theorem respells_refuse : Respells σ anyway refuse refuse := by
  apply Parallel.bind .get
  intro s s' hs
  rw [hs.tooDeep]
  refine .ite (.pure trivial) (.bind respells_current fun t u ht => .bind .read fun _ _ he => ?_)
  rw [ht.span, he.endOfFile.start]
  refine .of_modify fun s s' hs => ?_
  obtain ⟨hdiagnostics, hreports⟩ := hs.push (σ.reports_of .tooDeep u.span)
  exact ⟨.nil, rfl, hs.depth, rfl, hdiagnostics, hreports, hs.polls⟩

theorem State.Respelled.take {s s' : State} {t u : Token} {ts us : List Token}
    (hs : s.Respelled σ s') (ht : s.rest = t :: ts) (hu : s'.rest = u :: us) :
    State.Respelled σ (s.moveTo { s.toMoment with rest := ts, prevStop := t.stop })
      (s'.moveTo { s'.toMoment with rest := us, prevStop := u.stop }) := by
  have hrest := hs.rest
  rw [ht, hu] at hrest
  obtain ⟨htu, hrest⟩ := List.forall₂_cons.mp hrest
  exact ⟨hrest, htu.stop, hs.depth, hs.tooDeep, hs.diagnostics, hs.reports, hs.polls⟩

instance : Abreast (Env.Respelled σ) (State.Respelled σ) where
  endOfFile he := he.endOfFile.looksLike
  budget he := he.budget
  maxDepth he := he.maxDepth
  inAsync he := he.inAsync
  withAsync _ he := ⟨he.endOfFile, he.text, he.budget, he.maxDepth, rfl⟩
  rest hs := hs.alike
  depth hs := hs.depth
  tooDeep hs := hs.tooDeep
  polls hs := hs.polls
  take hs ht hu := hs.take ht hu
  setDepth _ hs := ⟨hs.rest, hs.prevStop, rfl, hs.tooDeep, hs.diagnostics, hs.reports, hs.polls⟩
  setRanOut _ _ hs :=
    ⟨hs.rest, hs.prevStop, hs.depth, hs.tooDeep, hs.diagnostics, hs.reports, hs.polls⟩
  setPolls _ hs := ⟨hs.rest, hs.prevStop, hs.depth, hs.tooDeep, hs.diagnostics, hs.reports, rfl⟩
  setNames _ _ hs :=
    ⟨hs.rest, hs.prevStop, hs.depth, hs.tooDeep, hs.diagnostics, hs.reports, hs.polls⟩
  refuse := respells_refuse

theorem respells_rangeFrom (start : Nat) :
    Respells σ Eq (rangeFrom start) (rangeFrom start) :=
  .bind .get fun _ _ hs => .pure (by rw [hs.prevStop])

theorem respells_expectedSpan : Respells σ Eq expectedSpan expectedSpan := by
  apply Parallel.bind respells_current
  intro t u ht
  rw [ht.kind, ht.flags, ht.span]
  exact .ite (.bind .get fun _ _ hs => .pure (by rw [hs.prevStop])) (.pure rfl)

theorem isPlain_expectedMessage (kind : TokenKind) :
    (expectedMessage kind).2.all Text.isPlain = true := by
  cases kind with
  | keyword k => cases k <;> decide
  | punct p => cases p <;> decide
  | unknown | endOfFile | identifier | numericLiteral | stringLiteral | characterLiteral =>
    decide

theorem respells_reportExpected (kind : TokenKind) (span : Span) :
    Respells σ anyway (reportExpected kind span) (reportExpected kind span) :=
  respells_report (σ.plain (isPlain_expectedMessage kind))

/-- What is reported without arguments, wherever something is missing. -/
theorem respells_reportMissing {α β : Type} {rel : α → β → Prop} {message : Message} {p : P α}
    {q : P β} (hp : Respells σ rel p q) :
    Respells σ rel (do report message (← expectedSpan); p)
      (do report message (← expectedSpan); q) :=
  .same respells_expectedSpan fun _ => .next (respells_report (σ.reports_of ..)) fun _ _ => hp

theorem respells_eat (kind : TokenKind) : Respells σ Eq (eat kind) (eat kind) := by
  apply Parallel.bind respells_current
  intro t u ht
  rw [ht.kind, ht.range]
  refine .ite (.next parallel_advance fun _ _ => .pure rfl) ?_
  refine .same respells_expectedSpan fun _ => .next (respells_reportExpected _ _) fun _ _ => ?_
  exact .bind .get fun _ _ hs => .pure (by rw [hs.prevStop])

theorem respells_take : Respells σ Eq take take := by
  apply Parallel.bind respells_current
  intro t u ht
  rw [ht.kind, ht.range]
  exact .next parallel_advance fun _ _ => .pure rfl

theorem respells_replace (kind : TokenKind) :
    Respells σ anyway (replace kind) (replace kind) := by
  apply Parallel.bind respells_current
  intro t u ht
  rw [ht.span]
  exact .next (respells_reportExpected _ _) fun _ _ => parallel_advance

theorem respells_eatContextual {word : String} (h : Text.isPlain word = true) :
    Respells σ anyway (eatContextual word) (eatContextual word) := by
  apply Parallel.bind respells_current
  intro t u ht
  rw [ht.looksLike.isContextual]
  refine .ite parallel_advance (.same respells_expectedSpan fun _ => respells_report (σ.plain ?_))
  simp only [List.all_cons, h, List.all_nil, Bool.and_self]

theorem respells_identifierOf {t u : Token} (h : t.Respelled σ u) (hk : t.kind = .identifier) :
    Respells σ σ.names (identifierOf t) (identifierOf u) :=
  .next parallel_noteName fun _ _ => .pure (h.name hk)

theorem respells_identifier : Respells σ σ.names identifier identifier := by
  apply Parallel.bind respells_current
  intro t u ht
  by_cases hk : t.kind = .identifier
  · rw [if_pos hk, if_pos (ht.kind ▸ hk)]
    exact .next parallel_advance fun _ _ => respells_identifierOf ht hk
  · rw [if_neg hk, if_neg (ht.kind ▸ hk)]
    refine .same respells_expectedSpan fun _ => .next (respells_reportExpected _ _) fun _ _ => ?_
    refine .next parallel_noteName fun _ _ => .bind .get fun s s' hs => .pure ?_
    rw [hs.prevStop]
    exact σ.missing _

theorem respells_missingExpression :
    Respells σ (Expr.Respelled σ.names) missingExpression missingExpression := by
  refine .bind .get fun s s' hs => .pure ?_
  rw [hs.prevStop]
  exact .missing _

theorem respells_missingType :
    Respells σ (TypeSyntax.Respelled σ.names) missingType missingType := by
  refine .bind .get fun s s' hs => .pure ?_
  rw [hs.prevStop]
  exact .missing _

theorem respells_emptyStatement :
    Respells σ (Stmt.Respelled σ.names) emptyStatement emptyStatement := by
  refine .bind .get fun s s' hs => .pure ?_
  rw [hs.prevStop]
  exact .empty _

/-! ### Rules -/

/-- Rules that build the same trees but for the names. -/
structure Rules.Respell (σ : Spelling) (r : Rules) : Prop where
  statement : Respells σ (Stmt.Respelled σ.names) r.statement r.statement
  expression : Respells σ (Expr.Respelled σ.names) r.expression r.expression
  unary : Respells σ (Expr.Respelled σ.names) r.unary r.unary
  type (withRanks : Bool) :
    Respells σ (TypeSyntax.Respelled σ.names) (r.type withRanks) (r.type withRanks)
  binaryTail (levels least start : Nat) {left left' : Expr} : left.Respelled σ.names left' →
    Respells σ (Expr.Respelled σ.names) (r.binaryTail levels least start left)
      (r.binaryTail levels least start left')
  postfixTail (levels start : Nat) {operand operand' : Expr} : operand.Respelled σ.names operand' →
    Respells σ (Expr.Respelled σ.names) (r.postfixTail levels start operand)
      (r.postfixTail levels start operand')
  elements : Respells σ (List.Forall₂ (Expr.Respelled σ.names)) r.elements r.elements
  continuationBody :
    Respells σ (Option.Rel (QueryBody.Respelled σ.names)) r.continuationBody r.continuationBody

/-- What comes of giving up at the end of a bound. -/
theorem respells_giveUp {α β : Type} {rel : α → β → Prop} {p : P α} {q : P β}
    (hp : Respells σ rel p q) :
    Respells σ rel (do runOut; refuse; p) (do runOut; refuse; q) :=
  .next parallel_runOut fun _ _ => .next respells_refuse fun _ _ => hp

theorem Rules.respell_none : Rules.none.Respell σ where
  statement := respells_giveUp respells_emptyStatement
  expression := respells_giveUp respells_missingExpression
  unary := respells_giveUp respells_missingExpression
  type _ := respells_giveUp respells_missingType
  binaryTail _ _ _ _ _ h := respells_giveUp (parallel_leaveWith _ h)
  postfixTail _ _ _ _ h := respells_giveUp (parallel_leaveWith _ h)
  elements := respells_giveUp (.pure .nil)
  continuationBody := respells_giveUp .absent

/-- The next operator is the same one. -/
theorem respells_nextOperator? (least : Nat) :
    Respells σ Eq (nextOperator? least) (nextOperator? least) := by
  apply Parallel.bind .read
  intro env env' he
  apply Parallel.bind .get
  intro s s' hs
  rw [Operator.next_respelled he.endOfFile hs.rest]
  dsimp only
  split
  · exact .ite (.pure rfl) (.pure rfl)
  · exact .pure rfl

variable {r : Rules}

/-! ### Types -/

theorem respells_rankSpecifiers (start : Nat) {type type' : TypeSyntax}
    (h : type.Respelled σ.names type') :
    Respells σ (TypeSyntax.Respelled σ.names) (rankSpecifiers start type)
      (rankSpecifiers start type') := by
  refine .loop h fun type type' h => ?_
  apply Parallel.bind .get
  intro s s' hs
  simp only [hs.alike.kind, hs.alike.secondKind]
  refine .ite (.next parallel_advance fun _ _ => .bind .get fun s s' hs => ?_) (.pure (.done h))
  rw [hs.alike.run]
  refine .next (parallel_advanceBy _) fun _ _ => .next (respells_eat _) fun _ _ => ?_
  exact .same (respells_rangeFrom _) fun _ => .pure (.yield (.array _ _ h))

theorem respells_simpleName (hr : r.Respell σ) :
    Respells σ (TypeSyntax.Respelled σ.names) (simpleName r) (simpleName r) := by
  apply Parallel.bind respells_current
  intro t u ht
  rw [ht.start]
  apply Parallel.bind respells_identifier
  intro i i' hi
  apply Parallel.bind .read
  intro env env' he
  apply Parallel.bind .get
  intro s s' hs
  rw [he.maxDepth, hs.alike.startsTypeArguments]
  refine .ite (.next parallel_advance fun _ _ => ?_) (.pure (.name hi))
  refine .bind (parallel_separated (hr.type true)) fun _ _ hts => ?_
  refine .next (respells_eat _) fun _ _ => ?_
  exact .same (respells_rangeFrom _) fun _ => .pure (.generic _ hi hts)

theorem respells_name (hr : r.Respell σ) :
    Respells σ (TypeSyntax.Respelled σ.names) (name r) (name r) := by
  apply Parallel.bind respells_current
  intro t u ht
  rw [ht.start]
  apply Parallel.bind (respells_simpleName hr)
  intro first first' hfirst
  refine .loop hfirst fun left left' hleft => ?_
  apply Parallel.bind .get
  intro s s' hs
  simp only [hs.alike.kind, hs.alike.secondKind]
  refine .ite (.next parallel_advance fun _ _ => ?_) (.pure (.done hleft))
  refine .bind (respells_simpleName hr) fun _ _ hright => ?_
  exact .same (respells_rangeFrom _) fun _ => .pure (.yield (.qualified _ hleft hright))

theorem respells_typeCore? (hr : r.Respell σ) :
    Respells σ (Option.Rel (TypeSyntax.Respelled σ.names)) (typeCore? r) (typeCore? r) := by
  apply Parallel.bind respells_current
  intro t u ht
  rw [ht.kind, ht.range]
  split
  · exact .next parallel_advance fun _ _ => .pure (.some (.predefined ..))
  · exact .ite (respells_name hr).present .absent

theorem respells_typeBody (withRanks : Bool) (hr : r.Respell σ) :
    Respells σ (TypeSyntax.Respelled σ.names) (typeBody withRanks r) (typeBody withRanks r) := by
  apply Parallel.bind respells_current
  intro t u ht
  rw [ht.start]
  apply Parallel.bind (respells_typeCore? hr)
  rintro _ _ (hcore | _)
  · have hrest {type type' : TypeSyntax} (h : type.Respelled σ.names type') :
        Respells σ (TypeSyntax.Respelled σ.names)
          (if withRanks then rankSpecifiers u.start type else return type)
          (if withRanks then rankSpecifiers u.start type' else return type') :=
      .ite (respells_rankSpecifiers _ h) (.pure h)
    refine .same (parallel_accept _) fun _ => .ite ?_ (hrest hcore)
    exact .same (respells_rangeFrom _) fun _ => hrest (.nullable _ hcore)
  · exact respells_reportMissing respells_missingType

end Parser

end CSharpFront
