import CSharpFront.Proofs.Parser.ChoicesAfterTests
import CSharpFront.Proofs.Parser.Coverage
import CSharpFront.Proofs.Parser.Onward
/-!
First tokens. Which tokens begin an expression or a statement stands in tables apart from the
grammar, and the lists of the parser rely on them to come any further. The tables agree with the
grammar: what begins with a token of a table takes that token, and reports nothing at it. A token
that no expression begins with or goes on with is left where it is, and reported once.
-/

namespace CSharpFront

-- A production is put together of more steps than instances are searched through by default.
set_option synthInstance.maxSize 1000

/-- A token that no expression begins with, and that none goes on with after a missing operand. -/
structure TokenKind.IsForeign (k : TokenKind) : Prop where
  starts : k.startsExpression = false
  void : k ≠ .keyword .kwVoid
  operator : Precedence.ofOperator? k = none
  assignment : k.isAssignment = false
  question : k ≠ .punct .question
  dot : k ≠ .punct .dot
  questionDot : k ≠ .punct .questionDot
  openBracket : k ≠ .punct .openBracket

/-- The other tokens that continue an operand also begin an expression. -/
theorem TokenKind.IsForeign.continuesOperand {k : TokenKind} (h : k.IsForeign) :
    Parser.continuesOperand k = false := by
  obtain ⟨hstarts, -, -, -, -, hdot, hquestionDot, hopenBracket⟩ := h
  cases k with
  | punct p =>
    revert hstarts hdot hquestionDot hopenBracket
    cases p <;> decide
  | _ => rfl

/-- An expression that begins with no operator, literal or type begins in one of four ways. -/
theorem TokenKind.eq_of_startsExpression {k : TokenKind} (h : k.startsExpression = true)
    (hsign : Parser.isPrefixOperator k = false) (hliteral : Parser.literalKind? k = none)
    (hspecial : k.special? = none) :
    k = .identifier ∨ k = .keyword .kwThis ∨ k = .punct .openParen ∨ k = .keyword .kwNew := by
  cases k with
  | identifier => exact .inl rfl
  | punct p => revert h hsign; cases p <;> decide
  | keyword k => revert h hliteral hspecial; cases k <;> decide
  | numericLiteral | stringLiteral | characterLiteral => cases hliteral
  | unknown | endOfFile => cases h

/-- What is reported at a token where an expression is asked for. -/
def Token.unexpected (t : Token) : Diagnostic :=
  if t.kind = .endOfFile then .of .expressionExpected t.span
  else .of .invalidExpressionTerm t.span [t.text]

namespace Parser

variable {α β : Type} {env : Env} {s t : State} {r : Rules} {n levels : Nat} {first : Token}
  {tokens : List Token} {p : P α} {f : α → P β}

/-! ### The first token of an expression -/

/-- A state before a first token that ends before all that follows, with some levels left. -/
structure Opening (first : Token) (levels : Nat) (env : Env) (s : State) : Prop where
  rest : ∃ rest, s.rest = first :: rest ∧ ∀ t ∈ rest, first.stop ≤ t.start ∧ first.stop ≤ t.stop
  endOfFile : first.stop ≤ env.endOfFile.start
  calm : s.tooDeep = false
  room : s.depth + levels ≤ env.maxDepth

/-- A parser that takes the first token before it reports anything, and then reports onward. -/
def Opens (first : Token) (levels : Nat) (p : P α) : Prop :=
  ∀ env s, Opening first levels env s → Past first.stop s.diagnostics env (p env s).2

namespace Opens

/-- What follows after the first token was taken. -/
theorem next (hp : Opens first levels p) (hf : ∀ a, Onward (f a)) : Opens first levels (p >>= f) :=
  fun env s hs => ((hf _).keeps _ _ env _ (hp env s hs)).2

theorem bind [hf : ∀ a, Onward (f a)] (hp : Opens first levels p) :
    Opens first levels (p >>= f) :=
  hp.next hf

theorem current {f : Token → P α} (hf : Opens first levels (f first)) :
    Opens first levels (Parser.current >>= f) := by
  intro env s hs
  obtain ⟨rest, hrest, -⟩ := hs.rest
  show Past first.stop s.diagnostics env (f (s.rest.headD env.endOfFile) env s).2
  rw [hrest]
  exact hf env s hs

theorem get {f : State → P α} (hf : ∀ s, Opens first levels (f s)) :
    Opens first levels (MonadState.get >>= f) :=
  fun env s hs => hf s env s hs

theorem read {f : Env → P α} (hf : ∀ env, Opens first levels (f env)) :
    Opens first levels (MonadReader.read >>= f) :=
  fun env s hs => hf env env s hs

theorem ite {c : Prop} [Decidable c] {q : P α} (hp : c → Opens first levels p)
    (hq : ¬ c → Opens first levels q) : Opens first levels (if c then p else q) := by
  split
  next h => exact hp h
  next h => exact hq h

theorem advance : Opens first levels advance := by
  intro env s hs
  obtain ⟨rest, hrest, hpast⟩ := hs.rest
  rw [advance_apply hrest]
  exact ⟨hs.endOfFile, hpast, Nat.le_refl _, .refl _ _⟩

theorem eat {k : TokenKind} (hk : first.kind = k) : Opens first levels (eat k) :=
  .current (.ite (fun _ => .bind .advance) fun h => absurd hk h)

theorem take : Opens first levels take := .current (.bind .advance)

/-- A level is entered without a report where one is left. -/
theorem nested {refused : P α} (hp : Opens first levels p) :
    Opens first (levels + 1) (nested refused p) := by
  intro env s hs
  have hroom := hs.room
  let t := s.moveTo { s.toMoment with depth := s.depth + 1 }
  have hentered : Opening first levels env t := by
    refine ⟨hs.rest, hs.endOfFile, hs.calm, ?_⟩
    show s.depth + 1 + levels ≤ env.maxDepth
    omega
  have hbody : Opens first levels (p >>= fun a => do leave 1; return a) := hp.bind
  rw [nested_of_lt hs.calm (by omega)]
  exact hbody env t hentered

end Opens

section

variable [r.Onward]

theorem opens_creation (hk : first.kind = .keyword .kwNew) : Opens first levels (creation r) := by
  refine .current (.next (.eat hk) fun _ => .next fun _ => .branch inferInstance ?_)
  refine .next fun _ => .next fun _ => ?_
  split <;> infer_instance

theorem opens_primary (hk : first.kind.startsExpression = true)
    (hsign : isPrefixOperator first.kind = false) : Opens first levels (primary r) := by
  refine .current ?_
  split
  · exact .bind .advance
  split
  · exact .bind .advance
  next hliteral _ hspecial =>
    split
    · exact .bind .advance
    · exact .bind .advance
    · exact .bind .advance
    next hnew => exact opens_creation hnew
    next hname hthis hparen hnew =>
      rcases TokenKind.eq_of_startsExpression hk hsign hliteral hspecial with h | h | h | h
      · exact absurd h hname
      · exact absurd h hthis
      · exact absurd h hparen
      · exact absurd h hnew

theorem opens_unaryBody (hk : first.kind.startsExpression = true) :
    Opens first levels (unaryBody r) := by
  refine .current (.ite (fun _ => .bind .take) fun hsign => ?_)
  refine .read fun env => .ite (fun _ => .bind .advance) fun _ => ?_
  refine .read fun env => .get fun s => .ite (fun h => ?_) fun _ => ?_
  · exact .current (.bind (.eat h.1))
  · exact .bind (opens_primary hk (Bool.eq_false_iff.mpr hsign))

theorem opens_fromClause : Opens first levels (fromClause r) := by
  unfold fromClause
  dsimp only
  exact .current (.bind .advance)

/-- An expression is read with a level for its first operand. -/
theorem opens_expressionBody (hunary : Opens first levels r.unary) :
    Opens first levels (expressionBody r) := by
  have hbinary (least : Nat) : Opens first levels (binary r least) := .current (.bind hunary)
  have hconditional : Opens first levels (conditional r) := .current (.bind (hbinary _))
  refine .get fun s => .ite (fun _ => ?_) fun _ => .current (.bind hconditional)
  exact .current (.bind opens_fromClause)

end

theorem opens_expression (hk : first.kind.startsExpression = true) (n : Nat) :
    Opens first 2 (rules (n + 2)).expression :=
  .nested (opens_expressionBody (.nested (opens_unaryBody hk)))

/-! ### A token that no expression begins with or goes on with -/

/-- A run that makes up an expression for want of one: it reports the next token and stays where it
is otherwise. -/
structure Rejects (env : Env) (s : State) (run : Expr × State) : Prop where
  result : run.1 = .missing s.prevStop
  moment : run.2.toMoment =
    { s.toMoment with
      diagnostics := s.diagnostics.push (s.rest.headD env.endOfFile).unexpected }

/-- What follows finds nothing to go on with. -/
theorem Rejects.bind {p : P Expr} {f : Expr → P Expr} (hp : Rejects env s (p env s))
    (hf : ∀ e t, t.rest = s.rest → ∃ u, f e env t = (e, u) ∧ u.toMoment = t.toMoment) :
    Rejects env s ((p >>= f) env s) := by
  obtain ⟨hresult, hmoment⟩ := hp
  have hrest : (p env s).2.rest = s.rest := by rw [hmoment]
  obtain ⟨u, hrun, hu⟩ := hf _ _ hrest
  rw [bind_apply, hrun]
  exact ⟨hresult, hu.trans hmoment⟩

theorem Rejects.current {f : Token → P Expr}
    (h : Rejects env s (f (s.rest.headD env.endOfFile) env s)) :
    Rejects env s ((Parser.current >>= f) env s) := h

theorem Rejects.nested {refused p : P Expr} (hcalm : s.tooDeep = false)
    (hd : s.depth < env.maxDepth)
    (hp : Rejects env (s.moveTo { s.toMoment with depth := s.depth + 1 })
      (p env (s.moveTo { s.toMoment with depth := s.depth + 1 }))) :
    Rejects env s (Parser.nested refused p env s) := by
  obtain ⟨hresult, hmoment⟩ := hp
  rw [nested_of_lt hcalm hd]
  let t := (p env (s.moveTo { s.toMoment with depth := s.depth + 1 })).2
  refine ⟨hresult, ?_⟩
  show { t.toMoment with depth := t.toMoment.depth - 1 } = _
  rw [hmoment]
  rfl

theorem rejects_invalidTerm (hcalm : s.tooDeep = false) :
    Rejects env s (invalidTerm env s) := by
  have hreport (message : Message) (span : Span) (arguments : List String) :
      report message span arguments env s = ((), s.moveTo
        { s.toMoment with diagnostics := s.diagnostics.push (.of message span arguments) }) := by
    show ((), if s.tooDeep = true then s else _) = _
    rw [if_neg (Bool.eq_false_iff.mp hcalm)]
  let t := s.rest.headD env.endOfFile
  have hrun : invalidTerm env s = (.missing s.prevStop,
      s.moveTo { s.toMoment with diagnostics := s.diagnostics.push t.unexpected }) := by
    show (if t.kind = .endOfFile then _ else _ : P Expr) env s = _
    rw [Token.unexpected]
    split <;>
    · rw [bind_apply, hreport]
      rfl
  rw [hrun]
  exact ⟨rfl, rfl⟩

theorem rejects_primary (hcalm : s.tooDeep = false)
    (hk : (s.rest.headD env.endOfFile).kind.startsExpression = false)
    (hvoid : (s.rest.headD env.endOfFile).kind ≠ .keyword .kwVoid) :
    Rejects env s (primary r env s) := by
  rw [primary_of_not_startsExpression hk hvoid]
  exact rejects_invalidTerm hcalm

section

variable (h : (t.rest.headD env.endOfFile).kind.IsForeign)

include h

theorem kind_next_of_isForeign :
    (Operator.next env.endOfFile t.rest).kind = (t.rest.headD env.endOfFile).kind := by
  cases hrest : t.rest with
  | nil => rfl
  | cons u us =>
    rw [hrest, List.headD_cons] at h
    have hgreater : u.kind ≠ .punct .greaterThan := fun hu => by
      have hoperator := h.operator
      rw [hu] at hoperator
      cases hoperator
    rw [next_of_ne hgreater, List.headD_cons]

theorem postfixTail_of_isForeign (start : Nat) (e : Expr) :
    (rules (n + 1)).postfixTail 0 start e env t = (e, (leave 0 env t).2) := by
  show (if continuesOperand (t.rest.headD env.endOfFile).kind = true then _ else _ : P Expr) env t =
    _
  rw [if_neg (Bool.eq_false_iff.mp h.continuesOperand)]
  rfl

theorem binaryTail_of_isForeign (least start : Nat) (e : Expr) :
    (rules (n + 1)).binaryTail 0 least start e env t = (e, (leave 0 env t).2) := by
  have hnext : nextOperator? least env t = (none, t) := by
    rw [nextOperator?_apply, kind_next_of_isForeign h, h.operator]
  exact binaryTailBody_of_none hnext

theorem accept_of_isForeign : accept (.punct .question) env t = (false, t) := by
  show (if (t.rest.headD env.endOfFile).kind = .punct .question then _ else _ : P Bool) env t = _
  rw [if_neg h.question]
  rfl

end

section

variable (h : (s.rest.headD env.endOfFile).kind.IsForeign) (hcalm : s.tooDeep = false)

include h hcalm

theorem rejects_unary (hd : s.depth < env.maxDepth) :
    Rejects env s ((rules (n + 2)).unary env s) := by
  refine .nested hcalm hd ?_
  let entered := s.moveTo { s.toMoment with depth := s.depth + 1 }
  have hrun : unaryBody (rules (n + 1)) env entered = _ :=
    unaryBody_of_not_startsExpression h.starts h.void
  rw [hrun]
  refine .bind (rejects_primary hcalm h.starts h.void) fun e t hrest => ?_
  exact ⟨_, postfixTail_of_isForeign (hrest ▸ h) _ e, rfl⟩

theorem rejects_binary (hd : s.depth < env.maxDepth) (least : Nat) :
    Rejects env s (binary (rules (n + 2)) least env s) := by
  refine .current (.bind (rejects_unary h hcalm hd) fun e t hrest => ?_)
  exact ⟨_, binaryTail_of_isForeign (hrest ▸ h) least _ e, rfl⟩

theorem rejects_conditional (hd : s.depth < env.maxDepth) :
    Rejects env s (conditional (rules (n + 2)) env s) := by
  refine .current (.bind (rejects_binary h hcalm hd _) fun e t hrest => ?_)
  refine ⟨t, ?_, rfl⟩
  rw [bind_apply, accept_of_isForeign (hrest ▸ h)]
  rfl

theorem rejects_assignment (hd : s.depth < env.maxDepth) :
    Rejects env s (assignment (rules (n + 2)) env s) := by
  refine .current (.bind (rejects_conditional h hcalm hd) fun e t hrest => ?_)
  have ht : (t.rest.headD env.endOfFile).kind.IsForeign := hrest ▸ h
  have hassignment : ¬ (Operator.next env.endOfFile t.rest).kind.isAssignment = true := by
    rw [kind_next_of_isForeign ht]
    exact Bool.eq_false_iff.mp ht.assignment
  refine ⟨t, ?_, rfl⟩
  show (if (Operator.next env.endOfFile t.rest).kind.isAssignment = true then _
    else _ : P Expr) env t = _
  rw [if_neg hassignment]
  rfl

theorem rejects_expression (hd : s.depth + 2 ≤ env.maxDepth) :
    Rejects env s ((rules (n + 3)).expression env s) := by
  refine .nested hcalm (Nat.lt_of_succ_lt hd) ?_
  let entered := s.moveTo { s.toMoment with depth := s.depth + 1 }
  have hrun : expressionBody (rules (n + 2)) env entered = _ :=
    expressionBody_of_not_startsExpression h.starts
  rw [hrun]
  exact rejects_assignment h hcalm hd

end

/-! ### The tables and the grammar -/

/-- From one state to the other at least a first token is taken. -/
def TakesAtLeast (first : Token) (s t : State) : Prop :=
  ∃ rest, s.rest = first :: rest ∧ t.rest <:+ rest

/-- How the tables agree with the grammar on the next token. An expression that it may begin takes
it, and reports nothing before its end; a statement that it may begin takes it. If it is foreign to
expressions, one that is asked for is missing, and that is all that is reported. -/
structure TablesAgree (n : Nat) (env : Env) (s : State) (first : Token) : Prop where
  expression : first.kind.startsExpression = true →
    let run := (rules n).expression env s
    TakesAtLeast first s run.2 ∧ first.start < first.stop ∧
      ReportedFrom first.stop s.diagnostics run.2.diagnostics
  statement : first.kind.startsStatement = true →
    TakesAtLeast first s ((rules n).statement env s).2
  foreign : first.kind.IsForeign → Rejects env s ((rules n).expression env s)

theorem TakesFirst.takesAtLeast {table : TokenKind → Bool} (hp : TakesFirst tokens n table p p)
    (he : env.Raises tokens env) (hs : Ready tokens n env s)
    (hk : table (s.rest.headD env.endOfFile).kind = true) :
    TakesAtLeast (s.rest.headD env.endOfFile) s (p env s).2 := by
  obtain ⟨hrun, htakes⟩ := hp s.rest env env s he hs rfl
  rw [kind_headD he.kind_endOfFile] at hk
  have hlt := htakes.resolve_left (ne_false_of_eq_true hk)
  have hsuffix : (p env s).2.rest <:+ s.rest := hrun.leads.rest_suffix
  cases hrest : s.rest with
  | nil =>
    rw [hrest] at hlt
    exact absurd hlt (Nat.not_lt_zero _)
  | cons first rest =>
    rw [hrest] at hlt hsuffix
    refine ⟨rest, hrest, (List.suffix_cons_iff.mp hsuffix).resolve_left fun h => ?_⟩
    rw [h] at hlt
    exact Nat.lt_irrefl _ hlt

/-- Before a token that begins an expression the parser is before a first token. -/
theorem opening_of_inOrder (ho : TokenStream.InOrder ⟨tokens, env.endOfFile⟩)
    (hs : Ready tokens n env s) (hcalm : s.tooDeep = false)
    (hroom : s.depth + levels ≤ env.maxDepth) {rest : List Token}
    (hrest : s.rest = first :: rest) : Opening first levels env s := by
  have hin : Token.InOrder (first :: rest) := ho.tokens.sublist (hrest ▸ hs.rest.sublist)
  have hafter := (List.pairwise_cons.mp hin.pairwise).1
  refine ⟨⟨rest, hrest, fun t ht => ⟨hafter t ht, ?_⟩⟩, ?_, hcalm, hroom⟩
  · have hlt := hin.start_lt_stop t (List.mem_cons_of_mem _ ht)
    exact Nat.le_trans (hafter t ht) (Nat.le_of_lt hlt)
  · exact ho.stop_le first (hs.rest.subset (hrest ▸ List.mem_cons_self))

/-- From any state between tokens in order, with four levels left, the tables agree with the
grammar. -/
theorem tablesAgree_of_room (ho : TokenStream.InOrder ⟨tokens, env.endOfFile⟩)
    (he : env.Raises tokens env) (hs : Ready tokens n env s) (hcalm : s.tooDeep = false)
    (hroom : s.depth + 4 ≤ env.maxDepth) :
    TablesAgree n env s (s.rest.headD env.endOfFile) := by
  have hr : (rules n).AreOrderly tokens n (rules n) := areOrderly_rules (Nat.le_refl n)
  -- the rules do not come to the end of their bound before the limit
  obtain ⟨m, rfl⟩ : ∃ m, n = m + 3 := ⟨n - 3, by have := hs.room; omega⟩
  have hlevels : s.depth + 2 ≤ env.maxDepth := by omega
  refine ⟨fun hk => ?_, fun hk => hr.statement.takesAtLeast he hs hk,
    fun h => rejects_expression h hcalm hlevels⟩
  obtain ⟨rest, hrest, htaken⟩ := hr.expression.takesAtLeast he hs hk
  have hopening := opening_of_inOrder ho hs hcalm hlevels hrest
  have hpast := opens_expression hk (m + 1) env s hopening
  exact ⟨⟨rest, hrest, htaken⟩, (ho.of_suffix (hrest ▸ hs.rest)).1, hpast.diagnostics⟩

/-- A call whose arguments are missing: at its name, and at the semicolon after its parenthesis. -/
theorem tablesAgree_call :
    let stream := (scan "f(;").1
    let env := Env.of stream 8
    let start (taken : Nat) := State.start ⟨stream.tokens.drop taken, stream.endOfFile⟩ #[] none
    let next (taken : Nat) := (start taken).rest.headD env.endOfFile
    (TokenStream.InOrder ⟨stream.tokens, env.endOfFile⟩ ∧ env.Raises stream.tokens env) ∧
      (∀ taken, Ready stream.tokens 9 env (start taken) ∧ (start taken).tooDeep = false ∧
        (start taken).depth + 4 ≤ env.maxDepth) ∧
      ((next 0).kind.startsExpression = true ∧ (next 0).kind.startsStatement = true ∧
        TablesAgree 9 env (start 0) (next 0)) ∧
      (next 2).kind.IsForeign ∧ TablesAgree 9 env (start 2) (next 2) := by
  have hkinds : (scan "f(;").1.tokens.map (·.kind) =
      [.identifier, .punct .openParen, .punct .semicolon] := by
    rw [scan_ofList]
    decide +kernel
  obtain ⟨name, paren, semicolon, htokens, hname, -, hsemicolon⟩ :
      ∃ t u v, (scan "f(;").1.tokens = [t, u, v] ∧ t.kind = .identifier ∧
        u.kind = .punct .openParen ∧ v.kind = .punct .semicolon := by
    simpa [List.map_eq_cons_iff] using hkinds
  intro stream env start next
  obtain ⟨hend, -, hinOrder⟩ := scan_inOrder "f(;"
  have hraises : env.Raises stream.tokens env := .refl hend (Nat.lt_succ_self _)
  have hready (taken : Nat) : Ready stream.tokens 9 env (start taken) :=
    ⟨List.drop_suffix _ _, ⟨Nat.zero_le _, nofun⟩, Nat.lt_succ_self 8⟩
  have hroom (taken : Nat) : (start taken).depth + 4 ≤ env.maxDepth := Nat.le_add_left 4 4
  have hagree (taken : Nat) : TablesAgree 9 env (start taken) (next taken) :=
    tablesAgree_of_room hinOrder hraises (hready taken) rfl (hroom taken)
  have hfirst : (next 0).kind = .identifier := by
    show ((stream.tokens.drop 0).headD env.endOfFile).kind = _
    rw [show stream.tokens = _ from htokens]
    exact hname
  have hthird : (next 2).kind = .punct .semicolon := by
    show ((stream.tokens.drop 2).headD env.endOfFile).kind = _
    rw [show stream.tokens = _ from htokens]
    exact hsemicolon
  refine ⟨⟨hinOrder, hraises⟩, fun taken => ⟨hready taken, rfl, hroom taken⟩,
    ⟨hfirst ▸ rfl, hfirst ▸ rfl, hagree 0⟩, ?_, hagree 2⟩
  rw [hthird]
  exact ⟨rfl, nofun, rfl, rfl, nofun, nofun, nofun, nofun⟩

end Parser

end CSharpFront
