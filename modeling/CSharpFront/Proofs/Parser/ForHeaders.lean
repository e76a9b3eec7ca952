import CSharpFront.Proofs.Lexer.Scan
import CSharpFront.Proofs.Parser.OrderlyRules
/-!
Headers of `for` that are well formed. Their lists are read by loops that also skip what does not
belong there, and each clause may be absent. Where the expressions are such that each is read as
itself before whatever separates or ends a clause, no skip and no report comes between them.
-/

namespace CSharpFront

/-- Whether a token separates the expressions of a clause, or ends it. -/
def TokenKind.endsClause : TokenKind → Bool
  | .punct .comma | .punct .semicolon | .punct .closeParen => true
  | _ => false

theorem TokenKind.endsClause_eq_true {k : TokenKind} (h : k.endsClause = true) :
    k = .punct .comma ∨ k = .punct .semicolon ∨ k = .punct .closeParen := by
  unfold endsClause at h
  split at h
  · exact .inl rfl
  · exact .inr (.inl rfl)
  · exact .inr (.inr rfl)
  · cases h

/-- No operand and no operator before one begins with a token that begins no expression. -/
theorem TokenKind.not_begins_of_not_startsExpression {k : TokenKind}
    (h : k.startsExpression = false) (hvoid : k ≠ .keyword .kwVoid) :
    Parser.literalKind? k = none ∧ k.special? = none ∧ Parser.isPrefixOperator k = false ∧
      k ≠ .punct .openParen := by
  cases k with
  | punct p => revert h; cases p <;> decide
  | keyword k => revert h hvoid; cases k <;> decide
  | identifier | numericLiteral | stringLiteral | characterLiteral => cases h
  | unknown | endOfFile => decide

/-- A word begins an expression even where it has a meaning of its own. -/
theorem Token.isContextual_eq_false {t : Token} (h : t.kind.startsExpression = false)
    (word : String) : t.isContextual word = false := by
  refine Bool.eq_false_iff.mpr fun hword => ?_
  rw [Token.kind_of_contextual? (eq_of_beq hword)] at h
  cases h

/-- A token of the text as a leaf of the tree. -/
def Token.leaf (t : Token) : Leaf := ⟨t.kind, t.range, false⟩

namespace Parser

variable {α β : Type} {env : Env} {n m depth : Nat} {s t : State} {p : P α} {a : α} {b : β}
  {f : α → P β} {ts us rest : List Token} {u : Token}

/-! ### Reading without a report -/

/-- A state where some levels have been entered, the limit was not hit, and fewer tokens are left
than a loop takes rounds. -/
structure Steady (env : Env) (depth : Nat) (s : State) : Prop where
  tooDeep : s.tooDeep = false
  depth_eq : s.depth = depth
  budget : s.rest.length < env.budget

/-- From every such state before some tokens and the rest after them a parser comes to the rest with
one result. It reports nothing and leaves the levels it has entered. -/
def Clean (env : Env) (depth : Nat) (p : P α) (ts : List Token) (a : α) (rest : List Token) :
    Prop :=
  ∀ s, Steady env depth s → s.rest = ts ++ rest → ∃ t, p env s = (a, t) ∧ t.rest = rest ∧
    t.tooDeep = false ∧ t.diagnostics = s.diagnostics ∧ t.depth = depth

namespace Clean

theorem pure (a : α) : Clean env depth (Pure.pure a) [] a rest :=
  fun s hs hrest => ⟨s, rfl, hrest, hs.tooDeep, rfl, hs.depth_eq⟩

theorem bind (hp : Clean env depth p ts a (us ++ rest)) (hf : Clean env depth (f a) us b rest) :
    Clean env depth (p >>= f) (ts ++ us) b rest := by
  intro s hs hrest
  obtain ⟨t, hrun, ht, hdeep, hd, hdepth⟩ := hp s hs (hrest.trans (List.append_assoc ..))
  have hsteady : Steady env depth t := by
    refine ⟨hdeep, hdepth, Nat.lt_of_le_of_lt ?_ hs.budget⟩
    rw [ht, hrest, List.append_assoc]
    exact (List.suffix_append _ _).length_le
  obtain ⟨t', hrun', ht', hdeep', hd', hdepth'⟩ := hf t hsteady ht
  exact ⟨t', by rw [bind_apply, hrun, hrun'], ht', hdeep', hd'.trans hd, hdepth'⟩

/-- A first step that takes nothing. -/
theorem first (hp : Clean env depth p [] a (ts ++ rest)) (hf : Clean env depth (f a) ts b rest) :
    Clean env depth (p >>= f) ts b rest :=
  bind hp hf

/-- A last step that takes nothing. -/
theorem andThen (hp : Clean env depth p ts a rest) (hf : Clean env depth (f a) [] b rest) :
    Clean env depth (p >>= f) ts b rest := by
  have hall : Clean env depth (p >>= f) (ts ++ []) b rest := bind hp hf
  rwa [List.append_nil] at hall

theorem map (g : α → β) (hp : Clean env depth p ts a rest) :
    Clean env depth (g <$> p) ts (g a) rest :=
  andThen (f := fun a => Pure.pure (g a)) hp (.pure (g a))

theorem pos {c : Prop} [Decidable c] {q : P α} (hc : c) (hp : Clean env depth p ts a rest) :
    Clean env depth (if c then p else q) ts a rest := by
  rwa [if_pos hc]

theorem neg {c : Prop} [Decidable c] {q : P α} (hc : ¬ c) (hq : Clean env depth q ts a rest) :
    Clean env depth (if c then p else q) ts a rest := by
  rwa [if_neg hc]

/-- Nothing need be shown where no such state is. -/
theorem of_state (h : ∀ s, Steady env depth s → s.rest = ts ++ rest → Clean env depth p ts a rest) :
    Clean env depth p ts a rest :=
  fun s hs hrest => h s hs hrest s hs hrest

theorem of_eq {p' : P α} (h : ∀ s, s.rest = ts ++ rest → p env s = p' env s)
    (hp : Clean env depth p' ts a rest) : Clean env depth p ts a rest :=
  fun s hs hrest => h s hrest ▸ hp s hs hrest

/-- What the next token is, is known. -/
theorem current {f : Token → P β} (h : (ts ++ rest).headD env.endOfFile = u)
    (hf : Clean env depth (f u) ts b rest) : Clean env depth (Parser.current >>= f) ts b rest :=
  hf.of_eq fun s hrest => by
    show f (s.rest.headD env.endOfFile) env s = _
    rw [hrest, h]

theorem currentKind {f : TokenKind → P β} (h : ((ts ++ rest).headD env.endOfFile).kind = k)
    (hf : Clean env depth (f k) ts b rest) :
    Clean env depth (Parser.currentKind >>= f) ts b rest :=
  hf.of_eq fun s hrest => by
    show f (s.rest.headD env.endOfFile).kind env s = _
    rw [hrest, h]

theorem eat {k : TokenKind} (h : u.kind = k) : Clean env depth (eat k) [u] u.leaf rest := by
  intro s hs hrest
  refine ⟨s.moveTo ⟨rest, u.stop, s.depth, s.tooDeep, s.diagnostics⟩, ?_, rfl, hs.tooDeep, rfl,
    hs.depth_eq⟩
  show (if (s.rest.headD env.endOfFile).kind = k then _ else _ : P Leaf) env s = _
  rw [hrest, List.cons_append, List.headD_cons, if_pos h, bind_apply, advance_apply hrest,
    Token.leaf, h]
  rfl

/-- Such a state is made of its tokens and of fields that no step looks at. -/
theorem of_fields
    (h : ∀ prevStop diagnostics names polls trail ranOut,
      let r := p env
        ⟨⟨ts ++ rest, prevStop, depth, false, diagnostics⟩, names, polls, trail, ranOut⟩
      r.1 = a ∧ r.2.rest = rest ∧ r.2.tooDeep = false ∧ r.2.diagnostics = diagnostics ∧
        r.2.depth = depth) : Clean env depth p ts a rest := by
  rintro ⟨⟨r, prevStop, d, tooDeep, diagnostics⟩, names, polls, trail, ranOut⟩ ⟨rfl, rfl, -⟩ rfl
  obtain ⟨h, h'⟩ := h prevStop diagnostics names polls trail ranOut
  exact ⟨_, Prod.ext h rfl, h'⟩

/-- A loop may take more rounds than there are tokens. -/
theorem loop {step : α → P (ForInStep α)} {b : α}
    (h : ∀ m, ts.length < m → Clean env depth (iterate step m a) ts b rest) :
    Clean env depth (loop a step) ts b rest := by
  intro s hs hrest
  refine h env.budget ?_ s hs hrest
  have hbudget := hs.budget
  rw [hrest, List.length_append] at hbudget
  omega

theorem done {step : α → P (ForInStep α)} {b : α}
    (h : Clean env depth (step a) ts (.done b) rest) :
    Clean env depth (iterate step (m + 1) a) ts b rest :=
  h.andThen (.pure b)

theorem yield {step : α → P (ForInStep α)} {b c : α}
    (h : Clean env depth (step a) ts (.yield b) (us ++ rest))
    (hrest : Clean env depth (iterate step m b) us c rest) :
    Clean env depth (iterate step (m + 1) a) (ts ++ us) c rest :=
  h.bind hrest

end Clean

/-! ### Where an expression can begin -/

section

variable {tokens : List Token} {bound : Nat} {r : Rules}

/-- A parser that reports something from a state on, or hits the limit. -/
def Reports (env : Env) (s : State) (p : P α) : Prop :=
  (p env s).2.tooDeep = true ∨ s.diagnostics.size < (p env s).2.diagnostics.size

theorem Leads.size_le (h : Leads env s t) : s.diagnostics.size ≤ t.diagnostics.size := by
  obtain ⟨⟨ms, -, hc⟩, -⟩ := h
  refine (hc.invariant (p := fun m => s.diagnostics.size ≤ m.diagnostics.size) ?_
    (Nat.le_refl _)).1
  intro m n hstep hm
  cases hstep with
  | take | enter | leave => exact hm
  | report | giveUp => simpa using Nat.le_succ_of_le hm

/-- What has been reported stays reported in what follows. -/
theorem Reports.bind (h : Reports env s p) (he : env.Raises tokens env)
    (hs : Ready tokens bound env s) (hp : Orderly tokens bound 0 p p)
    (hf : ∀ a, Orderly tokens bound 0 (f a) (f a)) : Reports env s (p >>= f) := by
  have hrun := hp env env s he hs (Nat.zero_le _)
  have hrest := hf (p env s).1 env env (p env s).2 he (hs.of_leads hrun.leads hrun.depth)
    (Nat.zero_le _)
  exact h.imp hrest.leads.tooDeep fun h => Nat.lt_of_lt_of_le h hrest.leads.size_le

/-- Whether or not the level can be entered. -/
theorem reports_nested {p : P Expr} (hs : s.tooDeep = false)
    (h : s.depth < env.maxDepth →
      Reports env (s.moveTo { s.toMoment with depth := s.depth + 1 }) p) :
    Reports env s (nested missingExpression p) := by
  rcases Nat.lt_or_ge s.depth env.maxDepth with hlt | hge
  · rw [Reports, nested_of_lt hs hlt]
    exact h hlt
  · rw [Reports, nested_of_le hs hge, refuse_apply hs]
    exact .inl rfl

theorem Reports.current {f : Token → P β} (h : Reports env s (f (s.rest.headD env.endOfFile))) :
    Reports env s (Parser.current >>= f) := h

theorem reports_report {message : Message} {span : Span} {arguments : List String} {f : Unit → P β}
    (hs : s.tooDeep = false) (hf : ∀ s, (f () env s).2 = s) :
    Reports env s (report message span arguments >>= f) := by
  refine .inr ?_
  rw [bind_apply]
  show _ < (f () env (if s.tooDeep then s else _)).2.diagnostics.size
  rw [hf, if_neg (by simp [hs])]
  show s.diagnostics.size < (s.diagnostics.push _).size
  simp

/-- An operand that cannot begin here is none of those that there are. -/
theorem primary_of_not_startsExpression
    (hk : (s.rest.headD env.endOfFile).kind.startsExpression = false)
    (hvoid : (s.rest.headD env.endOfFile).kind ≠ .keyword .kwVoid) :
    primary r env s = invalidTerm env s := by
  have hcurrent (f : Token → P Expr) :
      (current >>= f) env s = f (s.rest.headD env.endOfFile) env s := rfl
  rw [primary, hcurrent]
  refine congrFun (congrFun ?_ env) s
  generalize s.rest.headD env.endOfFile = t at hk hvoid
  obtain ⟨hliteral, hspecial, -⟩ := TokenKind.not_begins_of_not_startsExpression hk hvoid
  simp only [hliteral, hspecial]
  split
  next h => rw [h] at hk; cases hk
  next h => rw [h] at hk; cases hk
  next h => rw [h] at hk; cases hk
  next h => rw [h] at hk; cases hk
  · rfl

theorem reports_primary (hs : s.tooDeep = false)
    (hk : (s.rest.headD env.endOfFile).kind.startsExpression = false)
    (hvoid : (s.rest.headD env.endOfFile).kind ≠ .keyword .kwVoid) : Reports env s (primary r) := by
  have hinvalid : Reports env s invalidTerm := by
    refine .current ?_
    dsimp only
    split <;> exact reports_report hs fun _ => rfl
  rw [Reports, primary_of_not_startsExpression hk hvoid]
  exact hinvalid

/-- An operand without an operator, `await` or a parenthesis before it. -/
theorem unaryBody_of_primary
    (hsign : isPrefixOperator (s.rest.headD env.endOfFile).kind = false)
    (hname : ¬ (s.rest.headD env.endOfFile).isContextual "await" = true)
    (hparen : (s.rest.headD env.endOfFile).kind ≠ .punct .openParen) :
    unaryBody r env s =
      (primary r >>= r.postfixTail 0 (s.rest.headD env.endOfFile).start) env s := by
  show (if isPrefixOperator (s.rest.headD env.endOfFile).kind = true then _
    else (MonadReader.read >>= fun env' : Env =>
      if env'.inAsync = true ∧ (s.rest.headD env.endOfFile).isContextual "await" = true then _
      else _ : P Expr)) env s = _
  rw [if_neg (Bool.eq_false_iff.mp hsign)]
  show (if env.inAsync = true ∧ (s.rest.headD env.endOfFile).isContextual "await" = true then _
    else (MonadReader.read >>= fun env' : Env => MonadState.get >>= fun s' : State =>
      if (s.rest.headD env.endOfFile).kind = .punct .openParen ∧ _ then _ else _ : P Expr))
      env s = _
  rw [if_neg fun h => hname h.2]
  show (if (s.rest.headD env.endOfFile).kind = .punct .openParen ∧ _ then _
    else _ : P Expr) env s = _
  rw [if_neg fun h => hparen h.1]

theorem unaryBody_of_not_startsExpression
    (hk : (s.rest.headD env.endOfFile).kind.startsExpression = false)
    (hvoid : (s.rest.headD env.endOfFile).kind ≠ .keyword .kwVoid) :
    unaryBody r env s =
      (primary r >>= r.postfixTail 0 (s.rest.headD env.endOfFile).start) env s := by
  obtain ⟨-, -, hsign, hparen⟩ := TokenKind.not_begins_of_not_startsExpression hk hvoid
  exact unaryBody_of_primary hsign (Bool.eq_false_iff.mp (Token.isContextual_eq_false hk _)) hparen

/-- A query begins as an expression does. -/
theorem expressionBody_of_not_startsExpression
    (hk : (s.rest.headD env.endOfFile).kind.startsExpression = false) :
    expressionBody r env s = assignment r env s := by
  have hquery : Lookahead.startsQuery s.rest = false := by
    cases hrest : s.rest with
    | nil => rfl
    | cons t ts =>
      rw [hrest, List.headD_cons] at hk
      rw [Lookahead.startsQuery, Token.isContextual_eq_false hk, Bool.false_and]
  show (if Lookahead.startsQuery s.rest = true then _ else _ : P Expr) env s = _
  rw [if_neg (Bool.eq_false_iff.mp hquery)]

theorem reports_unaryBody (hr : r.AreOrderly tokens bound r) (he : env.Raises tokens env)
    (hs : Ready tokens bound env s) (hdeep : s.tooDeep = false)
    (hk : (s.rest.headD env.endOfFile).kind.startsExpression = false)
    (hvoid : (s.rest.headD env.endOfFile).kind ≠ .keyword .kwVoid) :
    Reports env s (unaryBody r) := by
  have hoperand : Reports env s
      (primary r >>= r.postfixTail 0 (s.rest.headD env.endOfFile).start) :=
    (reports_primary hdeep hk hvoid).bind he hs (Advances.orderly fun _ => advances_primary hr)
      fun operand => hr.postfixTail 0 _ operand
  rw [Reports, unaryBody_of_not_startsExpression hk hvoid]
  exact hoperand

theorem reports_unary (he : env.Raises tokens env) (hs : Ready tokens n env s)
    (hdeep : s.tooDeep = false)
    (hk : (s.rest.headD env.endOfFile).kind.startsExpression = false)
    (hvoid : (s.rest.headD env.endOfFile).kind ≠ .keyword .kwVoid) :
    Reports env s (rules n).unary := by
  cases n with
  | zero => exact (not_ready_zero hs).elim
  | succ n =>
    have hr : (rules n).AreOrderly tokens n (rules n) := areOrderly_rules (Nat.le_refl n)
    exact reports_nested hdeep fun hlt =>
      reports_unaryBody hr he (hs.enter hlt) hdeep hk hvoid

theorem reports_binary (he : env.Raises tokens env) (hs : Ready tokens n env s)
    (hdeep : s.tooDeep = false)
    (hk : (s.rest.headD env.endOfFile).kind.startsExpression = false)
    (hvoid : (s.rest.headD env.endOfFile).kind ≠ .keyword .kwVoid) (least : Nat) :
    Reports env s (binary (rules n) least) := by
  have hr : (rules n).AreOrderly tokens n (rules n) := areOrderly_rules (Nat.le_refl n)
  exact .current ((reports_unary he hs hdeep hk hvoid).bind he hs hr.unary.orderly fun left =>
    hr.binaryTail 0 least _ left)

theorem reports_conditional (he : env.Raises tokens env) (hs : Ready tokens n env s)
    (hdeep : s.tooDeep = false)
    (hk : (s.rest.headD env.endOfFile).kind.startsExpression = false)
    (hvoid : (s.rest.headD env.endOfFile).kind ≠ .keyword .kwVoid) :
    Reports env s (conditional (rules n)) := by
  have hr : (rules n).AreOrderly tokens n (rules n) := areOrderly_rules (Nat.le_refl n)
  refine .current ((reports_binary he hs hdeep hk hvoid _).bind he hs
    (takesFirst_binary hr _).orderly fun condition => ?_)
  refine .bind (orderly_accept _) fun _ => .ite ?_ (.pure _)
  refine .bind hr.expression.orderly fun _ => .bind (orderly_eat _) fun _ => ?_
  exact .bind hr.expression.orderly fun _ => .bind (orderly_rangeFrom _) fun _ => .pure _

theorem reports_assignment (he : env.Raises tokens env) (hs : Ready tokens n env s)
    (hdeep : s.tooDeep = false)
    (hk : (s.rest.headD env.endOfFile).kind.startsExpression = false)
    (hvoid : (s.rest.headD env.endOfFile).kind ≠ .keyword .kwVoid) :
    Reports env s (assignment (rules n)) := by
  have hr : (rules n).AreOrderly tokens n (rules n) := areOrderly_rules (Nat.le_refl n)
  refine .current ((reports_conditional he hs hdeep hk hvoid).bind he hs
    (takesFirst_conditional hr).orderly fun left => ?_)
  refine .read fun env env' he => .get fun s _ => ?_
  rw [he.endOfFile]
  refine .ite (.bind (orderly_advanceBy _) fun _ => ?_) (.pure _)
  exact .bind hr.expression.orderly fun _ => .bind (orderly_rangeFrom _) fun _ => .pure _

/-- Before a token that begins no expression an expression is not read without a report. -/
theorem reports_expression (he : env.Raises tokens env) (hs : Ready tokens n env s)
    (hdeep : s.tooDeep = false)
    (hk : (s.rest.headD env.endOfFile).kind.startsExpression = false)
    (hvoid : (s.rest.headD env.endOfFile).kind ≠ .keyword .kwVoid) :
    Reports env s (rules n).expression := by
  cases n with
  | zero => exact (not_ready_zero hs).elim
  | succ n =>
    refine reports_nested hdeep fun hlt => ?_
    let entered := s.moveTo { s.toMoment with depth := s.depth + 1 }
    have hrun : expressionBody (rules n) env entered = assignment (rules n) env entered :=
      expressionBody_of_not_startsExpression hk
    rw [Reports, hrun]
    exact reports_assignment he (hs.enter hlt) hdeep hk hvoid

end

/-! ### Clauses -/

/-- An expression that stands alone in a clause: it is read from its tokens before whatever
separates or ends a clause, and whatever comes after that. -/
structure ClauseExpr (env : Env) (n depth : Nat) (ts : List Token) (e : Expr) : Prop where
  reads : ∀ (t : Token) (rest : List Token), t.kind.endsClause = true →
    Clean env depth (rules n).expression ts e (t :: rest)
  notVoid : Lookahead.kind ts ≠ .keyword .kwVoid

/-- The expressions that follow the first one of a clause, each after a comma. -/
inductive ClauseRest (env : Env) (n depth : Nat) : List Token → List Expr → Prop
  | nil : ClauseRest env n depth [] []
  | cons {comma : Token} {ts us : List Token} {e : Expr} {es : List Expr}
      (hc : comma.kind = .punct .comma) (he : ClauseExpr env n depth ts e)
      (h : ClauseRest env n depth us es) : ClauseRest env n depth (comma :: (ts ++ us)) (e :: es)

/-- The expressions of a clause, which may all stand as statements. -/
inductive ClauseList (env : Env) (n depth : Nat) : List Token → List Expr → Prop
  | mk {ts us : List Token} {e : Expr} {es : List Expr} (he : ClauseExpr env n depth ts e)
      (h : ClauseRest env n depth us es)
      (hs : ∀ e' ∈ e :: es, e'.isStatementExpression = true) :
      ClauseList env n depth (ts ++ us) (e :: es)

theorem ClauseList.singleton {ts : List Token} {e : Expr} (he : ClauseExpr env n depth ts e)
    (hs : e.isStatementExpression = true) : ClauseList env n depth ts [e] := by
  have h : ClauseList env n depth (ts ++ []) [e] := .mk he .nil (List.forall_mem_singleton.mpr hs)
  rwa [List.append_nil] at h

/-- The first clause, before the tokens from its semicolon on. Expressions must not look like the
start of a declaration, and a declaration must. -/
inductive InitializerClause (env : Env) (n depth : Nat) (rest : List Token) :
    List Token → Option ForInitializer → Prop
  | none : InitializerClause env n depth rest [] none
  | expressions {ts : List Token} {es : List Expr}
      (hlook : Lookahead.startsLocalDeclaration env.maxDepth env.inAsync (ts ++ rest) = false)
      (h : ClauseList env n depth ts es) :
      InitializerClause env n depth rest ts (some (.expressions es))
  | declaration {ts : List Token} {d : VariableDeclaration}
      (hlook : Lookahead.startsLocalDeclaration env.maxDepth env.inAsync (ts ++ rest) = true)
      (h : Clean env depth (variableDeclaration (rules n)) ts d rest) :
      InitializerClause env n depth rest ts (some (.declaration d))

inductive ConditionClause (env : Env) (n depth : Nat) : List Token → Option Expr → Prop
  | none : ConditionClause env n depth [] none
  | some {ts : List Token} {e : Expr} (h : ClauseExpr env n depth ts e) :
      ConditionClause env n depth ts (some e)

inductive IncrementorClause (env : Env) (n depth : Nat) : List Token → List Expr → Prop
  | none : IncrementorClause env n depth [] []
  | some {ts : List Token} {es : List Expr} (h : ClauseList env n depth ts es) :
      IncrementorClause env n depth ts es

/-! ### Reading clauses -/

/-- What goes on after an expression of a clause separates or ends it. -/
theorem ClauseRest.follows (h : ClauseRest env n depth us es) (rest : List Token) {t : Token}
    (ht : t.kind.endsClause = true) :
    ∃ t' rest', us ++ t :: rest = t' :: rest' ∧ t'.kind.endsClause = true := by
  cases h with
  | nil => exact ⟨t, rest, rfl, ht⟩
  | @cons comma ts us e es hc =>
    exact ⟨comma, (ts ++ us) ++ t :: rest, rfl, by rw [hc]; rfl⟩

section

variable {e : Expr} {es : List Expr}

/-- The next token is known, whatever kind it is of. -/
theorem kind_headD_append_cons (ts : List Token) :
    ((ts ++ u :: rest).headD env.endOfFile).kind = Lookahead.kind (ts ++ u :: rest) := by
  cases ts <;> rfl

theorem clean_skipInList_of_endsList (hu : endsList u.kind = true) (expected : TokenKind) :
    Clean env depth (skipInList expected) [] false (u :: rest) := by
  refine .currentKind rfl (.pos (.inr (.inr hu)) (.currentKind rfl ?_))
  rw [List.nil_append, List.headD_cons, hu]
  exact .pure false

theorem clean_checkStatementExpressions (h : ∀ e ∈ es, e.isStatementExpression = true) :
    Clean env depth (checkStatementExpressions es) [] () rest := by
  induction es with
  | nil => exact .pure ()
  | cons e es ih =>
    obtain ⟨he, hes⟩ := List.forall_mem_cons.mp h
    refine .first (.pos ?_ (.pure ())) (ih hes)
    rw [he, Bool.or_true]

/-- One round of the loop over the expressions of a clause after the first. -/
def forExpressionsStep (r : Rules) (allowSemicolon : Bool) (expressions : List Expr) :
    P (ForInStep (List Expr)) := do
  let kind ← currentKind
  if kind = .punct .closeParen then return .done expressions
  else if continuesList allowSemicolon kind then
    listSeparator
    let expression ← r.expression
    return .yield (expression :: expressions)
  else if ← skipInList (.punct .comma) then return .yield expressions
  else return .done expressions

theorem clean_forExpressionsStep_last {allowSemicolon : Bool}
    (hu : u.kind = if allowSemicolon then .punct .closeParen else .punct .semicolon)
    (acc : List Expr) :
    Clean env depth (forExpressionsStep (rules n) allowSemicolon acc) [] (.done acc)
      (u :: rest) := by
  refine .currentKind (k := u.kind) rfl ?_
  cases allowSemicolon with
  | true => exact .pos hu (.pure _)
  | false =>
    rw [hu]
    refine .neg (by decide) (.neg (by decide) ?_)
    exact .andThen (clean_skipInList_of_endsList (by rw [hu]; rfl) _)
      (.neg (by decide) (.pure _))

theorem clean_listSeparator (hu : u.kind = .punct .comma) :
    Clean env depth listSeparator [u] () rest := by
  refine .currentKind (k := u.kind) rfl (.neg (by rw [hu]; decide) ?_)
  exact .andThen (.eat hu) (.pure ())

theorem clean_forExpressionsStep_comma {allowSemicolon : Bool} (hc : u.kind = .punct .comma)
    (h : Clean env depth (rules n).expression ts e rest) (acc : List Expr) :
    Clean env depth (forExpressionsStep (rules n) allowSemicolon acc) (u :: ts)
      (.yield (e :: acc)) rest := by
  refine .currentKind (k := u.kind) rfl ?_
  rw [hc]
  exact .neg (by decide) (.pos (by rfl) (.bind (clean_listSeparator hc) (.andThen h (.pure _))))

theorem clean_forExpressionsRest (h : ClauseRest env n depth us es) {allowSemicolon : Bool}
    (hu : u.kind = if allowSemicolon then .punct .closeParen else .punct .semicolon) :
    Clean env depth (forExpressionsRest (rules n) allowSemicolon) us es (u :: rest) := by
  have hends : u.kind.endsClause = true := by
    rw [hu]
    cases allowSemicolon <;> rfl
  -- Each round takes a comma and an expression and puts the expression before those it has.
  have hrounds : ∀ m acc, us.length < m →
      Clean env depth (iterate (forExpressionsStep (rules n) allowSemicolon) m acc) us
        (es.reverse ++ acc) (u :: rest) := by
    intro m
    induction h generalizing m with
    | nil =>
      intro acc hm
      obtain ⟨m, rfl⟩ := Nat.exists_eq_succ_of_ne_zero (Nat.ne_of_gt hm)
      exact .done (clean_forExpressionsStep_last hu acc)
    | @cons comma ts us e es hc he h ih =>
      intro acc hm
      obtain ⟨m, rfl⟩ := Nat.exists_eq_succ_of_ne_zero (Nat.ne_of_gt (Nat.zero_lt_of_lt hm))
      obtain ⟨t', rest', hfollows, ht'⟩ := h.follows rest hends
      have hm : us.length < m := by
        simp only [List.length_cons, List.length_append] at hm
        omega
      have hfirst : Clean env depth (forExpressionsStep (rules n) allowSemicolon acc)
          (comma :: ts) (.yield (e :: acc)) (us ++ u :: rest) := by
        rw [hfollows]
        exact clean_forExpressionsStep_comma hc (he.reads t' rest' ht') acc
      rw [List.reverse_cons, List.append_assoc]
      exact .yield hfirst (ih m (e :: acc) hm)
  have hloop := Clean.loop (fun m => hrounds m [])
  rw [List.append_nil] at hloop
  refine .andThen hloop ?_
  rw [List.reverse_reverse]
  exact .pure es

section

variable (hend : env.endOfFile.kind = .endOfFile)
  (hlimit : depth ≤ env.maxDepth) (hroom : env.maxDepth < depth + n)

include hend hlimit hroom

/-- Where it is read without a report, a clause begins with a token that can begin an expression. -/
theorem ClauseExpr.startsExpression (h : ClauseExpr env n depth ts e)
    (hu : u.kind.endsClause = true) (hs : Steady env depth s) (hrest : s.rest = ts ++ u :: rest) :
    (Lookahead.kind (ts ++ u :: rest)).startsExpression = true := by
  -- If it began otherwise, reading it would report or hit the limit, and it does neither.
  rw [← Bool.not_eq_false]
  intro hk
  rw [← hrest, ← kind_headD hend] at hk
  have hvoid : (s.rest.headD env.endOfFile).kind ≠ .keyword .kwVoid := by
    rw [kind_headD hend, hrest]
    cases ts with
    | nil =>
      rintro (hu' : u.kind = _)
      rw [hu'] at hu
      cases hu
    | cons t ts => exact h.notVoid
  have hready : Ready s.rest n env s :=
    ⟨List.suffix_rfl, ⟨hs.depth_eq ▸ hlimit, fun hd => by rw [hs.tooDeep] at hd; cases hd⟩,
      hs.depth_eq ▸ hroom⟩
  obtain ⟨t, hrun, -, hdeep, hd, -⟩ := h.reads u rest hu s hs hrest
  rcases reports_expression (.refl hend hs.budget) hready hs.tooDeep hk hvoid with hr | hr
  · rw [hrun, hdeep] at hr
    cases hr
  · rw [hrun, hd] at hr
    exact absurd hr (Nat.lt_irrefl _)

omit hend hlimit hroom in
theorem ClauseList.isEmpty_eq_false (h : ClauseList env n depth ts es) : es.isEmpty = false := by
  cases h
  rfl

theorem ClauseList.startsExpression (h : ClauseList env n depth ts es)
    (hu : u.kind.endsClause = true) (hs : Steady env depth s) (hrest : s.rest = ts ++ u :: rest) :
    (Lookahead.kind (ts ++ u :: rest)).startsExpression = true := by
  obtain @⟨ts, us, e, es, he, h, -⟩ := h
  obtain ⟨t', rest', hfollows, ht'⟩ := h.follows rest hu
  rw [List.append_assoc, hfollows] at hrest ⊢
  exact he.startsExpression hend hlimit hroom ht' hs hrest

theorem clean_forExpressions (h : ClauseList env n depth ts es) {allowSemicolon : Bool}
    (hu : u.kind = if allowSemicolon then .punct .closeParen else .punct .semicolon) :
    Clean env depth (forExpressions (rules n) allowSemicolon) ts es (u :: rest) := by
  have hends : u.kind.endsClause = true := by
    rw [hu]
    cases allowSemicolon <;> rfl
  refine .of_state fun s hs hrest => ?_
  have hstarts := h.startsExpression hend hlimit hroom hends hs hrest
  obtain @⟨ts, us, e, es, he, h, -⟩ := h
  refine .currentKind (kind_headD_append_cons _) (.neg (fun hk => ?_) (.pos ?_ ?_))
  · rw [hk] at hstarts
    cases hstarts
  · rw [continuesList, hstarts, Bool.or_true]
  · have hread : Clean env depth (rules n).expression ts e (us ++ u :: rest) := by
      obtain ⟨t', rest', hfollows, ht'⟩ := h.follows rest hends
      rw [hfollows]
      exact he.reads t' rest' ht'
    exact .first (.pure true)
      (.pos rfl (.bind hread (.andThen (clean_forExpressionsRest h hu) (.pure _))))

theorem clean_forInitializer? {init? : Option ForInitializer}
    (h : InitializerClause env n depth (u :: rest) ts init?) (hu : u.kind = .punct .semicolon) :
    Clean env depth (forInitializer? (rules n)) ts init? (u :: rest) := by
  have hends : u.kind.endsClause = true := by rw [hu]; rfl
  have hlook {b : Bool} (hb : Lookahead.startsLocalDeclaration env.maxDepth env.inAsync
      (ts ++ u :: rest) = b) {f : Bool → P (Option ForInitializer)}
      (hf : Clean env depth (f b) ts init? (u :: rest)) :
      Clean env depth (startsLocalDeclaration >>= f) ts init? (u :: rest) :=
    hf.of_eq fun s hrest => by
      show f (Lookahead.startsLocalDeclaration env.maxDepth env.inAsync s.rest) env s = _
      rw [hrest, hb]
  cases h with
  | none =>
    refine hlook (b := false) ?_ (.neg (by decide) (.currentKind rfl (.pos hu (.pure _))))
    simp only [List.nil_append, Lookahead.startsLocalDeclaration, Lookahead.kind, hu]
    rfl
  | expressions hnone h =>
    refine hlook hnone (.neg (by decide) (.of_state fun s hs hrest => ?_))
    have hstarts := h.startsExpression hend hlimit hroom hends hs hrest
    refine .currentKind (kind_headD_append_cons _) (.neg (fun hk => ?_)
      (.andThen (clean_forExpressions hend hlimit hroom h hu) ?_))
    · rw [hk] at hstarts
      cases hstarts
    · rw [h.isEmpty_eq_false]
      exact .pure _
  | declaration hfound h => exact hlook hfound (.pos rfl (.andThen h (.pure _)))

omit hend hlimit hroom in
theorem clean_forSemicolon (hu : u.kind = .punct .semicolon) :
    Clean env depth forSemicolon [u] u.leaf rest := by
  refine .currentKind (k := u.kind) rfl ?_
  rw [hu]
  exact .andThen (.eat hu) (.pure _)

theorem clean_forCondition? {cond? : Option Expr} (h : ConditionClause env n depth ts cond?)
    (hu : u.kind = .punct .semicolon) :
    Clean env depth (forCondition? (rules n)) ts cond? (u :: rest) := by
  have hends : u.kind.endsClause = true := by rw [hu]; rfl
  cases h with
  | none => exact .currentKind rfl (.pos (.inl hu) (.pure _))
  | some h =>
    refine .of_state fun s hs hrest => ?_
    have hstarts := h.startsExpression hend hlimit hroom hends hs hrest
    refine .currentKind (kind_headD_append_cons _) (.neg ?_ (.map some (h.reads u rest hends)))
    rintro (hk | hk) <;>
    · rw [hk] at hstarts
      cases hstarts

omit hend hlimit hroom in
theorem clean_forCloseParen (hu : u.kind = .punct .closeParen) :
    Clean env depth forCloseParen [u] u.leaf rest := by
  refine .first (a := ()) (.loop fun m hm => ?_) (.eat hu)
  obtain ⟨m, rfl⟩ := Nat.exists_eq_succ_of_ne_zero (Nat.ne_of_gt hm)
  refine .done (.currentKind (k := u.kind) rfl ?_)
  rw [hu]
  exact .neg (by decide) (.pure _)

end

end

/-! ### Headers -/

/-- The tokens of a `for`. -/
structure ForTokens where
  forWord : Token
  openParen : Token
  initializer : List Token
  firstSemicolon : Token
  condition : List Token
  secondSemicolon : Token
  incrementors : List Token
  closeParen : Token
  body : List Token

namespace ForTokens

/-- The tokens of the header from the first semicolon on. -/
def afterInitializer (f : ForTokens) : List Token :=
  f.firstSemicolon :: (f.condition ++ f.secondSemicolon :: (f.incrementors ++ [f.closeParen]))

def all (f : ForTokens) : List Token :=
  f.forWord :: f.openParen :: (f.initializer ++ f.afterInitializer) ++ f.body

structure IsPunctuated (f : ForTokens) : Prop where
  forWord : f.forWord.kind = .keyword .kwFor
  openParen : f.openParen.kind = .punct .openParen
  firstSemicolon : f.firstSemicolon.kind = .punct .semicolon
  secondSemicolon : f.secondSemicolon.kind = .punct .semicolon
  closeParen : f.closeParen.kind = .punct .closeParen

/-- The header of these tokens with its clauses. -/
def header (f : ForTokens) (init? : Option ForInitializer) (cond? : Option Expr)
    (incrs : List Expr) : ForHeader :=
  ⟨f.forWord.leaf, f.openParen.leaf, init?, f.firstSemicolon.leaf, cond?, f.secondSemicolon.leaf,
    incrs, f.closeParen.leaf⟩

end ForTokens

section

variable (hend : env.endOfFile.kind = .endOfFile) (hlimit : depth ≤ env.maxDepth)
  (hroom : env.maxDepth < depth + n) {init? : Option ForInitializer} {cond? : Option Expr}
  {incrs : List Expr}

theorem InitializerClause.forall_expressions {es : List Expr}
    (h : InitializerClause env n depth rest ts (some (.expressions es))) :
    ∀ e ∈ es, e.isStatementExpression = true := by
  cases h with
  | expressions _ h =>
    obtain ⟨-, -, hs⟩ := h
    exact hs

theorem IncrementorClause.forall_expressions (h : IncrementorClause env n depth ts incrs) :
    ∀ e ∈ incrs, e.isStatementExpression = true := by
  cases h with
  | none => nofun
  | some h =>
    obtain ⟨-, -, hs⟩ := h
    exact hs

include hend hlimit hroom

/-- The incrementors are asked for only if the header does not end. -/
theorem clean_incrementors (h : IncrementorClause env n depth ts incrs)
    (hu : u.kind = .punct .closeParen) {g : List Expr → P β}
    (hg : Clean env depth (g incrs) (u :: us) b rest) :
    Clean env depth (do
      let kind ← currentKind
      if kind = .punct .closeParen then Pure.pure [] >>= g
      else forExpressions (rules n) true >>= g) (ts ++ u :: us) b rest := by
  cases h with
  | none => exact .currentKind (k := u.kind) rfl (.pos hu (.first (.pure []) hg))
  | some h =>
    have hends : u.kind.endsClause = true := by rw [hu]; rfl
    refine .of_state fun s hs hrest => ?_
    have hstarts : (Lookahead.kind (ts ++ u :: (us ++ rest))).startsExpression = true :=
      h.startsExpression hend hlimit hroom hends hs (hrest.trans (List.append_assoc ..))
    have hlist : Clean env depth (forExpressions (rules n) true) ts incrs (u :: us ++ rest) :=
      clean_forExpressions hend hlimit hroom h hu
    refine .currentKind (k := Lookahead.kind (ts ++ u :: (us ++ rest))) ?_
      (.neg (fun hk => ?_) (.bind hlist hg))
    · rw [List.append_assoc]
      exact kind_headD_append_cons ts
    · rw [hk] at hstarts
      cases hstarts

theorem clean_forHeader {f : ForTokens} (hf : f.IsPunctuated)
    (hi : InitializerClause env n depth (f.afterInitializer ++ rest) f.initializer init?)
    (hc : ConditionClause env n depth f.condition cond?)
    (hn : IncrementorClause env n depth f.incrementors incrs) :
    Clean env depth (forHeader (rules n))
      (f.forWord :: f.openParen :: (f.initializer ++ f.afterInitializer))
      (f.header init? cond? incrs) rest := by
  have hinit := clean_forInitializer? hend hlimit hroom hi hf.firstSemicolon
  have hcond : Clean env depth (forCondition? (rules n)) f.condition cond?
      (f.secondSemicolon :: (f.incrementors ++ [f.closeParen]) ++ rest) :=
    clean_forCondition? hend hlimit hroom hc hf.secondSemicolon
  refine .bind (.eat hf.forWord) (.bind (.eat hf.openParen) (.bind hinit ?_))
  refine .bind (clean_forSemicolon hf.firstSemicolon) (.bind hcond ?_)
  refine .bind (clean_forSemicolon hf.secondSemicolon) ?_
  refine clean_incrementors hend hlimit hroom hn hf.closeParen ?_
  refine .andThen (clean_forCloseParen hf.closeParen) ?_
  have hlast : Clean env depth (do
      checkStatementExpressions incrs
      Pure.pure (f.header init? cond? incrs)) [] (f.header init? cond? incrs) rest :=
    .first (clean_checkStatementExpressions hn.forall_expressions) (.pure _)
  match init?, hi with
  | none, _ => exact hlast
  | some (.declaration _), _ => exact hlast
  | some (.expressions _), hi =>
    exact .first (clean_checkStatementExpressions hi.forall_expressions) hlast

/-- A well-formed `for` is read without a report, from its tokens alone, and holds what its clauses
and its body are read as. -/
theorem forStatement_wellFormed {f : ForTokens} (hf : f.IsPunctuated)
    (hi : InitializerClause env n depth (f.afterInitializer ++ (f.body ++ rest)) f.initializer
      init?)
    (hc : ConditionClause env n depth f.condition cond?)
    (hn : IncrementorClause env n depth f.incrementors incrs) {body : Stmt}
    (hbody : Clean env depth (rules n).statement f.body body rest) (hs : Steady env depth s)
    (hrest : s.rest = f.all ++ rest) :
    ∃ t, forStatement (rules n) env s =
        (.forLoop ⟨f.forWord.start, max t.prevStop f.forWord.start⟩ (f.header init? cond? incrs)
          body, t) ∧
      t.rest = rest ∧ t.tooDeep = false ∧ t.diagnostics = s.diagnostics ∧ t.depth = depth := by
  have hparts : Clean env depth (do
      let header ← forHeader (rules n)
      let body ← (rules n).statement
      return (header, body)) f.all (f.header init? cond? incrs, body) rest :=
    .bind (clean_forHeader hend hlimit hroom hf hi hc hn) (.andThen hbody (.pure _))
  obtain ⟨t, hrun, ht⟩ := hparts s hs hrest
  refine ⟨t, ?_, ht⟩
  have hstart : (s.rest.headD env.endOfFile).start = f.forWord.start := by rw [hrest]; rfl
  have hsplit : forStatement (rules n) env s =
      ((do
        let (header, body) ← (do
          let header ← forHeader (rules n)
          let body ← (rules n).statement
          return (header, body))
        return Stmt.forLoop (← rangeFrom f.forWord.start) header body) : P Stmt) env s := by
    rw [← hstart]
    rfl
  rw [hsplit, bind_apply, hrun]
  rfl

end

/-- The tokens of `for(i++;i;i++);`. -/
def ForTokens.counting : ForTokens where
  forWord := ⟨.keyword .kwFor, ⟨0, 3⟩, "for", {}⟩
  openParen := ⟨.punct .openParen, ⟨3, 4⟩, "(", {}⟩
  initializer := [⟨.identifier, ⟨4, 5⟩, "i", {}⟩, ⟨.punct .plusPlus, ⟨5, 7⟩, "++", {}⟩]
  firstSemicolon := ⟨.punct .semicolon, ⟨7, 8⟩, ";", {}⟩
  condition := [⟨.identifier, ⟨8, 9⟩, "i", {}⟩]
  secondSemicolon := ⟨.punct .semicolon, ⟨9, 10⟩, ";", {}⟩
  incrementors := [⟨.identifier, ⟨10, 11⟩, "i", {}⟩, ⟨.punct .plusPlus, ⟨11, 13⟩, "++", {}⟩]
  closeParen := ⟨.punct .closeParen, ⟨13, 14⟩, ")", {}⟩
  body := [⟨.punct .semicolon, ⟨14, 15⟩, ";", {}⟩]

section

variable (e : Token) (budget start mid stop : Nat)

private theorem clauseExpr_counter :
    ClauseExpr ⟨e, budget, 8, false⟩ 9 0 [⟨.identifier, ⟨start, stop⟩, "i", {}⟩]
      (.identifier ⟨"i", ⟨start, stop⟩, false, false⟩) where
  notVoid := nofun
  reads t rest ht := by
    obtain ⟨k, range, text, flags⟩ := t
    refine .of_fields fun _ _ _ _ _ _ => ?_
    obtain rfl | rfl | rfl := TokenKind.endsClause_eq_true ht <;> cases rest <;>
      exact ⟨rfl, rfl, rfl, rfl, rfl⟩

private theorem clauseExpr_countUp :
    ClauseExpr ⟨e, budget, 8, false⟩ 9 0
      [⟨.identifier, ⟨start, mid⟩, "i", {}⟩, ⟨.punct .plusPlus, ⟨mid, stop⟩, "++", {}⟩]
      (.postfixUnary ⟨start, max stop start⟩ (.identifier ⟨"i", ⟨start, mid⟩, false, false⟩)
        ⟨.punct .plusPlus, ⟨mid, stop⟩, false⟩) where
  notVoid := nofun
  reads t rest ht := by
    obtain ⟨k, range, text, flags⟩ := t
    refine .of_fields fun _ _ _ _ _ _ => ?_
    obtain rfl | rfl | rfl := TokenKind.endsClause_eq_true ht <;> cases rest <;>
      exact ⟨rfl, rfl, rfl, rfl, rfl⟩

private theorem clean_emptyBody :
    Clean ⟨e, budget, 8, false⟩ 0 (rules 9).statement ForTokens.counting.body
      (.empty ⟨14, 15⟩) [] :=
  .of_fields fun _ _ _ _ _ _ => ⟨rfl, rfl, rfl, rfl, rfl⟩

end

/-- A counting loop with one expression in each clause. -/
theorem forStatement_counting :
    let stream := (scan "for(i++;i;i++);").1
    let env := Env.of stream 8
    let s := State.start stream #[] none
    let f := ForTokens.counting
    Steady env 0 s ∧ s.rest = f.all ∧
      ∃ t, forStatement (rules 9) env s =
          (.forLoop ⟨0, max t.prevStop 0⟩
            (f.header
              (some (.expressions [.postfixUnary ⟨4, 7⟩ (.identifier ⟨"i", ⟨4, 5⟩, false, false⟩)
                ⟨.punct .plusPlus, ⟨5, 7⟩, false⟩]))
              (some (.identifier ⟨"i", ⟨8, 9⟩, false, false⟩))
              [.postfixUnary ⟨10, 13⟩ (.identifier ⟨"i", ⟨10, 11⟩, false, false⟩)
                ⟨.punct .plusPlus, ⟨11, 13⟩, false⟩])
            (.empty ⟨14, 15⟩), t) ∧
        t.rest = [] ∧ t.tooDeep = false ∧ t.diagnostics = s.diagnostics ∧ t.depth = 0 := by
  intro stream env s f
  obtain ⟨_, hdivides⟩ := exists_divides_scan "for(i++;i;i++);"
  have hend : env.endOfFile.kind = .endOfFile := hdivides.kind
  have hsteady : Steady env 0 s := ⟨rfl, rfl, Nat.lt_succ_self _⟩
  have hrest : s.rest = f.all := by
    simp only [s, stream, State.start]
    rw [scan_ofList]
    clear hsteady hend hdivides s env stream
    decide +kernel
  have hf : f.IsPunctuated := ⟨rfl, rfl, rfl, rfl, rfl⟩
  exact ⟨hsteady, hrest, forStatement_wellFormed hend (Nat.zero_le _) (by decide) hf
    (.expressions rfl (.singleton (clauseExpr_countUp ..) rfl)) (.some (clauseExpr_counter ..))
    (.some (.singleton (clauseExpr_countUp ..) rfl)) (clean_emptyBody _ _) hsteady hrest⟩

end Parser

end CSharpFront
