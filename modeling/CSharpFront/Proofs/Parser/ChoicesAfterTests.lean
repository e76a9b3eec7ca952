import CSharpFront.Proofs.Parser.ForHeaders
import CSharpFront.Proofs.Parser.TypeTests
/-!
Choices after type tests. Where the type of a test leaves the `?` after it, the test and the choice
are read from their parts. Main statement: these are all choices that there are after tests.
-/

namespace CSharpFront.Parser

variable {α β : Type} {env : Env} {depth n : Nat} {p : P α} {post : α → Prop} {after : β → Prop}
  {ts us rest : List Token} {a : α} {f : α → P β}

/-! ### Reading without a report -/

/-- From every steady state before some tokens and the rest after them a parser comes to the rest
with a result of some property. It reports nothing and leaves the levels it has entered. -/
def Clears (env : Env) (depth : Nat) (p : P α) (ts : List Token) (post : α → Prop)
    (rest : List Token) : Prop :=
  ∀ s, Steady env depth s → s.rest = ts ++ rest → ∃ a t, p env s = (a, t) ∧ post a ∧
    t.rest = rest ∧ t.tooDeep = false ∧ t.diagnostics = s.diagnostics ∧ t.depth = depth

theorem Steady.of_suffix {s t : State} (hs : Steady env depth s) (hdeep : t.tooDeep = false)
    (hdepth : t.depth = n) (hrest : t.rest <:+ s.rest) : Steady env n t :=
  ⟨hdeep, hdepth, Nat.lt_of_le_of_lt hrest.length_le hs.budget⟩

namespace Clears

theorem of_clean (h : Clean env depth p ts a rest) : Clears env depth p ts (· = a) rest := by
  intro s hs hrest
  obtain ⟨t, hrun, ht⟩ := h s hs hrest
  exact ⟨a, t, hrun, rfl, ht⟩

theorem pure (h : post a) : Clears env depth (Pure.pure a) [] post rest :=
  fun s hs hrest => ⟨a, s, rfl, h, hrest, hs.tooDeep, rfl, hs.depth_eq⟩

theorem bind (hp : Clears env depth p ts post (us ++ rest))
    (hf : ∀ a, post a → Clears env depth (f a) us after rest) :
    Clears env depth (p >>= f) (ts ++ us) after rest := by
  intro s hs hrest
  obtain ⟨a, t, hrun, ha, ht, hdeep, hd, hdepth⟩ := hp s hs (hrest.trans (List.append_assoc ..))
  have hsuffix : t.rest <:+ s.rest := by
    rw [ht, hrest, List.append_assoc]
    exact List.suffix_append _ _
  obtain ⟨b, t', hrun', hb, ht', hdeep', hd', hdepth'⟩ :=
    hf a ha t (hs.of_suffix hdeep hdepth hsuffix) ht
  exact ⟨b, t', by rw [bind_apply, hrun, hrun'], hb, ht', hdeep', hd'.trans hd, hdepth'⟩

/-- A step whose result is known. -/
theorem known (hp : Clean env depth p ts a (us ++ rest))
    (hf : Clears env depth (f a) us after rest) :
    Clears env depth (p >>= f) (ts ++ us) after rest :=
  bind (of_clean hp) fun _ hb => hb ▸ hf

/-- A last step that takes nothing. -/
theorem andThen (hp : Clears env depth p ts post rest)
    (hf : ∀ a, post a → Clears env depth (f a) [] after rest) :
    Clears env depth (p >>= f) ts after rest := by
  have hall : Clears env depth (p >>= f) (ts ++ []) after rest := bind hp hf
  rwa [List.append_nil] at hall

/-- A step that only looks at the state. -/
theorem look (hp : ∀ s, (p env s).2 = s) (hf : ∀ a, Clears env depth (f a) ts after rest) :
    Clears env depth (p >>= f) ts after rest := by
  intro s hs hrest
  rw [bind_apply, hp]
  exact hf _ s hs hrest

theorem of_eq {q : P α} (h : ∀ s, s.rest = ts ++ rest → p env s = q env s)
    (hq : Clears env depth q ts post rest) : Clears env depth p ts post rest :=
  fun s hs hrest => h s hrest ▸ hq s hs hrest

theorem nested {refused : P α} (hlt : depth < env.maxDepth)
    (hp : Clears env (depth + 1) p ts post rest) :
    Clears env depth (nested refused p) ts post rest := by
  intro s hs hrest
  obtain ⟨a, t, hrun, ha, ht, hdeep, hd, hdepth⟩ :=
    hp (s.moveTo { s.toMoment with depth := s.depth + 1 })
      ⟨hs.tooDeep, congrArg (· + 1) hs.depth_eq, hs.budget⟩ hrest
  have hbody : Parser.nested refused p env s = (a, (leave 1 env t).2) := by
    rw [nested_of_lt hs.tooDeep (hs.depth_eq ▸ hlt), bind_apply, hrun]
    rfl
  exact ⟨a, _, hbody, ha, ht, hdeep, hd, Nat.sub_eq_of_eq_add hdepth⟩

end Clears

/-! ### The parts of a test and a choice -/

theorem clean_advance {u : Token} : Clean env depth advance [u] () rest := by
  intro s hs hrest
  exact ⟨s.moveTo ⟨rest, u.stop, s.depth, s.tooDeep, s.diagnostics⟩, advance_apply hrest, rfl,
    hs.tooDeep, rfl, hs.depth_eq⟩

theorem clean_accept {u : Token} {k : TokenKind} (h : u.kind = k) :
    Clean env depth (accept k) [u] true rest :=
  .currentKind h (.pos rfl (clean_advance.andThen (.pure true)))

/-- An operator that does not begin with `>` is one token. -/
theorem next_of_ne {u : Token} (h : u.kind ≠ .punct .greaterThan) (endOfFile : Token)
    (ts : List Token) : Operator.next endOfFile (u :: ts) = ⟨u.kind, u.range, 1⟩ := by
  cases ts with
  | nil => rfl
  | cons v vs => simp [Operator.next, Operator.joined?, h]

section

variable {u q : Token} {type : TypeSyntax} {operand : Expr} {start : Nat}

/-- A test after its operand. -/
theorem clears_testStep (hu : u.kind = .keyword .kwIs)
    (ht : Clean env depth ((rules n).type true) ts type rest) :
    Clears env depth (binaryStep (rules n) start operand ⟨u.kind, u.range, 1⟩ .relational) (u :: ts)
      (fun e => ∃ range, e = .typeTest range operand u.leaf type) rest := by
  refine .known (clean_advance.andThen (.pure ())) ?_
  rw [Token.leaf, hu]
  refine .andThen (.of_clean ht) ?_
  rintro _ rfl
  exact .look (fun _ => rfl) fun range => .pure ⟨range, rfl⟩

/-- A test ends a chain before a `?`. -/
theorem clears_testTail (hu : u.kind = .keyword .kwIs) (hq : q.kind = .punct .question)
    (hlt : depth < env.maxDepth)
    (ht : Clean env (depth + 1) ((rules (n + 1)).type true) ts type (q :: rest)) :
    Clears env depth ((rules (n + 2)).binaryTail 0 Precedence.coalescing.rank start operand)
      (u :: ts) (fun e => ∃ range, e = .typeTest range operand u.leaf type) (q :: rest) := by
  intro s hs hrest
  have hnext : nextOperator? Precedence.coalescing.rank env s =
      (some (⟨u.kind, u.range, 1⟩, .relational), s) := by
    rw [nextOperator?_apply, hrest, List.cons_append, next_of_ne (by simp [hu]), hu]
    rfl
  have hstep : Clears env (depth + 1) (binaryStep (rules (n + 1)) start operand _ .relational)
      (u :: ts) _ (q :: rest) := clears_testStep hu ht
  obtain ⟨e, t, hrun, ⟨range, rfl⟩, htrest, hdeep, hd, hdepth⟩ :=
    hstep (s.moveTo { s.toMoment with depth := s.depth + 1 })
      ⟨hs.tooDeep, congrArg (· + 1) hs.depth_eq, hs.budget⟩ hrest
  have hstop : nextOperator? Precedence.coalescing.rank env t = (none, t) := by
    rw [nextOperator?_apply, htrest, next_of_ne (by simp [hq]), hq]
    rfl
  have htail : (rules (n + 2)).binaryTail 0 Precedence.coalescing.rank start operand env s =
      (.typeTest range operand u.leaf type, (leave 1 env t).2) := by
    show binaryTailBody (rules (n + 1)) 0 Precedence.coalescing.rank start operand env s = _
    rw [binaryTailBody_of_some hnext, enter_of_lt hs.tooDeep (hs.depth_eq ▸ hlt), if_pos rfl,
      bind_apply, hrun]
    exact binaryTailBody_of_none hstop
  exact ⟨_, _, htail, ⟨range, rfl⟩, htrest, hdeep, hd, Nat.sub_eq_of_eq_add hdepth⟩

end

/-! ### The whole -/

/-- The tokens of `a is T ? b : c`. -/
structure TestTokens where
  operand : List Token
  isWord : Token
  type : List Token
  question : Token
  whenTrue : List Token
  colon : Token
  whenFalse : List Token

namespace TestTokens

def all (f : TestTokens) : List Token :=
  f.operand ++ f.isWord :: (f.type ++ f.question :: (f.whenTrue ++ f.colon :: f.whenFalse))

structure IsPunctuated (f : TestTokens) : Prop where
  isWord : f.isWord.kind = .keyword .kwIs
  question : f.question.kind = .punct .question
  colon : f.colon.kind = .punct .colon

end TestTokens

/-- The parts of a test and a choice after it are each read as themselves where they stand. -/
structure TestTokens.Reads (env : Env) (n depth : Nat) (f : TestTokens) (operand : Expr)
    (type : TypeSyntax) (whenTrue whenFalse : Expr) (rest : List Token) : Prop where
  operand : Clean env (depth + 1) (rules (n + 2)).unary f.operand operand
    (f.isWord :: (f.type ++ f.question :: (f.whenTrue ++ f.colon :: (f.whenFalse ++ rest))))
  type : Clean env (depth + 2) ((rules (n + 1)).type true) f.type type
    (f.question :: (f.whenTrue ++ f.colon :: (f.whenFalse ++ rest)))
  whenTrue : Clean env (depth + 1) (rules (n + 2)).expression f.whenTrue whenTrue
    (f.colon :: (f.whenFalse ++ rest))
  whenFalse : Clean env (depth + 1) (rules (n + 2)).expression f.whenFalse whenFalse rest

/-- The choice after a test, up to where its nodes stand. -/
def TestTokens.IsChoice (f : TestTokens) (operand : Expr) (type : TypeSyntax)
    (whenTrue whenFalse e : Expr) : Prop :=
  ∃ range testRange, e = .conditional range (.typeTest testRange operand f.isWord.leaf type)
    whenTrue whenFalse

section

variable {f : TestTokens} {operand whenTrue whenFalse : Expr} {type : TypeSyntax}

theorem clears_conditional (hf : f.IsPunctuated)
    (h : f.Reads env n depth operand type whenTrue whenFalse rest)
    (hlt : depth + 1 < env.maxDepth) : Clears env (depth + 1) (conditional (rules (n + 2))) f.all
      (f.IsChoice operand type whenTrue whenFalse) rest := by
  have htokens : f.all = (f.operand ++ f.isWord :: f.type) ++
      f.question :: (f.whenTrue ++ f.colon :: f.whenFalse) := by
    simp [TestTokens.all]
  rw [htokens]
  have htest : Clears env (depth + 1) (binary (rules (n + 2)) Precedence.coalescing.rank)
      (f.operand ++ f.isWord :: f.type)
      (fun e => ∃ range, e = .typeTest range operand f.isWord.leaf type)
      (f.question :: (f.whenTrue ++ f.colon :: f.whenFalse) ++ rest) := by
    refine .look (fun _ => rfl) fun _ => .known (a := operand) ?_ ?_
    · simpa using h.operand
    · refine clears_testTail hf.isWord hf.question hlt ?_
      simpa using h.type
  refine .look (fun _ => rfl) fun start => .bind htest ?_
  rintro _ ⟨testRange, rfl⟩
  refine .known (clean_accept hf.question) ?_
  rw [if_pos rfl]
  refine .known (a := whenTrue) (by simpa using h.whenTrue) (.known (.eat hf.colon) ?_)
  refine .andThen (.of_clean h.whenFalse) ?_
  rintro _ rfl
  exact .look (fun _ => rfl) fun range => .pure ⟨range, testRange, rfl⟩

/-- No assignment follows at the end of the text. -/
theorem clears_assignment (hend : env.endOfFile.kind = .endOfFile) (hf : f.IsPunctuated)
    (h : f.Reads env n depth operand type whenTrue whenFalse []) (hlt : depth + 1 < env.maxDepth) :
    Clears env (depth + 1) (assignment (rules (n + 2))) f.all
      (f.IsChoice operand type whenTrue whenFalse) [] := by
  refine .look (fun _ => rfl) fun start => .andThen (clears_conditional hf h hlt) fun e he => ?_
  refine .of_eq (q := Pure.pure e) (fun s hs => ?_) (.pure he)
  show (if (Operator.next env.endOfFile s.rest).kind.isAssignment = true then _ else _ : P Expr)
    env s = _
  rw [if_neg]
  rw [hs]
  show ¬ env.endOfFile.kind.isAssignment = true
  rw [hend]
  decide

/-- A name that no access, call or step follows is an operand. -/
theorem clears_name {t u : Token} (ht : t.kind = .identifier)
    (hawait : ¬ t.isContextual "await" = true) (hu : continuesOperand u.kind = false)
    (hlt : depth < env.maxDepth) :
    Clears env depth (rules (n + 2)).unary [t] (fun _ => True) (u :: rest) := by
  have hprimary : Clears env (depth + 1) (primary (rules (n + 1))) [t] (fun _ => True)
      (u :: rest) := by
    intro s hs hrest
    have hcurrent : current env s = (t, s) := by
      show (s.rest.headD env.endOfFile, s) = _
      rw [hrest]
      rfl
    have hrun : primary (rules (n + 1)) env s =
        (advance >>= fun _ => identifierOf t >>= fun i => Pure.pure (.identifier i) : P Expr)
          env s := by
      rw [primary, bind_apply, hcurrent]
      simp only [ht]
      rfl
    rw [hrun, bind_apply, advance_apply hrest]
    exact ⟨_, _, rfl, trivial, rfl, hs.tooDeep, rfl, hs.depth_eq⟩
  have htail (operand : Expr) : Clears env (depth + 1)
      ((rules (n + 1)).postfixTail 0 t.start operand) [] (fun _ => True) (u :: rest) := by
    intro s hs hrest
    have hrun : (rules (n + 1)).postfixTail 0 t.start operand env s =
        (operand, (leave 0 env s).2) := by
      show (if continuesOperand (s.rest.headD env.endOfFile).kind then _ else _ : P Expr)
        env s = _
      rw [if_neg]
      · rfl
      · rw [hrest]
        exact Bool.eq_false_iff.mp hu
    exact ⟨_, _, hrun, trivial, hrest, hs.tooDeep, rfl, hs.depth_eq⟩
  refine .nested hlt (.of_eq (fun s hs => ?_) (hprimary.andThen fun operand _ => htail operand))
  have hhead : s.rest.headD env.endOfFile = t := by
    rw [hs]
    rfl
  rw [← hhead] at ht hawait ⊢
  exact unaryBody_of_primary (by rw [ht]; rfl) hawait (by rw [ht]; decide)

/-- A query begins with the word `from` and a type or a name after it. -/
theorem startsQuery_cons {t u : Token} (h : Lookahead.startsQuery (t :: u :: ts) = true) :
    t.isContextual "from" = true ∧ continuesOperand u.kind = false ∧ u.kind ≠ .keyword .kwIs := by
  obtain ⟨hfrom, hnext⟩ := Bool.and_eq_true_iff.mp h
  refine ⟨hfrom, ?_⟩
  rcases Bool.or_eq_true_iff.mp hnext with hnext | hnext
  · have hspecial : u.kind.isPredefinedType = true := hnext
    cases hk : u.kind with
    | keyword k =>
      rw [hk] at hspecial
      refine ⟨rfl, ?_⟩
      rintro ⟨rfl⟩
      cases hspecial
    | _ => rw [hk] at hspecial; cases hspecial
  · have hname : u.kind = .identifier := eq_of_beq (Bool.and_eq_true_iff.mp hnext).1
    rw [hname]
    exact ⟨rfl, nofun⟩

/-- Where an operand stands before `is`, no query begins: its first name would be all of it. -/
theorem startsQuery_eq_false {s : State} {u : Token} (hs : Steady env depth s)
    (hlt : depth < env.maxDepth) (hu : u.kind = .keyword .kwIs)
    (h : Clean env depth (rules (n + 2)).unary ts operand (u :: rest))
    (hrest : s.rest = ts ++ u :: rest) : Lookahead.startsQuery s.rest = false := by
  refine Bool.eq_false_iff.mpr fun hquery => ?_
  rw [hrest] at hquery
  match ts, h with
  | [], _ =>
    have hfrom : u.isContextual "from" = true := (Bool.and_eq_true_iff.mp hquery).1
    rw [Token.kind_of_isContextual hfrom] at hu
    cases hu
  | [t], _ => exact (startsQuery_cons hquery).2.2 hu
  | t :: v :: ts, h =>
    obtain ⟨hfrom, hv, -⟩ : t.isContextual "from" = true ∧ continuesOperand v.kind = false ∧ _ :=
      startsQuery_cons hquery
    have hawait : ¬ t.isContextual "await" = true := fun h => by
      rw [Token.isContextual, eq_of_beq hfrom] at h
      cases h
    have hname : Clears env depth (rules (n + 2)).unary [t] (fun _ => True)
        (v :: (ts ++ u :: rest)) :=
      clears_name (Token.kind_of_isContextual hfrom) hawait hv hlt
    obtain ⟨_, t', hrun, -, ht', -⟩ := hname s hs hrest
    obtain ⟨t'', hrun', ht'', -⟩ := h s hs hrest
    obtain ⟨-, rfl⟩ := Prod.mk.inj (hrun.symm.trans hrun')
    have hlength := congrArg List.length (ht'.symm.trans ht'')
    simp only [List.length_cons, List.length_append] at hlength
    omega

/-- A test and a choice after it are read as that if each part is read as itself. -/
theorem clears_choice (hend : env.endOfFile.kind = .endOfFile) (hf : f.IsPunctuated)
    (h : f.Reads env n depth operand type whenTrue whenFalse []) (hlt : depth + 1 < env.maxDepth) :
    Clears env depth (rules (n + 3)).expression f.all
      (f.IsChoice operand type whenTrue whenFalse) [] := by
  refine .nested (by omega) fun s hs hrest => ?_
  have hquery : Lookahead.startsQuery s.rest = false :=
    startsQuery_eq_false hs hlt hf.isWord h.operand (by simpa [TestTokens.all] using hrest)
  have hrun : expressionBody (rules (n + 2)) env s = assignment (rules (n + 2)) env s := by
    show (if Lookahead.startsQuery s.rest = true then _ else _ : P Expr) env s = _
    rw [if_neg (Bool.eq_false_iff.mp hquery)]
  rw [hrun]
  exact clears_assignment hend hf h hlt s hs hrest

end

/-- Some tokens are read as a whole, and nothing is reported. -/
def ReadsAlone (env : Env) (p : P α) (ts : List Token) (a : α) : Prop :=
  ∃ t, p env { rest := ts } = (a, t) ∧ t.rest = [] ∧ t.diagnostics = #[]

/-- Choices after tests. A choice that is read has no test as its condition whose type, as it
stands, would take the `?`. If each part is read as itself where it stands, and so the type leaves
the `?`, then the choice is read. -/
theorem parseExpression_choices (hend : env.endOfFile.kind = .endOfFile) :
    (∀ s range c a b,
      (parseExpression env s).1 = .conditional range c a b → c.takesQuestion = false) ∧
    ∀ (n : Nat) (f : TestTokens) (operand whenTrue whenFalse : Expr) (type : TypeSyntax),
      env.maxDepth = n + 2 → f.all.length < env.budget → f.IsPunctuated →
      f.Reads env n 0 operand type whenTrue whenFalse [] →
      ∃ e, f.IsChoice operand type whenTrue whenFalse e ∧
        ReadsAlone env parseExpression f.all e := by
  refine ⟨fun s range c a b h => condition_parseExpression hend h, ?_⟩
  intro n f operand whenTrue whenFalse type hdepth hbudget hf h
  have hbound : env.bound = n + 3 := congrArg (· + 1) hdepth
  have hsteady : Steady env 0 { rest := f.all } := ⟨rfl, rfl, hbudget⟩
  obtain ⟨e, t, hrun, he, ht, -, hd, -⟩ :=
    clears_choice hend hf h (by omega) { rest := f.all } hsteady (List.append_nil _).symm
  exact ⟨e, he, t, by rw [parseExpression, hbound, hrun], ht, hd⟩

/-- The tokens of `a is T[]?b:c`. -/
def TestTokens.ofArray : TestTokens where
  operand := [⟨.identifier, ⟨0, 1⟩, "a", {}⟩]
  isWord := ⟨.keyword .kwIs, ⟨2, 4⟩, "is", {}⟩
  type := [⟨.identifier, ⟨5, 6⟩, "T", {}⟩, ⟨.punct .openBracket, ⟨6, 7⟩, "[", {}⟩,
    ⟨.punct .closeBracket, ⟨7, 8⟩, "]", {}⟩]
  question := ⟨.punct .question, ⟨8, 9⟩, "?", {}⟩
  whenTrue := [⟨.identifier, ⟨9, 10⟩, "b", {}⟩]
  colon := ⟨.punct .colon, ⟨10, 11⟩, ":", {}⟩
  whenFalse := [⟨.identifier, ⟨11, 12⟩, "c", {}⟩]

/-- A test of an array type and the choice after it. -/
theorem parseExpression_choices_ofArray :
    let env : Env := ⟨⟨.endOfFile, ⟨12, 12⟩, "", {}⟩, 16, 8, false⟩
    let test : Expr := .typeTest ⟨0, 8⟩ (.identifier ⟨"a", ⟨0, 1⟩, false, false⟩)
      ⟨.keyword .kwIs, ⟨2, 4⟩, false⟩ (.array ⟨5, 8⟩ (.name ⟨"T", ⟨5, 6⟩, false, false⟩) 1)
    test.takesQuestion = false ∧
      ∃ e, TestTokens.ofArray.IsChoice (.identifier ⟨"a", ⟨0, 1⟩, false, false⟩)
          (.array ⟨5, 8⟩ (.name ⟨"T", ⟨5, 6⟩, false, false⟩) 1)
          (.identifier ⟨"b", ⟨9, 10⟩, false, false⟩) (.identifier ⟨"c", ⟨11, 12⟩, false, false⟩) e ∧
        ReadsAlone env parseExpression TestTokens.ofArray.all e := by
  intro env test
  obtain ⟨hcondition, hread⟩ := @parseExpression_choices env rfl
  refine ⟨hcondition { rest := TestTokens.ofArray.all } ⟨0, 12⟩ test _ _ rfl, ?_⟩
  refine hread 6 .ofArray _ _ _ _ rfl (by decide) ⟨rfl, rfl, rfl⟩ ⟨?_, ?_, ?_, ?_⟩
  all_goals exact Clean.of_fields fun _ _ _ _ _ _ => ⟨rfl, rfl, rfl, rfl, rfl⟩

/-- The tokens of `a is T?b:c`. -/
def TestTokens.ofName : TestTokens where
  operand := [⟨.identifier, ⟨0, 1⟩, "a", {}⟩]
  isWord := ⟨.keyword .kwIs, ⟨2, 4⟩, "is", {}⟩
  type := [⟨.identifier, ⟨5, 6⟩, "T", {}⟩]
  question := ⟨.punct .question, ⟨6, 7⟩, "?", {}⟩
  whenTrue := [⟨.identifier, ⟨7, 8⟩, "b", {}⟩]
  colon := ⟨.punct .colon, ⟨8, 9⟩, ":", {}⟩
  whenFalse := [⟨.identifier, ⟨9, 10⟩, "c", {}⟩]

/-- A test of a type with a plain name is none, although each part is read for itself: the `?` goes
to the type, and the expression ends before the `:`. -/
theorem parseExpression_loses_choice :
    ¬ ∀ (env : Env) (f : TestTokens) (operand whenTrue whenFalse : Expr) (type : TypeSyntax),
      env.endOfFile.kind = .endOfFile → f.all.length < env.budget → f.IsPunctuated →
      ReadsAlone env (rules env.bound).unary f.operand operand →
      ReadsAlone env ((rules env.bound).type true) f.type type →
      (∀ range element, type ≠ .nullable range element) →
      ReadsAlone env (rules env.bound).expression f.whenTrue whenTrue →
      ReadsAlone env (rules env.bound).expression f.whenFalse whenFalse →
      (parseExpression env { rest := f.all }).2.tooDeep = false →
      ∃ range testRange, ReadsAlone env (rules env.bound).expression f.all
        (.conditional range
          (.typeTest testRange operand ⟨f.isWord.kind, f.isWord.range, false⟩ type)
          whenTrue whenFalse) := by
  intro h
  let env : Env := ⟨⟨.endOfFile, ⟨10, 10⟩, "", {}⟩, 8, 8, false⟩
  obtain ⟨_, _, t, hrun, -⟩ := h env .ofName _ _ _ _ rfl (by decide) ⟨rfl, rfl, rfl⟩
    ⟨_, rfl, rfl, rfl⟩ ⟨_, rfl, rfl, rfl⟩ nofun ⟨_, rfl, rfl, rfl⟩ ⟨_, rfl, rfl, rfl⟩ rfl
  have htest : ∃ range operand word type,
      (parseExpression env { rest := TestTokens.ofName.all }).1 =
        .typeTest range operand word type := ⟨_, _, _, _, rfl⟩
  obtain ⟨_, _, _, _, htest⟩ := htest
  have hchoice := congrArg Prod.fst hrun
  cases htest.symm.trans hchoice

end CSharpFront.Parser
