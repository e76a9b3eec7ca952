import CSharpFront.Proofs.Parser.Reads
/-!
Reading expressions. What an expression is read as depends on where it stands, so there is one
property for each place. An operand with accesses is read from its first word on, and each access is
one more step of the same tail; so of such an operand it is said that its words are read and a tail
follows. The left operand of an operator is read as a chain that goes on with it.
-/

namespace CSharpFront

/-! ## Operands -/

section

namespace TokenKind

/-- Whether a whole expression ends before a token. -/
def endsWhole : TokenKind → Bool
  | .endOfFile => true
  | .punct p =>
    match p with
    | .closeParen | .closeBracket | .comma | .colon => true
    | _ => false
  | _ => false

/-- Whether an operand, with the accesses after it, ends before a token or a right shift. -/
def followsOperand (k : TokenKind) : Bool :=
  k.endsWhole || k == .punct .question || (Precedence.ofOperator? k).isSome || k.isAssignment

theorem followsOperand_spec {k : TokenKind} (h : k.followsOperand = true) :
    Parser.continuesOperand k.first = false ∧ k.first.followsCast = false := by
  cases k with
  | punct p => cases p <;> first | exact ⟨rfl, rfl⟩ | cases h
  | keyword k => cases k <;> first | exact ⟨rfl, rfl⟩ | cases h
  | endOfFile => exact ⟨rfl, rfl⟩
  | _ => cases h

theorem endsWhole_spec {k : TokenKind} (h : k.endsWhole = true) :
    k.followsOperand = true ∧ k.first ≠ .punct .question ∧ Precedence.ofOperator? k = none ∧
      k.isAssignment = false := by
  cases k with
  | punct p => cases p <;> first | exact ⟨rfl, by decide, rfl, rfl⟩ | cases h
  | endOfFile => exact ⟨rfl, by decide, rfl, rfl⟩
  | _ => cases h

theorem isArgumentModifier_of_beginsOperand {k : TokenKind} (h : k.beginsOperand = true) :
    k.isArgumentModifier = false := by
  cases k with
  | keyword k => cases k <;> first | rfl | exact absurd h (by decide)
  | _ => rfl

end TokenKind

namespace Expr

theorem reach_pos (e : Expr) : 0 < e.reach := by
  cases e <;> simp only [reach] <;> omega

theorem accesses_lt_reach (e : Expr) : e.accesses < e.reach := by
  cases e <;> simp only [reach, accesses] <;> omega

end Expr

theorem headD_kindsOf (ws : List Lexeme) :
    (kindsOf ws).headD .endOfFile = (headKind ws).first := by
  cases ws with
  | nil => rfl
  | cons w ws =>
    rw [kindsOf_cons, headKind_cons, TokenKind.first]
    unfold TokenKind.pieces
    split <;> rfl

namespace Parser

variable {env : Env}

/-! ### What is read where -/

/-- An operand before what continues it: it is read up to there, and then its chain goes on. -/
def ReadsSpine (env : Env) (e : Expr) : Prop :=
  ∀ n ws outcome, e.reach ≤ n →
    (e.isNameInParens = true → (headKind ws).first.followsCast = false) →
    (∀ start e', e.Alike e' →
      ComesTo env (n - e.accesses) ws
        ((rules (n - e.accesses)).postfixTail e.accesses start e') outcome) →
    ComesTo env n (e.words ++ ws) (unaryBody (rules n)) outcome

def ReadsUnary (env : Env) (e : Expr) : Prop :=
  ∀ n ws, e.reach < n → (headKind ws).followsOperand = true →
    Reads env n (e.words ++ ws) (rules n).unary n ws e.Alike

/-- The same of a chain of operators. -/
def ReadsChain (env : Env) (e : Expr) : Prop :=
  ∀ n least ws outcome, e.reach < n → least < e.tightness →
    (headKind ws).followsOperand = true →
    (∀ p, Precedence.ofOperator? (headKind ws) = some p → p.leftRank < e.tightness) →
    (∀ start e', e.Alike e' →
      ComesTo env (n - e.operators) ws
        ((rules (n - e.operators)).binaryTail e.operators least start e') outcome) →
    ComesTo env n (e.words ++ ws) (binary (rules n) least) outcome

def ReadsWhole (env : Env) (e : Expr) : Prop :=
  ∀ n ws, e.levels < n → (headKind ws).endsWhole = true →
    Reads env n (e.words ++ ws) (rules n).expression n ws e.Alike

/-! ### Operands -/

section

variable {n : Nat} {ws vs : List Lexeme} {w : Lexeme} {e : Expr}
  {outcome : Array Diagnostic → Expr × State → Prop}

/-- What begins like an operand without an operator before it, and not like a cast, is one. -/
theorem comesTo_unaryBody (ha : env.inAsync = false) (hw : w.kind.pieces = [w.kind])
    (hplain : isPrefixOperator w.kind = false)
    (hcast : w.kind = .punct .openParen → ∀ reported s, Before reported env n (w :: ws) s →
      Lookahead.startsCast env.maxDepth s.rest.tail = false)
    (h : ∀ start, ComesTo env n (w :: ws) (do
      let operand ← primary (rules n)
      (rules n).postfixTail 0 start operand) outcome) :
    ComesTo env n (w :: ws) (unaryBody (rules n)) outcome := by
  refine (reads_current hw).andThen fun t ht => ?_
  have hnone : ¬ isPrefixOperator t.kind = true := by
    rw [ht.kind, hplain]
    simp
  rw [if_neg hnone]
  refine Reads.read.andThen ?_
  rintro env' rfl
  have hsync : ¬ (env'.inAsync = true ∧ t.isContextual "await" = true) := by simp [ha]
  rw [if_neg hsync]
  refine Reads.read.andThen ?_
  rintro env' rfl
  refine Reads.get.andThen fun s ⟨reported, hs⟩ => ?_
  have hnocast : ¬ (t.kind = .punct .openParen ∧
      Lookahead.startsCast env'.maxDepth s.rest.tail = true) := by
    rintro ⟨hparen, hstarts⟩
    rw [hcast (ht.kind ▸ hparen) reported s hs] at hstarts
    cases hstarts
  rw [if_neg hnocast]
  exact h t.start

theorem readsSpine_identifier (ha : env.inAsync = false) {i : Identifier}
    (hi : i.isMissing = false) : ReadsSpine env (.identifier i) := by
  intro n ws outcome _ _ htail
  refine comesTo_unaryBody ha rfl rfl (by simp) fun start => ?_
  refine Reads.andThen ?_ (htail start)
  refine (reads_current rfl).bind fun t ht => ?_
  have hk : t.kind = .identifier := ht.kind
  simp only [hk, literalKind?, TokenKind.special?]
  refine (reads_advance rfl).bind fun _ _ => ?_
  exact (reads_identifierOf hi ht).bind fun j hj => .pure (.identifier hj)

theorem readsSpine_literal (ha : env.inAsync = false) (l : Literal) :
    ReadsSpine env (.literal l) := by
  intro n ws outcome _ _ htail
  have hsingle : l.word.kind.pieces = [l.word.kind] := by
    obtain ⟨range, kind, text, flags⟩ := l
    cases kind <;> rfl
  have hkind : literalKind? l.word.kind = some l.kind := l.kind.literalKind?_token
  have hword : isPrefixOperator l.word.kind = false ∧ l.word.kind ≠ .punct .openParen ∧
      l.word.kind ≠ .identifier := by
    obtain ⟨range, kind, text, flags⟩ := l
    cases kind <;> exact ⟨rfl, nofun, nofun⟩
  refine comesTo_unaryBody ha hsingle hword.1 (fun hk => absurd hk hword.2.1) fun start => ?_
  refine Reads.andThen ?_ (htail start)
  refine (reads_current hsingle).bind fun t ht => ?_
  have htext : l.text = t.text := by
    rw [ht.text, Scanner.tokenText, if_neg fun hk => hword.2.2 hk.1]
    exact String.ofList_toList.symm
  simp only [ht.kind, hkind]
  refine (reads_advance hsingle).bind fun _ _ => ?_
  exact .pure (.literal ⟨rfl, htext, ht.flags.symm⟩)

theorem readsSpine_thisWord (ha : env.inAsync = false) (r : Range) :
    ReadsSpine env (.thisWord r) := by
  intro n ws outcome _ _ htail
  refine comesTo_unaryBody ha rfl rfl (by simp) fun start => ?_
  refine Reads.andThen ?_ (htail start)
  refine (reads_current rfl).bind fun t ht => ?_
  have hk : t.kind = .keyword .kwThis := ht.kind
  simp only [hk, literalKind?, TokenKind.special?, SpecialType.ofKeyword?]
  exact (reads_advance rfl).bind fun _ _ => .pure (.thisWord _ _)

/-- An expression in parentheses is an operand: no cast begins there. -/
theorem comesTo_parenthesized (ha : env.inAsync = false) (h : e.Printable) (r : Range)
    (hname : (Expr.parenthesized r e).isNameInParens = true →
      (headKind ws).first.followsCast = false)
    (hprimary : ∀ start, ComesTo env n (.mark .openParen :: (e.words ++ .mark .closeParen :: ws))
      (do
        let operand ← primary (rules n)
        (rules n).postfixTail 0 start operand) outcome) :
    ComesTo env n ((Expr.parenthesized r e).words ++ ws) (unaryBody (rules n)) outcome := by
  have hwords : (Expr.parenthesized r e).words ++ ws =
      .mark .openParen :: (e.words ++ .mark .closeParen :: ws) := by simp
  rw [hwords]
  refine comesTo_unaryBody ha rfl rfl (fun _ reported s hs => ?_) hprimary
  obtain ⟨t, ts, hrest, -, hts⟩ := hs.exists_cons rfl
  have hkinds : ts.map (·.kind) = kindsOf e.words ++ .punct .closeParen :: kindsOf ws := by
    rw [hts.map_kind]
    simp [TokenKind.pieces]
  have hspaced := hs.spaced
  rw [hrest] at hspaced ⊢
  refine h.startsCast hkinds (hspaced.suffix (List.suffix_cons t ts)) ?_ _
  rw [headD_kindsOf]
  exact hname

theorem readsSpine_parenthesized (ha : env.inAsync = false) {e : Expr} (h : e.Printable)
    (hwhole : ReadsWhole env e) (r : Range) : ReadsSpine env (.parenthesized r e) := by
  intro n ws outcome hn hname htail
  have hlevels : e.levels < n := by
    simp only [Expr.reach] at hn
    rw [Expr.levels]
    omega
  refine comesTo_parenthesized ha h r hname fun start => Reads.andThen ?_ (htail start)
  refine (reads_current rfl).bind fun t ht => ?_
  have hk : t.kind = .punct .openParen := ht.kind
  simp only [hk, literalKind?, TokenKind.special?]
  refine (reads_advance rfl).bind fun _ _ => ?_
  refine (hwhole n _ hlevels rfl).bind fun e' he' => ?_
  refine (reads_eat (w := .mark .closeParen) rfl).bind fun _ _ => ?_
  exact (reads_rangeFrom _).bind fun _ _ => .pure (.parenthesized _ _ he')

/-- An operand goes on with an access, a call or a step. -/
theorem readsSpine_step {f : Expr} (he : ReadsSpine env e) (hwords : f.words = e.words ++ w :: vs)
    (haccesses : f.accesses = e.accesses + 1) (hreach : e.reach ≤ f.reach)
    (hname : e.isNameInParens = true → w.kind.followsCast = false)
    (hw : w.kind.pieces = [w.kind]) (hcontinues : continuesOperand w.kind = true)
    (hstep : ∀ n ws start e', f.reach ≤ n + f.accesses → e.Alike e' →
      Reads env n (w :: (vs ++ ws)) (postfixStep (rules n) start e') n ws f.Alike) :
    ReadsSpine env f := by
  intro n ws outcome hn _ htail
  have hlt := f.accesses_lt_reach
  obtain ⟨k, hk⟩ : ∃ k, n = k + 1 + f.accesses := ⟨n - f.accesses - 1, by omega⟩
  -- the step takes one of the levels that the accesses before it left
  have hbefore : n - e.accesses = k + 2 := by omega
  have hafter : n - f.accesses = k + 1 := by omega
  rw [hafter] at htail
  have hsplit : f.words ++ ws = e.words ++ w :: (vs ++ ws) := by simp [hwords]
  rw [hsplit]
  refine he n _ outcome (Nat.le_trans hreach hn) ?_ fun start e' he' => ?_
  · rw [headKind_cons, TokenKind.first, hw]
    exact hname
  · rw [hbefore]
    refine (reads_currentKind hw).andThen ?_
    rintro _ rfl
    rw [if_pos hcontinues]
    refine Reads.enter.andThen ?_
    rintro _ rfl
    refine (hstep (k + 1) ws start e' (by omega) he').andThen fun f' hf' => ?_
    rw [← haccesses]
    exact htail start f' hf'

/-- Marks that continue an operand and leave a name in parentheses before them a name. -/
structure ContinuesName (q : Punctuator) : Prop where
  pieces : (TokenKind.punct q).pieces = [.punct q]
  continues : continuesOperand (.punct q) = true
  followsCast : (TokenKind.punct q).followsCast = false

theorem continuesName_of_access {q : Punctuator} (hq : q = .dot ∨ q = .questionDot) :
    ContinuesName q := by
  rcases hq with rfl | rfl <;> exact ⟨rfl, rfl, rfl⟩

theorem continuesName_of_step {q : Punctuator} (hq : q = .plusPlus ∨ q = .minusMinus) :
    ContinuesName q := by
  rcases hq with rfl | rfl <;> exact ⟨rfl, rfl, rfl⟩

theorem readsSpine_memberAccess (he : ReadsSpine env e) (r s : Range) {q : Punctuator}
    (hq : q = .dot ∨ q = .questionDot) {i : Identifier} (hi : i.isMissing = false) :
    ReadsSpine env (.memberAccess r e ⟨.punct q, s, false⟩ i) := by
  have hmark := continuesName_of_access hq
  refine readsSpine_step (w := .mark q) he rfl rfl ?_ (fun _ => hmark.followsCast) hmark.pieces
    hmark.continues ?_
  · simp only [Expr.reach]; omega
  intro n ws start e' _ he'
  have htake : Reads env n (.mark q :: i.word :: ws) (do
      let operator ← take
      let name ← identifier
      return .memberAccess (← rangeFrom start) e' operator name) n ws
      (Expr.memberAccess r e ⟨.punct q, s, false⟩ i).Alike := by
    refine (reads_take hmark.pieces).bind fun o ho => ?_
    refine (reads_identifier hi).bind fun j hj => ?_
    exact (reads_rangeFrom start).bind fun _ _ => .pure (.memberAccess _ _ he' (ho s) hj)
  refine (reads_currentKind hmark.pieces).bind ?_
  rintro _ rfl
  rcases hq with rfl | rfl
  · exact htake
  · exact htake

theorem readsSpine_postfixUnary (he : ReadsSpine env e) (r s : Range) {q : Punctuator}
    (hq : q = .plusPlus ∨ q = .minusMinus) :
    ReadsSpine env (.postfixUnary r e ⟨.punct q, s, false⟩) := by
  have hmark := continuesName_of_step hq
  refine readsSpine_step (w := .mark q) he rfl rfl ?_ (fun _ => hmark.followsCast) hmark.pieces
    hmark.continues ?_
  · simp only [Expr.reach]; omega
  intro n ws start e' _ he'
  have htake : Reads env n (.mark q :: ws) (do
      let operator ← take
      return .postfixUnary (← rangeFrom start) e' operator) n ws
      (Expr.postfixUnary r e ⟨.punct q, s, false⟩).Alike := by
    refine (reads_take hmark.pieces).bind fun o ho => ?_
    exact (reads_rangeFrom start).bind fun _ _ => .pure (.postfixUnary _ _ he' (ho s))
  refine (reads_currentKind hmark.pieces).bind ?_
  rintro _ rfl
  rcases hq with rfl | rfl
  · exact htake
  · exact htake

/-! ### Arguments -/

theorem beginsOperand_headKind (h : e.Printable) (ws : List Lexeme) :
    (headKind (e.words ++ ws)).first.beginsOperand = true := by
  obtain ⟨k, hk, hbegins⟩ := h.isOperand.head
  obtain ⟨rest, hrest⟩ := List.head?_eq_some_iff.mp hk
  rw [← headD_kindsOf, kindsOf_append, hrest]
  exact hbegins

/-- An argument of a printed expression begins with no word that says how it is passed. -/
theorem comesTo_argument (he : env.endOfFile.kind = .endOfFile) (h : e.Printable)
    (hexpression : ComesTo env n (e.words ++ ws) (rules n).expression outcome) :
    ComesTo env n (e.words ++ ws) (argument (rules n)) outcome := by
  have hbegins := beginsOperand_headKind h ws
  refine (reads_currentKind_any he).andThen fun k hk => ?_
  have hplain : ¬ k.isArgumentModifier = true := by
    rw [hk, TokenKind.isArgumentModifier_of_beginsOperand hbegins]
    simp
  rw [if_neg hplain]
  exact hexpression

theorem reads_argument (he : env.endOfFile.kind = .endOfFile) (h : e.Printable)
    (hwhole : ReadsWhole env e) (hn : e.levels < n) (hws : (headKind ws).endsWhole = true) :
    Reads env n (e.words ++ ws) (argument (rules n)) n ws e.Alike :=
  comesTo_argument he h (hwhole n ws hn hws)

theorem endsWhole_moreWords (as : List Expr) (hws : (headKind ws).endsWhole = true) :
    (headKind (Expr.moreWords as ++ ws)).endsWhole = true := by
  cases as with
  | nil => exact hws
  | cons a as => rfl

/-- One round of a loop that collects items, the last first. -/
def collect {α : Type} (item : P (Option α)) (items : List α) : P (ForInStep (List α)) := do
  match ← item with
  | some a => return .yield (a :: items)
  | none => return .done items

theorem many_eq {α : Type} (item : P (Option α)) : many item = (do
    let items ← loop [] (collect item)
    return items.reverse) :=
  rfl

/-- The loop collects the items of the words in their order, by induction on their list. -/
theorem reads_collect {item : P (Option Expr)} {as : List Expr} (acc : List Expr) {fuel : Nat}
    (hnone : Reads env n ws item n ws (· = none))
    (hsome : ∀ a ∈ as, ∀ vs, (headKind vs).endsWhole = true →
      Reads env n (.mark .comma :: (a.words ++ vs)) item n vs
        fun b? => ∃ b, b? = some b ∧ a.Alike b)
    (hws : (headKind ws).endsWhole = true) (hfuel : as.length < fuel) :
    Reads env n (Expr.moreWords as ++ ws) (iterate (collect item) fuel acc) n ws
      fun items => ∃ bs, items = bs.reverse ++ acc ∧ List.Forall₂ Expr.Alike as bs := by
  induction as generalizing acc fuel with
  | nil =>
    obtain ⟨fuel, rfl⟩ : ∃ k, fuel = k + 1 := ⟨fuel - 1, by omega⟩
    have hdone : Reads env n ws (collect item acc) n ws (· = .done acc) := by
      refine hnone.bind ?_
      rintro _ rfl
      exact .pure rfl
    refine hdone.bind ?_
    rintro _ rfl
    exact .pure ⟨[], rfl, .nil⟩
  | cons a as ih =>
    obtain ⟨fuel, rfl⟩ : ∃ k, fuel = k + 1 := ⟨fuel - 1, by omega⟩
    obtain ⟨ha, has⟩ := List.forall_mem_cons.mp hsome
    rw [List.length_cons] at hfuel
    have hyield : Reads env n (.mark .comma :: (a.words ++ (Expr.moreWords as ++ ws)))
        (collect item acc) n (Expr.moreWords as ++ ws)
        fun r => ∃ b, r = .yield (b :: acc) ∧ a.Alike b := by
      refine (ha _ (endsWhole_moreWords as hws)).bind ?_
      rintro _ ⟨b, rfl, hb⟩
      exact .pure ⟨b, rfl, hb⟩
    rw [Expr.moreWords, List.cons_append, List.append_assoc]
    refine hyield.bind ?_
    rintro _ ⟨b, rfl, hb⟩
    refine (ih (b :: acc) has (by omega)).imp ?_
    rintro _ ⟨bs, rfl, hbs⟩
    exact ⟨b :: bs, by simp, .cons hb hbs⟩

theorem length_moreWords (as : List Expr) : as.length ≤ (Expr.moreWords as).length := by
  induction as with
  | nil => simp
  | cons a as ih =>
    simp only [Expr.moreWords, List.length_cons, List.length_append]
    omega

theorem levels_le_argumentLevels {a : Expr} {as : List Expr} (ha : a ∈ as) :
    a.levels ≤ Expr.argumentLevels as := by
  induction as with
  | nil => cases ha
  | cons b as ih =>
    rw [Expr.argumentLevels]
    rcases List.mem_cons.mp ha with rfl | ha
    · exact Nat.le_max_left _ _
    · exact Nat.le_trans (ih ha) (Nat.le_max_right _ _)

/-- The arguments after commas that come until there is none. -/
theorem reads_moreArguments (he : env.endOfFile.kind = .endOfFile) {as : List Expr}
    (has : ∀ a ∈ as, a.Printable) (hwhole : ∀ a ∈ as, ReadsWhole env a)
    (hn : Expr.argumentLevels as < n) (hws : (headKind ws).endsWhole = true)
    (hcomma : (headKind ws).first ≠ .punct .comma) :
    Reads env n (Expr.moreWords as ++ ws) (afterCommas (argument (rules n))) n ws
      (List.Forall₂ Expr.Alike as) := by
  let item : P (Option Expr) := do
    if ← accept (.punct .comma) then return some (← argument (rules n)) else return none
  have hnone : Reads env n ws item n ws (· = none) := by
    refine (reads_accept_of_ne he hcomma).bind ?_
    rintro _ rfl
    exact .pure rfl
  have hsome : ∀ a ∈ as, ∀ vs, (headKind vs).endsWhole = true →
      Reads env n (.mark .comma :: (a.words ++ vs)) item n vs
        fun b? => ∃ b, b? = some b ∧ a.Alike b := by
    intro a ha vs hvs
    have hlevels := Nat.lt_of_le_of_lt (levels_le_argumentLevels ha) hn
    refine (reads_accept (w := .mark .comma) rfl).bind ?_
    rintro _ rfl
    exact (reads_argument he (has a ha) (hwhole a ha) hlevels hvs).bind fun b hb =>
      .pure ⟨b, rfl, hb⟩
  refine ComesTo.of_budget fun hbudget => ?_
  have hlength := length_moreWords as
  rw [List.length_append] at hbudget
  have hloop : Reads env n (Expr.moreWords as ++ ws) (loop [] (collect item)) n ws fun items =>
      ∃ bs, items = bs.reverse ++ [] ∧ List.Forall₂ Expr.Alike as bs := by
    refine Reads.read.bind ?_
    rintro _ rfl
    exact reads_collect [] hnone hsome hws (by omega)
  rw [afterCommas, many_eq]
  refine hloop.bind ?_
  rintro _ ⟨bs, rfl, hbs⟩
  rw [List.append_nil, List.reverse_reverse]
  exact .pure hbs

/-- The brackets in which arguments stand. -/
def AreBrackets (p q : Punctuator) : Prop :=
  p = .openParen ∧ q = .closeParen ∨ p = .openBracket ∧ q = .closeBracket

namespace AreBrackets

variable {p q : Punctuator}

theorem opening (h : AreBrackets p q) : (TokenKind.punct p).pieces = [.punct p] := by
  rcases h with ⟨rfl, rfl⟩ | ⟨rfl, rfl⟩ <;> rfl

theorem closing (h : AreBrackets p q) : (TokenKind.punct q).pieces = [.punct q] := by
  rcases h with ⟨rfl, rfl⟩ | ⟨rfl, rfl⟩ <;> rfl

theorem endsWhole (h : AreBrackets p q) : (TokenKind.punct q).endsWhole = true := by
  rcases h with ⟨rfl, rfl⟩ | ⟨rfl, rfl⟩ <;> rfl

theorem first_ne_comma (h : AreBrackets p q) : (TokenKind.punct q).first ≠ .punct .comma := by
  rcases h with ⟨rfl, rfl⟩ | ⟨rfl, rfl⟩ <;> decide

theorem beginsOperand (h : AreBrackets p q) : (TokenKind.punct q).beginsOperand = false := by
  rcases h with ⟨rfl, rfl⟩ | ⟨rfl, rfl⟩ <;> rfl

end AreBrackets

/-- Where there is an argument, the brackets do not close at once. -/
theorem comesTo_arguments (he : env.endOfFile.kind = .endOfFile) {as : List Expr}
    (h : e.Printable) {p q : Punctuator} (hpair : AreBrackets p q)
    {outcome : Array Diagnostic → List Expr × State → Prop}
    (hsome : ComesTo env n (e.words ++ (Expr.moreWords as ++ .mark q :: ws)) (do
      let es ← separated (argument (rules n))
      let _ ← eat (.punct q)
      return es) outcome) :
    ComesTo env n (.mark p :: (Expr.argumentWords (e :: as) ++ .mark q :: ws))
      (arguments (rules n) p q) outcome := by
  refine (reads_eat (w := .mark p) hpair.opening).andThen fun _ _ => ?_
  rw [Expr.argumentWords, List.append_assoc]
  refine (reads_currentKind_any he).andThen fun k hk => ?_
  have hne : k ≠ .punct q := by
    rintro rfl
    have hbegins := beginsOperand_headKind h (Expr.moreWords as ++ .mark q :: ws)
    rw [← hk, hpair.beginsOperand] at hbegins
    cases hbegins
  rw [if_neg hne]
  exact hsome

/-- The arguments in their brackets. -/
theorem reads_arguments (he : env.endOfFile.kind = .endOfFile) {as : List Expr}
    (has : ∀ a ∈ as, a.Printable) (hwhole : ∀ a ∈ as, ReadsWhole env a)
    (hn : Expr.argumentLevels as < n) {p q : Punctuator} (hpair : AreBrackets p q) :
    Reads env n (.mark p :: (Expr.argumentWords as ++ .mark q :: ws)) (arguments (rules n) p q) n ws
      (List.Forall₂ Expr.Alike as) := by
  have hclose (bs : List Expr) (hbs : List.Forall₂ Expr.Alike as bs) :
      Reads env n (.mark q :: ws) (do let _ ← eat (.punct q); return bs) n ws
        (List.Forall₂ Expr.Alike as) :=
    (reads_eat (w := .mark q) hpair.closing).bind fun _ _ => .pure hbs
  cases as with
  | nil =>
    refine (reads_eat (w := .mark p) hpair.opening).bind fun _ _ => ?_
    refine (reads_currentKind (w := .mark q) hpair.closing).bind ?_
    rintro _ rfl
    rw [Lexeme.kind_spelling, if_pos rfl]
    exact hclose [] .nil
  | cons a as =>
    obtain ⟨ha, has⟩ := List.forall_mem_cons.mp has
    obtain ⟨hwa, hwhole⟩ := List.forall_mem_cons.mp hwhole
    obtain ⟨hna, hn⟩ := Nat.max_lt.mp hn
    have hends : (headKind (.mark q :: ws)).endsWhole = true := hpair.endsWhole
    have hsome : Reads env n (a.words ++ (Expr.moreWords as ++ .mark q :: ws))
        (separated (argument (rules n))) n (.mark q :: ws) (List.Forall₂ Expr.Alike (a :: as)) := by
      refine (reads_argument he ha hwa hna (endsWhole_moreWords as hends)).bind fun b hb => ?_
      refine (reads_moreArguments he has hwhole hn hends hpair.first_ne_comma).bind fun bs hbs => ?_
      exact .pure (.cons hb hbs)
    exact comesTo_arguments he ha hpair (hsome.bind hclose)

theorem readsSpine_invocation (he : env.endOfFile.kind = .endOfFile) (hf : ReadsSpine env e)
    (r : Range) {as : List Expr} (has : ∀ a ∈ as, a.Printable)
    (hwhole : ∀ a ∈ as, ReadsWhole env a) (hname : e.isNameInParens = false) :
    ReadsSpine env (.invocation r e as) := by
  refine readsSpine_step (w := .mark .openParen) hf rfl rfl ?_ (by simp [hname]) rfl rfl ?_
  · simp only [Expr.reach]; omega
  intro n ws start e' hn he'
  simp only [Expr.reach, Expr.accesses] at hn
  rw [List.append_assoc]
  refine (reads_currentKind (w := .mark .openParen) rfl).bind ?_
  rintro _ rfl
  refine (reads_arguments he has hwhole (by omega) (.inl ⟨rfl, rfl⟩)).bind fun bs hbs => ?_
  exact (reads_rangeFrom start).bind fun _ _ => .pure (.invocation _ _ he' hbs)

theorem readsSpine_elementAccess (he : env.endOfFile.kind = .endOfFile) (hf : ReadsSpine env e)
    (r : Range) {as : List Expr} (has : ∀ a ∈ as, a.Printable)
    (hwhole : ∀ a ∈ as, ReadsWhole env a) : ReadsSpine env (.elementAccess r e as) := by
  refine readsSpine_step (w := .mark .openBracket) hf rfl rfl ?_ (fun _ => rfl) rfl rfl ?_
  · simp only [Expr.reach]; omega
  intro n ws start e' hn he'
  simp only [Expr.reach, Expr.accesses] at hn
  rw [List.append_assoc]
  refine (reads_currentKind (w := .mark .openBracket) rfl).bind ?_
  rintro _ rfl
  refine (reads_arguments he has hwhole (by omega) (.inr ⟨rfl, rfl⟩)).bind fun bs hbs => ?_
  exact (reads_rangeFrom start).bind fun _ _ => .pure (.elementAccess _ _ he' hbs)

end

end Parser

end

/-! ## Chains of operators and whole expressions -/

section

namespace Precedence

/-- An operator at whose left a chain may stand ends the right operand of that chain. -/
theorem ends_right {p q : Precedence} {tightness : Nat} (h : q.leftRank < p.rank + 1)
    (hright : p.rightRank < tightness) : q.leftRank < tightness ∧ q.rank < p.rightRank := by
  have hranks : q.rank < p.rightRank ∧ q.leftRank ≤ p.rightRank := by
    revert h
    cases p <;> cases q <;> decide
  exact ⟨Nat.lt_of_le_of_lt hranks.2 hright, hranks.1⟩

theorem rank_le_leftRank (p : Precedence) : p.rank ≤ p.leftRank := by
  cases p <;> decide

end Precedence

namespace TokenKind

theorem followsOperand_of_ofOperator? {k : TokenKind} {p : Precedence}
    (h : Precedence.ofOperator? k = some p) : k.followsOperand = true := by
  simp [followsOperand, h]

theorem isAssignment_spec {k : TokenKind} (h : k.isAssignment = true) :
    k.followsOperand = true ∧ Precedence.ofOperator? k = none ∧ k.first ≠ .punct .question := by
  refine ⟨by simp [followsOperand, h], ?_⟩
  cases k with
  | punct p => cases p <;> first | exact ⟨rfl, by decide⟩ | cases h
  | _ => cases h

end TokenKind

theorem Expr.tightness_binary (r s : Range) (l e : Expr) {q : Punctuator} {p : Precedence}
    (hq : Precedence.ofOperator? (.punct q) = some p) :
    (Expr.binary r l ⟨.punct q, s, false⟩ e).tightness = p.rank + 1 := by
  rw [Expr.tightness, hq, Option.elim_some]

theorem Expr.operators_lt_reach (e : Expr) : e.operators < e.reach := by
  cases e with
  | binary _ l _ f =>
    have hpos := f.reach_pos
    simp only [reach, operators]
    omega
  | _ => exact reach_pos _

namespace Parser

variable {env : Env} {n : Nat} {ws : List Lexeme} {e : Expr}

/-! ### Operands with what stands before them -/

theorem readsUnary_of_spine (he : env.endOfFile.kind = .endOfFile) (h : ReadsSpine env e) :
    ReadsUnary env e := by
  intro n ws hn hws
  obtain ⟨hcontinues, hcast⟩ := TokenKind.followsOperand_spec hws
  have hpos := e.reach_pos
  have haccesses := e.accesses_lt_reach
  obtain ⟨k, rfl⟩ : ∃ k, n = k + 2 := ⟨n - 2, by omega⟩
  obtain ⟨m, hm⟩ : ∃ m, k + 1 - e.accesses = m + 1 := ⟨k - e.accesses, by omega⟩
  have hback : m + 1 + e.accesses = k + 1 := by omega
  have htail (hroom : k + 1 ≤ env.maxDepth + 1) (start : Nat) (e' : Expr) (he' : e.Alike e') :
      Reads env (m + 1) ws ((rules (m + 1)).postfixTail e.accesses start e') (k + 1) ws
        e.Alike := by
    refine (reads_currentKind_any he).bind ?_
    rintro _ rfl
    rw [hcontinues, if_neg Bool.false_ne_true]
    have hleave : Reads env (m + 1) ws (leave e.accesses) (k + 1) ws fun _ => True :=
      hback ▸ Reads.leave (by omega)
    exact hleave.bind fun _ _ => .pure he'
  refine Reads.nested (ComesTo.of_room fun hroom => ?_)
  refine h (k + 1) ws _ (by omega) (fun _ => hcast) ?_
  rw [hm]
  exact htail hroom

theorem readsUnary_prefixUnary (h : ReadsUnary env e) (r s : Range) {q : Punctuator}
    (hq : isPrefixOperator (.punct q) = true) :
    ReadsUnary env (.prefixUnary r ⟨.punct q, s, false⟩ e) := by
  intro n ws hn hws
  rw [Expr.reach] at hn
  obtain ⟨k, rfl⟩ : ∃ k, n = k + 2 := ⟨n - 2, by omega⟩
  have hsingle : (TokenKind.punct q).pieces = [.punct q] := by
    cases q <;> first | rfl | cases hq
  refine Reads.nested ?_
  refine (reads_current (w := .mark q) hsingle).bind fun t ht => ?_
  have hk : t.kind = .punct q := ht.kind
  rw [hk, if_pos hq]
  refine (reads_take (w := .mark q) hsingle).bind fun o ho => ?_
  refine (h (k + 1) ws (by omega) hws).bind fun e' he' => ?_
  exact (reads_rangeFrom _).bind fun _ _ => .pure (.prefixUnary _ _ (ho s) he')

/-! ### Chains of operators -/

theorem readsChain_of_unary (h : ReadsUnary env e) (hoperators : e.operators = 0) :
    ReadsChain env e := by
  intro n least ws outcome hn _ hws _ htail
  rw [hoperators] at htail
  refine reads_current_any.andThen fun t _ => ?_
  exact (h n ws hn hws).andThen (htail t.start)

/-- A chain ends before what is no operator of its least rank. -/
theorem reads_binary (he : env.endOfFile.kind = .endOfFile) (h : ReadsChain env e) {least : Nat}
    (hn : e.reach < n) (hleast : least < e.tightness)
    (hws : (headKind ws).followsOperand = true)
    (hnext : ∀ p, Precedence.ofOperator? (headKind ws) = some p →
      p.leftRank < e.tightness ∧ p.rank < least) :
    Reads env n (e.words ++ ws) (binary (rules n) least) n ws e.Alike := by
  have hoperators := e.operators_lt_reach
  obtain ⟨m, hm⟩ : ∃ m, n - e.operators = m + 1 := ⟨n - e.operators - 1, by omega⟩
  have hback : m + 1 + e.operators = n := by omega
  have htail (hroom : n ≤ env.maxDepth + 1) (start : Nat) (e' : Expr) (he' : e.Alike e') :
      Reads env (m + 1) ws ((rules (m + 1)).binaryTail e.operators least start e') n ws
        e.Alike := by
    refine (reads_nextOperator?_of_none he fun p hp => (hnext p hp).2).bind ?_
    rintro _ rfl
    have hleave : Reads env (m + 1) ws (leave e.operators) n ws fun _ => True :=
      hback ▸ Reads.leave (by omega)
    exact hleave.bind fun _ _ => .pure he'
  refine ComesTo.of_room fun hroom => ?_
  refine h n least ws _ hn hleast hws (fun p hp => (hnext p hp).1) ?_
  rw [hm]
  exact htail hroom

/-- The left operand is read as a chain that goes on with the operator; the right one takes all
that binds more tightly, which ends where this chain may go on. -/
theorem readsChain_binary (he : env.endOfFile.kind = .endOfFile) {l f : Expr}
    (hl : ReadsChain env l) (hf : ReadsChain env f) (r s : Range) {q : Punctuator} {p : Precedence}
    (hq : Precedence.ofOperator? (.punct q) = some p) (hleft : p.leftRank < l.tightness)
    (hright : p.rightRank < f.tightness) : ReadsChain env (.binary r l ⟨.punct q, s, false⟩ f) := by
  intro n least ws outcome hn hleast hws hnext htail
  rw [Expr.tightness_binary r s l f hq] at hleast hnext
  simp only [Expr.reach] at hn
  simp only [Expr.operators] at htail
  have hrank := p.rank_le_leftRank
  obtain ⟨m, rfl⟩ : ∃ m, n = l.operators + (m + 2) := ⟨n - l.operators - 2, by omega⟩
  have hafter : l.operators + (m + 2) - (l.operators + 1) = m + 1 := by omega
  rw [hafter] at htail
  have hsplit : (Expr.binary r l ⟨.punct q, s, false⟩ f).words ++ ws =
      l.words ++ .mark q :: (f.words ++ ws) := by simp
  rw [hsplit]
  refine hl _ least _ outcome (by omega) (by omega)
    (TokenKind.followsOperand_of_ofOperator? hq) ?_ fun start l' hl' => ?_
  · intro p' hp'
    obtain rfl : p = p' := Option.some_inj.mp (hq.symm.trans hp')
    exact hleft
  · rw [Nat.add_sub_cancel_left]
    refine (reads_nextOperator? (w := .mark q) hq (by omega)).andThen ?_
    rintro _ ⟨o, rfl, hkind, hwidth⟩
    refine Reads.enter.andThen ?_
    rintro _ rfl
    have hrightEnds := fun p' hp' => Precedence.ends_right (hnext p' hp') hright
    have hstep : Reads env (m + 1) (.mark q :: (f.words ++ ws))
        (binaryStep (rules (m + 1)) start l' o p) (m + 1) ws
        (Expr.binary r l ⟨.punct q, s, false⟩ f).Alike := by
      rw [binaryStep, hwidth]
      refine (reads_advanceBy (.mark q)).bind fun _ _ => ?_
      simp only [hkind, Lexeme.kind_spelling]
      refine (reads_binary he hf (by omega) hright hws hrightEnds).bind fun f' hf' => ?_
      exact (reads_rangeFrom start).bind fun _ _ => .pure (.binary _ _ hl' ⟨hkind.symm, rfl⟩ hf')
    exact hstep.andThen (htail start)

/-! ### Whole expressions -/

/-- What binds more tightly than the condition of a choice is read where a condition may be. -/
theorem reads_conditional_of_chain (he : env.endOfFile.kind = .endOfFile) (h : ReadsChain env e)
    (hn : e.reach < n) (htight : 0 < e.tightness) (hws : (headKind ws).followsOperand = true)
    (hop : Precedence.ofOperator? (headKind ws) = none)
    (hquestion : (headKind ws).first ≠ .punct .question) :
    Reads env n (e.words ++ ws) (conditional (rules n)) n ws e.Alike := by
  refine reads_current_any.bind fun t _ => ?_
  refine (reads_binary he h hn htight hws (by simp [hop])).bind fun e' he' => ?_
  refine (reads_accept_of_ne he hquestion).bind ?_
  rintro _ rfl
  exact .pure he'

/-- A whole expression is read as an assignment, since none begins like a query. -/
theorem readsWhole_of_assignment
    (h : ∀ n ws, e.reach < n → (headKind ws).endsWhole = true →
      Reads env n (e.words ++ ws) (assignment (rules n)) n ws e.Alike) : ReadsWhole env e := by
  intro n ws hn hws
  rw [Expr.levels] at hn
  obtain ⟨k, rfl⟩ : ∃ k, n = k + 2 := ⟨n - 2, by omega⟩
  refine Reads.nested ?_
  refine Reads.get.bind fun s hs => ?_
  obtain ⟨reported, hs⟩ := hs
  rw [hs.spaced.startsQuery, if_neg Bool.false_ne_true]
  exact h (k + 1) ws (by omega) hws

theorem readsWhole_of_conditional (he : env.endOfFile.kind = .endOfFile)
    (h : ∀ n ws, e.reach < n → (headKind ws).endsWhole = true →
      Reads env n (e.words ++ ws) (conditional (rules n)) n ws e.Alike) : ReadsWhole env e := by
  refine readsWhole_of_assignment fun n ws hn hws => ?_
  have hplain := (TokenKind.endsWhole_spec hws).2.2.2
  refine reads_current_any.bind fun t _ => (h n ws hn hws).bind fun e' he' => ?_
  refine Reads.read.bind ?_
  rintro _ rfl
  refine Reads.get.bind fun s hs => ?_
  obtain ⟨reported, hs⟩ := hs
  simp only [hs.written.kind_next he, hplain, if_neg Bool.false_ne_true]
  exact .pure he'

theorem readsWhole_of_chain (he : env.endOfFile.kind = .endOfFile) (h : ReadsChain env e)
    (htight : 0 < e.tightness) : ReadsWhole env e := by
  refine readsWhole_of_conditional he fun n ws hn hws => ?_
  obtain ⟨hfollows, hquestion, hop, -⟩ := TokenKind.endsWhole_spec hws
  exact reads_conditional_of_chain he h hn htight hfollows hop hquestion

theorem readsWhole_conditional (he : env.endOfFile.kind = .endOfFile) {c t f : Expr} (r : Range)
    (hc : ReadsChain env c) (ht : ReadsWhole env t) (hf : ReadsWhole env f)
    (htight : 0 < c.tightness) : ReadsWhole env (.conditional r c t f) := by
  refine readsWhole_of_conditional he fun n ws hn hws => ?_
  simp only [Expr.reach] at hn
  have hsplit : (Expr.conditional r c t f).words ++ ws =
      c.words ++ .mark .question :: (t.words ++ .mark .colon :: (f.words ++ ws)) := by simp
  have hcond (vs : List Lexeme) : Reads env n (c.words ++ .mark .question :: vs)
      (binary (rules n) Precedence.coalescing.rank) n (.mark .question :: vs) c.Alike :=
    reads_binary he hc (by omega) htight rfl (by rintro p ⟨⟩)
  rw [hsplit]
  refine reads_current_any.bind fun u _ => (hcond _).bind fun c' hc' => ?_
  refine (reads_accept (w := .mark .question) rfl).bind ?_
  rintro _ rfl
  rw [if_pos rfl]
  refine (ht n _ (by rw [Expr.levels]; omega) rfl).bind fun t' ht' => ?_
  refine (reads_eat (w := .mark .colon) rfl).bind fun _ _ => ?_
  refine (hf n ws (by rw [Expr.levels]; omega) hws).bind fun f' hf' => ?_
  exact (reads_rangeFrom _).bind fun _ _ => .pure (.conditional _ _ hc' ht' hf')

theorem readsWhole_assignment (he : env.endOfFile.kind = .endOfFile) {l f : Expr} (r s : Range)
    {q : Punctuator} (hq : q.isAssignment = true) (hl : ReadsChain env l) (hf : ReadsWhole env f)
    (htight : 0 < l.tightness) : ReadsWhole env (.assignment r l ⟨.punct q, s, false⟩ f) := by
  refine readsWhole_of_assignment fun n ws hn hws => ?_
  simp only [Expr.reach] at hn
  have hsplit : (Expr.assignment r l ⟨.punct q, s, false⟩ f).words ++ ws =
      l.words ++ .mark q :: (f.words ++ ws) := by simp
  have hassigns : (TokenKind.punct q).isAssignment = true := hq
  obtain ⟨hfollows, hop, hquestion⟩ := TokenKind.isAssignment_spec hassigns
  have hleft : Reads env n (l.words ++ .mark q :: (f.words ++ ws)) (conditional (rules n)) n
      (.mark q :: (f.words ++ ws)) l.Alike :=
    reads_conditional_of_chain he hl (by omega) htight hfollows hop hquestion
  rw [hsplit]
  refine reads_current_any.bind fun t _ => hleft.bind fun l' hl' => ?_
  refine Reads.read.bind ?_
  rintro env' rfl
  refine Reads.get.bind fun u hu => ?_
  obtain ⟨reported, hu⟩ := hu
  obtain ⟨hkind, hwidth, -⟩ := hu.written.next env'.endOfFile
  simp only [hkind, hwidth, Lexeme.kind_spelling, if_pos hassigns]
  refine (reads_advanceBy (.mark q)).bind fun _ _ => ?_
  refine (hf n ws (by rw [Expr.levels]; omega) hws).bind fun f' hf' => ?_
  exact (reads_rangeFrom _).bind fun _ _ => .pure (.assignment _ _ hl' ⟨hkind.symm, rfl⟩ hf')

end Parser

end

end CSharpFront
