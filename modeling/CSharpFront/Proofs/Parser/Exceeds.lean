import CSharpFront.Proofs.Parser.ReadsExpressions
/-!
Expressions for which too few levels are left. The parser hits the limit within such an expression and
reports that; it enters no more levels, so nothing that comes after reports anything.
-/

namespace CSharpFront.Parser

/-- Every run from before some words hits the limit, and reports that alone. -/
def Exceeds {α : Type} (env : Env) (n : Nat) (ws : List Lexeme) (p : P α) : Prop :=
  ComesTo env n ws p fun reported r =>
    ∃ span, CutOff (reported.push (.of .tooDeep span)) env r.2

/-! ### Silence -/

section

variable {α : Type}

/-- No level is entered once the limit was hit. -/
theorem silent_enter {p q : P α} (hq : Silent q) : Silent (do if ← enter then p else q) := by
  intro reported env s hs
  have hrun : (do if ← enter then p else q : P α) env s = q env s := by
    rw [bind_apply, enter_of_tooDeep hs.1]
    rfl
  show True ∧ CutOff reported env ((do if ← enter then p else q : P α) env s).2
  rw [hrun]
  exact hq reported env s hs

theorem silent_leave (levels : Nat) : Silent (leave levels) :=
  .of_modify (fun _ => rfl) fun _ => rfl

theorem silent_missingExpression : Silent missingExpression := .bind .get fun _ => .pure _

theorem silent_expression (n : Nat) : Silent (rules n).expression := by
  cases n with
  | zero => exact .bind .runOut fun _ => .bind .refuse fun _ => silent_missingExpression
  | succ n => exact silent_enter silent_missingExpression

theorem silent_leaving (levels : Nat) (e : Expr) : Silent (do leave levels; return e) :=
  .bind (silent_leave levels) fun _ => .pure e

theorem silent_postfixTail (n levels start : Nat) (e : Expr) :
    Silent ((rules n).postfixTail levels start e) := by
  cases n with
  | zero => exact .bind .runOut fun _ => .bind .refuse fun _ => silent_leaving levels e
  | succ n =>
    refine .bind silent_currentKind fun _ => .ite ?_ (silent_leaving levels e)
    exact silent_enter (silent_leaving levels e)

theorem silent_nextOperator? (least : Nat) : Silent (nextOperator? least) := by
  refine .bind .read fun env => .bind .get fun s => ?_
  dsimp only
  split
  · exact .ite (.pure _) (.pure _)
  · exact .pure _

theorem silent_binaryTail (n levels least start : Nat) (e : Expr) :
    Silent ((rules n).binaryTail levels least start e) := by
  cases n with
  | zero => exact .bind .runOut fun _ => .bind .refuse fun _ => silent_leaving levels e
  | succ n =>
    refine .bind (silent_nextOperator? least) fun o? => ?_
    cases o? with
    | none => exact silent_leaving levels e
    | some o => exact silent_enter (silent_leaving levels e)

theorem silent_argument (n : Nat) : Silent (argument (rules n)) :=
  .bind silent_currentKind fun _ =>
    .ite (.bind silent_advance fun _ => silent_expression n) (silent_expression n)

theorem silent_afterCommas {item : P α} (h : Silent item) : Silent (afterCommas item) :=
  .many (.bind (silent_accept _) fun _ => .ite (.bind h fun _ => .pure _) (.pure _))

theorem silent_collect {item : P (Option α)} (h : Silent item) (items : List α) :
    Silent (collect item items) := by
  refine .bind h fun a? => ?_
  cases a? <;> exact .pure _

theorem silent_iterate {step : α → P (ForInStep α)} (h : ∀ a, Silent (step a)) (n : Nat) (a : α) :
    Silent (iterate step n a) :=
  fun reported =>
    .iterate (fun _ => True) (fun a _ => (h a reported).imp fun _ _ => trivial) n trivial

end

/-! ### Hitting the limit -/

variable {env : Env} {n : Nat} {w : Lexeme} {ws vs : List Lexeme} {e : Expr}

namespace Exceeds

variable {α β : Type} {p : P α} {f : α → P β}

theorem bind (hp : Exceeds env n ws p) (hf : ∀ a, Silent (f a)) : Exceeds env n ws (p >>= f) := by
  intro reported s hs
  obtain ⟨span, hcut⟩ := hp reported s hs
  exact ⟨span, (hf _ _ env _ hcut).2⟩

/-- The last level cannot be entered. -/
theorem enter {q : P α} (hn : n ≤ 1) (hq : Silent q) :
    Exceeds env n ws (do if ← enter then p else q) := by
  intro reported s hs
  have hroom := hs.room
  have hrun : (do if ← Parser.enter then p else q : P α) env s = q env (refuse env s).2 := by
    rw [bind_apply, enter_of_le hs.calm.1 (by omega)]
    rfl
  refine ⟨(s.rest.headD env.endOfFile).span, ?_⟩
  rw [hrun, refuse_apply hs.calm.1, hs.calm.2]
  exact (hq _ env _ ⟨rfl, rfl⟩).2

/-- A nested parser hits the limit where it is entered, or further in. -/
theorem nested {refused : P α} (hsilent : Silent refused)
    (hp : ∀ k, n = k + 2 → Exceeds env (k + 1) ws p) (hn : 0 < n) :
    Exceeds env n ws (nested refused p) := by
  rcases Nat.lt_or_ge n 2 with hlt | hge
  · exact enter (by omega) hsilent
  · obtain ⟨k, rfl⟩ : ∃ k, n = k + 2 := ⟨n - 2, by omega⟩
    refine Reads.enter.andThen ?_
    rintro _ rfl
    exact (hp k rfl).bind fun a => .bind (silent_leave 1) fun _ => .pure a

end Exceeds

/-- The properties of `ReadsSpine` and those after it, where an expression takes more levels. -/
def ExceedsSpine (env : Env) (e : Expr) : Prop :=
  ∀ n ws, 0 < n → n < e.reach →
    (e.isNameInParens = true → (headKind ws).first.followsCast = false) →
    Exceeds env n (e.words ++ ws) (unaryBody (rules n))

def ExceedsUnary (env : Env) (e : Expr) : Prop :=
  ∀ n ws, 0 < n → n ≤ e.reach → (headKind ws).followsOperand = true →
    Exceeds env n (e.words ++ ws) (rules n).unary

def ExceedsChain (env : Env) (e : Expr) : Prop :=
  ∀ n least ws, 0 < n → n ≤ e.reach → least < e.tightness →
    (headKind ws).followsOperand = true →
    (∀ p, Precedence.ofOperator? (headKind ws) = some p → p.leftRank < e.tightness) →
    Exceeds env n (e.words ++ ws) (binary (rules n) least)

def ExceedsWhole (env : Env) (e : Expr) : Prop :=
  ∀ n ws, 0 < n → n ≤ e.levels → (headKind ws).endsWhole = true →
    Exceeds env n (e.words ++ ws) (rules n).expression

/-! ### Operands -/

theorem exceedsSpine_of_reach (h : e.reach = 1) : ExceedsSpine env e := by
  intro n ws hpos hn
  omega

theorem exceedsSpine_parenthesized (ha : env.inAsync = false) (h : e.Printable)
    (hwhole : ExceedsWhole env e) (r : Range) : ExceedsSpine env (.parenthesized r e) := by
  intro n ws hpos hn hname
  have hlevels : n ≤ e.levels := by
    simp only [Expr.reach] at hn
    rw [Expr.levels]
    omega
  refine comesTo_parenthesized ha h r hname fun start => ?_
  have hprimary : Exceeds env n (.mark .openParen :: (e.words ++ .mark .closeParen :: ws))
      (primary (rules n)) := by
    refine (reads_current rfl).andThen fun t ht => ?_
    have hk : t.kind = .punct .openParen := ht.kind
    simp only [hk, literalKind?, TokenKind.special?]
    refine (reads_advance rfl).andThen fun _ _ => ?_
    refine Exceeds.bind (hwhole n _ hpos hlevels rfl) fun e' => ?_
    exact .bind (silent_eat _) fun _ => .bind (silent_rangeFrom _) fun _ => .pure _
  exact hprimary.bind fun e' => silent_postfixTail n 0 start e'

/-- The limit is hit in the operand, where the step is entered, or in the step itself. -/
theorem exceedsSpine_step {f : Expr} (he : ReadsSpine env e) (hdeep : ExceedsSpine env e)
    (hwords : f.words = e.words ++ w :: vs) (haccesses : f.accesses = e.accesses + 1)
    (hname : e.isNameInParens = true → w.kind.followsCast = false)
    (hw : w.kind.pieces = [w.kind]) (hcontinues : continuesOperand w.kind = true)
    (hstep : ∀ n ws start e', 0 < n → e.reach ≤ n + f.accesses → n + f.accesses < f.reach →
      Exceeds env n (w :: (vs ++ ws)) (postfixStep (rules n) start e')) :
    ExceedsSpine env f := by
  intro n ws hpos hn _
  have hsplit : f.words ++ ws = e.words ++ w :: (vs ++ ws) := by simp [hwords]
  have hhead : e.isNameInParens = true →
      (headKind (w :: (vs ++ ws))).first.followsCast = false := by
    rw [headKind_cons, TokenKind.first, hw]
    exact hname
  rw [hsplit]
  rcases Nat.lt_or_ge n e.reach with hlt | hge
  · exact hdeep n _ hpos hlt hhead
  · -- the operand is read, so it is the step for which the levels are too few
    have haccess := e.accesses_lt_reach
    refine he n _ _ hge hhead fun start e' _ => ?_
    obtain ⟨m, hm⟩ : ∃ m, n - e.accesses = m + 1 := ⟨n - e.accesses - 1, by omega⟩
    rw [hm]
    refine (reads_currentKind hw).andThen ?_
    rintro _ rfl
    rw [if_pos hcontinues]
    cases m with
    | zero => exact Exceeds.enter (Nat.le_refl 1) (silent_leaving e.accesses e')
    | succ k =>
      refine Reads.enter.andThen ?_
      rintro _ rfl
      refine Exceeds.bind (hstep (k + 1) ws start e' (Nat.succ_pos k) (by omega) (by omega)) ?_
      exact fun f' => silent_postfixTail (k + 1) (e.accesses + 1) start f'

/-- An access or a step takes no more than the level that it enters. -/
theorem exceedsSpine_mark {f : Expr} (he : ReadsSpine env e) (hdeep : ExceedsSpine env e)
    {q : Punctuator} (hmark : ContinuesName q) (hwords : f.words = e.words ++ .mark q :: vs)
    (haccesses : f.accesses = e.accesses + 1) (hreach : f.reach = max e.reach (e.accesses + 2)) :
    ExceedsSpine env f := by
  refine exceedsSpine_step (w := .mark q) he hdeep hwords haccesses (fun _ => hmark.followsCast)
    hmark.pieces hmark.continues ?_
  intro n ws start e' hpos hle hlt
  omega

theorem exceedsSpine_memberAccess (he : ReadsSpine env e) (hdeep : ExceedsSpine env e)
    (r s : Range) {q : Punctuator} (hq : q = .dot ∨ q = .questionDot) (i : Identifier) :
    ExceedsSpine env (.memberAccess r e ⟨.punct q, s, false⟩ i) :=
  exceedsSpine_mark he hdeep (continuesName_of_access hq) rfl rfl rfl

theorem exceedsSpine_postfixUnary (he : ReadsSpine env e) (hdeep : ExceedsSpine env e)
    (r s : Range) {q : Punctuator} (hq : q = .plusPlus ∨ q = .minusMinus) :
    ExceedsSpine env (.postfixUnary r e ⟨.punct q, s, false⟩) :=
  exceedsSpine_mark he hdeep (continuesName_of_step hq) rfl rfl rfl

/-! ### Arguments -/

theorem le_argumentLevels_of_lt {as : List Expr} (hn : n ≤ Expr.argumentLevels (e :: as))
    (h : e.levels < n) : n ≤ Expr.argumentLevels as := by
  rw [Expr.argumentLevels] at hn
  rw [Expr.levels] at h
  omega

theorem exceeds_argument (he : env.endOfFile.kind = .endOfFile) (h : e.Printable)
    (hdeep : ExceedsWhole env e) (hpos : 0 < n) (hn : n ≤ e.levels)
    (hws : (headKind ws).endsWhole = true) :
    Exceeds env n (e.words ++ ws) (argument (rules n)) :=
  comesTo_argument he h (hdeep n ws hpos hn hws)

/-- The loop reads the items before one that hits the limit, by induction on their list. -/
theorem exceeds_collect {item : P (Option Expr)} {as : List Expr} (acc : List Expr) {fuel : Nat}
    (hsilent : Silent item)
    (hreads : ∀ a ∈ as, a.levels < n → ∀ vs, (headKind vs).endsWhole = true →
      Reads env n (.mark .comma :: (a.words ++ vs)) item n vs fun b? => ∃ b, b? = some b)
    (hdeep : ∀ a ∈ as, n ≤ a.levels → ∀ vs, (headKind vs).endsWhole = true →
      Exceeds env n (.mark .comma :: (a.words ++ vs)) item)
    (hws : (headKind ws).endsWhole = true) (hpos : 0 < n) (hn : n ≤ Expr.argumentLevels as)
    (hfuel : as.length < fuel) :
    Exceeds env n (Expr.moreWords as ++ ws) (iterate (collect item) fuel acc) := by
  induction as generalizing acc fuel with
  | nil => exact absurd hn (Nat.not_le.mpr hpos)
  | cons a as ih =>
    obtain ⟨fuel, rfl⟩ : ∃ k, fuel = k + 1 := ⟨fuel - 1, by omega⟩
    obtain ⟨hra, hreads⟩ := List.forall_mem_cons.mp hreads
    obtain ⟨hda, hdeep⟩ := List.forall_mem_cons.mp hdeep
    rw [List.length_cons] at hfuel
    rw [Expr.moreWords, List.cons_append, List.append_assoc]
    have hends := endsWhole_moreWords as hws
    rcases Nat.lt_or_ge a.levels n with hlt | hge
    · have hyield : Reads env n (.mark .comma :: (a.words ++ (Expr.moreWords as ++ ws)))
          (collect item acc) n (Expr.moreWords as ++ ws) fun r => ∃ b, r = .yield (b :: acc) := by
        refine (hra hlt _ hends).bind ?_
        rintro _ ⟨b, rfl⟩
        exact .pure ⟨b, rfl⟩
      have hmore := le_argumentLevels_of_lt hn hlt
      refine hyield.andThen ?_
      rintro _ ⟨b, rfl⟩
      exact ih (b :: acc) hreads hdeep hmore (by omega)
    · have hstep : Exceeds env n (.mark .comma :: (a.words ++ (Expr.moreWords as ++ ws)))
          (collect item acc) := by
        refine Exceeds.bind (hda hge _ hends) fun a? => ?_
        cases a? <;> exact .pure _
      refine hstep.bind fun r => ?_
      cases r with
      | done items => exact .pure _
      | yield items => exact silent_iterate (silent_collect hsilent) fuel items

theorem exceeds_moreArguments (he : env.endOfFile.kind = .endOfFile) {as : List Expr}
    (has : ∀ a ∈ as, a.Printable) (hwhole : ∀ a ∈ as, ReadsWhole env a)
    (hdeep : ∀ a ∈ as, ExceedsWhole env a) (hpos : 0 < n) (hn : n ≤ Expr.argumentLevels as)
    (hws : (headKind ws).endsWhole = true) :
    Exceeds env n (Expr.moreWords as ++ ws) (afterCommas (argument (rules n))) := by
  let item : P (Option Expr) := do
    if ← accept (.punct .comma) then return some (← argument (rules n)) else return none
  have hsilent : Silent item := .bind (silent_accept _) fun _ =>
    .ite (.bind (silent_argument n) fun _ => .pure _) (.pure _)
  have hreads : ∀ a ∈ as, a.levels < n → ∀ vs, (headKind vs).endsWhole = true →
      Reads env n (.mark .comma :: (a.words ++ vs)) item n vs fun b? => ∃ b, b? = some b := by
    intro a ha hlt vs hvs
    refine (reads_accept (w := .mark .comma) rfl).bind ?_
    rintro _ rfl
    exact (reads_argument he (has a ha) (hwhole a ha) hlt hvs).bind fun b _ => .pure ⟨b, rfl⟩
  have hexceeds : ∀ a ∈ as, n ≤ a.levels → ∀ vs, (headKind vs).endsWhole = true →
      Exceeds env n (.mark .comma :: (a.words ++ vs)) item := by
    intro a ha hge vs hvs
    refine (reads_accept (w := .mark .comma) rfl).andThen ?_
    rintro _ rfl
    exact (exceeds_argument he (has a ha) (hdeep a ha) hpos hge hvs).bind fun _ => .pure _
  refine ComesTo.of_budget fun hbudget => ?_
  have hlength := length_moreWords as
  rw [List.length_append] at hbudget
  have hloop : Exceeds env n (Expr.moreWords as ++ ws) (loop [] (collect item)) := by
    refine Reads.read.andThen ?_
    rintro _ rfl
    exact exceeds_collect [] hsilent hreads hexceeds hws hpos hn (by omega)
  rw [afterCommas, many_eq]
  exact hloop.bind fun _ => .pure _

theorem exceeds_arguments (he : env.endOfFile.kind = .endOfFile) {as : List Expr}
    (has : ∀ a ∈ as, a.Printable) (hwhole : ∀ a ∈ as, ReadsWhole env a)
    (hdeep : ∀ a ∈ as, ExceedsWhole env a) (hpos : 0 < n) (hn : n ≤ Expr.argumentLevels as)
    {p q : Punctuator} (hpair : AreBrackets p q) :
    Exceeds env n (.mark p :: (Expr.argumentWords as ++ .mark q :: ws))
      (arguments (rules n) p q) := by
  cases as with
  | nil => exact absurd hn (Nat.not_le.mpr hpos)
  | cons a as =>
    obtain ⟨ha, has⟩ := List.forall_mem_cons.mp has
    obtain ⟨hwa, hwhole⟩ := List.forall_mem_cons.mp hwhole
    obtain ⟨hda, hdeep⟩ := List.forall_mem_cons.mp hdeep
    have hends : (headKind (.mark q :: ws)).endsWhole = true := hpair.endsWhole
    have hfirst := endsWhole_moreWords as hends
    have hsome : Exceeds env n (a.words ++ (Expr.moreWords as ++ .mark q :: ws))
        (separated (argument (rules n))) := by
      rcases Nat.lt_or_ge a.levels n with hlt | hge
      · have hmore := le_argumentLevels_of_lt hn hlt
        refine (reads_argument he ha hwa hlt hfirst).andThen fun b _ => ?_
        refine Exceeds.bind ?_ fun _ => .pure _
        exact exceeds_moreArguments he has hwhole hdeep hpos hmore hends
      · refine Exceeds.bind (exceeds_argument he ha hda hpos hge hfirst) fun b => ?_
        exact .bind (silent_afterCommas (silent_argument n)) fun _ => .pure _
    exact comesTo_arguments he ha hpair
      (hsome.bind fun bs => .bind (silent_eat _) fun _ => .pure bs)

theorem exceedsSpine_invocation (he : env.endOfFile.kind = .endOfFile) (hf : ReadsSpine env e)
    (hdeep : ExceedsSpine env e) (r : Range) {as : List Expr} (has : ∀ a ∈ as, a.Printable)
    (hwhole : ∀ a ∈ as, ReadsWhole env a) (hargs : ∀ a ∈ as, ExceedsWhole env a)
    (hname : e.isNameInParens = false) : ExceedsSpine env (.invocation r e as) := by
  refine exceedsSpine_step (w := .mark .openParen) hf hdeep rfl rfl (by simp [hname]) rfl rfl ?_
  intro n ws start e' hpos hle hlt
  simp only [Expr.reach, Expr.accesses] at hle hlt
  rw [List.append_assoc]
  refine (reads_currentKind (w := .mark .openParen) rfl).andThen ?_
  rintro _ rfl
  refine Exceeds.bind (exceeds_arguments he has hwhole hargs hpos (by omega) (.inl ⟨rfl, rfl⟩)) ?_
  exact fun bs => .bind (silent_rangeFrom start) fun _ => .pure _

theorem exceedsSpine_elementAccess (he : env.endOfFile.kind = .endOfFile)
    (hf : ReadsSpine env e) (hdeep : ExceedsSpine env e) (r : Range) {as : List Expr}
    (has : ∀ a ∈ as, a.Printable) (hwhole : ∀ a ∈ as, ReadsWhole env a)
    (hargs : ∀ a ∈ as, ExceedsWhole env a) : ExceedsSpine env (.elementAccess r e as) := by
  refine exceedsSpine_step (w := .mark .openBracket) hf hdeep rfl rfl (fun _ => rfl) rfl rfl ?_
  intro n ws start e' hpos hle hlt
  simp only [Expr.reach, Expr.accesses] at hle hlt
  rw [List.append_assoc]
  refine (reads_currentKind (w := .mark .openBracket) rfl).andThen ?_
  rintro _ rfl
  refine Exceeds.bind (exceeds_arguments he has hwhole hargs hpos (by omega) (.inr ⟨rfl, rfl⟩)) ?_
  exact fun bs => .bind (silent_rangeFrom start) fun _ => .pure _

/-! ### Operators -/

theorem exceedsUnary_of_spine (h : ExceedsSpine env e) : ExceedsUnary env e := by
  intro n ws hpos hn hws
  have hcast := (TokenKind.followsOperand_spec hws).2
  obtain ⟨m, rfl⟩ : ∃ m, n = m + 1 := ⟨n - 1, by omega⟩
  refine Exceeds.nested silent_missingExpression (fun k hk => ?_) hpos
  obtain rfl : m = k + 1 := by omega
  exact h (k + 1) ws (Nat.succ_pos k) (by omega) fun _ => hcast

theorem exceedsUnary_prefixUnary (h : ExceedsUnary env e) (r s : Range) {q : Punctuator}
    (hq : isPrefixOperator (.punct q) = true) :
    ExceedsUnary env (.prefixUnary r ⟨.punct q, s, false⟩ e) := by
  intro n ws hpos hn hws
  rw [Expr.reach] at hn
  have hsingle : (TokenKind.punct q).pieces = [.punct q] := by
    cases q <;> first | rfl | cases hq
  obtain ⟨m, rfl⟩ : ∃ m, n = m + 1 := ⟨n - 1, by omega⟩
  refine Exceeds.nested silent_missingExpression (fun k hk => ?_) hpos
  obtain rfl : m = k + 1 := by omega
  refine (reads_current (w := .mark q) hsingle).andThen fun t ht => ?_
  have hk : t.kind = .punct q := ht.kind
  rw [hk, if_pos hq]
  refine (reads_take (w := .mark q) hsingle).andThen fun o _ => ?_
  refine Exceeds.bind (h (k + 1) ws (Nat.succ_pos k) (by omega) hws) fun e' => ?_
  exact .bind (silent_rangeFrom _) fun _ => .pure _

theorem exceedsChain_of_unary (h : ExceedsUnary env e) : ExceedsChain env e := by
  intro n least ws hpos hn _ hws _
  refine reads_current_any.andThen fun t _ => ?_
  exact Exceeds.bind (h n ws hpos hn hws) (silent_binaryTail n 0 least t.start)

/-- The limit is hit in the left operand or, once the level of the operator was entered, in the
right one. -/
theorem exceedsChain_binary {l f : Expr} (hl : ReadsChain env l) (hdl : ExceedsChain env l)
    (hdf : ExceedsChain env f) (r s : Range) {q : Punctuator} {p : Precedence}
    (hq : Precedence.ofOperator? (.punct q) = some p) (hleft : p.leftRank < l.tightness)
    (hright : p.rightRank < f.tightness) :
    ExceedsChain env (.binary r l ⟨.punct q, s, false⟩ f) := by
  intro n least ws hpos hn hleast hws hnext
  rw [Expr.tightness_binary r s l f hq] at hleast hnext
  simp only [Expr.reach] at hn
  have hrank := p.rank_le_leftRank
  have hsplit : (Expr.binary r l ⟨.punct q, s, false⟩ f).words ++ ws =
      l.words ++ .mark q :: (f.words ++ ws) := by simp
  have hfollows : (headKind (.mark q :: (f.words ++ ws))).followsOperand = true :=
    TokenKind.followsOperand_of_ofOperator? hq
  have hoperator : ∀ p', Precedence.ofOperator? (headKind (.mark q :: (f.words ++ ws))) = some p' →
      p'.leftRank < l.tightness := by
    intro p' hp'
    obtain rfl : p = p' := Option.some_inj.mp (hq.symm.trans hp')
    exact hleft
  rw [hsplit]
  rcases Nat.lt_or_ge l.reach n with hlt | hge
  · -- the left operand is read, so it is the right one for which the levels are too few
    have hoperators := l.operators_lt_reach
    obtain ⟨m, rfl⟩ : ∃ m, n = l.operators + (m + 2) := ⟨n - l.operators - 2, by omega⟩
    refine hl _ least _ _ hlt (by omega) hfollows hoperator fun start l' hl' => ?_
    rw [Nat.add_sub_cancel_left]
    refine (reads_nextOperator? (w := .mark q) hq (by omega)).andThen ?_
    rintro _ ⟨o, rfl, hkind, hwidth⟩
    refine Reads.enter.andThen ?_
    rintro _ rfl
    have hrightEnds := fun p' hp' => (Precedence.ends_right (hnext p' hp') hright).1
    have hstep : Exceeds env (m + 1) (.mark q :: (f.words ++ ws))
        (binaryStep (rules (m + 1)) start l' o p) := by
      rw [binaryStep, hwidth]
      refine (reads_advanceBy (.mark q)).andThen fun _ _ => ?_
      simp only [hkind, Lexeme.kind_spelling]
      refine Exceeds.bind (hdf _ _ ws (Nat.succ_pos m) (by omega) hright hws hrightEnds) ?_
      exact fun f' => .bind (silent_rangeFrom start) fun _ => .pure _
    exact hstep.bind (silent_binaryTail (m + 1) (l.operators + 1) least start)
  · exact hdl n least _ hpos hge (by omega) hfollows hoperator

/-! ### Whole expressions -/

theorem exceeds_conditional_of_binary
    (h : Exceeds env n ws (binary (rules n) Precedence.coalescing.rank)) :
    Exceeds env n ws (conditional (rules n)) := by
  refine reads_current_any.andThen fun t _ => h.bind fun condition => ?_
  refine .bind (silent_accept _) fun _ => .ite ?_ (.pure _)
  refine .bind (silent_expression n) fun _ => .bind (silent_eat _) fun _ => ?_
  exact .bind (silent_expression n) fun _ => .bind (silent_rangeFrom _) fun _ => .pure _

theorem exceeds_assignment_of_conditional (h : Exceeds env n ws (conditional (rules n))) :
    Exceeds env n ws (assignment (rules n)) := by
  refine reads_current_any.andThen fun t _ => h.bind fun left => ?_
  refine .bind .read fun _ => .bind .get fun _ => .ite ?_ (.pure _)
  refine .bind (silent_advanceBy _) fun _ => .bind (silent_expression n) fun _ => ?_
  exact .bind (silent_rangeFrom _) fun _ => .pure _

theorem exceedsWhole_of_assignment
    (h : ∀ n ws, 0 < n → n ≤ e.reach → (headKind ws).endsWhole = true →
      Exceeds env n (e.words ++ ws) (assignment (rules n))) : ExceedsWhole env e := by
  intro n ws hpos hn hws
  rw [Expr.levels] at hn
  obtain ⟨m, rfl⟩ : ∃ m, n = m + 1 := ⟨n - 1, by omega⟩
  refine Exceeds.nested silent_missingExpression (fun k hk => ?_) hpos
  obtain rfl : m = k + 1 := by omega
  refine Reads.get.andThen fun s hs => ?_
  obtain ⟨reported, hs⟩ := hs
  rw [hs.spaced.startsQuery, if_neg Bool.false_ne_true]
  exact h (k + 1) ws (Nat.succ_pos k) (by omega) hws

theorem exceedsWhole_of_chain (h : ExceedsChain env e) (htight : 0 < e.tightness) :
    ExceedsWhole env e := by
  refine exceedsWhole_of_assignment fun n ws hpos hn hws => ?_
  obtain ⟨hfollows, -, hop, -⟩ := TokenKind.endsWhole_spec hws
  refine exceeds_assignment_of_conditional (exceeds_conditional_of_binary ?_)
  exact h n _ ws hpos hn htight hfollows (by simp [hop])

theorem exceedsWhole_conditional (he : env.endOfFile.kind = .endOfFile) {c t f : Expr} (r : Range)
    (hc : ReadsChain env c) (hdc : ExceedsChain env c) (ht : ReadsWhole env t)
    (hdt : ExceedsWhole env t) (hdf : ExceedsWhole env f) (htight : 0 < c.tightness) :
    ExceedsWhole env (.conditional r c t f) := by
  refine exceedsWhole_of_assignment fun n ws hpos hn hws => exceeds_assignment_of_conditional ?_
  simp only [Expr.reach] at hn
  have hsplit : (Expr.conditional r c t f).words ++ ws =
      c.words ++ .mark .question :: (t.words ++ .mark .colon :: (f.words ++ ws)) := by simp
  rw [hsplit]
  rcases Nat.lt_or_ge c.reach n with hlt | hge
  · have hcond (vs : List Lexeme) : Reads env n (c.words ++ .mark .question :: vs)
        (binary (rules n) Precedence.coalescing.rank) n (.mark .question :: vs) c.Alike :=
      reads_binary he hc hlt htight rfl (by rintro p ⟨⟩)
    refine reads_current_any.andThen fun u _ => (hcond _).andThen fun c' _ => ?_
    refine (reads_accept (w := .mark .question) rfl).andThen ?_
    rintro _ rfl
    rw [if_pos rfl]
    rcases Nat.lt_or_ge t.levels n with hlt' | hge'
    · refine (ht n _ hlt' rfl).andThen fun t' _ => ?_
      refine (reads_eat (w := .mark .colon) rfl).andThen fun _ _ => ?_
      have hlevels : n ≤ f.levels := by
        rw [Expr.levels] at hlt' ⊢
        omega
      refine Exceeds.bind (hdf n ws hpos hlevels hws) fun f' => ?_
      exact .bind (silent_rangeFrom _) fun _ => .pure _
    · refine Exceeds.bind (hdt n _ hpos hge' rfl) fun t' => .bind (silent_eat _) fun _ => ?_
      exact .bind (silent_expression n) fun _ => .bind (silent_rangeFrom _) fun _ => .pure _
  · exact exceeds_conditional_of_binary (hdc n _ _ hpos hge htight rfl (by rintro p ⟨⟩))

theorem exceedsWhole_assignment (he : env.endOfFile.kind = .endOfFile) {l f : Expr} (r s : Range)
    {q : Punctuator} (hq : q.isAssignment = true) (hl : ReadsChain env l)
    (hdl : ExceedsChain env l) (hdf : ExceedsWhole env f) (htight : 0 < l.tightness) :
    ExceedsWhole env (.assignment r l ⟨.punct q, s, false⟩ f) := by
  refine exceedsWhole_of_assignment fun n ws hpos hn hws => ?_
  simp only [Expr.reach] at hn
  have hsplit : (Expr.assignment r l ⟨.punct q, s, false⟩ f).words ++ ws =
      l.words ++ .mark q :: (f.words ++ ws) := by simp
  have hassigns : (TokenKind.punct q).isAssignment = true := hq
  obtain ⟨hfollows, hop, hquestion⟩ := TokenKind.isAssignment_spec hassigns
  rw [hsplit]
  rcases Nat.lt_or_ge l.reach n with hlt | hge
  · have hleft : Reads env n (l.words ++ .mark q :: (f.words ++ ws)) (conditional (rules n)) n
        (.mark q :: (f.words ++ ws)) l.Alike :=
      reads_conditional_of_chain he hl hlt htight hfollows hop hquestion
    refine reads_current_any.andThen fun t _ => hleft.andThen fun l' _ => ?_
    refine Reads.read.andThen ?_
    rintro env' rfl
    refine Reads.get.andThen fun u hu => ?_
    obtain ⟨reported, hu⟩ := hu
    obtain ⟨hkind, hwidth, -⟩ := hu.written.next env'.endOfFile
    simp only [hkind, hwidth, Lexeme.kind_spelling, if_pos hassigns]
    refine (reads_advanceBy (.mark q)).andThen fun _ _ => ?_
    refine Exceeds.bind (hdf n ws hpos (by rw [Expr.levels]; omega) hws) fun f' => ?_
    exact .bind (silent_rangeFrom _) fun _ => .pure _
  · have hnext : ∀ p, Precedence.ofOperator? (headKind (.mark q :: (f.words ++ ws))) = some p →
        p.leftRank < l.tightness := by
      intro p hp
      cases hop.symm.trans hp
    refine exceeds_assignment_of_conditional (exceeds_conditional_of_binary ?_)
    exact hdl n _ _ hpos hge htight hfollows hnext

end CSharpFront.Parser
