import CSharpFront.Proofs.Parser.Climbing
import CSharpFront.Proofs.Parser.NestingLimit
/-!
Type tests as conditions. A type takes the `?` that comes right after it, unless it ends in brackets
or has a `?` already. So a test that stands before the `?` of a choice loses it to its type, and the
choice is never read as one.
-/

namespace CSharpFront

/-- Whether a type, as it stands, would take a `?` right after it. -/
def TypeSyntax.takesQuestion : TypeSyntax → Bool
  | .predefined _ _ | .name _ | .qualified _ _ _ | .generic _ _ _ => true
  | .nullable _ _ | .array _ _ _ | .missing _ => false

/-- A type is settled before some tokens: they begin with no `?` that it would take. -/
def TypeSyntax.Settled (t : TypeSyntax) (ts : List Token) : Prop :=
  t.takesQuestion = true → Lookahead.kind ts ≠ .punct .question

theorem TypeSyntax.settled_of_false {t : TypeSyntax} (h : t.takesQuestion = false)
    (ts : List Token) : t.Settled ts :=
  fun htakes => nomatch h.symm.trans htakes

namespace Expr

/-- Whether an expression is a test of a type that would take a `?` right after it. -/
def takesQuestion : Expr → Bool
  | .typeTest _ _ _ t => t.takesQuestion
  | _ => false

/-- An expression is settled before some tokens: they begin with no `?` that it would take, and its
condition would have taken none. -/
structure Settled (e : Expr) (ts : List Token) : Prop where
  untaken : e.takesQuestion = true → Lookahead.kind ts ≠ .punct .question
  condition {range : Range} {c a b : Expr} : e = .conditional range c a b → c.takesQuestion = false

variable {e : Expr} {ts : List Token}

theorem IsTight.settled (h : e.IsTight) (ts : List Token) : e.Settled ts := by
  cases e with
  | typeTest | conditional => exact h.elim
  | _ => exact ⟨nofun, nofun⟩

/-- At the end of the text no `?` follows. -/
theorem Settled.of_eq_or_nil {us : List Token} (h : e.Settled ts) (hus : us = ts ∨ us = []) :
    e.Settled us := by
  obtain rfl | rfl := hus
  · exact h
  · exact ⟨fun _ => nofun, h.condition⟩

/-- What is settled before a `?` can be a condition. -/
theorem Settled.conditional (h : e.Settled ts) (hk : Lookahead.kind ts = .punct .question)
    (range : Range) (a b : Expr) (us : List Token) : (Expr.conditional range e a b).Settled us where
  untaken := nofun
  condition := by
    rintro _ c _ _ ⟨rfl⟩
    exact Bool.eq_false_iff.mpr fun htakes => h.untaken htakes hk

end Expr

namespace Parser

variable {α β : Type} {env : Env} {s : State} {p : P α} {post : α → List Token → Prop}

/-! ### Results and what is left after them -/

/-- From a state on, the result of a parser stands in a relation to the tokens that it leaves. -/
def LeavesFrom (env : Env) (s : State) (p : P α) (post : α → List Token → Prop) : Prop :=
  post (p env s).1 (p env s).2.rest

/-- A parser whose results stand in a relation to the tokens that it leaves, wherever it starts. -/
def Leaves (env : Env) (p : P α) (post : α → List Token → Prop) : Prop :=
  ∀ s, LeavesFrom env s p post

namespace Leaves

theorem pure {a : α} (h : ∀ ts, post a ts) : Leaves env (Pure.pure a) post := fun s => h s.rest

theorem bind {q : P β} {f : β → P α} {mid : β → List Token → Prop} (hq : Leaves env q mid)
    (hf : ∀ b s, mid b s.rest → LeavesFrom env s (f b) post) : Leaves env (q >>= f) post :=
  fun s => hf (q env s).1 (q env s).2 (hq s)

/-- A step of which nothing need be known. -/
theorem next {q : P β} {f : β → P α} (h : ∀ b, Leaves env (f b) post) :
    Leaves env (q >>= f) post :=
  fun s => h (q env s).1 (q env s).2

theorem ite {c : Prop} [Decidable c] {q : P α} (hp : c → Leaves env p post)
    (hq : ¬ c → Leaves env q post) : Leaves env (if c then p else q) post := by
  split
  next h => exact hp h
  next h => exact hq h

/-- Leaving a level takes no token. -/
theorem nested {refused : P α} (hr : Leaves env refused post) (hp : Leaves env p post) :
    Leaves env (nested refused p) post :=
  .next fun _ => .ite (fun _ => fun s => hp s) fun _ => hr

end Leaves

/-- Giving up leaves no tokens, unless that was done before. -/
theorem rest_refuse (env : Env) (s : State) :
    (refuse env s).2.rest = s.rest ∨ (refuse env s).2.rest = [] := by
  cases h : s.tooDeep with
  | true =>
    have hrun : refuse env s = ((), s) := by
      show (if s.tooDeep = true then _ else _ : P Unit) env s = _
      rw [if_pos h]
      rfl
    exact .inl (by rw [hrun])
  | false => exact .inr (by rw [refuse_apply h]; rfl)

theorem rest_enter (env : Env) (s : State) :
    (enter env s).2.rest = s.rest ∨ (enter env s).2.rest = [] := by
  cases h : s.tooDeep with
  | true => exact .inl (by rw [enter_of_tooDeep h])
  | false =>
    rcases Nat.lt_or_ge s.depth env.maxDepth with hlt | hge
    · exact .inl (by rw [enter_of_lt h hlt]; rfl)
    · rw [enter_of_le h hge]
      exact rest_refuse env s

/-- A `?` is accepted just where one comes next. -/
theorem accept_question (env : Env) (s : State) :
    (accept (.punct .question) env s).1 = true ∧
        (s.rest.headD env.endOfFile).kind = .punct .question ∨
      accept (.punct .question) env s = (false, s) ∧
        Lookahead.kind s.rest ≠ .punct .question := by
  by_cases h : (s.rest.headD env.endOfFile).kind = .punct .question
  · refine .inl ⟨?_, h⟩
    show ((if (s.rest.headD env.endOfFile).kind = .punct .question then _ else _ : P Bool)
      env s).1 = _
    rw [if_pos h]
    rfl
  · refine .inr ⟨?_, ?_⟩
    · show (if (s.rest.headD env.endOfFile).kind = .punct .question then _ else _ : P Bool)
        env s = _
      rw [if_neg h]
      rfl
    · cases hrest : s.rest with
      | nil => exact nofun
      | cons t ts =>
        rw [hrest] at h
        exact h

/-! ### Types -/

/-- A round of reading brackets makes an array, or leaves everything as it is. -/
theorem rankStep_cases (env : Env) (start : Nat) (type : TypeSyntax) (s : State) :
    rankStep start type env s = (.done type, s) ∨
      ∃ range rank t, rankStep start type env s = (.yield (.array range type rank), t) := by
  by_cases h : Lookahead.kind s.rest = .punct .openBracket ∧
      (Lookahead.secondKind s.rest = .punct .closeBracket ∨
        Lookahead.secondKind s.rest = .punct .comma)
  · refine .inr ?_
    rw [rankStep, bind_apply]
    simp only [show (MonadState.get : P State) env s = (s, s) from rfl, if_pos h]
    exact ⟨_, _, _, rfl⟩
  · refine .inl ?_
    rw [rankStep, bind_apply]
    simp only [show (MonadState.get : P State) env s = (s, s) from rfl, if_neg h]
    rfl

/-- A type with brackets takes no `?`; without, nothing has been taken. -/
theorem iterate_rankStep (env : Env) (start m : Nat) (type : TypeSyntax) (s : State) :
    let run := iterate (rankStep start) m type env s
    run.1.takesQuestion = false ∨ run.1 = type ∧ run.2.rest = s.rest := by
  induction m generalizing type s with
  | zero => exact .inr ⟨rfl, rfl⟩
  | succ m ih =>
    intro run
    obtain hstep | ⟨range, rank, t, hstep⟩ := rankStep_cases env start type s
    · have hrun : run = (type, s) := by
        simp only [run]
        rw [iterate, bind_apply, hstep]
        rfl
      exact .inr (by rw [hrun]; exact ⟨rfl, rfl⟩)
    · have hrun : run = iterate (rankStep start) m (.array range type rank) env t := by
        simp only [run]
        rw [iterate, bind_apply, hstep]
      rw [hrun]
      obtain h | ⟨h, -⟩ := ih (.array range type rank) t
      · exact .inl h
      · exact .inl (by rw [h]; rfl)

/-- The brackets after a type, where they are read. -/
theorem settled_brackets (withRanks : Bool) (start : Nat) (type : TypeSyntax)
    (h : type.Settled s.rest) :
    LeavesFrom env s (if withRanks then rankSpecifiers start type else return type)
      TypeSyntax.Settled := by
  cases withRanks with
  | true =>
    obtain hfalse | ⟨htype, hrest⟩ := iterate_rankStep env start env.budget type s
    · exact TypeSyntax.settled_of_false hfalse _
    · show TypeSyntax.Settled (iterate (rankStep start) env.budget type env s).1
        (iterate (rankStep start) env.budget type env s).2.rest
      rw [htype, hrest]
      exact h
  | false => exact h

theorem leaves_typeRest (withRanks : Bool) (start : Nat) (core? : Option TypeSyntax) :
    Leaves env (typeRest withRanks start core?) TypeSyntax.Settled := by
  cases core? with
  | none =>
    exact .next fun _ => .next fun _ => .next fun _ =>
      .pure fun _ => TypeSyntax.settled_of_false rfl _
  | some core =>
    intro s
    rw [LeavesFrom, typeRest, bind_apply]
    rcases accept_question env s with ⟨htaken, -⟩ | ⟨huntaken, hk⟩
    · rw [htaken]
      exact settled_brackets withRanks start (.nullable _ core) (TypeSyntax.settled_of_false rfl _)
    · rw [huntaken]
      exact settled_brackets withRanks start core fun _ => hk

theorem leaves_type (n : Nat) (withRanks : Bool) :
    Leaves env ((rules n).type withRanks) TypeSyntax.Settled := by
  have hmissing : Leaves env missingType TypeSyntax.Settled :=
    .next fun _ => .pure fun _ => TypeSyntax.settled_of_false rfl _
  cases n with
  | zero => exact .next fun _ => .next fun _ => hmissing
  | succ n => exact .nested hmissing (.next fun _ => .next fun _ => leaves_typeRest _ _ _)

/-! ### Chains -/

theorem leaves_binaryStep (n start : Nat) (left : Expr) (operator : Operator) (p : Precedence) :
    Leaves env (binaryStep (rules n) start left operator p) Expr.Settled := by
  refine .next fun _ => ?_
  split
  · exact fun s => ⟨leaves_type n true s, nofun⟩
  · exact .next fun _ => .next fun _ => .pure fun _ => ⟨nofun, nofun⟩

/-- A chain that is settled stays so, however it goes on. -/
theorem settled_binaryTail (n levels least start : Nat) {left : Expr} (h : left.Settled s.rest) :
    LeavesFrom env s ((rules n).binaryTail levels least start left) Expr.Settled := by
  induction n generalizing levels left s with
  | zero => exact h.of_eq_or_nil (rest_refuse env { s with ranOut := true })
  | succ n ih =>
    show LeavesFrom env s (binaryTailBody (rules n) levels least start left) Expr.Settled
    obtain ⟨next?, hnext⟩ : ∃ next?, nextOperator? least env s = (next?, s) :=
      ⟨_, nextOperator?_apply least s⟩
    cases next? with
    | none =>
      rw [LeavesFrom, binaryTailBody_of_none hnext]
      exact h
    | some next =>
      rw [LeavesFrom, binaryTailBody_of_some hnext]
      split
      · exact ih (levels + 1) (leaves_binaryStep n start left next.1 next.2 _)
      · exact h.of_eq_or_nil (rest_enter env s)

theorem leaves_binary (n least : Nat) : Leaves env (binary (rules n) least) Expr.Settled := by
  refine .next fun start => fun s => settled_binaryTail n 0 least start.start ?_
  have htight : ((rules n).unary env s).1.IsTight :=
    ((keepOperands_rules (fun _ h => h) n).unary env s trivial).1
  exact htight.settled _

/-! ### Expressions -/

section

variable (hend : env.endOfFile.kind = .endOfFile)

include hend

theorem leaves_conditional (n : Nat) : Leaves env (conditional (rules n)) Expr.Settled := by
  refine .next fun start => .bind (leaves_binary n _) fun condition s hcondition => ?_
  rw [LeavesFrom, bind_apply]
  rcases accept_question env s with ⟨htaken, hk⟩ | ⟨huntaken, -⟩
  · have hquestion : Lookahead.kind s.rest = .punct .question := by
      cases hrest : s.rest with
      | nil => rw [hrest, List.headD_nil, hend] at hk; cases hk
      | cons u us => rwa [hrest] at hk
    have hrest : Leaves env (do
        let whenTrue ← (rules n).expression
        let _ ← eat (.punct .colon)
        let whenFalse ← (rules n).expression
        return .conditional (← rangeFrom start.start) condition whenTrue whenFalse)
        Expr.Settled :=
      .next fun _ => .next fun _ => .next fun _ => .next fun _ =>
        .pure fun _ => hcondition.conditional hquestion _ _ _ _
    rw [htaken]
    exact hrest _
  · rw [huntaken]
    exact hcondition

theorem leaves_assignment (n : Nat) : Leaves env (assignment (rules n)) Expr.Settled := by
  refine .next fun start => .bind (leaves_conditional hend n) fun left s hleft => ?_
  show LeavesFrom env s
    (if (Operator.next env.endOfFile s.rest).kind.isAssignment = true then _ else pure left) _
  split
  · have hrest (operator : Operator) : Leaves env (do
        advanceBy operator.width
        let right ← (rules n).expression
        return .assignment (← rangeFrom start.start) left operator.leaf right) Expr.Settled :=
      .next fun _ => .next fun _ => .next fun _ => .pure fun _ => ⟨nofun, nofun⟩
    exact hrest _ _
  · exact hleft

theorem leaves_expression (n : Nat) : Leaves env (rules n).expression Expr.Settled := by
  have hmissing : Leaves env missingExpression Expr.Settled :=
    .next fun _ => .pure fun _ => ⟨nofun, nofun⟩
  cases n with
  | zero => exact .next fun _ => .next fun _ => hmissing
  | succ n =>
    have hquery : Leaves env (query (rules n)) Expr.Settled :=
      .next fun _ => .next fun _ => .next fun _ => .next fun _ => .pure fun _ => ⟨nofun, nofun⟩
    exact .nested hmissing (.next fun _ => .ite (fun _ => hquery) fun _ => leaves_assignment hend n)

/-- An expression that is read as a choice has no test as its condition whose type, as it stands,
would take a `?`: such a type has taken the `?` of the choice. -/
theorem condition_parseExpression {range : Range} {c a b : Expr}
    (h : (parseExpression env s).1 = .conditional range c a b) : c.takesQuestion = false :=
  (leaves_expression hend env.bound s).condition h

end

end Parser

end CSharpFront
