import CSharpFront.Proofs.Lexer.Scan
import CSharpFront.Proofs.Parser.OrderlyRules
import CSharpFront.Proofs.Parser.Reads
import CSharpFront.Proofs.Parser.Keeps
import CSharpFront.Proofs.Syntax.Printing
/-!
Climbing precedences. A chain of binary operators groups as their ranks say, none of them has a
rank below the least one, and the chain ends only where no such operator follows. Read in their
order, its operands, operators and types are the tokens that were taken.
-/

namespace CSharpFront

/-! ### Chains in a tree -/

/-- A part of a chain: what `is` and `as` have at their right is a type. -/
inductive Link
  | operand (e : Expr)
  | operator (leaf : Leaf)
  | type (t : TypeSyntax)

namespace Expr

/-- The parts of a chain in their order. What is not itself a chain is a single operand. -/
def chain : Expr → List Link
  | .binary _ l o e => l.chain ++ .operator o :: e.chain
  | .typeTest _ l o t => l.chain ++ [.operator o, .type t]
  | e => [.operand e]

/-- The precedence of a binary operator at the top. -/
def precedence? : Expr → Option Precedence
  | .binary _ _ o _ => Precedence.ofOperator? o.kind
  | _ => none

/-- The left operand binds at least as tightly as the operator where it is a chain itself, and the
right operand more tightly; for `??` it is the other way round. -/
def Grouped : Expr → Prop
  | .binary _ l o e =>
    (∀ p ∈ Precedence.ofOperator? o.kind,
      (∀ q ∈ l.precedence?, p.leftRank ≤ q.rank) ∧ ∀ q ∈ e.precedence?, p.rightRank ≤ q.rank) ∧
    l.Grouped ∧ e.Grouped
  | .typeTest _ l o _ =>
    (∀ p ∈ Precedence.ofOperator? o.kind, ∀ q ∈ l.precedence?, p.leftRank ≤ q.rank) ∧ l.Grouped
  | _ => True

/-- Whether an expression is no chain itself. -/
def IsOperand : Expr → Prop
  | .binary _ _ _ _ | .typeTest _ _ _ _ => False
  | _ => True

/-- Whether an expression is a single operand wherever it stands: no chain, no choice, no
assignment and no query. -/
def IsTight : Expr → Prop
  | .binary _ _ _ _ | .typeTest _ _ _ _ | .conditional _ _ _ _ | .assignment _ _ _ _
  | .query _ _ _ => False
  | _ => True

variable {e : Expr}

theorem IsTight.isOperand (h : e.IsTight) : e.IsOperand := by
  cases e with
  | binary | typeTest => exact h.elim
  | _ => trivial

theorem IsOperand.chain_eq (h : e.IsOperand) : e.chain = [.operand e] := by
  cases e with
  | binary | typeTest => exact h.elim
  | _ => rfl

theorem IsOperand.precedence?_eq (h : e.IsOperand) : e.precedence? = none := by
  cases e with
  | binary => exact h.elim
  | _ => rfl

theorem IsOperand.grouped (h : e.IsOperand) : e.Grouped := by
  cases e with
  | binary | typeTest => exact h.elim
  | _ => trivial

/-- The operator at the top is one of the chain. -/
theorem exists_of_mem_precedence? {p : Precedence} (h : p ∈ e.precedence?) :
    ∃ leaf, .operator leaf ∈ e.chain ∧ Precedence.ofOperator? leaf.kind = some p := by
  cases e with
  | binary _ l o e => exact ⟨o, by simp [chain], h⟩
  | _ => cases h

end Expr

theorem Precedence.rank_le_rightRank (p : Precedence) : p.rank ≤ p.rightRank := by
  cases p <;> decide

/-- An operator that ends a right operand binds no more tightly than the operator before it. -/
theorem Precedence.leftRank_le_of_lt_rightRank {p q : Precedence} (h : q.rank < p.rightRank) :
    q.leftRank ≤ p.rank := by
  revert h
  cases p <;> cases q <;> decide

namespace Parser

variable {tokens : List Token} {env : Env} {r : Rules} {n m least levels start : Nat}
  {s t u : State} {left e : Expr} {links links' : List Link} {ts us vs : List Token}

/-! ### Operands are no chains -/

/-- Rules whose operands are no chains. -/
structure Rules.YieldOperands (r : Rules) : Prop where
  unary : Yields r.unary Expr.IsOperand
  postfixTail (levels start : Nat) {operand : Expr} (h : operand.IsOperand) :
    Yields (r.postfixTail levels start operand) Expr.IsOperand

/-- Rules whose operands have a property, so long as those have it that they start from. -/
structure Rules.KeepOperands (r : Rules) (post : Expr → Prop) : Prop where
  unary : Yields r.unary post
  postfixTail (levels start : Nat) {operand : Expr} (h : post operand) :
    Yields (r.postfixTail levels start operand) post

theorem yieldsTight_missing : Yields missingExpression Expr.IsTight :=
  .next fun _ => .pure trivial

theorem yieldsTight_creation (r : Rules) : Yields (creation r) Expr.IsTight := by
  refine .next fun _ => .next fun _ => .next fun _ => .ite (fun _ => ?_) fun _ => ?_
  · exact .next fun _ => .next fun _ => .next fun _ => .next fun _ => .next fun _ => .pure trivial
  refine .next fun _ => .next fun _ => ?_
  have hobject (start : Nat) (type : TypeSyntax) :
      Yields (objectCreationRest r start type) Expr.IsTight :=
    .next fun _ => .ite
      (fun _ => .next fun _ => .next fun _ => .next fun _ => .next fun _ => .pure trivial)
      fun _ => .next fun _ => .next fun _ => .next fun _ => .pure trivial
  split
  · exact .next fun _ => .next fun _ => .next fun _ => .next fun _ => .next fun _ => .next fun _ =>
      .next fun _ => .pure trivial
  · exact hobject _ _
  · exact hobject _ _
  · exact .next fun _ => .next fun _ => .next fun _ => .pure trivial

theorem yieldsTight_primary (r : Rules) : Yields (primary r) Expr.IsTight := by
  refine .next fun t => ?_
  split
  · exact .next fun _ => .pure trivial
  split
  · exact .next fun _ => .pure trivial
  split
  · exact .next fun _ => .next fun _ => .pure trivial
  · exact .next fun _ => .pure trivial
  · exact .next fun _ => .next fun _ => .next fun _ => .next fun _ => .pure trivial
  · exact yieldsTight_creation r
  · exact .next fun _ => .ite (fun _ => .next fun _ => yieldsTight_missing)
      fun _ => .next fun _ => yieldsTight_missing

theorem yieldsTight_postfixStep (r : Rules) (start : Nat) (operand : Expr) :
    Yields (postfixStep r start operand) Expr.IsTight := by
  refine .next fun _ => ?_
  split
  · exact .next fun _ => .next fun _ => .next fun _ => .pure trivial
  · exact .next fun _ => .next fun _ => .next fun _ => .pure trivial
  · exact .next fun _ => .next fun _ => .pure trivial
  · exact .next fun _ => .next fun _ => .pure trivial
  · exact .next fun _ => .next fun _ => .pure trivial

variable {post : Expr → Prop}

theorem keepOperand_unaryBody (ht : ∀ e : Expr, e.IsTight → post e) (hr : r.KeepOperands post) :
    Yields (unaryBody r) post := by
  refine .next fun t => .ite (fun _ => ?_) fun _ => .next fun _ => .ite (fun _ => ?_) fun _ => ?_
  · exact .next fun _ => .next fun _ => .next fun _ => .pure (ht _ trivial)
  · exact .next fun _ => .next fun _ => .next fun _ => .pure (ht _ trivial)
  refine .next fun _ => .next fun _ => .ite (fun _ => ?_) fun _ => ?_
  · exact .next fun _ => .next fun _ => .next fun _ => .next fun _ => .next fun _ => .next fun _ =>
      .pure (ht _ trivial)
  · exact .bind (yieldsTight_primary r) fun e he => hr.postfixTail _ _ (ht e he)

theorem keepOperands_rules (ht : ∀ e : Expr, e.IsTight → post e) (n : Nat) :
    (rules n).KeepOperands post := by
  have hmissing : Yields missingExpression post := yieldsTight_missing.imp ht
  induction n with
  | zero =>
    exact ⟨.next fun _ => .next fun _ => hmissing,
      fun _ _ _ h => .next fun _ => .next fun _ => .next fun _ => .pure h⟩
  | succ n ih =>
    refine ⟨.nested (.any _) hmissing (keepOperand_unaryBody ht ih), fun _ _ _ h => ?_⟩
    have hleave (levels : Nat) {e : Expr} (he : post e) :
        Yields (do leave levels; return e) post := .next fun _ => .pure he
    refine .next fun _ => .ite (fun _ => .next fun _ => .ite (fun _ => ?_) fun _ => hleave _ h)
      fun _ => hleave _ h
    exact .bind (yieldsTight_postfixStep _ _ _) fun e he => ih.postfixTail _ _ (ht e he)

theorem yieldOperands_rules (n : Nat) : (rules n).YieldOperands :=
  have hr : (rules n).KeepOperands Expr.IsOperand := keepOperands_rules (fun _ h => h.isOperand) n
  ⟨hr.unary, fun levels start _ h => hr.postfixTail levels start h⟩

/-! ### Reading chains -/

/-- The parts of a chain are read from some tokens on until others are left: each operand and each
type by its parser, in a state on the way from a first one, and each operator as the tokens make
it. -/
inductive Reading (env : Env) (s : State) : List Link → List Token → List Token → Prop
  | nil {ts : List Token} : Reading env s [] ts ts
  | operand {links : List Link} {vs : List Token} {t : State} {m : Nat} (ht : Leads env s t)
      (hm : Leads env t ((rules m).unary env t).2)
      (h : Reading env s links ((rules m).unary env t).2.rest vs) :
    Reading env s (.operand ((rules m).unary env t).1 :: links) t.rest vs
  | operator {links : List Link} {ts vs : List Token}
      (h : Reading env s links (ts.drop (Operator.next env.endOfFile ts).width) vs) :
    Reading env s (.operator (Operator.next env.endOfFile ts).leaf :: links) ts vs
  | type {links : List Link} {vs : List Token} {t : State} {m : Nat} (ht : Leads env s t)
      (hm : Leads env t ((rules m).type true env t).2)
      (h : Reading env s links ((rules m).type true env t).2.rest vs) :
    Reading env s (.type ((rules m).type true env t).1 :: links) t.rest vs

namespace Reading

theorem append (h : Reading env s links ts us) (h' : Reading env s links' us vs) :
    Reading env s (links ++ links') ts vs := by
  induction h with
  | nil => exact h'
  | operand ht hm _ ih => exact .operand ht hm (ih h')
  | operator _ ih => exact .operator (ih h')
  | type ht hm _ ih => exact .type ht hm (ih h')

theorem of_leads (h : Reading env t links ts us) (hs : Leads env s t) :
    Reading env s links ts us := by
  induction h with
  | nil => exact .nil
  | operand ht hm _ ih => exact .operand (hs.trans ht) hm ih
  | operator _ ih => exact .operator ih
  | type ht hm _ ih => exact .type (hs.trans ht) hm ih

/-- What is read are the first of the tokens. -/
theorem suffix (h : Reading env s links ts us) : us <:+ ts := by
  induction h with
  | nil => exact List.suffix_rfl
  | operand _ hm _ ih | type _ hm _ ih => exact ih.trans hm.rest_suffix
  | operator _ ih => exact ih.trans (List.drop_suffix _ _)

end Reading

/-- A chain as it may be gone on with before some tokens. -/
structure Climbing (env : Env) (least : Nat) (e : Expr) (ts : List Token) : Prop where
  least_le : ∀ leaf, .operator leaf ∈ e.chain →
    ∃ p, Precedence.ofOperator? leaf.kind = some p ∧ least ≤ p.rank
  grouped : e.Grouped
  /-- An operator that follows may take the chain as its left operand. -/
  next : ∀ q ∈ e.precedence?,
    ∀ p ∈ Precedence.ofOperator? (Operator.next env.endOfFile ts).kind, p.leftRank ≤ q.rank

theorem climbing_operand (he : e.IsOperand) (least : Nat) (ts : List Token) :
    Climbing env least e ts where
  least_le leaf h := by simp [he.chain_eq] at h
  grouped := he.grouped
  next q h := by simp [he.precedence?_eq] at h

/-- What a run has read of a chain: no operator of the least rank follows. -/
structure Climbs (env : Env) (least : Nat) (s : State) (run : Expr × State) : Prop where
  least_le : ∀ leaf, .operator leaf ∈ run.1.chain →
    ∃ p, Precedence.ofOperator? leaf.kind = some p ∧ least ≤ p.rank
  grouped : run.1.Grouped
  reading : Reading env s run.1.chain s.rest run.2.rest
  taken : run.2.rest <:+ s.rest
  stops : ∀ p ∈ Precedence.ofOperator? (Operator.next env.endOfFile run.2.rest).kind,
    p.rank < least

/-- What a run has read of a chain that goes on after an operand. -/
structure Lengthens (env : Env) (least : Nat) (left : Expr) (s : State) (run : Expr × State) :
    Prop where
  climbing : Climbing env least run.1 run.2.rest
  reading : ∃ links, run.1.chain = left.chain ++ links ∧ Reading env s links s.rest run.2.rest

theorem Lengthens.trans {run run' : Expr × State} (h : Lengthens env least left s run)
    (h' : Lengthens env least run.1 run.2 run') (hs : Leads env s run.2) :
    Lengthens env least left s run' := by
  obtain ⟨links, hchain, hreading⟩ := h.reading
  obtain ⟨links', hchain', hreading'⟩ := h'.reading
  refine ⟨h'.climbing, links ++ links', ?_, hreading.append (hreading'.of_leads hs)⟩
  rw [hchain', hchain, List.append_assoc]

/-- Where the nesting limit is hit only if it had been hit before, it was not hit on the way. -/
theorem tooDeep_eq_of_leads (h : Leads env s t) (h' : Leads env t u)
    (hdeep : u.tooDeep = s.tooDeep) : t.tooDeep = s.tooDeep := by
  cases ht : t.tooDeep with
  | true => rw [← hdeep, h'.tooDeep ht]
  | false =>
    cases hs : s.tooDeep with
    | true => rw [h.tooDeep hs] at ht; cases ht
    | false => rfl

/-- The tails of chains with the rules of a bound: they go on as ranks say, until no operator of the
least rank follows. -/
def TailsClimb (tokens : List Token) (env : Env) (n : Nat) : Prop :=
  ∀ (levels least start : Nat) (left : Expr) (s : State), Ready tokens n env s →
    levels ≤ s.depth →
    ((rules n).binaryTail levels least start left env s).2.tooDeep = s.tooDeep →
    Climbing env least left s.rest →
    let run := (rules n).binaryTail levels least start left env s
    Lengthens env least left s run ∧
      ∀ p ∈ Precedence.ofOperator? (Operator.next env.endOfFile run.2.rest).kind, p.rank < least

theorem climbs_binary_of_tails (he : env.Raises tokens env) (htails : TailsClimb tokens env n)
    (hs : Ready tokens n env s)
    (hdeep : (binary (rules n) least env s).2.tooDeep = s.tooDeep) :
    Climbs env least s (binary (rules n) least env s) := by
  have hr : (rules n).AreOrderly tokens n (rules n) := areOrderly_rules (Nat.le_refl n)
  let first := (rules n).unary env s
  let start := (s.rest.headD env.endOfFile).start
  have hrun : binary (rules n) least env s =
      (rules n).binaryTail 0 least start first.1 env first.2 := rfl
  have hfirst := hr.unary.orderly env env s he hs (Nat.zero_le _)
  have hready : Ready tokens n env first.2 := hs.of_leads hfirst.leads hfirst.depth
  have htail := hr.binaryTail 0 least start first.1 env env first.2 he hready (Nat.zero_le _)
  rw [hrun] at hdeep ⊢
  have hfirstDeep : first.2.tooDeep = s.tooDeep :=
    tooDeep_eq_of_leads hfirst.leads htail.leads hdeep
  have hoperand : first.1.IsOperand := ((yieldOperands_rules n).unary env s trivial).1
  obtain ⟨hextends, hstops⟩ := htails 0 least start first.1 first.2 hready (Nat.zero_le _)
    (hdeep.trans hfirstDeep.symm) (climbing_operand hoperand least _)
  obtain ⟨links, hchain, hreading⟩ := hextends.reading
  have hall := Reading.operand (.refl env s) hfirst.leads (hreading.of_leads hfirst.leads)
  rw [show Link.operand first.1 :: links = _ from
    (congrArg (· ++ links) hoperand.chain_eq).symm.trans hchain.symm] at hall
  exact ⟨hextends.climbing.least_le, hextends.climbing.grouped, hall, hall.suffix, hstops⟩

theorem extends_binaryStep (he : env.Raises tokens env) (htails : TailsClimb tokens env n)
    (hs : Ready tokens n env s) {o : Operator} (ho : Operator.next env.endOfFile s.rest = o)
    {p : Precedence} (hp : Precedence.ofOperator? o.kind = some p) (hle : least ≤ p.rank)
    (hleft : Climbing env least left s.rest)
    (hdeep : (binaryStep (rules n) start left o p env s).2.tooDeep = s.tooDeep) :
    Lengthens env least left s (binaryStep (rules n) start left o p env s) := by
  have hr : (rules n).AreOrderly tokens n (rules n) := areOrderly_rules (Nat.le_refl n)
  obtain ⟨t, hadvance, hrest, htDeep, -, hdepth⟩ := advanceBy_apply env o.width s
  have hleads : Leads env s t := by
    have hadvances : Orderly tokens n 0 (advanceBy o.width) (advanceBy o.width) :=
      orderly_advanceBy o.width
    have hl := (hadvances env env s he hs (Nat.zero_le _)).leads
    rwa [hadvance] at hl
  have hready : Ready tokens n env t := hs.of_leads hleads hdepth
  have hrank : ∀ leaf, .operator leaf ∈ left.chain ∨ leaf = o.leaf →
      ∃ p, Precedence.ofOperator? leaf.kind = some p ∧ least ≤ p.rank := by
    rintro leaf (hmem | rfl)
    · exact hleft.least_le leaf hmem
    · exact ⟨p, hp, hle⟩
  have hgroup : ∀ q ∈ left.precedence?, p.leftRank ≤ q.rank := fun q hq =>
    hleft.next q hq p (by rw [ho]; exact hp)
  have honly : ∀ p' ∈ Precedence.ofOperator? o.leaf.kind, p' = p := fun p' hp' =>
    (Option.some.inj (hp.symm.trans hp')).symm
  have hoperator {links : List Link} {vs : List Token} (h : Reading env s links t.rest vs) :
      Reading env s (.operator o.leaf :: links) s.rest vs := by
    subst ho
    exact .operator (hrest ▸ h)
  cases hk : o.kind with
  | keyword w =>
    let found := (rules n).type true env t
    have hrun : binaryStep (rules n) start left o p env s =
        (.typeTest ⟨start, max found.2.prevStop start⟩ left o.leaf found.1, found.2) := by
      rw [binaryStep, bind_apply, hadvance]
      simp only [hk]
      rfl
    have hfound := ((hr.type true).orderly env env t he hready (Nat.zero_le _)).leads
    rw [hrun]
    refine ⟨⟨fun leaf h => hrank leaf ?_, ⟨fun p' hp' => ?_, hleft.grouped⟩, nofun⟩,
      [.operator o.leaf, .type found.1], rfl, hoperator (.type hleads hfound .nil)⟩
    · simpa [Expr.chain] using h
    · exact honly p' hp' ▸ hgroup
  | punct q =>
    let right := binary (rules n) p.rightRank env t
    have hrun : binaryStep (rules n) start left o p env s =
        (.binary ⟨start, max right.2.prevStop start⟩ left o.leaf right.1, right.2) := by
      rw [binaryStep, bind_apply, hadvance]
      simp only [hk]
      rfl
    rw [hrun] at hdeep ⊢
    have hright : Climbs env p.rightRank t right :=
      climbs_binary_of_tails he htails hready (hdeep.trans htDeep.symm)
    have hrightLe : ∀ leaf, .operator leaf ∈ right.1.chain →
        ∃ q, Precedence.ofOperator? leaf.kind = some q ∧ least ≤ q.rank := by
      intro leaf hmem
      obtain ⟨q, hq, hqle⟩ := hright.least_le leaf hmem
      exact ⟨q, hq, hle.trans (p.rank_le_rightRank.trans hqle)⟩
    have hrightGroup : ∀ q ∈ right.1.precedence?, p.rightRank ≤ q.rank := by
      intro q hq
      obtain ⟨leaf, hmem, hleaf⟩ := Expr.exists_of_mem_precedence? hq
      obtain ⟨q', hq', hle'⟩ := hright.least_le leaf hmem
      exact Option.some.inj (hq'.symm.trans hleaf) ▸ hle'
    refine ⟨⟨fun leaf h => ?_, ⟨fun p' hp' => ?_, hleft.grouped, hright.grouped⟩,
      fun q hq q' hq' => ?_⟩, .operator o.leaf :: right.1.chain, rfl,
      hoperator (hright.reading.of_leads hleads)⟩
    · rcases List.mem_append.mp h with h | h
      · exact hrank leaf (.inl h)
      · rcases List.mem_cons.mp h with h | h
        · exact hrank leaf (.inr (Link.operator.inj h))
        · exact hrightLe leaf h
    · rw [honly p' hp']
      exact ⟨hgroup, hrightGroup⟩
    · rw [honly q hq]
      exact Precedence.leftRank_le_of_lt_rightRank (hright.stops q' hq')
  | _ => rw [hk] at hp; cases hp

/-- The tail of a chain ends at once where it may take no operator. -/
theorem binaryTailBody_of_none (hnext : nextOperator? least env s = (none, s)) :
    binaryTailBody r levels least start left env s = (left, (leave levels env s).2) := by
  rw [binaryTailBody, bind_apply, hnext]
  rfl

/-- An operator that the tail may take makes it enter a level, if there is one. -/
theorem binaryTailBody_of_some {o : Operator} {p : Precedence}
    (hnext : nextOperator? least env s = (some (o, p), s)) :
    binaryTailBody r levels least start left env s =
      if (enter env s).1 then
        (binaryStep r start left o p >>= r.binaryTail (levels + 1) least start) env (enter env s).2
      else (left, (leave levels env (enter env s).2).2) := by
  rw [binaryTailBody, bind_apply, hnext]
  show (if (enter env s).1 = true then _ else _ : P Expr) env (enter env s).2 = _
  split <;> rfl

theorem tailsClimb (he : env.Raises tokens env) (n : Nat) : TailsClimb tokens env n := by
  induction n with
  | zero => exact fun _ _ _ _ _ hs => (not_ready_zero hs).elim
  | succ n ih =>
    intro levels least start left s hs hlevels hdeep hleft
    dsimp only
    have hbody : (rules (n + 1)).binaryTail levels least start left env s =
        binaryTailBody (rules n) levels least start left env s := rfl
    rw [hbody] at hdeep ⊢
    have hr : (rules n).AreOrderly tokens n (rules n) := areOrderly_rules (Nat.le_refl n)
    have hnext : nextOperator? least env s = _ := nextOperator?_apply least s
    cases hp : Precedence.ofOperator? (Operator.next env.endOfFile s.rest).kind with
    | none =>
      rw [hp] at hnext
      rw [binaryTailBody_of_none hnext]
      exact ⟨⟨hleft, [], (List.append_nil _).symm, .nil⟩, fun q hq => by cases hp ▸ hq⟩
    | some p =>
      rw [hp] at hnext
      by_cases hle : least ≤ p.rank
      · simp only [if_pos hle] at hnext
        rw [binaryTailBody_of_some hnext] at hdeep ⊢
        -- at the end of the file no operator follows
        have hcalm : s.tooDeep = false := by
          by_contra hhit
          rw [hs.sane.dropped (Bool.not_eq_false _ ▸ hhit)] at hp
          rw [show Operator.next env.endOfFile [] = ⟨env.endOfFile.kind, _, 1⟩ from rfl,
            he.kind_endOfFile] at hp
          cases hp
        rcases Nat.lt_or_ge s.depth env.maxDepth with hlt | hge
        · have hentered := hs.enter hlt
          rw [enter_of_lt hcalm hlt] at hdeep ⊢
          let inner := s.moveTo { s.toMoment with depth := s.depth + 1 }
          have hinner : Leads env s inner := .single (.enter hcalm hlt) rfl rfl
          let step :=
            binaryStep (rules n) start left (Operator.next env.endOfFile s.rest) p env inner
          have hstep := orderly_binaryStep hr start left (Operator.next env.endOfFile s.rest) p env
            env inner he hentered (Nat.zero_le _)
          have hready : Ready tokens n env step.2 := hentered.of_leads hstep.leads hstep.depth
          have hheld : levels + 1 ≤ step.2.depth := by
            rw [show step.2.depth = s.depth + 1 from hstep.depth]
            exact Nat.succ_le_succ hlevels
          have htail := hr.binaryTail (levels + 1) least start step.1 env env step.2 he hready hheld
          have hstepDeep : step.2.tooDeep = s.tooDeep :=
            tooDeep_eq_of_leads (hinner.trans hstep.leads) htail.leads hdeep
          have hextends : Lengthens env least left inner step :=
            extends_binaryStep he ih hentered rfl hp hle hleft hstepDeep
          obtain ⟨hrest, hstops⟩ := ih (levels + 1) least start step.1 step.2 hready hheld
            (hdeep.trans hstepDeep.symm) hextends.climbing
          have hall := hextends.trans hrest hstep.leads
          obtain ⟨links, hchain, hreading⟩ := hall.reading
          exact ⟨⟨hall.climbing, links, hchain, hreading.of_leads hinner⟩, hstops⟩
        · -- the limit would be hit here
          rw [enter_of_le hcalm hge, refuse_apply hcalm, hcalm] at hdeep
          cases hdeep
      · simp only [if_neg hle] at hnext
        rw [binaryTailBody_of_none hnext]
        refine ⟨⟨hleft, [], (List.append_nil _).symm, .nil⟩, fun q hq => ?_⟩
        rw [show q = p from (Option.some.inj (hp.symm.trans hq)).symm]
        exact Nat.lt_of_not_le hle

/-- A run that comes to a state without reporting the nesting limit hits it on the way only if it
had been hit before. -/
theorem Leads.tooDeep_eq (h : Leads env s t)
    (hreported : ∀ d ∈ t.diagnostics.toList.drop s.diagnostics.size, d.message ≠ .tooDeep) :
    t.tooDeep = s.tooDeep := by
  cases hs : s.tooDeep with
  | true => exact h.tooDeep hs
  | false =>
    obtain ⟨⟨ms, -, hc⟩, -⟩ := h
    have hstart : s.toMoment.Reported s.diagnostics :=
      ⟨#[], nofun, .inl ⟨hs, (Array.append_empty).symm⟩⟩
    obtain ⟨ds, -, ⟨ht, -⟩ | ⟨-, span, hd⟩⟩ := (hc.invariant (fun h => h.reported) hstart).1
    · exact ht
    · refine absurd rfl (hreported (.of .tooDeep span) ?_)
      rw [show t.diagnostics = _ from hd]
      simp

/-- Precedence climbing, from any state with room to nest: unless the nesting limit is reported, the
operators of the chain have the least rank or more, its parts group as their ranks say and are the
tokens that were taken, and it stops before no operator of the least rank or more. -/
theorem climbs_binary (he : env.Raises tokens env) (hs : Ready tokens n env s) (least : Nat)
    (hreported : ∀ d ∈ (binary (rules n) least env s).2.diagnostics.toList.drop s.diagnostics.size,
      d.message ≠ .tooDeep) :
    Climbs env least s (binary (rules n) least env s) := by
  have hr : (rules n).AreOrderly tokens n (rules n) := areOrderly_rules (Nat.le_refl n)
  have hrun := (takesFirst_binary hr least).orderly env env s he hs (Nat.zero_le _)
  exact climbs_binary_of_tails he (tailsClimb he n) hs (hrun.leads.tooDeep_eq hreported)

/-- A product is the right operand of a difference. -/
theorem climbs_binary_difference :
    let stream := (scan "a-b*c").1
    let env := Env.of stream 8
    let s := State.start stream #[] none
    env.Raises stream.tokens env ∧ Ready stream.tokens 9 env s ∧
      (∀ d ∈ (binary (rules 9) 0 env s).2.diagnostics.toList.drop s.diagnostics.size,
        d.message ≠ .tooDeep) ∧
      Climbs env 0 s (binary (rules 9) 0 env s) := by
  intro stream env s
  obtain ⟨_, hdivides⟩ := exists_divides_scan "a-b*c"
  have hend : env.endOfFile.kind = .endOfFile := hdivides.kind
  have hraises : env.Raises stream.tokens env := .refl hend (Nat.lt_succ_self _)
  have hready : Ready stream.tokens 9 env s :=
    ⟨List.suffix_rfl, ⟨Nat.zero_le _, nofun⟩, Nat.lt_succ_self _⟩
  have hnone : (binary (rules 9) 0 env s).2.diagnostics.toList = [] := by
    simp only [env, s, stream]
    rw [scan_ofList]
    clear hready hraises hend hdivides s env stream
    decide +kernel
  have hreported : ∀ d ∈ (binary (rules 9) 0 env s).2.diagnostics.toList.drop s.diagnostics.size,
      d.message ≠ .tooDeep := by
    rw [hnone]
    nofun
  exact ⟨hraises, hready, hreported, climbs_binary hraises hready 0 hreported⟩

end Parser

end CSharpFront
