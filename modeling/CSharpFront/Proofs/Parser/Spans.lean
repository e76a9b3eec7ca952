import CSharpFront.Proofs.Parser.OrderlyDeclarations
import CSharpFront.Proofs.Syntax.Layout
/-!
The stretches of text that nodes cover. A directive, a member or a statement goes from the first
token that was left when it began to the last token that had been taken when it ended, unless the
nesting limit was hit on the way.
-/

namespace CSharpFront.Parser

variable {α β : Type} {spans : α → Range → Prop} {after : β → Range → Prop} {start : Nat}
  {tokens : List Token} {env : Env} {s : State} {r : Rules}

/-! ### Where nodes end -/

/-- A parser whose result stands in some relation to the range from an offset to the last token that
was taken, unless the limit was hit. -/
def Ends (spans : α → Range → Prop) (start : Nat) (p : P α) : Prop :=
  ∀ env s, (p env s).2.tooDeep = false →
    spans (p env s).1 ⟨start, max (p env s).2.prevStop start⟩

namespace Ends

variable {p q : P α} {f : β → P α}

theorem bind {o : P β} (hf : ∀ b, Ends spans start (f b)) : Ends spans start (o >>= f) :=
  fun env s => hf (o env s).1 env (o env s).2

theorem ite {c : Prop} [Decidable c] (hp : Ends spans start p) (hq : Ends spans start q) :
    Ends spans start (if c then p else q) := by
  split
  · exact hp
  · exact hq

/-- A node is made at the end. -/
theorem node {mk : Range → α} (h : ∀ r, spans (mk r) r) :
    Ends spans start (do return mk (← rangeFrom start)) :=
  fun _ _ _ => h _

theorem map {g : α → β} (hp : Ends spans start p) (h : ∀ a r, spans a r → after (g a) r) :
    Ends after start (g <$> p) :=
  fun env s ht => h _ _ (hp env s ht)

end Ends

/-! ### Where nodes begin -/

/-- At a state, a parser whose result stands in some relation to the range from the first token that
is left to the last token that was taken, unless the limit was hit. -/
def SpansAt (spans : α → Range → Prop) (env : Env) (s : State) (p : P α) : Prop :=
  (p env s).2.tooDeep = false →
    spans (p env s).1 ⟨(s.rest.headD env.endOfFile).start,
      max (p env s).2.prevStop (s.rest.headD env.endOfFile).start⟩

namespace SpansAt

variable {p q : P α} {f : β → P α}

theorem of_ends (h : Ends spans (s.rest.headD env.endOfFile).start p) : SpansAt spans env s p :=
  h env s

theorem current {f : Token → P α} (hf : ∀ t, Ends spans t.start (f t)) :
    SpansAt spans env s (Parser.current >>= f) :=
  hf _ env s

theorem seeing {f : Token → P α} (h : SpansAt spans env s (f (s.rest.headD env.endOfFile))) :
    SpansAt spans env s (Parser.current >>= f) :=
  h

/-- What only looks at the state does not matter. -/
theorem look {o : P β} (ho : (o env s).2 = s) (hf : ∀ b, SpansAt spans env s (f b)) :
    SpansAt spans env s (o >>= f) := by
  have hrun : (o >>= f) env s = f (o env s).1 env s := by
    rw [bind_apply, ho]
  rw [SpansAt, hrun]
  exact hf _

theorem ite {c : Prop} [Decidable c] (hp : SpansAt spans env s p) (hq : SpansAt spans env s q) :
    SpansAt spans env s (if c then p else q) := by
  split
  · exact hp
  · exact hq

theorem map {g : α → β} (hp : SpansAt spans env s p) (h : ∀ a r, spans a r → after (g a) r) :
    SpansAt after env s (g <$> p) :=
  fun ht => h _ _ (hp ht)

/-- Entering a level takes no token, and neither does leaving it. -/
theorem nested {refused : P α}
    (hr : ∀ s, s.tooDeep = true → (refused env s).2.tooDeep = true)
    (hp : ∀ t, t.rest = s.rest → SpansAt spans env t p) :
    SpansAt spans env s (nested refused p) := by
  intro hlimit
  rcases Bool.eq_false_or_eq_true s.tooDeep with ht | ht
  · have hrun : Parser.nested refused p env s = refused env s := by
      rw [Parser.nested, bind_apply, enter_of_tooDeep ht]
      rfl
    rw [hrun] at hlimit
    exact absurd (hr s ht) (ne_true_of_eq_false hlimit)
  rcases Nat.lt_or_ge s.depth env.maxDepth with hd | hd
  · rw [nested_of_lt ht hd] at hlimit ⊢
    exact hp _ rfl hlimit
  · rw [nested_of_le ht hd, refuse_apply ht] at hlimit
    exact absurd (hr _ rfl) (ne_true_of_eq_false hlimit)

end SpansAt

/-! ### Statements -/

theorem spansAt_localDeclaration : SpansAt (·.range = ·) env s (localDeclaration r) := by
  refine .current fun _ => .bind fun _ => .bind fun _ => .bind fun _ => .bind fun _ => ?_
  exact .node fun _ => rfl

theorem spansAt_expressionStatement : SpansAt (·.range = ·) env s (expressionStatement r) := by
  refine .current fun _ => .bind fun _ => .bind fun _ => .bind fun _ => ?_
  exact .node fun _ => rfl

theorem spansAt_block : SpansAt (·.range = ·) env s (block r) := by
  refine .current fun _ => .bind fun _ => .bind fun _ => .bind fun _ => ?_
  exact .node fun _ => rfl

theorem spansAt_ifStatement : SpansAt (·.range = ·) env s (ifStatement r) := by
  refine .current fun _ => .bind fun _ => .bind fun _ => .bind fun _ => .bind fun _ => ?_
  exact .ite (.bind fun _ => .node fun _ => rfl) (.bind fun _ => .node fun _ => rfl)

theorem spansAt_whileStatement : SpansAt (·.range = ·) env s (whileStatement r) := by
  refine .current fun _ => .bind fun _ => .bind fun _ => .bind fun _ => ?_
  exact .node fun _ => rfl

theorem spansAt_doStatement : SpansAt (·.range = ·) env s (doStatement r) := by
  refine .current fun _ => .bind fun _ => .bind fun _ => .bind fun _ => ?_
  exact .bind fun _ => .bind fun _ => .node fun _ => rfl

theorem spansAt_forStatement : SpansAt (·.range = ·) env s (forStatement r) := by
  refine .current fun _ => .bind fun _ => .bind fun _ => ?_
  exact .node fun _ => rfl

theorem spansAt_returnStatement : SpansAt (·.range = ·) env s (returnStatement r) := by
  refine .current fun _ => .bind fun _ => .bind fun _ => ?_
  exact .ite (.bind fun _ => .bind fun _ => .node fun _ => rfl)
    (.bind fun _ => .bind fun _ => .node fun _ => rfl)

theorem spansAt_jump : SpansAt (· = ·) env s jump :=
  .current fun _ => .bind fun _ => .bind fun _ => fun _ _ _ => rfl

theorem spansAt_gotoStatement : SpansAt (·.range = ·) env s gotoStatement := by
  refine .current fun _ => .bind fun _ => .bind fun _ => .bind fun _ => ?_
  exact .node fun _ => rfl

theorem spansAt_labeledStatement : SpansAt (·.range = ·) env s (labeledStatement r) := by
  refine .current fun _ => .bind fun _ => .bind fun _ => .bind fun _ => ?_
  exact .node fun _ => rfl

theorem spansAt_wordlessStatement : SpansAt (·.range = ·) env s (wordlessStatement r) := by
  refine .look rfl fun _ => .ite spansAt_labeledStatement (.look rfl fun _ => ?_)
  exact .ite spansAt_localDeclaration spansAt_expressionStatement

/-- A semicolon that stands alone is a node without an offset that was noted before it. -/
theorem spansAt_semicolon {t : Token} {ts : List Token} (h : s.rest = t :: ts)
    (hlt : t.start < t.stop) :
    SpansAt (·.range = ·) env s (do advance; return Stmt.empty t.range) := by
  intro _
  rw [bind_apply, advance_apply h, h, List.headD_cons]
  have hstop : max t.stop t.start = t.stop := Nat.max_eq_left (Nat.le_of_lt hlt)
  exact congrArg (Range.mk t.start) hstop.symm

theorem spansAt_statementBody (he : env.endOfFile.kind = .endOfFile)
    (hs : ∀ t ∈ s.rest, t.start < t.stop) :
    SpansAt (·.range = ·) env s (statementBody r) := by
  refine .seeing ?_
  split
  · exact spansAt_block.map fun _ _ h => h
  next hk =>
    cases hrest : s.rest with
    | nil =>
      rw [hrest, List.headD_nil, he] at hk
      cases hk
    | cons t ts => exact spansAt_semicolon hrest (hs t (hrest ▸ List.mem_cons_self))
  · exact spansAt_ifStatement
  · exact spansAt_whileStatement
  · exact spansAt_doStatement
  · exact spansAt_forStatement
  · exact spansAt_returnStatement
  · exact spansAt_jump.map fun _ _ h => h
  · exact spansAt_jump.map fun _ _ h => h
  · exact spansAt_gotoStatement
  · exact spansAt_localDeclaration
  · exact spansAt_wordlessStatement

/-- A statement in a unit. Where no level can be entered for it, the limit was hit. -/
theorem spansAt_globalStatement (he : env.endOfFile.kind = .endOfFile)
    (hs : ∀ t ∈ s.rest, t.start < t.stop) (n : Nat) :
    SpansAt (Member.range · = ·) env s (globalStatement (rules (n + 1))) := by
  have hstatement (env : Env) (he : env.endOfFile.kind = .endOfFile) :
      SpansAt (Stmt.range · = ·) env s (rules (n + 1)).statement :=
    .nested (fun _ h => h) fun t ht => spansAt_statementBody he (ht ▸ hs)
  exact (hstatement { env with inAsync := true } he).map fun _ _ h => h

/-! ### Declarations -/

/-- What holds of the result of a parser that has not been cancelled. -/
def IfCompleted (spans : α → Range → Prop) (result : Except Cancelled α) (r : Range) : Prop :=
  ∀ a, result = .ok a → spans a r

theorem IfCompleted.map {result : Except Cancelled α} {range : Range} {g : α → β}
    (h : IfCompleted spans result range) (hg : ∀ a r, spans a r → after (g a) r) :
    IfCompleted after (g <$> result) range := by
  intro b hb
  cases result with
  | ok a =>
    obtain ⟨rfl⟩ := hb
    exact hg a range (h a rfl)
  | error e => cases hb

abbrev EndsAll (spans : α → Range → Prop) (start : Nat) (p : Cancellable α) : Prop :=
  Ends (IfCompleted spans) start p.run

abbrev SpansAllAt (spans : α → Range → Prop) (env : Env) (s : State) (p : Cancellable α) : Prop :=
  SpansAt (IfCompleted spans) env s p.run

namespace EndsAll

variable {p q : Cancellable α} {f : β → Cancellable α}

theorem bind {o : Cancellable β} (hf : ∀ b, EndsAll spans start (f b)) :
    EndsAll spans start (o >>= f) := by
  show Ends _ start (o.run >>= ExceptT.bindCont f)
  refine Ends.bind fun result => ?_
  cases result with
  | ok b => exact hf b
  | error e =>
    intro env s _ a ha
    cases ha

theorem ite {c : Prop} [Decidable c] (hp : EndsAll spans start p) (hq : EndsAll spans start q) :
    EndsAll spans start (if c then p else q) := by
  split
  · exact hp
  · exact hq

theorem node {mk : Range → α} (h : ∀ r, spans (mk r) r) :
    EndsAll spans start (do return mk (← rangeFrom start)) := by
  rintro env s _ _ ⟨rfl⟩
  exact h _

theorem map {g : α → β} (hp : EndsAll spans start p) (h : ∀ a r, spans a r → after (g a) r) :
    EndsAll after start (g <$> p) := by
  rw [EndsAll, ExceptT.run_map]
  exact Ends.map hp fun _ _ hspans => hspans.map h

end EndsAll

namespace SpansAllAt

variable {p q : Cancellable α} {f : β → Cancellable α}

theorem current {f : Token → Cancellable α} (hf : ∀ t, EndsAll spans t.start (f t)) :
    SpansAllAt spans env s (liftM Parser.current >>= f) := by
  show SpansAt _ env s (Parser.current >>= fun t => (f t).run)
  exact SpansAt.current hf

theorem seeing {f : Token → Cancellable α}
    (h : SpansAllAt spans env s (f (s.rest.headD env.endOfFile))) :
    SpansAllAt spans env s (liftM Parser.current >>= f) := by
  show SpansAt _ env s (Parser.current >>= fun t => (f t).run)
  exact SpansAt.seeing h

theorem look {o : P β} (ho : (o env s).2 = s) (hf : ∀ b, SpansAllAt spans env s (f b)) :
    SpansAllAt spans env s (liftM o >>= f) := by
  show SpansAt _ env s (o >>= fun b => (f b).run)
  exact SpansAt.look ho hf

theorem lift {o : P α} (ho : SpansAt spans env s o) : SpansAllAt spans env s (liftM o) := by
  refine ho.map fun a r h => ?_
  rintro _ ⟨rfl⟩
  exact h

theorem map {g : α → β} (hp : SpansAllAt spans env s p) (h : ∀ a r, spans a r → after (g a) r) :
    SpansAllAt after env s (g <$> p) := by
  rw [SpansAllAt, ExceptT.run_map]
  exact SpansAt.map hp fun _ _ hspans => hspans.map h

theorem ite {c : Prop} [Decidable c] (hp : SpansAllAt spans env s p)
    (hq : SpansAllAt spans env s q) : SpansAllAt spans env s (if c then p else q) := by
  split
  · exact hp
  · exact hq

end SpansAllAt

theorem spansAllAt_namespaceDeclaration (members : Cancellable (List Member)) :
    SpansAllAt (·.range = ·) env s (namespaceDeclaration r members) := by
  refine .current fun t => .bind fun _ => .bind fun name => .bind fun b => ?_
  have hlast (us : List UsingDirective) (ms : List Member) :
      EndsAll (NamespaceDeclaration.range · = ·) t.start
        (do return ⟨← rangeFrom t.start, name, us, ms⟩) :=
    .node fun _ => rfl
  have hrest : EndsAll (NamespaceDeclaration.range · = ·) t.start (do
      let usings ← usingDirectives r
      let members ← members
      if !b then
        let _ ← eat (.punct .closeBrace)
      return ⟨← rangeFrom t.start, name, usings, members⟩) :=
    .bind fun us => .bind fun ms => .ite (.bind fun _ => hlast us ms) (hlast us ms)
  exact .ite (.bind fun _ => hrest) hrest

theorem endsAll_typeDeclaration (members : Cancellable (List ClassMember)) (start : Nat)
    (modifiers : Modifiers) :
    EndsAll (·.range = ·) start (typeDeclaration r members start modifiers) := by
  refine .bind fun _ => .bind fun _ => .bind fun _ => .bind fun _ => ?_
  refine .bind fun _ => .bind fun _ => ?_
  exact .bind fun _ => .node fun _ => rfl

theorem spansAllAt_declarationBody (namespaceMembers : Cancellable (List Member))
    (classMembers : Cancellable (List ClassMember)) :
    SpansAllAt (Member.range · = ·) env s (declarationBody r namespaceMembers classMembers
      (s.rest.headD env.endOfFile).start) := by
  refine .look rfl fun _ => .ite ?_ (.of_ends ?_)
  · exact .map (spansAllAt_namespaceDeclaration _) fun _ _ h => h
  · exact EndsAll.bind fun _ => .map (endsAll_typeDeclaration _ _ _) fun _ _ h => h

theorem spansAt_badGlobalMember : SpansAt (Member.range · = ·) env s badGlobalMember :=
  .current fun _ => .bind fun _ => .bind fun _ => .node fun _ => rfl

/-- A member of a unit. -/
theorem spansAllAt_member (he : env.endOfFile.kind = .endOfFile)
    (hs : ∀ t ∈ s.rest, t.start < t.stop) (n : Nat) {declaration : Nat → Cancellable Member}
    (hd : SpansAllAt (Member.range · = ·) env s
      (declaration (s.rest.headD env.endOfFile).start)) :
    SpansAllAt (Member.range · = ·) env s (member (rules (n + 1)) false declaration) := by
  refine .seeing (.look rfl fun _ => .ite hd (.ite ?_ ?_))
  · exact .lift (spansAt_globalStatement he hs n)
  · exact .lift spansAt_badGlobalMember

theorem spansAllAt_nestedDeclaration {body : Cancellable Member}
    (hb : ∀ t, t.rest = s.rest → SpansAllAt (Member.range · = ·) env t body) :
    SpansAllAt (Member.range · = ·) env s
      (nestedDeclaration (.incomplete <$> rangeFrom start) body) :=
  SpansAt.nested (fun _ h => h) hb

/-- A member of a unit, in which declarations nest. -/
theorem spansAllAt_boundedMember (he : env.endOfFile.kind = .endOfFile)
    (hs : ∀ t ∈ s.rest, t.start < t.stop) (n : Nat) :
    SpansAllAt (Member.range · = ·) env s (boundedMember n false) := by
  refine spansAllAt_member he hs n (spansAllAt_nestedDeclaration fun t ht => ?_)
  rw [← ht]
  exact spansAllAt_declarationBody _ _

theorem spansAt_usingDirective : SpansAt (·.range = ·) env s (usingDirective r) := by
  refine .current fun _ => .bind fun _ => .bind fun _ => .bind fun _ => .bind fun _ => ?_
  exact .bind fun _ => .node fun _ => rfl

end CSharpFront.Parser
