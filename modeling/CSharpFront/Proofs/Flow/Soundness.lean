import CSharpFront.Proofs.Flow.Findings
/-!
What the walk reports cannot be reached. A point is live when the walk takes it to be reachable and
so the loops around it. The steps of the graph lead from live points only to live ones: a step back
to the head of a loop stays in a loop that is live itself, and no jump leads into a loop from
outside. So control comes only to live points, and none of these is reported.
-/

namespace CSharpFront.Flow

variable {c : Context} {s t : State}

/-! ### What the walk keeps -/

section State

variable (s : State)

@[simp] theorem reachable_check (span : Span) : (s.check c span).reachable = s.reachable := by
  unfold State.check
  split <;> rfl

@[simp] theorem loop?_check (span : Span) : (s.check c span).loop? = s.loop? := by
  unfold State.check
  split <;> rfl

@[simp] theorem reachable_checks (spans : List Span) :
    (spans.foldl (·.check c ·) s).reachable = s.reachable := by
  induction spans generalizing s with
  | nil => rfl
  | cons span spans ih => rw [List.foldl_cons, ih, reachable_check]

@[simp] theorem loop?_checks (spans : List Span) :
    (spans.foldl (·.check c ·) s).loop? = s.loop? := by
  induction spans generalizing s with
  | nil => rfl
  | cons span spans ih => rw [List.foldl_cons, ih, loop?_check]

@[simp] theorem reachable_goOn (b : Bool) : (s.goOn b).reachable = b := rfl

/-- A label that is jumped to can be reached, and any other one as what stands before it. -/
theorem reachable_labelStart (r : Range) (l : Identifier) :
    (labelStart c r l s).reachable =
      (s.reachable || !l.isMissing && c.isReferenced l.range.start) := by
  unfold labelStart
  split
  next h => rw [h, Bool.or_true, reachable_goOn]
  next h =>
    rw [eq_false_of_ne_true h, Bool.or_false]
    dsimp only
    split
    · exact reachable_check s _
    · exact reachable_check s _

@[simp] theorem loop?_labelStart (r : Range) (l : Identifier) :
    (labelStart c r l s).loop? = s.loop? := by
  unfold labelStart
  split
  · rfl
  · dsimp only
    split
    · exact loop?_check s _
    · exact loop?_check s _

end State

/-- The walk is in a loop as before, and no exit of the loop was forgotten. -/
structure State.Grows (s t : State) : Prop where
  loop? : t.loop?.isSome = s.loop?.isSome
  broken : s.exits.broken = true → t.exits.broken = true
  continued : s.exits.continued = true → t.exits.continued = true

namespace State.Grows

theorem of_eq (h : t.loop? = s.loop?) : s.Grows t := by
  have hexits : t.exits = s.exits := congrArg (·.getD {}) h
  exact ⟨by rw [h], by rw [hexits]; exact id, by rw [hexits]; exact id⟩

theorem trans {u : State} (h : s.Grows t) (h' : t.Grows u) : s.Grows u :=
  ⟨h'.loop?.trans h.loop?, h'.broken ∘ h.broken, h'.continued ∘ h.continued⟩

/-- Nothing but the exits of the loop matters. -/
theorem congr {s' t' : State} (h : s.Grows t) (hs : s'.loop? = s.loop?) (ht : t'.loop? = t.loop?) :
    s'.Grows t' :=
  (of_eq hs.symm).trans (h.trans (of_eq ht))

theorem jump {note : Bool → LoopExits → LoopExits}
    (hn : ∀ b l, (l.broken = true → (note b l).broken = true) ∧
      (l.continued = true → (note b l).continued = true)) : s.Grows (s.jump note) := by
  unfold State.jump
  cases h : s.loop? with
  | none => exact of_eq rfl
  | some l =>
    have hexits : s.exits = l := by rw [State.exits, h, Option.getD_some]
    refine ⟨by rw [h]; rfl, ?_, ?_⟩
    · rw [hexits]
      exact (hn _ l).1
    · rw [hexits]
      exact (hn _ l).2

end State.Grows

theorem grows_break (s : State) : s.Grows (s.jump breakOut) := by
  refine .jump fun b l => ⟨fun h => ?_, id⟩
  simp [breakOut, h]

theorem grows_continue (s : State) : s.Grows (s.jump continueOn) := by
  refine .jump fun b l => ⟨id, fun h => ?_⟩
  simp [continueOn, h]

mutual

theorem grows_statement : (b : Stmt) → ∀ s : State, s.Grows (statement c b s)
  | .block ⟨_, _, ss, _⟩, s => by
    rw [statement]
    exact grows_statements ss s
  | .empty _, s => by
    rw [statement]
    exact .of_eq rfl
  | .localDeclaration r _ _ _, s | .expression r _ _, s | .returnValue r _, s | .goto r _, s => by
    rw [statement]
    exact .of_eq (loop?_check s _)
  | .breakLoop r, s => by
    rw [statement]
    exact (grows_break _).congr (loop?_check s _).symm rfl
  | .continueLoop r, s => by
    rw [statement]
    exact (grows_continue _).congr (loop?_check s _).symm rfl
  | .ifElse r e body none, s => by
    have hbody := grows_statement body (childStart c (.ifElse r e body none) s 0)
    rw [statement_ifElse]
    exact hbody.congr (loop?_check s _).symm rfl
  | .ifElse r e body (some other), s => by
    have hbody := grows_statement body (childStart c (.ifElse r e body (some other)) s 0)
    have hother := grows_statement other (childStart c (.ifElse r e body (some other)) s 1)
    have hthen : s.Grows (childStart c (.ifElse r e body (some other)) s 1) :=
      hbody.congr (loop?_check s _).symm rfl
    rw [statement_ifElse_some]
    exact hthen.trans (hother.congr rfl rfl)
  | .whileLoop r e body, s => by
    rw [statement_whileLoop]
    exact .of_eq (loop?_check s _)
  | .doLoop r body e, s => by
    rw [statement_doLoop]
    exact .of_eq (loop?_check s _)
  | .forLoop r h body, s => by
    rw [statement_forLoop]
    exact .of_eq (loop?_checks s _)
  | .labeled r l body, s => by
    rw [statement_labeled]
    exact (grows_statement body _).congr (loop?_labelStart s r l).symm rfl

theorem grows_statements : (bs : List Stmt) → ∀ s : State, s.Grows (statements c bs s)
  | [], _ => .of_eq rfl
  | b :: bs, s => (grows_statement b s).trans (grows_statements bs _)

end

/-! ### Live points -/

/-- Whether a statement lets control into the statements in it. The walk may take points in a loop
to be reachable, because of a label there, though the loop itself is not. -/
def isOpen : Stmt → State → Prop
  | .whileLoop _ _ _, s | .doLoop _ _ _, s | .forLoop _ _ _, s => s.reachable = true
  | _, _ => True

/-- Whether the walk takes a part of a statement to be reachable. -/
def isLivePart (c : Context) : Stmt → State → Part → Prop
  | .doLoop r body e, s, .condition =>
    let bodyEnd := statement c body (childStart c (.doLoop r body e) s 0)
    s.reachable = true ∧ (bodyEnd.reachable || bodyEnd.exits.continued) = true
  | .forLoop r h body, s, .incrementor _ =>
    s.reachable = true ∧
      (statement c body (childStart c (.forLoop r h body) s 0)).roundEnd.reachable = true
  | .labeled r l _, s, _ => (labelStart c r l s).reachable = true
  | _, s, _ => s.reachable = true

/-- Whether the point to which a path leads down from a statement is live. -/
def isLive (c : Context) : Stmt → State → List Nat → Part → Prop
  | b, s, [], part => isLivePart c b s part
  | b, s, i :: q, part =>
    isOpen b s ∧ ∃ b', child? b i = some b' ∧ isLive c b' (childStart c b s i) q part

/-- The live points of a body in a statement of it, to which the walk comes in a state. The
statements around it are open or not. -/
def Stands (live : Point → Prop) (c : Context) (opened : Prop) (p : List Nat) (b : Stmt)
    (s : State) : Prop :=
  ∀ q part, live ⟨p ++ q, part⟩ ↔ opened ∧ isLive c b s q part

variable {live : Point → Prop} {opened : Prop} {p : List Nat} {b b' : Stmt}

namespace Stands

theorem child {i : Nat} (h : Stands live c opened p b s) (hb : child? b i = some b') :
    Stands live c (opened ∧ isOpen b s) (p ++ [i]) b' (childStart c b s i) := by
  intro q part
  rw [List.append_assoc, List.singleton_append, h, isLive, and_assoc]
  simp [hb]

theorem part (h : Stands live c opened p b s) (part : Part) :
    live ⟨p, part⟩ ↔ opened ∧ isLivePart c b s part := by
  have hpart := h [] part
  rwa [List.append_nil] at hpart

theorem entry (h : Stands live c opened p b s) (ho : opened) (hs : s.reachable = true) :
    live ⟨p, .entry⟩ := by
  refine (h.part .entry).mpr ⟨ho, ?_⟩
  cases b with
  | labeled r l body =>
    show (labelStart c r l s).reachable = true
    rw [reachable_labelStart, hs, Bool.true_or]
  | _ => exact hs

end Stands

/-- The same of statements that stand in another one, from a place in it on. -/
def StandsAmong (live : Point → Prop) (c : Context) (opened : Prop) (p : List Nat) (n : Nat)
    (bs : List Stmt) (s : State) : Prop :=
  ∀ i b, bs[i]? = some b → Stands live c opened (p ++ [n + i]) b (statements c (bs.take i) s)

namespace StandsAmong

variable {n : Nat} {bs : List Stmt}

theorem head (h : StandsAmong live c opened p n (b :: bs) s) :
    Stands live c opened (p ++ [n]) b s := h 0 b rfl

theorem tail (h : StandsAmong live c opened p n (b :: bs) s) :
    StandsAmong live c opened p (n + 1) bs (statement c b s) := by
  intro i b' hb
  rw [Nat.add_assoc, Nat.add_comm 1 i]
  exact h (i + 1) b' hb

theorem first (h : StandsAmong live c opened p n bs s) (ho : opened) (hs : s.reachable = true)
    {next : Point} (hnext : (statements c bs s).reachable = true → live next) :
    live (firstOf p n next bs) := by
  cases bs with
  | nil => exact hnext hs
  | cons b bs => exact h.head.entry ho hs

end StandsAmong

theorem Stands.block {r : Range} {l l' : Leaf} {ss : List Stmt}
    (h : Stands live c opened p (.block ⟨r, l, ss, l'⟩) s) :
    StandsAmong live c (opened ∧ True) p 0 ss s := by
  intro i b hb
  rw [Nat.zero_add]
  exact h.child hb

/-! ### Steps -/

theorem of_mem_branch {truth? : Option Bool} {q whenTrue whenFalse : Point} {e : Point × Point}
    (he : e ∈ branch truth? q whenTrue whenFalse) :
    e.1 = q ∧ ((mayHold truth? = true ∧ e.2 = whenTrue) ∨
      (mayFail truth? = true ∧ e.2 = whenFalse)) := by
  match truth?, he with
  | some true, he | some false, he =>
    obtain rfl := List.mem_singleton.mp he
    simp [mayHold, mayFail]
  | none, he =>
    rcases List.mem_cons.mp he with rfl | he
    · simp [mayHold]
    · obtain rfl := List.mem_singleton.mp he
      simp [mayFail]

theorem of_mem_chain {next : Point} {qs : List Point} {e : Point × Point}
    (he : e ∈ chain next qs) : e.1 ∈ qs ∧ (e.2 ∈ qs ∨ e.2 = next) := by
  induction qs with
  | nil => simp [chain] at he
  | cons q qs ih =>
    rcases List.mem_cons.mp he with rfl | he
    · refine ⟨List.mem_cons_self, ?_⟩
      cases qs with
      | nil => exact .inr rfl
      | cons q' qs => exact .inl (List.mem_cons_of_mem _ List.mem_cons_self)
    · obtain ⟨h₁, h₂⟩ := ih he
      exact ⟨List.mem_cons_of_mem _ h₁, h₂.imp_left (List.mem_cons_of_mem _)⟩

/-- A condition leads to live points, where it may hold and where it may fail. -/
theorem branch_closed {truth? : Option Bool} {q whenTrue whenFalse : Point} {reached : Prop}
    (hq : live q → reached) (ht : reached → mayHold truth? = true → live whenTrue)
    (hf : reached → mayFail truth? = true → live whenFalse) :
    ∀ e ∈ branch truth? q whenTrue whenFalse, live e.1 → live e.2 := by
  intro e he hlive
  obtain ⟨hsource, h⟩ := of_mem_branch he
  rw [hsource] at hlive
  have hr := hq hlive
  rcases h with ⟨h, htarget⟩ | ⟨h, htarget⟩
  · rw [htarget]
    exact ht hr h
  · rw [htarget]
    exact hf hr h

theorem chain_closed {next : Point} {qs : List Point} {reached : Prop}
    (hqs : ∀ q ∈ qs, live q ↔ reached) (hnext : reached → live next) :
    ∀ e ∈ chain next qs, live e.1 → live e.2 := by
  intro e he hlive
  obtain ⟨hsource, htarget⟩ := of_mem_chain he
  have hr := (hqs _ hsource).mp hlive
  rcases htarget with htarget | htarget
  · exact (hqs _ htarget).mpr hr
  · exact htarget ▸ hnext hr

theorem reachable_roundEnd (h : (t.reachable || t.exits.continued) = true) :
    t.roundEnd.reachable = true := by
  unfold State.roundEnd
  split
  · rfl
  next hc => simpa [hc] using h

/-- The incrementors of a `for` are live if the end of a round is. -/
theorem Stands.incrementors {r : Range} {header : ForHeader}
    (h : Stands live c opened p (.forLoop r header b) s) :
    ∀ q ∈ incrementors p header, live q ↔ (opened ∧ s.reachable = true) ∧
      (statement c b (childStart c (.forLoop r header b) s 0)).roundEnd.reachable = true := by
  intro q hq
  obtain ⟨i, -, rfl⟩ := List.mem_map.mp hq
  exact (h.part (.incrementor i)).trans and_assoc.symm

/-- Where control goes from a statement is live, if the walk takes it to go there. -/
structure Leads (live : Point → Prop) (opened : Prop) (k : Surroundings) (t : State) : Prop where
  next : opened → t.reachable = true → live k.next
  loop? : t.loop?.isSome = k.loop?.isSome
  broken : opened → t.exits.broken = true → ∀ l ∈ k.loop?, live l.1
  continued : opened → t.exits.continued = true → ∀ l ∈ k.loop?, live l.2

namespace Leads

variable {k : Surroundings}

/-- Before a later part of a statement, where control goes to that part next. -/
theorem before (h : Leads live opened k t) (hs : s.Grows t) {inner : Prop} (ho : inner → opened)
    {next : Point} (hnext : inner → s.reachable = true → live next) :
    Leads live inner { k with next } s :=
  ⟨hnext, hs.loop?.symm.trans h.loop?, fun hi hb => h.broken (ho hi) (hs.broken hb),
    fun hi hc => h.continued (ho hi) (hs.continued hc)⟩

/-- At the end of a loop's body. -/
theorem ofLoop {inner : Prop} {after round : Point} (ht : t.loop?.isSome = true)
    (hafter : inner → t.exits.broken = true → live after)
    (hround : inner → (t.reachable || t.exits.continued) = true → live round) :
    Leads live inner ⟨round, some (after, round)⟩ t := by
  refine ⟨fun hi hr => hround hi (by rw [hr]; rfl), ht, ?_, ?_⟩
  · rintro hi hb l ⟨⟩
    exact hafter hi hb
  · rintro hi hc l ⟨⟩
    exact hround hi (by rw [hc, Bool.or_true])

end Leads

theorem isSome_loop?_body {start : State} (h : start.loop? = some {}) (body : Stmt) :
    (statement c body start).loop?.isSome = true := by
  rw [(grows_statement body start).loop?, h]
  rfl

/-- The exits of a loop are noted. -/
theorem exits_jump {note : Bool → LoopExits → LoopExits} (h : (s.jump note).loop?.isSome = true) :
    (s.jump note).exits = note s.reachable s.exits := by
  unfold State.jump at h ⊢
  cases hl : s.loop? with
  | none => simp [hl] at h
  | some l => simp [State.exits, hl]

theorem reachable_jump {note : Bool → LoopExits → LoopExits} (h : (s.jump note).loop? = none) :
    (s.jump note).reachable = s.reachable := by
  unfold State.jump at h ⊢
  cases hl : s.loop? with
  | none => rfl
  | some l => simp [hl] at h

/-- A step out of the innermost loop, or on to what comes next outside any loop. -/
theorem live_of_jump {note : Bool → LoopExits → LoopExits} {k : Surroundings}
    (h : Leads live opened k (s.jump note)) (ho : opened) (hs : s.reachable = true)
    {exit : Point × Point → Point}
    (hexit : (s.jump note).exits = note true s.exits → ∀ l ∈ k.loop?, live (exit l)) :
    live ((k.loop?.map exit).getD k.next) := by
  cases hl : k.loop? with
  | none =>
    have hnone : (s.jump note).loop? = none := by
      rw [← Option.isNone_iff_eq_none, ← Option.not_isSome, h.loop?, hl]
      rfl
    exact h.next ho ((reachable_jump hnone).trans hs)
  | some l =>
    have hsome : (s.jump note).loop?.isSome = true := by
      rw [h.loop?, hl]
      rfl
    exact hexit (hs ▸ exits_jump hsome) l hl

mutual

/-- The steps of a statement lead from live points to live ones. -/
theorem edges_closed (p : List Nat) : (b : Stmt) → ∀ (opened : Prop) (k : Surroundings) s,
    Stands live c opened p b s → Leads live opened k (statement c b s) →
      ∀ e ∈ edges k p b, live e.1 → live e.2
  | .block ⟨r, l, ss, l'⟩, opened, k, s, h, hk, e, he, hlive => by
    rw [statement] at hk
    rw [edges] at he
    rcases List.mem_cons.mp he with rfl | he
    · obtain ⟨ho, hs⟩ := (h.part .entry).mp hlive
      exact h.block.first ⟨ho, trivial⟩ hs fun hr => hk.next ho hr
    · have hss : Leads live (opened ∧ True) k (statements c ss s) :=
        hk.before (.of_eq rfl) And.left fun ho => hk.next ho.1
      exact edgesAmong_closed p 0 ss _ k s h.block hss e he hlive
  | .empty _, opened, k, s, h, hk, e, he, hlive => by
    rw [statement] at hk
    rw [edges] at he
    obtain rfl := List.mem_singleton.mp he
    obtain ⟨ho, hs⟩ := (h.part .entry).mp hlive
    exact hk.next ho hs
  | .localDeclaration r _ _ _, opened, k, s, h, hk, e, he, hlive
  | .expression r _ _, opened, k, s, h, hk, e, he, hlive => by
    rw [statement] at hk
    rw [edges] at he
    obtain rfl := List.mem_singleton.mp he
    obtain ⟨ho, hs⟩ := (h.part .entry).mp hlive
    exact hk.next ho ((reachable_check s _).trans hs)
  | .returnValue _ _, _, k, s, _, _, e, he, _ | .goto _ _, _, k, s, _, _, e, he, _ => by
    simp [edges] at he
  | .breakLoop r, opened, k, s, h, hk, e, he, hlive => by
    rw [statement] at hk
    rw [edges] at he
    obtain rfl := List.mem_singleton.mp he
    obtain ⟨ho, hs⟩ := (h.part .entry).mp hlive
    refine live_of_jump hk ho ((reachable_check s _).trans hs) fun hexits => ?_
    exact hk.broken ho (by simp [hexits, breakOut])
  | .continueLoop r, opened, k, s, h, hk, e, he, hlive => by
    rw [statement] at hk
    rw [edges] at he
    obtain rfl := List.mem_singleton.mp he
    obtain ⟨ho, hs⟩ := (h.part .entry).mp hlive
    refine live_of_jump hk ho ((reachable_check s _).trans hs) fun hexits => ?_
    exact hk.continued ho (by simp [hexits, continueOn])
  | .ifElse r cond body none, opened, k, s, h, hk, e, he, hlive => by
    have hbody := h.child (i := 0) rfl
    rw [statement_ifElse] at hk
    rw [edges, List.mem_append] at he
    rcases he with he | he
    · have hentry : live ⟨p, .entry⟩ ↔ opened ∧ s.reachable = true := h.part .entry
      refine branch_closed hentry.mp (fun ⟨ho, hs⟩ ht => ?_) (fun ⟨ho, hs⟩ ht => ?_) e he hlive
      · exact hbody.entry ⟨ho, trivial⟩ (by simp [childStart, hs, ht])
      · exact hk.next ho (by simp [childStart, hs, ht])
    · refine edges_closed (p ++ [0]) body _ k _ hbody ?_ e he hlive
      refine hk.before ?_ And.left fun ho hr => hk.next ho.1 ?_
      · exact .of_eq rfl
      · simp [hr]
  | .ifElse r cond body (some other), opened, k, s, h, hk, e, he, hlive => by
    have hbody := h.child (i := 0) rfl
    have hother := h.child (i := 1) rfl
    have hgrows := grows_statement (c := c) other
      (childStart c (.ifElse r cond body (some other)) s 1)
    rw [statement_ifElse_some] at hk
    rw [edges, List.mem_append, List.mem_append] at he
    rcases he with (he | he) | he
    · have hentry : live ⟨p, .entry⟩ ↔ opened ∧ s.reachable = true := h.part .entry
      refine branch_closed hentry.mp (fun ⟨ho, hs⟩ ht => ?_) (fun ⟨ho, hs⟩ ht => ?_) e he hlive
      · exact hbody.entry ⟨ho, trivial⟩ (by simp [childStart, hs, ht])
      · exact hother.entry ⟨ho, trivial⟩ (by simp [childStart, hs, ht])
    · refine edges_closed (p ++ [0]) body _ k _ hbody ?_ e he hlive
      refine hk.before ?_ And.left fun ho hr => hk.next ho.1 ?_
      · exact hgrows.congr rfl rfl
      · simp [hr]
    · refine edges_closed (p ++ [1]) other _ k _ hother ?_ e he hlive
      refine hk.before ?_ And.left fun ho hr => hk.next ho.1 ?_
      · exact .of_eq rfl
      · simp [hr]
  | .whileLoop r cond body, opened, k, s, h, hk, e, he, hlive => by
    have hbody := h.child (i := 0) rfl
    have hcond : live ⟨p, .condition⟩ ↔ opened ∧ s.reachable = true := h.part .condition
    rw [statement_whileLoop] at hk
    rw [edges, List.mem_append, List.mem_cons] at he
    rcases he with (rfl | he) | he
    · exact hcond.mpr ((h.part .entry).mp hlive)
    -- The condition is live as the loop is open, whether the end of the body is reachable or not.
    · refine branch_closed hcond.mp (fun ⟨ho, hs⟩ ht => ?_) (fun ⟨ho, hs⟩ ht => ?_) e he hlive
      · exact hbody.entry ⟨ho, hs⟩ (by simp [childStart, hs, ht])
      · exact hk.next ho (by simp [hs, ht])
    · refine edges_closed (p ++ [0]) body _ _ _ hbody ?_ e he hlive
      refine .ofLoop (isSome_loop?_body rfl body) (fun ho hb => hk.next ho.1 ?_) fun ho _ => ?_
      · simp [hb]
      · exact hcond.mpr ho
  | .doLoop r body cond, opened, k, s, h, hk, e, he, hlive => by
    have hbody := h.child (i := 0) rfl
    rw [statement_doLoop] at hk
    rw [edges, List.mem_append, List.mem_cons] at he
    rcases he with (rfl | he) | he
    · obtain ⟨ho, hs⟩ := (h.part .entry).mp hlive
      exact hbody.entry ⟨ho, hs⟩ ((reachable_check s _).trans hs)
    · refine branch_closed (h.part .condition).mp (fun ⟨ho, hs, _⟩ _ => ?_)
        (fun ⟨ho, hs, hround⟩ ht => ?_) e he hlive
      -- The step back enters a body that was reachable from the start.
      · exact hbody.entry ⟨ho, hs⟩ ((reachable_check s _).trans hs)
      · refine hk.next ho ?_
        dsimp only
        rw [reachable_goOn, hround, ht]
        rfl
    · refine edges_closed (p ++ [0]) body _ _ _ hbody ?_ e he hlive
      refine .ofLoop (isSome_loop?_body rfl body) (fun ho hb => hk.next ho.1 ?_) fun ho hr => ?_
      · simp [hb]
      · exact (h.part .condition).mpr ⟨ho.1, ho.2, hr⟩
  | .forLoop r header body, opened, k, s, h, hk, e, he, hlive => by
    have hbody := h.child (i := 0) rfl
    have hcond : live ⟨p, .condition⟩ ↔ opened ∧ s.reachable = true := h.part .condition
    have hincrementors := h.incrementors
    rw [statement_forLoop] at hk
    rw [edges, List.mem_append, List.mem_append, List.mem_append] at he
    rcases he with ((he | he) | he) | he
    · refine chain_closed (fun q hq => ?_) hcond.mpr e he hlive
      rcases List.mem_cons.mp hq with rfl | hq
      · exact h.part .entry
      · obtain ⟨i, -, rfl⟩ := List.mem_map.mp hq
        exact h.part (.initializer i)
    · refine branch_closed hcond.mp (fun ⟨ho, hs⟩ ht => ?_) (fun ⟨ho, hs⟩ ht => ?_) e he hlive
      · exact hbody.entry ⟨ho, hs⟩ (by simp [childStart, hs, ht])
      · exact hk.next ho (by simp [hs, ht])
    · refine edges_closed (p ++ [0]) body _ _ _ hbody ?_ e he hlive
      refine .ofLoop (isSome_loop?_body rfl body) (fun ho hb => hk.next ho.1 ?_) fun ho hr => ?_
      · simp [hb]
      · cases hqs : incrementors p header with
        | nil => exact hcond.mpr ho
        | cons q qs =>
          refine (hincrementors q ?_).mpr ⟨ho, reachable_roundEnd hr⟩
          rw [hqs]
          exact List.mem_cons_self
    · exact chain_closed hincrementors (fun ho => hcond.mpr ho.1) e he hlive
  | .labeled r l body, opened, k, s, h, hk, e, he, hlive => by
    have hbody := h.child (i := 0) rfl
    rw [statement_labeled] at hk
    rw [edges] at he
    rcases List.mem_cons.mp he with rfl | he
    · obtain ⟨ho, hs⟩ := (h.part .entry).mp hlive
      exact hbody.entry ⟨ho, trivial⟩ hs
    · refine edges_closed (p ++ [0]) body _ k _ hbody ?_ e he hlive
      exact hk.before (.of_eq rfl) And.left fun ho => hk.next ho.1

theorem edgesAmong_closed (p : List Nat) (n : Nat) : (bs : List Stmt) →
    ∀ (opened : Prop) (k : Surroundings) s, StandsAmong live c opened p n bs s →
      Leads live opened k (statements c bs s) →
        ∀ e ∈ edgesAmong k p n bs, live e.1 → live e.2
  | [], _, k, s, _, _, e, he, _ => by simp [edgesAmong] at he
  | b :: bs, opened, k, s, h, hk, e, he, hlive => by
    rw [statements] at hk
    rw [edgesAmong, List.mem_append] at he
    rcases he with he | he
    · refine edges_closed (p ++ [n]) b opened _ s h.head ?_ e he hlive
      refine hk.before (grows_statements bs _) id fun ho hr => ?_
      exact h.tail.first ho hr (hk.next ho)
    · exact edgesAmong_closed p (n + 1) bs opened k _ h.tail hk e he hlive

end

/-! ### Jumps -/

/-- The labels in sight to which some `goto` jumps stand before live statements. -/
def InSight (live : Point → Prop) (c : Context) (opened : Prop) (labels : List Label) : Prop :=
  opened → ∀ l ∈ labels, c.isReferenced l.place = true → live l.point

theorem InSight.append {labels labels' : List Label} {inner : Prop}
    (h' : InSight live c inner labels') (h : InSight live c opened labels) (ho : inner → opened) :
    InSight live c inner (labels' ++ labels) := by
  intro hi l hl
  rcases List.mem_append.mp hl with hl | hl
  · exact h' hi l hl
  · exact h (ho hi) l hl

theorem inSight_before (p : List Nat) : (b : Stmt) → ∀ (opened : Prop) s,
    Stands live c opened p b s → InSight live c opened (labelsBefore p b)
  | .labeled r l body, opened, s, h, ho, l', hl, hr => by
    have hmore := inSight_before (p ++ [0]) body _ _ (h.child rfl) ⟨ho, trivial⟩ l'
    rw [labelsBefore] at hl
    split at hl
    · exact hmore hl hr
    next hm =>
      rcases List.mem_cons.mp hl with rfl | hl
      · refine (h.part .entry).mpr ⟨ho, ?_⟩
        show (labelStart c r l s).reachable = true
        rw [reachable_labelStart, hr, eq_false_of_ne_true hm]
        exact Bool.or_true _
      · exact hmore hl hr
  | .block _, _, _, _, _, _, hl, _ | .empty _, _, _, _, _, _, hl, _
  | .localDeclaration _ _ _ _, _, _, _, _, _, hl, _ | .expression _ _ _, _, _, _, _, _, hl, _
  | .ifElse _ _ _ _, _, _, _, _, _, hl, _ | .whileLoop _ _ _, _, _, _, _, _, hl, _
  | .doLoop _ _ _, _, _, _, _, _, hl, _ | .forLoop _ _ _, _, _, _, _, _, hl, _
  | .returnValue _ _, _, _, _, _, _, hl, _ | .goto _ _, _, _, _, _, _, hl, _
  | .breakLoop _, _, _, _, _, _, hl, _ | .continueLoop _, _, _, _, _, _, hl, _ => by
    simp [labelsBefore] at hl

theorem inSight_among (p : List Nat) {n : Nat} {bs : List Stmt}
    (h : StandsAmong live c opened p n bs s) :
    InSight live c opened (labelsAmong p n bs) := by
  induction bs generalizing n s with
  | nil => simp [InSight, labelsAmong]
  | cons b bs ih => exact (inSight_before (p ++ [n]) b _ s h.head).append (ih h.tail) id

mutual

/-- The jumps of a statement lead from live points to live ones. -/
theorem jumps_closed (p : List Nat) : (b : Stmt) → ∀ (opened : Prop) (labels : List Label) s,
    Stands live c opened p b s → InSight live c opened labels →
      ∀ j ∈ jumps labels p b, c.isReferenced j.2.place = true → live j.1 → live j.2.point
  | .block ⟨r, l, ss, l'⟩, opened, labels, s, h, hl, j, hj => by
    rw [jumps] at hj
    exact jumpsAmong_closed p 0 ss _ _ s h.block ((inSight_among p h.block).append hl And.left) j hj
  | .ifElse r cond body none, opened, labels, s, h, hl, j, hj => by
    have hbody := h.child (i := 0) rfl
    rw [jumps] at hj
    exact jumps_closed (p ++ [0]) body _ _ _ hbody
      ((inSight_before _ body _ _ hbody).append hl And.left) j hj
  | .ifElse r cond body (some other), opened, labels, s, h, hl, j, hj => by
    have hbody := h.child (i := 0) rfl
    have hother := h.child (i := 1) rfl
    rw [jumps, List.mem_append] at hj
    rcases hj with hj | hj
    · exact jumps_closed (p ++ [0]) body _ _ _ hbody
        ((inSight_before _ body _ _ hbody).append hl And.left) j hj
    · exact jumps_closed (p ++ [1]) other _ _ _ hother
        ((inSight_before _ other _ _ hother).append hl And.left) j hj
  | .whileLoop r cond body, opened, labels, s, h, hl, j, hj
  | .doLoop r body cond, opened, labels, s, h, hl, j, hj
  | .forLoop r cond body, opened, labels, s, h, hl, j, hj => by
    have hbody := h.child (i := 0) rfl
    rw [jumps] at hj
    exact jumps_closed (p ++ [0]) body _ _ _ hbody
      ((inSight_before _ body _ _ hbody).append hl And.left) j hj
  | .labeled r l body, opened, labels, s, h, hl, j, hj => by
    rw [jumps] at hj
    exact jumps_closed (p ++ [0]) body _ _ _ (h.child rfl) (fun ho => hl ho.1) j hj
  | .goto r l, opened, labels, s, h, hl, j, hj => by
    intro hr hlive
    rw [jumps] at hj
    split at hj
    next target ht =>
      obtain rfl := List.mem_singleton.mp hj
      have hmem : target ∈ labels := by
        unfold target? at ht
        split at ht
        · simp at ht
        · exact List.mem_of_find?_eq_some ht
      exact hl ((h.part .entry).mp hlive).1 target hmem hr
    · simp at hj
  | .empty _, _, _, _, _, _, j, hj | .localDeclaration _ _ _ _, _, _, _, _, _, j, hj
  | .expression _ _ _, _, _, _, _, _, j, hj | .returnValue _ _, _, _, _, _, _, j, hj
  | .breakLoop _, _, _, _, _, _, j, hj | .continueLoop _, _, _, _, _, _, j, hj => by
    simp [jumps] at hj

theorem jumpsAmong_closed (p : List Nat) (n : Nat) : (bs : List Stmt) →
    ∀ (opened : Prop) (labels : List Label) s, StandsAmong live c opened p n bs s →
      InSight live c opened labels →
        ∀ j ∈ jumpsAmong labels p n bs, c.isReferenced j.2.place = true →
          live j.1 → live j.2.point
  | [], _, _, _, _, _, j, hj => by simp [jumpsAmong] at hj
  | b :: bs, opened, labels, s, h, hl, j, hj => by
    rw [jumpsAmong, List.mem_append] at hj
    rcases hj with hj | hj
    · exact jumps_closed (p ++ [n]) b _ _ s h.head hl j hj
    · exact jumpsAmong_closed p (n + 1) bs _ _ _ h.tail hl j hj

end

/-! ### Findings -/

theorem of_mem_findingAt {q : Point} {span : Span} {f : Finding} (hf : f ∈ findingAt q span s) :
    f.point = q ∧ s.reachable = false := by
  unfold findingAt at hf
  split at hf
  · simp at hf
  next hs =>
    obtain rfl := List.mem_singleton.mp hf
    simp only [Bool.or_eq_true, not_or, Bool.not_eq_true] at hs
    exact ⟨rfl, hs.1.1⟩

theorem of_mem_findingsAlong {part : Nat → Point} {i : Nat} {spans : List Span} {f : Finding}
    (hf : f ∈ findingsAlong c part i spans s) :
    (∃ j, f.point = part j) ∧ s.reachable = false := by
  induction spans generalizing i s with
  | nil => simp [findingsAlong] at hf
  | cons span spans ih =>
    rw [findingsAlong, List.mem_append] at hf
    rcases hf with hf | hf
    · obtain ⟨hq, hs⟩ := of_mem_findingAt hf
      exact ⟨⟨i, hq⟩, hs⟩
    · obtain ⟨hq, hs⟩ := ih hf
      exact ⟨hq, (reachable_check s span).symm.trans hs⟩

namespace Stands

variable {f : Finding} {part : Part}

theorem dead (h : Stands live c opened p b s) {span : Span}
    (hb : isLivePart c b s part → s.reachable = true) (hf : f ∈ findingAt ⟨p, part⟩ span s) :
    ¬ live f.point := by
  obtain ⟨hq, hs⟩ := of_mem_findingAt hf
  intro hlive
  have hr := hb ((h.part part).mp (hq ▸ hlive)).2
  simp [hs] at hr

theorem deadAlong (h : Stands live c opened p b s) {part : Nat → Part} {spans : List Span}
    (hb : ∀ j, isLivePart c b s (part j) → t.reachable = true)
    (hf : f ∈ findingsAlong c (fun j => ⟨p, part j⟩) 0 spans t) : ¬ live f.point := by
  obtain ⟨⟨j, hq⟩, ht⟩ := of_mem_findingsAlong hf
  intro hlive
  have hr := hb j ((h.part (part j)).mp (hq ▸ hlive)).2
  simp [ht] at hr

end Stands

mutual

/-- What is found in a statement is not live. -/
theorem not_live_of_mem_findings (p : List Nat) : (b : Stmt) → ∀ (opened : Prop) s,
    Stands live c opened p b s → ∀ f ∈ findings c p b s, ¬ live f.point
  | .block ⟨_, _, ss, _⟩, opened, s, h, f, hf => by
    rw [findings] at hf
    exact not_live_of_mem_findingsAmong p 0 ss _ s h.block f hf
  | .empty _, opened, s, h, f, hf => by simp [findings] at hf
  | .localDeclaration _ _ _ _, opened, s, h, f, hf | .expression _ _ _, opened, s, h, f, hf
  | .returnValue _ _, opened, s, h, f, hf | .goto _ _, opened, s, h, f, hf
  | .breakLoop _, opened, s, h, f, hf | .continueLoop _, opened, s, h, f, hf => by
    rw [findings] at hf
    exact h.dead id hf
  | .ifElse r cond body none, opened, s, h, f, hf => by
    rw [findings, List.append_nil, List.mem_append] at hf
    rcases hf with hf | hf
    · exact h.dead id hf
    · exact not_live_of_mem_findings (p ++ [0]) body _ _ (h.child rfl) f hf
  | .ifElse r cond body (some other), opened, s, h, f, hf => by
    rw [findings, List.mem_append, List.mem_append] at hf
    rcases hf with (hf | hf) | hf
    · exact h.dead id hf
    · exact not_live_of_mem_findings (p ++ [0]) body _ _ (h.child rfl) f hf
    · exact not_live_of_mem_findings (p ++ [1]) other _ _ (h.child rfl) f hf
  | .whileLoop r cond body, opened, s, h, f, hf | .doLoop r body cond, opened, s, h, f, hf => by
    rw [findings, List.mem_append] at hf
    rcases hf with hf | hf
    · exact h.dead id hf
    · exact not_live_of_mem_findings (p ++ [0]) body _ _ (h.child rfl) f hf
  | .forLoop r header body, opened, s, h, f, hf => by
    rw [findings, List.mem_append, List.mem_append] at hf
    rcases hf with (hf | hf) | hf
    · exact h.deadAlong (fun _ => id) hf
    · exact not_live_of_mem_findings (p ++ [0]) body _ _ (h.child rfl) f hf
    · exact h.deadAlong (fun _ => And.right) hf
  | .labeled r l body, opened, s, h, f, hf => by
    rw [findings, List.mem_append] at hf
    rcases hf with hf | hf
    · split at hf
      · simp at hf
      next hl =>
        refine h.dead (fun hr => ?_) hf
        rw [isLivePart, reachable_labelStart, eq_false_of_ne_true hl] at hr
        rwa [Bool.or_false] at hr
    · exact not_live_of_mem_findings (p ++ [0]) body _ _ (h.child rfl) f hf

theorem not_live_of_mem_findingsAmong (p : List Nat) (n : Nat) : (bs : List Stmt) →
    ∀ (opened : Prop) s, StandsAmong live c opened p n bs s →
      ∀ f ∈ findingsAmong c p n bs s, ¬ live f.point
  | [], _, _, _, f, hf => by simp [findingsAmong] at hf
  | b :: bs, opened, s, h, f, hf => by
    rw [findingsAmong, List.mem_append] at hf
    rcases hf with hf | hf
    · exact not_live_of_mem_findings (p ++ [n]) b _ s h.head f hf
    · exact not_live_of_mem_findingsAmong p (n + 1) bs _ _ h.tail f hf

end

/-! ### Bodies -/

/-- Whether a point of a body is live, or its end. -/
def IsLiveIn (c : Context) (body : List Stmt) (q : Point) : Prop :=
  q = finish ∨ ∃ i path b, q.path = i :: path ∧ body[i]? = some b ∧
    isLive c b (statements c (body.take i) {}) path q.part

theorem standsAmong_body (c : Context) (body : List Stmt) :
    StandsAmong (IsLiveIn c body) c True [] 0 body {} := by
  intro i b hb q part
  rw [Nat.zero_add]
  constructor
  · rintro (h | ⟨j, path, b', hpath, hb', hlive⟩)
    · simp [finish] at h
    · obtain ⟨rfl, rfl⟩ := List.cons.inj hpath
      obtain rfl := Option.some.inj (hb.symm.trans hb')
      exact ⟨trivial, hlive⟩
  · rintro ⟨-, hlive⟩
    exact .inr ⟨i, q, b, rfl, hb, hlive⟩

/-- Control comes only to live points. -/
theorem isLiveIn_of_reachable {body : List Stmt} (hc : c.Covers body) {q : Point}
    (hq : Reachable body q) : IsLiveIn c body q := by
  have h := standsAmong_body c body
  -- Outside any loop nothing is asked of exits, and the end of the body is live.
  have hk : Leads (IsLiveIn c body) True ⟨finish, none⟩ (statements c body {}) :=
    ⟨fun _ _ => .inl rfl, (grows_statements body {}).loop?, by simp, by simp⟩
  have hl : InSight (IsLiveIn c body) c True (labelsAmong [] 0 body) := inSight_among [] h
  induction hq with
  | refl => exact h.first trivial rfl fun _ => .inl rfl
  | tail _ he ih =>
    rcases List.mem_append.mp he with he | he
    · exact edgesAmong_closed [] 0 body _ _ _ h hk _ he ih
    · obtain ⟨j, hj, hje⟩ := List.mem_map.mp he
      obtain ⟨rfl, rfl⟩ := Prod.mk.inj hje
      exact jumpsAmong_closed [] 0 body _ _ _ h hl j hj (hc j hj) ih

theorem not_reachable_of_mem_bodyFindings {body : List Stmt} (hc : c.Covers body) {f : Finding}
    (hf : f ∈ bodyFindings c body) : ¬ Reachable body f.point := fun hq =>
  not_live_of_mem_findingsAmong [] 0 body _ _ (standsAmong_body c body) f hf
    (isLiveIn_of_reachable hc hq)

/-- What is reported of a unit as unreachable, besides what was reported before, is what was found
in its bodies, each with the text at its point, and control can come to none of these points. -/
theorem unit_reports_unreachable {u : CompilationUnit} (hc : ∀ body ∈ u.bodies, c.Covers body)
    (diagnostics : Array Diagnostic) :
    (unit c u diagnostics).toList.filter (·.message = .unreachableCode) =
        diagnostics.toList.filter (·.message = .unreachableCode) ++
          u.bodies.flatMap (fun body => (bodyFindings c body).map (·.diagnostic c)) ∧
      ∀ body ∈ u.bodies, ∀ f ∈ bodyFindings c body,
        codeAt? body f.point = some f.span ∧ ¬ Reachable body f.point :=
  ⟨unreachable_unit c u diagnostics, fun body hbody _ hf =>
    ⟨codeAt?_of_mem_bodyFindings hf, not_reachable_of_mem_bodyFindings (hc body hbody) hf⟩⟩

/-- The statements of `goto a; return; a: ;`. -/
def jumpOver : List Stmt :=
  [.goto ⟨0, 7⟩ { text := "a", range := ⟨5, 6⟩ }, .returnValue ⟨8, 15⟩ none,
    .labeled ⟨16, 20⟩ { text := "a", range := ⟨16, 17⟩ } (.empty ⟨19, 20⟩)]

theorem reports_return_of_jumpOver :
    let u : CompilationUnit :=
      ⟨⟨0, 20⟩, [], jumpOver.map .globalStatement, ⟨.endOfFile, ⟨20, 20⟩, false⟩⟩
    let c : Context := ⟨⟨[], ⟨.endOfFile, ⟨20, 20⟩, "", {}⟩⟩, (· == 16)⟩
    (∀ body ∈ u.bodies, c.Covers body) ∧ ⟨⟨[1], .entry⟩, ⟨8, 7⟩⟩ ∈ bodyFindings c jumpOver ∧
      ¬ Reachable jumpOver ⟨[1], .entry⟩ := by
  intro u c
  have hbodies : u.bodies = [jumpOver] := rfl
  have hc : ∀ body ∈ u.bodies, c.Covers body := by
    rw [hbodies]
    simp [Context.Covers, bodyJumps, jumpOver, labelsAmong, labelsBefore, jumpsAmong, jumps,
      target?, c]
  have hf : ⟨⟨[1], .entry⟩, ⟨8, 7⟩⟩ ∈ bodyFindings c jumpOver := List.mem_singleton.mpr rfl
  exact ⟨hc, hf, ((unit_reports_unreachable hc #[]).2 jumpOver (by simp [hbodies]) _ hf).2⟩

end CSharpFront.Flow
