import CSharpFront.Proofs.Lexer.Scan
import CSharpFront.Proofs.Parser.NestingDiscipline
import CSharpFront.Proofs.Parser.PlacesDeclarations
import CSharpFront.Proofs.Parser.Spans
/-!
Parsing runs through a whole text. It ends, moves only forward on its way, and stops at the end of
the file; unless the nesting limit was hit, each token then lies in exactly one directive or member
of the unit.
-/

namespace CSharpFront

/-- Whatever the text is, the scanner's tokens stand in order, and none of them is an end of file. -/
theorem scan_inOrder (text : String) :
    (scan text).1.endOfFile.kind = .endOfFile ∧
      (∀ t ∈ (scan text).1.tokens, t.kind ≠ .endOfFile) ∧ (scan text).1.InOrder := by
  obtain ⟨ps, h⟩ := exists_divides_scan text
  have htokens : (scan text).1.tokens = Piece.tokens ps := h.tokens
  have hbounds := h.tiling.bounds_of_mem_tokens
  have hend : (scan text).1.endOfFile.start = 0 + Text.byteCount text.toList :=
    congrArg Range.start h.range
  refine ⟨h.kind, ?_, ⟨?_, ?_⟩, ?_⟩
  · rw [htokens]
    exact h.tiling.kind_ne_of_mem_tokens
  · intro t ht
    exact (hbounds t (htokens ▸ ht)).2.1
  · rw [htokens]
    exact h.tiling.pairwise_stop_le_start
  · intro t ht
    rw [hend]
    exact (hbounds t (htokens ▸ ht)).2.2

namespace Parser

variable {α : Type} {tokens : List Token} {bound limit : Nat} {last : Token} {m n k : Moment}
  {env : Env} {s t : State} {r : Rules} {range : α → Range}

/-! ### The tokens that are taken -/

/-- The tokens that were left at one moment and no longer are at another, unless the limit was hit:
they have been taken, the last of them last. -/
def Moment.Consumes (m n : Moment) (taken : List Token) : Prop :=
  m.rest = taken ++ n.rest ∧ n.prevStop = (taken.getLast?.map Token.stop).getD m.prevStop

theorem Moment.Step.consumes (h : n.Step limit last k)
    (hm : n.tooDeep = false → ∃ taken, m.Consumes n taken) (hk : k.tooDeep = false) :
    ∃ taken, m.Consumes k taken := by
  cases h with
  | @take t rest h =>
    obtain ⟨taken, hrest, -⟩ := hm hk
    refine ⟨taken ++ [t], ?_, ?_⟩
    · rw [hrest, h, List.append_assoc]
      rfl
    · simp
  | report | enter | leave => exact hm hk
  | giveUp => cases hk

theorem Leads.consumes (h : Leads env s t) (ht : t.tooDeep = false) :
    ∃ taken, s.toMoment.Consumes t.toMoment taken := by
  obtain ⟨⟨ms, -, hcourse⟩, -⟩ := h
  have hall := hcourse.invariant
    (p := fun n => n.tooDeep = false → ∃ taken, s.toMoment.Consumes n taken)
    (fun hstep hm => hstep.consumes hm) fun _ => ⟨[], rfl, rfl⟩
  exact hall.1 ht

/-- What was read while tokens were taken goes over just these. -/
theorem Leads.goesOver (h : Leads env s t) (ht : t.tooDeep = false) (ho : Token.InOrder s.rest)
    (hlt : t.rest.length < s.rest.length) :
    ∃ taken, s.rest = taken ++ t.rest ∧
      Range.GoesOver ⟨(s.rest.headD env.endOfFile).start,
        max t.prevStop (s.rest.headD env.endOfFile).start⟩ taken := by
  obtain ⟨taken, hrest, hstop⟩ := h.consumes ht
  refine ⟨taken, hrest, ?_⟩
  obtain ⟨first, rest, rfl⟩ : ∃ first rest, taken = first :: rest := by
    cases taken with
    | nil =>
      rw [hrest] at hlt
      exact absurd hlt (Nat.lt_irrefl _)
    | cons first rest => exact ⟨first, rest, rfl⟩
  obtain ⟨final, hfinal⟩ : ∃ final, (first :: rest).getLast? = some final :=
    ⟨_, List.getLast?_eq_some_getLast (List.cons_ne_nil _ _)⟩
  have hover : Range.GoesOver ⟨first.start, final.stop⟩ (first :: rest) :=
    ⟨first, rfl, final, hfinal, rfl⟩
  have hfirst : (s.rest.headD env.endOfFile).start = first.start := by
    rw [hrest]
    rfl
  have hle : first.start ≤ final.stop := by
    have htaken := ho.sublist (hrest ▸ List.sublist_append_left (first :: rest) t.rest)
    have hholds := hover.holds htaken (List.mem_of_mem_getLast? hfinal)
    have hlt := htaken.start_lt_stop final (List.mem_of_mem_getLast? hfinal)
    have hstart := (Range.holds_iff.mp hholds).1
    exact Nat.le_trans hstart (Nat.le_of_lt hlt)
  rw [hfirst, hstop, hfinal, Option.map_some, Option.getD_some, Nat.max_eq_left hle]
  exact hover

/-! ### Lists that are read in loops -/

/-- Items that have been read in addition to others, the last first, laid out over the tokens that
were taken in the meantime. -/
def Lays (range : α → Range) (items : List α) (s : State) (items' : List α) (t : State) : Prop :=
  ∃ (new : List α) (taken : List Token), items' = new.reverse ++ items ∧
    s.rest = taken ++ t.rest ∧ LaidOut (new.map range) taken

namespace Lays

variable {items items' items'' : List α} {u : State}

theorem refl (h : t.rest = s.rest) : Lays range items s items t :=
  ⟨[], [], rfl, h.symm, .nil⟩

theorem trans (h : Lays range items s items' t) (h' : Lays range items' t items'' u) :
    Lays range items s items'' u := by
  obtain ⟨new, taken, rfl, hrest, hlaid⟩ := h
  obtain ⟨new', taken', rfl, hrest', hlaid'⟩ := h'
  refine ⟨new ++ new', taken ++ taken', ?_, ?_, ?_⟩
  · rw [List.reverse_append, List.append_assoc]
  · rw [hrest, hrest', List.append_assoc]
  · rw [List.map_append]
    exact hlaid.append hlaid'

theorem single {a : α} (h : ∃ taken, s.rest = taken ++ t.rest ∧ (range a).GoesOver taken) :
    Lays range items s (a :: items) t := by
  obtain ⟨taken, hrest, hover⟩ := h
  refine ⟨[a], taken, rfl, hrest, ?_⟩
  have hlaid : LaidOut [range a] (taken ++ []) := .cons hover .nil
  rwa [List.append_nil] at hlaid

end Lays

/-- Items that a loop reads are laid out if those of each round are. -/
theorem lays_iterate {step : List α → P (ForInStep (List α))}
    (hadvances : ∀ items ts, Advances tokens bound ts IsLast (step items) (step items))
    (hlays : ∀ items s, Ready tokens bound env s → (step items env s).2.tooDeep = false →
      Lays range items s (step items env s).1.value (step items env s).2)
    (he : env.Raises tokens env) (n : Nat) (items : List α) (s : State)
    (hs : Ready tokens bound env s) (hn : s.rest.length < n)
    (hlimit : (iterate step n items env s).2.tooDeep = false) :
    Lays range items s (iterate step n items env s).1 (iterate step n items env s).2 := by
  induction n generalizing items s with
  | zero => omega
  | succ n ih =>
    obtain ⟨hrun, hround⟩ := hadvances items s.rest env env s he hs rfl
    have hready := hs.of_leads hrun.leads hrun.depth
    have hfirst := hlays items s hs
    cases hr : (step items env s).1 with
    | done b =>
      have heq : iterate step (n + 1) items env s = (b, (step items env s).2) := by
        show (step items >>= _) env s = _
        rw [bind_apply, hr]
        rfl
      rw [heq] at hlimit ⊢
      rw [hr] at hfirst
      exact hfirst hlimit
    | yield b =>
      have heq : iterate step (n + 1) items env s = iterate step n b env (step items env s).2 := by
        show (step items >>= _) env s = _
        rw [bind_apply, hr]
      rw [heq] at hlimit ⊢
      rw [hr] at hfirst hround
      have hlt : (step items env s).2.rest.length < n := by
        have hlt := hround.resolve_left id
        omega
      have hrest := Orderly.iterate hadvances he n b _ hready hlt
      have hcalm : (step items env s).2.tooDeep = false :=
        Bool.eq_false_iff.mpr fun h => ne_true_of_eq_false hlimit (hrest.leads.tooDeep h)
      exact (hfirst hcalm).trans (ih b _ hready hlt hlimit)

/-- Items that come until there is none are laid out over their tokens if each goes over its own. -/
theorem laidOut_many {item : P (Option α)}
    (hadvances : ∀ ts, Advances tokens bound ts (· = none) item item)
    (hnone : ∀ s, (item env s).1 = none → (item env s).2.rest = s.rest)
    (hsome : ∀ s a, Ready tokens bound env s → (item env s).2.tooDeep = false →
      (item env s).1 = some a →
        ∃ taken, s.rest = taken ++ (item env s).2.rest ∧ (range a).GoesOver taken)
    (he : env.Raises tokens env) (hs : Ready tokens bound env s)
    (hlimit : (many item env s).2.tooDeep = false) :
    ∃ taken, s.rest = taken ++ (many item env s).2.rest ∧
      LaidOut ((many item env s).1.map range) taken := by
  have hlays (items : List α) (s : State) (hs : Ready tokens bound env s)
      (hlimit : (itemStep item items env s).2.tooDeep = false) :
      Lays range items s (itemStep item items env s).1.value (itemStep item items env s).2 := by
    cases ha : (item env s).1 with
    | none =>
      have hstep : itemStep item items env s = (.done items, (item env s).2) := by
        rw [itemStep, bind_apply, ha]
        rfl
      rw [hstep]
      exact .refl (hnone s ha)
    | some a =>
      have hstep : itemStep item items env s = (.yield (a :: items), (item env s).2) := by
        rw [itemStep, bind_apply, ha]
        rfl
      rw [hstep] at hlimit ⊢
      exact .single (hsome s a hs hlimit ha)
  have hlt : s.rest.length < env.budget := Nat.lt_of_le_of_lt hs.rest.length_le he.lt_budget
  have hrun : many item env s = ((iterate (itemStep item) env.budget [] env s).1.reverse,
      (iterate (itemStep item) env.budget [] env s).2) := rfl
  rw [hrun] at hlimit ⊢
  obtain ⟨new, taken, hnew, hrest, hlaid⟩ := lays_iterate
    (fun items ts => advances_itemStep (hadvances ts) items) hlays he env.budget [] s hs hlt hlimit
  refine ⟨taken, hrest, ?_⟩
  rwa [hnew, List.append_nil, List.reverse_reverse]

/-- The next directive, if there is one. -/
def usingDirective? (r : Rules) : P (Option UsingDirective) := do
  if (← currentKind) = .keyword .kwUsing then some <$> usingDirective r else return none

theorem usingDirective?_apply :
    usingDirective? r env s =
      if (s.rest.headD env.endOfFile).kind = .keyword .kwUsing then
        (some (usingDirective r env s).1, (usingDirective r env s).2)
      else (none, s) := by
  show (if (s.rest.headD env.endOfFile).kind = .keyword .kwUsing then _ else _ :
    P (Option UsingDirective)) env s = _
  split <;> rfl

/-- The directives at a place are laid out over their tokens. -/
theorem laidOut_usingDirectives (ho : Token.InOrder tokens) (hr : r.AreOrderly tokens bound r)
    (he : env.Raises tokens env) (hs : Ready tokens bound env s)
    (hlimit : (usingDirectives r env s).2.tooDeep = false) :
    ∃ taken, s.rest = taken ++ (usingDirectives r env s).2.rest ∧
      LaidOut ((usingDirectives r env s).1.map (·.range)) taken := by
  have hmany : usingDirectives r = many (usingDirective? r) := rfl
  have hadvances (ts : List Token) :
      Advances tokens bound ts (· = none) (usingDirective? r) (usingDirective? r) := by
    refine .currentKind (.ite (fun h => ?_) fun _ => .pure rfl)
    exact .bindTakes (takes_usingDirective hr h) fun _ => .pure _
  rw [hmany] at hlimit ⊢
  refine laidOut_many hadvances (fun s hnone => ?_) (fun s a hs hlimit ha => ?_) he hs hlimit
  · rw [usingDirective?_apply] at hnone ⊢
    split at hnone
    · cases hnone
    next hk => rw [if_neg hk]
  · rw [usingDirective?_apply] at hlimit ha ⊢
    split at ha
    next hk =>
      obtain ⟨rfl⟩ := ha
      rw [if_pos hk] at hlimit ⊢
      have hkind := hk
      rw [kind_headD he.kind_endOfFile] at hkind
      obtain ⟨hrun, hround⟩ := takes_usingDirective hr hkind env env s he hs rfl
      have hover := hrun.leads.goesOver hlimit (ho.sublist hs.rest.sublist)
        (hround.resolve_left id)
      rwa [← spansAt_usingDirective hlimit] at hover
    · cases ha

/-! ### Members -/

/-- A parser that comes to a result was cancelled in none of its parts. -/
theorem run_bind_of_ok {β : Type} {p : Cancellable α} {f : α → Cancellable β} {b : β}
    (h : ((p >>= f).run env s).1 = .ok b) :
    ∃ a, (p.run env s).1 = .ok a ∧ (p >>= f).run env s = (f a).run env (p.run env s).2 := by
  have hrun : (p >>= f).run env s =
      ExceptT.bindCont f (p.run env s).1 env (p.run env s).2 :=
    bind_apply p.run (ExceptT.bindCont f) env s
  rw [hrun] at h ⊢
  cases hp : (p.run env s).1 with
  | ok a => exact ⟨a, rfl, rfl⟩
  | error e =>
    rw [hp] at h
    cases h

/-- A loop that comes to a result is left in its last round. What each round does to its items and
to the state, they all do together, unless the limit was hit. -/
theorem iterate_of_ok {step : List α → Cancellable (ForInStep (List α))} {p : State → Prop}
    {q : List α → State → List α → State → Prop}
    (htrans : ∀ {as bs cs s t u}, q as s bs t → q bs t cs u → q as s cs u)
    (hadvances : ∀ items ts, AdvancesAll tokens bound ts IsLast (step items) (step items))
    (hexit : ∀ items s b, Ready tokens bound env s → ((step items).run env s).1 = .ok (.done b) →
      p ((step items).run env s).2)
    (hrel : ∀ items s v, Ready tokens bound env s → ((step items).run env s).1 = .ok v →
      ((step items).run env s).2.tooDeep = false →
      q items s v.value ((step items).run env s).2)
    (he : env.Raises tokens env) (n : Nat) (items items' : List α) (s : State)
    (hs : Ready tokens bound env s) (hn : s.rest.length < n)
    (hok : ((iterate step n items).run env s).1 = .ok items') :
    p ((iterate step n items).run env s).2 ∧
      (((iterate step n items).run env s).2.tooDeep = false →
        q items s items' ((iterate step n items).run env s).2) := by
  induction n generalizing items s with
  | zero => omega
  | succ n ih =>
    obtain ⟨hrun, hround⟩ := hadvances items s.rest env env s he hs rfl
    have hready := hs.of_leads hrun.leads hrun.depth
    obtain ⟨v, hv, heq⟩ : ∃ v, ((step items).run env s).1 = .ok v ∧
        (iterate step (n + 1) items).run env s = _ := run_bind_of_ok hok
    rw [heq] at hok ⊢
    cases v with
    | done b =>
      obtain ⟨rfl⟩ := hok
      exact ⟨hexit items s _ hs hv, hrel items s _ hs hv⟩
    | yield b =>
      have hlt : ((step items).run env s).2.rest.length < n := by
        have hlt := hround.resolve_left fun h => h _ hv
        omega
      have hrest := OrderlyAll.iterate hadvances he n b _ hready hlt
      obtain ⟨hleft, hlater⟩ := ih b _ hready hlt hok
      refine ⟨hleft, fun hlimit => ?_⟩
      have hcalm : ((step items).run env s).2.tooDeep = false :=
        Bool.eq_false_iff.mpr fun h => ne_true_of_eq_false hlimit (hrest.leads.tooDeep h)
      exact htrans (hrel items s _ hs hv hcalm) (hlater hlimit)

theorem poll_of_ok (h : (poll.run env s).1 = .ok ()) :
    ∃ polls, (poll.run env s).2 = { s with polls } := by
  obtain ⟨m, names, polls⟩ := s
  rcases polls with _ | _ | n
  · exact ⟨none, rfl⟩
  · cases h
  · exact ⟨some n, rfl⟩

section

variable {ends : TokenKind → Bool} {member : Cancellable α} {members : List α}
  {v : ForInStep (List α)}

/-- A round at the end of the members. -/
theorem memberStep_of_ends (h : ends (s.rest.headD env.endOfFile).kind = true) :
    (memberStep ends member members).run env s = (.ok (.done members), s) := by
  show (if ends (s.rest.headD env.endOfFile).kind = true then _ else _ :
    Cancellable (ForInStep (List α))).run env s = _
  rw [if_pos h]
  rfl

/-- A round that reads a member, which has taken a token. -/
theorem memberStep_of_not_ends (he : env.Raises tokens env) (hs : Ready tokens bound env s)
    (hends : ends .endOfFile = true) (h : ends (s.rest.headD env.endOfFile).kind = false)
    (hm : ∀ ts, AdvancesAll tokens bound ts (fun _ => ts = []) member member)
    (hok : ((memberStep ends member members).run env s).1 = .ok v) :
    ∃ polls m t, member.run env { s with polls } = (.ok m, t) ∧ t.rest.length < s.rest.length ∧
      Leads env { s with polls } t ∧
      (memberStep ends member members).run env s = (.ok (.yield (m :: members)), t) := by
  have hrun : (memberStep ends member members).run env s = (poll >>= fun _ => do
      let left := (← get).rest.length
      let m ← member
      if (← get).rest.length = left then advance
      return .yield (m :: members) : Cancellable (ForInStep (List α))).run env s := by
    show (if ends (s.rest.headD env.endOfFile).kind = true then _ else _ :
      Cancellable (ForInStep (List α))).run env s = _
    rw [if_neg (ne_true_of_eq_false h)]
  rw [hrun] at hok ⊢
  obtain ⟨⟨⟩, hpoll, hafter⟩ := run_bind_of_ok hok
  obtain ⟨polls, hpolls⟩ := poll_of_ok hpoll
  rw [hafter, hpolls] at hok ⊢
  let u : State := { s with polls }
  let rest (m : α) : Cancellable (ForInStep (List α)) := do
    if (← get).rest.length = s.rest.length then advance
    return .yield (m :: members)
  have hok : ((member >>= rest).run env u).1 = .ok v := hok
  obtain ⟨m, hresult, hlast⟩ := run_bind_of_ok hok
  obtain ⟨hleads, hround⟩ := hm s.rest env env u he ⟨hs.rest, hs.sane, hs.room⟩ rfl
  have hne : s.rest ≠ [] := by
    intro hnil
    rw [kind_headD he.kind_endOfFile, hnil] at h
    exact ne_true_of_eq_false h hends
  have hlt : (member.run env u).2.rest.length < s.rest.length :=
    hround.resolve_left fun hstays => hne (hstays m hresult)
  refine ⟨polls, m, (member.run env u).2, Prod.ext hresult rfl, hlt, hleads.leads, hlast.trans ?_⟩
  show (if (member.run env u).2.rest.length = s.rest.length then _ else _ :
    Cancellable (ForInStep (List α))).run env _ = _
  rw [if_neg (Nat.ne_of_lt hlt)]
  rfl

/-- A round without a member is one at the end of the members. -/
theorem ends_of_memberStep_done (he : env.Raises tokens env) (hs : Ready tokens bound env s)
    (hends : ends .endOfFile = true)
    (hm : ∀ ts, AdvancesAll tokens bound ts (fun _ => ts = []) member member) {b : List α}
    (hok : ((memberStep ends member members).run env s).1 = .ok (.done b)) :
    ends (Lookahead.kind ((memberStep ends member members).run env s).2.rest) = true := by
  rcases Bool.eq_false_or_eq_true (ends (s.rest.headD env.endOfFile).kind) with h | h
  · rw [memberStep_of_ends h, ← kind_headD he.kind_endOfFile]
    exact h
  · obtain ⟨polls, m, t, -, -, -, hrun⟩ := memberStep_of_not_ends he hs hends h hm hok
    rw [hrun] at hok
    cases hok

/-- A round reads a member over the tokens that it takes. -/
theorem lays_memberStep (ho : Token.InOrder tokens) (he : env.Raises tokens env)
    (hs : Ready tokens bound env s) (hends : ends .endOfFile = true)
    (hm : ∀ ts, AdvancesAll tokens bound ts (fun _ => ts = []) member member)
    (hspans : ∀ s, s.rest <:+ tokens → SpansAllAt (range · = ·) env s member)
    (hok : ((memberStep ends member members).run env s).1 = .ok v)
    (hlimit : ((memberStep ends member members).run env s).2.tooDeep = false) :
    Lays range members s v.value ((memberStep ends member members).run env s).2 := by
  rcases Bool.eq_false_or_eq_true (ends (s.rest.headD env.endOfFile).kind) with h | h
  · rw [memberStep_of_ends h] at hok ⊢
    obtain ⟨rfl⟩ := hok
    exact .refl rfl
  · obtain ⟨polls, m, t, hresult, hlt, hleads, hrun⟩ :=
      memberStep_of_not_ends he hs hends h hm hok
    rw [hrun] at hok hlimit ⊢
    obtain ⟨rfl⟩ := hok
    have hover := hleads.goesOver hlimit (ho.sublist hs.rest.sublist) hlt
    have hrange := hspans { s with polls } hs.rest
    rw [SpansAllAt, SpansAt, hresult] at hrange
    rw [← hrange hlimit m rfl] at hover
    exact .single hover

/-- Members end where they should, and are laid out over their tokens. -/
theorem membersUntil_of_ok (he : env.Raises tokens env) (hs : Ready tokens bound env s)
    (hends : ends .endOfFile = true)
    (hm : ∀ ts, AdvancesAll tokens bound ts (fun _ => ts = []) member member)
    (hok : ((membersUntil ends member).run env s).1 = .ok members) :
    ends (Lookahead.kind ((membersUntil ends member).run env s).2.rest) = true ∧
      (((membersUntil ends member).run env s).2.tooDeep = false → Token.InOrder tokens →
        (∀ s, s.rest <:+ tokens → SpansAllAt (range · = ·) env s member) →
          ∃ taken, s.rest = taken ++ ((membersUntil ends member).run env s).2.rest ∧
            LaidOut (members.map range) taken) := by
  let rel (as : List α) (s : State) (bs : List α) (t : State) : Prop :=
    Token.InOrder tokens → (∀ s, s.rest <:+ tokens → SpansAllAt (range · = ·) env s member) →
      Lays range as s bs t
  have hlt : s.rest.length < env.budget := Nat.lt_of_le_of_lt hs.rest.length_le he.lt_budget
  have horderly : OrderlyAll tokens bound member member := Advances.orderly hm
  obtain ⟨items, hitems, heq⟩ : ∃ items,
      ((iterate (memberStep ends member) env.budget []).run env s).1 = .ok items ∧
        (membersUntil ends member).run env s = (.ok items.reverse,
          ((iterate (memberStep ends member) env.budget []).run env s).2) :=
    run_bind_of_ok (p := loop [] (memberStep ends member)) hok
  obtain ⟨hexit, hrel⟩ := iterate_of_ok
    (p := fun t => ends (Lookahead.kind t.rest) = true) (q := rel)
    (fun h h' ho hspans => (h ho hspans).trans (h' ho hspans))
    (fun items ts => advances_memberStep hends horderly items)
    (fun _ _ _ hs hok => ends_of_memberStep_done he hs hends hm hok)
    (fun _ _ _ hs hok hlimit ho hspans => lays_memberStep ho he hs hends hm hspans hok hlimit)
    he env.budget [] items s hs hlt hitems
  rw [heq] at hok ⊢
  obtain ⟨rfl⟩ := hok
  refine ⟨hexit, fun hlimit ho hspans => ?_⟩
  obtain ⟨new, taken, hnew, hrest, hlaid⟩ := hrel hlimit ho hspans
  refine ⟨taken, hrest, ?_⟩
  rwa [hnew, List.append_nil, List.reverse_reverse]

end

/-! ### Whole units -/

/-- The ranges of the directives and members of a unit that stand in no other. -/
def topLevelRanges (u : CompilationUnit) : List Range :=
  u.usings.map (·.range) ++ u.members.map (·.range)

/-- A unit that is read has the directives and the members that are read one after the other. -/
theorem compilationUnit_parts {n : Nat} {u : CompilationUnit}
    (hok : ((compilationUnit n).run env s).1 = .ok u) :
    let t := (usingDirectives (rules n) env s).2
    u.usings = (usingDirectives (rules n) env s).1 ∧
      ((members n false).run env t).1 = .ok u.members ∧
      ((compilationUnit n).run env s).2 = ((members n false).run env t).2 := by
  intro t
  let rest (ms : List Member) : Cancellable CompilationUnit := do
    let last ← current
    return ⟨⟨0, last.stop⟩, (usingDirectives (rules n) env s).1, ms,
      ⟨.endOfFile, last.range, false⟩⟩
  have hrun : (compilationUnit n).run env s = (members n false >>= rest).run env t := rfl
  rw [hrun] at hok ⊢
  obtain ⟨ms, hms, hlast⟩ := run_bind_of_ok hok
  rw [hlast] at hok ⊢
  obtain ⟨rfl⟩ := hok
  exact ⟨rfl, hms, rfl⟩

/-- A unit that is read ends at the end of the file, and its directives and members are laid out
over all of its tokens unless the limit was hit. -/
theorem compilationUnit_of_ok {n : Nat} {u : CompilationUnit} (he : env.Raises tokens env)
    (hs : Ready tokens (n + 1) env s) (hkinds : ∀ t ∈ tokens, t.kind ≠ .endOfFile)
    (hok : ((compilationUnit (n + 1)).run env s).1 = .ok u) :
    ((compilationUnit (n + 1)).run env s).2.rest = [] ∧
      (((compilationUnit (n + 1)).run env s).2.tooDeep = false → Token.InOrder tokens →
        LaidOut (topLevelRanges u) s.rest) := by
  have hrules : (rules (n + 1)).AreOrderly tokens (n + 1) (rules (n + 1)) :=
    areOrderly_rules (Nat.le_refl _)
  have hmember (ts : List Token) : AdvancesAll tokens (n + 1) ts (fun _ => ts = [])
      (boundedMember n false) (boundedMember n false) :=
    advances_boundedMember (Nat.le_refl _) (orderly_members (Nat.le_refl _) true) false
  obtain ⟨husings, hmembers, hlast⟩ := compilationUnit_parts hok
  have hdirectives := orderly_usingDirectives hrules env env s he hs (Nat.zero_le _)
  have hready := hs.of_leads hdirectives.leads hdirectives.depth
  have hrest := orderly_members (Nat.le_refl (n + 1)) false env env _ he hready (Nat.zero_le _)
  rw [members_succ] at hmembers hlast hrest
  obtain ⟨hends, hlaid⟩ := membersUntil_of_ok he hready rfl hmember hmembers
  rw [hlast]
  have hdone : ((membersUntil (endsDeclarations false) (boundedMember n false)).run env
      (usingDirectives (rules (n + 1)) env s).2).2.rest = [] := by
    cases hleft : ((membersUntil (endsDeclarations false) (boundedMember n false)).run env
        (usingDirectives (rules (n + 1)) env s).2).2.rest with
    | nil => rfl
    | cons t ts =>
      rw [hleft] at hends
      have hkind : Lookahead.kind (t :: ts) = .endOfFile := by
        simpa [endsDeclarations] using hends
      have hsuffix := hrest.leads.rest_suffix.trans hready.rest
      rw [hleft] at hsuffix
      exact absurd hkind (hkinds t (hsuffix.subset List.mem_cons_self))
  refine ⟨hdone, fun hlimit ho => ?_⟩
  have hcalm : (usingDirectives (rules (n + 1)) env s).2.tooDeep = false :=
    Bool.eq_false_iff.mpr fun h => ne_true_of_eq_false hlimit (hrest.leads.tooDeep h)
  obtain ⟨taken, htaken, hfirst⟩ := laidOut_usingDirectives ho hrules he hs hcalm
  obtain ⟨taken', htaken', hsecond⟩ := hlaid hlimit ho fun s hs =>
    spansAllAt_boundedMember he.kind_endOfFile
      (fun t ht => ho.start_lt_stop t (hs.subset ht)) n
  rw [hdone, List.append_nil] at htaken'
  rw [htaken, htaken', topLevelRanges, husings]
  exact hfirst.append hsecond

/-! ### Places between tokens -/

/-- A moment between the tokens of a stream, past what was taken and before what is left. -/
structure Moment.StandsIn (stream : TokenStream) (m : Moment) : Prop where
  rest : m.rest <:+ stream.tokens
  prevStop_le : m.prevStop ≤ (m.rest.headD stream.endOfFile).start

/-- A step goes on from between tokens to between tokens. -/
theorem Moment.Step.standsIn {stream : TokenStream} (h : m.Step limit stream.endOfFile n)
    (ho : stream.InOrder) (hm : m.StandsIn stream) :
    n.StandsIn stream ∧ m.prevStop ≤ n.prevStop := by
  have hle := hm.prevStop_le
  cases h with
  | @take t rest h =>
    have hsuffix : t :: rest <:+ stream.tokens := h ▸ hm.rest
    obtain ⟨hlt, hstop⟩ := ho.of_suffix hsuffix
    rw [h, List.headD_cons] at hle
    refine ⟨⟨(List.suffix_cons t rest).trans hsuffix, hstop⟩, ?_⟩
    exact Nat.le_trans hle (Nat.le_of_lt hlt)
  | report | enter | leave => exact ⟨⟨hm.rest, hle⟩, Nat.le_refl _⟩
  | giveUp =>
    refine ⟨⟨List.nil_suffix, Nat.le_refl _⟩, ?_⟩
    cases hrest : m.rest with
    | nil =>
      rw [hrest] at hle
      exact hle
    | cons t ts =>
      have hmem : t ∈ stream.tokens := hm.rest.subset (hrest ▸ List.mem_cons_self)
      have hlt := ho.tokens.start_lt_stop t hmem
      have hstop := ho.stop_le t hmem
      rw [hrest, List.headD_cons] at hle
      exact Nat.le_trans hle (Nat.le_trans (Nat.le_of_lt hlt) hstop)

/-- A run through the tokens of a stream: it uses up no bound, and on its way to the end of the file
it never goes back. -/
structure RunsThrough (stream : TokenStream) (s : State) : Prop where
  ranOut : s.ranOut = false
  rest : s.rest = []
  inside : ∀ m ∈ s.toMoment :: s.trail, m.rest <:+ stream.tokens
  forward : (s.toMoment :: s.trail).Pairwise fun later earlier => later.rest <:+ earlier.rest

/-- A run along which the end of the last token taken never goes back, and comes before the first
token that is left. -/
structure KeepsPlace (stream : TokenStream) (s : State) : Prop where
  prevStop_le : ∀ m ∈ s.toMoment :: s.trail,
    m.prevStop ≤ (m.rest.headD stream.endOfFile).start
  forward : (s.toMoment :: s.trail).Pairwise fun later earlier =>
    earlier.prevStop ≤ later.prevStop

/-- A run from the start of a stream goes through it if it comes to its end. -/
theorem Leads.runsThrough {stream : TokenStream} {maxDepth : Nat} {before : Array Diagnostic}
    {polls : Polls} (h : Leads (.of stream maxDepth) (.start stream before polls) t)
    (hrest : t.rest = []) : RunsThrough stream t := by
  obtain ⟨⟨ms, htrail, hcourse⟩, hran⟩ := h
  have htrail : t.trail = ms := htrail.trans (List.append_nil ms)
  obtain ⟨hlast, hmoments, hpairs⟩ := hcourse.pairwise (fun m => List.suffix_refl m.rest)
    (fun h h' => h'.trans h) fun hstep => hstep.rest_suffix
  refine ⟨hran, hrest, ?_, ?_⟩
  · rw [htrail]
    exact List.forall_mem_cons.mpr ⟨hlast, fun m hm => (hmoments m hm).1⟩
  · rw [htrail]
    exact List.pairwise_cons.mpr ⟨fun m hm => (hmoments m hm).2, hpairs⟩

theorem Leads.keepsPlace {stream : TokenStream} {maxDepth : Nat} {before : Array Diagnostic}
    {polls : Polls} (h : Leads (.of stream maxDepth) (.start stream before polls) t)
    (ho : stream.InOrder) : KeepsPlace stream t := by
  obtain ⟨⟨ms, htrail, hcourse⟩, -⟩ := h
  have htrail : t.trail = ms := htrail.trans (List.append_nil ms)
  have hstart : (State.start stream before polls).toMoment.StandsIn stream :=
    ⟨List.suffix_rfl, Nat.zero_le _⟩
  obtain ⟨hlast, hmoments, hpairs⟩ := hcourse.pairwise
    (r := fun m n => m.StandsIn stream → n.StandsIn stream ∧ m.prevStop ≤ n.prevStop)
    (fun _ hm => ⟨hm, Nat.le_refl _⟩)
    (fun h h' hm => ⟨(h' (h hm).1).1, Nat.le_trans (h hm).2 (h' (h hm).1).2⟩)
    fun hstep hm => hstep.standsIn ho hm
  have hstands : ∀ m ∈ t.toMoment :: ms, m.StandsIn stream :=
    List.forall_mem_cons.mpr ⟨(hlast hstart).1, fun m hm => ((hmoments m hm).1 hstart).1⟩
  rw [← htrail] at hstands hmoments hpairs
  refine ⟨fun m hm => (hstands m hm).prevStop_le, List.pairwise_cons.mpr ⟨fun m hm => ?_, ?_⟩⟩
  · exact ((hmoments m hm).2 (hstands m (List.mem_cons_of_mem _ hm))).2
  · exact hpairs.imp_of_mem fun _ hearlier hle =>
      (hle (hstands _ (List.mem_cons_of_mem _ hearlier))).2

/-! ### Coverage -/

/-- A unit that is not cancelled is parsed to the end of its tokens, by steps that only go forward.
Where its tokens stand in order, each of them lies in exactly one directive or member that stands in
no other, unless the nesting limit was reported. -/
theorem parseUnit_covers {stream : TokenStream} (he : stream.endOfFile.kind = .endOfFile)
    (hkinds : ∀ t ∈ stream.tokens, t.kind ≠ .endOfFile) (maxDepth : Nat)
    (before : Array Diagnostic) :
    ∃ u s, parseUnit stream maxDepth before none = (.ok u, s) ∧ RunsThrough stream s ∧
      (stream.InOrder → KeepsPlace stream s ∧
        ((∃ ds span, s.diagnostics = (before ++ ds).push (.of .tooDeep span)) ∨
          ∀ t ∈ stream.tokens, (topLevelRanges u).countP (·.holds t) = 1)) := by
  obtain ⟨u, s, hrun⟩ := exists_parseUnit_eq stream maxDepth before
  let run := (compilationUnit (maxDepth + 1)).run (.of stream maxDepth) (.start stream before none)
  have hok : run.1 = .ok u := congrArg Prod.fst hrun
  have hlast : run.2 = s := congrArg Prod.snd hrun
  have hb : stream.tokens.length < (Env.of stream maxDepth).budget := Nat.lt_succ_self _
  have hraises : (Env.of stream maxDepth).Raises stream.tokens (.of stream maxDepth) := .refl he hb
  have hstart := ready_start stream maxDepth before none
  have hleads : Leads (.of stream maxDepth) (.start stream before none) s :=
    hlast ▸ (Call.unit.leads he hb hstart).1
  have hparts : run.2.rest = [] ∧ (run.2.tooDeep = false → Token.InOrder stream.tokens →
      LaidOut (topLevelRanges u) stream.tokens) :=
    compilationUnit_of_ok hraises hstart hkinds hok
  rw [hlast] at hparts
  obtain ⟨hrest, hlaid⟩ := hparts
  refine ⟨u, s, hrun, hleads.runsThrough hrest, fun ho => ⟨hleads.keepsPlace ho, ?_⟩⟩
  -- the limit was hit just if it was reported
  obtain ⟨ds, -, hreported⟩ := (hleads.life.1 s.toMoment List.mem_cons_self).2
  rcases hreported with ⟨hlimit, -⟩ | ⟨-, span, hd⟩
  · exact .inr fun t ht => (hlaid hlimit ho.tokens).countP_holds ho.tokens ht
  · exact .inl ⟨ds, span, hd⟩

/-- A directive, a member and a token that begins neither. -/
theorem parseUnit_covers_mixed :
    let stream := (scan "using A; x(); \x7d").1
    stream.endOfFile.kind = .endOfFile ∧ (∀ t ∈ stream.tokens, t.kind ≠ .endOfFile) ∧
      stream.InOrder ∧
      ∃ u s, parseUnit stream 9 #[] none = (.ok u, s) ∧ RunsThrough stream s ∧
        (stream.InOrder → KeepsPlace stream s ∧
          ((∃ ds span, s.diagnostics = (#[] ++ ds).push (.of .tooDeep span)) ∨
            ∀ t ∈ stream.tokens, (topLevelRanges u).countP (·.holds t) = 1)) := by
  intro stream
  obtain ⟨he, hkinds, ho⟩ := scan_inOrder "using A; x(); \x7d"
  exact ⟨he, hkinds, ho, parseUnit_covers he hkinds 9 #[]⟩

end Parser

end CSharpFront
