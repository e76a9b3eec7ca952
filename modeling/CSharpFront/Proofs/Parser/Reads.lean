import CSharpFront.Proofs.Parser.Adjacency
import CSharpFront.Proofs.Parser.Passes
/-!
Reading words. A parser reads some of the words that it stands before if from every such state it
comes to one before the rest of them, with a result of some property, and reports nothing. How many
levels it may still enter on the way is known, and how many it leaves.
-/

namespace CSharpFront

/-- The kind of the first word; that of its first token is another one if it is a right shift. -/
def headKind (ws : List Lexeme) : TokenKind := (ws.head?.map (·.kind)).getD .endOfFile

@[simp] theorem headKind_cons (w : Lexeme) (ws : List Lexeme) : headKind (w :: ws) = w.kind := rfl

/-- The kind of the first token of a word. -/
def TokenKind.first (k : TokenKind) : TokenKind := k.pieces.headD k

theorem Written.tail_of_single {t : Token} {ts : List Token} {w : Lexeme} {ws : List Lexeme}
    (h : Written (t :: ts) (w :: ws)) (hw : w.kind.pieces = [w.kind]) :
    t.Spells w ∧ Written ts ws := by
  cases h with
  | single ht _ _ hts => exact ⟨ht, hts⟩
  | joined hp hk _ =>
    rw [hk, (Operator.joined?_eq_some hp).2] at hw
    simp at hw

/-- The first token is the first word, or the first half of it. -/
theorem Written.kind {ts : List Token} {ws : List Lexeme} (h : Written ts ws) :
    Lookahead.kind ts = (headKind ws).first := by
  cases h with
  | nil => rfl
  | single ht hw _ _ =>
    rw [headKind_cons, TokenKind.first, hw]
    exact ht.kind
  | joined hp hw _ =>
    rw [headKind_cons, TokenKind.first, hw, (Operator.joined?_eq_some hp).2]
    rfl

/-- The operator that comes next is the first word. -/
theorem Written.next {ts : List Token} {w : Lexeme} {ws : List Lexeme}
    (h : Written ts (w :: ws)) (last : Token) :
    (Operator.next last ts).kind = w.kind ∧
      (Operator.next last ts).width = w.kind.pieces.length ∧
      Written (ts.drop w.kind.pieces.length) ws := by
  cases h with
  | @single t ts _ _ ht hw hgap hts =>
    rw [hw]
    cases ts with
    | nil => exact ⟨ht.kind, rfl, hts⟩
    | cons u ts =>
      have happart : Operator.joined? t u = none := by
        rw [Operator.joined?, if_neg fun hk => hgap u rfl hk.2]
      simp only [Operator.next, happart]
      exact ⟨ht.kind, rfl, hts⟩
  | joined hp hw hts =>
    simp only [Operator.next, hp]
    rw [hw, (Operator.joined?_eq_some hp).2]
    exact ⟨rfl, rfl, hts⟩

theorem Written.kind_next {ts : List Token} {ws : List Lexeme} (h : Written ts ws) {last : Token}
    (hlast : last.kind = .endOfFile) : (Operator.next last ts).kind = headKind ws := by
  cases ws with
  | nil =>
    cases h
    exact hlast
  | cons w ws => exact (h.next last).1

theorem Written.length_le {ts : List Token} {ws : List Lexeme} (h : Written ts ws) :
    ws.length ≤ ts.length := by
  induction h with
  | nil => exact Nat.le_refl _
  | single _ _ _ _ ih => exact Nat.succ_le_succ ih
  | joined _ _ _ ih => exact Nat.succ_le_succ (Nat.le_succ_of_le ih)

namespace Parser

/-- Before some words, where rules of a bound come to its end only when no level is left. -/
structure Before (reported : Array Diagnostic) (env : Env) (n : Nat) (ws : List Lexeme)
    (s : State) : Prop where
  written : Written s.rest ws
  spaced : Lookahead.Spaced s.rest
  calm : Calm reported s
  room : s.depth + n = env.maxDepth + 1
  budget : s.rest.length < env.budget

/-- What a run from before some words comes to. -/
def ComesTo {α : Type} (env : Env) (n : Nat) (ws : List Lexeme) (p : P α)
    (outcome : Array Diagnostic → α × State → Prop) : Prop :=
  ∀ reported s, Before reported env n ws s → outcome reported (p env s)

def Reads {α : Type} (env : Env) (n : Nat) (ws : List Lexeme) (p : P α) (n' : Nat)
    (ws' : List Lexeme) (post : α → Prop) : Prop :=
  ComesTo env n ws p fun reported r =>
    ∃ a s, r = (a, s) ∧ Before reported env n' ws' s ∧ post a

variable {α β : Type} {env : Env} {n n' k : Nat} {w : Lexeme} {ws ws' vs : List Lexeme}

namespace ComesTo

variable {p : P α} {outcome : Array Diagnostic → α × State → Prop}

/-- There are no more levels than the limit allows. -/
theorem of_room (h : n ≤ env.maxDepth + 1 → ComesTo env n ws p outcome) :
    ComesTo env n ws p outcome := by
  intro reported s hs
  have hroom := hs.room
  exact h (by omega) reported s hs

/-- There are fewer words than a loop may take rounds. -/
theorem of_budget (h : ws.length < env.budget → ComesTo env n ws p outcome) :
    ComesTo env n ws p outcome := by
  intro reported s hs
  exact h (Nat.lt_of_le_of_lt hs.written.length_le hs.budget) reported s hs

end ComesTo

namespace Reads

variable {p : P α} {f : α → P β} {post : α → Prop} {after : β → Prop}

theorem pure {a : α} (h : post a) : Reads env n ws (Pure.pure a) n ws post :=
  fun _ s hs => ⟨a, s, rfl, hs, h⟩

theorem andThen {outcome : Array Diagnostic → β × State → Prop} (hp : Reads env n ws p k vs post)
    (hf : ∀ a, post a → ComesTo env k vs (f a) outcome) : ComesTo env n ws (p >>= f) outcome := by
  intro reported s hs
  obtain ⟨a, t, hrun, ht, ha⟩ := hp reported s hs
  rw [bind_apply, hrun]
  exact hf a ha reported t ht

theorem bind (hp : Reads env n ws p k vs post)
    (hf : ∀ a, post a → Reads env k vs (f a) n' ws' after) :
    Reads env n ws (p >>= f) n' ws' after :=
  hp.andThen hf

theorem imp {after : α → Prop} (hp : Reads env n ws p n' ws' post)
    (h : ∀ a, post a → after a) : Reads env n ws p n' ws' after := by
  intro reported s hs
  obtain ⟨a, t, hrun, ht, ha⟩ := hp reported s hs
  exact ⟨a, t, hrun, ht, h a ha⟩

theorem get : Reads env n ws MonadState.get n ws fun s =>
    ∃ reported, Before reported env n ws s :=
  fun reported s hs => ⟨s, s, rfl, hs, reported, hs⟩

theorem read : Reads env n ws MonadReader.read n ws (· = env) :=
  fun _ s hs => ⟨env, s, rfl, hs, rfl⟩

/-! ### Levels -/

theorem enter : Reads env (n + 2) ws enter (n + 1) ws (· = true) := by
  intro reported s hs
  have hroom := hs.room
  refine ⟨_, _, enter_of_lt hs.calm.1 (by omega), ?_, rfl⟩
  refine ⟨hs.written, hs.spaced, hs.calm, ?_, hs.budget⟩
  show s.depth + 1 + (n + 1) = env.maxDepth + 1
  omega

theorem leave {levels : Nat} (h : n + levels ≤ env.maxDepth + 1) :
    Reads env n ws (leave levels) (n + levels) ws fun _ => True := by
  intro reported s hs
  have hroom := hs.room
  refine ⟨_, _, rfl, ?_, trivial⟩
  refine ⟨hs.written, hs.spaced, hs.calm, ?_, hs.budget⟩
  show s.depth - levels + (n + levels) = env.maxDepth + 1
  omega

theorem nested {refused : P α} (hp : Reads env (n + 1) ws p (n + 1) ws' post) :
    Reads env (n + 2) ws (nested refused p) (n + 2) ws' post := by
  refine ComesTo.of_room fun hroom => enter.bind ?_
  rintro _ rfl
  have hleave : Reads env (n + 1) ws' (Parser.leave 1) (n + 1 + 1) ws' fun _ => True := leave hroom
  exact hp.bind fun a ha => hleave.bind fun _ _ => .pure ha

end Reads

/-! ### Elementary steps -/

theorem Before.exists_cons {reported : Array Diagnostic} {s : State}
    (hs : Before reported env n (w :: ws) s) (hw : w.kind.pieces = [w.kind]) :
    ∃ t ts, s.rest = t :: ts ∧ t.Spells w ∧ Written ts ws := by
  have h := hs.written
  cases hrest : s.rest with
  | nil => rw [hrest] at h; cases h
  | cons t ts =>
    rw [hrest] at h
    exact ⟨t, ts, rfl, Written.tail_of_single h hw⟩

/-- A state that has taken some tokens of another one. -/
theorem Before.of_suffix {reported : Array Diagnostic} {s t : State}
    (hs : Before reported env n ws s) (ht : Written t.rest vs) (hsuffix : t.rest <:+ s.rest)
    (hcalm : Calm reported t) (hdepth : t.depth = s.depth) : Before reported env n vs t :=
  ⟨ht, hs.spaced.suffix hsuffix, hcalm, hdepth ▸ hs.room,
    Nat.lt_of_le_of_lt hsuffix.length_le hs.budget⟩

theorem reads_current (hw : w.kind.pieces = [w.kind]) :
    Reads env n (w :: ws) current n (w :: ws) (·.Spells w) := by
  intro reported s hs
  obtain ⟨t, ts, hrest, ht, -⟩ := hs.exists_cons hw
  refine ⟨t, s, ?_, hs, ht⟩
  show (s.rest.headD env.endOfFile, s) = (t, s)
  rw [hrest, List.headD_cons]

theorem reads_current_any : Reads env n ws current n ws fun _ => True :=
  fun _ s hs => ⟨_, s, rfl, hs, trivial⟩

theorem reads_advance (hw : w.kind.pieces = [w.kind]) :
    Reads env n (w :: ws) advance n ws fun _ => True := by
  intro reported s hs
  obtain ⟨t, ts, hrest, -, hts⟩ := hs.exists_cons hw
  refine ⟨(), _, advance_apply hrest, ?_, trivial⟩
  exact hs.of_suffix hts (by rw [hrest]; exact List.suffix_cons t ts) hs.calm rfl

theorem reads_rangeFrom (start : Nat) : Reads env n ws (rangeFrom start) n ws fun _ => True :=
  fun _ s hs => ⟨_, s, rfl, hs, trivial⟩

theorem reads_noteName (name : String) : Reads env n ws (noteName name) n ws fun _ => True :=
  fun _ _ hs => ⟨_, _, rfl, hs.of_suffix hs.written List.suffix_rfl hs.calm rfl, trivial⟩

theorem reads_currentKind (hw : w.kind.pieces = [w.kind]) :
    Reads env n (w :: ws) currentKind n (w :: ws) (· = w.kind) :=
  (reads_current hw).bind fun _ ht => .pure ht.kind

theorem reads_take (hw : w.kind.pieces = [w.kind]) :
    Reads env n (w :: ws) take n ws fun l => ∀ r, Leaf.Alike ⟨w.kind, r, false⟩ l := by
  refine (reads_current hw).bind fun t ht => ?_
  exact (reads_advance hw).bind fun _ _ => .pure fun r => ⟨ht.kind.symm, rfl⟩

theorem reads_eat (hw : w.kind.pieces = [w.kind]) :
    Reads env n (w :: ws) (eat w.kind) n ws fun _ => True := by
  refine (reads_current hw).bind fun t ht => ?_
  rw [if_pos ht.kind]
  exact (reads_advance hw).bind fun _ _ => .pure trivial

theorem reads_accept (hw : w.kind.pieces = [w.kind]) :
    Reads env n (w :: ws) (accept w.kind) n ws (· = true) := by
  refine (reads_currentKind hw).bind fun k hk => ?_
  rw [if_pos hk]
  exact (reads_advance hw).bind fun _ _ => .pure rfl

theorem reads_identifierOf {t : Token} {i : Identifier} (hi : i.isMissing = false)
    (ht : t.Spells i.word) : Reads env n ws (identifierOf t) n ws i.Alike := by
  have htext : i.text = t.text := by
    rw [ht.text, Scanner.tokenText]
    cases hv : i.isVerbatim <;> simp [Identifier.word, hv]
  have hverbatim : i.isVerbatim = t.flags.verbatim := by rw [ht.flags]; rfl
  exact (reads_noteName _).bind fun _ _ => .pure ⟨htext, hverbatim, hi⟩

theorem reads_identifier {i : Identifier} (hi : i.isMissing = false) :
    Reads env n (i.word :: ws) identifier n ws i.Alike := by
  refine (reads_current rfl).bind fun t ht => ?_
  have hk : t.kind = .identifier := ht.kind
  rw [if_pos hk]
  exact (reads_advance rfl).bind fun _ _ => reads_identifierOf hi ht

/-! ### What comes next -/

theorem reads_currentKind_any (he : env.endOfFile.kind = .endOfFile) :
    Reads env n ws currentKind n ws (· = (headKind ws).first) := by
  intro reported s hs
  refine ⟨_, s, rfl, hs, ?_⟩
  rw [← hs.written.kind, ← kind_headD he]

theorem reads_accept_of_ne (he : env.endOfFile.kind = .endOfFile) {l : TokenKind}
    (hl : (headKind ws).first ≠ l) : Reads env n ws (accept l) n ws (· = false) := by
  refine (reads_currentKind_any he).bind fun k hk => ?_
  rw [if_neg (hk ▸ hl)]
  exact .pure rfl

/-- The first tokens are taken, and nothing else changes. -/
theorem advanceBy_apply (env : Env) (k : Nat) (s : State) :
    ∃ t, advanceBy k env s = ((), t) ∧ t.rest = s.rest.drop k ∧ t.tooDeep = s.tooDeep ∧
      t.diagnostics = s.diagnostics ∧ t.depth = s.depth := by
  induction k generalizing s with
  | zero => exact ⟨s, rfl, rfl, rfl, rfl, rfl⟩
  | succ k ih =>
    cases hrest : s.rest with
    | nil =>
      have hstays : advance env s = ((), s) := by
        obtain ⟨⟨rest, prevStop, depth, tooDeep, diagnostics⟩, names, polls, trail, ranOut⟩ := s
        obtain rfl : rest = [] := hrest
        rfl
      obtain ⟨t, hrun, ht⟩ := ih s
      exact ⟨t, by rw [advanceBy, bind_apply, hstays]; exact hrun, by simpa [hrest] using ht⟩
    | cons u us =>
      obtain ⟨t, hrun, ht⟩ := ih (s.moveTo ⟨us, u.stop, s.depth, s.tooDeep, s.diagnostics⟩)
      exact ⟨t, by rw [advanceBy, bind_apply, advance_apply hrest]; exact hrun, ht⟩

theorem reads_advanceBy (w : Lexeme) :
    Reads env n (w :: ws) (advanceBy w.kind.pieces.length) n ws fun _ => True := by
  intro reported s hs
  obtain ⟨t, hrun, hrest, hdeep, hreported, hdepth⟩ :=
    advanceBy_apply env w.kind.pieces.length s
  have hts := (hs.written.next env.endOfFile).2.2
  rw [← hrest] at hts
  exact ⟨(), t, hrun, hs.of_suffix hts (hrest ▸ List.drop_suffix _ _)
    ⟨hdeep.trans hs.calm.1, hreported.trans hs.calm.2⟩ hdepth, trivial⟩

theorem nextOperator?_apply (least : Nat) (s : State) :
    nextOperator? least env s =
      (match Precedence.ofOperator? (Operator.next env.endOfFile s.rest).kind with
        | some p =>
          if least ≤ p.rank then some (Operator.next env.endOfFile s.rest, p) else none
        | none => none, s) := by
  show (match Precedence.ofOperator? (Operator.next env.endOfFile s.rest).kind with
    | some p =>
      if least ≤ p.rank then return some (Operator.next env.endOfFile s.rest, p) else return none
    | none => return none : P (Option (Operator × Precedence))) env s = _
  generalize Operator.next env.endOfFile s.rest = o
  cases Precedence.ofOperator? o.kind with
  | none => rfl
  | some p => by_cases hle : least ≤ p.rank <;> simp only [hle] <;> rfl

theorem reads_nextOperator? {p : Precedence} {least : Nat}
    (hp : Precedence.ofOperator? w.kind = some p) (hle : least ≤ p.rank) :
    Reads env n (w :: ws) (nextOperator? least) n (w :: ws) fun o? =>
      ∃ o, o? = some (o, p) ∧ o.kind = w.kind ∧ o.width = w.kind.pieces.length := by
  intro reported s hs
  obtain ⟨hkind, hwidth, -⟩ := hs.written.next env.endOfFile
  refine ⟨_, s, nextOperator?_apply least s, hs, Operator.next env.endOfFile s.rest, ?_, hkind,
    hwidth⟩
  simp only [hkind, hp, if_pos hle]

theorem reads_nextOperator?_of_none {least : Nat} (he : env.endOfFile.kind = .endOfFile)
    (hp : ∀ p, Precedence.ofOperator? (headKind ws) = some p → p.rank < least) :
    Reads env n ws (nextOperator? least) n ws (· = none) := by
  intro reported s hs
  refine ⟨_, s, nextOperator?_apply least s, hs, ?_⟩
  have hkind := hs.written.kind_next he
  simp only [hkind]
  split
  next p hk => rw [if_neg (Nat.not_le.mpr (hp p hk))]
  · rfl

end Parser

end CSharpFront
