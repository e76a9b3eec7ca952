import CSharpFront.Parser.Declarations
import CSharpFront.Parser.Lookahead
import CSharpFront.Proofs.Syntax.Relaid
import Mathlib.Data.List.Forall2
/-!
Parsers side by side. Two runs start in states that correspond to each other, and whatever that
means, they come to such states again, and to results that stand in a relation. What is proved of
the steps of two parsers carries over to the whole by one rule for each way to put steps together.

The states of `Abreast` runs have tokens left that look alike, at the same level and as long before
a cancellation. Looking ahead finds the same in such tokens.
-/

/-! ## Looking ahead over tokens that look alike

Wherever such tokens stand and whatever gaps there are between them, the same is found ahead. Of
identifiers written with `@` it is hardly seen how they are spelled.
-/

namespace CSharpFront

/-- Tokens that cannot be told apart from a distance. How an identifier written with `@` is spelled
matters in one case. -/
structure Token.LooksLike (t u : Token) : Prop where
  kind : t.kind = u.kind
  contextual? : t.contextual? = u.contextual?
  await : t.kind = .identifier → (t.text = "await" ↔ u.text = "await")

namespace Token.LooksLike

variable {t u : Token}

theorem isContextual (h : t.LooksLike u) (word : String) :
    t.isContextual word = u.isContextual word := by
  rw [Token.isContextual, Token.isContextual, h.contextual?]

theorem verbatim_iff (h : t.LooksLike u) (hk : t.kind = .identifier) :
    t.flags.verbatim = false ↔ u.flags.verbatim = false := by
  have hc := h.contextual?
  have hu := h.kind.symm.trans hk
  simp only [Token.contextual?, hk, hu, true_and] at hc
  by_cases ht : t.flags.verbatim = false <;> by_cases hv : u.flags.verbatim = false <;>
    simp [ht, hv] at hc ⊢

theorem text (h : t.LooksLike u) (hk : t.kind = .identifier) (hv : t.flags.verbatim = false) :
    t.text = u.text := by
  have hc := h.contextual?
  have hu := h.kind.symm.trans hk
  have huv := (h.verbatim_iff hk).mp hv
  simp only [Token.contextual?, hk, hu, hv, huv, and_self, if_true] at hc
  exact Option.some.inj hc

end Token.LooksLike

namespace Lookahead

/-- Lists of tokens that look alike one by one. -/
abbrev Alike (ts us : List Token) : Prop := List.Forall₂ Token.LooksLike ts us

variable {ts us : List Token}

/-! ### First tokens -/

namespace Alike

theorem kind (h : Alike ts us) : kind ts = Lookahead.kind us := by
  cases h with
  | nil => rfl
  | cons htu _ => exact htu.kind

theorem tail (h : Alike ts us) : Alike ts.tail us.tail := by
  cases h with
  | nil => exact .nil
  | cons _ hrest => exact hrest

theorem drop (h : Alike ts us) (n : Nat) : Alike (ts.drop n) (us.drop n) :=
  List.forall₂_drop n h

theorem secondKind (h : Alike ts us) : secondKind ts = Lookahead.secondKind us := h.tail.kind

theorem dropWhile (h : Alike ts us) (p : TokenKind → Bool) :
    Alike (ts.dropWhile fun t => p t.kind) (us.dropWhile fun t => p t.kind) := by
  induction h with
  | nil => exact .nil
  | @cons t u ts us htu hrest ih =>
    simp only [List.dropWhile_cons, htu.kind]
    split
    · exact ih
    · exact .cons htu hrest

/-- How many tokens are passed over as long as their kinds allow. -/
theorem length_takeWhile (h : Alike ts us) (p : TokenKind → Bool) :
    (ts.takeWhile fun t => p t.kind).length = (us.takeWhile fun t => p t.kind).length := by
  induction h with
  | nil => rfl
  | @cons t u ts us htu hrest ih =>
    simp only [List.takeWhile_cons, htu.kind]
    split
    · simp [ih]
    · rfl

theorem run (h : Alike ts us) (k : TokenKind) : run k ts = Lookahead.run k us :=
  h.length_takeWhile (decide <| · = k)

/-! ### Modifiers and queries -/

theorem modifier? (h : Alike ts us) : modifier? ts = Lookahead.modifier? us := by
  cases h with
  | nil => rfl
  | @cons t u ts us htu hrest =>
    simp only [Lookahead.modifier?, ← htu.kind, ← Alike.kind hrest]
    split
    · rfl
    next hk =>
      have hiff := htu.verbatim_iff hk
      by_cases hv : t.flags.verbatim = false
      · simp only [hv, hiff.mp hv, htu.text hk hv]
      · have hv' : ¬ u.flags.verbatim = false := fun hu => hv (hiff.mpr hu)
        rw [if_neg fun hc => hv hc.1, if_neg fun hc => hv' hc.1]
    · rfl

theorem modifiers (h : Alike ts us) : modifiers ts = Lookahead.modifiers us := by
  induction h with
  | nil => rfl
  | cons htu hrest ih =>
    have hfirst := modifier? (.cons htu hrest)
    simp only [Lookahead.modifiers, hfirst, ih]

theorem startsTypeDeclaration (h : Alike ts us) :
    startsTypeDeclaration ts = Lookahead.startsTypeDeclaration us := by
  simp only [Lookahead.startsTypeDeclaration, h.modifiers, (h.drop _).kind]

theorem startsQuery (h : Alike ts us) : startsQuery ts = Lookahead.startsQuery us := by
  cases h with
  | nil => rfl
  | cons htu hrest =>
    simp only [Lookahead.startsQuery, htu.isContextual, kind hrest, secondKind hrest]

theorem head_await (h : Alike ts us) (hk : Lookahead.kind ts = .identifier) :
    (ts.head?.map (·.text) == some "await") = (us.head?.map (·.text) == some "await") := by
  cases h with
  | nil => rfl
  | cons htu _ =>
    have hawait := htu.await hk
    simp only [List.head?_cons, Option.map_some, Bool.beq_eq_decide_eq, Option.some.injEq,
      hawait]

end Alike

/-! ### Types -/

/-- Types that were found over tokens that look alike. -/
structure TypeScan.Alike (s s' : TypeScan) : Prop where
  rest : Lookahead.Alike s.rest s'.rest
  isPredefined : s.isPredefined = s'.isPredefined
  endsWithNullable : s.endsWithNullable = s'.endsWithNullable

theorem alike_ranks (n : Nat) (h : Alike ts us) :
    (ranks n ts).1 = (ranks n us).1 ∧ Alike (ranks n ts).2 (ranks n us).2 := by
  induction n generalizing ts us with
  | zero => exact ⟨rfl, h⟩
  | succ n ih =>
    have hinner := h.tail.dropWhile (decide <| · = .punct .comma)
    simp only [ranks, h.kind, hinner.kind]
    split
    · split
      · exact ⟨rfl, (ih hinner.tail).2⟩
      · exact ⟨rfl, h⟩
    · exact ⟨rfl, h⟩

theorem alike_typeEnding (isPredefined : Bool) (h : Alike ts us) :
    (typeEnding isPredefined ts).Alike (typeEnding isPredefined us) := by
  simp only [typeEnding, h.kind]
  have hranks {ts us : List Token} (h : Alike ts us) (isNullable : Bool) :
      TypeScan.Alike
        ⟨(ranks ts.length ts).2, isPredefined, isNullable && !(ranks ts.length ts).1⟩
        ⟨(ranks us.length us).2, isPredefined, isNullable && !(ranks us.length us).1⟩ := by
    obtain ⟨hhas, hrest⟩ := alike_ranks us.length h
    rw [h.length_eq, hhas]
    exact ⟨hrest, rfl, rfl⟩
  split
  · exact hranks h.tail _
  · exact hranks h _

/-- A scan that finds types alike over tokens that look alike. -/
def IsBlind (scan : List Token → Option TypeScan) : Prop :=
  ∀ ts us, Alike ts us → Option.Rel TypeScan.Alike (scan ts) (scan us)

namespace IsBlind

variable {scan : List Token → Option TypeScan}

theorem typeArguments (hs : IsBlind scan) (n : Nat) (h : Alike ts us) :
    Option.Rel Alike (typeArguments scan n ts) (typeArguments scan n us) := by
  induction n generalizing ts us with
  | zero => exact .none
  | succ n ih =>
    have hscan := hs ts us h
    simp only [Lookahead.typeArguments]
    generalize scan ts = found, scan us = found' at hscan
    cases hscan with
    | none => exact .none
    | some hfound =>
      simp only [hfound.rest.kind]
      split
      · exact ih hfound.rest.tail
      · exact .some hfound.rest.tail
      · exact .none

theorem afterName (hs : IsBlind scan) (h : Alike ts us) :
    Alike (afterName scan ts) (afterName scan us) := by
  have harguments := hs.typeArguments us.length h.tail
  simp only [Lookahead.afterName, h.kind, h.length_eq]
  split
  · generalize Lookahead.typeArguments scan us.length ts.tail = found,
      Lookahead.typeArguments scan us.length us.tail = found' at harguments
    cases harguments with
    | none => exact h
    | some hrest => exact hrest
  · exact h

theorem dottedRest (hs : IsBlind scan) (n : Nat) (h : Alike ts us) :
    Alike (dottedRest scan n ts) (dottedRest scan n us) := by
  induction n generalizing ts us with
  | zero => exact h
  | succ n ih =>
    simp only [Lookahead.dottedRest, h.kind, h.secondKind]
    split
    · exact ih (hs.afterName (h.drop 2))
    · exact h

end IsBlind

theorem isBlind_type? (n : Nat) : IsBlind (type? n) := by
  induction n with
  | zero => exact fun _ _ _ => .none
  | succ n ih =>
    intro ts us h
    simp only [type?, h.kind, h.length_eq]
    split
    · exact .some (alike_typeEnding true h.tail)
    · split
      · exact .some (alike_typeEnding false (ih.dottedRest _ (ih.afterName h.tail)))
      · exact .none

namespace Alike

theorem startsTypeArguments (maxDepth : Nat) (h : Alike ts us) :
    startsTypeArguments maxDepth ts = Lookahead.startsTypeArguments maxDepth us := by
  have harguments := (isBlind_type? (maxDepth + 1)).typeArguments us.length h.tail
  simp only [Lookahead.startsTypeArguments, h.kind, h.length_eq]
  generalize typeArguments _ us.length ts.tail = found,
    typeArguments _ us.length us.tail = found' at harguments
  cases harguments <;> rfl

theorem startsCast (maxDepth : Nat) (h : Alike ts us) :
    startsCast maxDepth ts = Lookahead.startsCast maxDepth us := by
  have htype := isBlind_type? (maxDepth + 1) ts us h
  simp only [Lookahead.startsCast]
  generalize type? (maxDepth + 1) ts = found, type? (maxDepth + 1) us = found' at htype
  cases htype with
  | none => rfl
  | some hfound => simp only [hfound.rest.kind, hfound.rest.secondKind, hfound.isPredefined]

theorem startsLocalDeclaration (maxDepth : Nat) (inAsync : Bool) (h : Alike ts us) :
    startsLocalDeclaration maxDepth inAsync ts =
      Lookahead.startsLocalDeclaration maxDepth inAsync us := by
  have htype := isBlind_type? (maxDepth + 1) ts us h
  have hword : (Lookahead.kind us == .identifier &&
        (Lookahead.startsQuery us || (inAsync && (ts.head?.map (·.text)) == some "await"))) =
      (Lookahead.kind us == .identifier &&
        (Lookahead.startsQuery us || (inAsync && (us.head?.map (·.text)) == some "await"))) := by
    by_cases hk : Lookahead.kind ts = .identifier
    · rw [h.head_await hk]
    · rw [h.kind] at hk
      simp only [beq_eq_false_iff_ne.mpr hk, Bool.false_and]
  simp only [Lookahead.startsLocalDeclaration, h.kind, h.startsQuery, hword]
  generalize type? (maxDepth + 1) ts = found, type? (maxDepth + 1) us = found' at htype
  cases htype with
  | none => rfl
  | some hfound => simp only [hfound.rest.kind, hfound.rest.secondKind, hfound.endsWithNullable]

end Alike

end Lookahead

end CSharpFront

/-! ## Two runs -/

namespace CSharpFront.Parser

def Parallel (E : Env → Env → Prop) (S : State → State → Prop) {α β : Type} (rel : α → β → Prop)
    (p : P α) (q : P β) : Prop :=
  ∀ env env' s s', E env env' → S s s' → rel (p env s).1 (q env' s').1 ∧ S (p env s).2 (q env' s').2

/-- The same of an outcome that may be missing because of a loop's end. -/
inductive ForInStep.Both {α β : Type} (rel : α → β → Prop) : ForInStep α → ForInStep β → Prop
  | done {a : α} {b : β} : rel a b → Both rel (.done a) (.done b)
  | yield {a : α} {b : β} : rel a b → Both rel (.yield a) (.yield b)

/-- Where only the states matter. -/
abbrev anyway {α β : Type} (_ : α) (_ : β) : Prop := True

variable {E : Env → Env → Prop} {S : State → State → Prop}

namespace Parallel

variable {α β γ δ : Type} {rel : α → β → Prop} {after : γ → δ → Prop} {p : P α} {q : P β}

theorem pure {a : α} {b : β} (h : rel a b) : Parallel E S rel (Pure.pure a) (Pure.pure b) :=
  fun _ _ _ _ _ hs => ⟨h, hs⟩

theorem bind {f : α → P γ} {g : β → P δ} (hp : Parallel E S rel p q)
    (hf : ∀ a b, rel a b → Parallel E S after (f a) (g b)) :
    Parallel E S after (p >>= f) (q >>= g) := by
  intro env env' s s' he hs
  obtain ⟨hab, hs⟩ := hp env env' s s' he hs
  exact hf _ _ hab env env' _ _ he hs

/-- A step whose result does not matter. -/
theorem next {f : α → P γ} {g : β → P δ} (hp : Parallel E S rel p q)
    (hf : ∀ a b, Parallel E S after (f a) (g b)) : Parallel E S after (p >>= f) (q >>= g) :=
  .bind hp fun a b _ => hf a b

/-- A step with one result. -/
theorem same {p q : P α} {f : α → P γ} {g : α → P δ} (hp : Parallel E S Eq p q)
    (hf : ∀ a, Parallel E S after (f a) (g a)) : Parallel E S after (p >>= f) (q >>= g) := by
  apply hp.bind
  rintro a _ rfl
  exact hf a

theorem map {f : α → γ} {g : β → δ} (hp : Parallel E S rel p q)
    (h : ∀ a b, rel a b → after (f a) (g b)) : Parallel E S after (f <$> p) (g <$> q) :=
  hp.bind fun a b hab => .pure (h a b hab)

theorem ite {c : Prop} [Decidable c] {p' : P α} {q' : P β} (hp : Parallel E S rel p q)
    (hq : Parallel E S rel p' q') :
    Parallel E S rel (if c then p else p') (if c then q else q') := by
  split
  · exact hp
  · exact hq

/-- Two ways to come to the same last step. -/
theorem iteBind {c : Prop} [Decidable c] {p' : P α} {q' : P β} {f : α → P γ} {g : β → P δ}
    (hp : Parallel E S rel p q) (hq : Parallel E S rel p' q')
    (hf : ∀ a b, rel a b → Parallel E S after (f a) (g b)) :
    Parallel E S after (if c then p >>= f else p' >>= f) (if c then q >>= g else q' >>= g) :=
  .ite (.bind hp hf) (.bind hq hf)

theorem present (hp : Parallel E S rel p q) :
    Parallel E S (Option.Rel rel) (some <$> p) (some <$> q) :=
  hp.map fun _ _ h => .some h

theorem absent : Parallel E S (Option.Rel rel) (Pure.pure none) (Pure.pure none) := .pure .none

theorem get : Parallel E S S MonadState.get MonadState.get := fun _ _ _ _ _ hs => ⟨hs, hs⟩

theorem read : Parallel E S E MonadReader.read MonadReader.read := fun _ _ _ _ he hs => ⟨he, hs⟩

theorem of_modify {f g : State → State} (h : ∀ s s', S s s' → S (f s) (g s')) :
    Parallel E S anyway (modify f) (modify g) :=
  fun _ _ _ _ _ hs => ⟨trivial, h _ _ hs⟩

/-- Steps that only look at the state may see different things. -/
theorem look (hp : ∀ env s, (p env s).2 = s) (hq : ∀ env s, (q env s).2 = s) :
    Parallel E S anyway p q := by
  intro env env' s s' _ hs
  rw [hp, hq]
  exact ⟨trivial, hs⟩

theorem withReader {f : Env → Env} (hf : ∀ env env', E env env' → E (f env) (f env'))
    (hp : Parallel E S rel p q) : Parallel E S rel (withReader f p) (withReader f q) :=
  fun env env' s s' he hs => hp _ _ s s' (hf env env' he) hs

end Parallel

/-! ### Runs abreast -/

/-- What corresponds has tokens left that look alike, at the same level and under the same bounds.
It does not matter through which moments the runs have come. -/
class Abreast (E : Env → Env → Prop) (S : State → State → Prop) : Prop where
  endOfFile {env env' : Env} : E env env' → env.endOfFile.LooksLike env'.endOfFile
  budget {env env' : Env} : E env env' → env.budget = env'.budget
  maxDepth {env env' : Env} : E env env' → env.maxDepth = env'.maxDepth
  inAsync {env env' : Env} : E env env' → env.inAsync = env'.inAsync
  withAsync {env env' : Env} (inAsync : Bool) :
    E env env' → E { env with inAsync } { env' with inAsync }
  rest {s s' : State} : S s s' → Lookahead.Alike s.rest s'.rest
  depth {s s' : State} : S s s' → s.depth = s'.depth
  tooDeep {s s' : State} : S s s' → s.tooDeep = s'.tooDeep
  polls {s s' : State} : S s s' → s.polls = s'.polls
  take {s s' : State} {t u : Token} {ts us : List Token} : S s s' → s.rest = t :: ts →
    s'.rest = u :: us → S (s.moveTo { s.toMoment with rest := ts, prevStop := t.stop })
      (s'.moveTo { s'.toMoment with rest := us, prevStop := u.stop })
  setDepth {s s' : State} (d : Nat) : S s s' →
    S (s.moveTo { s.toMoment with depth := d }) (s'.moveTo { s'.toMoment with depth := d })
  setRanOut {s s' : State} (b b' : Bool) :
    S s s' → S { s with ranOut := b } { s' with ranOut := b' }
  setPolls {s s' : State} (polls : Polls) : S s s' → S { s with polls } { s' with polls }
  setNames {s s' : State} (names names' : List String) :
    S s s' → S { s with names } { s' with names := names' }
  refuse : Parallel E S anyway refuse refuse

variable [Abreast E S]

/-! ### Loops -/

theorem parallel_runOut : Parallel E S anyway (runOut : P Unit) runOut :=
  .of_modify fun _ _ hs => Abreast.setRanOut E _ _ hs

namespace Parallel

variable {α β : Type} {rel : α → β → Prop}

theorem iterate {f : α → P (ForInStep α)} {g : β → P (ForInStep β)}
    (hf : ∀ a b, rel a b → Parallel E S (ForInStep.Both rel) (f a) (g b)) (n : Nat) {a : α} {b : β}
    (hab : rel a b) : Parallel E S rel (iterate f n a) (Parser.iterate g n b) := by
  induction n generalizing a b with
  | zero => exact .next parallel_runOut fun _ _ => .pure hab
  | succ n ih =>
    apply bind (hf a b hab)
    rintro _ _ (h | h)
    · exact .pure h
    · exact ih h

theorem loop {f : α → P (ForInStep α)} {g : β → P (ForInStep β)} {a : α} {b : β}
    (hab : rel a b) (hf : ∀ a b, rel a b → Parallel E S (ForInStep.Both rel) (f a) (g b)) :
    Parallel E S rel (loop a f) (Parser.loop b g) := by
  apply bind read
  intro env env' he
  rw [Abreast.budget S he]
  exact .iterate hf _ hab

theorem many {p : P (Option α)} {q : P (Option β)} (hp : Parallel E S (Option.Rel rel) p q) :
    Parallel E S (List.Forall₂ rel) (many p) (Parser.many q) := by
  refine .bind (.loop .nil fun as bs has => ?_) fun as bs has =>
    .pure (List.rel_reverse has)
  apply bind hp
  rintro _ _ (h | h)
  · exact .pure (.yield (.cons h has))
  · exact .pure (.done has)

end Parallel

/-! ### Steps that look at kinds only -/

theorem parallel_currentKind : Parallel E S Eq currentKind currentKind := by
  intro env env' s s' he hs
  refine ⟨?_, hs⟩
  show (s.rest.headD env.endOfFile).kind = (s'.rest.headD env'.endOfFile).kind
  have hrest := Abreast.rest E hs
  generalize s.rest = ts, s'.rest = us at hrest
  cases hrest with
  | nil => exact (Abreast.endOfFile S he).kind
  | cons htu _ => exact htu.kind

theorem parallel_advance : Parallel E S anyway advance advance := by
  refine .of_modify fun s s' hs => ?_
  have hrest := Abreast.rest E hs
  cases hr : s.rest with
  | nil =>
    obtain hr' : s'.rest = [] := List.forall₂_nil_left_iff.mp (hr ▸ hrest)
    rw [hr']
    exact hs
  | cons t ts =>
    obtain ⟨u, us, -, -, hr'⟩ := List.forall₂_cons_left_iff.mp (hr ▸ hrest)
    rw [hr']
    exact Abreast.take E hs hr hr'

theorem parallel_advanceBy (n : Nat) : Parallel E S anyway (advanceBy n) (advanceBy n) := by
  induction n with
  | zero => exact .pure trivial
  | succ n ih => exact .next parallel_advance fun _ _ => ih

theorem parallel_accept (kind : TokenKind) : Parallel E S Eq (accept kind) (accept kind) := by
  apply Parallel.bind parallel_currentKind
  rintro k _ rfl
  exact .ite (.next parallel_advance fun _ _ => .pure rfl) (.pure rfl)

theorem parallel_noteName {name name' : String} :
    Parallel E S anyway (noteName name) (noteName name') :=
  .of_modify fun _ _ hs => Abreast.setNames E _ _ hs

theorem parallel_modifiers : Parallel E S Eq modifiers modifiers := by
  apply Parallel.bind .get
  intro s s' hs
  rw [(Abreast.rest E hs).modifiers]
  exact .next (parallel_advanceBy _) fun _ _ => .pure rfl

theorem parallel_startsLocalDeclaration :
    Parallel E S Eq startsLocalDeclaration startsLocalDeclaration := by
  apply Parallel.bind .read
  intro env env' he
  apply Parallel.bind .get
  intro s s' hs
  rw [Abreast.maxDepth S he, Abreast.inAsync S he, (Abreast.rest E hs).startsLocalDeclaration]
  exact .pure rfl

theorem parallel_skipToStatement : Parallel E S anyway skipToStatement skipToStatement := by
  refine .next parallel_advance fun _ _ => .bind .get fun s s' hs => ?_
  have hskip := (Abreast.rest E hs).length_takeWhile fun k =>
    k ≠ .punct .closeBrace && !k.startsStatement
  simp only [hskip]
  exact parallel_advanceBy _

section

variable {α β : Type} {rel : α → β → Prop} {p : P α} {q : P β}

theorem parallel_afterCommas (hp : Parallel E S rel p q) :
    Parallel E S (List.Forall₂ rel) (afterCommas p) (afterCommas q) := by
  apply Parallel.many
  apply Parallel.bind (parallel_accept _)
  rintro b _ rfl
  exact .ite hp.present .absent

theorem parallel_separated (hp : Parallel E S rel p q) :
    Parallel E S (List.Forall₂ rel) (separated p) (separated q) :=
  .bind hp fun _ _ h => .bind (parallel_afterCommas hp) fun _ _ hs => .pure (.cons h hs)

/-! ### Levels -/

theorem parallel_enter : Parallel E S Eq enter enter := by
  apply Parallel.bind .get
  intro s s' hs
  rw [Abreast.tooDeep E hs]
  refine .ite (.pure rfl) (.bind .read fun env env' he => ?_)
  rw [Abreast.maxDepth S he, Abreast.depth E hs]
  refine .ite (.next Abreast.refuse fun _ _ => .pure rfl) ?_
  refine .next (.of_modify fun s s' hs => ?_) fun _ _ => .pure rfl
  rw [Abreast.depth E hs]
  exact Abreast.setDepth E _ hs

theorem parallel_leave (levels : Nat) : Parallel E S anyway (leave levels) (leave levels) := by
  refine .of_modify fun s s' hs => ?_
  rw [Abreast.depth E hs]
  exact Abreast.setRanOut E _ _ (Abreast.setDepth E _ hs)

/-- What comes of leaving levels and then giving back what there is. -/
theorem parallel_leaveWith (levels : Nat) {a : α} {b : β} (h : rel a b) :
    Parallel E S rel (do leave levels; return a) (do leave levels; return b) :=
  .next (parallel_leave levels) fun _ _ => .pure h

theorem parallel_nested {refused : P α} {refused' : P β}
    (hr : Parallel E S rel refused refused') (hp : Parallel E S rel p q) :
    Parallel E S rel (nested refused p) (nested refused' q) := by
  apply Parallel.bind parallel_enter
  rintro entered _ rfl
  exact .ite (.bind hp fun _ _ h => parallel_leaveWith 1 h) hr

end

/-! ### Parsers that can be cancelled -/

/-- Two parsers side by side that may find that they have been cancelled. -/
def ParallelAll (E : Env → Env → Prop) (S : State → State → Prop) {α β : Type} (rel : α → β → Prop)
    (p : Cancellable α) (q : Cancellable β) : Prop :=
  Parallel E S (Outcomes rel) p.run q.run

namespace ParallelAll

variable {α β γ δ : Type} {rel : α → β → Prop} {after : γ → δ → Prop} {p : Cancellable α}
  {q : Cancellable β}

omit [Abreast E S]

theorem pure {a : α} {b : β} (h : rel a b) : ParallelAll E S rel (Pure.pure a) (Pure.pure b) :=
  Parallel.pure (.ok h)

theorem bind {f : α → Cancellable γ} {g : β → Cancellable δ} (hp : ParallelAll E S rel p q)
    (hf : ∀ a b, rel a b → ParallelAll E S after (f a) (g b)) :
    ParallelAll E S after (p >>= f) (q >>= g) := by
  rw [ParallelAll, ExceptT.run_bind, ExceptT.run_bind]
  apply Parallel.bind hp
  rintro _ _ (h | e)
  · exact hf _ _ h
  · exact .pure (.error e)

theorem next {f : α → Cancellable γ} {g : β → Cancellable δ} (hp : ParallelAll E S rel p q)
    (hf : ∀ a b, ParallelAll E S after (f a) (g b)) :
    ParallelAll E S after (p >>= f) (q >>= g) :=
  .bind hp fun a b _ => hf a b

theorem same {p q : Cancellable α} {f : α → Cancellable γ} {g : α → Cancellable δ}
    (hp : ParallelAll E S Eq p q) (hf : ∀ a, ParallelAll E S after (f a) (g a)) :
    ParallelAll E S after (p >>= f) (q >>= g) := by
  apply hp.bind
  rintro a _ rfl
  exact hf a

theorem map {f : α → γ} {g : β → δ} (hp : ParallelAll E S rel p q)
    (h : ∀ a b, rel a b → after (f a) (g b)) : ParallelAll E S after (f <$> p) (g <$> q) := by
  rw [map_eq_pure_bind, map_eq_pure_bind]
  exact hp.bind fun a b hab => .pure (h a b hab)

theorem lift {p : P α} {q : P β} (h : Parallel E S rel p q) :
    ParallelAll E S rel (liftM p) (liftM q) :=
  h.map fun _ _ h => .ok h

theorem get : ParallelAll E S S MonadState.get MonadState.get := .lift .get

theorem read : ParallelAll E S E MonadReader.read MonadReader.read := .lift .read

theorem ite {c : Prop} [Decidable c] {p' : Cancellable α} {q' : Cancellable β}
    (hp : ParallelAll E S rel p q) (hq : ParallelAll E S rel p' q') :
    ParallelAll E S rel (if c then p else p') (if c then q else q') := by
  split
  · exact hp
  · exact hq

variable [Abreast E S]

theorem iterate {f : α → Cancellable (ForInStep α)} {g : β → Cancellable (ForInStep β)}
    (hf : ∀ a b, rel a b → ParallelAll E S (ForInStep.Both rel) (f a) (g b)) (n : Nat) {a : α}
    {b : β} (hab : rel a b) : ParallelAll E S rel (iterate f n a) (Parser.iterate g n b) := by
  induction n generalizing a b with
  | zero => exact .next (.lift parallel_runOut) fun _ _ => .pure hab
  | succ n ih =>
    apply bind (hf a b hab)
    rintro _ _ (h | h)
    · exact .pure h
    · exact ih h

theorem loop {f : α → Cancellable (ForInStep α)} {g : β → Cancellable (ForInStep β)} {a : α}
    {b : β} (hab : rel a b)
    (hf : ∀ a b, rel a b → ParallelAll E S (ForInStep.Both rel) (f a) (g b)) :
    ParallelAll E S rel (loop a f) (Parser.loop b g) := by
  apply bind read
  intro env env' he
  rw [Abreast.budget S he]
  exact .iterate hf _ hab

end ParallelAll

theorem parallelAll_poll : ParallelAll E S anyway poll poll := by
  apply ParallelAll.bind .get
  intro s s' hs
  rw [Abreast.polls E hs]
  split
  · exact .lift (.of_modify fun _ _ hs => Abreast.setPolls E _ hs)
  · exact Parallel.pure (.error _)

theorem parallelAll_membersUntil {α β : Type} {rel : α → β → Prop} (ends : TokenKind → Bool)
    {p : Cancellable α} {q : Cancellable β} (hp : ParallelAll E S rel p q) :
    ParallelAll E S (List.Forall₂ rel) (membersUntil ends p) (membersUntil ends q) := by
  refine .bind (.loop .nil fun ms ms' hms => ?_) fun _ _ hms => .pure (List.rel_reverse hms)
  apply ParallelAll.bind (.lift parallel_currentKind)
  rintro kind _ rfl
  refine .ite (.pure (.done hms)) (.next parallelAll_poll fun _ _ => .bind .get fun s s' hs => ?_)
  apply ParallelAll.bind hp
  intro m m' hm
  apply ParallelAll.bind .get
  intro t t' ht
  rw [(Abreast.rest E ht).length_eq, (Abreast.rest E hs).length_eq]
  exact .ite (.next (.lift parallel_advance) fun _ _ => .pure (.yield (.cons hm hms)))
    (.pure (.yield (.cons hm hms)))

theorem parallelAll_nestedDeclaration {α β : Type} {rel : α → β → Prop} {refused : P α}
    {refused' : P β} {p : Cancellable α} {q : Cancellable β}
    (hr : Parallel E S rel refused refused') (hp : ParallelAll E S rel p q) :
    ParallelAll E S rel (nestedDeclaration refused p) (nestedDeclaration refused' q) :=
  parallel_nested (hr.map fun _ _ h => .ok h) hp

end CSharpFront.Parser
