import CSharpFront.Proofs.Binding.Means
import CSharpFront.Proofs.Parser.ReadsExpressions
import CSharpFront.Proofs.Parser.TypeWords
/-!
Consuming words that may touch each other. A parser consumes some of the words that it stands before
if from every such state it comes to one before the rest of them, with a result of some property,
and reports nothing. How many levels it may enter on the way is known. So are the words of a type
consumed that is built of predefined types, and what is made of them means the type.
-/

namespace CSharpFront

open Lexeme (mark)

namespace Parser

/-- Before some words, where so many levels at least can be entered. -/
structure Facing (reported : Array Diagnostic) (env : Env) (n : Nat) (ws : List Lexeme)
    (s : State) : Prop where
  spell : Spell s.rest ws
  calm : Calm reported s
  room : s.depth + n ≤ env.maxDepth
  budget : s.rest.length < env.budget

def Consumes {α : Type} (env : Env) (n : Nat) (ws : List Lexeme) (p : P α) (ws' : List Lexeme)
    (post : α → Prop) : Prop :=
  ∀ reported s, Facing reported env n ws s →
    ∃ a t, p env s = (a, t) ∧ Facing reported env n ws' t ∧ post a

variable {α β : Type} {env : Env} {n : Nat} {w : Lexeme} {ws ws' vs : List Lexeme}

namespace Consumes

variable {p : P α} {f : α → P β} {post : α → Prop} {after : β → Prop}

theorem pure {a : α} (h : post a) : Consumes env n ws (Pure.pure a) ws post :=
  fun _ s hs => ⟨a, s, rfl, hs, h⟩

theorem bind (hp : Consumes env n ws p vs post)
    (hf : ∀ a, post a → Consumes env n vs (f a) ws' after) :
    Consumes env n ws (p >>= f) ws' after := by
  intro reported s hs
  obtain ⟨a, t, hrun, ht, ha⟩ := hp reported s hs
  rw [bind_apply, hrun]
  exact hf a ha reported t ht

theorem imp {after : α → Prop} (hp : Consumes env n ws p ws' post) (h : ∀ a, post a → after a) :
    Consumes env n ws p ws' after := by
  intro reported s hs
  obtain ⟨a, t, hrun, ht, ha⟩ := hp reported s hs
  exact ⟨a, t, hrun, ht, h a ha⟩

theorem get : Consumes env n ws MonadState.get ws fun s => Spell s.rest ws :=
  fun _ s hs => ⟨s, s, rfl, hs, hs.spell⟩

theorem read : Consumes env n ws MonadReader.read ws (· = env) :=
  fun _ s hs => ⟨env, s, rfl, hs, rfl⟩

/-- No more levels can be entered than the limit allows. -/
theorem of_room (h : n ≤ env.maxDepth → Consumes env n ws p ws' post) :
    Consumes env n ws p ws' post := by
  intro reported s hs
  exact h (Nat.le_trans (Nat.le_add_left n s.depth) hs.room) reported s hs

theorem nested {refused : P α} (hp : Consumes env n ws p ws' post) :
    Consumes env (n + 1) ws (nested refused p) ws' post := by
  intro reported s hs
  have hroom := hs.room
  have hentered : Facing reported env n ws
      (s.moveTo { s.toMoment with depth := s.depth + 1 }) := by
    refine ⟨hs.spell, hs.calm, ?_, hs.budget⟩
    show s.depth + 1 + n ≤ env.maxDepth
    omega
  obtain ⟨a, t, hrun, ht, ha⟩ := hp reported _ hentered
  have hleft : Facing reported env (n + 1) ws' (Parser.leave 1 env t).2 := by
    have hinner := ht.room
    refine ⟨ht.spell, ht.calm, ?_, ht.budget⟩
    show t.depth - 1 + (n + 1) ≤ env.maxDepth
    omega
  refine ⟨a, (Parser.leave 1 env t).2, ?_, hleft, ha⟩
  rw [nested_of_lt hs.calm.1 (by omega), bind_apply, hrun]
  rfl

/-! ### Loops -/

variable {step : α → P (ForInStep α)} {a : α} {m : Nat}

theorem done (h : Consumes env n ws (step a) ws' fun r => ∃ b, r = .done b ∧ post b) :
    Consumes env n ws (iterate step (m + 1) a) ws' post := by
  refine h.bind ?_
  rintro _ ⟨b, rfl, hb⟩
  exact .pure hb

theorem yield {inv : α → Prop}
    (h : Consumes env n ws (step a) vs fun r => ∃ b, r = .yield b ∧ inv b)
    (hrest : ∀ b, inv b → Consumes env n vs (iterate step m b) ws' post) :
    Consumes env n ws (iterate step (m + 1) a) ws' post := by
  refine h.bind ?_
  rintro _ ⟨b, rfl, hb⟩
  exact hrest b hb

/-- There are fewer words than a loop may take rounds. -/
theorem loop (h : ∀ m, ws.length < m → Consumes env n ws (iterate step m a) ws' post) :
    Consumes env n ws (loop a step) ws' post := by
  intro reported s hs
  have hlength := hs.spell.length_eq
  have hbudget := hs.budget
  exact h env.budget (by omega) reported s hs

end Consumes

/-! ### Elementary steps -/

theorem consumes_current : Consumes env n (w :: ws) current (w :: ws) (·.Spells w) := by
  intro reported s hs
  obtain ⟨t, ts, hrest, ht, -⟩ := hs.spell.exists_cons
  refine ⟨t, s, ?_, hs, ht⟩
  show (s.rest.headD env.endOfFile, s) = (t, s)
  rw [hrest, List.headD_cons]

theorem consumes_advance : Consumes env n (w :: ws) advance ws fun _ => True := by
  intro reported s hs
  obtain ⟨t, ts, hrest, -, hts⟩ := hs.spell.exists_cons
  have hbudget := hs.budget
  rw [hrest, List.length_cons] at hbudget
  exact ⟨(), _, advance_apply hrest, ⟨hts, hs.calm, hs.room, Nat.lt_of_succ_lt hbudget⟩, trivial⟩

theorem consumes_advanceBy {us : List Lexeme} {k : Nat} (hk : us.length = k) :
    Consumes env n (us ++ ws) (advanceBy k) ws fun _ => True := by
  induction us generalizing k with
  | nil =>
    subst hk
    exact .pure trivial
  | cons u us ih =>
    subst hk
    exact consumes_advance.bind fun _ _ => ih rfl

theorem consumes_rangeFrom (start : Nat) : Consumes env n ws (rangeFrom start) ws fun _ => True :=
  fun _ s hs => ⟨_, s, rfl, hs, trivial⟩

theorem consumes_currentKind : Consumes env n (w :: ws) currentKind (w :: ws) (· = w.kind) :=
  consumes_current.bind fun _ ht => .pure ht.kind

theorem consumes_eat : Consumes env n (w :: ws) (eat w.kind) ws
    fun l => ∃ r, l = ⟨w.kind, r, false⟩ := by
  refine consumes_current.bind fun t ht => ?_
  rw [if_pos ht.kind]
  exact consumes_advance.bind fun _ _ => .pure ⟨_, rfl⟩

theorem consumes_accept : Consumes env n (w :: ws) (accept w.kind) ws (· = true) := by
  refine consumes_currentKind.bind fun k hk => ?_
  rw [if_pos hk]
  exact consumes_advance.bind fun _ _ => .pure rfl

theorem consumes_accept_of_ne {k : TokenKind} (hk : w.kind ≠ k) :
    Consumes env n (w :: ws) (accept k) (w :: ws) (· = false) := by
  refine consumes_currentKind.bind fun l hl => ?_
  rw [if_neg (hl ▸ hk)]
  exact .pure rfl

theorem consumes_identifier (name : String) : Consumes env n (nameWord name :: ws) identifier ws
    fun i => ∃ r, i = ⟨name, r, false, false⟩ := by
  refine consumes_current.bind fun t ht => ?_
  have hk : t.kind = .identifier := ht.kind
  have htext : t.text = name := by
    rw [ht.text, Scanner.tokenText]
    exact String.ofList_toList
  have hverbatim : t.flags.verbatim = false := by rw [ht.flags]; rfl
  rw [if_pos hk]
  refine consumes_advance.bind fun _ _ reported s hs => ?_
  refine ⟨_, _, rfl, ⟨hs.spell, hs.calm, hs.room, hs.budget⟩, t.range, ?_⟩
  rw [htext, hverbatim]

/-! ### Items with commas between -/

/-- An item, if a comma stands before it. -/
def itemAfterComma? (item : P α) : P (Option α) := do
  if ← accept (.punct .comma) then return some (← item) else return none

theorem afterCommas_eq (item : P α) : afterCommas item = (do
    let items ← loop [] (collect (itemAfterComma? item))
    return items.reverse) :=
  rfl

/-- Where no comma comes next there are no more items. -/
theorem consumes_collect_done {item : P α} (hw : w.kind ≠ .punct .comma) (acc : List α) :
    Consumes env n (w :: ws) (collect (itemAfterComma? item) acc) (w :: ws)
      fun r => ∃ items, r = .done items ∧ items = acc := by
  have hnone : Consumes env n (w :: ws) (itemAfterComma? item) (w :: ws) (· = none) := by
    refine (consumes_accept_of_ne hw).bind ?_
    rintro _ rfl
    exact .pure rfl
  refine hnone.bind ?_
  rintro _ rfl
  exact .pure ⟨acc, rfl, rfl⟩

theorem consumes_collect_yield {item : P α} {post : α → Prop}
    (hitem : Consumes env n ws item ws' post) (acc : List α) :
    Consumes env n (mark .comma :: ws) (collect (itemAfterComma? item) acc) ws'
      fun r => ∃ items, r = .yield items ∧ ∃ a, items = a :: acc ∧ post a := by
  have hsome : Consumes env n (mark .comma :: ws) (itemAfterComma? item) ws'
      fun a? => ∃ a, a? = some a ∧ post a := by
    refine (consumes_accept (w := mark .comma)).bind ?_
    rintro _ rfl
    exact hitem.bind fun a ha => .pure ⟨a, rfl, ha⟩
  refine hsome.bind ?_
  rintro _ ⟨a, rfl, ha⟩
  exact .pure ⟨_, rfl, a, rfl, ha⟩

theorem consumes_afterCommas_nil {item : P α} (hw : w.kind ≠ .punct .comma) :
    Consumes env n (w :: ws) (afterCommas item) (w :: ws) (· = []) := by
  rw [afterCommas_eq]
  refine (?_ : Consumes env n (w :: ws) _ (w :: ws) (· = [])).bind ?_
  · refine Consumes.loop fun m hm => ?_
    obtain ⟨m, rfl⟩ : ∃ k, m = k + 1 := ⟨m - 1, by omega⟩
    exact .done (consumes_collect_done hw [])
  · rintro _ rfl
    exact .pure rfl

section Items

variable {σ : Type} {words : σ → List Lexeme} {means : α → σ → Prop} {item : P α} {bs : List σ}

theorem consumes_collect (hw : w.kind ≠ .punct .comma)
    (hitem : ∀ b ∈ bs, ∀ v vs, v.kind = .punct .comma ∨ v = w →
      Consumes env n (words b ++ v :: vs) item (v :: vs) (means · b)) (acc : List α) {fuel : Nat}
    (hfuel : bs.length < fuel) :
    Consumes env n (bs.flatMap (fun b => mark .comma :: words b) ++ w :: ws)
      (iterate (collect (itemAfterComma? item)) fuel acc) (w :: ws)
      fun items => ∃ as, items = as.reverse ++ acc ∧ List.Forall₂ means as bs := by
  induction bs generalizing acc fuel with
  | nil =>
    obtain ⟨fuel, rfl⟩ : ∃ k, fuel = k + 1 := ⟨fuel - 1, by omega⟩
    refine .done ((consumes_collect_done hw acc).imp ?_)
    rintro _ ⟨items, rfl, rfl⟩
    exact ⟨items, rfl, [], rfl, .nil⟩
  | cons b bs ih =>
    rw [List.length_cons] at hfuel
    obtain ⟨fuel, rfl⟩ : ∃ k, fuel = k + 1 := ⟨fuel - 1, by omega⟩
    obtain ⟨hfirst, hothers⟩ := List.forall_mem_cons.mp hitem
    obtain ⟨v, vs, hrest, hv⟩ : ∃ v vs,
        bs.flatMap (fun b => mark .comma :: words b) ++ w :: ws = v :: vs ∧
          (v.kind = .punct .comma ∨ v = w) := by
      cases bs with
      | nil => exact ⟨w, ws, rfl, .inr rfl⟩
      | cons b bs => exact ⟨_, _, rfl, .inl rfl⟩
    rw [List.flatMap_cons, List.append_assoc, List.cons_append, hrest]
    refine .yield (consumes_collect_yield (hfirst v vs hv) acc) ?_
    rintro _ ⟨a, rfl, ha⟩
    rw [← hrest]
    refine (ih hothers (a :: acc) (by omega)).imp ?_
    rintro _ ⟨as, rfl, has⟩
    exact ⟨a :: as, by simp, .cons ha has⟩

/-- The items after the first one, each of which means something, before what is no comma. -/
theorem consumes_afterCommas (hw : w.kind ≠ .punct .comma)
    (hitem : ∀ b ∈ bs, ∀ v vs, v.kind = .punct .comma ∨ v = w →
      Consumes env n (words b ++ v :: vs) item (v :: vs) (means · b)) :
    Consumes env n (bs.flatMap (fun b => mark .comma :: words b) ++ w :: ws) (afterCommas item)
      (w :: ws) (List.Forall₂ means · bs) := by
  have hlength := length_le_flatMap_cons (mark .comma) words bs
  rw [afterCommas_eq]
  refine (Consumes.loop fun m hm => consumes_collect hw hitem [] ?_).bind ?_
  · rw [List.length_append] at hm
    omega
  · rintro _ ⟨as, rfl, has⟩
    rw [List.append_nil, List.reverse_reverse]
    exact .pure has

end Items

end Parser

/-! ## The words of a type -/

/-- Syntax of a type with pairs of brackets after it, each of which makes an array of all that stands
before it. -/
inductive TypeSyntax.Ranked : TypeSyntax → List Nat → TypeSyntax → Prop
  | nil (type : TypeSyntax) : Ranked type [] type
  | cons {type whole : TypeSyntax} {rank : Nat} {rs : List Nat} (range : Range) (hrank : 1 ≤ rank)
      (h : Ranked (.array range type rank) rs whole) : Ranked type (rank :: rs) whole

theorem TypeSyntax.Ranked.means {type whole : TypeSyntax} {rs : List Nat}
    (h : type.Ranked rs whole) {t : Ty} (htype : type.Means t) (ht : t.isError = false) :
    whole.Means (rs.foldl .array t) := by
  induction h generalizing t with
  | nil => exact htype
  | cons range hrank _ ih => exact ih (means_array htype ht hrank range) rfl

namespace Parser

variable {env : Env} {n : Nat} {ws : List Lexeme} {type : TypeSyntax} {t : Ty} {r : Rules}

/-! ### Brackets -/

theorem consumes_rankStep {rank : Nat} (hrank : 1 ≤ rank) (start : Nat) :
    Consumes env n (Ty.rankWords rank ++ ws) (rankStep start type) ws
      fun r => ∃ type', r = .yield type' ∧ ∃ range, type' = .array range type rank := by
  rw [Ty.rankWords_append]
  refine Consumes.get.bind fun s hs => ?_
  obtain ⟨u, us, hu, hkind, hus⟩ := hs.exists_cons
  have hsecond : Lookahead.secondKind s.rest = .punct .closeBracket ∨
      Lookahead.secondKind s.rest = .punct .comma := by
    rw [hu, Lookahead.secondKind, List.tail_cons, Spell.kind hus]
    cases rank - 1 with
    | zero => exact .inl rfl
    | succ k => exact .inr rfl
  rw [if_pos ⟨hs.kind, hsecond⟩]
  refine consumes_advance.bind fun _ _ => Consumes.get.bind fun s' hs' => ?_
  rw [(Lookahead.spell_commas hs').1]
  refine (consumes_advanceBy (List.length_replicate ..)).bind fun _ _ => ?_
  refine (consumes_eat (w := mark .closeBracket)).bind fun _ _ => ?_
  refine (consumes_rangeFrom start).bind fun range _ => .pure ⟨_, rfl, range, ?_⟩
  rw [Nat.sub_add_cancel hrank]

theorem consumes_rankStep_done (hws : headKind ws ≠ .punct .openBracket) (start : Nat) :
    Consumes env n ws (rankStep start type) ws
      fun r => ∃ type', r = .done type' ∧ type' = type := by
  refine Consumes.get.bind fun s hs => ?_
  rw [if_neg fun hopen => hws (hs.kind ▸ hopen.1)]
  exact .pure ⟨type, rfl, rfl⟩

/-- Each pair of brackets makes an array of what came before it. -/
theorem consumes_ranks {rs : List Nat} (hrs : ∀ rank ∈ rs, 1 ≤ rank)
    (hws : headKind ws ≠ .punct .openBracket) (start : Nat) :
    Consumes env n (rs.flatMap Ty.rankWords ++ ws) (rankSpecifiers start type) ws
      (type.Ranked rs) := by
  have hrounds (fuel : Nat) (hfuel : rs.length < fuel) :
      Consumes env n (rs.flatMap Ty.rankWords ++ ws) (iterate (rankStep start) fuel type) ws
        (type.Ranked rs) := by
    induction rs generalizing type fuel with
    | nil =>
      obtain ⟨fuel, rfl⟩ : ∃ k, fuel = k + 1 := ⟨fuel - 1, by omega⟩
      refine .done ((consumes_rankStep_done hws start).imp ?_)
      rintro _ ⟨_, rfl, rfl⟩
      exact ⟨_, rfl, .nil _⟩
    | cons rank rs ih =>
      rw [List.length_cons] at hfuel
      obtain ⟨fuel, rfl⟩ : ∃ k, fuel = k + 1 := ⟨fuel - 1, by omega⟩
      obtain ⟨hrank, hrs⟩ := List.forall_mem_cons.mp hrs
      rw [List.flatMap_cons, List.append_assoc]
      refine .yield (consumes_rankStep hrank start) ?_
      rintro _ ⟨range, rfl⟩
      exact (ih hrs fuel (by omega)).imp fun _ h => .cons range hrank h
  refine Consumes.loop fun fuel hfuel => hrounds fuel ?_
  have hlength : rs.length ≤ (rs.flatMap Ty.rankWords).length :=
    length_le_flatMap_cons (mark .openBracket) _ rs
  rw [List.length_append] at hfuel
  omega

theorem consumes_rankSpecifiers {rs : List Nat} (hrs : ∀ rank ∈ rs, 1 ≤ rank) (h : type.Means t)
    (ht : t.isError = false) (hws : headKind ws ≠ .punct .openBracket) (start : Nat) :
    Consumes env n (rs.flatMap Ty.rankWords ++ ws) (rankSpecifiers start type) ws
      (·.Means (rs.foldl .array t)) :=
  (consumes_ranks hrs hws start).imp fun _ hranked => hranked.means h ht

/-! ### Names -/

/-- A name without type arguments. -/
theorem consumes_simpleName {w : Lexeme} (hw : w.kind ≠ .punct .lessThan) (name : String) :
    Consumes env n (nameWord name :: w :: ws) (simpleName r) (w :: ws) fun _ => True := by
  refine consumes_current.bind fun _ _ => (consumes_identifier name).bind fun _ _ => ?_
  refine Consumes.read.bind fun _ henv => Consumes.get.bind fun s hs => ?_
  rw [henv]
  have hplain : Lookahead.startsTypeArguments env.maxDepth s.rest = false := by
    simp [Lookahead.startsTypeArguments, hs.kind, hw]
  rw [hplain, if_neg Bool.false_ne_true]
  exact .pure trivial

/-- A parser that consumes a type before what may come after it. -/
def ConsumesType (env : Env) (n : Nat) (p : P TypeSyntax) (t : Ty) : Prop :=
  ∀ ws, (headKind ws).followsType = true → Consumes env n (t.words ++ ws) p ws (·.Means t)

variable {g : Generic} {e : Ty} {es : List Ty}

theorem consumes_typeArguments (h : ∀ s ∈ e :: es, ConsumesType env n (r.type true) s) :
    Consumes env n (e.words ++ (Ty.moreWords es ++ mark .greaterThan :: ws))
      (separated (r.type true)) (mark .greaterThan :: ws)
      (List.Forall₂ TypeSyntax.Means · (e :: es)) := by
  obtain ⟨hfirst, hothers⟩ := List.forall_mem_cons.mp h
  have hends : (headKind (Ty.moreWords es ++ mark .greaterThan :: ws)).followsType = true := by
    cases es <;> rfl
  refine (hfirst _ hends).bind fun type htype => ?_
  have hitem : ∀ s ∈ es, ∀ v vs, v.kind = .punct .comma ∨ v = mark .greaterThan →
      Consumes env n (s.words ++ v :: vs) (r.type true) (v :: vs) (·.Means s) := by
    intro s hs v vs hv
    refine hothers s hs (v :: vs) ?_
    rcases hv with hv | rfl
    · rw [headKind_cons, hv]
      rfl
    · rfl
  exact (consumes_afterCommas (by decide) hitem).bind fun types htypes => .pure (.cons htype htypes)

/-- The name of a generic type with its type arguments. -/
theorem consumes_simpleName_generic (hg : Ty.ofGeneric? g (e :: es) = some t)
    (ht : Ty.IsGeneric g e es t) (hes : ∀ s ∈ e :: es, s.isError = false)
    (hscan : ∀ s ∈ e :: es, Lookahead.Finds (Lookahead.type? (env.maxDepth + 1)) s)
    (h : ∀ s ∈ e :: es, ConsumesType env n (r.type true) s) :
    Consumes env n (nameWord g.simpleName :: mark .lessThan ::
        (e.words ++ (Ty.moreWords es ++ mark .greaterThan :: ws))) (simpleName r) ws
      fun type => ∃ range i types, type = .generic range i types ∧ type.Means t := by
  refine consumes_current.bind fun _ _ => (consumes_identifier g.simpleName).bind ?_
  rintro _ ⟨range, rfl⟩
  refine Consumes.read.bind fun _ henv => Consumes.get.bind fun s hs => ?_
  rw [henv]
  obtain ⟨hkind, rest, hrest, -⟩ := Lookahead.exists_typeArguments hscan hs
  have hstarts : Lookahead.startsTypeArguments env.maxDepth s.rest = true := by
    rw [Lookahead.startsTypeArguments, hkind, hrest]
    rfl
  rw [hstarts, if_pos rfl]
  refine consumes_advance.bind fun _ _ => (consumes_typeArguments h).bind fun types htypes => ?_
  refine (consumes_eat (w := mark .greaterThan)).bind fun _ _ => ?_
  refine (consumes_rangeFrom _).bind fun range' _ => .pure ⟨range', _, types, rfl, ?_⟩
  exact TypeSyntax.means_generic hg ht.arity hes htypes rfl range'

/-- A dot and a name after it, whatever is known of the name. -/
theorem consumes_nameStep {name : String} {vs : List Lexeme} {post : TypeSyntax → Prop}
    (h : Consumes env n (nameWord name :: vs) (simpleName r) ws post) (start : Nat)
    (left : TypeSyntax) :
    Consumes env n (mark .dot :: nameWord name :: vs) (nameStep r start left) ws
      fun res => ∃ type, res = .yield type ∧
        ∃ range right, type = .qualified range left right ∧ post right := by
  refine Consumes.get.bind fun s hs => ?_
  obtain ⟨u, us, hu, -, hus⟩ := hs.exists_cons
  have hsecond : Lookahead.secondKind s.rest = .identifier := by
    rw [hu, Lookahead.secondKind, List.tail_cons, Spell.kind hus]
    rfl
  rw [if_pos ⟨.inl hs.kind, hsecond⟩]
  refine consumes_advance.bind fun _ _ => h.bind fun right hright => ?_
  exact (consumes_rangeFrom start).bind fun range _ => .pure ⟨_, rfl, range, right, rfl, hright⟩

theorem consumes_nameStep_done
    (hws : headKind ws ≠ .punct .dot ∧ headKind ws ≠ .punct .colonColon) (start : Nat)
    (left : TypeSyntax) :
    Consumes env n ws (nameStep r start left) ws
      fun res => ∃ type, res = .done type ∧ type = left := by
  refine Consumes.get.bind fun s hs => ?_
  have hno : ¬ ((Lookahead.kind s.rest = .punct .dot ∨ Lookahead.kind s.rest = .punct .colonColon) ∧
      Lookahead.secondKind s.rest = .identifier) := by
    rw [hs.kind]
    rintro ⟨hdot | hcolon, -⟩
    · exact hws.1 hdot
    · exact hws.2 hcolon
  rw [if_neg hno]
  exact .pure ⟨left, rfl, rfl⟩

/-- A dotted name that ends in type arguments means what its last part means. -/
theorem consumes_nameSteps {name : String} {vs : List Lexeme} {t : Ty}
    (hlast : Consumes env n (nameWord name :: vs) (simpleName r) ws
      fun type => ∃ range i types, type = .generic range i types ∧ type.Means t)
    (hws : headKind ws ≠ .punct .dot ∧ headKind ws ≠ .punct .colonColon) (start : Nat)
    {names : List String} {fuel : Nat} (hfuel : names.length + 1 < fuel) (left : TypeSyntax) :
    Consumes env n (Generic.dotted names ++ mark .dot :: nameWord name :: vs)
      (iterate (nameStep r start) fuel left) ws (·.Means t) := by
  induction names generalizing fuel left with
  | nil =>
    obtain ⟨fuel, rfl⟩ : ∃ k, fuel = k + 2 := ⟨fuel - 2, by omega⟩
    refine .yield (consumes_nameStep hlast start left) ?_
    rintro _ ⟨range, _, rfl, range', i, types, rfl, htypes⟩
    refine .done ((consumes_nameStep_done hws start _).imp ?_)
    rintro _ ⟨_, rfl, rfl⟩
    exact ⟨_, rfl, TypeSyntax.means_qualified htypes range left⟩
  | cons name' names ih =>
    rw [List.length_cons] at hfuel
    obtain ⟨fuel, rfl⟩ : ∃ k, fuel = k + 1 := ⟨fuel - 1, by omega⟩
    obtain ⟨v, more, hmore, hv⟩ : ∃ v more,
        Generic.dotted names ++ mark .dot :: nameWord name :: vs = v :: more ∧
          v = mark .dot := by
      cases names <;> exact ⟨_, _, rfl, rfl⟩
    have hword : Generic.dotted (name' :: names) ++ mark .dot :: nameWord name :: vs =
        mark .dot :: nameWord name' :: v :: more := by
      rw [← hmore]
      simp [Generic.dotted]
    rw [hword]
    refine .yield (consumes_nameStep (consumes_simpleName (by rw [hv]; decide) name') start left) ?_
    rintro type -
    rw [← hmore]
    exact ih (by omega) type

/-- The whole name of a generic type. -/
theorem consumes_name (hg : Ty.ofGeneric? g (e :: es) = some t) (ht : Ty.IsGeneric g e es t)
    (hes : ∀ s ∈ e :: es, s.isError = false)
    (hscan : ∀ s ∈ e :: es, Lookahead.Finds (Lookahead.type? (env.maxDepth + 1)) s)
    (h : ∀ s ∈ e :: es, ConsumesType env n (r.type true) s)
    (hws : headKind ws ≠ .punct .dot ∧ headKind ws ≠ .punct .colonColon) :
    Consumes env n (t.words ++ ws) (name r) ws (·.Means t) := by
  have hwords : t.words ++ ws = nameWord "System" :: (Generic.dotted g.path ++ mark .dot ::
      nameWord g.simpleName :: mark .lessThan ::
        (e.words ++ (Ty.moreWords es ++ mark .greaterThan :: ws))) := by
    simp [ht.words, Generic.words]
  obtain ⟨v, more, hmore, hv⟩ : ∃ v more, Generic.dotted g.path ++ mark .dot ::
      nameWord g.simpleName :: mark .lessThan ::
        (e.words ++ (Ty.moreWords es ++ mark .greaterThan :: ws)) = v :: more ∧ v = mark .dot := by
    cases g <;> exact ⟨_, _, rfl, rfl⟩
  rw [hwords, name_eq]
  refine consumes_current.bind fun u _ => ?_
  rw [hmore]
  refine (consumes_simpleName (by rw [hv]; decide) "System").bind fun left _ => ?_
  rw [← hmore]
  refine Consumes.loop fun fuel hfuel => ?_
  refine consumes_nameSteps (consumes_simpleName_generic hg ht hes hscan h) hws _ ?_ left
  have hlength : g.path.length ≤ (Generic.dotted g.path).length :=
    length_le_flatMap_cons _ (fun name => [nameWord name]) g.path
  simp only [List.length_append, List.length_cons] at hfuel
  omega

/-! ### Types -/

/-- What stands before the `?` and the brackets of a type. -/
theorem consumes_typeCore?_special (s : SpecialType) :
    Consumes env n (Lexeme.spelling (.keyword s.keyword) :: ws) (typeCore? r) ws
      fun core? => ∃ core, core? = some core ∧ core.Means (.special s) := by
  refine consumes_current.bind fun u hu => ?_
  have hspecial : u.kind.special? = some s := by
    rw [hu.kind]
    cases s <;> rfl
  rw [hspecial]
  exact consumes_advance.bind fun _ _ => .pure ⟨_, rfl, TypeSyntax.means_predefined u.range s⟩

theorem consumes_typeCore?_name {v : Lexeme} {vs : List Lexeme} (hv : v.kind = .identifier)
    (h : Consumes env n (v :: vs) (name r) ws (·.Means t)) :
    Consumes env n (v :: vs) (typeCore? r) ws
      fun core? => ∃ core, core? = some core ∧ core.Means t := by
  refine consumes_current.bind fun u hu => ?_
  have hkind : u.kind = .identifier := hu.kind.trans hv
  have hspecial : u.kind.special? = none := by
    rw [hkind]
    rfl
  rw [hspecial]
  dsimp only
  rw [if_pos hkind]
  exact h.bind fun core hcore => .pure ⟨core, rfl, hcore⟩

theorem consumes_typeRest {rs : List Nat} (hrs : ∀ rank ∈ rs, 1 ≤ rank) (h : type.Means t)
    (ht : t.isError = false) (hws : (headKind ws).followsType = true) (start : Nat) :
    Consumes env n (rs.flatMap Ty.rankWords ++ ws) (typeRest true start (some type)) ws
      (·.Means (rs.foldl .array t)) := by
  have hquestion : headKind (rs.flatMap Ty.rankWords ++ ws) ≠ .punct .question :=
    Ty.headKind_ranks_ne hws rfl (by decide)
  have hopen : headKind ws ≠ .punct .openBracket := TokenKind.ne_of_followsType hws rfl
  have hranks : Consumes env n (rs.flatMap Ty.rankWords ++ ws) (rankSpecifiers start type) ws
      (·.Means (rs.foldl .array t)) := consumes_rankSpecifiers hrs h ht hopen start
  cases hwords : rs.flatMap Ty.rankWords ++ ws with
  | nil =>
    rw [(List.append_eq_nil_iff.mp hwords).2] at hws
    cases hws
  | cons w more =>
    rw [hwords] at hquestion hranks
    refine (consumes_accept_of_ne hquestion).bind ?_
    rintro _ rfl
    exact hranks

theorem consumes_typeRest_question {rs : List Nat} (hrs : ∀ rank ∈ rs, 1 ≤ rank) {s : SpecialType}
    (hs : s.isValueType = true) (h : type.Means (.special s))
    (hws : headKind ws ≠ .punct .openBracket) (start : Nat) :
    Consumes env n (mark .question :: (rs.flatMap Ty.rankWords ++ ws))
      (typeRest true start (some type)) ws
      (·.Means (rs.foldl .array (.nullable (.special s)))) := by
  refine (consumes_accept (w := mark .question)).bind ?_
  rintro _ rfl
  refine (consumes_rangeFrom start).bind fun range _ => ?_
  exact consumes_rankSpecifiers hrs (TypeSyntax.means_nullable h hs range) rfl hws start

/-- A parser that consumes a type before what may come after it, with any brackets that come
between: those make an array of the type. -/
def ConsumesRanks (env : Env) (n : Nat) (p : P TypeSyntax) (t : Ty) : Prop :=
  ∀ (rs : List Nat) ws, (∀ rank ∈ rs, 1 ≤ rank) → (headKind ws).followsType = true →
    Consumes env n (t.words ++ (rs.flatMap Ty.rankWords ++ ws)) p ws (·.Means (rs.foldl .array t))

theorem consumes_typeBody_generic (hg : Ty.ofGeneric? g (e :: es) = some t)
    (ht : Ty.IsGeneric g e es t) (herror : t.isError = false)
    (hes : ∀ s ∈ e :: es, s.isError = false)
    (hscan : ∀ s ∈ e :: es, Lookahead.Finds (Lookahead.type? (env.maxDepth + 1)) s)
    (h : ∀ s ∈ e :: es, ConsumesType env n (r.type true) s) :
    ConsumesRanks env n (typeBody true r) t := by
  intro rs ws hrs hws
  have hname : Consumes env n (t.words ++ (rs.flatMap Ty.rankWords ++ ws)) (name r)
      (rs.flatMap Ty.rankWords ++ ws) (·.Means t) := by
    refine consumes_name hg ht hes hscan h ⟨?_, ?_⟩
    · exact Ty.headKind_ranks_ne hws rfl (by decide)
    · exact Ty.headKind_ranks_ne hws rfl (by decide)
  rw [ht.words, Generic.words, List.cons_append, List.cons_append] at hname ⊢
  refine consumes_current.bind fun u _ => (consumes_typeCore?_name rfl hname).bind ?_
  rintro _ ⟨core, rfl, hcore⟩
  exact consumes_typeRest hrs hcore herror hws u.start

/-- The rule for a type enters the level in which the type is consumed. -/
theorem consumesType_of_body {k : Nat} (hn : t.levels ≤ n) (hk : t.levels ≤ k)
    (h : ∀ {n k : Nat}, t.levels ≤ n + 1 → t.levels ≤ k + 1 →
      ConsumesRanks env n (typeBody true (rules k)) t) :
    ConsumesType env n ((rules k).type true) t := by
  intro ws hws
  have hpos := t.levels_pos
  obtain ⟨n, rfl⟩ : ∃ m, n = m + 1 := ⟨n - 1, by omega⟩
  obtain ⟨k, rfl⟩ : ∃ m, k = m + 1 := ⟨k - 1, by omega⟩
  exact Consumes.nested (h hn hk [] ws (List.forall_mem_nil _) hws)

/-- A type is consumed where as many levels can be entered as nest in it. -/
theorem consumes_typeBody {t : Ty} (ht : t.Spelled) {k : Nat} (hn : t.levels ≤ n + 1)
    (hk : t.levels ≤ k + 1) : ConsumesRanks env n (typeBody true (rules k)) t := by
  induction ht generalizing n k with
  | special s =>
    intro rs ws hrs hws
    refine consumes_current.bind fun u _ => (consumes_typeCore?_special s).bind ?_
    rintro _ ⟨core, rfl, hcore⟩
    exact consumes_typeRest hrs hcore rfl hws u.start
  | @nullable s hs =>
    intro rs ws hrs hws
    refine consumes_current.bind fun u _ => (consumes_typeCore?_special s).bind ?_
    rintro _ ⟨core, rfl, hcore⟩
    have hopen : headKind ws ≠ .punct .openBracket := TokenKind.ne_of_followsType hws rfl
    exact consumes_typeRest_question hrs hs hcore hopen u.start
  | @array t rank hrank _ ih =>
    intro rs ws hrs hws
    have hall := ih hn hk (rank :: rs) ws (List.forall_mem_cons.mpr ⟨hrank, hrs⟩) hws
    rw [List.flatMap_cons, List.append_assoc] at hall
    rw [Ty.words, List.append_assoc]
    exact hall
  | @generic g ts t hg hts ih =>
    obtain ⟨e, es, rfl, hgeneric⟩ := Ty.exists_isGeneric hg
    have herror := (Ty.Spelled.generic hg hts).isError_eq
    have hes : ∀ s ∈ e :: es, s.isError = false := fun s hs => (hts s hs).isError_eq
    have hlevels : ∀ s ∈ e :: es, s.levels ≤ n ∧ s.levels ≤ k := by
      intro s hs
      have hlt := hgeneric.levels s hs
      exact ⟨by omega, by omega⟩
    intro rs ws hrs hws
    refine Consumes.of_room fun hroom => ?_
    have hscan : ∀ s ∈ e :: es, Lookahead.Finds (Lookahead.type? (env.maxDepth + 1)) s := by
      intro s hs
      have hlevel := (hlevels s hs).1
      exact Lookahead.finds_type (hts s hs) (by omega)
    refine consumes_typeBody_generic hg hgeneric herror hes hscan (fun s hs => ?_) rs ws hrs hws
    exact consumesType_of_body (hlevels s hs).1 (hlevels s hs).2 (ih s hs)

theorem consumes_type {t : Ty} (ht : t.Spelled) {k : Nat} (hn : t.levels ≤ n) (hk : t.levels ≤ k) :
    ConsumesType env n ((rules k).type true) t :=
  consumesType_of_body hn hk (consumes_typeBody ht)

/-! ### Declarations -/

/-- One variable of a type, without a value, wherever its parts stand. -/
inductive IsVariable (type : TypeSyntax) (name : String) : VariableDeclaration → Prop
  | mk (r₀ r₁ r₂ : Range) :
    IsVariable type name ⟨r₀, type, [⟨r₁, ⟨name, r₂, false, false⟩, none⟩]⟩

/-- The declaration of such a variable as a statement. -/
inductive IsDeclaration (type : TypeSyntax) (name : String) : Stmt → Prop
  | mk (r s : Range) {d : VariableDeclaration} (hd : IsVariable type name d) :
    IsDeclaration type name (.localDeclaration r [] d ⟨.punct .semicolon, s, false⟩)

theorem consumes_declarator {w : Lexeme} (hw : w.kind ≠ .punct .equals) (i : Identifier) :
    Consumes env n (w :: ws) (declarator r i) (w :: ws) fun d => ∃ range, d = ⟨range, i, none⟩ := by
  refine (consumes_accept_of_ne hw).bind ?_
  rintro _ rfl
  have hnone : Consumes env n (w :: ws) (pure none : P (Option Expr)) (w :: ws) (· = none) :=
    .pure rfl
  rw [if_neg Bool.false_ne_true]
  refine hnone.bind ?_
  rintro _ rfl
  exact (consumes_rangeFrom _).bind fun range _ => .pure ⟨range, rfl⟩

/-- A type with a variable after it, before the semicolon. -/
theorem consumes_variableDeclaration (name : String) (ht : t.Spelled)
    (h : ConsumesType env n (r.type true) t) :
    Consumes env n (t.words ++ [nameWord name, mark .semicolon]) (variableDeclaration r)
      [mark .semicolon] fun d => ∃ type, IsVariable type name d ∧ type.Means t := by
  obtain ⟨w, ws, hwords⟩ : ∃ w ws, t.words ++ [nameWord name, mark .semicolon] = w :: ws := by
    rcases ht.begins with ⟨s, ws, hwords⟩ | ⟨ws, hwords⟩ <;> exact ⟨_, _, by rw [hwords]; rfl⟩
  have htype := h [nameWord name, mark .semicolon] rfl
  rw [hwords] at htype ⊢
  refine consumes_current.bind fun u _ => htype.bind fun type hmeans => ?_
  refine (consumes_identifier name).bind ?_
  rintro _ ⟨range, rfl⟩
  refine (consumes_declarator (w := mark .semicolon) (by decide) _).bind ?_
  rintro _ ⟨range', rfl⟩
  have hothers : Consumes env n [mark .semicolon] (afterCommas do declarator r (← identifier))
      [mark .semicolon] (· = []) := by
    exact consumes_afterCommas_nil (by decide)
  refine hothers.bind ?_
  rintro _ rfl
  exact (consumes_rangeFrom _).bind fun range'' _ => .pure ⟨type, .mk range'' range' range, hmeans⟩

/-- The same as a statement of its own. -/
theorem consumes_localDeclaration (name : String) (ht : t.Spelled)
    (h : ConsumesType env n (r.type true) t) :
    Consumes env n (t.words ++ [nameWord name, mark .semicolon]) (localDeclaration r) []
      fun s => ∃ type, IsDeclaration type name s ∧ type.Means t := by
  obtain ⟨w, ws, hwords, hconst⟩ : ∃ w ws, t.words ++ [nameWord name, mark .semicolon] = w :: ws ∧
      w.kind ≠ .keyword .kwConst := by
    rcases ht.begins with ⟨s, ws, hwords⟩ | ⟨ws, hwords⟩
    · exact ⟨_, _, by rw [hwords]; rfl, by cases s <;> decide⟩
    · exact ⟨_, _, by rw [hwords]; rfl, by decide⟩
  have hdeclaration := consumes_variableDeclaration name ht h
  rw [hwords] at hdeclaration ⊢
  refine consumes_current.bind fun u _ => Consumes.get.bind fun s hs => ?_
  obtain ⟨v, vs, hv, hvkind, -⟩ := hs.exists_cons
  have hrun : Lookahead.run (.keyword .kwConst) s.rest = 0 := by
    simp [hv, Lookahead.run, hvkind.kind, hconst]
  rw [hrun]
  refine (consumes_advanceBy rfl : Consumes env n ([] ++ w :: ws) (advanceBy 0) (w :: ws) _).bind ?_
  refine fun _ _ => hdeclaration.bind ?_
  rintro d ⟨type, hd, hmeans⟩
  refine (consumes_eat (w := mark .semicolon)).bind ?_
  rintro _ ⟨range, rfl⟩
  exact (consumes_rangeFrom _).bind fun range' _ => .pure ⟨type, .mk range' range hd, hmeans⟩

/-- Where no more levels nest in a type than can be entered, its words and a variable are a
statement. -/
theorem consumes_statementBody (name : String) (ht : t.Spelled) {k : Nat} (hn : t.levels ≤ n)
    (hk : t.levels ≤ k) :
    Consumes env n (t.words ++ [nameWord name, mark .semicolon]) (statementBody (rules k)) []
      fun s => ∃ type, IsDeclaration type name s ∧ type.Means t := by
  refine Consumes.of_room fun hroom => ?_
  have hwordless : Consumes env n (t.words ++ [nameWord name, mark .semicolon])
      (wordlessStatement (rules k)) []
      fun s => ∃ type, IsDeclaration type name s ∧ type.Means t := by
    refine Consumes.get.bind fun s hs => ?_
    have hlabel : ¬ (Lookahead.kind s.rest = .identifier ∧
        Lookahead.secondKind s.rest = .punct .colon) := by
      rintro ⟨hfirst, hsecond⟩
      rcases ht.begins with ⟨s', ws, hwords⟩ | ⟨ws, hwords⟩
      · rw [hs.kind, hwords] at hfirst
        cases hfirst
      · rw [hwords] at hs
        obtain ⟨u, us, hu, -, hus⟩ := hs.exists_cons
        rw [hu, Lookahead.secondKind, List.tail_cons, Spell.kind hus] at hsecond
        cases hsecond
    rw [if_neg hlabel]
    have hstarts : Consumes env n (t.words ++ [nameWord name, mark .semicolon])
        startsLocalDeclaration (t.words ++ [nameWord name, mark .semicolon]) (· = true) := by
      refine Consumes.read.bind fun _ henv => Consumes.get.bind fun s hs => .pure ?_
      rw [henv]
      exact Lookahead.startsLocalDeclaration_spell ht (by omega) env.inAsync hs
    refine hstarts.bind ?_
    rintro _ rfl
    exact consumes_localDeclaration name ht (consumes_type ht hn hk)
  rcases ht.begins with ⟨s, ws, hwords⟩ | ⟨ws, hwords⟩
  · rw [hwords] at hwordless ⊢
    refine consumes_current.bind fun u hu => ?_
    rw [hu.kind]
    cases s <;> exact hwordless
  · rw [hwords] at hwordless ⊢
    refine consumes_current.bind fun u hu => ?_
    rw [hu.kind]
    exact hwordless

end Parser

end CSharpFront
