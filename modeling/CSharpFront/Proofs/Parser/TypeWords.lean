import CSharpFront.Proofs.Parser.Reads
import CSharpFront.Proofs.Parser.TypeLookahead
import CSharpFront.Proofs.Types.Spelled
/-!
Looking ahead over the words of a type that is built of predefined types. Wherever the words stand,
the type is found, and it ends where its last word does.
-/

namespace CSharpFront

open Lexeme (mark spelling)

/-- Tokens that spell some words one by one. Unlike in a text, what touches is not one word. -/
abbrev Spell (ts : List Token) (ws : List Lexeme) : Prop := List.Forall₂ Token.Spells ts ws

theorem Spell.exists_cons {ts : List Token} {w : Lexeme} {ws : List Lexeme}
    (h : Spell ts (w :: ws)) : ∃ t us, ts = t :: us ∧ t.Spells w ∧ Spell us ws := by
  obtain ⟨t, us, ht, hus, hts⟩ := List.forall₂_cons_right_iff.mp h
  exact ⟨t, us, hts, ht, hus⟩

theorem Spell.kind {ts : List Token} {ws : List Lexeme} (h : Spell ts ws) :
    Lookahead.kind ts = headKind ws := by
  cases h with
  | nil => rfl
  | cons ht _ => exact ht.kind

namespace TokenKind

/-- Whether a kind of token may come after a type, be it an argument or that of a variable. -/
def followsType : TokenKind → Bool
  | .identifier | .punct .comma | .punct .greaterThan => true
  | _ => false

/-- Nothing that may come after a type goes on with it. -/
theorem ne_of_followsType {k l : TokenKind} (hk : k.followsType = true)
    (hl : l.followsType = false) : k ≠ l := by
  rintro rfl
  rw [hk] at hl
  cases hl

end TokenKind

/-- Each item has a word before it. -/
theorem length_le_flatMap_cons {α : Type} (w : Lexeme) (words : α → List Lexeme) (as : List α) :
    as.length ≤ (as.flatMap fun a => w :: words a).length := by
  induction as with
  | nil => exact Nat.le_refl _
  | cons a as ih =>
    simp only [List.flatMap_cons, List.length_append, List.length_cons]
    omega

namespace Ty

theorem rankWords_append (rank : Nat) (ws : List Lexeme) : rankWords rank ++ ws =
    mark .openBracket :: (List.replicate (rank - 1) (mark .comma) ++ mark .closeBracket :: ws) := by
  simp [rankWords]

/-- After a type come brackets, or what may come after the whole type. -/
theorem headKind_ranks_ne {rs : List Nat} {ws : List Lexeme}
    (hws : (headKind ws).followsType = true) {k : TokenKind} (hk : k.followsType = false)
    (hopen : .punct .openBracket ≠ k) : headKind (rs.flatMap rankWords ++ ws) ≠ k := by
  cases rs with
  | nil => exact TokenKind.ne_of_followsType hws hk
  | cons r rs => exact hopen

/-- The words of a type begin with a reserved word or with a dotted name. -/
theorem Spelled.begins {t : Ty} (h : t.Spelled) :
    (∃ (s : SpecialType) (ws : List Lexeme), t.words = spelling (.keyword s.keyword) :: ws) ∨
      ∃ ws, t.words = nameWord "System" :: mark .dot :: ws := by
  induction h with
  | special s => exact .inl ⟨s, [], rfl⟩
  | @nullable s => exact .inl ⟨s, [mark .question], rfl⟩
  | @array t rank _ _ ih =>
    rcases ih with ⟨s, ws, hwords⟩ | ⟨ws, hwords⟩
    · exact .inl ⟨s, ws ++ rankWords rank, by rw [words, hwords, List.cons_append]⟩
    · exact .inr ⟨ws ++ rankWords rank, by rw [words, hwords]; rfl⟩
  | @generic g _ _ hg =>
    obtain ⟨e, es, rfl, ht⟩ := exists_isGeneric hg
    have hwords := ht.words
    cases g <;> exact .inr ⟨_, hwords⟩

end Ty

namespace Lookahead

variable {scan : List Token → Option TypeScan} {ts : List Token} {vs ws : List Lexeme}

/-! ### Brackets -/

/-- The commas in a pair of brackets are passed at once. -/
theorem spell_commas {n : Nat}
    (h : Spell ts (List.replicate n (mark .comma) ++ mark .closeBracket :: ws)) :
    run (.punct .comma) ts = n ∧ ∃ t us, ts.dropWhile (·.kind = .punct .comma) = t :: us ∧
      t.kind = .punct .closeBracket ∧ Spell us ws := by
  induction n generalizing ts with
  | zero =>
    obtain ⟨t, us, rfl, ht, hus⟩ := h.exists_cons
    have hk : t.kind = .punct .closeBracket := ht.kind
    exact ⟨by simp [run, hk], t, us, by simp [hk], hk, hus⟩
  | succ n ih =>
    obtain ⟨t, us, rfl, ht, hus⟩ := h.exists_cons
    have hk : t.kind = .punct .comma := ht.kind
    obtain ⟨hrun, v, vs, hdrop, hv⟩ := ih hus
    rw [run] at hrun
    exact ⟨by simp [run, hk, hrun], v, vs, by simp [hk, hdrop], hv⟩

theorem spell_ranks {n : Nat} {rs : List Nat} (h : Spell ts (rs.flatMap Ty.rankWords ++ ws))
    (hws : headKind ws ≠ .punct .openBracket) (hn : ts.length ≤ n) : Spell (ranks n ts).2 ws := by
  induction rs generalizing ts n with
  | nil =>
    have hkind : kind ts ≠ .punct .openBracket := by
      rw [h.kind]
      exact hws
    rw [Parser.ranks_of_ne hkind]
    exact h
  | cons r rs ih =>
    rw [List.flatMap_cons, List.append_assoc, Ty.rankWords_append] at h
    obtain ⟨t, us, rfl, ht, hus⟩ := h.exists_cons
    obtain ⟨-, v, vs, hdrop, hv, hvs⟩ := spell_commas hus
    have hlength := (List.dropWhile_suffix (l := us) (·.kind = .punct .comma)).length_le
    rw [hdrop, List.length_cons] at hlength
    rw [List.length_cons] at hn
    obtain ⟨m, rfl⟩ : ∃ m, n = m + 1 := ⟨n - 1, by omega⟩
    have hm : vs.length ≤ m := by omega
    rw [Parser.ranks_cons ht.kind, hdrop, if_pos (show kind (v :: vs) = _ from hv)]
    exact ih hvs hm

/-- The brackets after a type, with what may come after them. -/
theorem spell_typeEnding {isPredefined : Bool} {rs : List Nat}
    (h : Spell ts (rs.flatMap Ty.rankWords ++ ws)) (hws : (headKind ws).followsType = true) :
    Spell (typeEnding isPredefined ts).rest ws := by
  have hquestion : kind ts ≠ .punct .question := by
    rw [h.kind]
    exact Ty.headKind_ranks_ne hws rfl (by decide)
  rw [typeEnding_of_ne hquestion]
  exact spell_ranks h (TokenKind.ne_of_followsType hws rfl) (Nat.le_refl _)

/-- The same where null is added to the type before the brackets. -/
theorem spell_typeEnding_question {isPredefined : Bool} {rs : List Nat}
    (h : Spell ts (mark .question :: (rs.flatMap Ty.rankWords ++ ws)))
    (hws : (headKind ws).followsType = true) : Spell (typeEnding isPredefined ts).rest ws := by
  obtain ⟨t, us, rfl, ht, hus⟩ := h.exists_cons
  rw [typeEnding_cons ht.kind]
  exact spell_ranks hus (TokenKind.ne_of_followsType hws rfl) (Nat.le_refl _)

/-! ### Names -/

/-- A scan finds a type before what may come after it, with any brackets that come between: those
make an array of the type, which ends after them. -/
def Finds (scan : List Token → Option TypeScan) (t : Ty) : Prop :=
  ∀ (rs : List Nat) ts ws, (headKind ws).followsType = true →
    Spell ts (t.words ++ (rs.flatMap Ty.rankWords ++ ws)) →
    ∃ found, scan ts = some found ∧ Spell found.rest ws

theorem spell_typeArguments {e : Ty} {es : List Ty} (hscan : ∀ t ∈ e :: es, Finds scan t) {n : Nat}
    (hn : es.length < n) (h : Spell ts (e.words ++ (Ty.moreWords es ++ mark .greaterThan :: ws))) :
    ∃ rest, typeArguments scan n ts = some rest ∧ Spell rest ws := by
  induction es generalizing e n ts with
  | nil =>
    obtain ⟨m, rfl⟩ : ∃ m, n = m + 1 := ⟨n - 1, by omega⟩
    obtain ⟨found, hfound, hrest⟩ := hscan e List.mem_cons_self [] ts _ rfl h
    obtain ⟨t, us, hts, ht, hus⟩ := hrest.exists_cons
    have hk : t.kind = .punct .greaterThan := ht.kind
    exact ⟨us, by simp [typeArguments, hfound, hts, kind, hk], hus⟩
  | cons e' es ih =>
    rw [List.length_cons] at hn
    obtain ⟨m, rfl⟩ : ∃ m, n = m + 1 := ⟨n - 1, by omega⟩
    obtain ⟨hfirst, hothers⟩ := List.forall_mem_cons.mp hscan
    have hwords : Ty.moreWords (e' :: es) ++ mark .greaterThan :: ws =
        mark .comma :: (e'.words ++ (Ty.moreWords es ++ mark .greaterThan :: ws)) := by
      simp [Ty.moreWords]
    rw [hwords] at h
    obtain ⟨found, hfound, hrest⟩ := hfirst [] ts _ rfl h
    obtain ⟨t, us, hts, ht, hus⟩ := hrest.exists_cons
    have hk : t.kind = .punct .comma := ht.kind
    have hm : es.length < m := by omega
    obtain ⟨rest, harguments, hrest⟩ := ih hothers hm hus
    exact ⟨rest, by simp [typeArguments, hfound, hts, kind, hk, harguments], hrest⟩

/-- The type arguments of a name, from their `<` on. -/
theorem exists_typeArguments {e : Ty} {es : List Ty} (hscan : ∀ t ∈ e :: es, Finds scan t)
    (h : Spell ts (mark .lessThan :: (e.words ++ (Ty.moreWords es ++ mark .greaterThan :: ws)))) :
    kind ts = .punct .lessThan ∧
      ∃ rest, typeArguments scan ts.length ts.tail = some rest ∧ Spell rest ws := by
  have hmore : es.length ≤ (Ty.moreWords es).length := length_le_flatMap_cons _ _ es
  have hlength := h.length_eq
  simp only [List.length_cons, List.length_append] at hlength
  refine ⟨h.kind, ?_⟩
  obtain ⟨t, us, rfl, -, hus⟩ := h.exists_cons
  exact spell_typeArguments hscan (by omega) hus

theorem spell_afterName {e : Ty} {es : List Ty} (hscan : ∀ t ∈ e :: es, Finds scan t)
    (h : Spell ts (mark .lessThan :: (e.words ++ (Ty.moreWords es ++ mark .greaterThan :: ws)))) :
    Spell (afterName scan ts) ws := by
  obtain ⟨hkind, rest, hrest, hws⟩ := exists_typeArguments hscan h
  rw [afterName, if_pos hkind, hrest, Option.getD_some]
  exact hws

/-- The names after the first one of a dotted name, the last of them with what comes after it. -/
theorem spell_dottedRest {name : String}
    (hlast : ∀ us, Spell us vs → Spell (afterName scan us) ws)
    (hws : headKind ws ≠ .punct .dot ∧ headKind ws ≠ .punct .colonColon) {names : List String}
    {n : Nat} (hn : names.length < n)
    (h : Spell ts (Generic.dotted names ++ mark .dot :: nameWord name :: vs)) :
    Spell (dottedRest scan n ts) ws := by
  induction names generalizing ts n with
  | nil =>
    obtain ⟨m, rfl⟩ : ∃ m, n = m + 1 := ⟨n - 1, by omega⟩
    obtain ⟨t, us, rfl, ht, hus⟩ := h.exists_cons
    obtain ⟨u, us, rfl, hu, hus⟩ := hus.exists_cons
    have hrest := hlast us hus
    rw [dottedRest_cons (.inl ht.kind) hu.kind, dottedRest_of_not (by simp [hrest.kind, hws])]
    exact hrest
  | cons name' names ih =>
    rw [List.length_cons] at hn
    obtain ⟨m, rfl⟩ : ∃ m, n = m + 1 := ⟨n - 1, by omega⟩
    obtain ⟨t, us, rfl, ht, hus⟩ := h.exists_cons
    obtain ⟨u, us, rfl, hu, hus⟩ := hus.exists_cons
    have hkind : kind us ≠ .punct .lessThan := by
      rw [Spell.kind hus]
      cases names <;> exact fun h => nomatch h
    rw [dottedRest_cons (.inl ht.kind) hu.kind, afterName, if_neg hkind]
    exact ih (by omega) hus

/-! ### Types -/

theorem finds_special (s : SpecialType) (n : Nat) : Finds (type? (n + 1)) (.special s) := by
  intro rs ts ws hws h
  obtain ⟨t, us, rfl, ht, hus⟩ := h.exists_cons
  have hpredefined : (kind (t :: us)).isPredefinedType = true := by
    rw [kind, ht.kind]
    cases s <;> rfl
  refine ⟨typeEnding true us, ?_, spell_typeEnding hus hws⟩
  rw [type?, if_pos hpredefined, List.tail_cons]

theorem finds_nullable (s : SpecialType) (n : Nat) :
    Finds (type? (n + 1)) (.nullable (.special s)) := by
  intro rs ts ws hws h
  obtain ⟨t, us, rfl, ht, hus⟩ := h.exists_cons
  have hpredefined : (kind (t :: us)).isPredefinedType = true := by
    rw [kind, ht.kind]
    cases s <;> rfl
  refine ⟨typeEnding true us, ?_, spell_typeEnding_question hus hws⟩
  rw [type?, if_pos hpredefined, List.tail_cons]

theorem finds_array {t : Ty} (h : Finds scan t) (rank : Nat) : Finds scan (.array t rank) := by
  intro rs ts ws hws hts
  rw [Ty.words, List.append_assoc, ← List.append_assoc (Ty.rankWords rank)] at hts
  exact h (rank :: rs) ts ws hws hts

/-- A generic type is found if its arguments are, one level further in. -/
theorem finds_generic {g : Generic} {e : Ty} {es : List Ty} {t : Ty} (ht : Ty.IsGeneric g e es t)
    {n : Nat} (hes : ∀ s ∈ e :: es, Finds (type? n) s) : Finds (type? (n + 1)) t := by
  intro rs ts ws hws h
  have hwords : t.words ++ (rs.flatMap Ty.rankWords ++ ws) =
      nameWord "System" :: (Generic.dotted g.path ++ mark .dot :: nameWord g.simpleName ::
        mark .lessThan :: (e.words ++ (Ty.moreWords es ++ mark .greaterThan ::
          (rs.flatMap Ty.rankWords ++ ws)))) := by
    simp [ht.words, Generic.words]
  rw [hwords] at h
  obtain ⟨t, us, rfl, ht, hus⟩ := h.exists_cons
  have hk : t.kind = .identifier := ht.kind
  have hname : kind us ≠ .punct .lessThan := by
    rw [Spell.kind hus]
    cases g <;> exact fun h => nomatch h
  have hpath : g.path.length < (t :: us).length := by
    have hdotted : g.path.length ≤ (Generic.dotted g.path).length :=
      length_le_flatMap_cons _ (fun name => [nameWord name]) g.path
    have hlength := hus.length_eq
    simp only [List.length_append, List.length_cons] at hlength ⊢
    omega
  have hrest := spell_dottedRest (fun vs hvs => spell_afterName hes hvs)
    ⟨Ty.headKind_ranks_ne hws rfl (by decide), Ty.headKind_ranks_ne hws rfl (by decide)⟩ hpath hus
  refine ⟨typeEnding false _, ?_, spell_typeEnding hrest hws⟩
  have hpredefined : ¬ (kind (t :: us)).isPredefinedType = true := by
    rw [kind, hk]
    exact Bool.false_ne_true
  rw [type?, if_neg hpredefined, if_pos (show kind (t :: us) = _ from hk), List.tail_cons,
    show afterName (type? n) us = us by rw [afterName, if_neg hname]]

/-- Every type is found where no fewer levels may nest than in it. -/
theorem finds_type {t : Ty} (ht : t.Spelled) {n : Nat} (hn : t.levels ≤ n) :
    Finds (type? n) t := by
  induction ht generalizing n with
  | special s =>
    obtain ⟨m, rfl⟩ : ∃ m, n = m + 1 := ⟨n - 1, by rw [Ty.levels] at hn; omega⟩
    exact finds_special s m
  | @nullable s =>
    obtain ⟨m, rfl⟩ : ∃ m, n = m + 1 := ⟨n - 1, by rw [Ty.levels, Ty.levels] at hn; omega⟩
    exact finds_nullable s m
  | @array t rank _ _ ih => exact finds_array (ih hn) rank
  | @generic g ts t hg _ ih =>
    obtain ⟨e, es, rfl, ht⟩ := Ty.exists_isGeneric hg
    have hfirst := ht.levels e List.mem_cons_self
    obtain ⟨m, rfl⟩ : ∃ m, n = m + 1 := ⟨n - 1, by omega⟩
    refine finds_generic ht fun s hs => ih s hs ?_
    have hlevels := ht.levels s hs
    omega

/-! ### Declarations -/

/-- A type with a variable after it begins a declaration. -/
theorem startsLocalDeclaration_spell {t : Ty} (ht : t.Spelled) {maxDepth : Nat}
    (hlevels : t.levels ≤ maxDepth + 1) (inAsync : Bool) {name : String}
    (h : Spell ts (t.words ++ [nameWord name, mark .semicolon])) :
    startsLocalDeclaration maxDepth inAsync ts = true := by
  obtain ⟨found, hfound, hrest⟩ :=
    finds_type ht hlevels [] ts [nameWord name, mark .semicolon] rfl h
  obtain ⟨v, vs, hv, -, hvs⟩ := hrest.exists_cons
  have hvariable : kind found.rest = .identifier := hrest.kind
  have hsecond : secondKind found.rest = .punct .semicolon := by
    rw [hv, secondKind, List.tail_cons, Spell.kind hvs]
    rfl
  rcases ht.begins with ⟨s, more, hwords⟩ | ⟨more, hwords⟩
  · rw [hwords, List.cons_append] at h
    obtain ⟨u, us, rfl, hu, -⟩ := h.exists_cons
    have hkind : kind (u :: us) = .keyword s.keyword := hu.kind
    have hpredefined : (kind (u :: us)).isPredefinedType = true := by
      rw [hkind]
      cases s <;> rfl
    simp [startsLocalDeclaration, hkind, hkind ▸ hpredefined, hfound, hvariable, hsecond]
  · rw [hwords, List.cons_append] at h
    obtain ⟨u, us, rfl, hu, -⟩ := h.exists_cons
    have hkind : kind (u :: us) = .identifier := hu.kind
    have htext : u.text = "System" := hu.text.trans (by decide)
    have hquery : startsQuery (u :: us) = false := by
      simp [startsQuery, Token.isContextual, Token.contextual?, htext]
    simp [startsLocalDeclaration, hkind, hquery, htext, hfound, hvariable, hsecond]

end Lookahead

end CSharpFront
