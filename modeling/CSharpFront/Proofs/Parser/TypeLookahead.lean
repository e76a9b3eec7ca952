import CSharpFront.Proofs.Parser.Lookahead
import CSharpFront.Proofs.Parser.Passes
/-!
The parser reads the type that was found by looking ahead. Where a type was found that does not end
at a `<` or at a bracket, the parser reads just its tokens and has nothing to report, or it hits the
nesting limit. Looking ahead from inside the type goes by more levels than the first look did, and
finds the same.
-/

namespace CSharpFront

namespace TypeSyntax

/-- Whether a type begins with a predefined one. -/
def beginsPredefined : TypeSyntax → Bool
  | .predefined _ _ => true
  | .qualified _ left _ => left.beginsPredefined
  | .nullable _ t | .array _ t _ => t.beginsPredefined
  | .name _ | .generic _ _ _ | .missing _ => false

def isNullable : TypeSyntax → Bool
  | .nullable _ _ => true
  | _ => false

/-- A type without missing parts that is as it was found. -/
structure Fits (isPredefined isNullable : Bool) (t : TypeSyntax) : Prop where
  whole : t.containsMissing = false
  predefined : t.beginsPredefined = isPredefined
  nullable : t.isNullable = isNullable

end TypeSyntax

namespace Parser

variable {env : Env} {s : State} {reported : Array Diagnostic}

/-! ### Brackets -/

theorem ranks_of_ne {n : Nat} {ts : List Token} (h : Lookahead.kind ts ≠ .punct .openBracket) :
    Lookahead.ranks n ts = (false, ts) := by
  cases n with
  | zero => rfl
  | succ n => simp [Lookahead.ranks, h]

theorem drop_run (k : TokenKind) (ts : List Token) :
    ts.drop (Lookahead.run k ts) = ts.dropWhile (·.kind = k) := by
  induction ts with
  | nil => rfl
  | cons t ts ih =>
    by_cases h : t.kind = k
    · simpa [Lookahead.run, h] using ih
    · simp [Lookahead.run, h]

theorem ranks_cons {n : Nat} {t : Token} {ts : List Token} (ht : t.kind = .punct .openBracket) :
    Lookahead.ranks (n + 1) (t :: ts) =
      if Lookahead.kind (ts.dropWhile (·.kind = .punct .comma)) = .punct .closeBracket then
        (true, (Lookahead.ranks n (ts.dropWhile (·.kind = .punct .comma)).tail).2)
      else (false, t :: ts) := by
  rw [Lookahead.ranks, if_pos (show Lookahead.kind (t :: ts) = _ from ht)]
  rfl

/-- Brackets that were found close after their commas. -/
theorem ranks_of_openBracket {n : Nat} {t : Token} {ts : List Token}
    (ht : t.kind = .punct .openBracket) (hn : (t :: ts).length ≤ n)
    (h : Lookahead.kind (Lookahead.ranks n (t :: ts)).2 ≠ .punct .openBracket) :
    ∃ u us m, ts.dropWhile (·.kind = .punct .comma) = u :: us ∧ u.kind = .punct .closeBracket ∧
      us.length ≤ m ∧ us.length ≤ ts.length ∧
      Lookahead.ranks n (t :: ts) = (true, (Lookahead.ranks m us).2) := by
  rw [List.length_cons] at hn
  obtain ⟨m, rfl⟩ : ∃ m, n = m + 1 := ⟨n - 1, by omega⟩
  rw [ranks_cons ht] at h ⊢
  by_cases hc : Lookahead.kind (ts.dropWhile (·.kind = .punct .comma)) = .punct .closeBracket
  · obtain ⟨u, us, hu, hkind⟩ := Lookahead.kind_ne_endOfFile_cons hc (by simp)
    have hlen : (u :: us).length ≤ ts.length := hu ▸ (List.dropWhile_suffix _).length_le
    rw [List.length_cons] at hlen
    refine ⟨u, us, m, hu, hkind, by omega, by omega, ?_⟩
    rw [if_pos hc, hu, List.tail_cons]
  · rw [if_neg hc] at h
    exact absurd ht h

/-- The first token after an opening bracket whose brackets close. -/
theorem secondKind_of_dropWhile {ts us : List Token} {u : Token}
    (h : ts.dropWhile (·.kind = .punct .comma) = u :: us) (hu : u.kind = .punct .closeBracket) :
    Lookahead.kind ts = .punct .closeBracket ∨ Lookahead.kind ts = .punct .comma := by
  cases ts with
  | nil => simp at h
  | cons v vs =>
    by_cases hv : v.kind = .punct .comma
    · exact .inr hv
    · simp only [List.dropWhile_cons, hv, decide_false, Bool.false_eq_true, if_false] at h
      obtain ⟨rfl, -⟩ := List.cons.inj h
      exact .inl hu

/-- What is left of the brackets that were found, with the type so far. -/
structure RanksLeft (rest : List Token) (isPredefined isNullable : Bool) (t : TypeSyntax)
    (s : State) : Prop where
  whole : t.containsMissing = false
  predefined : t.beginsPredefined = isPredefined
  ranks : ∃ n, s.rest.length ≤ n ∧ (Lookahead.ranks n s.rest).2 = rest ∧
    (t.isNullable && !(Lookahead.ranks n s.rest).1) = isNullable

theorem passes_rankSpecifiers (start : Nat) {type : TypeSyntax} (hs : Calm reported s)
    (hb : s.rest.length < env.budget) {rest : List Token} {isPredefined isNullable : Bool}
    (h : RanksLeft rest isPredefined isNullable type s)
    (hr : Lookahead.kind rest ≠ .punct .openBracket) :
    Passes reported (rankSpecifiers start type) env s
      fun t s' => t.Fits isPredefined isNullable ∧ s'.rest = rest := by
  refine .loop (silent_rankStep start) hs h hb fun type s hs h _ => ?_
  obtain ⟨n, hn, hrest, hnull⟩ := h.ranks
  apply Passes.moves (moves_get env s) hs
  intro s₁ hs₁ hrest₁
  by_cases hopen : Lookahead.kind s.rest = .punct .openBracket
  · obtain ⟨t, ts, hts, ht⟩ := Lookahead.kind_ne_endOfFile_cons hopen (by simp)
    rw [hts] at hn hrest hnull
    obtain ⟨u, us, m, hu, hclose, hm, hlen, hranks⟩ :=
      ranks_of_openBracket ht hn (hrest ▸ hr)
    rw [hranks] at hrest hnull
    have hcond : Lookahead.kind s.rest = .punct .openBracket ∧
        (Lookahead.secondKind s.rest = .punct .closeBracket ∨
          Lookahead.secondKind s.rest = .punct .comma) :=
      ⟨hopen, by rw [hts]; exact secondKind_of_dropWhile hu hclose⟩
    show Passes reported (if _ then _ else _) env s₁ _
    rw [if_pos hcond]
    apply Passes.moves (moves_advance (hrest₁.trans hts)) hs₁
    intro s₂ hs₂ hrest₂
    apply Passes.moves (moves_get env s₂) hs₂
    intro s₃ hs₃ hrest₃
    apply Passes.moves (moves_advanceBy _ s₃) hs₃
    intro s₄ hs₄ hrest₄
    rw [hrest₃, hrest₂, drop_run, hu] at hrest₄
    apply Passes.moves (moves_eat hrest₄ hclose) hs₄
    intro s₅ hs₅ hrest₅
    apply Passes.moves (moves_rangeFrom start env s₅) hs₅
    intro s₆ hs₆ hrest₆
    rw [hrest₅] at hrest₆
    refine .pure hs₆ ⟨⟨h.whole, h.predefined, m, hrest₆ ▸ hm, hrest₆ ▸ hrest, ?_⟩, ?_⟩
    · simpa [TypeSyntax.isNullable] using hnull
    · rw [hrest₆, hts, List.length_cons]
      omega
  · rw [ranks_of_ne hopen] at hrest hnull
    show Passes reported (if _ then _ else _) env s₁ _
    rw [if_neg fun hc => hopen hc.1]
    refine .pure hs₁ ⟨⟨h.whole, h.predefined, by simpa using hnull⟩, ?_⟩
    rw [hrest₁]
    exact hrest

/-! ### Type arguments -/

/-- A parser that reads the types which a scan finds. -/
def ReadsTypes (scan : List Token → Option Lookahead.TypeScan) (env : Env) (p : P TypeSyntax) :
    Prop :=
  ∀ s reported sc, Calm reported s → s.rest.length < env.budget → scan s.rest = some sc →
    Lookahead.kind sc.rest ≠ .punct .lessThan → Lookahead.kind sc.rest ≠ .punct .openBracket →
    Passes reported p env s
      fun t s' => t.Fits sc.isPredefined sc.endsWithNullable ∧ s'.rest = sc.rest

variable {scan : List Token → Option Lookahead.TypeScan} {item : P TypeSyntax}

/-- What is left of the type arguments that were found, after one of them. -/
def ArgumentsLeft (scan : List Token → Option Lookahead.TypeScan) (rest : List Token)
    (items : List TypeSyntax) (s : State) : Prop :=
  (∀ t ∈ items, t.containsMissing = false) ∧
    ((∃ u us n, s.rest = u :: us ∧ u.kind = .punct .comma ∧
        Lookahead.typeArguments scan n us = some rest) ∨
      ∃ u, s.rest = u :: rest ∧ u.kind = .punct .greaterThan)

/-- An argument that was found is read, and what is left was found too. -/
theorem passes_argument (hitem : ReadsTypes scan env item) (hsuffix : Lookahead.LeavesSuffix scan)
    (hs : Calm reported s) (hb : s.rest.length < env.budget) {n : Nat} {rest : List Token}
    (h : Lookahead.typeArguments scan n s.rest = some rest) (items : List TypeSyntax)
    (hi : ∀ t ∈ items, t.containsMissing = false) :
    Passes reported item env s fun t s' =>
      ArgumentsLeft scan rest (t :: items) s' ∧ s'.rest.length ≤ s.rest.length := by
  cases n with
  | zero => simp [Lookahead.typeArguments] at h
  | succ n =>
    simp only [Lookahead.typeArguments] at h
    split at h
    · simp at h
    next sc hscan =>
      have hlen := (hsuffix s.rest sc hscan).length_le
      split at h
      next hk =>
        refine (hitem s reported sc hs hb hscan (by simp [hk]) (by simp [hk])).imp ?_
        rintro t s' ⟨hfits, hrest⟩
        obtain ⟨u, us, hu, hukind⟩ := Lookahead.kind_ne_endOfFile_cons hk (by simp)
        rw [hu] at h
        refine ⟨⟨List.forall_mem_cons.mpr ⟨hfits.whole, hi⟩, .inl ?_⟩, hrest ▸ hlen⟩
        exact ⟨u, us, n, hrest.trans hu, hukind, h⟩
      next hk =>
        refine (hitem s reported sc hs hb hscan (by simp [hk]) (by simp [hk])).imp ?_
        rintro t s' ⟨hfits, hrest⟩
        obtain ⟨u, us, hu, hukind⟩ := Lookahead.kind_ne_endOfFile_cons hk (by simp)
        rw [hu] at h
        obtain rfl := Option.some.inj h
        refine ⟨⟨List.forall_mem_cons.mpr ⟨hfits.whole, hi⟩, .inr ?_⟩, hrest ▸ hlen⟩
        exact ⟨u, hrest.trans hu, hukind⟩
      · simp at h

theorem passes_separated (he : env.endOfFile.kind = .endOfFile)
    (hitem : ReadsTypes scan env item) (hsilent : Silent item)
    (hsuffix : Lookahead.LeavesSuffix scan) (hs : Calm reported s) (hb : s.rest.length < env.budget)
    {n : Nat} {rest : List Token} (h : Lookahead.typeArguments scan n s.rest = some rest) :
    Passes reported (separated item) env s fun items s' =>
      (∀ t ∈ items, t.containsMissing = false) ∧
        ∃ u, s'.rest = u :: rest ∧ u.kind = .punct .greaterThan := by
  have hrest : Silent (do if ← accept (.punct .comma) then return some (← item) else return none) :=
    .bind (silent_accept _) fun _ => .ite (.bind hsilent fun _ => .pure _) (.pure _)
  refine .bind (passes_argument hitem hsuffix hs hb h [] (by simp)) ?_
    fun _ => .bind (.many hrest) fun _ => .pure _
  rintro first s₁ hs₁ ⟨hleft, hlen⟩
  refine .bind (.many (ArgumentsLeft scan rest) (fun items s' =>
      (∀ t ∈ items, t.containsMissing = false) ∧
        ∃ u, s'.rest = u :: rest ∧ u.kind = .punct .greaterThan)
      hrest hs₁ ⟨by simp, hleft.2⟩ (by omega) ?_) ?_ fun _ => .pure _
  · rintro items s hs ⟨hi, hleft⟩ hb
    rcases hleft with ⟨u, us, n, hu, hk, hargs⟩ | ⟨u, hu, hk⟩
    · apply Passes.moves (moves_accept hu hk) hs
      intro s' hs' hrest'
      have hlen : s'.rest.length < s.rest.length := by
        rw [hrest', hu, List.length_cons]
        omega
      rw [← hrest'] at hargs
      refine .bind (passes_argument hitem hsuffix hs' (by omega) hargs items hi) ?_ fun _ => .pure _
      rintro t s'' hs'' ⟨hleft, hlen'⟩
      exact .pure hs'' ⟨hleft, by omega⟩
    · have hne : Lookahead.kind s.rest ≠ .punct .comma := by
        rw [hu]
        simp [Lookahead.kind, hk]
      apply Passes.moves (moves_accept_of_ne he hne) hs
      intro s' hs' hrest'
      exact .pure hs' ⟨fun t ht => hi t (List.mem_reverse.mp ht), u, hrest'.trans hu, hk⟩
  · rintro items s hs ⟨hi, hend⟩
    exact .pure hs ⟨List.forall_mem_cons.mpr ⟨hleft.1 first (by simp), hi⟩, hend⟩

/-! ### Names -/

theorem containsMissing_generic {range : Range} {i : Identifier} {ts : List TypeSyntax}
    (hi : i.isMissing = false) (h : ∀ t ∈ ts, t.containsMissing = false) :
    (TypeSyntax.generic range i ts).containsMissing = false := by
  have hts : TypeSyntax.anyMissing ts = false := by
    induction ts with
    | nil => rfl
    | cons t ts ih =>
      obtain ⟨ht, hts⟩ := List.forall_mem_cons.mp h
      rw [TypeSyntax.anyMissing, ht, ih hts]
      rfl
  rw [TypeSyntax.containsMissing, hi, hts]
  rfl

variable {n : Nat} {r : Rules}

/-- A name with the type arguments that were found after it. -/
theorem passes_simpleName (he : env.endOfFile.kind = .endOfFile) (hn : n ≤ env.maxDepth + 1)
    (hr : ReadsTypes (Lookahead.type? n) env (r.type true)) (hsilent : Silent (r.type true))
    (hs : Calm reported s) (hb : s.rest.length < env.budget) {t : Token} {ts : List Token}
    (hts : s.rest = t :: ts) (ht : t.kind = .identifier)
    (hk : Lookahead.kind (Lookahead.afterName (Lookahead.type? n) ts) ≠ .punct .lessThan) :
    Passes reported (simpleName r) env s fun type s' =>
      type.Fits false false ∧ s'.rest = Lookahead.afterName (Lookahead.type? n) ts := by
  apply Passes.moves (moves_current env s) hs
  intro s₁ hs₁ hrest₁
  rw [hts] at hrest₁
  apply Passes.moves (moves_identifier hrest₁ ht) hs₁
  intro s₂ hs₂ hrest₂
  apply Passes.moves (moves_read env s₂) hs₂
  intro s₃ hs₃ hrest₃
  apply Passes.moves (moves_get env s₃) hs₃
  intro s₄ hs₄ hrest₄
  rw [hrest₂] at hrest₃
  rw [hrest₃] at hrest₄
  have hext := Lookahead.type?_extends hn
  show Passes reported (if Lookahead.startsTypeArguments env.maxDepth s₃.rest = true then _ else _)
    env s₄ _
  rw [hrest₃]
  by_cases hlt : Lookahead.kind ts = .punct .lessThan
  · cases hargs : Lookahead.typeArguments (Lookahead.type? n) ts.length ts.tail with
    | none => simp [Lookahead.afterName, hlt, hargs] at hk
    | some rest =>
      have hstarts : Lookahead.startsTypeArguments env.maxDepth ts = true := by
        simp [Lookahead.startsTypeArguments, hlt, hext.typeArguments hargs]
      have hafter : Lookahead.afterName (Lookahead.type? n) ts = rest := by
        simp [Lookahead.afterName, hlt, hargs]
      rw [if_pos hstarts, hafter]
      obtain ⟨u, us, hu, -⟩ := Lookahead.kind_ne_endOfFile_cons hlt (by simp)
      rw [hu, List.tail_cons] at hargs
      apply Passes.moves (moves_advance (hrest₄.trans hu)) hs₄
      intro s₅ hs₅ hrest₅
      have hlen : s₅.rest.length < env.budget := by
        rw [hts, hu] at hb
        rw [hrest₅]
        simp only [List.length_cons] at hb
        omega
      rw [← hrest₅] at hargs
      refine .bind (passes_separated he hr hsilent (Lookahead.type?_suffix n) hs₅ hlen hargs) ?_
        fun _ => .bind (silent_eat _) fun _ => .bind (silent_rangeFrom _) fun _ => .pure _
      rintro items s₆ hs₆ ⟨hi, v, hv, hkind⟩
      apply Passes.moves (moves_eat hv hkind) hs₆
      intro s₇ hs₇ hrest₇
      apply Passes.moves (moves_rangeFrom _ env s₇) hs₇
      intro s₈ hs₈ hrest₈
      exact .pure hs₈ ⟨⟨containsMissing_generic rfl hi, rfl, rfl⟩, hrest₈.trans hrest₇⟩
  · have hstarts : ¬ Lookahead.startsTypeArguments env.maxDepth ts = true := by
      simp [Lookahead.startsTypeArguments, hlt]
    rw [if_neg hstarts]
    refine .pure hs₄ ⟨⟨rfl, rfl, rfl⟩, ?_⟩
    rw [hrest₄, Lookahead.afterName, if_neg hlt]

/-- What is left of the dotted name that was found, with the name so far. -/
structure DotsLeft (scan : List Token → Option Lookahead.TypeScan) (rest : List Token)
    (t : TypeSyntax) (s : State) : Prop where
  fits : t.Fits false false
  dots : ∃ n, s.rest.length ≤ n ∧ Lookahead.dottedRest scan n s.rest = rest

theorem passes_nameStep (he : env.endOfFile.kind = .endOfFile) (hn : n ≤ env.maxDepth + 1)
    (hr : ReadsTypes (Lookahead.type? n) env (r.type true)) (hsilent : Silent (r.type true))
    {rest : List Token} (hk : Lookahead.kind rest ≠ .punct .lessThan) (start : Nat)
    {left : TypeSyntax} (hs : Calm reported s) (h : DotsLeft (Lookahead.type? n) rest left s)
    (hb : s.rest.length < env.budget) :
    Passes reported (nameStep r start left) env s
      (Round (DotsLeft (Lookahead.type? n) rest)
        (fun t s' => t.Fits false false ∧ s'.rest = rest) s) := by
  obtain ⟨m, hm, hdots⟩ := h.dots
  apply Passes.moves (moves_get env s) hs
  intro s₁ hs₁ hrest₁
  show Passes reported (if _ then _ else _) env s₁ _
  by_cases hdot : (Lookahead.kind s.rest = .punct .dot ∨
      Lookahead.kind s.rest = .punct .colonColon) ∧ Lookahead.secondKind s.rest = .identifier
  · obtain ⟨t, u, ts, hts, ht, hu⟩ := Lookahead.exists_of_dot hdot.1 hdot.2
    rw [if_pos hdot]
    rw [hts] at hm hdots hrest₁ hb
    simp only [List.length_cons] at hm hb
    obtain ⟨m, rfl⟩ : ∃ k, m = k + 1 := ⟨m - 1, by omega⟩
    rw [Lookahead.dottedRest_cons ht hu] at hdots
    have hname : Lookahead.kind (Lookahead.afterName (Lookahead.type? n) ts) ≠
        .punct .lessThan := by
      intro hlt
      rw [Lookahead.dottedRest_of_lessThan hlt] at hdots
      exact hk (hdots ▸ hlt)
    have hlen := ((Lookahead.type?_suffix n).afterName ts).length_le
    apply Passes.moves (moves_advance hrest₁) hs₁
    intro s₂ hs₂ hrest₂
    have hb₂ : s₂.rest.length < env.budget := by
      rw [hrest₂, List.length_cons]
      omega
    refine .bind (passes_simpleName he hn hr hsilent hs₂ hb₂ hrest₂ hu hname) ?_
      fun _ => .bind (silent_rangeFrom _) fun _ => .pure _
    rintro right s₃ hs₃ ⟨hfits, hrest₃⟩
    apply Passes.moves (moves_rangeFrom start env s₃) hs₃
    intro s₄ hs₄ hrest₄
    rw [hrest₃] at hrest₄
    refine .pure hs₄ ⟨⟨⟨?_, h.fits.predefined, rfl⟩, m, ?_, hrest₄ ▸ hdots⟩, ?_⟩
    · rw [TypeSyntax.containsMissing, h.fits.whole, hfits.whole]
      rfl
    · rw [hrest₄]
      omega
    · rw [hrest₄, hts, List.length_cons, List.length_cons]
      omega
  · rw [if_neg hdot]
    refine .pure hs₁ ⟨h.fits, ?_⟩
    rw [hrest₁, ← hdots, Lookahead.dottedRest_of_not hdot]

theorem passes_name (he : env.endOfFile.kind = .endOfFile) (hn : n ≤ env.maxDepth + 1)
    (hr : ReadsTypes (Lookahead.type? n) env (r.type true)) (hsilent : Silent (r.type true))
    (hs : Calm reported s) (hb : s.rest.length < env.budget) {t : Token} {ts : List Token}
    (hts : s.rest = t :: ts) (ht : t.kind = .identifier) {rest : List Token}
    (h : Lookahead.dottedRest (Lookahead.type? n) s.rest.length
      (Lookahead.afterName (Lookahead.type? n) ts) = rest)
    (hk : Lookahead.kind rest ≠ .punct .lessThan) :
    Passes reported (name r) env s fun type s' => type.Fits false false ∧ s'.rest = rest := by
  have hname : Lookahead.kind (Lookahead.afterName (Lookahead.type? n) ts) ≠ .punct .lessThan := by
    intro hlt
    rw [Lookahead.dottedRest_of_lessThan hlt] at h
    exact hk (h ▸ hlt)
  have hlen := ((Lookahead.type?_suffix n).afterName ts).length_le
  have htail : ts.length < s.rest.length := by
    rw [hts, List.length_cons]
    omega
  rw [name_eq]
  apply Passes.moves (moves_current env s) hs
  intro s₁ hs₁ hrest₁
  refine .bind (passes_simpleName he hn hr hsilent hs₁ (hrest₁ ▸ hb) (hrest₁.trans hts) ht hname) ?_
    fun _ => .loop _ (silent_nameStep hsilent _)
  rintro first s₂ hs₂ ⟨hfits, hrest₂⟩
  have hleft : DotsLeft (Lookahead.type? n) rest first s₂ :=
    ⟨hfits, s.rest.length, by rw [hrest₂]; omega, hrest₂ ▸ h⟩
  refine .loop (silent_nameStep hsilent _) hs₂ hleft (by rw [hrest₂]; omega) ?_
  intro left s hs hleft hb
  exact passes_nameStep he hn hr hsilent hk _ hs hleft hb

/-! ### Types -/

theorem rest_typeEnding (isPredefined : Bool) (ts : List Token) :
    Lookahead.kind (Lookahead.typeEnding isPredefined ts).rest ≠ .punct .lessThan →
      Lookahead.kind ts ≠ .punct .lessThan := by
  intro h hlt
  rw [Lookahead.typeEnding_of_lessThan hlt] at h
  exact h hlt

/-- The part of a type before its `?` and its brackets. -/
theorem passes_typeCore? (he : env.endOfFile.kind = .endOfFile) (hn : n ≤ env.maxDepth + 1)
    (hr : ReadsTypes (Lookahead.type? n) env (r.type true)) (hsilent : Silent (r.type true))
    (hs : Calm reported s) (hb : s.rest.length < env.budget) {sc : Lookahead.TypeScan}
    (h : Lookahead.type? (n + 1) s.rest = some sc)
    (hk : Lookahead.kind sc.rest ≠ .punct .lessThan) :
    Passes reported (typeCore? r) env s fun core? s' => ∃ core isPredefined,
      core? = some core ∧ core.Fits isPredefined false ∧
        sc = Lookahead.typeEnding isPredefined s'.rest ∧ s'.rest.length < env.budget := by
  obtain ⟨t, ts, hts⟩ : ∃ t ts, s.rest = t :: ts := by
    cases hrest : s.rest with
    | nil => simp [hrest, Lookahead.type?, Lookahead.kind, TokenKind.isPredefinedType,
        TokenKind.special?] at h
    | cons t ts => exact ⟨t, ts, rfl⟩
  have hb₁ : ts.length < env.budget := by
    rw [hts, List.length_cons] at hb
    omega
  apply Passes.moves (moves_current env s) hs
  intro s₁ hs₁ hrest₁
  rw [hts] at h hrest₁ ⊢
  simp only [Lookahead.type?, List.tail_cons] at h
  rw [List.headD_cons]
  cases hspecial : t.kind.special? with
  | some special =>
    have hp : (Lookahead.kind (t :: ts)).isPredefinedType = true := by
      rw [TokenKind.isPredefinedType, Lookahead.kind, hspecial]
      rfl
    rw [if_pos hp] at h
    apply Passes.moves (moves_advance hrest₁) hs₁
    intro s₂ hs₂ hrest₂
    refine .pure hs₂ ⟨_, true, rfl, ⟨rfl, rfl, rfl⟩, ?_, hrest₂ ▸ hb₁⟩
    rw [hrest₂]
    exact (Option.some.inj h).symm
  | none =>
    have hp : ¬ (Lookahead.kind (t :: ts)).isPredefinedType = true := by
      rw [TokenKind.isPredefinedType, Lookahead.kind, hspecial]
      simp
    rw [if_neg hp] at h
    by_cases hi : t.kind = .identifier
    · rw [if_pos (show Lookahead.kind (t :: ts) = _ from hi)] at h
      obtain rfl := Option.some.inj h
      dsimp only
      rw [if_pos hi]
      have hscan := Lookahead.type?_suffix n
      have h₁ := (hscan.afterName ts).length_le
      have h₂ := (hscan.dottedRest (t :: ts).length
        (Lookahead.afterName (Lookahead.type? n) ts)).length_le
      refine .bind (passes_name he hn hr hsilent hs₁ (hrest₁ ▸ hts ▸ hb) hrest₁ hi
        (hrest₁ ▸ rfl) (rest_typeEnding _ _ hk)) ?_ fun _ => .pure _
      rintro core s₂ hs₂ ⟨hfits, hrest₂⟩
      exact .pure hs₂ ⟨core, false, rfl, hfits, by rw [hrest₂], by rw [hrest₂]; omega⟩
    · rw [if_neg (show ¬ Lookahead.kind (t :: ts) = _ from hi)] at h
      simp at h

/-- The `?` and the brackets of a type. -/
theorem passes_typeRest (he : env.endOfFile.kind = .endOfFile) (start : Nat)
    (hs : Calm reported s) (hb : s.rest.length < env.budget) {core : TypeSyntax}
    {isPredefined : Bool} (hfits : core.Fits isPredefined false)
    (hk : Lookahead.kind (Lookahead.typeEnding isPredefined s.rest).rest ≠ .punct .openBracket) :
    Passes reported (typeRest true start (some core)) env s fun t s' =>
      t.Fits isPredefined (Lookahead.typeEnding isPredefined s.rest).endsWithNullable ∧
        s'.rest = (Lookahead.typeEnding isPredefined s.rest).rest := by
  by_cases hq : Lookahead.kind s.rest = .punct .question
  · obtain ⟨t, ts, hts, ht⟩ := Lookahead.kind_ne_endOfFile_cons hq (by simp)
    rw [hts, Lookahead.typeEnding_cons ht] at hk ⊢
    apply Passes.moves (moves_accept hts ht) hs
    intro s₁ hs₁ hrest₁
    apply Passes.moves (moves_rangeFrom start env s₁) hs₁
    intro s₂ hs₂ hrest₂
    rw [hrest₁] at hrest₂
    have hb₂ : s₂.rest.length < env.budget := by
      rw [hts, List.length_cons] at hb
      rw [hrest₂]
      omega
    refine passes_rankSpecifiers start hs₂ hb₂
      ⟨hfits.whole, hfits.predefined, ts.length, ?_, ?_, ?_⟩ hk
    · exact Nat.le_of_eq (congrArg List.length hrest₂)
    · rw [hrest₂]
    · rw [hrest₂]
      rfl
  · rw [Lookahead.typeEnding_of_ne hq] at hk ⊢
    apply Passes.moves (moves_accept_of_ne he hq) hs
    intro s₁ hs₁ hrest₁
    refine passes_rankSpecifiers start hs₁ (hrest₁ ▸ hb)
      ⟨hfits.whole, hfits.predefined, s.rest.length, ?_, ?_, ?_⟩ hk
    · exact Nat.le_of_eq (congrArg List.length hrest₁)
    · rw [hrest₁]
    · rw [hfits.nullable]
      rfl

theorem readsTypes_type (he : env.endOfFile.kind = .endOfFile) (m : Nat)
    (hm : m ≤ env.maxDepth + 1) (n : Nat) :
    ReadsTypes (Lookahead.type? m) env ((rules n).type true) := by
  induction m generalizing n with
  | zero =>
    intro s reported sc _ _ h
    simp [Lookahead.type?] at h
  | succ m ih =>
    intro s reported sc hs hb h hlt hopen
    cases n with
    | zero =>
      apply Passes.moves (moves_runOut env s) hs
      intro s₁ hs₁ _
      exact .refuse hs₁ silent_missingType
    | succ n =>
      have hr := ih (by omega) n
      have hsilent := silent_type n true
      refine .nested silent_missingType hs (fun _ _ _ _ h => h) fun s₀ hs₀ hrest₀ => ?_
      apply Passes.moves (moves_current env s₀) hs₀
      intro s₁ hs₁ hrest₁
      rw [hrest₀] at hrest₁
      refine .bind (passes_typeCore? he (by omega) hr hsilent hs₁ (hrest₁ ▸ hb) (hrest₁ ▸ h) hlt)
        ?_ fun core? => silent_typeRest true _ core?
      rintro core? s₂ hs₂ ⟨core, isPredefined, rfl, hfits, rfl, hb₂⟩
      exact passes_typeRest he _ hs₂ hb₂ hfits hopen

/-- From every state before the nesting limit was hit, the parser takes the type that looking ahead
found before a name or a closing parenthesis, or it reports that the type nests too deep. -/
theorem type_agrees_with_lookahead {stream : TokenStream}
    (he : stream.endOfFile.kind = .endOfFile) (maxDepth n : Nat) (inAsync : Bool) {s : State}
    (hdeep : s.tooDeep = false) (hrest : s.rest <:+ stream.tokens) {sc : Lookahead.TypeScan}
    (hscan : Lookahead.type? (maxDepth + 1) s.rest = some sc)
    (hnext : Lookahead.kind sc.rest = .identifier ∨
      Lookahead.kind sc.rest = .punct .closeParen) :
    let (t, s') := (rules n).type true { Env.of stream maxDepth with inAsync } s
    (∃ span, s'.diagnostics = s.diagnostics.push (.of .tooDeep span)) ∨
      (s'.diagnostics = s.diagnostics ∧ s'.rest = sc.rest ∧ t.containsMissing = false ∧
        (t.beginsPredefined = true ↔ sc.isPredefined = true) ∧
        (t.isNullable = true ↔ sc.endsWithNullable = true)) := by
  have hb : s.rest.length < stream.tokens.length + 1 := Nat.lt_succ_of_le hrest.length_le
  have hlt : Lookahead.kind sc.rest ≠ .punct .lessThan := by
    rcases hnext with h | h <;> simp [h]
  have hopen : Lookahead.kind sc.rest ≠ .punct .openBracket := by
    rcases hnext with h | h <;> simp [h]
  have hreads : ReadsTypes (Lookahead.type? (maxDepth + 1))
      { Env.of stream maxDepth with inAsync } ((rules n).type true) :=
    readsTypes_type he _ (Nat.le_refl _) n
  rcases hreads s s.diagnostics sc ⟨hdeep, rfl⟩ hb hscan hlt hopen with
    ⟨span, hcut⟩ | ⟨hcalm, hfits, hleft⟩
  · exact .inl ⟨span, hcut.2⟩
  · refine .inr ⟨hcalm.2, hleft, hfits.whole, ?_, ?_⟩
    · rw [hfits.predefined]
    · rw [hfits.nullable]

/-- The tokens of `A<int>? x`. -/
def nullableGeneric : TokenStream :=
  ⟨[⟨.identifier, ⟨0, 1⟩, "A", {}⟩, ⟨.punct .lessThan, ⟨1, 2⟩, "<", {}⟩,
      ⟨.keyword .kwInt, ⟨2, 5⟩, "int", {}⟩, ⟨.punct .greaterThan, ⟨5, 6⟩, ">", {}⟩,
      ⟨.punct .question, ⟨6, 7⟩, "?", {}⟩, ⟨.identifier, ⟨8, 9⟩, "x", {}⟩],
    ⟨.endOfFile, ⟨9, 9⟩, "", {}⟩⟩

theorem type_of_nullableGeneric :
    let (t, s') := (rules 2).type true (.of nullableGeneric 1) (.start nullableGeneric #[] none)
    (∃ span, s'.diagnostics = #[].push (.of .tooDeep span)) ∨
      (s'.diagnostics = #[] ∧ s'.rest = nullableGeneric.tokens.drop 5 ∧ t.containsMissing = false ∧
        (t.beginsPredefined = true ↔ false = true) ∧ (t.isNullable = true ↔ true = true)) := by
  have hscan : Lookahead.type? 2 nullableGeneric.tokens =
      some ⟨nullableGeneric.tokens.drop 5, false, true⟩ := rfl
  exact type_agrees_with_lookahead rfl 1 2 false (s := .start nullableGeneric #[] none) rfl
    List.suffix_rfl hscan (.inl rfl)

end Parser

end CSharpFront
