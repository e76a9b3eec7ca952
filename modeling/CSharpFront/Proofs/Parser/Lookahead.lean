import CSharpFront.Parser.Lookahead
/-!
What looking ahead for a type finds. A type that was found ends before a `<` only where its type
arguments did not come through; wherever else it ends, more levels find the same type.
-/

namespace CSharpFront.Lookahead

/-! ### First tokens -/

theorem kind_ne_endOfFile_cons {ts : List Token} {k : TokenKind} (h : kind ts = k)
    (hk : k ≠ .endOfFile) : ∃ t rest, ts = t :: rest ∧ t.kind = k := by
  cases ts with
  | nil => exact absurd h.symm hk
  | cons t rest => exact ⟨t, rest, rfl, h⟩

theorem run_ne_zero {k : TokenKind} {ts : List Token} (h : kind ts = k) (hk : k ≠ .endOfFile) :
    run k ts ≠ 0 := by
  obtain ⟨t, rest, rfl, ht⟩ := kind_ne_endOfFile_cons h hk
  simp [run, ht]

/-- A dot or a double colon with an identifier after it. -/
theorem exists_of_dot {ts : List Token} (h : kind ts = .punct .dot ∨ kind ts = .punct .colonColon)
    (hs : secondKind ts = .identifier) :
    ∃ t u rest, ts = t :: u :: rest ∧ (t.kind = .punct .dot ∨ t.kind = .punct .colonColon) ∧
      u.kind = .identifier := by
  obtain ⟨u, rest, hu, hk⟩ := kind_ne_endOfFile_cons hs (by simp)
  cases ts with
  | nil => simp at hu
  | cons t ts => exact ⟨t, u, rest, by rw [← hu, List.tail_cons], h, hk⟩

/-! ### What is left

Whatever looking ahead passes over, the tokens after it are the last ones of those before it. -/

theorem ranks_suffix (n : Nat) (ts : List Token) : (ranks n ts).2 <:+ ts := by
  induction n generalizing ts with
  | zero => exact List.suffix_rfl
  | succ n ih =>
    simp only [ranks]
    split
    · split
      · have hinner := ih (ts.tail.dropWhile (·.kind = .punct .comma)).tail
        have hcommas := List.dropWhile_suffix (l := ts.tail) (·.kind = .punct .comma)
        exact hinner.trans ((List.tail_suffix _).trans (hcommas.trans (List.tail_suffix ts)))
      · exact List.suffix_rfl
    · exact List.suffix_rfl

theorem typeEnding_suffix (isPredefined : Bool) (ts : List Token) :
    (typeEnding isPredefined ts).rest <:+ ts := by
  simp only [typeEnding]
  refine (ranks_suffix _ _).trans ?_
  split
  · exact List.tail_suffix ts
  · exact List.suffix_rfl

/-- A scan that leaves the last of the tokens it is given. -/
def LeavesSuffix (scan : List Token → Option TypeScan) : Prop :=
  ∀ ts s, scan ts = some s → s.rest <:+ ts

theorem LeavesSuffix.typeArguments {scan : List Token → Option TypeScan} (hs : LeavesSuffix scan)
    {n : Nat} {ts rest : List Token} (h : typeArguments scan n ts = some rest) : rest <:+ ts := by
  induction n generalizing ts with
  | zero => simp [Lookahead.typeArguments] at h
  | succ n ih =>
    simp only [Lookahead.typeArguments] at h
    split at h
    · simp at h
    next s hscan =>
      have hrest := hs ts s hscan
      split at h
      · exact (ih h).trans ((List.tail_suffix _).trans hrest)
      · obtain rfl := Option.some.inj h
        exact (List.tail_suffix _).trans hrest
      · simp at h

theorem LeavesSuffix.afterName {scan : List Token → Option TypeScan} (hs : LeavesSuffix scan)
    (ts : List Token) : afterName scan ts <:+ ts := by
  unfold Lookahead.afterName
  split
  · cases h : Lookahead.typeArguments scan ts.length ts.tail with
    | none => exact List.suffix_rfl
    | some rest => exact (hs.typeArguments h).trans (List.tail_suffix ts)
  · exact List.suffix_rfl

theorem LeavesSuffix.dottedRest {scan : List Token → Option TypeScan} (hs : LeavesSuffix scan)
    (n : Nat) (ts : List Token) : dottedRest scan n ts <:+ ts := by
  induction n generalizing ts with
  | zero => exact List.suffix_rfl
  | succ n ih =>
    simp only [Lookahead.dottedRest]
    split
    · exact (ih _).trans ((hs.afterName _).trans (List.drop_suffix 2 ts))
    · exact List.suffix_rfl

theorem type?_suffix (n : Nat) : LeavesSuffix (type? n) := by
  induction n with
  | zero => intro ts s h; simp [type?] at h
  | succ n ih =>
    intro ts s h
    simp only [type?] at h
    split at h
    · obtain rfl := Option.some.inj h
      exact (typeEnding_suffix _ _).trans (List.tail_suffix ts)
    split at h
    · obtain rfl := Option.some.inj h
      have hdots := ih.dottedRest ts.length (afterName (type? n) ts.tail)
      have hname := (ih.afterName ts.tail).trans (List.tail_suffix ts)
      exact (typeEnding_suffix _ _).trans (hdots.trans hname)
    · simp at h

/-! ### More levels -/

/-- A scan that finds at least what another one finds, if that does not end at a `<`. -/
def Extends (scan scan' : List Token → Option TypeScan) : Prop :=
  ∀ ts s, scan ts = some s → kind s.rest ≠ .punct .lessThan → scan' ts = some s

variable {scan scan' : List Token → Option TypeScan}

theorem Extends.typeArguments (h : Extends scan scan') {n : Nat} {ts rest : List Token}
    (hs : typeArguments scan n ts = some rest) : typeArguments scan' n ts = some rest := by
  induction n generalizing ts with
  | zero => simp [Lookahead.typeArguments] at hs
  | succ n ih =>
    simp only [Lookahead.typeArguments] at hs ⊢
    split at hs
    · simp at hs
    next s hscan =>
      split at hs
      next hk =>
        rw [h ts s hscan (by simp [hk])]
        simp only [hk]
        exact ih hs
      next hk =>
        rw [h ts s hscan (by simp [hk])]
        simp only [hk]
        exact hs
      · simp at hs

/-- After a name there is a `<` only where its type arguments did not come through. -/
theorem Extends.afterName (h : Extends scan scan') {ts : List Token}
    (hk : kind (afterName scan ts) ≠ .punct .lessThan) :
    Lookahead.afterName scan' ts = Lookahead.afterName scan ts := by
  unfold Lookahead.afterName at hk ⊢
  split
  next hlt =>
    rw [if_pos hlt] at hk
    cases hs : Lookahead.typeArguments scan ts.length ts.tail with
    | none => exact absurd hlt (by simpa [hs] using hk)
    | some rest => rw [h.typeArguments hs]
  · rfl

theorem dottedRest_of_not {n : Nat} {ts : List Token}
    (h : ¬ ((kind ts = .punct .dot ∨ kind ts = .punct .colonColon) ∧ secondKind ts = .identifier)) :
    dottedRest scan n ts = ts := by
  cases n with
  | zero => rfl
  | succ n => rw [dottedRest, if_neg h]

theorem dottedRest_of_lessThan {n : Nat} {ts : List Token} (hk : kind ts = .punct .lessThan) :
    dottedRest scan n ts = ts :=
  dottedRest_of_not (by simp [hk])

theorem dottedRest_cons {n : Nat} {t u : Token} {ts : List Token}
    (ht : t.kind = .punct .dot ∨ t.kind = .punct .colonColon) (hu : u.kind = .identifier) :
    dottedRest scan (n + 1) (t :: u :: ts) = dottedRest scan n (afterName scan ts) := by
  have h : (kind (t :: u :: ts) = .punct .dot ∨ kind (t :: u :: ts) = .punct .colonColon) ∧
      secondKind (t :: u :: ts) = .identifier :=
    ⟨ht, hu⟩
  rw [dottedRest, if_pos h]
  rfl

theorem Extends.dottedRest (h : Extends scan scan') {n : Nat} {ts : List Token}
    (hk : kind (dottedRest scan n ts) ≠ .punct .lessThan) :
    Lookahead.dottedRest scan' n ts = Lookahead.dottedRest scan n ts := by
  induction n generalizing ts with
  | zero => rfl
  | succ n ih =>
    simp only [Lookahead.dottedRest] at hk ⊢
    split
    next hdot =>
      rw [if_pos hdot] at hk
      have hname : kind (Lookahead.afterName scan (ts.drop 2)) ≠ .punct .lessThan := by
        intro hlt
        rw [dottedRest_of_lessThan hlt] at hk
        exact hk hlt
      rw [h.afterName hname]
      exact ih hk
    · rfl

theorem typeEnding_cons {isPredefined : Bool} {t : Token} {ts : List Token}
    (ht : t.kind = .punct .question) :
    typeEnding isPredefined (t :: ts) =
      ⟨(ranks ts.length ts).2, isPredefined, !(ranks ts.length ts).1⟩ := by
  simp [typeEnding, kind, ht]

theorem typeEnding_of_ne {isPredefined : Bool} {ts : List Token}
    (h : kind ts ≠ .punct .question) :
    typeEnding isPredefined ts = ⟨(ranks ts.length ts).2, isPredefined, false⟩ := by
  simp [typeEnding, h]

theorem typeEnding_of_lessThan {isPredefined : Bool} {ts : List Token}
    (hk : kind ts = .punct .lessThan) : typeEnding isPredefined ts = ⟨ts, isPredefined, false⟩ := by
  have hr : ranks ts.length ts = (false, ts) := by
    cases ts with
    | nil => rfl
    | cons t ts => simp [ranks, hk]
  simp [typeEnding, hk, hr]

theorem type?_extends {m n : Nat} (h : m ≤ n) : Extends (type? m) (type? n) := by
  induction m generalizing n with
  | zero => intro ts s hs; simp [type?] at hs
  | succ m ih =>
    obtain ⟨n, rfl⟩ : ∃ k, n = k + 1 := ⟨n - 1, by omega⟩
    have hext := ih (Nat.le_of_succ_le_succ h)
    intro ts s hs hk
    simp only [type?] at hs ⊢
    split at hs
    next hp => rw [if_pos hp, hs]
    next hp =>
    split at hs
    next hi =>
      rw [if_neg hp, if_pos hi]
      obtain rfl := Option.some.inj hs
      have hdots : kind (dottedRest (type? m) ts.length (afterName (type? m) ts.tail)) ≠
          .punct .lessThan := by
        intro hlt
        rw [typeEnding_of_lessThan hlt] at hk
        exact hk hlt
      have hname : kind (afterName (type? m) ts.tail) ≠ .punct .lessThan := by
        intro hlt
        rw [dottedRest_of_lessThan hlt] at hdots
        exact hdots hlt
      rw [hext.afterName hname, hext.dottedRest hdots]
    · simp at hs

/-! ### Scans that agree -/

/-- Two scans find the same wherever they look in some tokens. -/
def AgreeOn (tokens : List Token) (scan scan' : List Token → Option TypeScan) : Prop :=
  ∀ ts, ts <:+ tokens → scan' ts = scan ts

variable {tokens ts : List Token}

theorem AgreeOn.typeArguments (h : AgreeOn tokens scan scan') (hscan : LeavesSuffix scan) (n : Nat)
    (hts : ts <:+ tokens) :
    Lookahead.typeArguments scan' n ts = Lookahead.typeArguments scan n ts := by
  induction n generalizing ts with
  | zero => rfl
  | succ n ih =>
    simp only [Lookahead.typeArguments, h ts hts]
    cases hs : scan ts with
    | none => rfl
    | some s =>
      have hrest : s.rest.tail <:+ tokens :=
        (List.tail_suffix _).trans ((hscan ts s hs).trans hts)
      dsimp only
      split
      · exact ih hrest
      · rfl
      · rfl

variable {maxDepth maxDepth' : Nat}

/-- Two limits under which looking ahead finds the same types in some tokens. -/
abbrev AgreeOnTypes (tokens : List Token) (maxDepth maxDepth' : Nat) : Prop :=
  AgreeOn tokens (type? (maxDepth + 1)) (type? (maxDepth' + 1))

theorem AgreeOn.startsTypeArguments (h : AgreeOnTypes tokens maxDepth maxDepth')
    (hts : ts <:+ tokens) : startsTypeArguments maxDepth' ts = startsTypeArguments maxDepth ts := by
  have htail := (List.tail_suffix ts).trans hts
  simp only [Lookahead.startsTypeArguments, h.typeArguments (type?_suffix _) _ htail]

theorem AgreeOn.startsCast (h : AgreeOnTypes tokens maxDepth maxDepth') (hts : ts <:+ tokens) :
    startsCast maxDepth' ts = startsCast maxDepth ts := by
  simp only [Lookahead.startsCast, h ts hts]

theorem AgreeOn.startsLocalDeclaration (h : AgreeOnTypes tokens maxDepth maxDepth')
    (hts : ts <:+ tokens) (inAsync : Bool) :
    startsLocalDeclaration maxDepth' inAsync ts = startsLocalDeclaration maxDepth inAsync ts := by
  simp only [Lookahead.startsLocalDeclaration, h ts hts]

end CSharpFront.Lookahead
