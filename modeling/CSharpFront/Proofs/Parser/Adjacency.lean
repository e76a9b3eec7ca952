import CSharpFront.Proofs.Lexer.Words
import CSharpFront.Proofs.Parser.Lookahead
import Mathlib.Data.List.Chain
/-!
What stands next to what in a printed expression. No name stands before another, and an operand
follows wherever a type could end but for a name. So looking ahead finds no query in a printed
expression, and a cast only at a name in parentheses which what follows would turn into one.
-/

namespace CSharpFront

namespace TokenKind

/-- Whether an operand can begin with a token in a printed expression. -/
def beginsOperand (k : TokenKind) : Bool := k.startsExpression && !k.isPredefinedType

/-- Whether a token can come after one that would end a type in a printed expression: that is where
an operand begins, the second half of a right shift, or the end. -/
def goesOn (k : TokenKind) : Bool :=
  k.beginsOperand || k == .punct .greaterThan || k == .punct .greaterThanEquals ||
    k == .endOfFile

/-- What may stand before what in a printed expression. -/
structure Adjacent (a b : TokenKind) : Prop where
  name : a = .identifier → b ≠ .identifier ∧ b.isPredefinedType = false
  ending : a = .punct .greaterThan ∨ a = .punct .question ∨ a = .punct .openBracket →
    b.goesOn = true

/-- Whether a token is part of a dotted name. -/
def isNamePart (k : TokenKind) : Bool :=
  k == .identifier || k == .punct .dot || k == .punct .colonColon

theorem ne_of_goesOn {k l : TokenKind} (h : k.goesOn = true) (hl : l.goesOn = false) : k ≠ l := by
  rintro rfl
  rw [h] at hl
  cases hl

end TokenKind

namespace Lookahead

/-- Tokens of which each may stand before the next one. -/
def Spaced (ts : List Token) : Prop := (ts.map (·.kind)).IsChain TokenKind.Adjacent

variable {ts us : List Token} {n : Nat}

theorem Spaced.suffix (h : Spaced ts) (hs : us <:+ ts) : Spaced us :=
  List.IsChain.suffix h (hs.map _)

theorem Spaced.adjacent {t : Token} (h : Spaced (t :: ts)) (hne : ts ≠ []) :
    t.kind.Adjacent (kind ts) := by
  cases ts with
  | nil => exact absurd rfl hne
  | cons u ts => exact (List.isChain_cons_cons.mp h).1

theorem Spaced.goesOn {t : Token} (h : Spaced (t :: ts))
    (ht : t.kind = .punct .greaterThan ∨ t.kind = .punct .question ∨
      t.kind = .punct .openBracket) : (kind ts).goesOn = true := by
  cases ts with
  | nil => rfl
  | cons u ts => exact (h.adjacent (by simp)).ending ht

theorem Spaced.startsQuery (h : Spaced ts) : startsQuery ts = false := by
  cases ts with
  | nil => rfl
  | cons t ts =>
    rw [Lookahead.startsQuery]
    cases hf : t.isContextual "from" with
    | false => rfl
    | true =>
      have hnext : kind ts ≠ .identifier ∧ (kind ts).isPredefinedType = false := by
        cases ts with
        | nil => exact ⟨by simp [kind], rfl⟩
        | cons u ts => exact (h.adjacent (by simp)).name (Token.kind_of_isContextual hf)
      simp [hnext.1, hnext.2]

/-! ### Where a type ends -/

theorem ranks_of_ne (h : kind ts ≠ .punct .openBracket) : ranks n ts = (false, ts) := by
  cases n with
  | zero => rfl
  | succ n => rw [ranks, if_neg h]

/-- No brackets are empty. -/
theorem Spaced.ranks (h : Spaced ts) : ranks n ts = (false, ts) := by
  cases n with
  | zero => rfl
  | succ n =>
    cases ts with
    | nil => rfl
    | cons t ts =>
      by_cases ht : t.kind = .punct .openBracket
      · have hgo := h.goesOn (.inr (.inr ht))
        have hcomma : kind ts ≠ .punct .comma := TokenKind.ne_of_goesOn hgo rfl
        have hclose : kind ts ≠ .punct .closeBracket := TokenKind.ne_of_goesOn hgo rfl
        have hinner : ts.dropWhile (·.kind = .punct .comma) = ts := by
          cases ts with
          | nil => rfl
          | cons u ts =>
            have hu : u.kind ≠ .punct .comma := hcomma
            rw [List.dropWhile_cons_of_neg (by simpa using hu)]
        simp [Lookahead.ranks, hinner, hclose]
      · exact ranks_of_ne ht

/-- What is passed of a type after its name, if anything, ends where the text goes on. -/
theorem Spaced.typeEnding (h : Spaced ts) (isPredefined : Bool) :
    (typeEnding isPredefined ts).rest = ts ∨
      (kind (typeEnding isPredefined ts).rest).goesOn = true := by
  by_cases hq : kind ts = .punct .question
  · obtain ⟨t, us, rfl, ht⟩ := kind_ne_endOfFile_cons hq (by simp)
    rw [typeEnding_cons ht, (h.suffix (List.suffix_cons t us)).ranks]
    exact .inr (h.goesOn (.inr (.inl ht)))
  · rw [typeEnding_of_ne hq, h.ranks]
    exact .inl rfl

variable {scan : List Token → Option TypeScan}

/-- Type arguments that were found end where the text goes on. -/
theorem Spaced.typeArguments (h : Spaced ts) (hs : LeavesSuffix scan)
    (hscan : typeArguments scan n ts = some us) : (kind us).goesOn = true := by
  induction n generalizing ts with
  | zero => simp [Lookahead.typeArguments] at hscan
  | succ n ih =>
    simp only [Lookahead.typeArguments] at hscan
    split at hscan
    · simp at hscan
    next s hfound =>
      have hrest := h.suffix (hs ts s hfound)
      split at hscan
      next hk => exact ih (hrest.suffix (List.tail_suffix _)) hscan
      next hk =>
        obtain ⟨t, vs, hvs, ht⟩ := kind_ne_endOfFile_cons hk (by simp)
        rw [hvs] at hscan hrest
        obtain rfl := Option.some.inj hscan
        exact hrest.goesOn (.inl ht)
      · simp at hscan

theorem Spaced.afterName (h : Spaced ts) (hs : LeavesSuffix scan) :
    afterName scan ts = ts ∨ (kind (afterName scan ts)).goesOn = true := by
  unfold Lookahead.afterName
  split
  · cases hscan : Lookahead.typeArguments scan ts.length ts.tail with
    | none => exact .inl rfl
    | some us => exact .inr ((h.suffix (List.tail_suffix ts)).typeArguments hs hscan)
  · exact .inl rfl

/-- Some first tokens that are parts of a dotted name. -/
def PassesName (ts us : List Token) : Prop :=
  ∃ name, ts = name ++ us ∧ ∀ t ∈ name, t.kind.isNamePart = true

theorem dottedRest_of_goesOn (h : (kind ts).goesOn = true) : dottedRest scan n ts = ts := by
  refine dottedRest_of_not fun ⟨hdot, _⟩ => ?_
  rcases hdot with hdot | hdot
  · exact TokenKind.ne_of_goesOn h rfl hdot
  · exact TokenKind.ne_of_goesOn h rfl hdot

/-- What is passed of a dotted name are parts of it, unless type arguments ended it. -/
theorem Spaced.dottedRest (h : Spaced ts) (hs : LeavesSuffix scan) :
    PassesName ts (dottedRest scan n ts) ∨ (kind (dottedRest scan n ts)).goesOn = true := by
  induction n generalizing ts with
  | zero => exact .inl ⟨[], rfl, by simp⟩
  | succ n ih =>
    by_cases hdot : (kind ts = .punct .dot ∨ kind ts = .punct .colonColon) ∧
        secondKind ts = .identifier
    · obtain ⟨t, u, vs, rfl, ht, hu⟩ := exists_of_dot hdot.1 hdot.2
      have hvs : Spaced vs := h.suffix (List.suffix_append [t, u] vs)
      rw [dottedRest_cons ht hu]
      rcases hvs.afterName hs with hname | hname
      · rw [hname]
        refine (ih hvs).imp_left fun ⟨name, hn, hparts⟩ => ⟨t :: u :: name, by simp [← hn], ?_⟩
        have htpart : t.kind.isNamePart = true := by
          rcases ht with ht | ht <;> rw [ht] <;> rfl
        have hupart : u.kind.isNamePart = true := by rw [hu]; rfl
        exact List.forall_mem_cons.mpr ⟨htpart, List.forall_mem_cons.mpr ⟨hupart, hparts⟩⟩
      · rw [dottedRest_of_goesOn hname]
        exact .inr hname
    · rw [dottedRest_of_not hdot]
      exact .inl ⟨[], rfl, by simp⟩

/-- A type that was found before a parenthesis that closes is a dotted name. -/
theorem Spaced.passesName_of_type? (h : Spaced ts) (hp : (kind ts).isPredefinedType = false)
    {s : TypeScan} (hscan : type? n ts = some s) (hk : kind s.rest = .punct .closeParen) :
    s.isPredefined = false ∧ PassesName ts s.rest := by
  have hends {us : List Token} (hus : kind us = .punct .closeParen) :
      ¬ (kind us).goesOn = true :=
    fun hgo => TokenKind.ne_of_goesOn hgo rfl hus
  cases n with
  | zero => simp [type?] at hscan
  | succ n =>
    rw [type?, if_neg (by simp [hp])] at hscan
    split at hscan
    next hi =>
      obtain ⟨t, us, rfl, ht⟩ := kind_ne_endOfFile_cons hi (by simp)
      obtain rfl := Option.some.inj hscan
      have hleaves := type?_suffix n
      have hus : Spaced us := h.suffix (List.suffix_cons t us)
      have hspaced := hus.suffix (hleaves.afterName us)
      have hdots := hspaced.dottedRest (n := (t :: us).length) hleaves
      have hpassed := hleaves.dottedRest (t :: us).length (Lookahead.afterName (type? n) us)
      have hdotted := hspaced.suffix hpassed
      have hpart : t.kind.isNamePart = true := by rw [ht]; rfl
      rw [List.tail_cons] at hk ⊢
      -- from the end back: nothing after the name, which has no type arguments
      have hending := (hdotted.typeEnding false).resolve_right (hends hk)
      rw [hending] at hk ⊢
      obtain ⟨name, hn, hparts⟩ := hdots.resolve_right (hends hk)
      have hname := (hus.afterName hleaves).resolve_right fun hgo => by
        rw [dottedRest_of_goesOn hgo] at hk
        exact hends hk hgo
      rw [hname] at hn ⊢
      refine ⟨rfl, t :: name, ?_, List.forall_mem_cons.mpr ⟨hpart, hparts⟩⟩
      rw [List.cons_append, ← hn]
    · simp at hscan

end Lookahead

/-! ### The kinds of words -/

/-- The kinds of the tokens that words are read as. -/
def kindsOf (ws : List Lexeme) : List TokenKind := ws.flatMap (·.kind.pieces)

@[simp] theorem kindsOf_nil : kindsOf [] = [] := rfl

@[simp] theorem kindsOf_cons (w : Lexeme) (ws : List Lexeme) :
    kindsOf (w :: ws) = w.kind.pieces ++ kindsOf ws :=
  rfl

@[simp] theorem kindsOf_append (vs ws : List Lexeme) :
    kindsOf (vs ++ ws) = kindsOf vs ++ kindsOf ws :=
  List.flatMap_append

theorem Operator.joined?_eq_some {t u : Token} {p : Punctuator} (h : joined? t u = some p) :
    t.kind = .punct .greaterThan ∧ (TokenKind.punct p).pieces = [t.kind, u.kind] := by
  unfold joined? at h
  split at h
  next hk =>
    refine ⟨hk.1, ?_⟩
    rw [hk.1]
    split at h
    next hu => obtain rfl := Option.some.inj h; rw [hu]; rfl
    next hu => obtain rfl := Option.some.inj h; rw [hu]; rfl
    · cases h
  · cases h

theorem Written.map_kind {ts : List Token} {ws : List Lexeme} (h : Written ts ws) :
    ts.map (·.kind) = kindsOf ws := by
  induction h with
  | nil => rfl
  | single ht hw _ _ ih => rw [List.map_cons, ih, kindsOf_cons, hw, ht.kind]; rfl
  | joined hp hw _ ih =>
    rw [List.map_cons, List.map_cons, ih, kindsOf_cons, hw, (Operator.joined?_eq_some hp).2]
    rfl

namespace TokenKind

/-- Whether an operand can end with a token in a printed expression. -/
def endsOperand : TokenKind → Bool
  | .identifier | .numericLiteral | .stringLiteral | .characterLiteral => true
  | .punct p =>
    match p with
    | .closeParen | .closeBracket | .plusPlus | .minusMinus => true
    | _ => false
  | .keyword k =>
    match k with
    | .kwTrue | .kwFalse | .kwNull | .kwThis => true
    | _ => false
  | _ => false

/-- An operator or a bracket may stand before an operand. -/
theorem adjacent_of_beginsOperand {q : Punctuator} {b : TokenKind}
    (hb : b.beginsOperand = true) : (punct q).Adjacent b :=
  ⟨nofun, fun _ => by simp [goesOn, hb]⟩

/-- An operator or a bracket may stand after an operand. -/
theorem adjacent_of_endsOperand {a : TokenKind} {q : Punctuator} (ha : a.endsOperand = true) :
    a.Adjacent (punct q) := by
  refine ⟨fun _ => ⟨by simp, rfl⟩, ?_⟩
  rintro (rfl | rfl | rfl) <;> cases ha

/-- The kinds of an operand, or of an expression that is none. -/
structure IsOperand (ks : List TokenKind) : Prop where
  chain : ks.IsChain Adjacent
  head : ∃ k ∈ ks.head?, k.beginsOperand = true
  last : ∃ k ∈ ks.getLast?, k.endsOperand = true

namespace IsOperand

variable {ks ls : List TokenKind} {q : Punctuator}

theorem single {k : TokenKind} (hs : k.beginsOperand = true) (he : k.endsOperand = true) :
    IsOperand [k] :=
  ⟨.singleton k, ⟨k, rfl, hs⟩, ⟨k, rfl, he⟩⟩

/-- A mark before an operand. -/
theorem chain_cons (h : IsOperand ks) (q : Punctuator) : (punct q :: ks).IsChain Adjacent := by
  obtain ⟨k, hk, hs⟩ := h.head
  refine List.isChain_cons.mpr ⟨fun l hl => ?_, h.chain⟩
  obtain rfl := Option.mem_unique hk hl
  exact adjacent_of_beginsOperand hs

theorem cons (h : IsOperand ks) (hq : (punct q).beginsOperand = true) :
    IsOperand (punct q :: ks) := by
  obtain ⟨k, hk, he⟩ := h.last
  exact ⟨h.chain_cons q, ⟨_, rfl, hq⟩, ⟨k, List.mem_getLast?_cons hk, he⟩⟩

/-- What begins with a mark after an operand. -/
theorem append (h : IsOperand ks) (hl : (punct q :: ls).IsChain Adjacent)
    (hlast : ∃ k ∈ (punct q :: ls).getLast?, k.endsOperand = true) :
    IsOperand (ks ++ punct q :: ls) := by
  obtain ⟨k, hk, hs⟩ := h.head
  obtain ⟨l, hl', he⟩ := h.last
  obtain ⟨m, hm, hme⟩ := hlast
  refine ⟨List.isChain_append.mpr ⟨h.chain, hl, ?_⟩, ⟨k, ?_, hs⟩, ⟨m, ?_, hme⟩⟩
  · rintro a ha b ⟨rfl⟩
    obtain rfl := Option.mem_unique hl' ha
    exact adjacent_of_endsOperand he
  · exact List.mem_head?_append_of_mem_head? hk
  · exact List.mem_getLast?_append_of_mem_getLast? hm

/-- A mark at the end of an operand that belongs to it. -/
theorem concat (h : IsOperand ks) (hq : (punct q).endsOperand = true) :
    IsOperand (ks ++ [punct q]) :=
  h.append (.singleton _) ⟨_, rfl, hq⟩

/-- Two operands with an operator between them, which may be a right shift. -/
theorem join (hk : IsOperand ks) (hl : IsOperand ls) (q : Punctuator) :
    IsOperand (ks ++ ((punct q).pieces ++ ls)) := by
  obtain ⟨k, hmem, he⟩ := hl.last
  have hlast (ms : List TokenKind) : ∃ k ∈ (ms ++ ls).getLast?, k.endsOperand = true :=
    ⟨k, List.mem_getLast?_append_of_mem_getLast? hmem, he⟩
  have hshift (r : Punctuator) (hr : (punct r).goesOn = true) :
      (punct .greaterThan :: punct r :: ls).IsChain Adjacent :=
    List.isChain_cons_cons.mpr ⟨⟨nofun, fun _ => hr⟩, hl.chain_cons r⟩
  cases q
  case greaterThanGreaterThan =>
    exact hk.append (hshift .greaterThan rfl) (hlast [_, _])
  case greaterThanGreaterThanEquals =>
    exact hk.append (hshift .greaterThanEquals rfl) (hlast [_, _])
  all_goals exact hk.append (hl.chain_cons _) (hlast [_])

/-- A name after an operator that comes after an operand. -/
theorem access (h : IsOperand ks) (q : Punctuator) :
    IsOperand (ks ++ [punct q, .identifier]) :=
  h.append ((single (k := .identifier) rfl rfl).chain_cons q) ⟨_, rfl, rfl⟩

/-- A pair of brackets after an operand, with something between. -/
theorem brackets (h : IsOperand ks) (hl : IsOperand ls) (p : Punctuator)
    (hq : (punct q).endsOperand = true) : IsOperand (ks ++ punct p :: (ls ++ [punct q])) := by
  have hinner := hl.concat hq
  obtain ⟨k, hmem, he⟩ := hinner.last
  exact h.append (hinner.chain_cons p) ⟨k, List.mem_getLast?_cons hmem, he⟩

end IsOperand

end TokenKind

namespace Expr

open TokenKind

theorem isOperand_argumentWords {a : Expr} {as : List Expr}
    (h : ∀ e ∈ a :: as, IsOperand (kindsOf e.words)) :
    IsOperand (kindsOf (argumentWords (a :: as))) := by
  have hmore (ks : List TokenKind) (hk : IsOperand ks) (as : List Expr)
      (has : ∀ e ∈ as, IsOperand (kindsOf e.words)) : IsOperand (ks ++ kindsOf (moreWords as)) := by
    induction as generalizing ks with
    | nil => simpa using hk
    | cons a as ih =>
      obtain ⟨ha, has⟩ := List.forall_mem_cons.mp has
      have hnext := ih _ (hk.join ha .comma) has
      simpa using hnext
  obtain ⟨ha, has⟩ := List.forall_mem_cons.mp h
  have hall := hmore _ ha as has
  simpa using hall

theorem beginsOperand_of_isPrefixOperator {q : Punctuator}
    (h : Parser.isPrefixOperator (.punct q) = true) :
    (punct q).beginsOperand = true ∧ (punct q).pieces = [punct q] := by
  cases q <;> first | exact ⟨rfl, rfl⟩ | cases h

theorem Printable.isOperand {e : Expr} (h : e.Printable) : IsOperand (kindsOf e.words) := by
  induction h with
  | identifier _ => exact .single rfl rfl
  | @literal l _ =>
    obtain ⟨range, kind, text, flags⟩ := l
    cases kind <;> exact .single rfl rfl
  | thisWord r => exact .single rfl rfl
  | parenthesized r _ ih =>
    simpa [pieces] using (ih.concat (q := .closeParen) rfl).cons (q := .openParen) rfl
  | binary r s _ _ _ _ _ ihl ihe => simpa using ihl.join ihe _
  | assignment r s _ _ _ _ ihl ihe => simpa using ihl.join ihe _
  | conditional r _ _ _ _ ihc iht ihf =>
    simpa using ihc.join (iht.join ihf .colon) .question
  | prefixUnary r s hq _ _ ih =>
    obtain ⟨hstarts, hpieces⟩ := beginsOperand_of_isPrefixOperator hq
    simpa [hpieces] using ih.cons hstarts
  | postfixUnary r s hq _ _ ih =>
    rcases hq with rfl | rfl
    · simpa [pieces] using ih.concat (q := .plusPlus) rfl
    · simpa [pieces] using ih.concat (q := .minusMinus) rfl
  | memberAccess r s hq _ hi _ ih =>
    rcases hq with rfl | rfl
    · simpa [pieces] using ih.access .dot
    · simpa [pieces] using ih.access .questionDot
  | @invocation r e as _ _ _ _ ih ihas =>
    cases as with
    | nil =>
      have hparens : [punct .openParen, punct .closeParen].IsChain Adjacent :=
        List.isChain_pair.mpr ⟨nofun, by simp⟩
      simpa [pieces] using ih.append hparens ⟨_, rfl, rfl⟩
    | cons a as =>
      have hargs := isOperand_argumentWords ihas
      simpa [pieces] using
        ih.brackets hargs .openParen (q := .closeParen) rfl
  | @elementAccess r e as _ _ hne _ ih ihas =>
    cases as with
    | nil => exact absurd rfl hne
    | cons a as =>
      have hargs := isOperand_argumentWords ihas
      simpa [pieces] using
        ih.brackets hargs .openBracket (q := .closeBracket) rfl

/-! ### Names in parentheses -/

/-- The first token that is no part of a dotted name. -/
def firstMark (ks : List TokenKind) : Option TokenKind := ks.find? (!·.isNamePart)

theorem firstMark_append (ks ls : List TokenKind) :
    firstMark (ks ++ ls) = (firstMark ks).or (firstMark ls) :=
  List.find?_append

/-- A mark ends a dotted name, and it is no parenthesis that closes. -/
def Marks (ks : List TokenKind) : Prop :=
  ∃ k, firstMark ks = some k ∧ k ≠ .punct .closeParen

/-- An operand before an operator is a dotted name, or it has a mark of its own. -/
theorem marks_append {ks : List TokenKind} {q : Punctuator} (h : firstMark ks = none ∨ Marks ks)
    (hq : q ≠ .dot ∧ q ≠ .colonColon ∧ q ≠ .closeParen) (ls : List TokenKind) :
    Marks (ks ++ ((punct q).pieces ++ ls)) := by
  have hfirst : Marks ((punct q).pieces ++ ls) := by
    obtain ⟨hdot, hcolons, hclose⟩ := hq
    cases q
    case dot | colonColon | closeParen => contradiction
    all_goals exact ⟨_, rfl, by simp⟩
  rcases h with h | ⟨k, hk, hne⟩
  · rwa [Marks, firstMark_append, h, Option.none_or]
  · exact ⟨k, by rw [firstMark_append, hk, Option.some_or], hne⟩

/-- What is no dotted name has a mark. -/
theorem Printable.marks {e : Expr} (h : e.Printable) :
    (e.isDottedName = true ∧ firstMark (kindsOf e.words) = none) ∨
      Marks (kindsOf e.words) := by
  induction h with
  | identifier _ => exact .inl ⟨rfl, rfl⟩
  | @literal l _ =>
    obtain ⟨range, kind, text, flags⟩ := l
    cases kind <;> exact .inr ⟨_, rfl, nofun⟩
  | thisWord r => exact .inr ⟨_, rfl, nofun⟩
  | parenthesized r _ _ => exact .inr ⟨_, rfl, nofun⟩
  | @binary r s l e q p hq _ _ _ _ ihl _ =>
    have hmark : q ≠ .dot ∧ q ≠ .colonColon ∧ q ≠ .closeParen := by
      refine ⟨?_, ?_, ?_⟩ <;> (rintro rfl; cases hq)
    have hl := marks_append (ihl.imp_left And.right) hmark (kindsOf e.words)
    exact .inr (by simpa using hl)
  | @assignment r s l e q hq _ _ _ ihl _ =>
    have hmark : q ≠ .dot ∧ q ≠ .colonColon ∧ q ≠ .closeParen := by
      refine ⟨?_, ?_, ?_⟩ <;> (rintro rfl; cases hq)
    have hl := marks_append (ihl.imp_left And.right) hmark (kindsOf e.words)
    exact .inr (by simpa using hl)
  | @conditional r c t f _ _ _ _ ihc _ _ =>
    have hc := marks_append (q := .question) (ihc.imp_left And.right) (by simp)
      (kindsOf (t.words ++ .mark .colon :: f.words))
    exact .inr (by simpa using hc)
  | @prefixUnary r s e q hq _ _ _ =>
    have hmark : q ≠ .dot ∧ q ≠ .colonColon ∧ q ≠ .closeParen := by
      refine ⟨?_, ?_, ?_⟩ <;> (rintro rfl; cases hq)
    have hl : Marks ([] ++ ((punct q).pieces ++ kindsOf e.words)) :=
      marks_append (.inl rfl) hmark _
    exact .inr (by simpa using hl)
  | @postfixUnary r s e q hq _ _ ih =>
    have hmark : q ≠ .dot ∧ q ≠ .colonColon ∧ q ≠ .closeParen := by
      rcases hq with rfl | rfl <;> simp
    have hl := marks_append (ih.imp_left And.right) hmark []
    exact .inr (by simpa using hl)
  | @memberAccess r s e i q hq _ hi _ ih =>
    rcases hq with rfl | rfl
    · rcases ih with ⟨hname, hnone⟩ | ⟨k, hk, hne⟩
      · refine .inl ⟨by simp [isDottedName, hname], ?_⟩
        simp [firstMark_append, hnone]
        decide
      · exact .inr ⟨k, by simp [firstMark_append, hk], hne⟩
    · have he := marks_append (q := .questionDot) (ih.imp_left And.right) (by simp) [.identifier]
      exact .inr (by simpa [pieces] using he)
  | @invocation r e as _ _ _ _ ih _ =>
    have he := marks_append (q := .openParen) (ih.imp_left And.right) (by simp)
      (kindsOf (argumentWords as ++ [.mark .closeParen]))
    exact .inr (by simpa using he)
  | @elementAccess r e as _ _ _ _ ih _ =>
    have he := marks_append (q := .openBracket) (ih.imp_left And.right) (by simp)
      (kindsOf (argumentWords as ++ [.mark .closeBracket]))
    exact .inr (by simpa using he)

/-- After a parenthesis that opens an expression no cast begins, unless a name in parentheses comes
before what a cast is made from. -/
theorem Printable.startsCast {e : Expr} (h : e.Printable) {ts : List Token} {ks : List TokenKind}
    (hts : ts.map (·.kind) = kindsOf e.words ++ punct .closeParen :: ks)
    (hs : Lookahead.Spaced ts)
    (hks : e.isDottedName = true → (ks.headD .endOfFile).followsCast = false) (maxDepth : Nat) :
    Lookahead.startsCast maxDepth ts = false := by
  have hkind (ts : List Token) : Lookahead.kind ts = (ts.map (·.kind)).headD .endOfFile := by
    cases ts <;> rfl
  have hpredefined : (Lookahead.kind ts).isPredefinedType = false := by
    obtain ⟨k, hk, hbegins⟩ := h.isOperand.head
    obtain ⟨rest, hrest⟩ := List.head?_eq_some_iff.mp hk
    rw [hkind, hts, hrest]
    exact (by simpa [beginsOperand] using hbegins : _ ∧ _).2
  unfold Lookahead.startsCast
  cases hscan : Lookahead.type? (maxDepth + 1) ts with
  | none => rfl
  | some s =>
    by_cases hclose : Lookahead.kind s.rest = .punct .closeParen
    · obtain ⟨hpre, name, hname, hparts⟩ := hs.passesName_of_type? hpredefined hscan hclose
      obtain ⟨t, us, hrest, ht⟩ := Lookahead.kind_ne_endOfFile_cons hclose (by simp)
      have hparts' : ∀ k ∈ name.map (·.kind), k.isNamePart = true := by simpa using hparts
      have hsplit : name.map (·.kind) ++ punct .closeParen :: us.map (·.kind) =
          kindsOf e.words ++ punct .closeParen :: ks := by
        rw [← hts, hname, hrest, List.map_append, List.map_cons, ht]
      rcases h.marks with ⟨hdotted, hnone⟩ | ⟨k, hk, hne⟩
      · -- both are the name up to its end
        have hwords : ∀ k ∈ kindsOf e.words, k.isNamePart = true := by
          simpa [firstMark, List.find?_eq_none] using hnone
        have hdrop := congrArg (List.dropWhile isNamePart) hsplit
        rw [List.dropWhile_append_of_pos hparts', List.dropWhile_append_of_pos hwords] at hdrop
        have hus : us.map (·.kind) = ks := (List.cons.inj hdrop).2
        have hsecond : Lookahead.secondKind s.rest = ks.headD .endOfFile := by
          rw [Lookahead.secondKind, hrest, List.tail_cons, hkind, hus]
        simp only [hclose, hpre, hsecond, hks hdotted]
        rfl
      · -- the end of the name would be the mark
        have hnone : firstMark (name.map (·.kind)) = none := by
          simpa [firstMark, List.find?_eq_none] using hparts
        have hmark := congrArg firstMark hsplit
        rw [firstMark_append, firstMark_append, hnone, hk] at hmark
        exact absurd (Option.some.inj hmark).symm hne
    · simp [hclose]

end Expr

end CSharpFront
