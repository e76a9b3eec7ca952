import CSharpFront.Compilation
import CSharpFront.Proofs.Binding.Constants
import CSharpFront.Proofs.Lexer.Words
/-!
A class whose one method has one variable, of an integral type and with an integer as its value: its
text is compiled without a report unless the integer is one of those that do not fit.
-/

namespace CSharpFront

/-- The text of the class. -/
def SpecialType.localText (s : SpecialType) (n : Int) : String :=
  "class C \x7b void M() \x7b " ++ s.text ++ " x = " ++ toString n ++ "; \x7d \x7d"

/-! ### Scanning -/

namespace Lexeme

theorem isWord_class : (spelling (.keyword .kwClass)).IsWord :=
  ⟨Gap.beginsNone_of_isIdentifierStart (c := 'c') (by decide +kernel), by decide +kernel, rfl, rfl⟩

theorem read?_openParen_append (cs : List Char) : read? ('(' :: cs) = some (mark .openParen) := by
  rw [read?_eq_punctuation? (by decide) (by decide) (by decide) (Bool.or_false _)]
  rfl

theorem read?_closeParen_append (cs : List Char) : read? (')' :: cs) = some (mark .closeParen) := by
  rw [read?_eq_punctuation? (by decide) (by decide) (by decide) (Bool.or_false _)]
  rfl

theorem read?_minus_append {c : Char} (hc : Text.isDigit c = true) (cs : List Char) :
    read? ('-' :: c :: cs) = some (mark .minus) := by
  have hminus : c ≠ '-' := by rintro rfl; exact absurd hc (by decide)
  have hequals : c ≠ '=' := by rintro rfl; exact absurd hc (by decide)
  have hfind : punctuators.find? (beginsWith ('-' :: c :: cs)) = some .minus := by
    have hm : ('-' == c) = false := beq_false_of_ne hminus.symm
    have he : ('=' == c) = false := beq_false_of_ne hequals.symm
    have hq : (Punctuator.minus == Punctuator.questionDot) = false := rfl
    simp [punctuators, List.find?, beginsWith, Punctuator.text, List.isPrefixOf, hm, he, hq]
  rw [read?_eq_punctuation? (by decide) (by decide) (by decide) (Bool.or_false _), punctuation?,
    hfind]
  rfl

theorem takeWhile_digits {ds : List Char} (hds : ∀ d ∈ ds, Text.isDigit d = true) (cs : List Char) :
    (ds ++ ';' :: cs).takeWhile Text.isDigitOrSeparator = ds := by
  have hall : ∀ d ∈ ds, Text.isDigitOrSeparator d = true := by
    intro d hd
    rw [Text.isDigitOrSeparator, hds d hd, Bool.true_or]
  rw [List.takeWhile_append_of_pos hall, List.takeWhile_cons]
  simp [Text.isDigitOrSeparator, Text.isDigit]

/-- The digits of a number are read up to a semicolon. -/
theorem read?_digits_append {ds : List Char} (hne : ds ≠ [])
    (hds : ∀ d ∈ ds, Text.isDigit d = true) (cs : List Char) :
    read? (ds ++ ';' :: cs) = some ⟨.numericLiteral, ds, {}, []⟩ := by
  cases ds with
  | nil => exact absurd rfl hne
  | cons c ds =>
    obtain ⟨hc, hds⟩ := List.forall_mem_cons.mp hds
    have hother {d : Char} (hd : Text.isDigit d = false) : c ≠ d := by
      rintro rfl
      rw [hc] at hd
      cases hd
    have hread : read? (c :: (ds ++ ';' :: cs)) = some (number c (ds ++ ';' :: cs)) := by
      simp [read?, hc, hother (d := '"') rfl, hother (d := '\'') rfl, hother (d := '@') rfl]
    have hdecimal : decimalNumber (c :: ds) (';' :: cs) = ⟨.numericLiteral, c :: ds, {}, []⟩ := by
      have hexponent : exponent (';' :: cs) = ([], []) := by cases cs <;> simp [exponent]
      have hsuffix : integerSuffix (';' :: cs) = [] := by
        cases cs <;> simp [integerSuffix, isUnsignedSuffix, isLongSuffix]
      simp [decimalNumber, fraction, hexponent, hsuffix, isRealSuffix]
    have hwhole := takeWhile_digits hds cs
    have hnumber : number c (ds ++ ';' :: cs) = decimalNumber (c :: ds) (';' :: cs) := by
      cases ds with
      | nil => simp [number, hother (d := '.') rfl, Text.isDigitOrSeparator, Text.isDigit]
      | cons x ds =>
        have hx := hds x List.mem_cons_self
        have hmark {d : Char} (hd : Text.isDigit d = false) : x ≠ d := by
          rintro rfl
          rw [hx] at hd
          cases hd
        rw [List.cons_append] at hwhole ⊢
        simp [number, hother (d := '.') rfl, hmark (d := 'x') rfl, hmark (d := 'X') rfl,
          hmark (d := 'b') rfl, hmark (d := 'B') rfl, hwhole]
    rw [List.cons_append, hread, hnumber, hdecimal]

end Lexeme

theorem Gap.beginsNone_of_isDigit {c : Char} (hc : Text.isDigit c = true) (cs : List Char) :
    BeginsNone (c :: cs) := by
  have hdigits : ∀ n ∈ List.range' 48 10,
      Text.isLineEnd (Char.ofNat n) = false ∧ Text.isBlank (Char.ofNat n) = false := by
    decide +kernel
  have hrange := hc
  simp only [Text.isDigit, Char.le_def, UInt32.le_iff_toNat_le, Bool.and_eq_true,
    decide_eq_true_eq] at hrange
  have hlow : 48 ≤ c.toNat := hrange.1
  have hhigh : c.toNat ≤ 57 := hrange.2
  have hn := hdigits c.toNat (by rw [List.mem_range'_1]; omega)
  rw [Char.ofNat_toNat] at hn
  refine beginsNone_cons hn.1 hn.2 ?_ cs
  rintro rfl
  cases hc

namespace SpecialType

open Lexeme (mark spelling)

/-- The lexemes of an integer in decimal digits. -/
def integerWords : Int → List Lexeme
  | .ofNat n => [⟨.numericLiteral, Text.decimal n, {}, []⟩]
  | .negSucc n => [mark .minus, ⟨.numericLiteral, Text.decimal n.succ, {}, []⟩]

/-- The lexemes of the text. -/
def localWords (s : SpecialType) (n : Int) : List Lexeme :=
  [spelling (.keyword .kwClass), ⟨.identifier, ['C'], {}, []⟩, mark .openBrace,
    spelling (.keyword .kwVoid), ⟨.identifier, ['M'], {}, []⟩, mark .openParen, mark .closeParen,
    mark .openBrace, spelling (.keyword s.keyword), ⟨.identifier, ['x'], {}, []⟩, mark .equals] ++
    integerWords n ++ [mark .semicolon, mark .closeBrace, mark .closeBrace]

theorem toList_toString_negSucc (n : Nat) :
    (toString (Int.negSucc n)).toList = '-' :: Text.decimal n.succ := by
  have happend (t : String) : ("-" ++ t).toList = '-' :: t.toList := by simp
  exact (happend n.succ.repr).trans (congrArg _ (Text.toList_repr n.succ))

/-- The lexemes of an integer before a semicolon. -/
theorem lexes_integer (n : Int) {cs : List Char} {ws : List Lexeme}
    (h : Scanner.Lexes (';' :: cs) ws) :
    Scanner.Lexes ((toString n).toList ++ ';' :: cs) (integerWords n ++ ws) := by
  have hdigits (m : Nat) : Scanner.Lexes (Text.decimal m ++ ';' :: cs)
      (⟨.numericLiteral, Text.decimal m, {}, []⟩ :: ws) := by
    have hall : ∀ c ∈ Text.decimal m, Text.isDigit c = true := fun c => Text.isDigit_of_mem_decimal
    have hread := Lexeme.read?_digits_append Nat.toDigits_ne_nil hall cs
    refine .lexeme (w := ⟨.numericLiteral, Text.decimal m, {}, []⟩) ?_ hread rfl h
    cases hm : Text.decimal m with
    | nil => exact absurd hm Nat.toDigits_ne_nil
    | cons c ds => exact Gap.beginsNone_of_isDigit (hall c (hm ▸ List.mem_cons_self)) _
  cases n with
  | ofNat m =>
    rw [show toString (Int.ofNat m) = m.repr from rfl, Text.toList_repr]
    exact hdigits m
  | negSucc m =>
    rw [toList_toString_negSucc]
    refine .touching (c := '-') rfl (by decide) rfl ?_ (hdigits m.succ)
    cases hm : Text.decimal m.succ with
    | nil => exact absurd hm Nat.toDigits_ne_nil
    | cons c ds =>
      have hc : c ∈ Text.decimal m.succ := hm ▸ List.mem_cons_self
      exact Lexeme.read?_minus_append (Text.isDigit_of_mem_decimal hc) _

theorem toList_localText (s : SpecialType) (n : Int) : (s.localText n).toList =
    "class C \x7b void M() \x7b ".toList ++ (s.text.toList ++ (" x = ".toList ++
      ((toString n).toList ++ "; \x7d \x7d".toList))) := by
  have happend (a b c d e : String) : (a ++ b ++ c ++ d ++ e).toList =
      a.toList ++ (b.toList ++ (c.toList ++ (d.toList ++ e.toList))) := by
    simp
  exact happend _ _ _ _ _

theorem lexes_localText (s : SpecialType) (n : Int) :
    Scanner.Lexes (s.localText n).toList (s.localWords n) := by
  have hlast : Scanner.Lexes ['}'] [mark .closeBrace] :=
    .touching rfl (by decide) rfl (Lexeme.isWord_mark (p := .closeBrace) rfl).read .nil
  have hends : Scanner.Lexes (';' :: ' ' :: '}' :: ' ' :: ['}'])
      [mark .semicolon, mark .closeBrace, mark .closeBrace] :=
    .mark (p := .semicolon) rfl rfl (.mark (p := .closeBrace) rfl rfl hlast)
  have hlocal := Scanner.Lexes.word (Lexeme.isWord_keyword s)
    (.word (Lexeme.isWord_letter (c := 'x') (by decide +kernel) (by decide +kernel))
      (.mark (p := .equals) (c := '=') rfl rfl (lexes_integer n hends)))
  have hbody := Scanner.Lexes.touching (p := .openParen) (c := '(') rfl (by decide) rfl
    (Lexeme.read?_openParen_append _)
    (.touching (p := .closeParen) (c := ')') rfl (by decide) rfl (Lexeme.read?_closeParen_append _)
      (.blank (.mark (p := .openBrace) (c := '{') rfl rfl hlocal)))
  have hname := Scanner.Lexes.lexeme (w := ⟨.identifier, ['M'], {}, []⟩)
    (Gap.beginsNone_of_isIdentifierStart (by decide +kernel))
    (Lexeme.read?_letter_append (by decide +kernel) (by decide +kernel) (by decide +kernel) _) rfl
    hbody
  have hvoid : (spelling (.keyword .kwVoid)).IsWord := Lexeme.isWord_keyword .void
  have hclass := Scanner.Lexes.word Lexeme.isWord_class
    (.word (Lexeme.isWord_letter (c := 'C') (by decide +kernel) (by decide +kernel))
      (.mark (p := .openBrace) (c := '{') rfl rfl (.word hvoid hname)))
  have hkeyword (k : Keyword) : (spelling (.keyword k)).text = k.text.toList := rfl
  rw [hkeyword, hkeyword, hkeyword] at hclass
  rw [toList_localText, localWords, text]
  generalize (toString n).toList = digits at *
  generalize s.keyword.text.toList = type at *
  simpa [Keyword.text] using hclass

end SpecialType

/-! ### Parsing -/

/-- The tokens of some lexemes, which stand anywhere. -/
def Lexeme.tokens (r : Nat → Range) : List Lexeme → List Token
  | [] => []
  | w :: ws => ⟨w.kind, r 0, Scanner.tokenText w, w.flags⟩ :: tokens (r ∘ Nat.succ) ws

theorem Lexeme.exists_eq_tokens {ts : List Token} {ws : List Lexeme}
    (h : List.Forall₂ Token.Spells ts ws) : ∃ r, ts = tokens r ws := by
  induction h with
  | nil => exact ⟨fun _ => .emptyAt 0, rfl⟩
  | @cons t w ts ws ht _ ih =>
    obtain ⟨r, rfl⟩ := ih
    refine ⟨fun i => i.casesOn t.range r, List.cons_eq_cons.mpr ⟨?_, rfl⟩⟩
    exact Token.ext ht.kind rfl ht.text ht.flags

/-- The tokens of the class around those of the number, wherever they stand. The spelling of a
reserved word or of punctuation is of no account. -/
def localTokens (r : Nat → Range) (t : Nat → String) (type : Keyword) (value : List Token) :
    List Token :=
  [⟨.keyword .kwClass, r 0, t 0, {}⟩, ⟨.identifier, r 1, "C", {}⟩,
    ⟨.punct .openBrace, r 2, t 2, {}⟩, ⟨.keyword .kwVoid, r 3, t 3, {}⟩,
    ⟨.identifier, r 4, "M", {}⟩, ⟨.punct .openParen, r 5, t 5, {}⟩,
    ⟨.punct .closeParen, r 6, t 6, {}⟩, ⟨.punct .openBrace, r 7, t 7, {}⟩,
    ⟨.keyword type, r 8, t 8, {}⟩, ⟨.identifier, r 9, "x", {}⟩, ⟨.punct .equals, r 10, t 10, {}⟩] ++
  value ++ [⟨.punct .semicolon, r 13, t 13, {}⟩, ⟨.punct .closeBrace, r 14, t 14, {}⟩,
    ⟨.punct .closeBrace, r 15, t 15, {}⟩]

/-- The tokens of a number. -/
def integerTokens (r : Nat → Range) (t : Nat → String) : Int → List Token
  | .ofNat n => [⟨.numericLiteral, r 11, n.repr, {}⟩]
  | .negSucc n => [⟨.punct .minus, r 11, t 11, {}⟩, ⟨.numericLiteral, r 12, n.succ.repr, {}⟩]

theorem exists_eq_localTokens {ts : List Token} {s : SpecialType} {n : Int}
    (h : List.Forall₂ Token.Spells ts (s.localWords n)) :
    ∃ r t, ts = localTokens r t s.keyword (integerTokens r t n) := by
  obtain ⟨r, rfl⟩ := Lexeme.exists_eq_tokens h
  cases n with
  | ofNat m =>
    refine ⟨fun i => r (if i < 12 then i else i - 1), fun i => Scanner.tokenText
      ((s.localWords (.ofNat m))[if i < 12 then i else i - 1]?.getD (Lexeme.mark .dot)), ?_⟩
    simp only [integerTokens, Nat.repr_eq_ofList_toDigits]
    rfl
  | negSucc m =>
    refine ⟨r, fun i => Scanner.tokenText
      ((s.localWords (.negSucc m))[i]?.getD (Lexeme.mark .dot)), ?_⟩
    simp only [integerTokens, Nat.repr_eq_ofList_toDigits]
    rfl

/-- The tree of the class with the value of its variable, wherever its parts stand. -/
inductive IsLocalUnit (s : SpecialType) (e : Expr) : CompilationUnit → Prop
  | mk (r₀ r₁ r₂ r₃ r₄ r₅ r₆ r₇ r₈ r₉ r₁₀ r₁₁ : Range)
      (openBrace closeBrace semicolon last : Leaf) :
    IsLocalUnit s e ⟨r₀, [], [.typeMember ⟨r₁, false, [], ⟨"C", r₂, false, false⟩,
      [.method ⟨r₃, [], some (.predefined r₄ .void), ⟨"M", r₅, false, false⟩, [],
        some ⟨r₆, openBrace, [.localDeclaration r₇ [] ⟨r₈, .predefined r₉ s,
          [⟨r₁₀, ⟨"x", r₁₁, false, false⟩, some e⟩]⟩ semicolon], closeBrace⟩⟩]⟩], last⟩

namespace Parser

section Evaluation

variable {s : SpecialType} (hs : s.isIntegral = true) (r : Nat → Range) (t : Nat → String)
  (spelling : String) (last : Range) (text : String) (flags : TokenFlags)

include hs

set_option maxRecDepth 10000 in
theorem isLocalUnit_of_digits :
    ∃ u, (parseUnit ⟨localTokens r t s.keyword [⟨.numericLiteral, r 11, spelling, {}⟩],
      ⟨.endOfFile, last, text, flags⟩⟩ maxParseDepth #[] none).1 = .ok u ∧
        IsLocalUnit s (.literal ⟨r 11, .numeric, spelling, {}⟩) u := by
  cases s <;> cases hs
  all_goals
    simp only [localTokens, List.cons_append, List.nil_append, SpecialType.keyword]
    exact ⟨_, rfl, .mk ..⟩

set_option maxRecDepth 10000 in
theorem isLocalUnit_of_minus :
    ∃ u q, (parseUnit ⟨localTokens r t s.keyword [⟨.punct .minus, r 11, t 11, {}⟩,
      ⟨.numericLiteral, r 12, spelling, {}⟩], ⟨.endOfFile, last, text, flags⟩⟩
      maxParseDepth #[] none).1 = .ok u ∧ IsLocalUnit s (.prefixUnary q ⟨.punct .minus, r 11, false⟩
        (.literal ⟨r 12, .numeric, spelling, {}⟩)) u := by
  cases s <;> cases hs
  all_goals
    simp only [localTokens, List.cons_append, List.nil_append, SpecialType.keyword]
    exact ⟨_, _, rfl, .mk ..⟩

set_option maxRecDepth 10000 in
theorem calm_of_digits :
    let parsed := parseUnit ⟨localTokens r t s.keyword [⟨.numericLiteral, r 11, spelling, {}⟩],
      ⟨.endOfFile, last, text, flags⟩⟩ maxParseDepth #[] none
    parsed.2.diagnostics = #[] ∧ parsed.2.polls = none := by
  cases s <;> cases hs
  all_goals
    simp only [localTokens, List.cons_append, List.nil_append, SpecialType.keyword]
    exact ⟨rfl, rfl⟩

set_option maxRecDepth 10000 in
theorem calm_of_minus :
    let parsed := parseUnit ⟨localTokens r t s.keyword [⟨.punct .minus, r 11, t 11, {}⟩,
      ⟨.numericLiteral, r 12, spelling, {}⟩], ⟨.endOfFile, last, text, flags⟩⟩ maxParseDepth #[]
      none
    parsed.2.diagnostics = #[] ∧ parsed.2.polls = none := by
  cases s <;> cases hs
  all_goals
    simp only [localTokens, List.cons_append, List.nil_append, SpecialType.keyword]
    exact ⟨rfl, rfl⟩

end Evaluation

theorem exists_isLocalUnit {stream : TokenStream} {s : SpecialType} {n : Int}
    (hs : s.isIntegral = true) (hlast : stream.endOfFile.kind = .endOfFile)
    (h : List.Forall₂ Token.Spells stream.tokens (s.localWords n)) :
    ∃ u e t, parseUnit stream maxParseDepth #[] none = (.ok u, t) ∧ t.diagnostics = #[] ∧
      t.polls = none ∧ IsLocalUnit s e u ∧ e.Writes n := by
  obtain ⟨tokens, ⟨kind, last, text, flags⟩⟩ := stream
  obtain rfl : kind = .endOfFile := hlast
  obtain ⟨r, t, rfl : tokens = _⟩ := exists_eq_localTokens h
  cases n with
  | ofNat m =>
    obtain ⟨u, hok, hu⟩ := isLocalUnit_of_digits hs r t m.repr last text flags
    obtain ⟨hreports, hpolls⟩ := calm_of_digits hs r t m.repr last text flags
    rw [integerTokens]
    generalize parseUnit _ _ _ _ = parsed at hok hreports hpolls ⊢
    exact ⟨u, _, parsed.2, Prod.ext hok rfl, hreports, hpolls, hu, .digits _ m rfl⟩
  | negSucc m =>
    obtain ⟨u, q, hok, hu⟩ := isLocalUnit_of_minus hs r t m.succ.repr last text flags
    obtain ⟨hreports, hpolls⟩ := calm_of_minus hs r t m.succ.repr last text flags
    rw [integerTokens]
    generalize parseUnit _ _ _ _ = parsed at hok hreports hpolls ⊢
    exact ⟨u, _, parsed.2, Prod.ext hok rfl, hreports, hpolls, hu, .negated _ _ _ m rfl⟩

end Parser

/-! ### Binding -/

namespace Binding

/-- All that is bound in the class is the value of its variable. -/
theorem exists_bindUnit_isLocalUnit {s : SpecialType} {e : Expr} {u : CompilationUnit}
    (h : IsLocalUnit s e u) : ∃ ds c st, c.conversions = [] ∧ st.diagnostics = #[] ∧
      bindUnit u #[] none = (.ok (), none, ⟨ds, (initialValue c (.special s) e st).2⟩) := by
  cases h
  exact ⟨_, _, _, rfl, rfl, rfl⟩

end Binding

theorem Flow.unit_isLocalUnit {s : SpecialType} {e : Expr} {u : CompilationUnit}
    (h : IsLocalUnit s e u) (c : Flow.Context) (diagnostics : Array Diagnostic) :
    Flow.unit c u diagnostics = diagnostics := by
  cases h
  rfl

/-! ### Compiling -/

theorem scan_localText (s : SpecialType) (n : Int) :
    ∃ stream, scan (s.localText n) = (stream, #[]) ∧ stream.endOfFile.kind = .endOfFile ∧
      List.Forall₂ Token.Spells stream.tokens (s.localWords n) := by
  obtain ⟨ts, last, hrun, hlast, hts⟩ := (s.lexes_localText n).exists_run 0
  exact ⟨⟨ts, last⟩, hrun #[] #[], hlast, hts⟩

/-- A variable of an integral type takes a value of the type without a report, unless the value is
one of those that do not fit: the least values of `int` and `long`, and what of `ulong` is of type
`long`. -/
theorem compileText_localText {s : SpecialType} {n : Int} (h : s.holds n = true) :
    ∃ bag, compileText (s.localText n) maxParseDepth none = .ok bag ∧
      (bag = [] ↔ s.misfits n = false) := by
  obtain ⟨stream, hscan, hlast, hwords⟩ := scan_localText s n
  obtain ⟨u, e, t, hparse, hreports, hpolls, hu, hwrites⟩ :=
    Parser.exists_isLocalUnit (SpecialType.isIntegral_of_holds h) hlast hwords
  obtain ⟨ds, c, st, hconversions, hst, hbind⟩ := Binding.exists_bindUnit_isLocalUnit hu
  obtain ⟨st', complaint?, hrun, hcomplaint, hnone⟩ :=
    Binding.initialValue_writes hwrites h hconversions st
  rw [hrun] at hbind
  refine ⟨complaint?.toList, ?_, ?_⟩
  · simp only [compileText, hscan, hparse, hreports, hpolls, hbind, Flow.unit_isLocalUnit hu,
      hcomplaint, hst]
    cases complaint? <;> rfl
  · cases hfits : s.misfits n <;> cases complaint? <;> simp_all

/-- Values at the ends of their types. -/
theorem compileText_localText_ends :
    (SpecialType.sbyte.holds (-128) = true ∧
      ∃ bag, compileText (SpecialType.sbyte.localText (-128)) maxParseDepth none = .ok bag ∧
        (bag = [] ↔ SpecialType.sbyte.misfits (-128) = false)) ∧
    (SpecialType.ulong.holds 18446744073709551615 = true ∧
      ∃ bag, compileText (SpecialType.ulong.localText 18446744073709551615) maxParseDepth none =
        .ok bag ∧ (bag = [] ↔ SpecialType.ulong.misfits 18446744073709551615 = false)) :=
  ⟨⟨by decide, compileText_localText (by decide)⟩, by decide, compileText_localText (by decide)⟩

/-- The least value of `int` is not assigned to an `int`. -/
theorem compileText_leastInt :
    SpecialType.int.localText (-2147483648) = "class C { void M() { int x = -2147483648; } }" ∧
      SpecialType.int.holds (-2147483648) = true ∧
      compileText "class C { void M() { int x = -2147483648; } }" maxParseDepth none =
        .ok [.of .onlyExplicitConversion ⟨29, 11⟩ ["long", "int"]] := by
  rw [compileText, scan_ofList]
  decide +kernel

end CSharpFront
