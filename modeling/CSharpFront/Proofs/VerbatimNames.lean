import CSharpFront.Lexer.Scanner
import CSharpFront.Proofs.Parser.RespellsDeclarations
import CSharpFront.Proofs.Lexer.Scan
/-!
Names written with `@` have no meaning for the parser. Whatever such names are spelled like, the
parser reports the same, and the trees differ in the texts of these names alone. One spelling is an
exception: where an async method or a whole program might go on with a declaration, `@await` is
taken for the word without the `@`.
-/

namespace CSharpFront

/-- Whether a token is an identifier written with `@`. -/
def Token.isVerbatimName (t : Token) : Bool := t.kind == .identifier && t.flags.verbatim

/-- A token with another spelling, if it is an identifier written with `@`. -/
def Token.respelled (t : Token) (w : String) : Token :=
  if t.isVerbatimName then { t with text := w } else t

/-- The tokens with a spelling for each of the identifiers written with `@`. -/
def TokenStream.respelled (s : TokenStream) (f : Nat → String) : TokenStream :=
  { s with tokens := s.tokens.mapIdx fun i t => t.respelled (f i) }

/-- The same identifier, or one that stands for a token written with `@` and takes its spelling. -/
def Identifier.RespelledBy (s : TokenStream) (f : Nat → String) (i j : Identifier) : Prop :=
  j = i ∨ ∃ n, (s.token n).isVerbatimName = true ∧ i = (s.token n).name ∧ j = { i with text := f n }

namespace Token

variable {t : Token} {w : String}

theorem kind_of_isVerbatimName (h : t.isVerbatimName = true) :
    t.kind = .identifier ∧ t.flags.verbatim = true := by
  simpa [isVerbatimName] using h

theorem respelled_of_not (h : ¬ t.isVerbatimName = true) : t.respelled w = t := if_neg h

theorem respelled_of_isVerbatimName (h : t.isVerbatimName = true) :
    t.respelled w = { t with text := w } := if_pos h

theorem looksLike_respelled
    (h : t.isVerbatimName = true → (t.text = "await" ↔ w = "await")) :
    t.LooksLike (t.respelled w) := by
  by_cases hv : t.isVerbatimName = true
  · obtain ⟨hk, hverbatim⟩ := kind_of_isVerbatimName hv
    rw [respelled_of_isVerbatimName hv]
    exact ⟨rfl, by simp [contextual?, hverbatim], fun _ => h hv⟩
  · rw [respelled_of_not hv]
    exact ⟨rfl, rfl, fun _ => Iff.rfl⟩

end Token

namespace Parser

/-- Names that may be respelled, and reports that may be any. -/
def respelling (s : TokenStream) (f : Nat → String) : Spelling where
  names := Identifier.RespelledBy s f
  reports _ := True
  missing _ := .inl rfl
  sameMissing := by
    rintro i _ (rfl | ⟨n, -, -, rfl⟩) <;> rfl
  sameRange := by
    rintro i _ (rfl | ⟨n, -, -, rfl⟩) <;> rfl
  plain _ := trivial

variable {s : TokenStream} {f : Nat → String}

theorem respelled_token {n : Nat} {t : Token} (ht : t = s.token n)
    (h : t.isVerbatimName = true → (t.text = "await" ↔ f n = "await")) :
    t.Respelled (respelling s f) (t.respelled (f n)) := by
  have hlooks := Token.looksLike_respelled h
  by_cases hv : t.isVerbatimName = true
  · have hk := (Token.kind_of_isVerbatimName hv).1
    rw [Token.respelled_of_isVerbatimName hv] at hlooks ⊢
    refine ⟨hlooks, rfl, rfl, fun hne => absurd hk hne, fun _ => ?_, fun _ => trivial,
      fun _ _ => trivial⟩
    exact .inr ⟨n, ht ▸ hv, ht ▸ rfl, rfl⟩
  · rw [Token.respelled_of_not hv] at hlooks ⊢
    exact ⟨hlooks, rfl, rfl, fun _ => rfl, fun _ => .inl rfl, fun _ => trivial, fun _ _ => trivial⟩

theorem respelled_tokens (h : ∀ n < s.lastIndex, (s.token n).isVerbatimName = true →
      ((s.token n).text = "await" ↔ f n = "await")) :
    List.Forall₂ (Token.Respelled (respelling s f)) s.tokens (s.respelled f).tokens := by
  refine List.forall₂_iff_get.mpr ⟨by simp [TokenStream.respelled], fun n hn hn' => ?_⟩
  have htoken : s.tokens[n] = s.token n := by
    simp [TokenStream.token, List.getElem?_eq_getElem hn]
  have hrespelled := respelled_token (f := f) htoken (htoken ▸ h n hn)
  simpa [TokenStream.respelled] using hrespelled

/-- However the names written with `@` are spelled, the same is reported, and the tree is the same
but for the texts of identifiers that stand for them, unless one of the spellings is `await` and the
other is not. -/
theorem parseUnit_respelled (s : TokenStream) (f : Nat → String) (maxDepth : Nat)
    (before : Array Diagnostic) (polls : Polls)
    (h : ∀ n < s.lastIndex, (s.token n).isVerbatimName = true →
      ((s.token n).text = "await" ↔ f n = "await")) :
    let run := parseUnit s maxDepth before polls
    let run' := parseUnit (s.respelled f) maxDepth before polls
    run'.2.diagnostics = run.2.diagnostics ∧
      Outcomes (CompilationUnit.Respelled (Identifier.RespelledBy s f)) run.1 run'.1 := by
  have hend : s.endOfFile.Respelled (respelling s f) s.endOfFile :=
    ⟨⟨rfl, rfl, fun _ => Iff.rfl⟩, rfl, rfl, fun _ => rfl, fun _ => .inl rfl, fun _ => trivial,
      fun _ _ => trivial⟩
  obtain ⟨htree, hstate⟩ := parseUnit_respells maxDepth before polls
    (respelled_tokens h) hend rfl fun _ _ => trivial
  exact ⟨hstate.diagnostics.symm, htree⟩

/-- A name written with `@` that is spelled like a word of the language. -/
theorem parseUnit_respelled_from :
    let s := (scan "@a = @b;").1
    let f : Nat → String := fun _ => "from"
    (∀ n < s.lastIndex, (s.token n).isVerbatimName = true →
        ((s.token n).text = "await" ↔ f n = "await")) ∧
      (parseUnit (s.respelled f) 9 #[] none).2.diagnostics =
        (parseUnit s 9 #[] none).2.diagnostics := by
  intro s f
  have h : ∀ n < s.lastIndex, (s.token n).isVerbatimName = true →
      ((s.token n).text = "await" ↔ f n = "await") := by
    simp only [s, f]
    rw [scan_ofList]
    decide +kernel
  exact ⟨h, (parseUnit_respelled s f 9 #[] none h).1⟩

/-- The exception. With `@dwait` in its place this declares a variable of that type; as it is, no
declaration is found, and a semicolon is missing. -/
theorem not_parseUnit_respelled_await :
    ¬ ∀ (s : TokenStream) (f : Nat → String) (maxDepth : Nat) (before : Array Diagnostic)
        (polls : Polls), (parseUnit (s.respelled f) maxDepth before polls).2.diagnostics =
          (parseUnit s maxDepth before polls).2.diagnostics := by
  intro h
  have hsame := h (scan "@await x;").1 (fun _ => "dwait") 9 #[] none
  rw [scan_ofList] at hsame
  revert hsame
  decide +kernel

end Parser

end CSharpFront
