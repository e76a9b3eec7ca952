import CSharpFront.Project.Options
import CSharpFront.Proofs.Lexer.TypeText
import CSharpFront.Proofs.Parser.ConsumesTypes
import CSharpFront.Proofs.Types.Universe
/-!
Displayed types read back. What a type that is built of predefined types is displayed as declares a
variable of the type, so the display of one such type is not that of another.
-/

namespace CSharpFront

open Lexeme (mark)

/-! ### Scanning -/

theorem Lexeme.isPlain_variable : (nameWord "x").IsPlain :=
  isPlain_identifier rfl (by decide +kernel) (by decide +kernel) (by decide +kernel) rfl

/-- A type and a variable after it. -/
def Ty.variableText (t : Ty) : String := t.display ++ " x;"

theorem Ty.Spelled.lexes_variableText {t : Ty} (h : t.Spelled) :
    Scanner.Lexes t.variableText.toList (t.words ++ [nameWord "x", mark .semicolon]) := by
  have hend : Scanner.Lexes [';'] [mark .semicolon] :=
    .touching rfl (by decide) rfl (Lexeme.read?_semicolon_append []) .nil
  have hname := Scanner.Lexes.plain Lexeme.isPlain_variable (by decide +kernel) hend
  have htext : t.variableText.toList =
      t.display.toList ++ ' ' :: ((nameWord "x").text ++ [';']) := by
    rw [variableText, String.toList_append]
    rfl
  rw [htext]
  exact Scanner.lexes_display h (by decide) hname.blank

theorem Ty.Spelled.scan_variableText {t : Ty} (h : t.Spelled) :
    ∃ stream, scan t.variableText = (stream, #[]) ∧
      Spell stream.tokens (t.words ++ [nameWord "x", mark .semicolon]) := by
  obtain ⟨ts, last, hrun, -, hts⟩ := h.lexes_variableText.exists_run 0
  exact ⟨⟨ts, last⟩, hrun #[] #[], hts⟩

/-! ### Parsing -/

namespace Parser

/-- Words of a type and of a variable are parsed as its declaration, which means the type. -/
theorem parseStatement_spell {stream : TokenStream} {t : Ty} (ht : t.Spelled) {name : String}
    (hstream : Spell stream.tokens (t.words ++ [nameWord name, mark .semicolon])) {maxDepth : Nat}
    (hlevels : t.levels < maxDepth) (polls : Polls) :
    ∃ declaration type s,
      parseStatement (.of stream maxDepth) (.start stream #[] polls) = (declaration, s) ∧
        s.diagnostics = #[] ∧ s.rest = [] ∧ IsDeclaration type name declaration ∧ type.Means t := by
  obtain ⟨n, rfl⟩ : ∃ n, maxDepth = n + 1 := ⟨maxDepth - 1, by omega⟩
  have hstart : Facing #[] (.of stream (n + 1)) (n + 1)
      (t.words ++ [nameWord name, mark .semicolon]) (.start stream #[] polls) :=
    ⟨hstream, ⟨rfl, rfl⟩, Nat.le_of_eq (Nat.zero_add _), Nat.lt_succ_self _⟩
  have hbody : Consumes (.of stream (n + 1)) n (t.words ++ [nameWord name, mark .semicolon])
      (statementBody (rules (n + 1))) []
      fun s => ∃ type, IsDeclaration type name s ∧ type.Means t :=
    consumes_statementBody name ht (by omega) (by omega)
  obtain ⟨declaration, s, hrun, hs, type, hdeclaration, hmeans⟩ :=
    Consumes.nested hbody #[] _ hstart
  exact ⟨declaration, type, s, hrun, hs.calm.2, List.forall₂_nil_right_iff.mp hs.spell,
    hdeclaration, hmeans⟩

end Parser

/-! ### Reading back -/

namespace Universe

variable {u : Universe}

/-- What stands at a place is displayed as it is written: the scanner and the parser report nothing
about a variable of the type, and in the table the type of the variable is found at the place. -/
def ReadsBack (u : Universe) (i maxDepth : Nat) : Prop :=
  ∀ polls names, ∃ stream declaration type s,
    scan (u.listing.typeAt i).variableText = (stream, #[]) ∧
      Parser.parseStatement (.of stream maxDepth) (.start stream #[] polls) = (declaration, s) ∧
      s.diagnostics = #[] ∧ s.rest = [] ∧ Parser.IsDeclaration type "x" declaration ∧
      type.resolve names u.listing = (u.listing.typeAt i, u.listing) ∧
      u.listing.placeOf (u.listing.typeAt i) = i

/-- Whether a type that is built of predefined types only stands at a place. -/
def IsOfPredefined (u : Universe) (i : Nat) : Prop := (u.listing.typeAt i).ofPredefined = true

theorem IsOfPredefined.lt {i : Nat} (hi : u.IsOfPredefined i) : i < u.listing.size := by
  rcases Nat.lt_or_ge i u.listing.size with hlt | hge
  · exact hlt
  · unfold IsOfPredefined at hi
    rw [Listing.typeAt_of_le hge] at hi
    cases hi

theorem Reachable.spelled (h : u.Reachable) {i : Nat} (hi : u.IsOfPredefined i) :
    (u.listing.typeAt i).Spelled :=
  Ty.spelled_of_wellBuilt (h.sound.wellBuilt _ (Listing.typeAt_mem hi.lt)) hi

theorem Reachable.readsBack (h : u.Reachable) {i : Nat} (hi : u.IsOfPredefined i) {maxDepth : Nat}
    (hlevels : (u.listing.typeAt i).levels < maxDepth) : u.ReadsBack i maxDepth := by
  intro polls names
  have hmem := Listing.typeAt_mem hi.lt
  obtain ⟨stream, hscan, hspell⟩ := (h.spelled hi).scan_variableText
  obtain ⟨declaration, type, s, hparse, hreports, hrest, hdeclaration, hmeans⟩ :=
    Parser.parseStatement_spell (h.spelled hi) hspell hlevels polls
  have hplace := (h.sound.getElem?_eq_some_iff.mp (Listing.typeAt_of_lt hi.lt)).2
  exact ⟨stream, declaration, type, s, hscan, hparse, hreports, hrest, hdeclaration,
    hmeans names u.listing h.sound hmem, hplace⟩

/-- What is declared is known from the text. -/
theorem ReadsBack.place_eq {i j maxDepth : Nat} (hi : u.ReadsBack i maxDepth)
    (hj : u.ReadsBack j maxDepth)
    (hdisplay : (u.listing.typeAt i).display = (u.listing.typeAt j).display) : i = j := by
  obtain ⟨stream, _, _, _, hscan, hparse, -, -, hdeclaration, htype, hplace⟩ := hi none []
  obtain ⟨stream', _, _, _, hscan', hparse', -, -, hdeclaration', htype', hplace'⟩ := hj none []
  rw [Ty.variableText, hdisplay] at hscan
  obtain ⟨rfl, -⟩ := Prod.mk.inj (hscan.symm.trans hscan')
  obtain ⟨rfl, -⟩ := Prod.mk.inj (hparse.symm.trans hparse')
  obtain ⟨_, _, ⟨⟩⟩ := hdeclaration
  obtain ⟨_, _, ⟨⟩⟩ := hdeclaration'
  have hsame := Prod.mk.inj (htype.symm.trans htype')
  rw [← hplace, ← hplace', hsame.1]

/-- In a table, however it was built, the types that are built of predefined types read back where
fewer levels nest in them than the parser allows, and no two of them are displayed alike. -/
theorem readsBack_display (h : u.Reachable) :
    (∀ i, u.IsOfPredefined i → ∀ maxDepth, (u.listing.typeAt i).levels < maxDepth →
        u.ReadsBack i maxDepth) ∧
      ∀ i j, u.IsOfPredefined i → u.IsOfPredefined j →
        (u.listing.typeAt i).display = (u.listing.typeAt j).display → i = j := by
  refine ⟨fun i hi maxDepth hlevels => h.readsBack hi hlevels, fun i j hi hj hdisplay => ?_⟩
  let maxDepth := max (u.listing.typeAt i).levels (u.listing.typeAt j).levels + 1
  have hback : u.ReadsBack i maxDepth := h.readsBack hi (Nat.lt_succ_of_le (Nat.le_max_left _ _))
  have hback' : u.ReadsBack j maxDepth := h.readsBack hj (Nat.lt_succ_of_le (Nat.le_max_right _ _))
  exact hback.place_eq hback' hdisplay

/-- Arrays of groupings by numbers that may be missing. -/
def ofGroupings : Universe :=
  let key : Ty := .nullable .int
  let element : Ty := .array .string 2
  let u : Universe := (({} : Universe).add key).add element
  (u.add (.grouping key element)).add (.array (.grouping key element) 1)

theorem ofGroupings_reachable : ofGroupings.Reachable := by
  have hkey : Reachable (({} : Universe).add (.nullable .int)) :=
    .single (.nullable (i := 8) (by decide))
  have helement := hkey.tail (.array (i := 15) (by decide) 2)
  have hgrouping := helement.tail (@Step.generic _ .grouping [18, 19] _ rfl (by decide))
  exact hgrouping.tail (.array (i := 20) (by decide) 1)

theorem readsBack_ofGroupings : ofGroupings.Reachable ∧
    (ofGroupings.listing.typeAt 21).display = "System.Linq.IGrouping<int?, string[,]>[]" ∧
      ofGroupings.ReadsBack 21 maxParseDepth ∧
      (ofGroupings.listing.typeAt 20).display ≠ (ofGroupings.listing.typeAt 21).display := by
  obtain ⟨hback, hplace⟩ := readsBack_display ofGroupings_reachable
  have hlevels : (ofGroupings.listing.typeAt 21).levels < maxParseDepth := by decide
  refine ⟨ofGroupings_reachable, by decide, hback 21 rfl _ hlevels, fun hdisplay => ?_⟩
  have heq := hplace 20 21 rfl rfl hdisplay
  omega

end Universe

end CSharpFront
