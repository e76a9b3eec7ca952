import CSharpFront.Proofs.Lexer.Words
import CSharpFront.Proofs.Types.Spelled
/-!
The display of a type is scanned as its words. Most of them touch the next one; each is read up to
its end all the same, since no longer word begins there.
-/

namespace CSharpFront

open Lexeme (mark spelling)

namespace Lexeme

/-- A name or a reserved word is read up to what cannot go on with it. -/
theorem read?_word_append {c d : Char} {cs : List Char} (hc : Text.isIdentifierStart c = true)
    (hcs : ∀ x ∈ cs, Text.isIdentifierPart x = true) (hd : Text.isIdentifierPart d = false)
    (more : List Char) : read? (c :: cs ++ d :: more) = some (identifier c cs) := by
  have hall : cs.takeWhile Text.isIdentifierPart = cs := List.takeWhile_eq_self_iff.mpr hcs
  have htake : (cs ++ d :: more).takeWhile Text.isIdentifierPart = cs := by
    rw [List.takeWhile_append_of_pos hcs, List.takeWhile_cons_of_neg (by simp [hd]),
      List.append_nil]
  rw [List.cons_append, read?_of_isIdentifierStart hc, identifier, identifier, htake, hall]

theorem read?_comma_append (cs : List Char) : read? (',' :: cs) = some (mark .comma) := by
  rw [read?_eq_punctuation? (by decide) (by decide) (by decide) (Bool.or_false _)]
  rfl

theorem read?_openBracket_append (cs : List Char) :
    read? ('[' :: cs) = some (mark .openBracket) := by
  rw [read?_eq_punctuation? (by decide) (by decide) (by decide) (Bool.or_false _)]
  rfl

theorem read?_closeBracket_append (cs : List Char) :
    read? (']' :: cs) = some (mark .closeBracket) := by
  rw [read?_eq_punctuation? (by decide) (by decide) (by decide) (Bool.or_false _)]
  rfl

theorem ne_of_isIdentifierStart {c d : Char} (hc : Text.isIdentifierStart c = true)
    (hd : Text.isIdentifierStart d = false) : c ≠ d := by
  rintro rfl
  rw [hc] at hd
  cases hd

theorem read?_dot_append {c : Char} (hc : Text.isIdentifierStart c = true) (cs : List Char) :
    read? ('.' :: c :: cs) = some (mark .dot) := by
  have hfind : punctuators.find? (beginsWith ('.' :: c :: cs)) = some .dot := by
    have hq : (Punctuator.dot == Punctuator.questionDot) = false := rfl
    simp [punctuators, List.find?, beginsWith, Punctuator.text, List.isPrefixOf, hq]
  have hdigit : Text.isDigit c = false := Text.isDigit_of_isIdentifierStart hc
  have hnumber : (Text.isDigit '.' || ('.' == '.' && beginsWithDigit (c :: cs))) = false := hdigit
  rw [read?_eq_punctuation? (by decide) (by decide) (by decide) hnumber, punctuation?, hfind]
  rfl

theorem read?_lessThan_append {c : Char} (hc : Text.isIdentifierStart c = true) (cs : List Char) :
    read? ('<' :: c :: cs) = some (mark .lessThan) := by
  have hequals : ('=' == c) = false :=
    beq_false_of_ne (ne_of_isIdentifierStart hc (Text.isIdentifierStart_of_lt (by decide))).symm
  have hless : ('<' == c) = false :=
    beq_false_of_ne (ne_of_isIdentifierStart hc (Text.isIdentifierStart_of_lt (by decide))).symm
  have hfind : punctuators.find? (beginsWith ('<' :: c :: cs)) = some .lessThan := by
    have hq : (Punctuator.lessThan == Punctuator.questionDot) = false := rfl
    simp [punctuators, List.find?, beginsWith, Punctuator.text, List.isPrefixOf, hequals, hless, hq]
  rw [read?_eq_punctuation? (by decide) (by decide) (by decide) (Bool.or_false _), punctuation?,
    hfind]
  rfl

theorem read?_question_append {c : Char} (hquestion : c ≠ '?') (hdot : c ≠ '.') (cs : List Char) :
    read? ('?' :: c :: cs) = some (mark .question) := by
  have hquestion : ('?' == c) = false := beq_false_of_ne hquestion.symm
  have hdot : ('.' == c) = false := beq_false_of_ne hdot.symm
  have hfind : punctuators.find? (beginsWith ('?' :: c :: cs)) = some .question := by
    have hq : (Punctuator.question == Punctuator.questionDot) = false := rfl
    simp [punctuators, List.find?, beginsWith, Punctuator.text, List.isPrefixOf, hquestion, hdot,
      hq]
  rw [read?_eq_punctuation? (by decide) (by decide) (by decide) (Bool.or_false _), punctuation?,
    hfind]
  rfl

theorem read?_greaterThan_append {c : Char} (hc : c ≠ '=') (cs : List Char) :
    read? ('>' :: c :: cs) = some (mark .greaterThan) := by
  have hequals : ('=' == c) = false := beq_false_of_ne hc.symm
  have hfind : punctuators.find? (beginsWith ('>' :: c :: cs)) = some .greaterThan := by
    have hq : (Punctuator.greaterThan == Punctuator.questionDot) = false := rfl
    simp [punctuators, List.find?, beginsWith, Punctuator.text, List.isPrefixOf, hequals, hq]
  rw [read?_eq_punctuation? (by decide) (by decide) (by decide) (Bool.or_false _), punctuation?,
    hfind]
  rfl

/-- A word that is read wherever no identifier goes on after it. -/
structure IsPlain (w : Lexeme) : Prop where
  begins : ∃ c cs, w.text = c :: cs ∧ Text.isIdentifierStart c = true
  read {d : Char} (hd : Text.isIdentifierPart d = false) (more : List Char) :
    read? (w.text ++ d :: more) = some w
  problems : w.problems = []

theorem isPlain_identifier {c : Char} {cs : List Char} {w : Lexeme} (htext : w.text = c :: cs)
    (hc : Text.isIdentifierStart c = true) (hcs : cs.all Text.isIdentifierPart = true)
    (hw : identifier c cs = w) (hproblems : w.problems = []) : w.IsPlain where
  begins := ⟨c, cs, htext, hc⟩
  read hd more := by rw [htext, read?_word_append hc (List.all_eq_true.mp hcs) hd, hw]
  problems := hproblems

theorem isPlain_keyword (s : SpecialType) : (spelling (.keyword s.keyword)).IsPlain := by
  cases s <;>
    exact isPlain_identifier rfl (by decide +kernel) (by decide +kernel) (by decide +kernel) rfl

theorem isPlain_system : (nameWord "System").IsPlain :=
  isPlain_identifier rfl (by decide +kernel) (by decide +kernel) (by decide +kernel) rfl

theorem isPlain_simpleName (g : Generic) : (nameWord g.simpleName).IsPlain := by
  cases g <;>
    exact isPlain_identifier rfl (by decide +kernel) (by decide +kernel) (by decide +kernel) rfl

theorem isPlain_path (g : Generic) : ∀ n ∈ g.path, (nameWord n).IsPlain := by
  have hcollections : (nameWord "Collections").IsPlain :=
    isPlain_identifier rfl (by decide +kernel) (by decide +kernel) (by decide +kernel) rfl
  have hgeneric : (nameWord "Generic").IsPlain :=
    isPlain_identifier rfl (by decide +kernel) (by decide +kernel) (by decide +kernel) rfl
  have hlinq : (nameWord "Linq").IsPlain :=
    isPlain_identifier rfl (by decide +kernel) (by decide +kernel) (by decide +kernel) rfl
  cases g with
  | sequence | list =>
    exact List.forall_mem_cons.mpr ⟨hcollections, List.forall_mem_singleton.mpr hgeneric⟩
  | grouping => exact List.forall_mem_singleton.mpr hlinq

end Lexeme

namespace Scanner

variable {w : Lexeme} {c : Char} {cs : List Char} {ws : List Lexeme}

theorem Lexes.plain (hw : w.IsPlain) (hc : Text.isIdentifierPart c = false)
    (h : Lexes (c :: cs) ws) : Lexes (w.text ++ c :: cs) (w :: ws) := by
  obtain ⟨d, ds, htext, hd⟩ := hw.begins
  refine .lexeme ?_ (hw.read hc cs) hw.problems h
  rw [htext]
  exact Gap.beginsNone_of_isIdentifierStart hd

/-- A dot before a word. -/
theorem Lexes.dot (hw : w.IsPlain) (h : Lexes (w.text ++ cs) ws) :
    Lexes ('.' :: (w.text ++ cs)) (Lexeme.mark .dot :: ws) := by
  obtain ⟨d, ds, htext, hd⟩ := hw.begins
  have hread : Lexeme.read? ('.' :: (w.text ++ cs)) = some (Lexeme.mark .dot) := by
    rw [htext]
    exact Lexeme.read?_dot_append hd _
  exact .touching rfl (by decide) rfl hread h

/-- Names, each after a dot, before another dot. -/
theorem lexes_dotted {names : List String} (hn : ∀ n ∈ names, (nameWord n).IsPlain)
    (h : Lexes ('.' :: cs) ws) :
    Lexes (names.flatMap (fun n => '.' :: n.toList) ++ '.' :: cs) (Generic.dotted names ++ ws) := by
  induction names with
  | nil => exact h
  | cons n names ih =>
    obtain ⟨hfirst, hnames⟩ := List.forall_mem_cons.mp hn
    obtain ⟨more, hmore⟩ : ∃ more,
        names.flatMap (fun n => '.' :: n.toList) ++ '.' :: cs = '.' :: more := by
      cases names <;> exact ⟨_, rfl⟩
    have hrest := ih hnames
    rw [hmore] at hrest
    have hword := (Lexes.plain hfirst (by decide +kernel) hrest).dot hfirst
    rw [← hmore] at hword
    simpa [Generic.dotted, nameWord] using hword

/-- The full name of a generic type. -/
theorem lexes_fullName (g : Generic) (h : Lexes ('<' :: cs) ws) :
    Lexes (g.fullName.toList ++ '<' :: cs) (g.words ++ ws) := by
  have htext : g.fullName.toList =
      "System".toList ++
        (g.path.flatMap (fun n => '.' :: n.toList) ++ '.' :: g.simpleName.toList) := by
    cases g <;> decide +kernel
  have hsimple := Lexes.plain (Lexeme.isPlain_simpleName g) (by decide +kernel) h
  have hpath := lexes_dotted (Lexeme.isPlain_path g) (hsimple.dot (Lexeme.isPlain_simpleName g))
  obtain ⟨more, hmore⟩ : ∃ more, g.path.flatMap (fun n => '.' :: n.toList) ++
      '.' :: ((nameWord g.simpleName).text ++ '<' :: cs) = '.' :: more := by
    cases g <;> exact ⟨_, rfl⟩
  rw [hmore] at hpath
  have hall := Lexes.plain Lexeme.isPlain_system (by decide +kernel) hpath
  rw [← hmore] at hall
  rw [htext]
  simpa [Generic.words, nameWord] using hall

/-- The brackets of an array. -/
theorem lexes_rank (rank : Nat) (h : Lexes cs ws) :
    Lexes ('[' :: (List.replicate (rank - 1) ',' ++ ']' :: cs)) (Ty.rankWords rank ++ ws) := by
  have hclose : Lexes (']' :: cs) (mark .closeBracket :: ws) :=
    .touching rfl (by decide) rfl (Lexeme.read?_closeBracket_append _) h
  have hcommas (n : Nat) : Lexes (List.replicate n ',' ++ ']' :: cs)
      (List.replicate n (mark .comma) ++ mark .closeBracket :: ws) := by
    induction n with
    | zero => exact hclose
    | succ n ih => exact .touching rfl (by decide) rfl (Lexeme.read?_comma_append _) ih
  have hopen := Lexes.touching (p := .openBracket) (c := '[') rfl (by decide) rfl
    (Lexeme.read?_openBracket_append _) (hcommas (rank - 1))
  simpa [Ty.rankWords] using hopen

/-- A type begins with a name or a reserved word. -/
theorem exists_display_eq_cons {t : Ty} (h : t.Spelled) :
    ∃ c cs, t.display.toList = c :: cs ∧ Text.isIdentifierStart c = true := by
  induction h with
  | special s => exact (Lexeme.isPlain_keyword s).begins
  | @nullable s =>
    obtain ⟨c, cs, htext, hc⟩ := (Lexeme.isPlain_keyword s).begins
    have hdisplay : (Ty.nullable (.special s)).display.toList = c :: cs ++ ['?'] := by
      rw [← htext, Ty.display, String.toList_append]
      rfl
    exact ⟨c, cs ++ ['?'], hdisplay, hc⟩
  | @array t rank _ _ ih =>
    obtain ⟨c, cs, htext, hc⟩ := ih
    have hdisplay := Ty.toList_display_array t rank
    rw [htext, List.cons_append] at hdisplay
    exact ⟨c, _, hdisplay, hc⟩
  | @generic g ts t hg =>
    obtain ⟨e, es, rfl, ht⟩ := Ty.exists_isGeneric hg
    obtain ⟨c, cs, htext, hc⟩ : ∃ c cs, g.fullName.toList = c :: cs ∧
        Text.isIdentifierStart c = true := by
      cases g <;> exact ⟨'S', _, rfl, by decide +kernel⟩
    exact ⟨c, cs ++ _, by rw [ht.display, htext, List.cons_append], hc⟩

/-- Whether a character may come after the display of a type. -/
def FollowsType (c : Char) : Prop := c ∈ [' ', ',', '>', '[']

instance : DecidablePred FollowsType := fun c => inferInstanceAs (Decidable (c ∈ _))

theorem FollowsType.isIdentifierPart_eq (hc : FollowsType c) : Text.isIdentifierPart c = false := by
  have hall : [' ', ',', '>', '['].all (!Text.isIdentifierPart ·) = true := by decide +kernel
  simpa using List.all_eq_true.mp hall c hc

/-- Type arguments after the first, where each of them is scanned as its words. -/
theorem lexes_moreText {es : List Ty}
    (hes : ∀ e ∈ es, ∀ {c cs ws}, FollowsType c → Lexes (c :: cs) ws →
      Lexes (e.display.toList ++ c :: cs) (e.words ++ ws))
    (h : Lexes ('>' :: cs) ws) :
    ∃ c more, Ty.moreText es ++ '>' :: cs = c :: more ∧ FollowsType c ∧
      Lexes (c :: more) (Ty.moreWords es ++ ws) := by
  induction es with
  | nil => exact ⟨'>', cs, rfl, by decide, h⟩
  | cons e es ih =>
    obtain ⟨hfirst, hrest⟩ := List.forall_mem_cons.mp hes
    obtain ⟨c, more, hmore, hc, hlexes⟩ := ih hrest
    have hcomma := Lexes.touching (p := .comma) (c := ',') rfl (by decide) rfl
      (Lexeme.read?_comma_append _) (hfirst hc hlexes).blank
    refine ⟨',', ' ' :: (e.display.toList ++ c :: more), ?_, by decide, ?_⟩
    · rw [← hmore]
      simp [Ty.moreText]
    · simpa [Ty.moreWords] using hcomma

/-- The display of a type is scanned as its words. -/
theorem lexes_display {t : Ty} (ht : t.Spelled) (hc : FollowsType c) (h : Lexes (c :: cs) ws) :
    Lexes (t.display.toList ++ c :: cs) (t.words ++ ws) := by
  induction ht generalizing c cs ws with
  | special s => exact Lexes.plain (Lexeme.isPlain_keyword s) hc.isIdentifierPart_eq h
  | @nullable s =>
    have hmark : c ≠ '?' ∧ c ≠ '.' := by
      have hall : ∀ c ∈ [' ', ',', '>', '['], c ≠ '?' ∧ c ≠ '.' := by simp
      exact hall c hc
    have hquestion := Lexes.touching (p := .question) (c := '?') rfl (by decide) rfl
      (Lexeme.read?_question_append hmark.1 hmark.2 cs) h
    have hall := Lexes.plain (Lexeme.isPlain_keyword s) (by decide +kernel) hquestion
    have hdisplay : (Ty.nullable (.special s)).display.toList =
        (spelling (.keyword s.keyword)).text ++ ['?'] := by
      rw [Ty.display, String.toList_append]
      rfl
    rw [hdisplay, List.append_assoc]
    exact hall
  | @array t rank _ _ ih =>
    have hall := ih (by decide) (lexes_rank rank h)
    rw [Ty.toList_display_array, Ty.words]
    simpa using hall
  | @generic g ts t hg hts ih =>
    obtain ⟨e, es, rfl, ht⟩ := Ty.exists_isGeneric hg
    obtain ⟨hfirst, hrest⟩ := List.forall_mem_cons.mp ih
    have hequals : c ≠ '=' := by
      have hall : ∀ c ∈ [' ', ',', '>', '['], c ≠ '=' := by simp
      exact hall c hc
    have hclose := Lexes.touching (p := .greaterThan) (c := '>') rfl (by decide) rfl
      (Lexeme.read?_greaterThan_append hequals cs) h
    obtain ⟨d, more, hmore, hd, hlexes⟩ := lexes_moreText hrest hclose
    have harguments := hfirst hd hlexes
    obtain ⟨b, bs, htext, hb⟩ := exists_display_eq_cons (hts e List.mem_cons_self)
    have hopen := Lexes.touching (p := .lessThan) (c := '<') rfl (by decide) rfl
      (by rw [htext]; exact Lexeme.read?_lessThan_append hb _) harguments
    have hall := lexes_fullName g hopen
    rw [← hmore] at hall
    rw [ht.display, ht.words]
    simpa using hall

end Scanner

end CSharpFront
