import CSharpFront.Proofs.Lexer.Apart
import CSharpFront.Proofs.Lexer.Scan
import CSharpFront.Proofs.Syntax.Printing
import Mathlib.Data.List.TakeWhile
/-!
Scanning words with one blank between any two. The scanner finds the words again: each is one token,
or two that touch, and nothing is reported.
-/

namespace CSharpFront

/-! ## Lexemes before a blank

Whatever follows a blank makes no difference to the lexeme before it, unless that has a fault: a
literal without an end may find its end there.
-/

section

namespace Lexeme

variable (more : List Char)

/-! ### Strings and characters -/

theorem hexEscape_append_blank (least most : Nat) (cs : List Char) :
    hexEscape least most (cs ++ ' ' :: more) = hexEscape least most cs := by
  have hle : ((cs.take most).takeWhile Text.isHexDigit).length ≤ cs.length :=
    ((List.takeWhile_prefix _).trans (List.take_prefix _ _)).length_le
  have hcut : hexEscape least most (cs ++ ' ' :: more) = hexEscape least most (cs ++ []) :=
    hexEscape_cut (beginsApart_blank more) (by simpa [hexEscape] using hle)
  rwa [List.append_nil] at hcut

theorem escape_append_blank {cs : List Char} (h : cs ≠ []) :
    escape (cs ++ ' ' :: more) = escape cs := by
  cases cs with
  | nil => exact absurd rfl h
  | cons c cs => simp only [escape, List.cons_append, hexEscape_append_blank]

/-- The inside of a literal that ends there is the same whatever follows. -/
theorem quotedBody_append_blank {quote : Char} (b : Body) (cs : List Char)
    (hb : b.isClosed = false) (h : (quotedBody quote b cs).isClosed = true) :
    quotedBody quote b (cs ++ ' ' :: more) = quotedBody quote b cs := by
  fun_induction quotedBody quote b cs with
  | case1 b => simp [hb] at h
  | case2 b cs => rw [List.cons_append, quotedBody, if_pos rfl]
  | case3 b cs hc ih =>
    have hne : cs ≠ [] := by
      rintro rfl
      simp [quotedBody, Body.addEscape, hb] at h
    have hle := length_escape_le cs
    have hadd : b.addEscape 1 (cs ++ ' ' :: more) = b.addEscape 1 cs := by
      simp only [Body.addEscape, escape_append_blank more hne, List.take_append_of_le_length hle]
    have hih := ih hb h
    rw [← List.drop_append_of_le_length hle] at hih
    rw [List.cons_append, quotedBody, if_neg hc, if_pos rfl, hadd, escape_append_blank more hne,
      hih]
  | case4 b c cs => simp [hb] at h
  | case5 b c cs hq hc hl ih =>
    rw [List.cons_append, quotedBody, if_neg hq, if_neg hc, if_neg hl, ih hb h]

theorem verbatimBody_append_blank (b : Body) (cs : List Char) (hb : b.isClosed = false)
    (h : (verbatimBody b cs).isClosed = true) :
    verbatimBody b (cs ++ ' ' :: more) = verbatimBody b cs := by
  -- no doubled quote begins where none did before the blank came after
  have hsingle (c : Char) (cs : List Char)
      (hne : ∀ rest, c = '"' → cs = '"' :: rest → False) :
      ∀ rest, c = '"' → cs ++ ' ' :: more = '"' :: rest → False := by
    intro rest hc hcs
    cases cs with
    | nil => simp at hcs
    | cons d cs =>
      obtain ⟨rfl, -⟩ := List.cons.inj hcs
      exact hne cs hc rfl
  fun_induction verbatimBody b cs with
  | case1 b => simp [hb] at h
  | case2 b cs ih => exact ih hb h
  | case3 b cs hne => rw [List.cons_append, verbatimBody.eq_3 _ _ _ (hsingle _ _ hne), if_pos rfl]
  | case4 b c cs hne hq ih =>
    rw [List.cons_append, verbatimBody.eq_3 _ _ _ (hsingle _ _ hne), if_neg hq, ih hb h]

/-- A literal whose inside ends is the same whatever follows. -/
theorem literal_append_blank {kind : TokenKind} {opening cs inside : List Char}
    {flags : TokenFlags} {b : Body} {fault? : Option Message} (hp : inside <+: cs)
    (hn : b.Notes opening inside) :
    literal kind opening (cs ++ ' ' :: more) flags b fault? =
      literal kind opening cs flags b fault? := by
  have hle : b.length ≤ cs.length := hn.length ▸ hp.length_le
  simp only [literal, List.take_append_of_le_length hle]

/-- A literal of which the whole has no fault. -/
theorem fault?_eq_none {kind : TokenKind} {opening cs : List Char} {flags : TokenFlags} {b : Body}
    {fault? : Option Message} (h : (literal kind opening cs flags b fault?).problems = []) :
    fault? = none := by
  cases fault? with
  | none => rfl
  | some m => simp [literal] at h

theorem stringLiteral_append_blank {cs : List Char} (h : (stringLiteral cs).problems = []) :
    stringLiteral (cs ++ ' ' :: more) = stringLiteral cs := by
  have hbody : ∃ inside, inside <+: cs ∧ (quotedBody '"' {} cs).Notes ['"'] ([] ++ inside) :=
    exists_notes_quotedBody rfl rfl {} cs [] (Body.notes_nil _)
  obtain ⟨inside, hp, hn⟩ := hbody
  have hclosed : (quotedBody '"' {} cs).isClosed = true := by simpa using fault?_eq_none h
  simp only [stringLiteral, quotedBody_append_blank more {} cs rfl hclosed,
    literal_append_blank more hp hn]

theorem verbatimString_append_blank {cs : List Char} (h : (verbatimString cs).problems = []) :
    verbatimString (cs ++ ' ' :: more) = verbatimString cs := by
  have hbody : ∃ inside, inside <+: cs ∧ (verbatimBody {} cs).Notes ['@', '"'] ([] ++ inside) :=
    exists_notes_verbatimBody {} cs [] (Body.notes_nil _)
  obtain ⟨inside, hp, hn⟩ := hbody
  have hclosed : (verbatimBody {} cs).isClosed = true := by simpa using fault?_eq_none h
  simp only [verbatimString, verbatimBody_append_blank more {} cs rfl hclosed,
    literal_append_blank more hp hn]

theorem characterLiteral_append_blank {cs : List Char} (h : (characterLiteral cs).problems = []) :
    characterLiteral (cs ++ ' ' :: more) = characterLiteral cs := by
  have hbody : ∃ inside, inside <+: cs ∧ (quotedBody '\'' {} cs).Notes ['\''] ([] ++ inside) :=
    exists_notes_quotedBody rfl rfl {} cs [] (Body.notes_nil _)
  obtain ⟨inside, hp, hn⟩ := hbody
  have hclosed : (quotedBody '\'' {} cs).isClosed = true := by
    have hfault := fault?_eq_none h
    cases hopen : (quotedBody '\'' {} cs).isClosed with
    | true => rfl
    | false => simp [hopen] at hfault
  simp only [characterLiteral, quotedBody_append_blank more {} cs rfl hclosed,
    literal_append_blank more hp hn]

/-! ### Any lexeme -/

/-- What a lexeme without a fault is does not depend on what follows a blank after it. -/
theorem read?_append_blank {cs : List Char} {l : Lexeme} (h : read? cs = some l)
    (hl : l.problems = []) : read? (cs ++ ' ' :: more) = some l := by
  cases cs with
  | nil => simp [read?] at h
  | cons c cs =>
    have htext := (readFrom_read? h).text.length_le
    have hapart := beginsApart_blank more
    simp only [read?] at h
    simp only [List.cons_append, read?, beginsWithDigit_append_beginsApart hapart]
    split at h
    next hc =>
      obtain rfl := Option.some.inj h
      rw [if_pos hc, stringLiteral_append_blank more hl]
    next hc =>
    rw [if_neg hc]
    split at h
    next hc =>
      obtain rfl := Option.some.inj h
      rw [if_pos hc, characterLiteral_append_blank more hl]
    next hc =>
    rw [if_neg hc]
    split at h
    next hc =>
      rw [if_pos hc]
      cases cs with
      | nil => simp [verbatim?] at h
      | cons d cs =>
        simp only [verbatim?] at h
        simp only [List.cons_append, verbatim?]
        split at h
        next hd =>
          obtain rfl := Option.some.inj h
          rw [if_pos hd, verbatimString_append_blank more hl]
        next hd =>
          rw [if_neg hd]
          split at h
          next hi =>
            obtain rfl := Option.some.inj h
            have hcut := verbatimIdentifier_cut (c := d) (u := cs) (v := []) hapart
            rw [List.append_nil] at hcut
            rw [if_pos hi, hcut (by simpa using htext)]
          next hi => cases h
    next hc =>
    rw [if_neg hc]
    split at h
    next hn =>
      obtain rfl := Option.some.inj h
      have hcut := number_cut (c := c) (u := cs) (v := []) hapart
      rw [List.append_nil] at hcut
      rw [if_pos hn, hcut hn htext]
    next hn =>
    rw [if_neg hn]
    split at h
    next hi =>
      obtain rfl := Option.some.inj h
      have hcut := identifier_cut (c := c) (u := cs) (v := []) hapart
      rw [List.append_nil] at hcut
      rw [if_pos hi, hcut htext]
    next hi => rw [if_neg hi, ← List.cons_append, punctuation?_append_beginsApart hapart, h]

end Lexeme

end

/-! ## Words -/

section

/-! ### How words begin -/

theorem Text.isIdentifierStart_of_lt {c : Char} (h : c.toNat < 0x80) :
    isIdentifierStart c = (isAsciiLetter c || c == '_') := by
  have hfirst : ∀ r ∈ identifierStartRanges, 0x80 ≤ r.1 := by decide +kernel
  have hnone : inRanges identifierStartRanges c = false := by
    rw [inRanges, List.any_eq_false]
    intro r hr
    have hle := hfirst r hr
    simp
    omega
  rw [isIdentifierStart, hnone, Bool.or_false]

/-- No identifier begins with a blank. -/
theorem Text.isBlank_of_isIdentifierStart {c : Char} (h : isIdentifierStart c = true) :
    isBlank c = false := by
  have hspaces : ∀ n ∈ List.range' 0x2000 11, isIdentifierStart (Char.ofNat n) = false := by
    decide +kernel
  by_contra hb
  rw [Bool.not_eq_false] at hb
  simp only [isBlank, Bool.or_eq_true, beq_iff_eq, or_assoc] at hb
  rcases hb with rfl | rfl | rfl | rfl | rfl | rfl | hb | rfl | rfl | rfl | rfl
  case inr.inr.inr.inr.inr.inr.inl =>
    simp only [Bool.and_eq_true, decide_eq_true_eq] at hb
    have hn := hspaces c.toNat (by rw [List.mem_range'_1]; omega)
    rw [Char.ofNat_toNat, h] at hn
    cases hn
  all_goals
    revert h
    decide +kernel

/-- No identifier begins with a digit. -/
theorem Text.isDigit_of_isIdentifierStart {c : Char} (h : isIdentifierStart c = true) :
    isDigit c = false := by
  have hdigits : ∀ n ∈ List.range' 48 10, isIdentifierStart (Char.ofNat n) = false := by
    decide +kernel
  by_contra hd
  simp only [isDigit, Char.le_def, UInt32.le_iff_toNat_le, Bool.not_eq_false, Bool.and_eq_true,
    decide_eq_true_eq] at hd
  have h0 : 48 ≤ c.toNat := hd.1
  have h9 : c.toNat ≤ 57 := hd.2
  have hn := hdigits c.toNat (by rw [List.mem_range'_1]; omega)
  rw [Char.ofNat_toNat, h] at hn
  cases hn

theorem Text.isLineEnd_of_isIdentifierStart {c : Char} (h : isIdentifierStart c = true) :
    isLineEnd c = false := by
  by_contra hl
  simp only [isLineEnd, Bool.not_eq_false, Bool.or_eq_true, beq_iff_eq] at hl
  rcases hl with rfl | rfl
  all_goals
    revert h
    decide +kernel

/-- What begins neither a literal nor a name is punctuation. -/
theorem Lexeme.read?_eq_punctuation? {c : Char} {cs : List Char} (hc : c.toNat < 0x80)
    (hl : (Text.isAsciiLetter c || c == '_') = false) (hq : c ≠ '"' ∧ c ≠ '\'' ∧ c ≠ '@')
    (hd : (Text.isDigit c || (c == '.' && beginsWithDigit cs)) = false) :
    read? (c :: cs) = punctuation? (c :: cs) := by
  have hi := (Text.isIdentifierStart_of_lt hc).trans hl
  simp [read?, hq, hd, hi]

/-- The gap before a lexeme is none of its business. -/
theorem Lexeme.afterLineBreak_of_read? {cs : List Char} {l : Lexeme} (h : read? cs = some l) :
    l.flags.afterLineBreak = false := by
  unfold read? at h
  split at h
  · simp at h
  split at h
  · obtain rfl := Option.some.inj h; rfl
  split at h
  · obtain rfl := Option.some.inj h; rfl
  split at h
  · unfold verbatim? at h
    split at h
    · split at h
      · obtain rfl := Option.some.inj h; rfl
      split at h
      · obtain rfl := Option.some.inj h; rfl
      · simp at h
    · simp at h
  split at h
  · obtain rfl := Option.some.inj h
    unfold number
    split
    · split
      · rfl
      split
      · rfl
      split <;> rfl
    · rfl
  split at h
  · obtain rfl := Option.some.inj h
    simp only [identifier]
    split <;> rfl
  · obtain ⟨p, -, rfl⟩ := Option.map_eq_some_iff.mp h
    rfl

/-! ### Where no gap begins -/

namespace Gap

/-- Characters that do not begin with a blank, a line end or a comment. -/
def BeginsNone : List Char → Prop
  | [] => False
  | c :: cs => Text.isLineEnd c = false ∧ Text.isBlank c = false ∧
    (c = '/' → cs.head? ≠ some '/' ∧ cs.head? ≠ some '*')

variable {pos : Nat} {lineBreak : Bool} {problems : Bag} {cs : List Char}

theorem BeginsNone.append_blank (h : BeginsNone cs) (more : List Char) :
    BeginsNone (cs ++ ' ' :: more) := by
  match cs with
  | [c] => exact ⟨h.1, h.2.1, fun _ => by simp⟩
  | c :: d :: cs => exact h

theorem read_of_beginsNone {l : Lexeme} (hg : BeginsNone cs) (h : Lexeme.read? cs = some l) :
    read pos lineBreak problems cs = ⟨pos, lineBreak, problems, cs, some l⟩ := by
  cases cs with
  | nil => exact hg.elim
  | cons c cs =>
    obtain ⟨hl, hb, hc⟩ := hg
    rw [read, if_neg (by simp [hl]), if_neg (by simp [hb]), if_neg fun h => (hc h.1).1 h.2,
      if_neg fun h => (hc h.1).2 h.2, h]

/-- A gap that passes nothing. -/
theorem beginsNone_of_rest_read (hne : cs ≠ []) (h : (read pos lineBreak problems cs).rest = cs) :
    BeginsNone cs := by
  cases cs with
  | nil => exact absurd rfl hne
  | cons c cs =>
    -- whatever a gap passes is gone from what is left
    have hlonger {pos : Nat} {lineBreak : Bool} {problems : Bag} {ds : List Char}
        (hd : ds.length ≤ cs.length) (hr : (read pos lineBreak problems ds).rest = c :: cs) :
        False := by
      have hle := length_rest_read pos lineBreak problems ds
      rw [hr, List.length_cons] at hle
      omega
    rw [read] at h
    split at h
    · exact (hlonger (Nat.le_refl _) h).elim
    next hl =>
    split at h
    · exact (hlonger (Nat.le_refl _) h).elim
    next hb =>
    split at h
    · exact (hlonger (by simp) h).elim
    next hline =>
    split at h
    · have hle := length_rest_comment 2 false (cs.drop 1)
      simp only [List.length_drop] at hle
      exact (hlonger (by omega) h).elim
    next hblock =>
      exact ⟨by simpa using hl, by simpa using hb,
        fun hc => ⟨fun hn => hline ⟨hc, hn⟩, fun hn => hblock ⟨hc, hn⟩⟩⟩

theorem read_blank (cs : List Char) :
    read pos lineBreak problems (' ' :: cs) = read (pos + 1) lineBreak problems cs := by
  rw [read, if_neg (by decide), if_pos (by decide)]
  rfl

end Gap

/-! ### Tokens that spell words -/

/-- The kinds of the tokens that a word is read as. -/
def TokenKind.pieces : TokenKind → List TokenKind
  | .punct .greaterThanGreaterThan => [.punct .greaterThan, .punct .greaterThan]
  | .punct .greaterThanGreaterThanEquals => [.punct .greaterThan, .punct .greaterThanEquals]
  | k => [k]

/-- A token that is a word, wherever it stands. -/
structure Token.Spells (t : Token) (w : Lexeme) : Prop where
  kind : t.kind = w.kind
  text : t.text = Scanner.tokenText w
  flags : t.flags = w.flags

/-- Tokens that are words in a row. Two tokens make up one word just where they touch. -/
inductive Written : List Token → List Lexeme → Prop
  | nil : Written [] []
  | single {t : Token} {ts : List Token} {w : Lexeme} {ws : List Lexeme} (ht : t.Spells w)
      (hw : w.kind.pieces = [w.kind]) (hgap : ∀ u ∈ ts.head?, u.start ≠ t.stop)
      (h : Written ts ws) : Written (t :: ts) (w :: ws)
  | joined {t u : Token} {ts : List Token} {w : Lexeme} {ws : List Lexeme} {p : Punctuator}
      (hp : Operator.joined? t u = some p) (hw : w.kind = .punct p) (h : Written ts ws) :
      Written (t :: u :: ts) (w :: ws)

/-- A lexeme that the scanner reads of its own text, without a fault. -/
structure Lexeme.IsWord (w : Lexeme) : Prop where
  gap : Gap.BeginsNone w.text
  read : Lexeme.read? w.text = some w
  problems : w.problems = []
  pieces : w.kind.pieces = [w.kind]

/-! ### Scanning words -/

namespace Scanner

variable {tokens : Array Token} {problems : Array Diagnostic} {pos : Nat} {cs : List Char}

theorem run_of_none {s : Scanner} (h : (Gap.read s.pos false [] s.rest).lexeme? = none) :
    run tokens problems s = (⟨tokens.toList, s.next.token⟩, problems ++ s.next.problems) := by
  rw [run]
  split
  · rfl
  next hs => simp [h] at hs

theorem run_of_some {s : Scanner} {l : Lexeme}
    (h : (Gap.read s.pos false [] s.rest).lexeme? = some l) :
    run tokens problems s =
      run (tokens.push s.next.token) (problems ++ s.next.problems) s.next.after := by
  conv_lhs => rw [run]
  split
  next hs => simp [h] at hs
  · rfl

/-- A blank is passed without a trace. -/
theorem run_blank : run tokens problems ⟨pos, ' ' :: cs⟩ = run tokens problems ⟨pos + 1, cs⟩ := by
  have hgap : Gap.read pos false [] (' ' :: cs) = Gap.read (pos + 1) false [] cs :=
    Gap.read_blank cs
  have hnext : next ⟨pos, ' ' :: cs⟩ = next ⟨pos + 1, cs⟩ := by simp only [next, hgap]
  cases h : (Gap.read (pos + 1) false [] cs).lexeme? with
  | none => rw [run_of_none (by rw [hgap, h]), run_of_none h, hnext]
  | some l =>
    have hblank : run tokens problems ⟨pos, ' ' :: cs⟩ = _ := run_of_some (by rw [hgap, h])
    have hnone : run tokens problems ⟨pos + 1, cs⟩ = _ := run_of_some h
    rw [hblank, hnone, hnext]

/-- The end of file after the last word. -/
def lastToken (pos : Nat) : Token := ⟨.endOfFile, .emptyAt pos, "", {}⟩

theorem run_nil :
    run tokens problems ⟨pos, []⟩ = (⟨tokens.toList, lastToken pos⟩, problems) := by
  have hgap : Gap.read pos false [] [] = ⟨pos, false, [], [], none⟩ := by rw [Gap.read]
  have hnext : next ⟨pos, []⟩ = ⟨lastToken pos, ⟨pos, []⟩, []⟩ := by
    simp only [next, hgap]
    rfl
  rw [run_of_none (by rw [hgap]), hnext]
  simp

/-- The token of a lexeme that stands at an offset. -/
def tokenAt (pos : Nat) (l : Lexeme) : Token :=
  ⟨l.kind, ⟨pos, pos + Text.byteCount l.text⟩, tokenText l, l.flags⟩

/-- The scanner takes a lexeme without a fault that begins where it stands. -/
theorem run_of_read? {l : Lexeme} (hg : Gap.BeginsNone cs) (h : Lexeme.read? cs = some l)
    (hl : l.problems = []) :
    run tokens problems ⟨pos, cs⟩ = run (tokens.push (tokenAt pos l)) problems
      ⟨(tokenAt pos l).stop, cs.drop l.text.length⟩ := by
  have hgap : Gap.read pos false [] cs = ⟨pos, false, [], cs, some l⟩ :=
    Gap.read_of_beginsNone hg h
  have hflags : { l.flags with afterLineBreak := false } = l.flags := by
    rw [← Lexeme.afterLineBreak_of_read? h]
  rw [run_of_some (by rw [hgap])]
  simp [next, hgap, tokenAfter, placed, hl, tokenAt, hflags]

/-- What follows a word: the end of the text, or a blank and more. -/
def tail (ws : List Lexeme) : List Char := ws.flatMap (' ' :: ·.text)

theorem tail_eq_or (ws : List Lexeme) : tail ws = [] ∨ ∃ more, tail ws = ' ' :: more := by
  cases ws with
  | nil => exact .inl rfl
  | cons w ws => exact .inr ⟨_, rfl⟩

/-- A lexeme is read the same before what follows it. -/
theorem run_append_tail {l : Lexeme} (hg : Gap.BeginsNone cs) (h : Lexeme.read? cs = some l)
    (hl : l.problems = []) (ws : List Lexeme) :
    run tokens problems ⟨pos, cs ++ tail ws⟩ = run (tokens.push (tokenAt pos l)) problems
      ⟨(tokenAt pos l).stop, cs.drop l.text.length ++ tail ws⟩ := by
  have hafter : Gap.BeginsNone (cs ++ tail ws) ∧ Lexeme.read? (cs ++ tail ws) = some l := by
    rcases tail_eq_or ws with ht | ⟨more, ht⟩
    · rw [ht, List.append_nil]
      exact ⟨hg, h⟩
    · rw [ht]
      exact ⟨hg.append_blank more, Lexeme.read?_append_blank more h hl⟩
  have hle := (Lexeme.readFrom_read? h).text.length_le
  rw [run_of_read? hafter.1 hafter.2 hl, List.drop_append_of_le_length hle]

/-- A word is taken as the token that it is. -/
theorem run_word {w : Lexeme} (hw : w.IsWord) (ws : List Lexeme) :
    run tokens problems ⟨pos, w.text ++ tail ws⟩ = run (tokens.push (tokenAt pos w)) problems
      ⟨(tokenAt pos w).stop, tail ws⟩ := by
  rw [run_append_tail hw.gap hw.read hw.problems, List.drop_length, List.nil_append]

end Scanner

/-- What has one spelling is a word, unless the scanner reads it as two tokens. -/
theorem Lexeme.isWord_mark {p : Punctuator} (h : (TokenKind.punct p).pieces = [.punct p]) :
    (Lexeme.mark p).IsWord := by
  have hgap : Gap.BeginsNone (mark p).text := by
    cases p <;>
      simp [mark, spelling, TokenKind.text?, Punctuator.text, Gap.BeginsNone, Text.isLineEnd,
        Text.isBlank]
  have hread : read? (mark p).text = punctuation? (mark p).text := by
    cases p <;> exact read?_eq_punctuation? (by decide) (by decide) (by decide) (by decide)
  have hfound : punctuation? (mark p).text = some (mark p) := by
    cases p
    case greaterThanGreaterThan | greaterThanGreaterThanEquals => cases h
    all_goals rfl
  exact ⟨hgap, hread.trans hfound, rfl, h⟩

/-- A word of a text: one token, or a right shift. -/
def Lexeme.IsWritten (w : Lexeme) : Prop :=
  w.IsWord ∨ w = .mark .greaterThanGreaterThan ∨ w = .mark .greaterThanGreaterThanEquals

namespace Scanner

variable {tokens : Array Token} {problems : Array Diagnostic} {pos : Nat}

/-- The two tokens of a right shift. -/
theorem run_shift {p q : Punctuator} (hp : p.text.toList = '>' :: q.text.toList)
    (hq : (TokenKind.punct q).pieces = [.punct q])
    (hread : Lexeme.read? p.text.toList = some (.mark .greaterThan)) (ws : List Lexeme) :
    run tokens problems ⟨pos, p.text.toList ++ tail ws⟩ =
      run ((tokens.push (tokenAt pos (.mark .greaterThan))).push (tokenAt (pos + 1) (.mark q)))
        problems ⟨(tokenAt (pos + 1) (.mark q)).stop, tail ws⟩ := by
  have hg : Gap.BeginsNone p.text.toList := by
    simp [hp, Gap.BeginsNone, Text.isLineEnd, Text.isBlank]
  rw [run_append_tail hg hread rfl, hp]
  exact run_word (Lexeme.isWord_mark hq) ws

/-- What the scanner takes where it stands at a word: tokens that begin there, and spell the word if
what comes next does not touch them. -/
theorem exists_run_written {w : Lexeme} (hw : w.IsWritten) (pos : Nat) (ws : List Lexeme) :
    ∃ t ts stop, (∀ (tokens : Array Token) (problems : Array Diagnostic),
        run tokens problems ⟨pos, w.text ++ tail ws⟩ =
          run (tokens ++ (t :: ts).toArray) problems ⟨stop, tail ws⟩) ∧
      t.start = pos ∧
      ∀ us vs, (∀ u ∈ us.head?, u.start ≠ stop) → Written us vs →
        Written (t :: ts ++ us) (w :: vs) := by
  rcases hw with hw | rfl | rfl
  · refine ⟨tokenAt pos w, [], _, fun tokens problems => run_word hw ws, rfl, ?_⟩
    intro us vs hgap h
    exact .single ⟨rfl, rfl, rfl⟩ hw.pieces hgap h
  · have hread : Lexeme.read? Punctuator.greaterThanGreaterThan.text.toList =
        some (.mark .greaterThan) := by decide +kernel
    refine ⟨tokenAt pos (.mark .greaterThan), [tokenAt (pos + 1) (.mark .greaterThan)], _,
      fun tokens problems => run_shift (q := .greaterThan) (by decide) rfl hread ws, rfl, ?_⟩
    intro us vs _ h
    exact .joined (if_pos ⟨rfl, rfl⟩) rfl h
  · have hread : Lexeme.read? Punctuator.greaterThanGreaterThanEquals.text.toList =
        some (.mark .greaterThan) := by decide +kernel
    refine ⟨tokenAt pos (.mark .greaterThan), [tokenAt (pos + 1) (.mark .greaterThanEquals)], _,
      fun tokens problems => run_shift (q := .greaterThanEquals) (by decide) rfl hread ws, rfl, ?_⟩
    intro us vs _ h
    exact .joined (if_pos ⟨rfl, rfl⟩) rfl h

/-- Words with a blank before each are read as tokens that spell them, without a report. -/
theorem exists_written_run {ws : List Lexeme} (h : ∀ w ∈ ws, w.IsWritten) (pos : Nat) :
    ∃ ts last, (∀ (tokens : Array Token) (problems : Array Diagnostic),
        run tokens problems ⟨pos, tail ws⟩ = (⟨tokens.toList ++ ts, last⟩, problems)) ∧
      last.kind = .endOfFile ∧ Written ts ws ∧ ∀ u ∈ ts.head?, u.start ≠ pos := by
  induction ws generalizing pos with
  | nil =>
    refine ⟨[], lastToken pos, fun tokens problems => ?_, rfl, .nil, by simp⟩
    rw [List.append_nil]
    exact run_nil
  | cons w ws ih =>
    obtain ⟨hw, hws⟩ := List.forall_mem_cons.mp h
    obtain ⟨t, ts, stop, hrun, hstart, hwritten⟩ := exists_run_written hw (pos + 1) ws
    obtain ⟨us, last, hrest, hlast, hus, hapart⟩ := ih hws stop
    refine ⟨t :: ts ++ us, last, fun tokens problems => ?_, hlast, hwritten us ws hapart hus, ?_⟩
    · have hcons : tail (w :: ws) = ' ' :: (w.text ++ tail ws) := rfl
      rw [hcons, run_blank, hrun, hrest]
      simp
    · rintro u ⟨rfl⟩
      rw [hstart]
      omega

end Scanner

theorem toList_print {w : Lexeme} {ws : List Lexeme} :
    (print (w :: ws)).toList = w.text ++ Scanner.tail ws := by
  have h (c : List Char) (ds : List (List Char)) :
      [' '].intercalate (c :: ds) = c ++ ds.flatMap (' ' :: ·) := by
    induction ds generalizing c with
    | nil => simp
    | cons d ds ih => simp [List.intercalate_cons_cons, ih]
  rw [print, String.toList_ofList, List.map_cons, h, Scanner.tail, List.flatMap_map]

/-- Words with one blank between any two are read as tokens that spell them, without a report. -/
theorem scan_print {ws : List Lexeme} (h : ∀ w ∈ ws, w.IsWritten) :
    Written (scan (print ws)).1.tokens ws ∧ (scan (print ws)).1.endOfFile.kind = .endOfFile ∧
      (scan (print ws)).2 = #[] := by
  cases ws with
  | nil =>
    have hscan : scan (print []) = (⟨[], Scanner.lastToken 0⟩, #[]) := Scanner.run_nil
    rw [hscan]
    exact ⟨.nil, rfl, rfl⟩
  | cons w ws =>
    obtain ⟨hw, hws⟩ := List.forall_mem_cons.mp h
    obtain ⟨t, ts, stop, hrun, -, hwritten⟩ := Scanner.exists_run_written hw 0 ws
    obtain ⟨us, last, hrest, hlast, hus, hapart⟩ := Scanner.exists_written_run hws stop
    have hscan : scan (print (w :: ws)) = (⟨t :: ts ++ us, last⟩, #[]) := by
      rw [scan, Scanner.ofText, toList_print, hrun, hrest]
      simp
    rw [hscan]
    exact ⟨hwritten us ws hapart hus, hlast, rfl⟩

/-! ### The words of expressions -/

theorem Gap.beginsNone_of_isIdentifierStart {c : Char} {cs : List Char}
    (h : Text.isIdentifierStart c = true) : Gap.BeginsNone (c :: cs) := by
  refine ⟨Text.isLineEnd_of_isIdentifierStart h, Text.isBlank_of_isIdentifierStart h, ?_⟩
  rintro rfl
  rw [Text.isIdentifierStart_of_lt (by decide)] at h
  cases h

theorem Lexeme.read?_of_isIdentifierStart {c : Char} {cs : List Char}
    (h : Text.isIdentifierStart c = true) : read? (c :: cs) = some (identifier c cs) := by
  have hne {d : Char} (hd : Text.isIdentifierStart d = false) : c ≠ d := by
    rintro rfl
    rw [h] at hd
    cases hd
  have hdouble := hne (Text.isIdentifierStart_of_lt (c := '"') (by decide))
  have hsingle := hne (Text.isIdentifierStart_of_lt (c := '\'') (by decide))
  have hat := hne (Text.isIdentifierStart_of_lt (c := '@') (by decide))
  have hdot := hne (Text.isIdentifierStart_of_lt (c := '.') (by decide))
  simp [read?, hdouble, hsingle, hat, hdot, h, Text.isDigit_of_isIdentifierStart h]

theorem Identifier.IsPlain.isWord {i : Identifier} (h : i.IsPlain) : i.word.IsWord := by
  obtain ⟨c, cs, htext, hc, hcs⟩ := h.text
  have htake := List.takeWhile_eq_self_iff.mpr hcs
  cases hv : i.isVerbatim with
  | false =>
    have hword : i.word = ⟨.identifier, c :: cs, {}, []⟩ := by simp [word, hv, htext]
    have hname : Keyword.ofText? (String.ofList (c :: cs)) = none := by
      rw [← htext, String.ofList_toList]
      exact h.unreserved hv
    have hread : Lexeme.identifier c cs = ⟨.identifier, c :: cs, {}, []⟩ := by
      simp only [Lexeme.identifier, htake, hname]
    rw [hword]
    exact ⟨Gap.beginsNone_of_isIdentifierStart hc,
      (Lexeme.read?_of_isIdentifierStart hc).trans (congrArg some hread), rfl, rfl⟩
  | true =>
    have hword : i.word = ⟨.identifier, '@' :: c :: cs, { verbatim := true }, []⟩ := by
      simp [word, hv, htext]
    have hne : c ≠ '"' := by
      rintro rfl
      rw [Text.isIdentifierStart_of_lt (by decide)] at hc
      cases hc
    rw [hword]
    refine ⟨⟨by decide, by decide, by simp⟩, ?_, rfl, rfl⟩
    simp [Lexeme.read?, Lexeme.verbatim?, hne, hc, Lexeme.verbatimIdentifier, htake]

/-- What was read and reported stays. -/
theorem Scanner.exists_append_run (tokens : Array Token) (problems : Array Diagnostic)
    (s : Scanner) : ∃ (ts : List Token) (ds : List Diagnostic),
      (run tokens problems s).1.tokens = tokens.toList ++ ts ∧
        (run tokens problems s).2.toList = problems.toList ++ ds := by
  fun_induction run tokens problems s with
  | case1 tokens problems s h => exact ⟨[], s.next.problems, by simp, by simp⟩
  | case2 tokens problems s l h ih =>
    obtain ⟨ts, ds, hts, hds⟩ := ih
    exact ⟨s.next.token :: ts, s.next.problems ++ ds, by simp [hts], by simp [hds]⟩

/-- The lexeme of a text that the scanner reads as one clean token which is all of it. -/
theorem Scanner.read?_of_scan {text : String} {t : Token} (htokens : (scan text).1.tokens = [t])
    (hclean : (scan text).2 = #[]) (hkind : t.kind ≠ .identifier) (htext : t.text = text) :
    Gap.BeginsNone text.toList ∧
      Lexeme.read? text.toList = some ⟨t.kind, text.toList, t.flags, []⟩ := by
  cases h : (Gap.read 0 false [] text.toList).lexeme? with
  | none =>
    have hrun : scan text = _ := run_of_none (s := .ofText text) h
    simp [hrun] at htokens
  | some l =>
    have hrun : scan text = _ := run_of_some (s := .ofText text) h
    have hread := Gap.lexeme?_read 0 false [] text.toList
    have hle := Gap.length_rest_read 0 false [] text.toList
    obtain ⟨ts, ds, hts, hds⟩ := exists_append_run (#[].push (ofText text).next.token)
      ((#[] : Array Diagnostic) ++ (ofText text).next.problems) (ofText text).next.after
    rw [← hrun] at hts hds
    generalize hg : Gap.read 0 false [] text.toList = g at h hread hle
    have hnext : (ofText text).next = ⟨tokenAfter g l, ⟨(tokenAfter g l).stop,
        g.rest.drop l.text.length⟩, g.problems ++ placed g.stop l.problems⟩ := by
      simp only [next, ofText, hg, h]
    rw [hnext] at hts hds
    obtain ⟨rfl, -⟩ : t = tokenAfter g l ∧ ts = [] := by simpa [htokens] using hts
    obtain ⟨-, hplaced, -⟩ : g.problems = [] ∧ placed g.stop l.problems = [] ∧ ds = [] := by
      simpa [hclean] using hds
    have hl : l.text = text.toList := by
      have hplain : tokenText l = String.ofList l.text := by
        rw [tokenText, if_neg fun hv => hkind hv.1]
      rw [← htext, tokenAfter, hplain, String.toList_ofList]
    have hlexeme := hread.symm.trans h
    have hrest : g.rest = text.toList := by
      have hbegins := hl ▸ (Lexeme.readFrom_read? hlexeme).text
      exact (hbegins.eq_of_length_le hle).symm
    rw [hrest] at hlexeme
    have hne : text.toList ≠ [] := hl ▸ Lexeme.text_ne_nil_of_read? hlexeme
    have hgap : Gap.BeginsNone text.toList :=
      Gap.beginsNone_of_rest_read hne ((congrArg Gap.rest hg).trans hrest)
    have hflags : (tokenAfter g l).flags = l.flags := by
      have hg' : g = ⟨0, false, [], text.toList, some l⟩ :=
        hg.symm.trans (Gap.read_of_beginsNone hgap hlexeme)
      have hbreak := Lexeme.afterLineBreak_of_read? hlexeme
      rw [hg', tokenAfter, ← hbreak]
    have hproblems : l.problems = [] := List.map_eq_nil_iff.mp hplaced
    refine ⟨hgap, hlexeme.trans (congrArg some ?_)⟩
    rw [hflags, ← hl, ← hproblems]
    rfl

theorem Literal.IsClean.isWord {l : Literal} (h : l.IsClean) : l.word.IsWord := by
  obtain ⟨t, htokens, hclean, hkind, htext, hflags⟩ := h
  have htoken := LiteralKind.token_of_literalKind? hkind
  have hne : t.kind ≠ .identifier := by
    rw [htoken]
    cases l.kind <;> simp [LiteralKind.token]
  obtain ⟨hgap, hread⟩ := Scanner.read?_of_scan htokens hclean hne htext
  rw [htoken, hflags] at hread
  refine ⟨hgap, hread, rfl, ?_⟩
  show l.kind.token.pieces = [l.kind.token]
  cases l.kind <;> rfl

theorem Lexeme.isWritten_mark (p : Punctuator) : (Lexeme.mark p).IsWritten := by
  by_cases h : (TokenKind.punct p).pieces = [.punct p]
  · exact .inl (isWord_mark h)
  · cases p
    case greaterThanGreaterThan => exact .inr (.inl rfl)
    case greaterThanGreaterThanEquals => exact .inr (.inr rfl)
    all_goals exact absurd rfl h

theorem Expr.forall_mem_argumentWords {post : Lexeme → Prop} {as : List Expr}
    (hcomma : post (.mark .comma)) (has : ∀ a ∈ as, ∀ w ∈ a.words, post w) :
    ∀ w ∈ argumentWords as, post w := by
  have hmore (as : List Expr) (has : ∀ a ∈ as, ∀ w ∈ a.words, post w) :
      ∀ w ∈ moreWords as, post w := by
    induction as with
    | nil => simp
    | cons a as ih =>
      obtain ⟨ha, has⟩ := List.forall_mem_cons.mp has
      simp only [moreWords, List.forall_mem_cons, List.forall_mem_append]
      exact ⟨hcomma, ha, ih has⟩
  cases as with
  | nil => simp
  | cons a as =>
    obtain ⟨ha, has⟩ := List.forall_mem_cons.mp has
    exact List.forall_mem_append.mpr ⟨ha, hmore as has⟩

theorem Expr.Printable.isWritten {e : Expr} (h : e.Printable) : ∀ w ∈ e.words, w.IsWritten := by
  have hmark := Lexeme.isWritten_mark
  have hthis : (Lexeme.spelling (.keyword .kwThis)).IsWord :=
    ⟨Gap.beginsNone_of_isIdentifierStart (c := 't') (by decide +kernel), by decide +kernel, rfl, rfl⟩
  have hnone : ∀ w ∈ ([] : List Lexeme), w.IsWritten := by simp
  induction h with
  | identifier hi => simpa using .inl hi.isWord
  | literal hl => simpa using .inl hl.isWord
  | thisWord r => simpa using .inl hthis
  | parenthesized r _ ih =>
    simp only [words, List.forall_mem_cons, List.forall_mem_append]
    exact ⟨hmark _, ih, hmark _, hnone⟩
  | binary r s _ _ _ _ _ ihl ihe =>
    simp only [words, List.forall_mem_cons, List.forall_mem_append]
    exact ⟨ihl, hmark _, ihe⟩
  | assignment r s _ _ _ _ ihl ihe =>
    simp only [words, List.forall_mem_cons, List.forall_mem_append]
    exact ⟨ihl, hmark _, ihe⟩
  | conditional r _ _ _ _ ihc iht ihf =>
    simp only [words, List.forall_mem_cons, List.forall_mem_append]
    exact ⟨ihc, hmark _, iht, hmark _, ihf⟩
  | prefixUnary r s _ _ _ ih =>
    simp only [words, List.forall_mem_cons]
    exact ⟨hmark _, ih⟩
  | postfixUnary r s _ _ _ ih =>
    simp only [words, List.forall_mem_cons, List.forall_mem_append]
    exact ⟨ih, hmark _, hnone⟩
  | memberAccess r s _ _ hi _ ih =>
    simp only [words, List.forall_mem_cons, List.forall_mem_append]
    exact ⟨ih, hmark _, .inl hi.isWord, hnone⟩
  | invocation r _ _ _ _ ih ihas =>
    simp only [words, List.forall_mem_cons, List.forall_mem_append]
    exact ⟨ih, hmark _, forall_mem_argumentWords (hmark _) ihas, hmark _, hnone⟩
  | elementAccess r _ _ _ _ ih ihas =>
    simp only [words, List.forall_mem_cons, List.forall_mem_append]
    exact ⟨ih, hmark _, forall_mem_argumentWords (hmark _) ihas, hmark _, hnone⟩

end

/-! ## Lexemes in a row

Lexemes may also touch each other. The scanner takes them one by one, each with a blank before it or
touching the one before it, and reports nothing.
-/

namespace Lexeme

theorem isWord_keyword (s : SpecialType) : (spelling (.keyword s.keyword)).IsWord := by
  cases s <;>
    exact ⟨Gap.beginsNone_of_isIdentifierStart (by decide +kernel), by decide +kernel, rfl, rfl⟩

theorem isWord_letter {c : Char} (hc : Text.isIdentifierStart c = true)
    (hword : Keyword.ofText? (String.ofList [c]) = none) :
    IsWord ⟨.identifier, [c], {}, []⟩ := by
  refine ⟨Gap.beginsNone_of_isIdentifierStart hc, ?_, rfl, rfl⟩
  rw [read?_of_isIdentifierStart hc, identifier, List.takeWhile_nil, hword]

/-! ### Lexemes that touch the next one -/

theorem read?_letter_append {c d : Char} (hc : Text.isIdentifierStart c = true)
    (hd : Text.isIdentifierPart d = false) (hword : Keyword.ofText? (String.ofList [c]) = none)
    (cs : List Char) : read? (c :: d :: cs) = some ⟨.identifier, [c], {}, []⟩ := by
  rw [read?_of_isIdentifierStart hc, identifier, List.takeWhile_cons_of_neg (by simp [hd]), hword]

theorem read?_semicolon_append (cs : List Char) : read? (';' :: cs) = some (mark .semicolon) := by
  rw [read?_eq_punctuation? (by decide) (by decide) (by decide) (Bool.or_false _)]
  rfl

end Lexeme

theorem Gap.beginsNone_cons {c : Char} (hline : Text.isLineEnd c = false)
    (hblank : Text.isBlank c = false) (hslash : c ≠ '/') (cs : List Char) : BeginsNone (c :: cs) :=
  ⟨hline, hblank, fun hc => absurd hc hslash⟩

namespace Scanner

/-- Characters that are read as lexemes in a row, each with a blank before it or nothing. -/
inductive Lexes : List Char → List Lexeme → Prop
  | nil : Lexes [] []
  | blank {cs : List Char} {ws : List Lexeme} (h : Lexes cs ws) : Lexes (' ' :: cs) ws
  | lexeme {cs : List Char} {w : Lexeme} {ws : List Lexeme} (hgap : Gap.BeginsNone (w.text ++ cs))
      (hread : Lexeme.read? (w.text ++ cs) = some w) (hclean : w.problems = []) (h : Lexes cs ws) :
      Lexes (w.text ++ cs) (w :: ws)

variable {cs : List Char} {w : Lexeme} {ws : List Lexeme}

theorem Lexes.word (hw : w.IsWord) (h : Lexes cs ws) : Lexes (w.text ++ ' ' :: cs) (w :: ws) :=
  .lexeme (hw.gap.append_blank cs) (Lexeme.read?_append_blank cs hw.read hw.problems) hw.problems
    (.blank h)

theorem Lexes.mark {p : Punctuator} {c : Char} (hc : (Lexeme.mark p).text = [c])
    (hp : (TokenKind.punct p).pieces = [.punct p]) (h : Lexes cs ws) :
    Lexes (c :: ' ' :: cs) (Lexeme.mark p :: ws) := by
  have hword := h.word (Lexeme.isWord_mark hp)
  rwa [hc] at hword

/-- Punctuation that touches what comes next. -/
theorem Lexes.touching {p : Punctuator} {c : Char} (hc : (Lexeme.mark p).text = [c])
    (hslash : c ≠ '/') (hp : (TokenKind.punct p).pieces = [.punct p])
    (hread : Lexeme.read? (c :: cs) = some (Lexeme.mark p)) (h : Lexes cs ws) :
    Lexes (c :: cs) (Lexeme.mark p :: ws) := by
  have htext : (Lexeme.mark p).text ++ cs = c :: cs := by rw [hc, List.singleton_append]
  have hchar := (Lexeme.isWord_mark hp).gap
  rw [hc] at hchar
  have hgap := Gap.beginsNone_cons hchar.1 hchar.2.1 hslash cs
  rw [← htext] at hgap hread ⊢
  exact .lexeme hgap hread rfl h

/-- The scanner takes the lexemes one by one, and reports nothing. -/
theorem Lexes.exists_run (h : Lexes cs ws) (pos : Nat) : ∃ ts last,
    (∀ (tokens : Array Token) (problems : Array Diagnostic),
      run tokens problems ⟨pos, cs⟩ = (⟨tokens.toList ++ ts, last⟩, problems)) ∧
      last.kind = .endOfFile ∧ List.Forall₂ Token.Spells ts ws := by
  induction h generalizing pos with
  | nil =>
    refine ⟨[], lastToken pos, fun tokens problems => ?_, rfl, .nil⟩
    rw [run_nil, List.append_nil]
  | blank h ih =>
    obtain ⟨ts, last, hrun, hlast, hts⟩ := ih (pos + 1)
    exact ⟨ts, last, fun tokens problems => run_blank.trans (hrun tokens problems), hlast, hts⟩
  | @lexeme cs w ws hgap hread hclean h ih =>
    obtain ⟨ts, last, hrun, hlast, hts⟩ := ih (tokenAt pos w).stop
    refine ⟨tokenAt pos w :: ts, last, fun tokens problems => ?_, hlast, .cons ⟨rfl, rfl, rfl⟩ hts⟩
    rw [run_of_read? hgap hread hclean, List.drop_left, hrun]
    simp

end Scanner

end CSharpFront
