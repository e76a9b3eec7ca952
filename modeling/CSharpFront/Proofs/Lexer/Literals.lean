import Mathlib.Data.List.TakeWhile
import CSharpFront.Proofs.Lexer.Faults
import CSharpFront.Proofs.Lexer.PlainNames
/-!
Literals of strings and characters. The scanner takes whatever stands between two quotes, up to the
end of the line, and says afterwards what is wrong with it. Main statement: nothing is reported
about a literal just if its text is one of the grammar, and its flags say what is reported.
-/

namespace CSharpFront

open Text (byteCount)

/-! ### The grammar -/

/-- An escape sequence with its backslash: one of the simple ones, or a letter and as many
hexadecimal digits as it asks for. -/
inductive IsEscape : List Char → Prop
  | simple {c : Char} (hc : c ∈ ['\'', '"', '\\', '0', 'a', 'b', 'f', 'n', 'r', 't', 'v']) :
      IsEscape ['\\', c]
  | digits {letter : Char} {least most : Nat} {ds : List Char}
      (h : (letter, least, most) ∈ [('u', 4, 4), ('U', 8, 8), ('x', 1, 4)])
      (hds : ∀ d ∈ ds, Text.isHexDigit d = true) (hleast : least ≤ ds.length)
      (hmost : ds.length ≤ most) : IsEscape ('\\' :: letter :: ds)

/-- A number of characters, each as it stands or as an escape sequence, none of which ends the
literal. -/
inductive Inside (quote : Char) : Nat → List Char → Prop
  | nil : Inside quote 0 []
  | char {c : Char} {n : Nat} {cs : List Char}
      (hc : c ≠ quote ∧ c ≠ '\\' ∧ c ≠ '\r' ∧ c ≠ '\n') (h : Inside quote n cs) :
      Inside quote (n + 1) (c :: cs)
  | escape {es : List Char} {n : Nat} {cs : List Char} (he : IsEscape es) (h : Inside quote n cs) :
      Inside quote (n + 1) (es ++ cs)

/-- Any characters, quotes doubled. -/
inductive InsideVerbatim : List Char → Prop
  | nil : InsideVerbatim []
  | char {c : Char} {cs : List Char} (hc : c ≠ '"') (h : InsideVerbatim cs) :
      InsideVerbatim (c :: cs)
  | quote {cs : List Char} (h : InsideVerbatim cs) : InsideVerbatim ('"' :: '"' :: cs)

/-- The texts of the literals of strings and characters. -/
inductive IsLiteral : TokenKind → List Char → Prop
  | string {n : Nat} {cs : List Char} (h : Inside '"' n cs) :
      IsLiteral .stringLiteral ('"' :: (cs ++ ['"']))
  | verbatimString {cs : List Char} (h : InsideVerbatim cs) :
      IsLiteral .stringLiteral ('@' :: '"' :: (cs ++ ['"']))
  | character {cs : List Char} (h : Inside '\'' 1 cs) :
      IsLiteral .characterLiteral ('\'' :: (cs ++ ['\'']))

/-! ### Escape sequences -/

namespace Lexeme

theorem isEscape_hexEscape {letter : Char} {least most : Nat} {cs : List Char}
    (h : (letter, least, most) ∈ [('u', 4, 4), ('U', 8, 8), ('x', 1, 4)])
    (hvalid : (hexEscape least most cs).isValid = true) :
    IsEscape ('\\' :: (letter :: cs).take (hexEscape least most cs).length) := by
  have hfront := (List.takeWhile_prefix (l := cs.take most) Text.isHexDigit).trans
    (List.take_prefix most cs)
  have hle := (List.takeWhile_prefix (l := cs.take most) Text.isHexDigit).length_le
  have htake : cs.take ((cs.take most).takeWhile Text.isHexDigit).length =
      (cs.take most).takeWhile Text.isHexDigit := (List.prefix_iff_eq_take.mp hfront).symm
  simp only [hexEscape, decide_eq_true_eq] at hvalid ⊢
  rw [List.take_succ_cons, htake]
  refine .digits h (fun d hd => List.mem_takeWhile_imp hd) hvalid ?_
  rw [List.length_take] at hle
  omega

/-- What is read as an escape sequence is one if it is said to be. -/
theorem isEscape_of_isValid {cs : List Char} (h : (escape cs).isValid = true) :
    IsEscape ('\\' :: cs.take (escape cs).length) := by
  unfold escape at h ⊢
  split
  · cases h
  next c cs =>
    simp only at h
    split
    next hc =>
      subst hc
      exact isEscape_hexEscape (by simp) (by simpa using h)
    next hu =>
    split
    next hc =>
      subst hc
      exact isEscape_hexEscape (by simp) (by simpa using h)
    next hU =>
    split
    next hc =>
      subst hc
      exact isEscape_hexEscape (by simp) (by simpa using h)
    next hx =>
    rw [if_neg hu, if_neg hU, if_neg hx] at h
    split at h
    · cases h
    next hline =>
      rw [if_neg hline]
      exact .simple (by simpa using h)

/-- Hexadecimal digits are taken as long as there are some, up to the most. -/
theorem exists_hexEscape_append {least most : Nat} {ds : List Char} (rest : List Char)
    (hds : ∀ d ∈ ds, Text.isHexDigit d = true) (hleast : least ≤ ds.length)
    (hmost : ds.length ≤ most) :
    ∃ more, more <+: rest ∧ (∀ d ∈ more, Text.isHexDigit d = true) ∧
      hexEscape least most (ds ++ rest) = ⟨ds.length + more.length + 1, true⟩ := by
  have hdigits : ((ds ++ rest).take most).takeWhile Text.isHexDigit =
      ds ++ (rest.take (most - ds.length)).takeWhile Text.isHexDigit := by
    rw [List.take_append, List.take_of_length_le hmost, List.takeWhile_append_of_pos hds]
  refine ⟨(rest.take (most - ds.length)).takeWhile Text.isHexDigit,
    (List.takeWhile_prefix _).trans (List.take_prefix _ _),
    fun d hd => List.mem_takeWhile_imp hd, ?_⟩
  simp only [hexEscape, hdigits, List.length_append, Escape.mk.injEq, true_and, decide_eq_true_eq]
  omega

/-- An escape sequence is read as one, together with the digits that follow it if it can have
more. -/
theorem exists_escape_append {es : List Char} (he : IsEscape es) (rest : List Char) :
    ∃ cs more, es = '\\' :: cs ∧ more <+: rest ∧ (∀ d ∈ more, Text.isHexDigit d = true) ∧
      escape (cs ++ rest) = ⟨cs.length + more.length, true⟩ := by
  cases he with
  | simple hc =>
    refine ⟨_, [], rfl, List.nil_prefix, by simp, ?_⟩
    simp only [List.mem_cons, List.not_mem_nil, or_false] at hc
    rcases hc with rfl | rfl | rfl | rfl | rfl | rfl | rfl | rfl | rfl | rfl | rfl <;> rfl
  | @digits letter least most ds h hds hleast hmost =>
    obtain ⟨more, hfront, hmore, hread⟩ := exists_hexEscape_append rest hds hleast hmost
    refine ⟨letter :: ds, more, rfl, hfront, hmore, ?_⟩
    have hescape : escape (letter :: (ds ++ rest)) = hexEscape least most (ds ++ rest) := by
      simp only [List.mem_cons, Prod.mk.injEq, List.not_mem_nil, or_false] at h
      rcases h with ⟨rfl, rfl, rfl⟩ | ⟨rfl, rfl, rfl⟩ | ⟨rfl, rfl, rfl⟩ <;> rfl
    rw [List.cons_append, hescape, hread, List.length_cons]
    congr 1
    omega

end Lexeme

/-! ### What is between the quotes -/

namespace Inside

variable {quote : Char} {n : Nat} {cs : List Char}

theorem isEscape_head {es : List Char} (h : IsEscape es) : es.head? = some '\\' := by
  cases h <;> rfl

/-- A hexadecimal digit stands for itself. -/
theorem of_cons {d : Char} (hd : Text.isHexDigit d = true) (h : Inside quote n (d :: cs)) :
    ∃ k, n = k + 1 ∧ Inside quote k cs := by
  generalize hds : d :: cs = ds at h
  cases h with
  | nil => cases hds
  | char _ h =>
    obtain ⟨-, rfl⟩ := List.cons.inj hds
    exact ⟨_, rfl, h⟩
  | @escape es _ rest he h =>
    have hhead : (es ++ rest).head? = some '\\' := by
      rw [List.head?_append, isEscape_head he, Option.some_or]
    rw [← hds] at hhead
    obtain rfl := Option.some.inj hhead
    exact absurd hd (by decide)

theorem of_append {ds : List Char} (hds : ∀ d ∈ ds, Text.isHexDigit d = true)
    (h : Inside quote n (ds ++ cs)) : ∃ k, n = k + ds.length ∧ Inside quote k cs := by
  induction ds generalizing n with
  | nil => exact ⟨n, rfl, h⟩
  | cons d ds ih =>
    obtain ⟨hd, hds⟩ := List.forall_mem_cons.mp hds
    obtain ⟨m, rfl, hmore⟩ := of_cons hd h
    obtain ⟨k, rfl, hrest⟩ := ih hds hmore
    exact ⟨k, rfl, hrest⟩

end Inside

namespace Lexeme

theorem problems_isPrefix_quotedBody (quote : Char) (b : Body) (cs : List Char) :
    b.problems <+: (quotedBody quote b cs).problems := by
  fun_induction quotedBody quote b cs with
  | case1 | case2 | case4 => exact List.prefix_rfl
  | case3 b cs _ ih =>
    refine List.IsPrefix.trans ?_ ih
    simp only [Body.addEscape]
    split
    · exact List.prefix_rfl
    · exact List.prefix_append _ _
  | case5 _ _ _ _ _ _ ih => exact ih

/-- Where nothing was wrong, there are characters and escape sequences up to the quote. -/
theorem exists_inside_quotedBody {quote : Char} {b : Body} {cs : List Char}
    (hopen : b.isClosed = false) (hclosed : (quotedBody quote b cs).isClosed = true)
    (hclean : (quotedBody quote b cs).problems = []) :
    ∃ n inside, Inside quote n inside ∧ inside ++ [quote] <+: cs ∧
      (quotedBody quote b cs).length = b.length + (inside.length + 1) ∧
      (quotedBody quote b cs).count = b.count + n := by
  fun_induction quotedBody quote b cs with
  | case1 | case4 =>
    rw [hopen] at hclosed
    cases hclosed
  | case2 b cs => exact ⟨0, [], .nil, by simp, rfl, rfl⟩
  | case3 b cs hquote ih =>
    obtain ⟨n, inside, hinside, hfront, hlength, hcount⟩ := ih hopen hclosed hclean
    have hvalid : (escape cs).isValid = true := by
      have hnone := problems_isPrefix_quotedBody quote (b.addEscape 1 cs)
        (cs.drop (escape cs).length)
      rw [hclean, List.prefix_nil] at hnone
      by_contra hinvalid
      simp [Body.addEscape, hinvalid] at hnone
    have htake : (cs.take (escape cs).length).length = (escape cs).length :=
      List.length_take_of_le (length_escape_le cs)
    refine ⟨n + 1, '\\' :: cs.take (escape cs).length ++ inside,
      .escape (isEscape_of_isValid hvalid) hinside, ?_, ?_, ?_⟩
    · rw [List.cons_append, List.cons_append, List.prefix_cons_inj, List.append_assoc]
      exact isPrefix_append_drop (List.take_prefix _ _) (by rwa [htake])
    · rw [hlength, Body.length_addEscape, List.cons_append, List.length_cons, List.length_append,
        htake]
      omega
    · rw [hcount]
      simp only [Body.addEscape]
      omega
  | case5 b c cs hquote hescape hline ih =>
    obtain ⟨n, inside, hinside, hfront, hlength, hcount⟩ := ih hopen hclosed hclean
    simp only [Text.isLineEnd, Bool.or_eq_true, beq_iff_eq, not_or] at hline
    refine ⟨n + 1, c :: inside, .char ⟨hquote, hescape, hline.2, hline.1⟩ hinside, ?_, ?_, ?_⟩
    · rw [List.cons_append, List.prefix_cons_inj]
      exact hfront
    · rw [hlength, Body.length_addChar, List.length_cons]
      omega
    · rw [hcount]
      simp only [Body.addChar]
      omega

/-- A body that goes up to the quote without a fault. An escape sequence takes digits that could
stand for themselves, so there can be fewer characters than were written. -/
structure Body.Ends (b : Body) (n : Nat) (after : Body) : Prop where
  isClosed : after.isClosed = true
  problems : after.problems = b.problems
  least : b.count + min n 1 ≤ after.count
  most : after.count ≤ b.count + n

/-- Characters and escape sequences are read up to the quote. -/
theorem ends_quotedBody {quote : Char} (hq : Text.isHexDigit quote = false ∧ quote ≠ '\\')
    {n : Nat} {inside : List Char} (h : Inside quote n inside) (b : Body) :
    b.Ends n (quotedBody quote b (inside ++ [quote])) := by
  induction hlength : inside.length using Nat.strongRecOn generalizing n inside b with
  | _ length ih =>
    cases h with
    | nil =>
      rw [List.nil_append, quotedBody, if_pos rfl]
      exact ⟨rfl, rfl, Nat.le_refl _, Nat.le_refl _⟩
    | @char c n cs hc h =>
      obtain ⟨hquote, hescape, hcr, hlf⟩ := hc
      have hline : ¬ Text.isLineEnd c = true := by simp [Text.isLineEnd, hcr, hlf]
      have hends := ih cs.length (by rw [← hlength]; simp) h (b.addChar c) rfl
      have hcount : (b.addChar c).count = b.count + 1 := rfl
      rw [List.cons_append, quotedBody, if_neg hquote, if_neg hescape, if_neg hline]
      refine ⟨hends.isClosed, hends.problems, ?_, ?_⟩
      · have := hends.least
        omega
      · have := hends.most
        omega
    | @escape es n cs he h =>
      obtain ⟨esc, more, rfl, hmore, hdigits, hread⟩ := exists_escape_append he (cs ++ [quote])
      -- the quote is no digit, so that only characters before it are taken
      obtain ⟨rest, rfl⟩ : more <+: cs := by
        rcases List.prefix_concat_iff.mp hmore with rfl | hfront
        · have hdigit := hdigits quote (by simp)
          rw [hq.1] at hdigit
          cases hdigit
        · exact hfront
      obtain ⟨k, rfl, hrest⟩ := Inside.of_append hdigits h
      have hdrop : (esc ++ (more ++ rest ++ [quote])).drop (esc.length + more.length) =
          rest ++ [quote] := by
        rw [← List.length_append, List.append_assoc, ← List.append_assoc, List.drop_left]
      have hends := ih rest.length (by rw [← hlength]; simp; omega) hrest
        (b.addEscape 1 (esc ++ (more ++ rest ++ [quote]))) rfl
      have hproblems :
          (b.addEscape 1 (esc ++ (more ++ rest ++ [quote]))).problems = b.problems := by
        simp only [Body.addEscape, hread, if_true]
      have hcount : (b.addEscape 1 (esc ++ (more ++ rest ++ [quote]))).count = b.count + 1 := rfl
      rw [List.cons_append, List.cons_append, List.append_assoc, quotedBody, if_neg hq.2.symm,
        if_pos rfl, hread, hdrop]
      refine ⟨hends.isClosed, hends.problems.trans hproblems, ?_, ?_⟩
      · have := hends.least
        omega
      · have := hends.most
        omega

/-! ### What is between the quotes of a verbatim string -/

theorem exists_inside_verbatimBody {b : Body} {cs : List Char} (hopen : b.isClosed = false)
    (hclosed : (verbatimBody b cs).isClosed = true) :
    ∃ inside, InsideVerbatim inside ∧ inside ++ ['"'] <+: cs ∧
      (verbatimBody b cs).length = b.length + (inside.length + 1) := by
  fun_induction verbatimBody b cs with
  | case1 =>
    rw [hopen] at hclosed
    cases hclosed
  | case2 b cs ih =>
    obtain ⟨inside, hinside, hfront, hlength⟩ := ih hopen hclosed
    refine ⟨'"' :: '"' :: inside, .quote hinside, by simpa using hfront, ?_⟩
    rw [hlength, Body.length_addChar, Body.length_addChar, List.length_cons, List.length_cons]
    omega
  | case3 b cs => exact ⟨[], .nil, by simp, rfl⟩
  | case4 b c cs _ hc ih =>
    obtain ⟨inside, hinside, hfront, hlength⟩ := ih hopen hclosed
    refine ⟨c :: inside, .char hc hinside, by simpa using hfront, ?_⟩
    rw [hlength, Body.length_addChar, List.length_cons]
    omega

theorem isClosed_verbatimBody {inside : List Char} (h : InsideVerbatim inside) (b : Body) :
    (verbatimBody b (inside ++ ['"'])).isClosed = true := by
  induction h generalizing b with
  | nil => rfl
  | @char c cs hc _ ih =>
    rw [List.cons_append, verbatimBody.eq_3 _ _ _ fun _ hquote => absurd hquote hc, if_neg hc]
    exact ih _
  | quote _ ih => exact ih _

/-! ### Literals -/

/-- The characters of a literal whose inside goes up to the quote. -/
theorem text_literal {kind : TokenKind} {opening inside cs : List Char} {quote : Char}
    {flags : TokenFlags} {b : Body} {fault? : Option Message} (hfront : inside ++ [quote] <+: cs)
    (hlength : b.length = inside.length + 1) :
    (literal kind opening cs flags b fault?).text = opening ++ (inside ++ [quote]) := by
  have htake := List.prefix_iff_eq_take.mp hfront
  rw [List.length_append, List.length_singleton, ← hlength] at htake
  simp only [literal, htake]

/-- A literal of some kind is read in one of three ways. -/
theorem exists_literal_of_readAs {cs : List Char} {l : Lexeme} (h : ReadAs cs l)
    (hk : l.kind = .stringLiteral ∨ l.kind = .characterLiteral) :
    ∃ rest, l = stringLiteral rest ∨ l = verbatimString rest ∨ l = characterLiteral rest := by
  cases h with
  | string cs => exact ⟨cs, .inl rfl⟩
  | verbatimString cs => exact ⟨cs, .inr (.inl rfl)⟩
  | character cs => exact ⟨cs, .inr (.inr rfl)⟩
  | verbatimIdentifier => simp [Lexeme.verbatimIdentifier] at hk
  | number => simp [kind_number] at hk
  | identifier =>
    simp only [Lexeme.identifier] at hk
    split at hk <;> simp at hk
  | punctuation h =>
    obtain ⟨p, -, rfl⟩ := Option.map_eq_some_iff.mp h
    simp at hk

/-- A literal without a fault is one of the grammar. -/
theorem isLiteral_of_problems {cs : List Char} {l : Lexeme} (h : read? cs = some l)
    (hk : l.kind = .stringLiteral ∨ l.kind = .characterLiteral) (hclean : l.problems = []) :
    IsLiteral l.kind l.text := by
  obtain ⟨rest, rfl | rfl | rfl⟩ := exists_literal_of_readAs (readAs_of_read? h) hk
  · obtain ⟨hproblems, hfault⟩ := List.append_eq_nil_iff.mp hclean
    have hclosed : (quotedBody '"' {} rest).isClosed = true := by
      by_contra hopen
      simp [hopen] at hfault
    obtain ⟨n, inside, hinside, hfront, hlength, -⟩ :=
      exists_inside_quotedBody rfl hclosed hproblems
    rw [stringLiteral, text_literal hfront (hlength.trans (Nat.zero_add _))]
    exact .string hinside
  · obtain ⟨-, hfault⟩ := List.append_eq_nil_iff.mp hclean
    have hclosed : (verbatimBody {} rest).isClosed = true := by
      by_contra hopen
      simp [hopen] at hfault
    obtain ⟨inside, hinside, hfront, hlength⟩ := exists_inside_verbatimBody rfl hclosed
    rw [verbatimString, text_literal hfront (hlength.trans (Nat.zero_add _))]
    exact .verbatimString hinside
  · obtain ⟨hproblems, hfault⟩ := List.append_eq_nil_iff.mp hclean
    have hclosed : (quotedBody '\'' {} rest).isClosed = true := by
      by_contra hopen
      rw [Bool.not_eq_true] at hopen
      simp [hopen] at hfault
    obtain ⟨n, inside, hinside, hfront, hlength, hcount⟩ :=
      exists_inside_quotedBody rfl hclosed hproblems
    obtain rfl : n = 1 := by
      have hcount' : (quotedBody '\'' {} rest).count = n := hcount.trans (Nat.zero_add _)
      by_contra hn
      by_cases hzero : n = 0
      · simp [hclosed, hcount', hzero] at hfault
      · simp [hclosed, hcount', hzero, hn] at hfault
    rw [characterLiteral, text_literal hfront (hlength.trans (Nat.zero_add _))]
    exact .character hinside

/-- Nothing is wrong with what is spelled as the grammar asks. -/
theorem problems_of_isLiteral {l : Lexeme} (h : read? l.text = some l)
    (hl : IsLiteral l.kind l.text) : l.problems = [] := by
  generalize hkind : l.kind = kind at hl
  generalize htext : l.text = text at h hl
  cases hl with
  | @string n cs hinside =>
    obtain rfl : stringLiteral (cs ++ ['"']) = l := Option.some.inj h
    have hends := ends_quotedBody (by decide) hinside {}
    simp [stringLiteral, literal, hends.isClosed, hends.problems]
  | @verbatimString cs hinside =>
    obtain rfl : Lexeme.verbatimString (cs ++ ['"']) = l := Option.some.inj h
    have hclosed := isClosed_verbatimBody hinside {}
    simp [Lexeme.verbatimString, literal, hclosed, problems_verbatimBody]
  | @character cs hinside =>
    obtain rfl : characterLiteral (cs ++ ['\'']) = l := Option.some.inj h
    have hends := ends_quotedBody (by decide) hinside {}
    have hcount : (quotedBody '\'' {} (cs ++ ['\''])).count = 1 :=
      Nat.le_antisymm hends.most hends.least
    simp [characterLiteral, literal, hends.isClosed, hends.problems, hcount]

/-! ### Flags -/

theorem message_of_mem_quotedBody {quote : Char} {b : Body} {cs : List Char}
    (h : ∀ p ∈ b.problems, p.message = .unrecognizedEscape) :
    ∀ p ∈ (quotedBody quote b cs).problems, p.message = .unrecognizedEscape := by
  fun_induction quotedBody quote b cs with
  | case1 | case2 | case4 => exact h
  | case3 b cs _ ih =>
    refine ih fun p hp => ?_
    simp only [Body.addEscape] at hp
    split at hp
    · exact h p hp
    · rcases List.mem_append.mp hp with hp | hp
      · exact h p hp
      · obtain rfl := List.mem_singleton.mp hp
        rfl
  | case5 _ _ _ _ _ _ ih => exact ih h

end Lexeme

/-- Whether a message is about a literal that has no end. -/
def Message.isOfOpen : Message → Bool
  | .newlineInConstant | .unterminatedString => true
  | _ => false

namespace Lexeme

/-- What a literal says of itself: whether it has no end, and whether an escape sequence in it is
none. -/
structure Flagged (l : Lexeme) : Prop where
  unterminated : l.flags.unterminated = true ↔
    ∃ p ∈ l.problems, p.message.isOfOpen = true ∧ p.start = 0 ∧ p.stop = byteCount l.text
  invalidEscape : l.flags.invalidEscape = true ↔
    ∃ p ∈ l.problems, p.message = .unrecognizedEscape

theorem flagged_literal {kind : TokenKind} {opening cs : List Char} {flags : TokenFlags} {b : Body}
    {fault? : Option Message} (hescapes : ∀ p ∈ b.problems, p.message = .unrecognizedEscape)
    (hfault : ∀ m ∈ fault?, m ≠ .unrecognizedEscape)
    (hopen : b.isClosed = false ↔ ∃ m ∈ fault?, m.isOfOpen = true)
    (h : ∃ inside, inside <+: cs ∧ b.Notes opening inside) :
    (literal kind opening cs flags b fault?).Flagged := by
  obtain ⟨inside, hfront, hnotes⟩ := h
  have htext : (literal kind opening cs flags b fault?).text = opening ++ inside := by
    simp only [literal, hnotes.length, ← List.prefix_iff_eq_take.mp hfront]
  have hbytes : byteCount opening + b.bytes = byteCount (opening ++ inside) := by
    rw [hnotes.bytes, Text.byteCount_append]
  have hmem (p : Problem) : p ∈ (literal kind opening cs flags b fault?).problems ↔
      p ∈ b.problems ∨ ∃ m ∈ fault?, p = ⟨m, 0, byteCount (opening ++ inside)⟩ := by
    simp only [literal, hbytes, List.mem_append, Option.mem_toList, Option.mem_def,
      Option.map_eq_some_iff, eq_comm (a := p)]
  refine ⟨?_, ?_⟩
  · rw [htext]
    simp only [hmem]
    constructor
    · intro hflag
      obtain ⟨m, hm, hmessage⟩ := hopen.mp (by simpa [literal] using hflag)
      exact ⟨_, .inr ⟨m, hm, rfl⟩, hmessage, rfl, rfl⟩
    · rintro ⟨p, hp | ⟨m, hm, rfl⟩, hmessage, -, -⟩
      · rw [hescapes p hp] at hmessage
        cases hmessage
      · simpa [literal] using hopen.mpr ⟨m, hm, hmessage⟩
  · simp only [hmem]
    constructor
    · intro hflag
      obtain ⟨p, hp, hmessage⟩ := List.any_eq_true.mp hflag
      exact ⟨p, .inl hp, eq_of_beq hmessage⟩
    · rintro ⟨p, hp | ⟨m, hm, rfl⟩, hmessage⟩
      · exact List.any_eq_true.mpr ⟨p, hp, beq_iff_eq.mpr hmessage⟩
      · exact absurd hmessage (hfault m hm)

theorem flagged_of_read? {cs : List Char} {l : Lexeme} (h : read? cs = some l)
    (hk : l.kind = .stringLiteral ∨ l.kind = .characterLiteral) : l.Flagged := by
  have hescapes (quote : Char) (cs : List Char) :
      ∀ p ∈ (quotedBody quote {} cs).problems, p.message = .unrecognizedEscape :=
    message_of_mem_quotedBody fun _ hp => absurd hp List.not_mem_nil
  obtain ⟨rest, rfl | rfl | rfl⟩ := exists_literal_of_readAs (readAs_of_read? h) hk
  · refine flagged_literal (hescapes _ _) ?_ ?_
      (exists_notes_quotedBody rfl rfl {} rest [] (Body.notes_nil _))
    all_goals cases (quotedBody '"' {} rest).isClosed <;> simp [Message.isOfOpen]
  · refine flagged_literal ?_ ?_ ?_ (exists_notes_verbatimBody {} rest [] (Body.notes_nil _))
    · rw [problems_verbatimBody]
      exact fun _ hp => absurd hp List.not_mem_nil
    all_goals cases (verbatimBody {} rest).isClosed <;> simp [Message.isOfOpen]
  · refine flagged_literal (hescapes _ _) ?_ ?_
      (exists_notes_quotedBody rfl rfl {} rest [] (Body.notes_nil _))
    all_goals
      cases (quotedBody '\'' {} rest).isClosed
      · simp [Message.isOfOpen]
      · simp only [Bool.not_true, Bool.false_eq_true, if_false]
        split_ifs <;> simp [Message.isOfOpen]

end Lexeme

/-! ### The literals of a text -/

/-- A literal of a string or of a character is accepted just if the grammar has its text. It is
marked as one without an end just if that is reported about the whole of it, and as one with a
faulty escape sequence just if one is reported in it. -/
theorem scan_literals {text : String} {t : Token} (ht : t ∈ (scan text).1.toList)
    (hk : t.kind = .stringLiteral ∨ t.kind = .characterLiteral) :
    ((¬ ∃ d ∈ (scan text).2.toList, d.Within t) ↔ IsLiteral t.kind t.text.toList) ∧
      (t.flags.unterminated = true ↔ ∃ d ∈ (scan text).2.toList,
        (d.message = .newlineInConstant ∨ d.message = .unterminatedString) ∧ d.span = t.span) ∧
      (t.flags.invalidEscape = true ↔ ∃ d ∈ (scan text).2.toList,
        d.message = .unrecognizedEscape ∧ d.Within t) := by
  have hname : t.kind ≠ .endOfFile ∧ t.kind ≠ .identifier := by
    rcases hk with hk | hk <;> simp [hk]
  obtain ⟨l, hl⟩ := exists_shows_of_mem_scan ht hname.1
  have hflags : t.flags.unterminated = l.flags.unterminated ∧
      t.flags.invalidEscape = l.flags.invalidEscape := by
    obtain ⟨g, rfl⟩ := hl.token
    exact ⟨rfl, rfl⟩
  rw [hl.toList_text hname.2, hflags.1, hflags.2, hl.kind]
  rw [hl.kind] at hk
  have hflagged := Lexeme.flagged_of_read? hl.read hk
  refine ⟨?_, ?_, ?_⟩
  · have hnone := not_congr (hl.exists_within_iff (P := fun _ => True))
    simp only [true_and, and_true] at hnone
    rw [hnone]
    constructor
    · intro h
      refine Lexeme.isLiteral_of_problems hl.read hk (List.eq_nil_iff_forall_not_mem.mpr ?_)
      exact fun p hp => h ⟨p, hp⟩
    · rintro h ⟨p, hp⟩
      rw [Lexeme.problems_of_isLiteral hl.read h] at hp
      exact List.not_mem_nil hp
  · rw [hflagged.unterminated, ← hl.exists_over_iff (P := fun m => m.isOfOpen = true)]
    refine exists_congr fun d => and_congr_right fun _ => and_congr_left fun _ => ?_
    cases d.message <;> simp [Message.isOfOpen]
  · rw [hflagged.invalidEscape, hl.exists_within_iff]
    exact Iff.rfl

/-- A string that the text ends in, with an escape sequence that lacks digits, after a character
that is spelled with fewer digits than it could have. -/
theorem scan_literals_cutOff :
    let text := "'\\x41' \"\\u12"
    let t : Token := ⟨.stringLiteral, ⟨7, 12⟩, "\"\\u12",
      { unterminated := true, invalidEscape := true }⟩
    t ∈ (scan text).1.toList ∧ t.kind = .stringLiteral ∧ ¬ IsLiteral t.kind t.text.toList ∧
      (∃ d ∈ (scan text).2.toList,
        (d.message = .newlineInConstant ∨ d.message = .unterminatedString) ∧ d.span = t.span) ∧
      ∃ d ∈ (scan text).2.toList, d.message = .unrecognizedEscape ∧ d.Within t := by
  intro text t
  have ht : t ∈ (scan text).1.toList := by
    rw [scan_ofList]
    decide +kernel
  obtain ⟨haccepted, hopen, hescape⟩ := scan_literals ht (.inl rfl)
  obtain ⟨d, hd, hmessage, hwithin⟩ := hescape.mp rfl
  exact ⟨ht, rfl, fun h => haccepted.mpr h ⟨d, hd, hwithin⟩, hopen.mp rfl, d, hd, hmessage, hwithin⟩

end CSharpFront
