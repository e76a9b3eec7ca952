import CSharpFront.Lexer.Lexeme
import CSharpFront.Proofs.Text.Boundary
/-!
What every lexeme is like. It is made of the first characters of those it is read from, it is never
the end of file, and whatever is wrong with it begins and ends between two of its characters.
-/

namespace CSharpFront

/-- Whether a message is about a lexeme. Those about gaps are not. -/
def Message.isOfLexeme : Message → Bool
  | .unrecognizedEscape | .newlineInConstant | .emptyCharacterLiteral | .tooManyCharacters
  | .invalidNumber | .unterminatedString => true
  | _ => false

/-- A fault that begins and ends between two of some characters. -/
structure Problem.LiesIn (cs : List Char) (p : Problem) : Prop where
  isOfLexeme : p.message.isOfLexeme = true
  start : Text.Offset cs p.start
  stop : Text.Offset cs p.stop

theorem Problem.LiesIn.append {cs : List Char} {p : Problem} (h : p.LiesIn cs) (ds : List Char) :
    p.LiesIn (cs ++ ds) :=
  ⟨h.isOfLexeme, h.start.of_isPrefix (List.prefix_append _ _),
    h.stop.of_isPrefix (List.prefix_append _ _)⟩

namespace Lexeme

/-- A lexeme that is read from the front of some characters. -/
structure ReadFrom (cs : List Char) (l : Lexeme) : Prop where
  text : l.text <+: cs
  kind : l.kind ≠ .endOfFile
  problems : ∀ p ∈ l.problems, p.LiesIn l.text
  verbatim : l.kind = .identifier → l.flags.verbatim = true → l.text.head? = some '@'

/-- What begins the characters after a beginning of some characters goes on with it. -/
theorem isPrefix_append_drop {as bs cs : List Char} (ha : as <+: cs)
    (hb : bs <+: cs.drop as.length) : as ++ bs <+: cs := by
  obtain ⟨rest, rfl⟩ := ha
  rw [List.drop_left] at hb
  exact (List.prefix_append_right_inj as).mpr hb

/-! ### Identifiers and punctuation -/

theorem readFrom_identifier (c : Char) (cs : List Char) : (identifier c cs).ReadFrom (c :: cs) := by
  have ht : c :: cs.takeWhile Text.isIdentifierPart <+: c :: cs :=
    List.prefix_cons_inj c |>.mpr (List.takeWhile_prefix _)
  simp only [identifier]
  split
  · exact ⟨ht, by simp, by simp, by simp⟩
  · exact ⟨ht, by simp, by simp, by simp⟩

theorem readFrom_verbatimIdentifier (c : Char) (cs : List Char) :
    (verbatimIdentifier c cs).ReadFrom ('@' :: c :: cs) where
  text := by simp [verbatimIdentifier, List.takeWhile_prefix]
  kind := by simp [verbatimIdentifier]
  problems := by simp [verbatimIdentifier]
  verbatim := by simp [verbatimIdentifier]

theorem readFrom_punctuation? {cs : List Char} {l : Lexeme} (h : punctuation? cs = some l) :
    l.ReadFrom cs := by
  obtain ⟨p, hp, rfl⟩ := Option.map_eq_some_iff.mp h
  have hb := List.find?_some hp
  rw [beginsWith, Bool.and_eq_true] at hb
  exact ⟨List.isPrefixOf_iff_prefix.mp hb.1, by simp, by simp, by simp⟩

/-! ### Numbers -/

theorem integerSuffix_isPrefix (cs : List Char) : integerSuffix cs <+: cs := by
  unfold integerSuffix
  split
  · split
    · split <;> simp
    · split
      · split <;> simp
      · simp
  · split <;> simp
  · simp

theorem readFrom_radixNumber (lead : List Char) (flags : TokenFlags) (isRadixDigit : Char → Bool)
    (cs : List Char) : (radixNumber lead flags isRadixDigit cs).ReadFrom (lead ++ cs) where
  text := by
    simp only [radixNumber, List.append_assoc, List.prefix_append_right_inj]
    exact isPrefix_append_drop (List.takeWhile_prefix _) (integerSuffix_isPrefix _)
  kind := by simp [radixNumber]
  problems := by
    intro p hp
    simp only [radixNumber] at hp ⊢
    split at hp
    · obtain rfl := List.mem_singleton.mp hp
      refine ⟨rfl, Text.offset_zero _, ?_⟩
      rw [List.append_assoc]
      exact Text.offset_append _ _
    · simp at hp
  verbatim := by simp [radixNumber]

theorem fraction_isPrefix (cs : List Char) : fraction cs <+: cs := by
  unfold fraction
  split
  · split
    · exact List.prefix_cons_inj _ |>.mpr (List.takeWhile_prefix _)
    · simp
  · simp

theorem exponent_isPrefix (cs : List Char) : (exponent cs).1 ++ (exponent cs).2 <+: cs := by
  unfold exponent
  split
  · split
    · split
      · simp [List.takeWhile_prefix]
      · simp only [List.singleton_append, List.prefix_cons_inj]
        exact List.takeWhile_prefix _
    · simp
  · split <;> simp
  · simp

/-- The suffix of a decimal number, whichever kind it is of. -/
theorem decimalSuffix_isPrefix (isReal : Bool) (cs : List Char) :
    (if !((cs.take 1).takeWhile isRealSuffix).isEmpty then (cs.take 1).takeWhile isRealSuffix
      else if isReal then [] else integerSuffix cs) <+: cs := by
  split
  · exact (List.takeWhile_prefix _).trans (List.take_prefix _ _)
  · split
    · exact List.nil_prefix
    · exact integerSuffix_isPrefix cs

theorem readFrom_decimalNumber (whole cs : List Char) :
    (decimalNumber whole cs).ReadFrom (whole ++ cs) where
  text := by
    have he := isPrefix_append_drop (fraction_isPrefix cs)
      (exponent_isPrefix (cs.drop (fraction cs).length))
    have hs (isReal : Bool) := isPrefix_append_drop he (decimalSuffix_isPrefix isReal _)
    simp only [List.append_assoc, List.length_append] at hs
    simp only [decimalNumber, List.append_assoc, List.prefix_append_right_inj, Nat.add_assoc]
    exact hs _
  kind := by simp [decimalNumber]
  problems := by
    intro p hp
    simp only [decimalNumber] at hp ⊢
    split at hp
    · obtain rfl := List.mem_singleton.mp hp
      exact ⟨rfl, Text.offset_zero _, Text.offset_append _ _⟩
    · simp at hp
  verbatim := by simp [decimalNumber]

theorem readFrom_number (c : Char) (cs : List Char) : (number c cs).ReadFrom (c :: cs) := by
  unfold number
  split
  next x r =>
    split
    · exact readFrom_radixNumber [c, x] _ _ r
    split
    · exact readFrom_radixNumber [c, x] _ _ r
    split
    · exact readFrom_decimalNumber [] (c :: x :: r)
    · have ht := List.prefix_iff_eq_append.mp
        (List.takeWhile_prefix (l := x :: r) Text.isDigitOrSeparator)
      have h := readFrom_decimalNumber (c :: (x :: r).takeWhile Text.isDigitOrSeparator)
        ((x :: r).drop ((x :: r).takeWhile Text.isDigitOrSeparator).length)
      rw [List.cons_append, ht] at h
      exact h
  · exact readFrom_decimalNumber [c] []

/-! ### Strings and characters -/

theorem length_hexEscape_le (least most : Nat) (cs : List Char) :
    (hexEscape least most cs).length ≤ cs.length + 1 := by
  have h := ((List.takeWhile_prefix (l := cs.take most) Text.isHexDigit).length_le)
  simp only [hexEscape, List.length_take] at h ⊢
  omega

theorem length_escape_le (cs : List Char) : (escape cs).length ≤ cs.length := by
  unfold escape
  split
  · simp
  next c cs =>
    rw [List.length_cons]
    split
    · exact length_hexEscape_le 4 4 cs
    split
    · exact length_hexEscape_le 8 8 cs
    split
    · exact length_hexEscape_le 1 4 cs
    split <;> simp

namespace Body

/-- What a body notes once some characters of the inside have been read. -/
structure Notes (opening inside : List Char) (b : Body) : Prop where
  length : b.length = inside.length
  bytes : b.bytes = Text.byteCount inside
  problems : ∀ p ∈ b.problems, p.LiesIn (opening ++ inside)

variable {opening inside : List Char} {b : Body}

theorem notes_nil (opening : List Char) : Notes opening [] {} := ⟨rfl, rfl, by simp⟩

theorem Notes.liesIn_append (h : b.Notes opening inside) (more : List Char) :
    ∀ p ∈ b.problems, p.LiesIn (opening ++ (inside ++ more)) := by
  intro p hp
  rw [← List.append_assoc]
  exact (h.problems p hp).append more

theorem Notes.addChar (h : b.Notes opening inside) (c : Char) :
    (b.addChar c).Notes opening (inside ++ [c]) :=
  ⟨by simp [Body.addChar, h.length], by simp [Body.addChar, h.bytes], h.liesIn_append [c]⟩

theorem Notes.close (h : b.Notes opening inside) {quote : Char} (hq : quote.utf8Size = 1) :
    b.close.Notes opening (inside ++ [quote]) :=
  ⟨by simp [Body.close, h.length], by simp [Body.close, h.bytes, hq], h.liesIn_append [quote]⟩

theorem Notes.addEscape (h : b.Notes opening inside) (cs : List Char) :
    (b.addEscape (Text.byteCount opening) cs).Notes opening
      (inside ++ '\\' :: cs.take (escape cs).length) := by
  have hb : '\\'.utf8Size = 1 := rfl
  refine ⟨?_, ?_, ?_⟩
  · simp only [Body.addEscape, h.length, List.length_append, List.length_cons, List.length_take,
      Nat.min_eq_left (length_escape_le cs)]
    omega
  · simp only [Body.addEscape, h.bytes, Text.byteCount_append, Text.byteCount_cons, hb]
    omega
  · intro p hp
    simp only [Body.addEscape] at hp
    split at hp
    · exact h.liesIn_append _ p hp
    · rcases List.mem_append.mp hp with hp | hp
      · exact h.liesIn_append _ p hp
      · obtain rfl := List.mem_singleton.mp hp
        refine ⟨rfl, ?_, ?_⟩
        · rw [h.bytes]
          exact (Text.offset_append inside _).after opening
        · have he := (Text.offset_end (inside ++ '\\' :: cs.take (escape cs).length)).after opening
          simp only [Text.byteCount_append, Text.byteCount_cons, hb] at he
          simpa only [h.bytes, Nat.add_assoc] using he

end Body

/-- The inside of a literal on one line goes on with characters that come next. -/
theorem exists_notes_quotedBody {opening : List Char} {quote : Char} (hq : quote.utf8Size = 1)
    (ho : Text.byteCount opening = 1) (b : Body) (cs inside : List Char)
    (h : b.Notes opening inside) :
    ∃ more, more <+: cs ∧ (quotedBody quote b cs).Notes opening (inside ++ more) := by
  fun_induction quotedBody quote b cs generalizing inside with
  | case1 b => exact ⟨[], List.nil_prefix, by simpa using h⟩
  | case2 b cs => exact ⟨[quote], by simp, h.close hq⟩
  | case3 b cs hc ih =>
    obtain ⟨more, hm, hn⟩ := ih _ (ho ▸ h.addEscape cs)
    refine ⟨'\\' :: (cs.take (escape cs).length ++ more), ?_, by simpa using hn⟩
    rw [List.prefix_cons_inj]
    have hl : (cs.take (escape cs).length).length = (escape cs).length := by
      rw [List.length_take, Nat.min_eq_left (length_escape_le cs)]
    exact isPrefix_append_drop (List.take_prefix _ _) (by rw [hl]; exact hm)
  | case4 b c cs => exact ⟨[], List.nil_prefix, by simpa using h⟩
  | case5 b c cs _ _ _ ih =>
    obtain ⟨more, hm, hn⟩ := ih _ (h.addChar c)
    exact ⟨c :: more, by simpa using hm, by simpa using hn⟩

/-- The inside of a verbatim string goes on with characters that come next. -/
theorem exists_notes_verbatimBody {opening : List Char} (b : Body) (cs inside : List Char)
    (h : b.Notes opening inside) :
    ∃ more, more <+: cs ∧ (verbatimBody b cs).Notes opening (inside ++ more) := by
  fun_induction verbatimBody b cs generalizing inside with
  | case1 b => exact ⟨[], List.nil_prefix, by simpa using h⟩
  | case2 b cs ih =>
    obtain ⟨more, hm, hn⟩ := ih _ ((h.addChar '"').addChar '"')
    exact ⟨'"' :: '"' :: more, by simpa using hm, by simpa using hn⟩
  | case3 b cs => exact ⟨['"'], by simp, h.close rfl⟩
  | case4 b c cs _ _ ih =>
    obtain ⟨more, hm, hn⟩ := ih _ (h.addChar c)
    exact ⟨c :: more, by simpa using hm, by simpa using hn⟩

theorem readFrom_literal {kind : TokenKind} (opening : List Char) {cs : List Char} {b : Body}
    (hk : kind ≠ .endOfFile) (hi : kind ≠ .identifier) (flags : TokenFlags)
    {fault? : Option Message} (hf : ∀ m ∈ fault?, m.isOfLexeme = true)
    (h : ∃ inside, inside <+: cs ∧ b.Notes opening inside) :
    (literal kind opening cs flags b fault?).ReadFrom (opening ++ cs) := by
  obtain ⟨inside, hp, hn⟩ := h
  have ht : cs.take b.length = inside := by
    rw [hn.length]
    exact (List.prefix_iff_eq_take.mp hp).symm
  have htext : (literal kind opening cs flags b fault?).text = opening ++ inside := by
    simp only [literal, ht]
  refine ⟨?_, hk, ?_, fun h => absurd h hi⟩
  · rw [htext]
    exact (List.prefix_append_right_inj opening).mpr hp
  · intro p hm
    rw [htext]
    rcases List.mem_append.mp hm with hm | hm
    · exact hn.problems p hm
    · obtain ⟨m, hm', rfl⟩ := Option.map_eq_some_iff.mp (Option.mem_toList.mp hm)
      refine ⟨hf m hm', Text.offset_zero _, ?_⟩
      rw [hn.bytes, ← Text.byteCount_append]
      exact Text.offset_end _

theorem readFrom_stringLiteral (cs : List Char) : (stringLiteral cs).ReadFrom ('"' :: cs) := by
  refine readFrom_literal ['"'] (by simp) (by simp) _ ?_
    (exists_notes_quotedBody rfl rfl {} cs [] (Body.notes_nil _))
  intro m hm
  split at hm
  · simp at hm
  · obtain rfl := Option.some.inj hm
    rfl

theorem readFrom_verbatimString (cs : List Char) :
    (verbatimString cs).ReadFrom ('@' :: '"' :: cs) := by
  refine readFrom_literal ['@', '"'] (by simp) (by simp) _ ?_
    (exists_notes_verbatimBody {} cs [] (Body.notes_nil _))
  intro m hm
  split at hm
  · simp at hm
  · obtain rfl := Option.some.inj hm
    rfl

theorem readFrom_characterLiteral (cs : List Char) :
    (characterLiteral cs).ReadFrom ('\'' :: cs) := by
  refine readFrom_literal ['\''] (by simp) (by simp) _ ?_
    (exists_notes_quotedBody rfl rfl {} cs [] (Body.notes_nil _))
  intro m hm
  split at hm
  · obtain rfl := Option.some.inj hm
    rfl
  split at hm
  · obtain rfl := Option.some.inj hm
    rfl
  split at hm
  · simp at hm
  · obtain rfl := Option.some.inj hm
    rfl

/-! ### Any lexeme -/

theorem readFrom_verbatim? {cs : List Char} {l : Lexeme} (h : verbatim? cs = some l) :
    l.ReadFrom ('@' :: cs) := by
  unfold verbatim? at h
  split at h
  next c cs =>
    split at h
    next hc =>
      obtain rfl := Option.some.inj h
      subst hc
      exact readFrom_verbatimString cs
    split at h
    · obtain rfl := Option.some.inj h
      exact readFrom_verbatimIdentifier c cs
    · simp at h
  · simp at h

theorem readFrom_read? {cs : List Char} {l : Lexeme} (h : read? cs = some l) : l.ReadFrom cs := by
  unfold read? at h
  split at h
  · simp at h
  next c cs =>
    split at h
    next hc =>
      obtain rfl := Option.some.inj h
      subst hc
      exact readFrom_stringLiteral cs
    split at h
    next hc =>
      obtain rfl := Option.some.inj h
      subst hc
      exact readFrom_characterLiteral cs
    split at h
    next hc =>
      subst hc
      exact readFrom_verbatim? h
    split at h
    · obtain rfl := Option.some.inj h
      exact readFrom_number c cs
    split at h
    · obtain rfl := Option.some.inj h
      exact readFrom_identifier c cs
    · exact readFrom_punctuation? h

/-- The ways in which lexemes are read, by the characters that they begin with. -/
inductive ReadAs : List Char → Lexeme → Prop
  | string (cs : List Char) : ReadAs ('"' :: cs) (stringLiteral cs)
  | character (cs : List Char) : ReadAs ('\'' :: cs) (characterLiteral cs)
  | verbatimString (cs : List Char) : ReadAs ('@' :: '"' :: cs) (verbatimString cs)
  | verbatimIdentifier {c : Char} (cs : List Char) (hc : Text.isIdentifierStart c = true) :
      ReadAs ('@' :: c :: cs) (verbatimIdentifier c cs)
  | number {c : Char} {cs : List Char}
      (hc : (Text.isDigit c || (c == '.' && beginsWithDigit cs)) = true) :
      ReadAs (c :: cs) (number c cs)
  | identifier {c : Char} (cs : List Char) (hc : Text.isIdentifierStart c = true) :
      ReadAs (c :: cs) (identifier c cs)
  | punctuation {cs : List Char} {l : Lexeme} (h : punctuation? cs = some l) : ReadAs cs l

theorem readAs_of_read? {cs : List Char} {l : Lexeme} (h : read? cs = some l) : ReadAs cs l := by
  unfold read? at h
  split at h
  · cases h
  split at h
  next hc =>
    obtain rfl := Option.some.inj h
    subst hc
    exact .string _
  split at h
  next hc =>
    obtain rfl := Option.some.inj h
    subst hc
    exact .character _
  split at h
  next hat =>
    subst hat
    unfold verbatim? at h
    split at h
    · split at h
      next hc =>
        obtain rfl := Option.some.inj h
        subst hc
        exact .verbatimString _
      split at h
      next hc =>
        obtain rfl := Option.some.inj h
        exact .verbatimIdentifier _ hc
      · cases h
    · cases h
  split at h
  next hc =>
    obtain rfl := Option.some.inj h
    exact .number hc
  split at h
  next hc =>
    obtain rfl := Option.some.inj h
    exact .identifier _ hc
  · exact .punctuation h

end Lexeme

end CSharpFront
