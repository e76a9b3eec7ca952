import CSharpFront.Text.CharClass
import CSharpFront.Diagnostic.Message
import CSharpFront.Syntax.Token
/-!
Single lexemes. Each reader takes the characters from the start of a lexeme on and says which of
them belong to it, what it is, and what is wrong with it. Places are counted from the start of the
lexeme, so a lexeme does not depend on where in the text it stands.
-/

namespace CSharpFront

/-- A fault of a lexeme, with its first byte and the byte after it. -/
@[ext] structure Problem where
  message : Message
  start : Nat
  stop : Nat
deriving DecidableEq

/-- A lexeme with the characters that it takes. -/
@[ext] structure Lexeme where
  kind : TokenKind
  text : List Char
  flags : TokenFlags := {}
  problems : List Problem := []
deriving DecidableEq

namespace Lexeme

/-! ### Identifiers and punctuation -/

/-- An identifier, or the reserved word of its spelling. -/
def identifier (c : Char) (cs : List Char) : Lexeme :=
  let text := c :: cs.takeWhile Text.isIdentifierPart
  match Keyword.ofText? (String.ofList text) with
  | some k => ⟨.keyword k, text, {}, []⟩
  | none => ⟨.identifier, text, {}, []⟩

/-- An identifier after `@`, which is never a reserved word. -/
def verbatimIdentifier (c : Char) (cs : List Char) : Lexeme :=
  { kind := .identifier
    text := '@' :: c :: cs.takeWhile Text.isIdentifierPart
    flags := { verbatim := true } }

/-- The punctuation that one token can be, no spelling before a longer one that it begins. -/
def punctuators : List Punctuator :=
  [.lessThanLessThanEquals, .questionQuestionEquals,
   .colonColon, .questionQuestion, .questionDot, .equalsGreaterThan, .plusPlus, .minusMinus,
   .ampersandAmpersand, .barBar, .equalsEquals, .exclamationEquals, .lessThanEquals,
   .greaterThanEquals, .lessThanLessThan, .plusEquals, .minusEquals, .asteriskEquals, .slashEquals,
   .percentEquals, .ampersandEquals, .barEquals, .caretEquals,
   .openBrace, .closeBrace, .openParen, .closeParen, .openBracket, .closeBracket, .dot, .comma,
   .colon, .semicolon, .question, .plus, .minus, .asterisk, .slash, .percent, .ampersand, .bar,
   .caret, .exclamation, .tilde, .lessThan, .greaterThan, .equals]

/-- Whether the characters begin with a digit. -/
def beginsWithDigit : List Char → Bool
  | c :: _ => Text.isDigit c
  | [] => false

/-- Whether the characters begin with the punctuation. A `?.` before a digit is none: there the
point belongs to a number. -/
def beginsWith (cs : List Char) (p : Punctuator) : Bool :=
  p.text.toList.isPrefixOf cs && !(p == .questionDot && beginsWithDigit (cs.drop 2))

def punctuation? (cs : List Char) : Option Lexeme :=
  (punctuators.find? (beginsWith cs)).map fun p => ⟨.punct p, p.text.toList, {}, []⟩

/-! ### Numbers -/

def isUnsignedSuffix (c : Char) : Bool := c == 'u' || c == 'U'

def isLongSuffix (c : Char) : Bool := c == 'l' || c == 'L'

def isRealSuffix (c : Char) : Bool :=
  c == 'f' || c == 'F' || c == 'd' || c == 'D' || c == 'm' || c == 'M'

/-- The suffix of an integer: `u` and `l`, each at most once, in any order and case. -/
def integerSuffix : List Char → List Char
  | c :: d :: _ =>
    if isUnsignedSuffix c then if isLongSuffix d then [c, d] else [c]
    else if isLongSuffix c then if isUnsignedSuffix d then [c, d] else [c]
    else []
  | [c] => if isUnsignedSuffix c || isLongSuffix c then [c] else []
  | [] => []

/-- An integer of a radix other than ten, after the two characters that announce it. -/
def radixNumber (lead : List Char) (flags : TokenFlags) (isRadixDigit : Char → Bool)
    (cs : List Char) : Lexeme :=
  let digits := cs.takeWhile fun c => isRadixDigit c || c == '_'
  let suffix := integerSuffix (cs.drop digits.length)
  { kind := .numericLiteral
    text := lead ++ digits ++ suffix
    flags := { flags with suffixed := !suffix.isEmpty }
    problems :=
      if digits.isEmpty then [⟨.invalidNumber, 0, Text.byteCount lead⟩] else [] }

/-- The fraction: a point and what follows it, if a digit comes next. -/
def fraction : List Char → List Char
  | c :: cs =>
    if c = '.' ∧ beginsWithDigit cs then c :: cs.takeWhile Text.isDigitOrSeparator else []
  | [] => []

/-- The exponent: its mark and sign, and its digits, of which there may be none. -/
def exponent : List Char → List Char × List Char
  | e :: s :: cs =>
    if e = 'e' ∨ e = 'E' then
      if s = '+' ∨ s = '-' then ([e, s], cs.takeWhile Text.isDigit)
      else ([e], (s :: cs).takeWhile Text.isDigit)
    else ([], [])
  | [e] => if e = 'e' ∨ e = 'E' then ([e], []) else ([], [])
  | [] => ([], [])

/-- A decimal number, from its whole part on. -/
def decimalNumber (whole cs : List Char) : Lexeme :=
  let fraction := fraction cs
  let exponent := exponent (cs.drop fraction.length)
  let body := whole ++ fraction ++ exponent.1 ++ exponent.2
  let rest := cs.drop (fraction.length + exponent.1.length + exponent.2.length)
  let isReal := !fraction.isEmpty || !exponent.1.isEmpty
  let realSuffix := (rest.take 1).takeWhile isRealSuffix
  let suffix :=
    if !realSuffix.isEmpty then realSuffix else if isReal then [] else integerSuffix rest
  { kind := .numericLiteral
    text := body ++ suffix
    flags := { real := isReal || !realSuffix.isEmpty, suffixed := !suffix.isEmpty }
    problems :=
      if !exponent.1.isEmpty && exponent.2.isEmpty then
        [⟨.invalidNumber, 0, Text.byteCount body⟩]
      else [] }

/-- A number that begins with a digit, or with the point of a fraction. -/
def number (c : Char) (cs : List Char) : Lexeme :=
  match cs with
  | x :: r =>
    if c = '0' ∧ (x = 'x' ∨ x = 'X') then
      radixNumber [c, x] { hexadecimal := true } Text.isHexDigit r
    else if c = '0' ∧ (x = 'b' ∨ x = 'B') then
      radixNumber [c, x] { binary := true } Text.isBinaryDigit r
    else if c = '.' then
      decimalNumber [] (c :: cs)
    else
      let whole := cs.takeWhile Text.isDigitOrSeparator
      decimalNumber (c :: whole) (cs.drop whole.length)
  | [] => decimalNumber [c] []

/-! ### Strings and characters -/

/-- An escape sequence after its backslash: how many characters it takes, and whether it is one. -/
structure Escape where
  length : Nat
  isValid : Bool

/-- An escape of hexadecimal digits, from its letter on. -/
def hexEscape (least most : Nat) (cs : List Char) : Escape :=
  let digits := (cs.take most).takeWhile Text.isHexDigit
  ⟨digits.length + 1, least ≤ digits.length⟩

/-- The escape sequence that begins after a backslash. A line end is never part of one. -/
def escape : List Char → Escape
  | [] => ⟨0, false⟩
  | c :: cs =>
    if c = 'u' then hexEscape 4 4 cs
    else if c = 'U' then hexEscape 8 8 cs
    else if c = 'x' then hexEscape 1 4 cs
    else if Text.isLineEnd c then ⟨0, false⟩
    else ⟨1, ['\'', '"', '\\', '0', 'a', 'b', 'f', 'n', 'r', 't', 'v'].contains c⟩

/-- What has been read of the inside of a literal: how many characters and bytes, how many of the
characters that it stands for, and whether it has ended. -/
structure Body where
  length : Nat := 0
  bytes : Nat := 0
  count : Nat := 0
  isClosed : Bool := false
  problems : List Problem := []

namespace Body

def addChar (b : Body) (c : Char) : Body :=
  { b with length := b.length + 1, bytes := b.bytes + c.utf8Size, count := b.count + 1 }

def close (b : Body) : Body :=
  { b with length := b.length + 1, bytes := b.bytes + 1, isClosed := true }

/-- The backslash and its escape sequence; `offset` is where the inside of the literal begins. -/
def addEscape (offset : Nat) (b : Body) (cs : List Char) : Body :=
  let e := escape cs
  let bytes := b.bytes + 1 + Text.byteCount (cs.take e.length)
  { b with
    length := b.length + 1 + e.length
    bytes := bytes
    count := b.count + 1
    problems :=
      if e.isValid then b.problems
      else b.problems ++ [⟨.unrecognizedEscape, offset + b.bytes, offset + bytes⟩] }

end Body

/-- Reads up to the closing quote of a literal on one line. -/
def quotedBody (quote : Char) (b : Body) : List Char → Body
  | [] => b
  | c :: cs =>
    if c = quote then b.close
    else if c = '\\' then quotedBody quote (b.addEscape 1 cs) (cs.drop (escape cs).length)
    else if Text.isLineEnd c then b
    else quotedBody quote (b.addChar c) cs
termination_by cs => cs.length
decreasing_by
  all_goals simp only [List.length_drop, List.length_cons]
  all_goals omega

/-- Reads up to the closing quote of a verbatim string, in which a doubled quote stands for one. -/
def verbatimBody (b : Body) : List Char → Body
  | [] => b
  | '"' :: '"' :: cs => verbatimBody ((b.addChar '"').addChar '"') cs
  | c :: cs => if c = '"' then b.close else verbatimBody (b.addChar c) cs

/-- A literal whose inside has been read, with the fault of the whole that it may have. -/
def literal (kind : TokenKind) (opening cs : List Char) (flags : TokenFlags) (b : Body)
    (fault? : Option Message) : Lexeme :=
  { kind := kind
    text := opening ++ cs.take b.length
    flags := { flags with
      unterminated := !b.isClosed
      invalidEscape := b.problems.any (·.message == .unrecognizedEscape) }
    problems := b.problems ++
      (fault?.map fun m => ⟨m, 0, Text.byteCount opening + b.bytes⟩).toList }

/-- A string literal, after its opening quote. -/
def stringLiteral (cs : List Char) : Lexeme :=
  let b := quotedBody '"' {} cs
  literal .stringLiteral ['"'] cs {} b (if b.isClosed then none else some .newlineInConstant)

/-- A verbatim string literal, after its `@` and its opening quote. -/
def verbatimString (cs : List Char) : Lexeme :=
  let b := verbatimBody {} cs
  literal .stringLiteral ['@', '"'] cs { verbatim := true } b
    (if b.isClosed then none else some .unterminatedString)

/-- A character literal, after its opening quote. -/
def characterLiteral (cs : List Char) : Lexeme :=
  let b := quotedBody '\'' {} cs
  literal .characterLiteral ['\''] cs {} b
    (if !b.isClosed then some .newlineInConstant
     else if b.count = 0 then some .emptyCharacterLiteral
     else if b.count = 1 then none
     else some .tooManyCharacters)

/-! ### Any lexeme -/

/-- The lexeme after an `@`, which begins an identifier or a string or nothing. -/
def verbatim? : List Char → Option Lexeme
  | c :: cs =>
    if c = '"' then some (verbatimString cs)
    else if Text.isIdentifierStart c then some (verbatimIdentifier c cs)
    else none
  | [] => none

/-- The lexeme that begins here, if one does. Comments are not lexemes. -/
def read? : List Char → Option Lexeme
  | [] => none
  | c :: cs =>
    if c = '"' then some (stringLiteral cs)
    else if c = '\'' then some (characterLiteral cs)
    else if c = '@' then verbatim? cs
    else if Text.isDigit c || (c == '.' && beginsWithDigit cs) then some (number c cs)
    else if Text.isIdentifierStart c then some (identifier c cs)
    else punctuation? (c :: cs)

/-! ### A lexeme takes at least one character -/

theorem number_text_ne_nil {c : Char} (cs : List Char)
    (h : (Text.isDigit c || (c == '.' && beginsWithDigit cs)) = true) :
    (number c cs).text ≠ [] := by
  unfold number
  split
  next x r =>
    split
    · simp [radixNumber]
    split
    · simp [radixNumber]
    split
    next hc =>
      subst hc
      have hd : beginsWithDigit (x :: r) = true := by
        simpa [show Text.isDigit '.' = false from by decide] using h
      simp [decimalNumber, fraction, hd]
    · simp [decimalNumber]
  · simp [decimalNumber]

theorem text_ne_nil_of_read? {cs : List Char} {l : Lexeme} (h : read? cs = some l) :
    l.text ≠ [] := by
  unfold read? at h
  split at h
  · simp at h
  next c cs =>
    split at h
    · obtain rfl := Option.some.inj h; simp [stringLiteral, literal]
    split at h
    · obtain rfl := Option.some.inj h; simp [characterLiteral, literal]
    split at h
    · unfold verbatim? at h
      split at h
      · split at h
        · obtain rfl := Option.some.inj h; simp [verbatimString, literal]
        split at h
        · obtain rfl := Option.some.inj h; simp [verbatimIdentifier]
        · simp at h
      · simp at h
    split at h
    next hn => obtain rfl := Option.some.inj h; exact number_text_ne_nil cs hn
    split at h
    · obtain rfl := Option.some.inj h
      simp only [identifier]
      split <;> simp
    · obtain ⟨p, _, rfl⟩ := Option.map_eq_some_iff.mp h
      cases p <;> decide

end Lexeme

end CSharpFront
