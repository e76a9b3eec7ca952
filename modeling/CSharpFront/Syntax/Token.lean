import CSharpFront.Text.Span
import CSharpFront.Syntax.SpecialType
/-!
Tokens and streams of them. A stream keeps its end of file apart, so that it has exactly one, and a
look past the last token finds it.
-/

namespace CSharpFront

/-- What the lexer notes about a token besides its kind. -/
@[ext] structure TokenFlags where
  /-- The gap before the token holds a line end. -/
  afterLineBreak : Bool := false
  unterminated : Bool := false
  verbatim : Bool := false
  hexadecimal : Bool := false
  binary : Bool := false
  /-- A number with a fraction, an exponent or the suffix of a floating-point type. -/
  real : Bool := false
  invalidEscape : Bool := false
  /-- A number with the suffix of a type. -/
  suffixed : Bool := false
deriving DecidableEq

namespace TokenFlags

/-- The flags as one number, a bit for each in the order of the fields. -/
def bits (f : TokenFlags) : Nat :=
  [f.afterLineBreak, f.unterminated, f.verbatim, f.hexadecimal, f.binary, f.real, f.invalidEscape,
    f.suffixed].foldr (fun b n => 2 * n + b.toNat) 0

end TokenFlags

/-- A token of the text. The text of a verbatim identifier lacks its `@`. -/
@[ext] structure Token where
  kind : TokenKind
  range : Range
  text : String
  flags : TokenFlags
deriving DecidableEq

namespace Token

def start (t : Token) : Nat := t.range.start

def stop (t : Token) : Nat := t.range.stop

def span (t : Token) : Span := t.range.toSpan

/-- The spelling of an identifier written without `@`, which may be a contextual keyword. -/
def contextual? (t : Token) : Option String :=
  if t.kind = .identifier ∧ t.flags.verbatim = false then some t.text else none

def isContextual (t : Token) (word : String) : Bool := t.contextual? == some word

theorem kind_of_contextual? {t : Token} {word : String} (h : t.contextual? = some word) :
    t.kind = .identifier := by
  unfold contextual? at h
  split at h
  next hk => exact hk.1
  · cases h

theorem kind_of_isContextual {t : Token} {word : String} (h : t.isContextual word = true) :
    t.kind = .identifier :=
  kind_of_contextual? (eq_of_beq h)

end Token

/-- The tokens of a text, the end of file apart. -/
@[ext] structure TokenStream where
  tokens : List Token
  endOfFile : Token

namespace TokenStream

/-- The token at an index; from the end on, the end of file. -/
def token (s : TokenStream) (i : Nat) : Token := s.tokens[i]?.getD s.endOfFile

/-- The index of the end of file. -/
def lastIndex (s : TokenStream) : Nat := s.tokens.length

/-- All tokens, the end of file last. -/
def toList (s : TokenStream) : List Token := s.tokens ++ [s.endOfFile]

/-- The first token that starts at a position or after it. -/
def tokenFrom? (s : TokenStream) (pos : Nat) : Option Token :=
  s.toList.find? (pos ≤ ·.start)

theorem token_of_lastIndex_le {s : TokenStream} {i : Nat} (h : s.lastIndex ≤ i) :
    s.token i = s.endOfFile := by
  simp [token, List.getElem?_eq_none h]

end TokenStream

end CSharpFront
