import CSharpFront.Diagnostic.Basic
import CSharpFront.Lexer.Lexeme
/-!
What lies between two tokens: blanks, line ends, comments, and characters that begin nothing, each
of which is reported. A gap ends where a lexeme begins, or at the end of the text.
-/

namespace CSharpFront

/-- A gap with its end, and the lexeme that follows it unless the text ends there. -/
structure Gap where
  stop : Nat
  hasLineBreak : Bool
  problems : Bag
  rest : List Char
  lexeme? : Option Lexeme

namespace Gap

/-- The inside of a block comment up to and with its end: how many bytes it takes, whether it holds
a line end, what follows, and whether it has an end at all. -/
structure Comment where
  bytes : Nat
  hasLineBreak : Bool
  rest : List Char
  isClosed : Bool

def comment (bytes : Nat) (hasLineBreak : Bool) : List Char → Comment
  | [] => ⟨bytes, hasLineBreak, [], false⟩
  | '*' :: '/' :: cs => ⟨bytes + 2, hasLineBreak, cs, true⟩
  | c :: cs => comment (bytes + c.utf8Size) (hasLineBreak || Text.isLineEnd c) cs

theorem length_rest_comment (bytes : Nat) (lineBreak : Bool) (cs : List Char) :
    (comment bytes lineBreak cs).rest.length ≤ cs.length := by
  fun_induction comment bytes lineBreak cs with
  | case1 => simp
  | case2 => simp only [List.length_cons]; omega
  | case3 _ _ c cs _ ih => simp only [List.length_cons]; omega

/-- The rest of a line, without its end. -/
def line (cs : List Char) : List Char := cs.takeWhile fun c => !Text.isLineEnd c

/-- A character that begins nothing, as a diagnostic. -/
def unexpected (pos : Nat) (c : Char) : Diagnostic :=
  .of .unexpectedCharacter ⟨pos, c.utf8Size⟩ [String.singleton c]

/-- The fault of a block comment without an end, over its first two characters. -/
def commentFault (pos : Nat) (body : Comment) : Bag :=
  if body.isClosed then [] else [.of .unterminatedComment ⟨pos, 2⟩]

/-- The gap that begins here; the arguments before the characters tell what has been passed. -/
def read (pos : Nat) (hasLineBreak : Bool) (problems : Bag) : List Char → Gap
  | [] => ⟨pos, hasLineBreak, problems, [], none⟩
  | c :: cs =>
    if Text.isLineEnd c then read (pos + 1) true problems cs
    else if Text.isBlank c then read (pos + c.utf8Size) hasLineBreak problems cs
    else if c = '/' ∧ cs.head? = some '/' then
      let line := line cs
      read (pos + 1 + Text.byteCount line) hasLineBreak problems (cs.drop line.length)
    else if c = '/' ∧ cs.head? = some '*' then
      let body := comment 2 false (cs.drop 1)
      read (pos + body.bytes) (hasLineBreak || body.hasLineBreak)
        (problems ++ commentFault pos body) body.rest
    else
      match Lexeme.read? (c :: cs) with
      | some l => ⟨pos, hasLineBreak, problems, c :: cs, some l⟩
      | none => read (pos + c.utf8Size) hasLineBreak (problems ++ [unexpected pos c]) cs
termination_by cs => cs.length
decreasing_by
  all_goals simp only [List.length_cons, List.length_drop]
  all_goals try omega
  have := length_rest_comment 2 false (cs.drop 1)
  simp only [List.length_drop] at this
  omega

theorem length_rest_read (pos : Nat) (lineBreak : Bool) (problems : Bag) (cs : List Char) :
    (read pos lineBreak problems cs).rest.length ≤ cs.length := by
  fun_induction read pos lineBreak problems cs with
  | case1 => simp
  | case2 _ _ _ c cs _ ih => simp only [List.length_cons]; omega
  | case3 _ _ _ c cs _ _ ih => simp only [List.length_cons]; omega
  | case4 _ _ _ c cs _ _ _ _ ih =>
    simp only [List.length_drop] at ih; simp only [List.length_cons]; omega
  | case5 _ _ _ c cs _ _ _ _ body ih =>
    have := length_rest_comment 2 false (cs.drop 1)
    simp only [List.length_drop] at this
    simp only [List.length_cons]
    simp only [body] at ih ⊢
    omega
  | case6 => simp
  | case7 _ _ _ c cs _ _ _ _ _ ih => simp only [List.length_cons]; omega

theorem lexeme?_read (pos : Nat) (lineBreak : Bool) (problems : Bag) (cs : List Char) :
    (read pos lineBreak problems cs).lexeme? =
      Lexeme.read? (read pos lineBreak problems cs).rest := by
  fun_induction read pos lineBreak problems cs with
  | case1 => rfl
  | case6 _ _ _ _ _ _ _ _ _ l h => simp [h]
  | case2 | case3 | case4 | case5 | case7 => assumption

end Gap

end CSharpFront
