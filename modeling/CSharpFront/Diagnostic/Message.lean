/-!
The catalogue of messages. A message has a number, the severity it has unless options say
otherwise, the warning level from which it is shown, and a template whose numbered places take the
arguments of a diagnostic.
-/

namespace CSharpFront

inductive Severity
  | hidden | warning | error
deriving DecidableEq

namespace Severity

def name : Severity → String
  | .hidden => "hidden"
  | .warning => "warning"
  | .error => "error"

end Severity

/-- What a diagnostic says. -/
inductive Message
  | unrecognizedEscape
  | newlineInConstant
  | emptyCharacterLiteral
  | tooManyCharacters
  | invalidNumber
  | unterminatedComment
  | unterminatedString
  | unexpectedCharacter
  | identifierExpected
  | semicolonExpected
  | tokenExpected
  | definitionExpected
  | closeParenExpected
  | typeExpected
  | closeBraceExpected
  | openBraceExpected
  | invalidMemberToken
  | invalidExpressionTerm
  | newNeedsArguments
  | expressionExpected
  | queryEndingExpected
  | notStatementExpression
  | tooDeep
  | noImplicitConversion
  | onlyExplicitConversion
  | noConversion
  | duplicateLocal
  | noEnclosingLoop
  | duplicateLabel
  | noSuchLabel
  | unreachableCode
  | labelNotReferenced
deriving DecidableEq

namespace Message

/-- The catalogue in its own order. -/
def all : List Message :=
  [.unrecognizedEscape, .newlineInConstant, .emptyCharacterLiteral, .tooManyCharacters,
   .invalidNumber, .unterminatedComment, .unterminatedString, .unexpectedCharacter,
   .identifierExpected, .semicolonExpected, .tokenExpected, .definitionExpected,
   .closeParenExpected, .typeExpected, .closeBraceExpected, .openBraceExpected,
   .invalidMemberToken, .invalidExpressionTerm, .newNeedsArguments, .expressionExpected,
   .queryEndingExpected, .notStatementExpression, .tooDeep, .noImplicitConversion,
   .onlyExplicitConversion, .noConversion, .duplicateLocal, .noEnclosingLoop, .duplicateLabel,
   .noSuchLabel, .unreachableCode, .labelNotReferenced]

/-- The number by which options and listings name the message. -/
def code : Message → Nat
  | .unrecognizedEscape => 1009
  | .newlineInConstant => 1010
  | .emptyCharacterLiteral => 1011
  | .tooManyCharacters => 1012
  | .invalidNumber => 1013
  | .unterminatedComment => 1035
  | .unterminatedString => 1039
  | .unexpectedCharacter => 1056
  | .identifierExpected => 1001
  | .semicolonExpected => 1002
  | .tokenExpected => 1003
  | .definitionExpected => 1022
  | .closeParenExpected => 1026
  | .typeExpected => 1031
  | .closeBraceExpected => 1513
  | .openBraceExpected => 1514
  | .invalidMemberToken => 1519
  | .invalidExpressionTerm => 1525
  | .newNeedsArguments => 1526
  | .expressionExpected => 1733
  | .queryEndingExpected => 742
  | .notStatementExpression => 201
  | .tooDeep => 8078
  | .noImplicitConversion => 29
  | .onlyExplicitConversion => 266
  | .noConversion => 30
  | .duplicateLocal => 128
  | .noEnclosingLoop => 139
  | .duplicateLabel => 140
  | .noSuchLabel => 159
  | .unreachableCode => 162
  | .labelNotReferenced => 164

def template : Message → String
  | .unrecognizedEscape => "Unrecognized escape sequence"
  | .newlineInConstant => "Newline in constant"
  | .emptyCharacterLiteral => "Empty character literal"
  | .tooManyCharacters => "Too many characters in character literal"
  | .invalidNumber => "Invalid number"
  | .unterminatedComment => "End-of-file found, '*/' expected"
  | .unterminatedString => "Unterminated string literal"
  | .unexpectedCharacter => "Unexpected character '\x7b0\x7d'"
  | .identifierExpected => "Identifier expected"
  | .semicolonExpected => "; expected"
  | .tokenExpected => "Syntax error, '\x7b0\x7d' expected"
  | .definitionExpected => "Type or namespace definition, or end-of-file expected"
  | .closeParenExpected => ") expected"
  | .typeExpected => "Type expected"
  | .closeBraceExpected => "\x7d expected"
  | .openBraceExpected => "\x7b expected"
  | .invalidMemberToken =>
    "Invalid token '\x7b0\x7d' in class, record, struct, or interface member declaration"
  | .invalidExpressionTerm => "Invalid expression term '\x7b0\x7d'"
  | .newNeedsArguments =>
    "A new expression requires an argument list or (), [], or \x7b\x7d after type"
  | .expressionExpected => "Expected expression"
  | .queryEndingExpected => "A query body must end with a select clause or a group clause"
  | .notStatementExpression =>
    "Only assignment, call, increment, decrement, await, and new object expressions can be used " ++
      "as a statement"
  | .tooDeep => "An expression is too long or complex to compile"
  | .noImplicitConversion => "Cannot implicitly convert type '\x7b0\x7d' to '\x7b1\x7d'"
  | .onlyExplicitConversion =>
    "Cannot implicitly convert type '\x7b0\x7d' to '\x7b1\x7d'. " ++
      "An explicit conversion exists (are you missing a cast?)"
  | .noConversion => "Cannot convert type '\x7b0\x7d' to '\x7b1\x7d'"
  | .duplicateLocal =>
    "A local variable or function named '\x7b0\x7d' is already defined in this scope"
  | .noEnclosingLoop => "No enclosing loop out of which to break or continue"
  | .duplicateLabel => "The label '\x7b0\x7d' is a duplicate"
  | .noSuchLabel => "No such label '\x7b0\x7d' within the scope of the goto statement"
  | .unreachableCode => "Unreachable code detected"
  | .labelNotReferenced => "This label has not been referenced"

def severity : Message → Severity
  | .unreachableCode | .labelNotReferenced => .warning
  | _ => .error

/-- The warning level from which a warning is shown; errors are shown at every level. -/
def level (m : Message) : Nat :=
  match m.severity with
  | .warning => 2
  | _ => 0

def ofCode? (code : Nat) : Option Message := all.find? (·.code == code)

theorem mem_all (m : Message) : m ∈ all := by cases m <;> decide

theorem ofCode?_code (m : Message) : ofCode? m.code = some m := by cases m <;> rfl

theorem code_injective {m n : Message} (h : m.code = n.code) : m = n := by
  have := ofCode?_code m
  rw [h, ofCode?_code] at this
  exact (Option.some.inj this).symm

end Message

end CSharpFront
