/-!
Punctuation and operators, each with its spelling. The two right shifts are never read as one token:
the parser joins them from `>` tokens that touch, so that nested type arguments close one by one.
-/

namespace CSharpFront

/-- A punctuation mark or an operator. -/
inductive Punctuator
  | openBrace | closeBrace | openParen | closeParen | openBracket | closeBracket | dot | comma
  | colon | colonColon | semicolon | question | questionQuestion | questionDot
  | equalsGreaterThan | plus | minus | asterisk | slash | percent | ampersand | bar | caret
  | exclamation | tilde | lessThan | greaterThan | plusPlus | minusMinus | ampersandAmpersand
  | barBar | equalsEquals | exclamationEquals | lessThanEquals | greaterThanEquals
  | lessThanLessThan | greaterThanGreaterThan | equals | plusEquals | minusEquals
  | asteriskEquals | slashEquals | percentEquals | ampersandEquals | barEquals | caretEquals
  | lessThanLessThanEquals | greaterThanGreaterThanEquals | questionQuestionEquals
deriving DecidableEq

namespace Punctuator

/-- The spelling in source text. -/
def text : Punctuator → String
  | .openBrace => "\x7b"
  | .closeBrace => "\x7d"
  | .openParen => "("
  | .closeParen => ")"
  | .openBracket => "["
  | .closeBracket => "]"
  | .dot => "."
  | .comma => ","
  | .colon => ":"
  | .colonColon => "::"
  | .semicolon => ";"
  | .question => "?"
  | .questionQuestion => "??"
  | .questionDot => "?."
  | .equalsGreaterThan => "=>"
  | .plus => "+"
  | .minus => "-"
  | .asterisk => "*"
  | .slash => "/"
  | .percent => "%"
  | .ampersand => "&"
  | .bar => "|"
  | .caret => "^"
  | .exclamation => "!"
  | .tilde => "~"
  | .lessThan => "<"
  | .greaterThan => ">"
  | .plusPlus => "++"
  | .minusMinus => "--"
  | .ampersandAmpersand => "&&"
  | .barBar => "||"
  | .equalsEquals => "=="
  | .exclamationEquals => "!="
  | .lessThanEquals => "<="
  | .greaterThanEquals => ">="
  | .lessThanLessThan => "<<"
  | .greaterThanGreaterThan => ">>"
  | .equals => "="
  | .plusEquals => "+="
  | .minusEquals => "-="
  | .asteriskEquals => "*="
  | .slashEquals => "/="
  | .percentEquals => "%="
  | .ampersandEquals => "&="
  | .barEquals => "|="
  | .caretEquals => "^="
  | .lessThanLessThanEquals => "<<="
  | .greaterThanGreaterThanEquals => ">>="
  | .questionQuestionEquals => "??="

/-- The name by which listings call the token, without the ending they share. -/
def stem : Punctuator → String
  | .openBrace => "OpenBrace"
  | .closeBrace => "CloseBrace"
  | .openParen => "OpenParen"
  | .closeParen => "CloseParen"
  | .openBracket => "OpenBracket"
  | .closeBracket => "CloseBracket"
  | .dot => "Dot"
  | .comma => "Comma"
  | .colon => "Colon"
  | .colonColon => "ColonColon"
  | .semicolon => "Semicolon"
  | .question => "Question"
  | .questionQuestion => "QuestionQuestion"
  | .questionDot => "QuestionDot"
  | .equalsGreaterThan => "EqualsGreaterThan"
  | .plus => "Plus"
  | .minus => "Minus"
  | .asterisk => "Asterisk"
  | .slash => "Slash"
  | .percent => "Percent"
  | .ampersand => "Ampersand"
  | .bar => "Bar"
  | .caret => "Caret"
  | .exclamation => "Exclamation"
  | .tilde => "Tilde"
  | .lessThan => "LessThan"
  | .greaterThan => "GreaterThan"
  | .plusPlus => "PlusPlus"
  | .minusMinus => "MinusMinus"
  | .ampersandAmpersand => "AmpersandAmpersand"
  | .barBar => "BarBar"
  | .equalsEquals => "EqualsEquals"
  | .exclamationEquals => "ExclamationEquals"
  | .lessThanEquals => "LessThanEquals"
  | .greaterThanEquals => "GreaterThanEquals"
  | .lessThanLessThan => "LessThanLessThan"
  | .greaterThanGreaterThan => "GreaterThanGreaterThan"
  | .equals => "Equals"
  | .plusEquals => "PlusEquals"
  | .minusEquals => "MinusEquals"
  | .asteriskEquals => "AsteriskEquals"
  | .slashEquals => "SlashEquals"
  | .percentEquals => "PercentEquals"
  | .ampersandEquals => "AmpersandEquals"
  | .barEquals => "BarEquals"
  | .caretEquals => "CaretEquals"
  | .lessThanLessThanEquals => "LessThanLessThanEquals"
  | .greaterThanGreaterThanEquals => "GreaterThanGreaterThanEquals"
  | .questionQuestionEquals => "QuestionQuestionEquals"

def name (p : Punctuator) : String := p.stem ++ "Token"

/-- Whether the operator assigns, plainly or after computing. -/
def isAssignment : Punctuator → Bool
  | .equals | .plusEquals | .minusEquals | .asteriskEquals | .slashEquals | .percentEquals
  | .ampersandEquals | .barEquals | .caretEquals | .lessThanLessThanEquals
  | .greaterThanGreaterThanEquals | .questionQuestionEquals => true
  | _ => false

end Punctuator

end CSharpFront
