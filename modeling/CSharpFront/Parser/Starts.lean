import CSharpFront.Syntax.SpecialType
/-!
Which tokens can begin what. The tables are coarser than the grammar: they decide where a list goes
on and where to stop skipping after an error.
-/

namespace CSharpFront.TokenKind

/-- Whether an expression can begin here. -/
def startsExpression : TokenKind → Bool
  | .identifier | .numericLiteral | .stringLiteral | .characterLiteral => true
  | .punct p =>
    match p with
    | .openParen | .plus | .minus | .exclamation | .tilde | .plusPlus | .minusMinus => true
    | _ => false
  | .keyword k =>
    match k with
    | .kwTrue | .kwFalse | .kwNull | .kwThis | .kwNew => true
    | .kwVoid => false
    | k => (SpecialType.ofKeyword? k).isSome
  | _ => false

/-- Whether a statement can begin here. -/
def startsStatement (t : TokenKind) : Bool :=
  t.startsExpression ||
    match t with
    | .punct .openBrace | .punct .semicolon => true
    | .keyword k =>
      match k with
      | .kwIf | .kwWhile | .kwDo | .kwFor | .kwReturn | .kwBreak | .kwContinue | .kwGoto
      | .kwConst => true
      | _ => false
    | _ => false

/-- Whether the token after a type in parentheses makes them a cast. -/
def followsCast (t : TokenKind) : Bool :=
  t.isPredefinedType ||
    match t with
    | .identifier | .numericLiteral | .stringLiteral | .characterLiteral => true
    | .punct p =>
      match p with
      | .openParen | .tilde | .exclamation => true
      | _ => false
    | .keyword k =>
      match k with
      | .kwTrue | .kwFalse | .kwNull | .kwThis | .kwNew | .kwBase | .kwTypeOf | .kwDefault
      | .kwChecked | .kwUnchecked | .kwSizeOf => true
      | _ => false
    | _ => false

/-- Whether the token changes how a parameter is passed. -/
def isParameterModifier : TokenKind → Bool
  | .keyword .kwRef | .keyword .kwOut | .keyword .kwIn | .keyword .kwParams => true
  | _ => false

/-- Whether the token changes how an argument is passed. -/
def isArgumentModifier : TokenKind → Bool
  | .keyword .kwRef | .keyword .kwOut | .keyword .kwIn => true
  | _ => false

/-- Whether the token begins a class or a struct once its modifiers are read. -/
def startsTypeDeclaration : TokenKind → Bool
  | .keyword .kwClass | .keyword .kwStruct => true
  | _ => false

/-- Whether skipping to the next member of a type stops here. -/
def startsClassMember (t : TokenKind) : Bool :=
  t == .identifier || t.isPredefinedType || t.isModifier || t.startsTypeDeclaration ||
    t == .keyword .kwImplicit || t == .keyword .kwExplicit || t == .punct .closeBrace

end CSharpFront.TokenKind
