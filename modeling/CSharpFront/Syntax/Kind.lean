import CSharpFront.Syntax.Keyword
import CSharpFront.Syntax.Punctuator
/-!
The kinds of tokens and of nodes. Every kind has the name that listings show; a token of one fixed
spelling also has that spelling.
-/

namespace CSharpFront

/-- What a token is. -/
inductive TokenKind
  | unknown | endOfFile | identifier | numericLiteral | stringLiteral | characterLiteral
  | punct (p : Punctuator)
  | keyword (k : Keyword)
deriving DecidableEq

/-- What a node of the syntax tree is. -/
inductive NodeKind
  | compilationUnit | usingDirective | namespaceDeclaration | classDeclaration
  | structDeclaration | fieldDeclaration | methodDeclaration | constructorDeclaration
  | conversionOperatorDeclaration | parameter | incompleteMember | predefinedType
  | identifierName | qualifiedName | genericName | nullableType | arrayType | block
  | emptyStatement | localDeclarationStatement | variableDeclaration | variableDeclarator
  | expressionStatement | ifStatement | whileStatement | doStatement | forStatement
  | returnStatement | breakStatement | continueStatement | gotoStatement | labeledStatement
  | numericLiteralExpression | stringLiteralExpression | characterLiteralExpression
  | trueLiteralExpression | falseLiteralExpression | nullLiteralExpression | thisExpression
  | parenthesizedExpression | binaryExpression | assignmentExpression | conditionalExpression
  | prefixUnaryExpression | postfixUnaryExpression | castExpression | asExpression | isExpression
  | memberAccessExpression | invocationExpression | elementAccessExpression
  | objectCreationExpression | arrayCreationExpression | implicitArrayCreationExpression
  | arrayInitializerExpression | awaitExpression | queryExpression | queryBody | fromClause
  | letClause | whereClause | orderByClause | ordering | selectClause | groupClause
  | queryContinuation
deriving DecidableEq

/-- What a row of a listing is: a token or a node. -/
inductive SyntaxKind
  | token (t : TokenKind)
  | node (n : NodeKind)
deriving DecidableEq

namespace TokenKind

def name : TokenKind → String
  | .unknown => "Unknown"
  | .endOfFile => "EndOfFileToken"
  | .identifier => "IdentifierToken"
  | .numericLiteral => "NumericLiteralToken"
  | .stringLiteral => "StringLiteralToken"
  | .characterLiteral => "CharacterLiteralToken"
  | .punct p => p.name
  | .keyword k => k.name

/-- The spelling, for a token that has only one. -/
def text? : TokenKind → Option String
  | .punct p => some p.text
  | .keyword k => some k.text
  | _ => none

def isKeyword : TokenKind → Bool
  | .keyword _ => true
  | _ => false

def isPunctuation : TokenKind → Bool
  | .punct _ => true
  | _ => false

def isAssignment : TokenKind → Bool
  | .punct p => p.isAssignment
  | _ => false

def isModifier : TokenKind → Bool
  | .keyword k => k.isModifier
  | _ => false

end TokenKind

namespace NodeKind

def name : NodeKind → String
  | .compilationUnit => "CompilationUnit"
  | .usingDirective => "UsingDirective"
  | .namespaceDeclaration => "NamespaceDeclaration"
  | .classDeclaration => "ClassDeclaration"
  | .structDeclaration => "StructDeclaration"
  | .fieldDeclaration => "FieldDeclaration"
  | .methodDeclaration => "MethodDeclaration"
  | .constructorDeclaration => "ConstructorDeclaration"
  | .conversionOperatorDeclaration => "ConversionOperatorDeclaration"
  | .parameter => "Parameter"
  | .incompleteMember => "IncompleteMember"
  | .predefinedType => "PredefinedType"
  | .identifierName => "IdentifierName"
  | .qualifiedName => "QualifiedName"
  | .genericName => "GenericName"
  | .nullableType => "NullableType"
  | .arrayType => "ArrayType"
  | .block => "Block"
  | .emptyStatement => "EmptyStatement"
  | .localDeclarationStatement => "LocalDeclarationStatement"
  | .variableDeclaration => "VariableDeclaration"
  | .variableDeclarator => "VariableDeclarator"
  | .expressionStatement => "ExpressionStatement"
  | .ifStatement => "IfStatement"
  | .whileStatement => "WhileStatement"
  | .doStatement => "DoStatement"
  | .forStatement => "ForStatement"
  | .returnStatement => "ReturnStatement"
  | .breakStatement => "BreakStatement"
  | .continueStatement => "ContinueStatement"
  | .gotoStatement => "GotoStatement"
  | .labeledStatement => "LabeledStatement"
  | .numericLiteralExpression => "NumericLiteralExpression"
  | .stringLiteralExpression => "StringLiteralExpression"
  | .characterLiteralExpression => "CharacterLiteralExpression"
  | .trueLiteralExpression => "TrueLiteralExpression"
  | .falseLiteralExpression => "FalseLiteralExpression"
  | .nullLiteralExpression => "NullLiteralExpression"
  | .thisExpression => "ThisExpression"
  | .parenthesizedExpression => "ParenthesizedExpression"
  | .binaryExpression => "BinaryExpression"
  | .assignmentExpression => "AssignmentExpression"
  | .conditionalExpression => "ConditionalExpression"
  | .prefixUnaryExpression => "PrefixUnaryExpression"
  | .postfixUnaryExpression => "PostfixUnaryExpression"
  | .castExpression => "CastExpression"
  | .asExpression => "AsExpression"
  | .isExpression => "IsExpression"
  | .memberAccessExpression => "MemberAccessExpression"
  | .invocationExpression => "InvocationExpression"
  | .elementAccessExpression => "ElementAccessExpression"
  | .objectCreationExpression => "ObjectCreationExpression"
  | .arrayCreationExpression => "ArrayCreationExpression"
  | .implicitArrayCreationExpression => "ImplicitArrayCreationExpression"
  | .arrayInitializerExpression => "ArrayInitializerExpression"
  | .awaitExpression => "AwaitExpression"
  | .queryExpression => "QueryExpression"
  | .queryBody => "QueryBody"
  | .fromClause => "FromClause"
  | .letClause => "LetClause"
  | .whereClause => "WhereClause"
  | .orderByClause => "OrderByClause"
  | .ordering => "Ordering"
  | .selectClause => "SelectClause"
  | .groupClause => "GroupClause"
  | .queryContinuation => "QueryContinuation"

end NodeKind

namespace SyntaxKind

def name : SyntaxKind → String
  | .token t => t.name
  | .node n => n.name

def isToken : SyntaxKind → Bool
  | .token _ => true
  | .node _ => false

end SyntaxKind

end CSharpFront
