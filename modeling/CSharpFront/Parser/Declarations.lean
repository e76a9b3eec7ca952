import CSharpFront.Parser.Statements
/-!
Parsing declarations and whole units. Before each member the parser asks whether it has been
cancelled; what it has reported until then stays in its state.
-/

namespace CSharpFront.Parser

/-- A parser that can be cancelled. -/
abbrev Cancellable := ExceptT Cancelled P

/-- Asks whether the parser has been cancelled. -/
def poll : Cancellable Unit := do
  match (← get).polls.ask with
  | .ok polls => modify fun s => { s with polls }
  | .error e => throw e

/-- The members that come until there is none, with a question for cancellation before each. A token
with which no member came any further would be dropped. -/
def membersUntil {α : Type} (ends : TokenKind → Bool) (member : Cancellable α) :
    Cancellable (List α) := do
  let members ← loop [] fun members => do
    if ends (← currentKind) then return .done members
    poll
    let left := (← get).rest.length
    let m ← member
    if (← get).rest.length = left then advance
    return .yield (m :: members)
  return members.reverse

def modifiers : P Modifiers := do
  let modifiers := Lookahead.modifiers (← get).rest
  advanceBy modifiers.length
  return modifiers

/-! ### Directives -/

/-- The name before the `=` of a directive, if there is one. -/
def alias? : P (Option Identifier) := do
  let rest := (← get).rest
  if Lookahead.kind rest = .identifier ∧ Lookahead.secondKind rest = .punct .equals then
    let name ← identifier
    advance
    return some name
  else return none

def usingDirective (r : Rules) : P UsingDirective := do
  let start := (← current).start
  let _ ← eat (.keyword .kwUsing)
  let isStatic ← accept (.keyword .kwStatic)
  let alias? ← alias?
  let name ← name r
  let _ ← eat (.punct .semicolon)
  return ⟨← rangeFrom start, isStatic, alias?, name⟩

def usingDirectives (r : Rules) : P (List UsingDirective) := many do
  if (← currentKind) = .keyword .kwUsing then some <$> usingDirective r else return none

/-! ### Members of types -/

def parameter (r : Rules) : P Parameter := do
  let t ← current
  let modifier? ← if t.kind.isParameterModifier then some <$> take else pure none
  let type ← r.type true
  let identifier ← identifier
  return ⟨← rangeFrom t.start, modifier?, type, identifier⟩

def parameters (r : Rules) : P (List Parameter) := do
  let _ ← eat (.punct .openParen)
  let parameters ←
    if (← currentKind) = .punct .closeParen then pure [] else separated (parameter r)
  let _ ← eat (.punct .closeParen)
  return parameters

/-- The body of a method, or the semicolon in its place. -/
def methodBody (r : Rules) (isAsync : Bool) : P (Option Block) := do
  if ← accept (.punct .semicolon) then return none
  else withReader ({ · with inAsync := isAsync }) (some <$> block r)

/-- The call of another constructor before the body of a constructor, which carries no meaning
here. -/
def constructorInitializer (r : Rules) : P Unit := do
  if ← accept (.punct .colon) then
    match ← currentKind with
    | .keyword .kwBase | .keyword .kwThis => advance
    | _ => report .tokenExpected (← expectedSpan) ["base"]
    let _ ← arguments r .openParen .closeParen

/-- A method after its name. -/
def methodRest (r : Rules) (start : Nat) (modifiers : Modifiers)
    (returnType? : Option TypeSyntax) (identifier : Identifier) : P ClassMember := do
  let parameters ← parameters r
  if returnType?.isNone then constructorInitializer r
  let body? ← methodBody r (modifiers.contains .asyncMod)
  return .method ⟨← rangeFrom start, modifiers, returnType?, identifier, parameters, body?⟩

def conversionOperator (r : Rules) (start : Nat) (modifiers : Modifiers) : P ClassMember := do
  let kind ← take
  let _ ← eat (.keyword .kwOperator)
  let type ← r.type true
  let parameters ← parameters r
  let body? ← methodBody r false
  return .conversion ⟨← rangeFrom start, modifiers, kind, type, parameters, body?⟩

/-- A field, or a method with its return type. -/
def typedMember (r : Rules) (start : Nat) (modifiers : Modifiers) : P ClassMember := do
  let type ← r.type true
  let identifier ← identifier
  if (← currentKind) = .punct .openParen then
    methodRest r start modifiers (some type) identifier
  else
    let declaration ← declarators r type.range.start type identifier
    let _ ← eat (.punct .semicolon)
    return .field ⟨← rangeFrom start, modifiers, declaration⟩

/-- Reports a token that begins no member, and drops it and all that follow until a member can
begin. -/
def badMember (start : Nat) : P ClassMember := do
  let t ← current
  report .invalidMemberToken t.span [t.text]
  unless t.kind = .punct .closeBrace do
    advance
    advanceBy ((← get).rest.takeWhile fun t => !t.kind.startsClassMember).length
  return .incomplete (← rangeFrom start)

/-- A member of a type other than a type, after its modifiers. -/
def plainMember (r : Rules) (start : Nat) (modifiers : Modifiers) : P ClassMember := do
  let rest := (← get).rest
  let kind := Lookahead.kind rest
  if kind = .keyword .kwImplicit ∨ kind = .keyword .kwExplicit then
    conversionOperator r start modifiers
  else if kind = .identifier ∧ Lookahead.secondKind rest = .punct .openParen then
    let identifier ← identifier
    methodRest r start modifiers none identifier
  else if kind = .identifier ∨ kind.isPredefinedType then typedMember r start modifiers
  else badMember start

/-- A member of a type; `nestedType` reads a type after its modifiers. -/
def classMember (r : Rules) (nestedType : Nat → Modifiers → Cancellable ClassMember) :
    Cancellable ClassMember := do
  let start := (← current).start
  let modifiers ← modifiers
  if (← currentKind).startsTypeDeclaration then nestedType start modifiers
  else plainMember r start modifiers

/-! ### Types -/

/-- The types from which a type derives, which carry no meaning here. -/
def baseTypes (r : Rules) : P Unit := do
  if ← accept (.punct .colon) then
    let _ ← separated (r.type true)

/-- A class or a struct after its modifiers, once its level is entered. -/
def typeDeclaration (r : Rules) (members : Cancellable (List ClassMember)) (start : Nat)
    (modifiers : Modifiers) : Cancellable TypeDeclaration := do
  let isStruct := (← currentKind) = .keyword .kwStruct
  advance
  let identifier ← identifier
  baseTypes r
  let _ ← eat (.punct .openBrace)
  let members ← members
  let _ ← eat (.punct .closeBrace)
  return ⟨← rangeFrom start, isStruct, modifiers, identifier, members⟩

/-- Reads a declaration one level further in, if that level can be entered. It is left also when
the parser finds that it has been cancelled. -/
def nestedDeclaration {α : Type} (refused : P α) (body : Cancellable α) : Cancellable α :=
  ExceptT.mk (nested (.ok <$> refused) body.run)

def endsMembers (kind : TokenKind) : Bool := kind == .punct .closeBrace || kind == .endOfFile

/-- The members of a type, in which types nest as deep as a bound allows. -/
def classMembers : (bound : Nat) → Cancellable (List ClassMember)
  | 0 => membersUntil endsMembers <|
    classMember (rules 0) fun start _ => do
      runOut
      refuse
      return .incomplete (← rangeFrom start)
  | n + 1 => membersUntil endsMembers <|
    classMember (rules (n + 1)) fun start modifiers =>
      nestedDeclaration (.incomplete <$> rangeFrom start)
        (.nestedType <$> typeDeclaration (rules n) (classMembers n) start modifiers)

/-! ### Namespaces and units -/

/-- A namespace with its members in braces, or with all that follows as its members, once its level
is entered. -/
def namespaceDeclaration (r : Rules) (members : Cancellable (List Member)) :
    Cancellable NamespaceDeclaration := do
  let start := (← current).start
  let _ ← eat (.keyword .kwNamespace)
  let name ← name r
  let hasBraces := !(← accept (.punct .semicolon))
  if hasBraces then
    let _ ← eat (.punct .openBrace)
  let usings ← usingDirectives r
  let members ← members
  if hasBraces then
    let _ ← eat (.punct .closeBrace)
  return ⟨← rangeFrom start, name, usings, members⟩

/-- A statement among the members of a unit, in which `await` is a reserved word. -/
def globalStatement (r : Rules) : P Member :=
  withReader ({ · with inAsync := true }) (.globalStatement <$> r.statement)

/-- Reports a token that begins no member, and drops it. -/
def badGlobalMember : P Member := do
  let t ← current
  report .definitionExpected t.span
  advance
  return .incomplete (← rangeFrom t.start)

/-- A member of a unit or of a namespace; `declaration` reads a namespace or a type. -/
def member (r : Rules) (inNamespace : Bool) (declaration : Nat → Cancellable Member) :
    Cancellable Member := do
  let t ← current
  if t.kind = .keyword .kwNamespace ∨ Lookahead.startsTypeDeclaration (← get).rest then
    declaration t.start
  else if !inNamespace && t.kind.startsStatement then globalStatement r
  else badGlobalMember

/-- A namespace or a type, once its level is entered. -/
def declarationBody (r : Rules) (namespaceMembers : Cancellable (List Member))
    (classMembers : Cancellable (List ClassMember)) (start : Nat) : Cancellable Member := do
  if (← currentKind) = .keyword .kwNamespace then
    .namespaceMember <$> namespaceDeclaration r namespaceMembers
  else
    let modifiers ← modifiers
    .typeMember <$> typeDeclaration r classMembers start modifiers

/-- Where the members of a namespace or of a unit end. -/
def endsDeclarations (inNamespace : Bool) (kind : TokenKind) : Bool :=
  kind == .endOfFile || (inNamespace && kind == .punct .closeBrace)

/-- The members of a namespace or of a unit, in which declarations nest as deep as a bound allows. -/
def members : (bound : Nat) → Bool → Cancellable (List Member)
  | 0, inNamespace => membersUntil (endsDeclarations inNamespace) <|
    member (rules 0) inNamespace fun start => do
      runOut
      refuse
      return .incomplete (← rangeFrom start)
  | n + 1, inNamespace => membersUntil (endsDeclarations inNamespace) <|
    member (rules (n + 1)) inNamespace fun start =>
      nestedDeclaration (.incomplete <$> rangeFrom start)
        (declarationBody (rules n) (members n true) (classMembers n) start)

def compilationUnit (bound : Nat) : Cancellable CompilationUnit := do
  let usings ← usingDirectives (rules bound)
  let members ← members bound false
  let last ← current
  return ⟨⟨0, last.stop⟩, usings, members, ⟨.endOfFile, last.range, false⟩⟩

/-! ### Entry points -/

/-- The environment for the tokens of a text. -/
def Env.of (stream : TokenStream) (maxDepth : Nat) : Env :=
  { endOfFile := stream.endOfFile, budget := stream.tokens.length + 1, maxDepth }

/-- The state before the first token, after what the scanner reported. -/
def State.start (stream : TokenStream) (diagnostics : Array Diagnostic) (polls : Polls) :
    State :=
  { rest := stream.tokens, diagnostics, polls }

/-- A bound on the nesting of the rules that is never reached: each of them enters a level first. -/
def Env.bound (env : Env) : Nat := env.maxDepth + 1

/-- The tree of a unit, with the state after it. -/
def parseUnit (stream : TokenStream) (maxDepth : Nat) (diagnostics : Array Diagnostic)
    (polls : Polls) : Except Cancelled CompilationUnit × State :=
  let env := Env.of stream maxDepth
  (compilationUnit env.bound).run env (.start stream diagnostics polls)

/-- An expression at the start of the tokens that are left. -/
def parseExpression (env : Env) (s : State) : Expr × State := (rules env.bound).expression env s

/-- A statement at the start of the tokens that are left. -/
def parseStatement (env : Env) (s : State) : Stmt × State := (rules env.bound).statement env s

end CSharpFront.Parser
