import CSharpFront.Cancellation
import CSharpFront.Diagnostic.Basic
import CSharpFront.Syntax.Tree
/-!
The parser's state and its elementary steps. The state holds the tokens that are left; a step looks
at the first of them, takes it, or reports that another was expected. Nothing is ever put back, and
looking past the last token finds the end of file.

Whatever nests enters a level first and leaves it at its end. At the limit no level can be entered:
the parser says so once, drops all tokens that are left, and reports nothing more.
-/

namespace CSharpFront.Parser

/-- What stays the same while a construct is parsed. -/
structure Env where
  endOfFile : Token
  /-- More than the number of rounds that any loop over the tokens can take. -/
  budget : Nat
  /-- How deep constructs may nest. -/
  maxDepth : Nat
  /-- Whether `await` is a reserved word here. -/
  inAsync : Bool := false

/-- Where the parser stands at one moment. -/
@[ext] structure Moment where
  rest : List Token
  /-- The end of the last token that was taken. -/
  prevStop : Nat := 0
  /-- How many levels have been entered and not been left again. -/
  depth : Nat := 0
  /-- Set once the nesting limit was hit; from then on nothing is left and nothing is reported. -/
  tooDeep : Bool := false
  /-- What has been reported, the scanner's reports included. -/
  diagnostics : Array Diagnostic := #[]

structure State extends Moment where
  /-- The names of identifiers, the last first. -/
  names : List String := []
  polls : Polls := none
  /-- The moments that the parser has come through, the last first. Nothing reads them: they make
  it possible to say what holds all along a run. -/
  trail : List Moment := []
  /-- Set if something that is counted down was used up too early: the rounds of a loop, the nesting
  of the rules, or the levels that were entered. -/
  ranOut : Bool := false

/-- Goes on to another moment. -/
def State.moveTo (s : State) (m : Moment) : State :=
  { s with toMoment := m, trail := m :: s.trail }

/-- A parser: it reads the environment and changes the state. -/
abbrev P := ReaderT Env (StateM State)

/-- The first token that is left. -/
def current : P Token := return (← get).rest.headD (← read).endOfFile

def currentKind : P TokenKind := return (← current).kind

/-- Takes the first token that is left; at the end of the file nothing happens. -/
def advance : P Unit := modify fun s =>
  match s.rest with
  | [] => s
  | t :: rest => s.moveTo { s.toMoment with rest, prevStop := t.stop }

/-- Takes the first `n` tokens that are left. -/
def advanceBy : Nat → P Unit
  | 0 => pure ()
  | n + 1 => do advance; advanceBy n

/-- The range of a node from `start` to the last token that was taken. -/
def rangeFrom (start : Nat) : P Range := return ⟨start, max (← get).prevStop start⟩

/-- Reports, unless the nesting limit was hit before. -/
def report (message : Message) (span : Span) (arguments : List String := []) : P Unit :=
  modify fun s =>
    if s.tooDeep then s
    else s.moveTo { s.toMoment with
      diagnostics := s.diagnostics.push (.of message span arguments) }

/-- Where to say that something is missing: at the first token that is left, but just past the one
taken last if the first one left begins a line or ends the file. -/
def expectedSpan : P Span := do
  let t ← current
  if t.kind = .endOfFile ∨ t.flags.afterLineBreak then return .emptyAt (← get).prevStop
  else return t.span

/-- The message for a missing token of a kind, with its arguments. -/
def expectedMessage : TokenKind → Message × List String
  | .punct .semicolon => (.semicolonExpected, [])
  | .punct .closeParen => (.closeParenExpected, [])
  | .identifier => (.identifierExpected, [])
  | .punct .closeBrace => (.closeBraceExpected, [])
  | .punct .openBrace => (.openBraceExpected, [])
  | kind => (.tokenExpected, [kind.text?.getD "token"])

def reportExpected (kind : TokenKind) (span : Span) : P Unit :=
  let (message, arguments) := expectedMessage kind
  report message span arguments

/-- Takes a token of the kind, or makes one up and reports it. -/
def eat (kind : TokenKind) : P Leaf := do
  let t ← current
  if t.kind = kind then
    advance
    return ⟨kind, t.range, false⟩
  reportExpected kind (← expectedSpan)
  return .missing kind (← get).prevStop

/-- Takes a token of the kind if it comes next, and says whether it did. -/
def accept (kind : TokenKind) : P Bool := do
  if (← currentKind) = kind then
    advance
    return true
  return false

/-- Takes the next token whatever it is, as the leaf that it is. -/
def take : P Leaf := do
  let t ← current
  advance
  return ⟨t.kind, t.range, false⟩

/-- Takes the next token, reporting that another kind was expected in its place. -/
def replace (kind : TokenKind) : P Unit := do
  reportExpected kind (← current).span
  advance

/-- Takes a contextual keyword, or reports it. -/
def eatContextual (word : String) : P Unit := do
  if (← current).isContextual word then advance
  else report .tokenExpected (← expectedSpan) [word]

def noteName (name : String) : P Unit := modify fun s => { s with names := name :: s.names }

/-- The identifier that a token is. -/
def identifierOf (t : Token) : P Identifier := do
  noteName t.text
  return ⟨t.text, t.range, t.flags.verbatim, false⟩

/-- Takes an identifier, or makes one up without a name and reports it. -/
def identifier : P Identifier := do
  let t ← current
  if t.kind = .identifier then
    advance
    identifierOf t
  else
    reportExpected .identifier (← expectedSpan)
    noteName ""
    return .missing (← get).prevStop

def missingExpression : P Expr := return .missing (← get).prevStop

def missingType : P TypeSyntax := return .missing (← get).prevStop

/-! ### The nesting limit -/

/-- Gives up on the rest of the text: reports it once, and drops the tokens that are left. -/
def refuse : P Unit := do
  unless (← get).tooDeep do
    let span := (← current).span
    let last := (← read).endOfFile.start
    modify fun s => s.moveTo { s.toMoment with
      rest := [], prevStop := last, tooDeep := true,
      diagnostics := s.diagnostics.push (.of .tooDeep span) }

/-- Enters a level, and says whether that was possible. At the limit the parser gives up. -/
def enter : P Bool := do
  let s ← get
  if s.tooDeep then return false
  else if (← read).maxDepth ≤ s.depth then
    refuse
    return false
  else
    modify fun s => s.moveTo { s.toMoment with depth := s.depth + 1 }
    return true

/-- Leaves levels that were entered. -/
def leave (levels : Nat) : P Unit := modify fun s =>
  { s.moveTo { s.toMoment with depth := s.depth - levels } with
    ranOut := s.ranOut || s.depth < levels }

/-- Reads one level further in, if that level can be entered. -/
def nested {α : Type} (refused body : P α) : P α := do
  if ← enter then
    let a ← body
    leave 1
    return a
  else refused

/-- Notes that a bound was used up. The bounds are such that this never happens. -/
def runOut {m : Type → Type} [MonadStateOf State m] : m Unit := modify ({ · with ranOut := true })

/-! ### Loops over the tokens -/

/-- Repeats a step until it is done, at most `n` times. -/
def iterate {m : Type → Type} [Monad m] [MonadStateOf State m] {α : Type}
    (step : α → m (ForInStep α)) : Nat → α → m α
  | 0, a => do
    runOut
    pure a
  | n + 1, a => do
    match ← step a with
    | .done b => pure b
    | .yield b => iterate step n b

/-- Repeats a step until it is done. Each round but the last must take a token, so that there are
fewer rounds than the budget. -/
def loop {m : Type → Type} [Monad m] [MonadStateOf State m] [MonadReaderOf Env m] {α : Type}
    (a : α) (step : α → m (ForInStep α)) : m α := do
  iterate step (← read).budget a

/-- The items that come until there is none. -/
def many {α : Type} (item : P (Option α)) : P (List α) := do
  let items ← loop [] fun items => do
    match ← item with
    | some a => return .yield (a :: items)
    | none => return .done items
  return items.reverse

/-- The items that follow, each after a comma. -/
def afterCommas {α : Type} (item : P α) : P (List α) := many do
  if ← accept (.punct .comma) then return some (← item) else return none

/-- One item or more, with commas between. -/
def separated {α : Type} (item : P α) : P (List α) := do
  let first ← item
  return first :: (← afterCommas item)

end CSharpFront.Parser
