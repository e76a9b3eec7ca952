import CSharpFront.Binding.Constant
import CSharpFront.Diagnostic.Basic
import CSharpFront.Syntax.Bodies
/-!
Which statements can be reached. One walk over a body, in the order of the text, keeps track of
whether control can come to where it stands. A condition decides nothing unless it is a truth word;
a label to which some `goto` jumps can always be reached, so that no jump has to be followed. The
first statement of each stretch that cannot be reached is reported, and so is each label to which
nothing jumps.
-/

namespace CSharpFront.Flow

/-- What stays the same during a walk. -/
structure Context where
  stream : TokenStream
  /-- Whether some `goto` jumps to the label whose name starts at a place. -/
  isReferenced : Nat → Bool

/-- How control leaves a loop's body early. -/
@[ext] structure LoopExits where
  broken : Bool := false
  continued : Bool := false
deriving DecidableEq

@[ext] structure State where
  /-- Whether control can come to where the walk stands. -/
  reachable : Bool := true
  /-- Whether the stretch that cannot be reached has been reported. -/
  reported : Bool := false
  /-- The exits of the innermost loop, inside one. -/
  loop? : Option LoopExits := none
  diagnostics : Array Diagnostic := #[]

namespace State

def report (s : State) (message : Message) (span : Span) : State :=
  { s with diagnostics := s.diagnostics.push (.of message span) }

/-- Goes on at a place that can be reached or not. A stretch that cannot be reached ends where a
place can. -/
def goOn (s : State) (reachable : Bool) : State :=
  { s with reachable, reported := s.reported && !reachable }

/-- Reports at the first token of a stretch of text, if it is the first that cannot be reached.
Nothing is reported of an empty stretch. -/
def check (s : State) (c : Context) (span : Span) : State :=
  if s.reachable || s.reported || span.isEmpty then s
  else
    let anchor := ((c.stream.tokenFrom? span.start).map Token.span).getD span
    { s.report .unreachableCode anchor with reported := true }

/-- Leaves the loop at its end, or its round. Outside any loop control goes on. -/
def jump (s : State) (note : Bool → LoopExits → LoopExits) : State :=
  match s.loop? with
  | none => s
  | some l => { s.goOn false with loop? := some (note s.reachable l) }

/-- The exits of the innermost loop so far. -/
def exits (s : State) : LoopExits := s.loop?.getD {}

/-- Enters the body of a loop. -/
def enterLoop (s : State) : State := { s with loop? := some {} }

/-- Leaves the body of a loop, back into the loop around it. -/
def leaveLoop (s : State) (outer : State) : State := { s with loop? := outer.loop? }

end State

def breakOut (reachable : Bool) (l : LoopExits) : LoopExits :=
  { l with broken := l.broken || reachable }

def continueOn (reachable : Bool) (l : LoopExits) : LoopExits :=
  { l with continued := l.continued || reachable }

/-- Whether control can come to where a condition holds. -/
def mayHold (truth? : Option Bool) : Bool := truth? != some false

/-- Whether control can come to where a condition fails. -/
def mayFail (truth? : Option Bool) : Bool := truth? != some true

/-- The outcome of a loop's condition; one that is absent always holds. -/
def loopTruth? : Option Expr → Option Bool
  | some e => e.truth?
  | none => some true

/-- The places at which a `for` that cannot be reached is reported. Its first word is none. -/
def headerSpans : Option ForInitializer → List Span
  | some (.declaration d) => d.declarators.map (·.identifier.span)
  | some (.expressions es) => es.map Expr.span
  | none => []

mutual

/-- Walks over a statement. -/
def statement (c : Context) : Stmt → State → State
  | .block ⟨_, _, ss, _⟩, s => statements c ss s
  | .empty _, s => s
  | .localDeclaration r _ _ _, s => s.check c r.toSpan
  | .expression r _ _, s => s.check c r.toSpan
  | .ifElse r e body else?, s =>
    let s := s.check c r.toSpan
    let thenEnd := statement c body (s.goOn (s.reachable && mayHold e.truth?))
    let elseStart := thenEnd.goOn (s.reachable && mayFail e.truth?)
    let elseEnd :=
      match else? with
      | some body => statement c body elseStart
      | none => elseStart
    elseEnd.goOn (thenEnd.reachable || elseEnd.reachable)
  | .whileLoop r e body, s =>
    let s := s.check c r.toSpan
    let bodyEnd := statement c body (s.enterLoop.goOn (s.reachable && mayHold e.truth?))
    (bodyEnd.leaveLoop s).goOn (s.reachable && mayFail e.truth? || bodyEnd.exits.broken)
  | .doLoop r body e, s =>
    let s := s.check c r.toSpan
    let bodyEnd := statement c body s.enterLoop
    let condition := bodyEnd.reachable || bodyEnd.exits.continued
    (bodyEnd.leaveLoop s).goOn (condition && mayFail e.truth? || bodyEnd.exits.broken)
  | .forLoop _ h body, s =>
    let s := (headerSpans h.initializer?).foldl (·.check c ·) s
    let truth? := loopTruth? h.condition?
    let bodyEnd := statement c body (s.enterLoop.goOn (s.reachable && mayHold truth?))
    let roundEnd := if bodyEnd.exits.continued then bodyEnd.goOn true else bodyEnd
    let checked := (h.incrementors.map Expr.span).foldl (·.check c ·) roundEnd
    (checked.leaveLoop s).goOn (s.reachable && mayFail truth? || bodyEnd.exits.broken)
  | .returnValue r _, s => (s.check c r.toSpan).goOn false
  | .goto r _, s => (s.check c r.toSpan).goOn false
  | .breakLoop r, s => (s.check c r.toSpan).jump breakOut
  | .continueLoop r, s => (s.check c r.toSpan).jump continueOn
  | .labeled r l body, s =>
    let s :=
      if !l.isMissing && c.isReferenced l.range.start then s.goOn true
      else
        let s := s.check c r.toSpan
        if l.isMissing then s else s.report .labelNotReferenced l.span
    statement c body s

def statements (c : Context) : List Stmt → State → State
  | [], s => s
  | b :: bs, s => statements c bs (statement c b s)

end

/-- Walks over the bodies of a unit after what was reported before. -/
def unit (c : Context) (u : CompilationUnit) (diagnostics : Array Diagnostic) : Array Diagnostic :=
  u.bodies.foldl (fun diagnostics body => (statements c body { diagnostics }).diagnostics)
    diagnostics

end CSharpFront.Flow
