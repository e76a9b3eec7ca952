import CSharpFront.Diagnostic.Report
import CSharpFront.Text.Quoted
/-!
Expected diagnostics. An expectation says what one knows of a diagnostic; a list of expectations is
met by a list of diagnostics that meet them one by one.
-/

namespace CSharpFront

@[ext] structure Expectation where
  code : Nat
  /-- The text that the diagnostic covers. -/
  squiggle? : Option String := none
  arguments? : Option (List String) := none
  location? : Option LinePosition := none
  severity? : Option Severity := none

namespace Expectation

/-- All that can be expected of a diagnostic of a text. Its severity goes without saying unless it
was changed. -/
def of (source : String) (d : Diagnostic) : Expectation where
  code := d.code
  squiggle? := some ((Text.slice? source d.span).getD "")
  arguments? := some d.arguments
  location? := some ((LineMap.ofText source).positionOf d.span.start)
  severity? := if d.severity = d.message.severity then none else some d.severity

/-- Whether a diagnostic of a text is as expected. -/
def isMet (e : Expectation) (source : String) (d : Diagnostic) : Bool :=
  e.code == d.code &&
    e.squiggle?.all (fun squiggle => Text.slice? source d.span == some squiggle) &&
    e.arguments?.all (· == d.arguments) &&
    e.location?.all (· == (LineMap.ofText source).positionOf d.span.start) &&
    e.severity?.all (· == d.severity)

def render (e : Expectation) : String :=
  let squiggle := (e.squiggle?.map fun text => ", " ++ Text.quote text).getD ""
  let arguments :=
    match e.arguments? with
    | none | some [] => ""
    | some arguments => ".WithArguments(" ++ ", ".intercalate (arguments.map Text.quote) ++ ")"
  let location := (e.location?.map fun p => s!".WithLocation({p.line}, {p.column})").getD ""
  let severity := (e.severity?.map fun s => s!".WithSeverity({s.name})").getD ""
  "Diagnostic(" ++ Code.render e.code ++ squiggle ++ ")" ++ arguments ++ location ++ severity

end Expectation

/-- Two lists that do not agree, what was expected and what there is. -/
@[ext] structure Mismatch where
  expected : List String
  actual : List String
deriving DecidableEq

namespace Mismatch

def message (m : Mismatch) : String :=
  let block (lines : List String) : String := String.join (lines.map ("    " ++ · ++ "\n"))
  "diagnostics did not match\nexpected:\n" ++ block m.expected ++ "actual:\n" ++ block m.actual

end Mismatch

namespace Bag

/-- Whether the diagnostics of a text meet expectations one by one. -/
def meets (b : Bag) (source : String) : List Expectation → Bool
  | es => b.length == es.length && (b.zip es).all fun (d, e) => e.isMet source d

/-- Compares the diagnostics of a text with expectations. -/
def check (b : Bag) (source : String) (es : List Expectation) : Except Mismatch Unit :=
  if b.meets source es then .ok ()
  else .error ⟨es.map Expectation.render, b.map fun d => (Expectation.of source d).render⟩

/-- Compares the codes of diagnostics with those that are expected. -/
def checkCodes (b : Bag) (codes : List Nat) : Except Mismatch Unit :=
  let actual := b.map Diagnostic.code
  if actual = codes then .ok () else .error ⟨codes.map Code.render, actual.map Code.render⟩

end Bag

end CSharpFront
