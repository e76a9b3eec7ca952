import CSharpFront.Text.Span
import CSharpFront.Diagnostic.Code
import CSharpFront.Diagnostic.Template
/-!
Diagnostics and the lists of them that a unit collects. The order of a list is the order of
detection; a sorted view is a copy.
-/

namespace CSharpFront

/-- A message at a place in the text, with its arguments and its severity there. -/
@[ext] structure Diagnostic where
  message : Message
  severity : Severity
  span : Span
  arguments : List String
deriving DecidableEq

namespace Diagnostic

/-- A diagnostic of the severity that its message has by default. -/
def of (message : Message) (span : Span) (arguments : List String := []) : Diagnostic :=
  ⟨message, message.severity, span, arguments⟩

def withSeverity (d : Diagnostic) (severity : Severity) : Diagnostic := { d with severity }

def code (d : Diagnostic) : Nat := d.message.code

def id (d : Diagnostic) : String := d.message.id

/-- The template of the message with the arguments in their places. -/
def text (d : Diagnostic) : String := Template.fill d.message.template d.arguments

def isError (d : Diagnostic) : Bool := d.severity == .error

def isWarning (d : Diagnostic) : Bool := d.severity == .warning

/-- Severity, code and text, without a place. -/
def render (d : Diagnostic) : String := s!"{d.severity.name} {d.id}: {d.text}"

/-- Whether the first diagnostic stands no later: it starts earlier, or at the same byte and is no
longer. -/
def standsBy (d e : Diagnostic) : Bool :=
  d.span.start < e.span.start || (d.span.start == e.span.start && d.span.length ≤ e.span.length)

end Diagnostic

/-- The diagnostics of a unit in the order of their detection. -/
abbrev Bag := List Diagnostic

namespace Bag

def hasErrors (b : Bag) : Bool := b.any Diagnostic.isError

def errorCount (b : Bag) : Nat := b.countP Diagnostic.isError

def warningCount (b : Bag) : Nat := b.countP Diagnostic.isWarning

/-- The diagnostics by place; those at one place keep the order of their detection. -/
def sorted (b : Bag) : Bag := b.mergeSort Diagnostic.standsBy

end Bag

end CSharpFront
