import CSharpFront.Text.LineMap
import CSharpFront.Diagnostic.Basic
/-!
Diagnostics shown with their lines: one line of text each, or a record of all that is known.
-/

namespace CSharpFront

namespace Diagnostic

/-- The file if there is one, the line and column, and the diagnostic. -/
def renderAt (d : Diagnostic) (file? : Option String) (lines : LineMap) : String :=
  file?.getD "" ++ (lines.positionOf d.span.start).render ++ ": " ++ d.render

end Diagnostic

/-- A diagnostic with its place in bytes and in lines. -/
structure Record where
  file? : Option String
  code : String
  severity : Severity
  message : String
  arguments : List String
  first : LinePosition
  last : LinePosition
  span : Span

namespace Record

def of (d : Diagnostic) (file? : Option String) (lines : LineMap) : Record where
  file? := file?
  code := d.id
  severity := d.severity
  message := d.text
  arguments := d.arguments
  first := lines.positionOf d.span.start
  last := lines.positionOf d.span.stop
  span := d.span

end Record

namespace Bag

/-- One line for each diagnostic. -/
def render (b : Bag) (file? : Option String) (lines : LineMap) : String :=
  String.join (b.map fun d => d.renderAt file? lines ++ "\n")

end Bag

end CSharpFront
