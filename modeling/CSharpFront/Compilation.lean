import CSharpFront.Binding.Unit
import CSharpFront.Diagnostic.Report
import CSharpFront.Flow.Reachability
import CSharpFront.Lexer.Scanner
import CSharpFront.Parser.Declarations
import CSharpFront.Project.Options
/-!
Compiling units. A unit is scanned, parsed, bound and walked over for what can be reached, and all
that is reported on the way is its bag. Units share nothing.
-/

namespace CSharpFront

/-- The diagnostics of a text in the order of their detection, unless the compilation finds that it
has been cancelled. -/
def compileText (text : String) (maxDepth : Nat) (polls : Polls) : Except Cancelled Bag :=
  let (stream, scanned) := scan text
  match Parser.parseUnit stream maxDepth scanned polls with
  | (.error e, _) => .error e
  | (.ok u, parsed) =>
    match bindUnit u parsed.diagnostics parsed.polls with
    | (.error e, _, _) => .error e
    | (.ok _, _, bound) =>
      .ok (Flow.unit ⟨stream, bound.isReferenced⟩ u bound.state.diagnostics).toList

/-- The diagnostics of a text under the options that stand when nothing is said. -/
def compileSource (text : String) : Bag :=
  (compileText text maxParseDepth none).toOption.getD []

/-- A text by its characters. Closed runs evaluate from these much faster than from the text. -/
theorem compileSource_ofList (cs : List Char) :
    compileSource (String.ofList cs) =
      (let scanned := Scanner.run #[] #[] ⟨0, cs⟩
      match Parser.parseUnit scanned.1 maxParseDepth scanned.2 none with
      | (.error _, _) => []
      | (.ok u, parsed) =>
        match bindUnit u parsed.diagnostics parsed.polls with
        | (.error _, _, _) => []
        | (.ok _, _, bound) =>
          (Flow.unit ⟨scanned.1, bound.isReferenced⟩ u bound.state.diagnostics).toList) := by
  unfold compileSource compileText
  rw [scan_ofList]
  grind [Except.toOption]

/-- A unit after its compilation. -/
structure UnitResult where
  file : String
  lines : LineMap
  outcome : Except Cancelled Bag

namespace UnitResult

/-- The diagnostics as the options report them; those of a cancelled unit are dropped. -/
def reported (u : UnitResult) (o : CompilerOptions) : Bag :=
  match u.outcome with
  | .ok bag => o.apply bag
  | .error _ => []

/-- The reported diagnostics that are printed. -/
def visible (u : UnitResult) (o : CompilerOptions) : Bag :=
  (u.reported o).filter (·.severity != .hidden)

def hasErrors (u : UnitResult) (o : CompilerOptions) : Bool := (u.reported o).hasErrors

/-- One line for each diagnostic that is printed. -/
def render (u : UnitResult) (o : CompilerOptions) : String :=
  (u.visible o).render (some u.file) u.lines

end UnitResult

/-- Compiles a text under the name of its file. -/
def compileUnit (o : CompilerOptions) (polls : Polls) (file text : String) : UnitResult :=
  ⟨file, .ofText text, compileText text o.depth polls⟩

end CSharpFront
