import CSharpFront.Diagnostic.Basic
/-!
How the diagnostics of a unit are reported. Options change nothing but warnings: they can promote,
hide or suppress them. Errors are always reported as errors.
-/

namespace CSharpFront

/-- How a warning of one code is reported. -/
inductive Reporting
  | error | warning
  /-- The warning is kept among the reported ones but not printed. -/
  | hidden
  /-- The warning is left out. -/
  | suppress
deriving DecidableEq

namespace Reporting

def all : List Reporting := [.error, .warning, .hidden, .suppress]

def name : Reporting → String
  | .error => "error"
  | .warning => "warning"
  | .hidden => "hidden"
  | .suppress => "suppress"

def ofName? (name : String) : Option Reporting := all.find? (·.name == name)

/-- The severity with which a warning is reported, if it is. -/
def severity? : Reporting → Option Severity
  | .error => some .error
  | .warning => some .warning
  | .hidden => some .hidden
  | .suppress => none

end Reporting

/-- At this level every warning is reported. -/
def maxWarningLevel : Nat := 4

/-- The depth to which constructs may nest. Options can lower it, but not raise it. -/
def maxParseDepth : Nat := 256

@[ext] structure CompilerOptions where
  warningLevel : Nat := maxWarningLevel
  treatWarningsAsErrors : Bool := false
  /-- The written codes of warnings to leave out. -/
  noWarn : List String := []
  /-- Written codes with the way in which to report them. -/
  reporting : List (String × Reporting) := []
  maxDepth? : Option Nat := none
  /-- Whether units may be compiled at the same time. No answer depends on it. -/
  parallel : Bool := true
deriving DecidableEq

/-- What is wrong with options. -/
inductive OptionProblem
  | warningLevel (level : Nat)
  | maxDepth (depth : Nat)
  | code (text : String)
deriving DecidableEq

namespace OptionProblem

def message : OptionProblem → String
  | .warningLevel level =>
    s!"invalid compiler option: warningLevel must be between 0 and {maxWarningLevel}, got {level}"
  | .maxDepth depth =>
    s!"invalid compiler option: maxParseDepth must be between 1 and {maxParseDepth}, got {depth}"
  | .code text => "invalid compiler option: '" ++ text ++ "' is not a diagnostic code"

end OptionProblem

namespace CompilerOptions

/-- The first thing that is wrong with the options. -/
def problem? (o : CompilerOptions) : Option OptionProblem :=
  let codes := o.noWarn ++ o.reporting.map (·.1)
  if maxWarningLevel < o.warningLevel then some (.warningLevel o.warningLevel)
  else match o.maxDepth?.filter fun depth => depth == 0 || maxParseDepth < depth with
    | some depth => some (.maxDepth depth)
    | none => (codes.find? fun text => (Code.parse? text).isNone).map .code

/-- The depth to which constructs may nest. -/
def depth (o : CompilerOptions) : Nat := min (o.maxDepth?.getD maxParseDepth) maxParseDepth

/-- Whether warnings of a code are to be left out. -/
def leavesOut (o : CompilerOptions) (code : Nat) : Bool :=
  o.noWarn.any fun text => Code.parse? text == some code

/-- The way in which to report warnings of a code; of several spellings of it the last counts. -/
def reporting? (o : CompilerOptions) (code : Nat) : Option Reporting :=
  (o.reporting.reverse.find? fun (text, _) => Code.parse? text == some code).map (·.2)

/-- The severity with which a message that is a warning is reported, if it is. -/
def severity? (o : CompilerOptions) (m : Message) : Option Severity :=
  if o.leavesOut m.code then none
  else match o.reporting? m.code with
    | some r => r.severity?
    | none =>
      if o.warningLevel < m.level then none
      else some (if o.treatWarningsAsErrors then .error else .warning)

/-- A diagnostic as it is reported, if it is. -/
def report? (o : CompilerOptions) (d : Diagnostic) : Option Diagnostic :=
  if d.message.severity = .warning then (o.severity? d.message).map d.withSeverity else some d

/-- The diagnostics that are reported, in the order of their detection. -/
def apply (o : CompilerOptions) (b : Bag) : Bag := b.filterMap o.report?

end CompilerOptions

end CSharpFront
