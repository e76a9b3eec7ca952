import CSharpFront.CommandLine.Arguments
import CSharpFront.CommandLine.Files
import CSharpFront.Compilation
import CSharpFront.Project.Config
import CSharpFront.Text.Quoted
/-!
A run of the command line, from its arguments to what it prints and how it ends. It compiles the
files that are named, or those of a project. Diagnostics go to the error output as lines of text, or
to the output as one JSON object a line.
-/

namespace CSharpFront

namespace Record

/-- The record as one JSON object, its keys in a fixed order. -/
def toJson (r : Record) : String :=
  let texts (l : List String) : String := "[" ++ ",".intercalate (l.map Text.jsonQuote) ++ "]"
  let fields : List (String × String) :=
    (r.file?.map fun file => ("file", Text.jsonQuote file)).toList ++
    [("code", Text.jsonQuote r.code), ("severity", Text.jsonQuote r.severity.name),
     ("message", Text.jsonQuote r.message), ("arguments", texts r.arguments),
     ("line", toString r.first.line), ("column", toString r.first.column),
     ("endLine", toString r.last.line), ("endColumn", toString r.last.column),
     ("start", toString r.span.start), ("length", toString r.span.length)]
  "\x7b" ++ ",".intercalate (fields.map fun (key, v) => Text.jsonQuote key ++ ":" ++ v) ++ "\x7d"

end Record

namespace CommandLine

/-- What a run prints and how it ends. -/
@[ext] structure Outcome where
  exit : Nat
  stdout : String := ""
  stderr : String := ""
deriving DecidableEq

/-- Why a run ends before it compiles anything. -/
inductive Failure
  | project (path : String) (problem : ReadProblem)
  | config (path : String) (problem : ConfigProblem)
  | noFiles
  | options (problem : OptionProblem)
  | source (path : String) (problem : ReadProblem)

namespace Failure

def message : Failure → String
  | .project path problem =>
    "Failed to read project '" ++ path ++ "': cannot read '" ++ path ++ "': " ++ problem.message
  | .config path problem => "Failed to read project '" ++ path ++ "': " ++ problem.message
  | .noFiles => "No input files found."
  | .options problem => problem.message
  | .source path problem =>
    "Failed to load source files: cannot read '" ++ path ++ "': " ++ problem.message

/-- The outcome of a run that fails after it has printed something. -/
def outcome (f : Failure) (stdout : String) : Outcome :=
  ⟨1, stdout, "error: " ++ f.message ++ "\n"⟩

end Failure

def versionLine : String := "rsc Version 0.1.0\n"

/-- The project file that is taken when nothing is named. -/
def defaultProject : String := "rsharp.json"

/-! ### What to compile -/

section

variable {m : Type → Type} [Monad m]

/-- The files of a project, seen from where its own file is seen, with its options. -/
def readProject (path : String) (text : Except ReadProblem String) :
    Except Failure (List String × CompilerOptions) :=
  match text with
  | .error problem => .error (.project path problem)
  | .ok text =>
    match ProjectConfig.parse text with
    | .error problem => .error (.config path problem)
    | .ok c => .ok (c.resolveFiles ((Path.parent? path).getD "."), c.options)

/-- The files to compile and the options they are compiled with: a project that is named comes
first, then files that are named, then the project file that lies where the run does. -/
def inputs (read : Reader m) (a : Arguments) :
    m (Except Failure (List String × CompilerOptions)) := do
  match a.project? with
  | some path => return readProject path (← read path)
  | none =>
    if !a.files.isEmpty then return .ok (a.files, {})
    match ← read defaultProject with
    | .error .notFound => return .ok ([], {})
    | text => return readProject defaultProject text

/-- The texts of files, unless one cannot be read. -/
def readAll (read : Reader m) : List String → m (Except Failure (List (String × String)))
  | [] => return .ok []
  | path :: paths => do
    match ← read path with
    | .error problem => return .error (.source path problem)
    | .ok text => return (← readAll read paths).map ((path, text) :: ·)

/-! ### What to print -/

/-- A code without the blanks around it. -/
def trimmed (code : String) : String :=
  String.ofList ((code.toList.dropWhile Text.isSpace).reverse.dropWhile Text.isSpace).reverse

/-- The options as the arguments change them. -/
def override (a : Arguments) (o : CompilerOptions) : CompilerOptions :=
  { o with
    treatWarningsAsErrors := o.treatWarningsAsErrors || a.warnAsError
    warningLevel := a.warningLevel?.getD o.warningLevel
    noWarn := o.noWarn ++ a.noWarn.map trimmed
    parallel := o.parallel && !a.sequential }

/-- The diagnostics of a unit as JSON, one a line. -/
def jsonLines (u : UnitResult) (b : Bag) : String :=
  String.join (b.map fun d => (Record.of d (some u.file) u.lines).toJson ++ "\n")

/-- How many errors there were. -/
def summary (errors : Nat) : String :=
  let plural := if errors = 1 then "" else "s"
  s!"\nFound {errors} error{plural}.\n"

/-- The outcome of a compilation. -/
def report (format : OutputFormat) (o : CompilerOptions) (units : List UnitResult)
    (stdout : String) : Outcome :=
  let errors := units.foldl (fun n u => n + (u.visible o).errorCount) 0
  let exit := if 0 < errors then 2 else 0
  match format with
  | .json => ⟨exit, stdout ++ String.join (units.map fun u => jsonLines u (u.visible o)), ""⟩
  | .text =>
    let lines := String.join (units.map fun u => u.render o)
    ⟨exit, stdout, lines ++ if 0 < errors then summary errors else ""⟩

/-- Compiles what the arguments ask for. -/
def compile (read : Reader m) (a : Arguments) : m Outcome := do
  match ← inputs read a with
  | .error f => return f.outcome ""
  | .ok ([], _) => return Failure.noFiles.outcome ""
  | .ok (files, options) =>
    let stdout := if a.listFiles then String.join (files.map (· ++ "\n")) else ""
    let o := override a options
    match o.problem? with
    | some problem => return (Failure.options problem).outcome stdout
    | none =>
      match ← readAll read files with
      | .error f => return f.outcome stdout
      | .ok sources =>
        let units := sources.map fun (file, text) => compileUnit o none file text
        return report (a.format?.getD .text) o units stdout

/-- Runs the command line. -/
def run (read : Reader m) (arguments : List String) : m Outcome := do
  match Arguments.parse arguments with
  | .error problem => return ⟨2, "", "error: " ++ problem.message ++ "\n"⟩
  | .ok a => if a.version then return ⟨0, versionLine, ""⟩ else compile read a

end

end CommandLine

end CSharpFront
