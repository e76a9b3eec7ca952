import CSharpFront.Project.Options
import CSharpFront.Project.Path
import CSharpFront.Text.Json
/-!
Project files. A project file is JSON text that lists the files to compile and the options. Parts
that are absent have their defaults.
-/

namespace CSharpFront

namespace Reporting

/-- A way of reporting is written as its name, or as an object with its name as the only key. -/
def ofJson? : JsonValue → Option Reporting
  | .string (some name) => ofName? name
  | .object [(some name, .null)] => ofName? name
  | _ => none

end Reporting

namespace CompilerOptions

/-- Written codes with ways of reporting. A code that comes twice keeps its place and takes the way
that comes last. -/
def putReporting (rs : List (String × Reporting)) (code : String) (r : Reporting) :
    List (String × Reporting) :=
  if rs.any (·.1 == code) then rs.map fun (c, q) => (c, if c = code then r else q)
  else rs ++ [(code, r)]

def reportingOfJson? : JsonValue → Option (List (String × Reporting))
  | .object ms => do
    let entries ← ms.mapM fun (code?, v) => do some (← code?, ← Reporting.ofJson? v)
    some (entries.foldl (fun rs (code, r) => putReporting rs code r) [])
  | _ => none

/-- Depths fit 32 bits, whether or not they are allowed. -/
def depthBound : Nat := 0x100000000

/-- Warning levels fit 8 bits, whether or not they are allowed. -/
def levelBound : Nat := 0x100

/-- A depth, or null for none. -/
def depthOfJson? : JsonValue → Option (Option Nat)
  | .null => some none
  | v => (v.naturalBelow? depthBound).map some

/-- The names of the options in the order in which an array holds them. -/
def fieldNames : List String :=
  ["warningLevel", "treatWarningsAsErrors", "noWarn", "diagnosticOptions", "maxParseDepth",
   "parallel"]

def ofJson? (v : JsonValue) : Option CompilerOptions := do
  let fields ← v.fields? fieldNames
  let absent : CompilerOptions := {}
  some {
    warningLevel :=
      ← JsonValue.field? fields "warningLevel" absent.warningLevel (·.naturalBelow? levelBound)
    treatWarningsAsErrors :=
      ← JsonValue.field? fields "treatWarningsAsErrors" absent.treatWarningsAsErrors (·.bool?)
    noWarn := ← JsonValue.field? fields "noWarn" absent.noWarn (·.texts?)
    reporting := ← JsonValue.field? fields "diagnosticOptions" absent.reporting reportingOfJson?
    maxDepth? := ← JsonValue.field? fields "maxParseDepth" absent.maxDepth? depthOfJson?
    parallel := ← JsonValue.field? fields "parallel" absent.parallel (·.bool?) }

/-- The options that a text denotes, whatever their values. -/
def parse? (text : String) : Option CompilerOptions := do ofJson? (← JsonValue.parse? text)

end CompilerOptions

@[ext] structure ProjectConfig where
  files : List String := []
  options : CompilerOptions := {}
deriving DecidableEq

/-- Why a text is no project file. -/
inductive ConfigProblem
  /-- The text is not JSON, or its values are not of the right kinds. -/
  | malformed
  | option (problem : OptionProblem)
deriving DecidableEq

namespace ConfigProblem

def message : ConfigProblem → String
  | .malformed => "invalid rsharp.json"
  | .option problem => problem.message

end ConfigProblem

namespace ProjectConfig

def fieldNames : List String := ["files", "compilerOptions"]

def ofJson? (v : JsonValue) : Option ProjectConfig := do
  let fields ← v.fields? fieldNames
  some {
    files := ← JsonValue.field? fields "files" [] (·.texts?)
    options := ← JsonValue.field? fields "compilerOptions" {} CompilerOptions.ofJson? }

/-- The project that a text denotes, with options that have nothing wrong with them. -/
def parse (text : String) : Except ConfigProblem ProjectConfig :=
  match (JsonValue.parse? text).bind ofJson? with
  | none => .error .malformed
  | some c =>
    match c.options.problem? with
    | some problem => .error (.option problem)
    | none => .ok c

/-- The files of the project, seen from a directory. -/
def resolveFiles (c : ProjectConfig) (base : String) : List String :=
  c.files.map (Path.join base)

end ProjectConfig

end CSharpFront
