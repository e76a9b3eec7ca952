import CSharpFront.Text.Decimal
/-!
The arguments of the command line. An option has a long name, and some have a letter; a value
follows its option, or is attached to it by `=`, or to a letter by nothing.
-/

namespace CSharpFront.CommandLine

inductive OutputFormat
  | text | json
deriving DecidableEq

@[ext] structure Arguments where
  files : List String := []
  project? : Option String := none
  warnAsError : Bool := false
  noWarn : List String := []
  warningLevel? : Option Nat := none
  format? : Option OutputFormat := none
  /-- Asks for annotated source; diagnostics are printed as plain lines all the same. -/
  pretty : Bool := false
  listFiles : Bool := false
  sequential : Bool := false
  version : Bool := false
deriving DecidableEq

/-- Why arguments cannot be understood. -/
inductive UsageProblem
  | unexpected (argument : String)
  | missingValue (option : String)
  | invalidValue (option value : String)
  | repeated (option : String)
deriving DecidableEq

namespace UsageProblem

def message : UsageProblem → String
  | .unexpected argument => "unexpected argument '" ++ argument ++ "' found"
  | .missingValue option => "a value is required for '" ++ option ++ "' but none was supplied"
  | .invalidValue option value => "invalid value '" ++ value ++ "' for '" ++ option ++ "'"
  | .repeated option => "the argument '" ++ option ++ "' cannot be used multiple times"

end UsageProblem

/-- An option that stands for itself. -/
inductive Flag
  | warnAsError | pretty | listFiles | sequential | version
deriving DecidableEq

/-- An option that takes a value. -/
inductive Setting
  | project | noWarn | warningLevel | format
deriving DecidableEq

namespace Flag

def name : Flag → String
  | .warnAsError => "--warnaserror"
  | .pretty => "--pretty"
  | .listFiles => "--list-files"
  | .sequential => "--sequential"
  | .version => "--version"

def ofName? (name : String) : Option Flag :=
  [warnAsError, pretty, listFiles, sequential, version].find? (·.name == name)

/-- Sets the flag, which may be set only once. -/
def apply (f : Flag) (a : Arguments) : Except UsageProblem Arguments :=
  let set (isSet : Bool) (b : Arguments) : Except UsageProblem Arguments :=
    if isSet then .error (.repeated f.name) else .ok b
  match f with
  | .warnAsError => set a.warnAsError { a with warnAsError := true }
  | .pretty => set a.pretty { a with pretty := true }
  | .listFiles => set a.listFiles { a with listFiles := true }
  | .sequential => set a.sequential { a with sequential := true }
  | .version => set a.version { a with version := true }

end Flag

namespace Setting

def name : Setting → String
  | .project => "--project"
  | .noWarn => "--nowarn"
  | .warningLevel => "--warn"
  | .format => "--format"

def ofName? (name : String) : Option Setting :=
  [project, noWarn, warningLevel, format].find? (·.name == name)

/-- A warning level in decimal digits, after a sign or none. Only zero can have a minus sign. -/
def level? (value : String) : Option Nat :=
  match value.toList with
  | '-' :: digits => (Text.decimal? digits).filter (· == 0)
  | cs => Text.signedDecimalBelow? 5 cs

def format? (value : String) : Option OutputFormat :=
  match value with
  | "text" => some .text
  | "json" => some .json
  | _ => none

/-- Gives the setting a value. Only the codes to leave out may be given more than once; they are
separated by commas. -/
def apply (s : Setting) (value : String) (a : Arguments) : Except UsageProblem Arguments :=
  let set {α : Type} (old? new? : Option α) (use : α → Arguments) :
      Except UsageProblem Arguments :=
    match old?, new? with
    | _, none => .error (.invalidValue s.name value)
    | some _, _ => .error (.repeated s.name)
    | none, some v => .ok (use v)
  match s with
  | .project =>
    set a.project? (if value.isEmpty then none else some value) ({ a with project? := some · })
  | .noWarn => .ok { a with noWarn := a.noWarn ++ value.splitOn "," }
  | .warningLevel => set a.warningLevel? (level? value) ({ a with warningLevel? := some · })
  | .format => set a.format? (format? value) ({ a with format? := some · })

end Setting

/-- What an argument is, with the value that is attached to it. -/
inductive Argument
  | endOfOptions
  | flag (flag : Flag)
  | setting (setting : Setting) (value? : Option String)
  /-- Flags by their letters, up to a letter with a value. -/
  | letters (flags : List Flag) (setting? : Option (Setting × Option String))
  | file (path : String)
  | unknown (text : String)

namespace Argument

/-- The name of an option and the value that is attached to it by `=`. -/
def splitValue (cs : List Char) : String × Option String :=
  match cs.dropWhile (· ≠ '=') with
  | _ :: value => (String.ofList (cs.takeWhile (· ≠ '=')), some (String.ofList value))
  | [] => (String.ofList cs, none)

/-- The value that is attached to a letter. -/
def attached? : List Char → Option String
  | [] => none
  | '=' :: cs => some (String.ofList cs)
  | cs => some (String.ofList cs)

/-- The letters of an argument after its dash. -/
def ofLetters (text : String) : List Flag → List Char → Argument
  | flags, [] => .letters flags.reverse none
  | flags, 'v' :: cs => ofLetters text (.version :: flags) cs
  | flags, 'p' :: cs => .letters flags.reverse (some (.project, attached? cs))
  | _, _ => .unknown text

def ofText (text : String) : Argument :=
  match text.toList with
  | ['-', '-'] => .endOfOptions
  | '-' :: '-' :: cs =>
    let (name, value?) := splitValue ('-' :: '-' :: cs)
    match Flag.ofName? name, Setting.ofName? name, value? with
    | some f, _, none => .flag f
    | _, some s, value? => .setting s value?
    | _, _, _ => .unknown text
  | '-' :: c :: cs => ofLetters text [] (c :: cs)
  | [] => .unknown text
  | _ => .file text

/-- Whether a text can be the value of the option before it. -/
def isValue (text : String) : Bool :=
  match text.toList with
  | '-' :: _ :: _ => false
  | _ => true

end Argument

namespace Arguments

/-- Reads the arguments that follow others. -/
def parseFrom (a : Arguments) : List String → Except UsageProblem Arguments
  | [] => .ok a
  | text :: rest =>
    match Argument.ofText text with
    | .endOfOptions => .ok { a with files := a.files ++ rest }
    | .flag f => do parseFrom (← f.apply a) rest
    | .setting s (some value) => do parseFrom (← s.apply value a) rest
    | .setting s none =>
      match rest with
      | value :: rest =>
        if Argument.isValue value then do parseFrom (← s.apply value a) rest
        else .error (.missingValue s.name)
      | [] => .error (.missingValue s.name)
    | .letters flags setting? => do
      let a ← flags.foldlM (fun a f => f.apply a) a
      match setting? with
      | none => parseFrom a rest
      | some (s, some value) => parseFrom (← s.apply value a) rest
      | some (s, none) =>
        match rest with
        | value :: rest =>
          if Argument.isValue value then parseFrom (← s.apply value a) rest
          else .error (.missingValue s.name)
        | [] => .error (.missingValue s.name)
    | .file path => parseFrom { a with files := a.files ++ [path] } rest
    | .unknown text => .error (.unexpected text)

def parse (arguments : List String) : Except UsageProblem Arguments := parseFrom {} arguments

end Arguments

end CSharpFront.CommandLine
