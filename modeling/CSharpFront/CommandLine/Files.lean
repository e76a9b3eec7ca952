import CSharpFront.Project.Path
/-!
Files as the command line sees them: a path leads to a text, or it says why not. Files can also be
held in memory, as texts by their places around one directory. A path is followed part by part, so
what it passes through must be there, also if it turns back.
-/

namespace CSharpFront.CommandLine

/-- Why a file cannot be read. -/
inductive ReadProblem
  | notFound
  | notDirectory
  | isDirectory
  | nameTooLong
  | nulInPath
  | other (text : String)
deriving DecidableEq

namespace ReadProblem

def message : ReadProblem → String
  | .notFound => "No such file or directory (os error 2)"
  | .notDirectory => "Not a directory (os error 20)"
  | .isDirectory => "Is a directory (os error 21)"
  | .nameTooLong => "File name too long (os error 36)"
  | .nulInPath => "file name contained an unexpected NUL byte"
  | .other text => text

end ReadProblem

/-- A way to read files. -/
abbrev Reader (m : Type → Type) := String → m (Except ReadProblem String)

/-- A place as seen from one directory: the parts of the shortest path to it, the last first. Those
that lead up come before all others on the path. -/
abbrev Place := List String

namespace Place

/-- The place that a part of a path leads to. -/
def enter (p : Place) (part : String) : Place :=
  if Path.isIdle part then p
  else if part = ".." then
    match p with
    | [] => [".."]
    | last :: around => if last = ".." then ".." :: last :: around else around
  else part :: p

/-- The place that a path leads to. -/
def ofPath (path : String) : Place := (path.splitOn "/").foldl enter []

/-- The places that parts of a path pass through before the last. -/
def along (p : Place) : List String → List Place
  | [] => []
  | part :: parts => p :: along (p.enter part) parts

/-- Whether a place is the directory that all is seen from, or one around it. -/
def isAround (p : Place) : Bool := p.all (· == "..")

end Place

/-- Texts by their places, of which the first counts, and the directories that are known. -/
structure FileTree where
  texts : List (Place × String) := []
  directories : List Place := []

namespace FileTree

/-- How many bytes a part of a path can have. -/
def maxPartSize : Nat := 255

/-- How many bytes a path can have. -/
def maxPathSize : Nat := 4095

/-- Puts a text at a path, with the directories that the path passes through. -/
def write (t : FileTree) (path text : String) : FileTree :=
  ⟨(Place.ofPath path, text) :: t.texts, Place.along [] (path.splitOn "/") ++ t.directories⟩

/-- The tree of texts by their paths. The last text for a place counts. -/
def ofFiles (files : List (String × String)) : FileTree :=
  files.foldl (fun t (path, text) => t.write path text) {}

def text? (t : FileTree) (p : Place) : Option String := t.texts.lookup p

def isDirectory (t : FileTree) (p : Place) : Bool := p.isAround || t.directories.contains p

/-- What is read at a place. -/
def readPlace (t : FileTree) (p : Place) : Except ReadProblem String :=
  if t.isDirectory p then .error .isDirectory
  else match t.text? p with
    | some text => .ok text
    | none => .error .notFound

/-- Follows parts of a path from a place, which must be a directory if there are any. -/
def follow (t : FileTree) (p : Place) : List String → Except ReadProblem String
  | [] => t.readPlace p
  | part :: parts =>
    if t.isDirectory p then
      if maxPartSize < part.utf8ByteSize then .error .nameTooLong else t.follow (p.enter part) parts
    else if (t.text? p).isSome then .error .notDirectory
    else .error .notFound

/-- Reads a file of the tree. Of what lies at the root nothing is known but the root itself. -/
def read (t : FileTree) : Reader Id := fun path =>
  if path.isEmpty then .error .notFound
  else if path.toList.contains '\x00' then .error .nulInPath
  else if maxPathSize < path.utf8ByteSize then .error .nameTooLong
  else
    let parts := path.splitOn "/"
    if !Path.isAbsolute path then t.follow [] parts
    else if parts.all fun part => Path.isIdle part || part == ".." then .error .isDirectory
    else .error .notFound

/-- The text that was put at a path last is the one that counts. -/
theorem text?_write_self (t : FileTree) (path text : String) :
    (t.write path text).text? (Place.ofPath path) = some text := by
  simp [write, text?]

/-- What lies elsewhere stays as it is. -/
theorem text?_write_of_ne (t : FileTree) (path text : String) {p : Place}
    (h : p ≠ Place.ofPath path) : (t.write path text).text? p = t.text? p := by
  simp [write, text?, List.lookup_cons, beq_eq_false_iff_ne.2 h]

end FileTree

end CSharpFront.CommandLine
