/-!
Paths as text, with `/` between their parts.
-/

namespace CSharpFront.Path

def isAbsolute (path : String) : Bool := path.toList.head? == some '/'

/-- A path seen from a directory. -/
def join (base path : String) : String :=
  if isAbsolute path then path
  else match base.toList.getLast? with
    | none | some '/' => base ++ path
    | some _ => base ++ "/" ++ path

/-- What a path begins with, the root or the directory it is seen from, and the parts after it. -/
def split (path : String) : String × List String :=
  let divide (cs : List Char) : List String := (String.ofList cs).splitOn "/"
  match path.toList with
  | '/' :: cs => ("/", divide cs)
  | ['.'] => (".", [])
  | '.' :: '/' :: cs => (".", "" :: divide cs)
  | cs => ("", divide cs)

/-- Whether a part of a path leads nowhere. -/
def isIdle (part : String) : Bool := part == "" || part == "."

/-- The directory around a path, if there is one: the path without its last part that leads
somewhere, and without what leads nowhere before that. -/
def parent? (path : String) : Option String :=
  let (head, parts) := split path
  match parts.reverse.dropWhile isIdle with
  | _ :: rest => some (head ++ "/".intercalate (rest.dropWhile isIdle).reverse)
  | [] => if head = "." then some "" else none

end CSharpFront.Path
