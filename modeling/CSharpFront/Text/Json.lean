import CSharpFront.Text.Decimal
/-!
Reading JSON text. The reader is strict: nothing but blanks may surround the value, and a list has
no comma at its end. Values nest as deep as they are written. A string whose escapes denote no text
is kept without one, since it does no harm where nobody looks at it. Each reading gives what stands
at the start of the characters, with those that are left.
-/

namespace CSharpFront

inductive JsonValue
  | null
  | bool (value : Bool)
  /-- A number, with its value if it is written in digits alone. -/
  | number (natural? : Option Nat)
  | string (text? : Option String)
  | array (items : List JsonValue)
  /-- Keys with their values, in the order of the text. -/
  | object (members : List (Option String × JsonValue))

namespace JsonValue

def isBlank (c : Char) : Bool := c == ' ' || c == '\n' || c == '\t' || c == '\r'

def skipBlank (cs : List Char) : List Char := cs.dropWhile isBlank

/-! ### Strings -/

/-- The character that a letter after a backslash denotes. -/
def escape? : Char → Option Nat
  | '"' => some '"'.toNat
  | '\\' => some '\\'.toNat
  | '/' => some '/'.toNat
  | 'b' => some 0x08
  | 'f' => some 0x0C
  | 'n' => some 0x0A
  | 'r' => some 0x0D
  | 't' => some 0x09
  | _ => none

/-- The code points of a string after its opening quote. Those written in digits may be halves of a
pair. -/
def codePoints : List Char → Option (List Nat × List Char)
  | [] => none
  | '"' :: cs => some ([], cs)
  | '\\' :: 'u' :: a :: b :: c :: d :: cs =>
    if [a, b, c, d].all Text.isHexDigit then
      (codePoints cs).map fun (ps, r) => (Text.digitsValue 16 [a, b, c, d] :: ps, r)
    else none
  | '\\' :: c :: cs =>
    match escape? c with
    | some p => (codePoints cs).map fun (ps, r) => (p :: ps, r)
    | none => none
  | c :: cs =>
    if c.toNat < 0x20 then none else (codePoints cs).map fun (ps, r) => (c.toNat :: ps, r)

def isLeading (p : Nat) : Bool := 0xD800 ≤ p && p < 0xDC00

def isTrailing (p : Nat) : Bool := 0xDC00 ≤ p && p < 0xE000

/-- The characters of code points, two halves of a pair joined. A half alone is no character. -/
def characters? : List Nat → Option (List Char)
  | [] => some []
  | [p] => if isLeading p || isTrailing p then none else some [Char.ofNat p]
  | p :: q :: ps =>
    if isLeading p then
      if isTrailing q then
        (characters? ps).map (Char.ofNat (0x10000 + (p - 0xD800) * 0x400 + (q - 0xDC00)) :: ·)
      else none
    else if isTrailing p then none
    else (characters? (q :: ps)).map (Char.ofNat p :: ·)

/-- A string after its opening quote. -/
def text (cs : List Char) : Option (Option String × List Char) :=
  (codePoints cs).map fun (ps, r) => ((characters? ps).map String.ofList, r)

/-! ### Numbers -/

/-- One digit or more. -/
def digits (cs : List Char) : Option (List Char × List Char) :=
  match cs.takeWhile Text.isDigit with
  | [] => none
  | ds => some (ds, cs.dropWhile Text.isDigit)

/-- The digits before the point: a zero stands alone. -/
def wholeDigits : List Char → Option (List Char × List Char)
  | '0' :: cs => some (['0'], cs)
  | cs => digits cs

/-- What is left after the digits behind a point, and whether there is a point. -/
def fraction : List Char → Option (Bool × List Char)
  | '.' :: cs => (digits cs).map fun (_, r) => (true, r)
  | cs => some (false, cs)

/-- What is left after an exponent, and whether there is one. -/
def exponent : List Char → Option (Bool × List Char)
  | c :: cs =>
    if c = 'e' ∨ c = 'E' then
      let unsigned := match cs with
        | '+' :: r | '-' :: r => r
        | r => r
      (digits unsigned).map fun (_, r) => (true, r)
    else some (false, c :: cs)
  | [] => some (false, [])

def readNumber (cs : List Char) : Option (Option Nat × List Char) := do
  let (isNegative, cs) :=
    match cs with
    | '-' :: r => (true, r)
    | r => (false, r)
  let (ds, cs) ← wholeDigits cs
  let (hasFraction, cs) ← fraction cs
  let (hasExponent, cs) ← exponent cs
  let isPlain := !isNegative && !hasFraction && !hasExponent
  some (if isPlain then some (Text.digitsValue 10 ds) else none, cs)

/-! ### Values -/

/-- A value that holds no other. -/
def scalar : List Char → Option (JsonValue × List Char)
  | 'n' :: 'u' :: 'l' :: 'l' :: cs => some (.null, cs)
  | 't' :: 'r' :: 'u' :: 'e' :: cs => some (.bool true, cs)
  | 'f' :: 'a' :: 'l' :: 's' :: 'e' :: cs => some (.bool false, cs)
  | '"' :: cs => (text cs).map fun (t, r) => (.string t, r)
  | cs => (readNumber cs).map fun (n, r) => (.number n, r)

/-- At most a number of items with commas between, up to the character that closes them. -/
def items {α : Type} (item : List Char → Option (α × List Char)) (close : Char) :
    Nat → List Char → Option (List α × List Char)
  | 0, _ => none
  | n + 1, cs => do
    let (a, cs) ← item cs
    match skipBlank cs with
    | [] => none
    | c :: cs =>
      if c = close then some ([a], cs)
      else if c = ',' then (items item close n cs).map fun (as, r) => (a :: as, r)
      else none

/-- At most a number of items up to the character that closes them, or none. -/
def bracketed {α : Type} (item : List Char → Option (α × List Char)) (close : Char) (limit : Nat)
    (cs : List Char) : Option (List α × List Char) :=
  match skipBlank cs with
  | [] => none
  | c :: r => if c = close then some ([], r) else items item close limit (c :: r)

/-- A key with its value. -/
def member (value : List Char → Option (JsonValue × List Char)) (cs : List Char) :
    Option ((Option String × JsonValue) × List Char) :=
  match skipBlank cs with
  | '"' :: cs => do
    let (key, cs) ← text cs
    match skipBlank cs with
    | ':' :: cs => (value cs).map fun (v, r) => ((key, v), r)
    | _ => none
  | _ => none

/-- A value among at most a number of characters. What stands in brackets has one character less,
so the number also bounds how deep values nest and how many items stand in one pair of brackets. -/
def value : Nat → List Char → Option (JsonValue × List Char)
  | 0, _ => none
  | n + 1, cs =>
    match skipBlank cs with
    | '[' :: cs => (bracketed (value n) ']' n cs).map fun (vs, r) => (.array vs, r)
    | '\x7b' :: cs =>
      (bracketed (member (value n)) '\x7d' n cs).map fun (ms, r) => (.object ms, r)
    | cs => scalar cs

/-- The value that a text denotes. -/
def parse? (text : String) : Option JsonValue :=
  let cs := text.toList
  match value cs.length cs with
  | some (v, r) => if (skipBlank r).isEmpty then some v else none
  | none => none

/-! ### Reading values into data -/

def bool? : JsonValue → Option Bool
  | .bool b => some b
  | _ => none

def text? : JsonValue → Option String
  | .string t => t
  | _ => none

def naturalBelow? (bound : Nat) : JsonValue → Option Nat
  | .number (some n) => if n < bound then some n else none
  | _ => none

def texts? : JsonValue → Option (List String)
  | .array vs => vs.mapM text?
  | _ => none

/-- The named parts of a record: the members of an object, of which unknown ones are passed over and
none may come twice, or the items of an array in the order of the names, of which the last may be
absent. -/
def fields? (names : List String) : JsonValue → Option (List (String × JsonValue))
  | .object ms => do
    let ms ← ms.mapM fun (key?, v) => key?.map (·, v)
    let known := ms.filter fun (key, _) => names.contains key
    if (known.map (·.1)).Nodup then some known else none
  | .array vs => if names.length < vs.length then none else some (names.zip vs)
  | _ => none

/-- A part of a record, or what stands for one that is absent. -/
def field? {α : Type} (fields : List (String × JsonValue)) (name : String) (absent : α)
    (read : JsonValue → Option α) : Option α :=
  match fields.lookup name with
  | some v => read v
  | none => some absent

end JsonValue

end CSharpFront
