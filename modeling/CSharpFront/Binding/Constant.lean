import CSharpFront.Text.Decimal
import CSharpFront.Syntax.Tree
/-!
What literals are worth: the type of a number by its spelling, the value of an integer constant,
and the conditions whose outcome is plain.
-/

namespace CSharpFront

namespace SpecialType

/-- The smallest and the largest value of an integral type. -/
def range? : SpecialType → Option (Int × Int)
  | .sbyte => some (-128, 127)
  | .byte => some (0, 255)
  | .short => some (-32768, 32767)
  | .ushort => some (0, 65535)
  | .int => some (-2147483648, 2147483647)
  | .uint => some (0, 4294967295)
  | .long => some (-9223372036854775808, 9223372036854775807)
  | .ulong => some (0, 18446744073709551615)
  | _ => none

/-- Whether a value is one of the type's. -/
def holds (s : SpecialType) (n : Int) : Bool :=
  match s.range? with
  | some (low, high) => low ≤ n && n ≤ high
  | none => false

end SpecialType

namespace Literal

/-- The spelling in lower case, in which marks and suffixes are looked for. -/
def lower (text : String) : List Char := text.toList.map Text.lowerAscii

/-- The radix that the first two characters give. -/
def radix : List Char → Nat
  | '0' :: 'x' :: _ => 16
  | '0' :: 'b' :: _ => 2
  | _ => 10

/-- The digits after the mark of the radix, without separators. -/
def digits (cs : List Char) : List Char :=
  (if radix cs = 10 then cs else cs.drop 2).filter (· ≠ '_')

def isDigitOf (radix : Nat) (c : Char) : Bool :=
  Text.isHexDigit c && Text.digitValue c < radix

/-- The value of an integer without its suffix. -/
def integer? (cs : List Char) : Option Nat :=
  let ds := digits cs
  if ds.isEmpty || !ds.all (isDigitOf (radix cs)) then none
  else some (Text.digitsValue (radix cs) ds)

/-- The letters of an integer's suffix. -/
def isIntegerSuffix (c : Char) : Bool := c == 'u' || c == 'l'

/-- The characters with those at the end that belong to the suffix apart. -/
def splitSuffix (cs : List Char) : List Char × List Char :=
  let suffix := cs.reverse.takeWhile isIntegerSuffix
  (cs.take (cs.length - suffix.length), suffix.reverse)

/-- The first of some types that holds a value, and the last of all when none does. -/
def firstHolding (n? : Option Nat) (types : List SpecialType) : SpecialType :=
  match n? with
  | some n => (types.find? (·.holds n)).getD .ulong
  | none => .ulong

/-- The type of an integer by its value, among those that its suffix leaves. -/
def integerType (cs : List Char) : SpecialType :=
  let (body, suffix) := splitSuffix cs
  firstHolding (integer? body) <|
    match suffix with
    | [] => [.int, .uint, .long, .ulong]
    | ['u'] => [.uint, .ulong]
    | ['l'] => [.long, .ulong]
    | _ => [.ulong]

/-- The type of a number by its spelling. -/
def numericType (text : String) (flags : TokenFlags) : SpecialType :=
  let cs := lower text
  let last := cs.getLast?
  if radix cs = 16 then integerType cs
  else if last = some 'f' then .float
  else if last = some 'm' then .decimal
  else if last = some 'd' ∨ flags.real then .double
  else integerType cs

/-- Constants are below this bound, so that they fit 128 bits with either sign. -/
def constantBound : Nat := 0x80000000000000000000000000000000

/-- The value of a literal that is an integer without a suffix, if it is not too large. -/
def constant? (l : Literal) : Option Nat :=
  let cs := lower l.text
  if l.kind ≠ .numeric ∨ l.flags.real ∨ cs.getLast?.any isIntegerSuffix then none
  else match integer? cs with
    | some n => if n < constantBound then some n else none
    | none => none

end Literal

namespace Expr

/-- The value of an integer constant: a literal, in parentheses or with signs before it. -/
def integerConstant? : Expr → Option Int
  | .literal l => l.constant?.map Int.ofNat
  | .parenthesized _ e => e.integerConstant?
  | .prefixUnary _ o e =>
    match o.kind with
    | .punct .minus => e.integerConstant?.map (- ·)
    | .punct .plus => e.integerConstant?
    | _ => none
  | _ => none

/-- The outcome of a condition that is a truth word, in parentheses or negated. -/
def truth? : Expr → Option Bool
  | .literal l =>
    match l.kind with
    | .trueWord => some true
    | .falseWord => some false
    | _ => none
  | .parenthesized _ e => e.truth?
  | .prefixUnary _ o e =>
    match o.kind with
    | .punct .exclamation => e.truth?.map (!·)
    | _ => none
  | _ => none

end Expr

end CSharpFront
