import CSharpFront.Text.Span
/-!
Lines and columns. A line feed, a carriage return, and the two in this order each end a line once.
Lines and columns are counted from one; a column counts characters, so the map also knows which
bytes continue a character.
-/

namespace CSharpFront

/-- A line and a column, both counted from one. -/
@[ext] structure LinePosition where
  line : Nat
  column : Nat
deriving DecidableEq

namespace LinePosition

/-- The order of reading: the earlier line, then the earlier column. -/
def before (p q : LinePosition) : Bool :=
  p.line < q.line || (p.line == q.line && p.column < q.column)

def render (p : LinePosition) : String := s!"({p.line},{p.column})"

end LinePosition

/-- Where the lines of a text start and which bytes continue a character, both ascending. -/
structure LineMap where
  lineStarts : List Nat
  continuationBytes : List Nat
  textLength : Nat

namespace LineMap

/-- The offsets at which a line starts after a line end in the characters from `pos` on. -/
def startsFrom (pos : Nat) : List Char → List Nat
  | [] => []
  | '\r' :: '\n' :: cs => (pos + 2) :: startsFrom (pos + 2) cs
  | c :: cs =>
    if c = '\r' ∨ c = '\n' then (pos + 1) :: startsFrom (pos + 1) cs
    else startsFrom (pos + c.utf8Size) cs

/-- The offsets of the bytes that continue a character in the characters from `pos` on. -/
def continuationsFrom (pos : Nat) : List Char → List Nat
  | [] => []
  | c :: cs =>
    if c.utf8Size = 1 then continuationsFrom (pos + 1) cs
    else (List.range' (pos + 1) (c.utf8Size - 1)) ++ continuationsFrom (pos + c.utf8Size) cs

def ofText (text : String) : LineMap where
  lineStarts := 0 :: startsFrom 0 text.toList
  continuationBytes := continuationsFrom 0 text.toList
  textLength := Text.byteCount text.toList

def lineCount (m : LineMap) : Nat := m.lineStarts.length

/-- The line and the column of an offset; an offset past the end counts as the end. -/
def positionOf (m : LineMap) (pos : Nat) : LinePosition :=
  let pos := min pos m.textLength
  let line := m.lineStarts.countP (· ≤ pos)
  let start := m.lineStarts.getD (line - 1) 0
  let continued := m.continuationBytes.countP (· < pos) - m.continuationBytes.countP (· < start)
  ⟨line, pos - start - continued + 1⟩

end LineMap

end CSharpFront
