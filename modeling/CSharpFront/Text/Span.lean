/-!
Stretches of text. A diagnostic carries a `Span`, its first byte and its length; a node of the
syntax tree carries a `Range`, its first byte and the first byte after it. Offsets count the bytes
of the text in UTF-8; a cut that falls inside a character, or outside the text, has no slice.
-/

namespace CSharpFront

/-- A stretch of text, by its first byte and its length. -/
@[ext] structure Span where
  start : Nat
  length : Nat
deriving DecidableEq

/-- A stretch of text, by its first byte and the first byte after it. -/
@[ext] structure Range where
  start : Nat
  stop : Nat
deriving DecidableEq

namespace Span

def stop (s : Span) : Nat := s.start + s.length

/-- The span from `start` to `stop`; a stop before the start leaves it empty. -/
def between (start stop : Nat) : Span := ⟨start, stop - start⟩

def emptyAt (start : Nat) : Span := ⟨start, 0⟩

def isEmpty (s : Span) : Bool := s.length == 0

/-- The bounds as shown in messages. -/
def render (s : Span) : String := s!"{s.start}..{s.stop}"

@[simp] theorem start_between (a b : Nat) : (between a b).start = a := rfl

theorem stop_between {a b : Nat} (h : a ≤ b) : (between a b).stop = b := by
  simp only [between, stop]; omega

theorem stop_emptyAt (a : Nat) : (emptyAt a).stop = a := rfl

end Span

namespace Range

def emptyAt (start : Nat) : Range := ⟨start, start⟩

def toSpan (r : Range) : Span := .between r.start r.stop

/-- The bounds as they were given, even when the stop comes first. -/
def render (r : Range) : String := s!"{r.start}..{r.stop}"

end Range

namespace Text

/-- The number of bytes that the characters take in UTF-8. -/
def byteCount : List Char → Nat
  | [] => 0
  | c :: cs => c.utf8Size + byteCount cs

@[simp] theorem byteCount_nil : byteCount [] = 0 := rfl

@[simp] theorem byteCount_cons (c : Char) (cs : List Char) :
    byteCount (c :: cs) = c.utf8Size + byteCount cs := rfl

@[simp] theorem byteCount_append (cs ds : List Char) :
    byteCount (cs ++ ds) = byteCount cs + byteCount ds := by
  induction cs with
  | nil => simp
  | cons c cs ih => simp [ih, Nat.add_assoc]

/-- What is left after `n` bytes, if a character ends there. -/
def dropBytes? : List Char → Nat → Option (List Char)
  | cs, 0 => some cs
  | [], _ + 1 => none
  | c :: cs, n + 1 => if c.utf8Size ≤ n + 1 then dropBytes? cs (n + 1 - c.utf8Size) else none

/-- The characters of the first `n` bytes, if a character ends there. -/
def takeBytes? : List Char → Nat → Option (List Char)
  | _, 0 => some []
  | [], _ + 1 => none
  | c :: cs, n + 1 =>
    if c.utf8Size ≤ n + 1 then (takeBytes? cs (n + 1 - c.utf8Size)).map (c :: ·) else none

/-- The text under a span, if the span lies in the text and cuts no character. -/
def slice? (text : String) (s : Span) : Option String :=
  ((dropBytes? text.toList s.start).bind (takeBytes? · s.length)).map String.ofList

theorem dropBytes?_append (cs ds : List Char) :
    dropBytes? (cs ++ ds) (byteCount cs) = some ds := by
  induction cs with
  | nil => cases ds <;> rfl
  | cons c cs ih =>
    obtain ⟨n, hn⟩ : ∃ n, c.utf8Size + byteCount cs = n + 1 :=
      ⟨c.utf8Size + byteCount cs - 1, by have := c.utf8Size_pos; omega⟩
    simp only [List.cons_append, byteCount_cons, hn, dropBytes?]
    rw [if_pos (by omega), show n + 1 - c.utf8Size = byteCount cs by omega, ih]

theorem takeBytes?_append (cs ds : List Char) :
    takeBytes? (cs ++ ds) (byteCount cs) = some cs := by
  induction cs with
  | nil => cases ds <;> rfl
  | cons c cs ih =>
    obtain ⟨n, hn⟩ : ∃ n, c.utf8Size + byteCount cs = n + 1 :=
      ⟨c.utf8Size + byteCount cs - 1, by have := c.utf8Size_pos; omega⟩
    simp only [List.cons_append, byteCount_cons, hn, takeBytes?]
    rw [if_pos (by omega), show n + 1 - c.utf8Size = byteCount cs by omega, ih]
    rfl

end Text

end CSharpFront
