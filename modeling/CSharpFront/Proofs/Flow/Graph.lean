import CSharpFront.Flow.Reachability
import Mathlib.Logic.Relation
/-!
The control-flow graph of a body. Its points are the statements of the body, found by the way down
to them, and the parts of loops. The graph is read off the syntax alone: every statement is told
where control goes on after it and where it leaves the loop around it, and `goto` jumps to the label
that its name means.
-/

namespace CSharpFront

namespace Expr

/-- A truth word, perhaps in parentheses or negated. -/
inductive IsTruth : Expr → Bool → Prop
  | trueWord {l : Literal} : l.kind = .trueWord → IsTruth (.literal l) true
  | falseWord {l : Literal} : l.kind = .falseWord → IsTruth (.literal l) false
  | parenthesized {r : Range} {e : Expr} {v : Bool} : IsTruth e v → IsTruth (.parenthesized r e) v
  | negated {r : Range} {o : Leaf} {e : Expr} {v : Bool} :
      o.kind = .punct .exclamation → IsTruth e v → IsTruth (.prefixUnary r o e) !v

/-- The outcome of a condition is known if it is a truth word, in parentheses or negated. -/
theorem truth?_eq_some_iff {e : Expr} {v : Bool} : e.truth? = some v ↔ e.IsTruth v := by
  constructor
  · intro h
    fun_induction truth? e generalizing v with
    | case1 l hk =>
      obtain rfl := Option.some.inj h
      exact .trueWord hk
    | case2 l hk =>
      obtain rfl := Option.some.inj h
      exact .falseWord hk
    | case4 r e ih => exact .parenthesized (ih h)
    | case5 r o e hk ih =>
      obtain ⟨w, hw, rfl⟩ := Option.map_eq_some_iff.mp h
      exact .negated hk (ih hw)
    | case3 | case6 | case7 => simp at h
  · intro h
    induction h with
    | trueWord hk | falseWord hk => simp [truth?, hk]
    | parenthesized _ ih => rw [truth?, ih]
    | negated hk _ ih => simp [truth?, hk, ih]

end Expr

namespace Flow

/-- The part of a statement before which a point stands. -/
inductive Part
  | entry
  | initializer (i : Nat)
  | condition
  | incrementor (i : Nat)
  /-- The end of the whole body. -/
  | finish
deriving DecidableEq

/-- A point of a body. The path leads down to a statement by the places of statements in others. -/
@[ext] structure Point where
  path : List Nat
  part : Part
deriving DecidableEq

/-- A label, known by the place of its name in the text, with the point before its statement. -/
structure Label where
  name : String
  place : Nat
  point : Point

/-- Where control goes on after a statement, and where `break` and `continue` lead in a loop. -/
structure Surroundings where
  next : Point
  loop? : Option (Point × Point) := none

/-! ### Steps -/

/-- The steps of a condition with a known outcome or an unknown one. -/
def branch (truth? : Option Bool) (q whenTrue whenFalse : Point) : List (Point × Point) :=
  match truth? with
  | some true => [(q, whenTrue)]
  | some false => [(q, whenFalse)]
  | none => [(q, whenTrue), (q, whenFalse)]

/-- The steps through points one after another, and on from the last one. -/
def chain (next : Point) : List Point → List (Point × Point)
  | [] => []
  | q :: qs => (q, qs.headD next) :: chain next qs

/-- The first of some statements that stand in another one, from a place in it on. -/
def firstOf (p : List Nat) (i : Nat) (next : Point) : List Stmt → Point
  | [] => next
  | _ :: _ => ⟨p ++ [i], .entry⟩

def initializers (p : List Nat) (h : ForHeader) : List Point :=
  (List.range (headerSpans h.initializer?).length).map fun i => ⟨p, .initializer i⟩

def incrementors (p : List Nat) (h : ForHeader) : List Point :=
  (List.range h.incrementors.length).map fun i => ⟨p, .incrementor i⟩

mutual

/-- The steps from the points of a statement, but for jumps to labels. -/
def edges (k : Surroundings) (p : List Nat) : Stmt → List (Point × Point)
  | .block ⟨_, _, ss, _⟩ => (⟨p, .entry⟩, firstOf p 0 k.next ss) :: edgesAmong k p 0 ss
  | .empty _ | .localDeclaration _ _ _ _ | .expression _ _ _ => [(⟨p, .entry⟩, k.next)]
  | .ifElse _ e body else? =>
    match else? with
    | some other =>
      branch e.truth? ⟨p, .entry⟩ ⟨p ++ [0], .entry⟩ ⟨p ++ [1], .entry⟩ ++
        edges k (p ++ [0]) body ++ edges k (p ++ [1]) other
    | none =>
      branch e.truth? ⟨p, .entry⟩ ⟨p ++ [0], .entry⟩ k.next ++ edges k (p ++ [0]) body
  | .whileLoop _ e body =>
    (⟨p, .entry⟩, ⟨p, .condition⟩) ::
      branch e.truth? ⟨p, .condition⟩ ⟨p ++ [0], .entry⟩ k.next ++
        edges ⟨⟨p, .condition⟩, some (k.next, ⟨p, .condition⟩)⟩ (p ++ [0]) body
  | .doLoop _ body e =>
    (⟨p, .entry⟩, ⟨p ++ [0], .entry⟩) ::
      branch e.truth? ⟨p, .condition⟩ ⟨p ++ [0], .entry⟩ k.next ++
        edges ⟨⟨p, .condition⟩, some (k.next, ⟨p, .condition⟩)⟩ (p ++ [0]) body
  | .forLoop _ h body =>
    let roundEnd := (incrementors p h).headD ⟨p, .condition⟩
    chain ⟨p, .condition⟩ (⟨p, .entry⟩ :: initializers p h) ++
      branch (loopTruth? h.condition?) ⟨p, .condition⟩ ⟨p ++ [0], .entry⟩ k.next ++
        edges ⟨roundEnd, some (k.next, roundEnd)⟩ (p ++ [0]) body ++
          chain ⟨p, .condition⟩ (incrementors p h)
  | .returnValue _ _ | .goto _ _ => []
  | .breakLoop _ => [(⟨p, .entry⟩, (k.loop?.map Prod.fst).getD k.next)]
  | .continueLoop _ => [(⟨p, .entry⟩, (k.loop?.map Prod.snd).getD k.next)]
  | .labeled _ _ body => (⟨p, .entry⟩, ⟨p ++ [0], .entry⟩) :: edges k (p ++ [0]) body

def edgesAmong (k : Surroundings) (p : List Nat) : Nat → List Stmt → List (Point × Point)
  | _, [] => []
  | i, b :: bs =>
    edges { k with next := firstOf p (i + 1) k.next bs } (p ++ [i]) b ++ edgesAmong k p (i + 1) bs

end

/-! ### Jumps -/

/-- The labels directly before a statement. -/
def labelsBefore (p : List Nat) : Stmt → List Label
  | .labeled _ l body =>
    let more := labelsBefore (p ++ [0]) body
    if l.isMissing then more else ⟨l.text, l.range.start, ⟨p, .entry⟩⟩ :: more
  | _ => []

/-- The labels before statements that stand in another one, from a place in it on. -/
def labelsAmong (p : List Nat) : Nat → List Stmt → List Label
  | _, [] => []
  | i, b :: bs => labelsBefore (p ++ [i]) b ++ labelsAmong p (i + 1) bs

/-- The label that a name means, among those of the blocks and statements around a `goto`. The
innermost come first, and of one block the first in the text. -/
def target? (labels : List Label) (l : Identifier) : Option Label :=
  if l.isMissing then none else labels.find? (·.name == l.text)

mutual

/-- Each `goto` of a statement that finds its label, with the label. A block and a statement that is
part of another have labels of their own. -/
def jumps (labels : List Label) (p : List Nat) : Stmt → List (Point × Label)
  | .block ⟨_, _, ss, _⟩ => jumpsAmong (labelsAmong p 0 ss ++ labels) p 0 ss
  | .ifElse _ _ body else? =>
    match else? with
    | some other =>
      jumps (labelsBefore (p ++ [0]) body ++ labels) (p ++ [0]) body ++
        jumps (labelsBefore (p ++ [1]) other ++ labels) (p ++ [1]) other
    | none => jumps (labelsBefore (p ++ [0]) body ++ labels) (p ++ [0]) body
  | .whileLoop _ _ body | .doLoop _ body _ | .forLoop _ _ body =>
    jumps (labelsBefore (p ++ [0]) body ++ labels) (p ++ [0]) body
  | .labeled _ _ body => jumps labels (p ++ [0]) body
  | .goto _ l =>
    match target? labels l with
    | some target => [(⟨p, .entry⟩, target)]
    | none => []
  | .empty _ | .localDeclaration _ _ _ _ | .expression _ _ _ | .returnValue _ _ | .breakLoop _
  | .continueLoop _ => []

def jumpsAmong (labels : List Label) (p : List Nat) : Nat → List Stmt → List (Point × Label)
  | _, [] => []
  | i, b :: bs => jumps labels (p ++ [i]) b ++ jumpsAmong labels p (i + 1) bs

end

/-! ### Bodies -/

/-- The end of a body. -/
def finish : Point := ⟨[], .finish⟩

/-- Each `goto` of a body that finds its label, with the label. -/
def bodyJumps (body : List Stmt) : List (Point × Label) :=
  jumpsAmong (labelsAmong [] 0 body) [] 0 body

/-- The control-flow graph of a body. -/
def graph (body : List Stmt) : List (Point × Point) :=
  edgesAmong ⟨finish, none⟩ [] 0 body ++ (bodyJumps body).map fun j => (j.1, j.2.point)

/-- A point of a body that control can come to from the start. -/
def Reachable (body : List Stmt) (q : Point) : Prop :=
  Relation.ReflTransGen (fun a b => (a, b) ∈ graph body) (firstOf [] 0 finish body) q

/-- The labels that are taken to be jumped to are at least those to which a `goto` of a body
jumps. -/
def Context.Covers (c : Context) (body : List Stmt) : Prop :=
  ∀ j ∈ bodyJumps body, c.isReferenced j.2.place = true

/-! ### The code at a point -/

/-- A statement that is part of another. -/
def child? : Stmt → Nat → Option Stmt
  | .block ⟨_, _, ss, _⟩, i => ss[i]?
  | .ifElse _ _ body _, 0 => some body
  | .ifElse _ _ _ else?, 1 => else?
  | .whileLoop _ _ body, 0 | .doLoop _ body _, 0 | .forLoop _ _ body, 0 | .labeled _ _ body, 0 =>
    some body
  | _, _ => none

/-- The statement to which a path leads down from another one. -/
def descend? : Stmt → List Nat → Option Stmt
  | b, [] => some b
  | b, i :: p => (child? b i).bind (descend? · p)

def partSpan? : Stmt → Part → Option Span
  | b, .entry => some b.span
  | .forLoop _ h _, .initializer i => (headerSpans h.initializer?)[i]?
  | .forLoop _ h _, .incrementor i => (h.incrementors.map Expr.span)[i]?
  | _, _ => none

/-- The text at a point of a body. -/
def codeAt? (body : List Stmt) (q : Point) : Option Span :=
  match q.path with
  | [] => none
  | i :: p => do partSpan? (← descend? (← body[i]?) p) q.part

end Flow

end CSharpFront
