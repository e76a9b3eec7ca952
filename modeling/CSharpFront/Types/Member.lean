import CSharpFront.Types.Basic
/-!
The members of types: for each type the fields and the methods of that name, in the order of their
declaration. Of several with one name the first counts.
-/

namespace CSharpFront

/-- Names with their types, each name once. -/
abbrev NamedTypes := List (String × Ty)

namespace NamedTypes

def find? (ns : NamedTypes) (name : String) : Option Ty := ns.lookup name

/-- The names with one more, unless the name is there. -/
def declare (ns : NamedTypes) (name : String) (t : Ty) : NamedTypes :=
  if (ns.find? name).isSome then ns else ns ++ [(name, t)]

theorem find?_declare_self (ns : NamedTypes) (name : String) (t : Ty) :
    (ns.declare name t).find? name = some ((ns.find? name).getD t) := by
  unfold declare find?
  cases h : List.lookup name ns <;> simp [List.lookup_append, h]

theorem find?_declare_of_ne (ns : NamedTypes) {m n : String} (t : Ty) (h : m ≠ n) :
    (ns.declare n t).find? m = ns.find? m := by
  unfold declare find?
  split
  next => rfl
  next => simp [List.lookup_append, List.lookup_cons, List.lookup_nil, beq_eq_false_iff_ne.mpr h]

end NamedTypes

/-- The fields of a type with their types, and its methods with the types of what they return. -/
@[ext] structure MemberTable where
  fields : NamedTypes := []
  methods : NamedTypes := []
deriving DecidableEq

/-- The members of the types that have any. -/
abbrev Members := List (Ty × MemberTable)

namespace Members

def table? (ms : Members) (owner : Ty) : Option MemberTable := ms.lookup owner

def field? (ms : Members) (owner : Ty) (name : String) : Option Ty := do
  (← ms.table? owner).fields.find? name

def method? (ms : Members) (owner : Ty) (name : String) : Option Ty := do
  (← ms.table? owner).methods.find? name

/-- The members with the table of one type changed; a type without members starts from none. -/
def update (ms : Members) (owner : Ty) (f : MemberTable → MemberTable) : Members :=
  match ms with
  | [] => [(owner, f {})]
  | (t, m) :: ms => if t = owner then (t, f m) :: ms else (t, m) :: update ms owner f

def declareField (ms : Members) (owner : Ty) (name : String) (t : Ty) : Members :=
  ms.update owner fun m => { m with fields := m.fields.declare name t }

def declareMethod (ms : Members) (owner : Ty) (name : String) (t : Ty) : Members :=
  ms.update owner fun m => { m with methods := m.methods.declare name t }

theorem table?_update (ms : Members) (owner t : Ty) (f : MemberTable → MemberTable) :
    (ms.update owner f).table? t =
      if t = owner then some (f ((ms.table? owner).getD {})) else ms.table? t := by
  induction ms with
  | nil =>
    by_cases h : t = owner
    · simp [update, table?, List.lookup_nil, h]
    · simp [update, table?, List.lookup_cons, List.lookup_nil, h, beq_eq_false_iff_ne.mpr h]
  | cons p ms ih =>
    obtain ⟨u, m⟩ := p
    unfold table? at ih ⊢
    by_cases hu : u = owner
    · subst hu
      by_cases h : t = u
      · simp [update, h]
      · simp [update, List.lookup_cons, h, beq_eq_false_iff_ne.mpr h]
    · have ho : (owner == u) = false := beq_eq_false_iff_ne.mpr fun e => hu e.symm
      by_cases h : t = u
      · subst h
        simp [update, hu]
      · simp [update, List.lookup_cons, hu, ho, beq_eq_false_iff_ne.mpr h, ih]

end Members

end CSharpFront
