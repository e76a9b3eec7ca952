import CSharpFront.Lexer.Scanner
import CSharpFront.Proofs.Parser.Heights
import CSharpFront.Proofs.Parser.PlacesDeclarations
/-!
The nesting limit bounds the height of trees, by the square of the limit. A chain of operators, or
one of calls and accesses, has a level for each of its operators, but leaves them all at its end:
around a chain in parentheses there is again room for one that is nearly as long. So each level can
add as much as the levels within it, and trees grow past any small multiple of the limit.
-/

namespace CSharpFront.Parser

variable {n : Nat} {r : Rules}

/-! ### Members of types -/

theorem yields_methodBody (hr : r.Bounded n) (isAsync : Bool) :
    Yields (methodBody r isAsync) fun b? => ∀ b ∈ b?, b.height ≤ tallest n :=
  .next fun _ => .ite (fun _ => .absent)
    fun _ => .withReader (fun _ _ => Iff.rfl) (.present (yields_block hr))

theorem yields_methodRest (hr : r.Bounded n) (start : Nat) (modifiers : Modifiers)
    (type? : Option TypeSyntax) (i : Identifier) :
    Yields (methodRest r start modifiers type? i) (·.height ≤ tallest n) := by
  have hrest (ps : List Parameter) : Yields (do
      let body? ← methodBody r (modifiers.contains .asyncMod)
      return ClassMember.method ⟨← rangeFrom start, modifiers, type?, i, ps, body?⟩)
      (·.height ≤ tallest n) :=
    .bind (yields_methodBody hr _) fun b? hb => .next fun _ => .pure (elim_le.mpr hb)
  exact .next fun ps => .ite (fun _ => .next fun _ => hrest ps) fun _ => hrest ps

theorem yields_conversionOperator (hr : r.Bounded n) (start : Nat) (modifiers : Modifiers) :
    Yields (conversionOperator r start modifiers) (·.height ≤ tallest n) := by
  refine .next fun _ => .next fun _ => .next fun _ => .next fun _ => ?_
  exact .bind (yields_methodBody hr _) fun b? hb => .next fun _ => .pure (elim_le.mpr hb)

theorem yields_typedMember (hr : r.Bounded n) (start : Nat) (modifiers : Modifiers) :
    Yields (typedMember r start modifiers) (·.height ≤ tallest n + 1) := by
  refine .next fun t => .next fun i => .next fun _ => .ite (fun _ => ?_) fun _ => ?_
  · exact (yields_methodRest hr start modifiers (some t) i).imp fun _ => Nat.le_succ_of_le
  · refine .bind (yields_declarators hr _ t i) fun d hd => ?_
    exact .next fun _ => .next fun _ => .pure hd

theorem yields_badMember (start : Nat) : Yields (badMember start) (·.height ≤ 0) := by
  have hrest : Yields (do return ClassMember.incomplete (← rangeFrom start)) (·.height ≤ 0) :=
    .next fun _ => .pure (by simp)
  exact .next fun _ => .next fun _ => .ite (fun _ => hrest) fun _ =>
    .next fun _ => .next fun _ => .next fun _ => hrest

theorem yields_plainMember (hr : r.Bounded n) (start : Nat) (modifiers : Modifiers) :
    Yields (plainMember r start modifiers) (·.height ≤ tallest n + 1) := by
  refine .next fun _ => .ite (fun _ => ?_) fun _ => .ite (fun _ => .next fun i => ?_) fun _ =>
    .ite (fun _ => yields_typedMember hr start modifiers) fun _ => ?_
  · exact (yields_conversionOperator hr start modifiers).imp fun _ => Nat.le_succ_of_le
  · exact (yields_methodRest hr start modifiers none i).imp fun _ => Nat.le_succ_of_le
  · exact (yields_badMember start).imp fun _ h => Nat.le_trans h (Nat.zero_le _)

theorem yields_classMember (hr : r.Bounded n)
    {nestedType : Nat → Modifiers → Cancellable ClassMember}
    (hn : ∀ start modifiers, YieldsAll (nestedType start modifiers) (·.height ≤ tallest n + 1)) :
    YieldsAll (classMember r nestedType) (·.height ≤ tallest n + 1) :=
  .next fun _ => .next fun _ => .next fun _ =>
    .ite (hn _ _) (.lift (yields_plainMember hr _ _))

/-! ### Types -/

theorem yields_typeDeclaration (r : Rules) {k : Nat} {members : Cancellable (List ClassMember)}
    (hm : YieldsAll members fun ms => ∀ m ∈ ms, m.height ≤ k) (start : Nat)
    (modifiers : Modifiers) :
    YieldsAll (typeDeclaration r members start modifiers) (·.height ≤ k) := by
  refine .next fun _ => .next fun _ => .next fun _ => .next fun _ => .next fun _ => ?_
  refine .bind hm fun ms hms => .next fun _ => .next fun _ => .pure ?_
  exact ClassMember.heights_le.mpr hms

theorem yields_classMembers (n : Nat) :
    YieldsAll (classMembers n) fun ms => ∀ m ∈ ms, m.height ≤ tallest n + 1 := by
  induction n with
  | zero =>
    refine yields_membersUntil _ (yields_classMember (bounded_rules 0) fun start _ => ?_)
    exact .next fun _ => .next fun _ => .lift (yields_refused (fun _ => by simp) start)
  | succ n ih =>
    refine yields_membersUntil _ (yields_classMember (bounded_rules _) fun start modifiers => ?_)
    refine yields_nestedDeclaration (yields_refused (fun _ => by simp) start) ?_
    refine (yields_typeDeclaration (rules n) ih start modifiers).map fun d hd => ?_
    exact Nat.le_succ_of_le (le_tallest_succ (Nat.le_succ_of_le hd))

/-! ### Namespaces and units -/

theorem yields_namespaceDeclaration (r : Rules) {k : Nat} {members : Cancellable (List Member)}
    (hm : YieldsAll members fun ms => ∀ m ∈ ms, m.height ≤ k) :
    YieldsAll (namespaceDeclaration r members) (·.height ≤ k) := by
  refine .next fun _ => .next fun _ => .next fun name => .next fun b => ?_
  have hlast (start : Nat) (us : List UsingDirective) {ms : List Member}
      (hms : ∀ m ∈ ms, m.height ≤ k) :
      YieldsAll (do return (⟨← rangeFrom start, name, us, ms⟩ : NamespaceDeclaration))
        (·.height ≤ k) :=
    .next fun _ => .pure (Member.heights_le.mpr hms)
  have hrest (start : Nat) : YieldsAll (do
      let usings ← usingDirectives r
      let members ← members
      if !b then
        let _ ← eat (.punct .closeBrace)
      return (⟨← rangeFrom start, name, usings, members⟩ : NamespaceDeclaration))
      (·.height ≤ k) :=
    .next fun us => .bind hm fun ms hms =>
      .ite (.next fun _ => hlast start us hms) (hlast start us hms)
  exact .ite (.next fun _ => hrest _) (hrest _)

theorem yields_globalStatement (hr : r.Bounded n) :
    Yields (globalStatement r) (·.height ≤ tallest n) :=
  .withReader (fun _ _ => Iff.rfl) (hr.statement.map fun _ hs => by simpa using hs)

theorem yields_badGlobalMember : Yields badGlobalMember (·.height ≤ 0) :=
  .next fun _ => .next fun _ => .next fun _ => .next fun _ => .pure (by simp)

theorem yields_member (hr : r.Bounded n) (inNamespace : Bool)
    {declaration : Nat → Cancellable Member}
    (hd : ∀ start, YieldsAll (declaration start) (·.height ≤ tallest n)) :
    YieldsAll (member r inNamespace declaration) (·.height ≤ tallest n) := by
  refine .next fun _ => .next fun _ => .ite (hd _) (.ite ?_ ?_)
  · exact .lift (yields_globalStatement hr)
  · exact .lift (yields_badGlobalMember.imp fun _ h => Nat.le_trans h (Nat.zero_le _))

theorem yields_declarationBody (r : Rules) {k : Nat}
    {namespaceMembers : Cancellable (List Member)}
    (hn : YieldsAll namespaceMembers fun ms => ∀ m ∈ ms, m.height ≤ k)
    {classMembers : Cancellable (List ClassMember)}
    (hc : YieldsAll classMembers fun ms => ∀ m ∈ ms, m.height ≤ k) (start : Nat) :
    YieldsAll (declarationBody r namespaceMembers classMembers start) (·.height ≤ k) := by
  refine .next fun _ => .ite ?_ (.next fun modifiers => ?_)
  · exact (yields_namespaceDeclaration r hn).map fun _ h => by simpa using h
  · exact (yields_typeDeclaration r hc start modifiers).map fun _ h => by simpa using h

theorem yields_members (n : Nat) (inNamespace : Bool) :
    YieldsAll (members n inNamespace) fun ms => ∀ m ∈ ms, m.height ≤ tallest n := by
  induction n generalizing inNamespace with
  | zero =>
    refine yields_membersUntil _ (yields_member (bounded_rules 0) _ fun start => ?_)
    exact .next fun _ => .next fun _ => .lift (yields_refused (fun _ => by simp) start)
  | succ n ih =>
    refine yields_membersUntil _ (yields_member (bounded_rules _) _ fun start => ?_)
    refine yields_nestedDeclaration (yields_refused (fun _ => by simp) start) ?_
    have hn := (ih true).imp fun _ h m hm => Nat.le_succ_of_le (h m hm)
    refine (yields_declarationBody (rules n) hn (yields_classMembers n) start).imp fun m hm => ?_
    exact le_tallest_succ (Nat.le_succ_of_le hm)

theorem yields_compilationUnit (n : Nat) :
    YieldsAll (compilationUnit n) (·.height ≤ tallest n) := by
  refine .next fun _ => .bind (yields_members n false) fun ms hms => .next fun _ => .pure ?_
  exact Member.heights_le.mpr hms

/-- The tree of a unit is no higher than about the square of the nesting limit. -/
theorem height_parseUnit_le (stream : TokenStream) (maxDepth : Nat)
    (before : Array Diagnostic) :
    ∃ u s, parseUnit stream maxDepth before none = (.ok u, s) ∧
      u.height ≤ (maxDepth + 2) ^ 2 + 1 := by
  obtain ⟨u, s, hrun⟩ := exists_parseUnit_eq stream maxDepth before
  have hheight := (yields_compilationUnit (maxDepth + 1) (.of stream maxDepth)
    (.start stream before none) trivial).1
  exact ⟨u, s, hrun, hheight u (congrArg Prod.fst hrun)⟩

/-- Chains in parentheses that begin chains. -/
def nestedChains : String :=
  "((((1+++1)++++++-1-1-1)++++++++++-1-1-1-1-1)++++++++++++++-1-1-1-1-1-1-1)" ++
    "++++++++++++++++++-1-1-1-1-1-1-1-1-1;"

/-- No small multiple of the limit bounds the height: within twelve levels, each operand in
parentheses begins two chains. -/
theorem parseUnit_outgrows_limit :
    ¬ ∀ (text : String) (maxDepth : Nat) (u : CompilationUnit),
      (parseUnit (scan text).1 maxDepth (scan text).2 none).1 = .ok u →
        u.height ≤ 4 * maxDepth + 4 := by
  intro h
  have hheight : (parseUnit (scan nestedChains).1 12 (scan nestedChains).2 none).1.toOption.map
      (·.height) = some 56 := by
    rw [show scan nestedChains = _ from scan_ofList_append _ _]
    decide +kernel
  obtain ⟨u, s, hrun⟩ := exists_parseUnit_eq (scan nestedChains).1 12 (scan nestedChains).2
  rw [hrun] at hheight
  have h56 : u.height = 56 := Option.some.inj hheight
  have hle : u.height ≤ 4 * 12 + 4 := h nestedChains 12 u (congrArg Prod.fst hrun)
  omega

end CSharpFront.Parser
