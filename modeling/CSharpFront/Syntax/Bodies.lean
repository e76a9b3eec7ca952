import CSharpFront.Syntax.Tree
/-!
The bodies of a unit. Control flows within a body and never from one into another. The global
statements of a unit are one body, which comes first.
-/

namespace CSharpFront

namespace CompilationUnit

/-- The statements that stand outside any type. -/
def globalStatements (u : CompilationUnit) : List Stmt :=
  u.members.filterMap fun
    | .globalStatement s => some s
    | _ => none

end CompilationUnit

namespace Block

/-- A body that is absent has no statements. -/
def statementsOf : Option Block → List (List Stmt)
  | some b => [b.statements]
  | none => []

end Block

mutual

def TypeDeclaration.bodies : TypeDeclaration → List (List Stmt)
  | ⟨_, _, _, _, members⟩ => ClassMember.allBodies members

def ClassMember.bodies : ClassMember → List (List Stmt)
  | .method m => Block.statementsOf m.body?
  | .conversion o => Block.statementsOf o.body?
  | .nestedType d => d.bodies
  | .field _ | .incomplete _ => []

def ClassMember.allBodies : List ClassMember → List (List Stmt)
  | [] => []
  | m :: ms => m.bodies ++ ClassMember.allBodies ms

end

mutual

def Member.bodies : Member → List (List Stmt)
  | .namespaceMember n => n.bodies
  | .typeMember d => d.bodies
  | .globalStatement _ | .incomplete _ => []

def Member.allBodies : List Member → List (List Stmt)
  | [] => []
  | m :: ms => m.bodies ++ Member.allBodies ms

def NamespaceDeclaration.bodies : NamespaceDeclaration → List (List Stmt)
  | ⟨_, _, _, members⟩ => Member.allBodies members

end

/-- The bodies of a unit in the order of the text, the global statements first. -/
def CompilationUnit.bodies (u : CompilationUnit) : List (List Stmt) :=
  u.globalStatements :: Member.allBodies u.members

end CSharpFront
