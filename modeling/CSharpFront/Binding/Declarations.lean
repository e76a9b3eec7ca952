import CSharpFront.Binding.Resolution
import CSharpFront.Types.Conversion
/-!
What the types of a text declare. First all of them get their names, so that they can be used
before their place in the text; then their fields, methods and conversions are recorded.
-/

namespace CSharpFront

/-! ### The declarations in a tree -/

mutual

/-- The type with those nested in it, each with its qualified name. A type without a name is left
out with all that it holds. -/
def TypeDeclaration.withNested (container : String) :
    TypeDeclaration → List (String × TypeDeclaration)
  | ⟨range, isStruct, modifiers, i, members⟩ =>
    if i.isMissing then []
    else
      let name := qualify container i.text
      (name, ⟨range, isStruct, modifiers, i, members⟩) :: ClassMember.allNested name members

def ClassMember.nested (container : String) : ClassMember → List (String × TypeDeclaration)
  | .nestedType d => d.withNested container
  | .field _ | .method _ | .conversion _ | .incomplete _ => []

def ClassMember.allNested (container : String) :
    List ClassMember → List (String × TypeDeclaration)
  | [] => []
  | m :: ms => m.nested container ++ ClassMember.allNested container ms

end

mutual

/-- The members of a type and of those nested in it, each with the qualified name of its type. -/
def TypeDeclaration.ownMembers (container : String) :
    TypeDeclaration → List (String × ClassMember)
  | ⟨_, _, _, i, members⟩ =>
    if i.isMissing then [] else ClassMember.allOwned (qualify container i.text) members

def ClassMember.owned (owner : String) : ClassMember → List (String × ClassMember)
  | .nestedType d => d.ownMembers owner
  | m => [(owner, m)]

def ClassMember.allOwned (owner : String) : List ClassMember → List (String × ClassMember)
  | [] => []
  | m :: ms => m.owned owner ++ ClassMember.allOwned owner ms

end

mutual

/-- The types among the members of a namespace, each with the name of its container. -/
def Member.types (container : String) : Member → List (String × TypeDeclaration)
  | .namespaceMember n => n.types container
  | .typeMember d => [(container, d)]
  | .globalStatement _ | .incomplete _ => []

def Member.allTypes (container : String) : List Member → List (String × TypeDeclaration)
  | [] => []
  | m :: ms => m.types container ++ Member.allTypes container ms

def NamespaceDeclaration.types (container : String) :
    NamespaceDeclaration → List (String × TypeDeclaration)
  | ⟨_, name, _, members⟩ => Member.allTypes (qualify container name.dotted) members

end

/-! ### What they declare -/

/-- The types of a text by name, with their members and conversions, and the listing of the types
that came up. A type is known by its qualified name and by its simple name; of several types with
one name the first has it. -/
@[ext] structure Declarations where
  names : NamedTypes := []
  members : Members := []
  conversions : List DeclaredConversion := []
  listing : Listing := {}

namespace Declarations

/-- The declarations with a type that has a qualified name. -/
def addType (ds : Declarations) (name : String) (d : TypeDeclaration) : Declarations :=
  let t : Ty := .named name d.isStruct
  { ds with
    names := (ds.names.declare name t).declare d.identifier.text t
    listing := ds.listing.add t }

/-- The type that syntax means, with the declarations after it was listed. -/
def resolve (ds : Declarations) (type : TypeSyntax) : Ty × Declarations :=
  let (t, listing) := (type.resolve ds.names).run ds.listing
  (t, { ds with listing })

def addField (ds : Declarations) (owner : Ty) (f : Field) : Declarations :=
  let (t, ds) := ds.resolve f.declaration.type
  let names := (f.declaration.declarators.map (·.identifier)).filter (!·.isMissing)
  { ds with members := names.foldl (fun ms i => ms.declareField owner i.text t) ds.members }

/-- A constructor returns nothing and declares nothing. -/
def addMethod (ds : Declarations) (owner : Ty) (m : Method) : Declarations :=
  match m.returnType? with
  | none => ds
  | some type =>
    let (t, ds) := ds.resolve type
    if m.identifier.isMissing then ds
    else { ds with members := ds.members.declareMethod owner m.identifier.text t }

def addConversion (ds : Declarations) (o : ConversionOperator) : Declarations :=
  let (target, ds) := ds.resolve o.type
  let (source, ds) : Ty × Declarations :=
    match o.parameters with
    | [] => (.error, ds)
    | p :: _ => ds.resolve p.type
  if source.isError || target.isError then ds
  else { ds with conversions := ds.conversions ++ [⟨source, target, o.isImplicit⟩] }

/-- The declarations with a member of the type of a name. -/
def addMember (ds : Declarations) (owner : String) (m : ClassMember) : Declarations :=
  match ds.names.find? owner with
  | none => ds
  | some t =>
    match m with
    | .field f => ds.addField t f
    | .method m => ds.addMethod t m
    | .conversion o => ds.addConversion o
    | .nestedType _ | .incomplete _ => ds

/-- What the types among the members of a unit declare. -/
def ofMembers (members : List Member) : Declarations :=
  let types := Member.allTypes "" members
  let named : Declarations :=
    (types.flatMap fun (container, d) => d.withNested container).foldl
      (fun ds (name, d) => ds.addType name d) {}
  (types.flatMap fun (container, d) => d.ownMembers container).foldl
    (fun ds (owner, m) => ds.addMember owner m) named

end Declarations

end CSharpFront
