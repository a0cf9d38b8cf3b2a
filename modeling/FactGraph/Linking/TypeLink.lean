import FactGraph.Linking.Skeleton
import FactGraph.Name.TypeName

/-!
# Linking type names

A resolved type name is linked part by part. The base of a name refers to a declared type of that
full name: one of the own project, else one of the nearest project that can be reached, else, if
the policy allows it, any one. A name that no declaration can be found for refers to an external
type, which is made when the name is first met and serves the whole repository. A generic
parameter in scope refers to nothing.

## Main definitions

* `Linker.lookupDeclared`: the declared type that a name refers to
* `Linker.typeFor`: the same, or the external type of that name
* `Linker.linkTypeRef`, `Linker.linkAttributes`: links for references
* `Linker.existingLink`: a link that makes no external types
-/

namespace FactGraph.Linker

open LinkM

variable (linker : Linker)

/-! ## Looking types up -/

/-- **The declared type that a full name refers to**, seen from a project. -/
def lookupDeclared (fullName : String) (project : ProjectId) : LinkM (Option TypeId) := do
  match (← tables).declaredAs fullName with
  | [] => return none
  | first :: others =>
    let candidates := first :: others
    -- Distance comes before the order of the declarations.
    match candidates.lookup project with
    | some id => return some id
    | none =>
      let node ← projectAt project
      let reachable := linker.reachableProjects (← tables) node.path
      match reachable.findSome? fun place => candidates.lookup place with
      | some id => return some id
      | none => return if linker.index.allowsGlobal linker.policy then some first.2 else none

/-- The external type with a full name, which is made when it is first asked for. -/
def ensureExternal (fullName : String) : LinkM TypeId := do
  match (← tables).external? fullName with
  | some id => return id
  | none =>
    let id ← nextHandle .type
    addExternal
      { id, name := linker.separator.lastSegment fullName, fullName, isExternal := true }
    return id

/-- The declared type that a full name refers to, or the external type of that name. -/
def typeFor (fullName : String) (project : ProjectId) : LinkM TypeId := do
  match ← linker.lookupDeclared fullName project with
  | some id => return id
  | none => linker.ensureExternal fullName

/-! ## Links -/

mutual

/-- The link of a type name, its arguments first. -/
def linkTree (project : ProjectId) (typeParameters : List String) : TypeName → LinkM TypeLink
  | ⟨base, args, suffix⟩ => do
    let genericArguments ← linkTrees project typeParameters args
    let target ←
      if base = "" || (args.isEmpty && typeParameters.contains base) then pure none
      else some <$> linker.typeFor base project
    return { name := (TypeName.mk base args suffix).render, target, genericArguments }

/-- The links of a list of type names. -/
def linkTrees (project : ProjectId) (typeParameters : List String) :
    List TypeName → LinkM (List TypeLink)
  | [] => return []
  | arg :: args => do
    let link ← linkTree project typeParameters arg
    let links ← linkTrees project typeParameters args
    return link :: links

end

/-- The link of a written type name. -/
def linkName (project : ProjectId) (typeParameters : List String) (name : String) :
    LinkM TypeLink :=
  linker.linkTree project typeParameters (TypeName.parse name)

/-- The link of a reference. -/
def linkTypeRef (project : ProjectId) (typeParameters : List String) (ref : TypeRef) :
    LinkM TypeLink :=
  linker.linkName project typeParameters ref.fullName

/-- A reference that names a type. -/
def isNamedRef (ref : TypeRef) : Bool :=
  !Text.isBlank ref.name

/-- The links of attributes. One that names no type is left out. -/
def linkAttributes (project : ProjectId) (typeParameters : List String)
    (attributes : List AttributeFact) : LinkM (List AttributeLink) :=
  (attributes.filter fun fact => isNamedRef fact.typeRef).mapM fun fact => do
    let typeLink ← linker.linkTypeRef project typeParameters fact.typeRef
    return { typeLink, target := fact.target }

mutual

/-- The link of a type name to types that are there already, its own target first. -/
def existingLink (project : ProjectId) : TypeName → LinkM TypeLink
  | ⟨base, args, suffix⟩ => do
    let declared ← linker.lookupDeclared base project
    let target := declared.or ((← tables).external? base)
    let genericArguments ← existingLinks project args
    return { name := (TypeName.mk base args suffix).render, target, genericArguments }

/-- The links of a list of type names to types that are there already. -/
def existingLinks (project : ProjectId) : List TypeName → LinkM (List TypeLink)
  | [] => return []
  | arg :: args => do
    let link ← existingLink project arg
    let links ← existingLinks project args
    return link :: links

end

end FactGraph.Linker
