import FactGraph.Linking.Skeleton

/-!
# Declared types

Declarations of one project that agree in their full name and in being partial or not are
fragments of one type: the first one makes the node, the others join it. A declaration without a
name is skipped and reported.

When all types are there, a nested one is put into its enclosing type, which is looked for in the
same project by its full name.

## Main definitions

* `Fragment`: a declaration with the type it belongs to
* `Linker.declareAll`: makes the types of all declarations
* `Linker.nestAll`: puts nested types into their enclosing types
-/

namespace FactGraph

/-- A declaration with the type it belongs to. -/
structure Fragment where
  type : TypeId
  project : ProjectId
  context : DiagnosticContext
  fact : TypeFact

namespace Linker

open LinkM

variable (linker : Linker)

/-! ## Namespaces -/

/-- The last segment of a namespace, as the namespace tree has it if it knows the name. -/
def namespaceName (fullName : String) : String :=
  match linker.index.namespaces.entry? fullName with
  | some entry => entry.name
  | none => linker.separator.lastSegment fullName

/-- The namespace of a project with that full name, which is added in the given one if the project
does not have it yet. -/
def ensureSpace (project : ProjectId) (parent : Option NamespaceId) (fullName : String) :
    LinkM NamespaceId := do
  match (← tables).namespace? project fullName with
  | some id => return id
  | none =>
    let id ← nextHandle .space
    addNamespace { id, name := linker.namespaceName fullName, fullName, project, parent }
    return id

/-- The innermost of the namespaces with these full names, outermost first, each in the one before
it. -/
def ensureNamespaces (project : ProjectId) (parent : Option NamespaceId) :
    List String → LinkM (Option NamespaceId)
  | [] => return parent
  | fullName :: fullNames => do
    let id ← linker.ensureSpace project parent fullName
    ensureNamespaces project (some id) fullNames

/-- The full names of the namespaces around a declaration, outermost first. The global namespace,
which has no node, is left out. -/
def namespaceNames (fact : TypeFact) : List String :=
  if fact.trimmedNamespace = "" then []
  else (linker.index.namespaces.chain fact.trimmedNamespace).reverse.filter (· ≠ "")

/-- The namespace of a declaration. -/
def ensureNamespace (project : ProjectId) (fact : TypeFact) : LinkM (Option NamespaceId) :=
  linker.ensureNamespaces project none (linker.namespaceNames fact)

/-! ## Types -/

/-- The type that a declaration belongs to, which is made if it is the first fragment. -/
def ensureType (project : ProjectId) (fact : TypeFact) : LinkM TypeId := do
  let fullName := fact.fullName linker.separator
  match (← tables).fragments? project fullName fact.isPartial with
  | some id => return id
  | none =>
    let id ← nextHandle .type
    let namespaceId ← linker.ensureNamespace project fact
    -- Kind, access and modifiers are those of the first fragment.
    addDeclared project {
      id
      name := linker.separator.lastSegment (fact.relativeName linker.separator)
      fullName
      kind := fact.kind
      project := some project
      namespaceId
      isPartial := fact.isPartial
      accessModifier := fact.accessModifier
      modifier := fact.modifier
      genericParameters := fact.genericParameters }
    return id

/-- The type, with the file among those that it is declared in. -/
def withFile (file : FileId) (node : TypeNode) : TypeNode :=
  { node with files := if file ∈ node.files then node.files else node.files ++ [file] }

/-- Makes or joins the type of a declaration, and notes it in the file. -/
def declare (unit : SourceUnit) (fact : TypeFact) : LinkM (Option Fragment) := do
  if fact.isNamed then
    let type ← linker.ensureType unit.project fact
    modifyType type (withFile unit.file)
    modifyFile unit.file fun node => { node with types := node.types ++ [type] }
    return some { type, project := unit.project, context := unit.context, fact }
  else
    report (.namelessType unit.context fact.namespaceName)
    return none

/-- The fragments of the declarations of a unit. -/
def declareUnit (unit : SourceUnit) : LinkM (List Fragment) := do
  return (← unit.fact.types.mapM (linker.declare unit)).filterMap id

/-- **The types of all declarations**, and the declarations as their fragments. -/
def declareAll (units : List SourceUnit) : LinkM (List Fragment) := do
  return (← units.mapM linker.declareUnit).flatten

/-! ## Nested types -/

/-- The full name of the type that a declaration says it is nested in, if it says so. -/
def outerName? (fact : TypeFact) : Option String :=
  (fact.containingType.filter fun outer => !Text.isBlank outer).map
    (linker.separator.join fact.trimmedNamespace)

/-- Puts the type of a fragment into the type it says it is nested in, the first one of its project
with that full name, unless an earlier fragment has done so. -/
def nest (fragment : Fragment) : LinkM Unit := do
  match linker.outerName? fragment.fact with
  | some fullName =>
    let outer := ((← tables).declaredAs fullName).lookup fragment.project
    modifyType fragment.type fun node =>
      { node with containingType := node.containingType.or outer }
  | none => return

/-- Puts nested types into their enclosing types. -/
def nestAll (fragments : List Fragment) : LinkM Unit :=
  fragments.forM linker.nest

end Linker

end FactGraph
