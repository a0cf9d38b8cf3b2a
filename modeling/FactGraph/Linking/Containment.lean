import FactGraph.Linking.State

/-!
# Containment

When all else is linked, the lists of the outer nodes are filled in: what is in the repository, in
solutions, projects and namespaces, and which types are nested in a type. Every file, namespace and
type is entered in what it says it is contained in. The members of types and methods have been
entered when they were made.

## Main definitions

* `Linker.wireContainment`: fills in the lists of the outer nodes
-/

namespace FactGraph.Linker

open LinkM

/-- Fills in the projects of the solutions. -/
def wireSolutions (members : List (List ProjectId)) (solutions : Array SolutionNode) :
    Array SolutionNode :=
  solutions.mapIdx fun position node =>
    match members[position]? with
    | some projects => { node with projects }
    | none => node

/-- Enters a file in its project. -/
def wireFile (node : FileNode) : LinkM Unit :=
  modifyProject node.project fun project => { project with files := project.files ++ [node.id] }

/-- Enters a namespace in the one around it, an outermost one in its project. -/
def wireNamespace (node : NamespaceNode) : LinkM Unit :=
  match node.parent with
  | some outer =>
    modifyNamespace outer fun space => { space with children := space.children ++ [node.id] }
  | none =>
    modifyProject node.project fun project =>
      { project with namespaces := project.namespaces ++ [node.id] }

/-- Enters a type in the one around it, an outermost one in its namespace. -/
def wireType (node : TypeNode) : LinkM Unit :=
  match node.containingType, node.namespaceId with
  | some outer, _ =>
    modifyType outer fun type => { type with nestedTypes := type.nestedTypes ++ [node.id] }
  | none, some space =>
    modifyNamespace space fun space => { space with types := space.types ++ [node.id] }
  | none, none => return

/-- **Fills in the lists of the outer nodes.** -/
def wireContainment : LinkM Unit := do
  let members := (← get).members
  modifyModel fun model => { model with
    repository := { model.repository with solutions := model.solutions.toList.map SolutionNode.id }
    solutions := wireSolutions members model.solutions }
  (← model).files.toList.forM wireFile
  (← model).namespaces.toList.forM wireNamespace
  (← model).types.toList.forM wireType

end FactGraph.Linker
