import FactGraph.Diagnostic.Finding
import FactGraph.Model.Basic
import FactGraph.Scope.Index

/-!
# The state of a link run

A model grows while facts are linked. A node gets its handle first, then its links are made, and
then it is added and entered in the list of what it is contained in; a method is entered there only
when all that is in it has been linked. The lists of projects, files, namespaces and types are
filled in at the very end. A call can be linked only when all methods are there, so calls are set
aside when they are met.

What is looked up by name is looked up in tables, which are kept up to date when nodes are added. A
run follows the handles that it has stored. One that led to no node would end the run.

## Main definitions

* `Linker`: what facts are linked with
* `LinkTables`: nodes by name
* `LinkState`, `LinkM`: the growing model, its tables, the findings and the calls set aside
* `LinkM.require`, `LinkM.typeAt` and its like: following a handle
* `LinkM.nextHandle`, `LinkM.addField` and its like: adding a node
* `LinkM.modifyType` and its like: changing a node
-/

namespace FactGraph

/-- What facts are linked with: what names could stand for, and how far a search may go. -/
structure Linker where
  index : ScopeIndex
  policy : FallbackPolicy

/-- The separator of the names. -/
abbrev Linker.separator (linker : Linker) : Separator :=
  linker.index.separator

/-! ## Tables -/

/-- Nodes by name. A later entry for a key is found before an earlier one. -/
structure LinkTables where
  /-- The projects by path. -/
  projects : List (String × ProjectId) := []
  /-- The types of the declarations with a project, a full name and a partiality. -/
  merged : List ((ProjectId × String × Bool) × TypeId) := []
  /-- The declared types by full name, in the order of their creation. -/
  declared : NameTable (ProjectId × TypeId) := {}
  /-- The namespaces of a project by full name. -/
  namespaces : List ((ProjectId × String) × NamespaceId) := []
  /-- The external types by full name. -/
  externals : List (String × TypeId) := []
  deriving Inhabited

namespace LinkTables

variable (tables : LinkTables)

/-- The project of a path. -/
def project? (path : String) : Option ProjectId :=
  tables.projects.lookup path

/-- The type of the declarations with that project, full name and partiality. -/
def fragments? (project : ProjectId) (fullName : String) (isPartial : Bool) : Option TypeId :=
  tables.merged.lookup (project, fullName, isPartial)

/-- The declared types with a full name, each with its project. -/
def declaredAs (fullName : String) : List (ProjectId × TypeId) :=
  tables.declared.get fullName

/-- The namespace of a project with that full name. -/
def namespace? (project : ProjectId) (fullName : String) : Option NamespaceId :=
  tables.namespaces.lookup (project, fullName)

/-- The external type with a full name. -/
def external? (fullName : String) : Option TypeId :=
  tables.externals.lookup fullName

end LinkTables

/-! ## States -/

/-- A call that waits for all methods to be there. -/
structure PendingCall where
  caller : MethodId
  project : ProjectId
  call : CallFact
  deriving Inhabited

/-- What is carried along in a link run. -/
structure LinkState where
  model : ReferenceModel
  tables : LinkTables := {}
  /-- The projects of each solution, until they are filled in. -/
  members : List (List ProjectId) := []
  diagnostics : Diagnostics := {}
  pending : Array PendingCall := #[]

/-- A step of a link run. It fails at a node that is not there. -/
abbrev LinkM := StateT LinkState (Except ModelNode)

namespace LinkM

/-- The model so far. -/
def model : LinkM ReferenceModel := do
  return (← get).model

/-- The tables so far. -/
def tables : LinkM LinkTables := do
  return (← get).tables

/-- Changes the model. -/
def modifyModel (change : ReferenceModel → ReferenceModel) : LinkM Unit :=
  modify fun state => { state with model := change state.model }

/-- Changes the tables. -/
def modifyTables (change : LinkTables → LinkTables) : LinkM Unit :=
  modify fun state => { state with tables := change state.tables }

/-- Reports a finding. -/
def report (diagnostic : Diagnostic) : LinkM Unit :=
  modify fun state => { state with diagnostics := state.diagnostics.push diagnostic }

/-- Sets a call aside. -/
def postpone (call : PendingCall) : LinkM Unit :=
  modify fun state => { state with pending := state.pending.push call }

/-! ## Following handles -/

/-- Ends the run unless the handle leads to a node. -/
def require {kind : NodeKind} (id : Handle kind) : LinkM Unit := do
  if (← model).hasHandle id then return else throw (.of id)

/-- What a handle leads to, if it leads to anything. -/
def orMissing {kind : NodeKind} {α : Type} (id : Handle kind) : Option α → LinkM α
  | some node => return node
  | none => throw (.of id)

/-- The project of a handle. -/
def projectAt (id : ProjectId) : LinkM ProjectNode := do
  orMissing id ((← model).project? id)

/-- The file of a handle. -/
def fileAt (id : FileId) : LinkM FileNode := do
  orMissing id ((← model).file? id)

/-- The type of a handle. -/
def typeAt (id : TypeId) : LinkM TypeNode := do
  orMissing id ((← model).type? id)

/-- The method of a handle. -/
def methodAt (id : MethodId) : LinkM MethodNode := do
  orMissing id ((← model).method? id)

/-- The parameter of a handle. -/
def parameterAt (id : ParameterId) : LinkM ParameterNode := do
  orMissing id ((← model).parameter? id)

/-! ## Changing nodes -/

/-- Changes a project. -/
def modifyProject (id : ProjectId) (change : ProjectNode → ProjectNode) : LinkM Unit := do
  require id
  modifyModel fun model => { model with projects := model.projects.modify id.idx change }

/-- Changes a file. -/
def modifyFile (id : FileId) (change : FileNode → FileNode) : LinkM Unit := do
  require id
  modifyModel fun model => { model with files := model.files.modify id.idx change }

/-- Changes a namespace. -/
def modifyNamespace (id : NamespaceId) (change : NamespaceNode → NamespaceNode) :
    LinkM Unit := do
  require id
  modifyModel fun model => { model with namespaces := model.namespaces.modify id.idx change }

/-- Changes a type. -/
def modifyType (id : TypeId) (change : TypeNode → TypeNode) : LinkM Unit := do
  require id
  modifyModel fun model => { model with types := model.types.modify id.idx change }

/-- Changes a method. -/
def modifyMethod (id : MethodId) (change : MethodNode → MethodNode) : LinkM Unit := do
  require id
  modifyModel fun model => { model with methods := model.methods.modify id.idx change }

/-- Changes a property. -/
def modifyProperty (id : PropertyId) (change : PropertyNode → PropertyNode) : LinkM Unit := do
  require id
  modifyModel fun model => { model with properties := model.properties.modify id.idx change }

/-! ## Adding nodes -/

/-- The handle that the next node of a kind gets. -/
def nextHandle (kind : NodeKind) : LinkM (Handle kind) := do
  return ⟨(← model).count kind⟩

/-- Adds a solution. -/
def addSolution (node : SolutionNode) : LinkM Unit :=
  modifyModel fun model => { model with solutions := model.solutions.push node }

/-- Adds a project. -/
def addProject (node : ProjectNode) : LinkM Unit := do
  modifyModel fun model => { model with projects := model.projects.push node }
  modifyTables fun tables => { tables with projects := (node.path, node.id) :: tables.projects }

/-- Adds a file. -/
def addFile (node : FileNode) : LinkM Unit :=
  modifyModel fun model => { model with files := model.files.push node }

/-- Adds a namespace of a project. -/
def addNamespace (node : NamespaceNode) : LinkM Unit := do
  modifyModel fun model => { model with namespaces := model.namespaces.push node }
  modifyTables fun tables =>
    { tables with namespaces := ((node.project, node.fullName), node.id) :: tables.namespaces }

/-- Adds the type of a first declaration in a project. -/
def addDeclared (project : ProjectId) (node : TypeNode) : LinkM Unit := do
  modifyModel fun model => { model with types := model.types.push node }
  modifyTables fun tables =>
    { tables with
      declared := tables.declared.push node.fullName (project, node.id)
      merged := ((project, node.fullName, node.isPartial), node.id) :: tables.merged }

/-- Adds an external type. -/
def addExternal (node : TypeNode) : LinkM Unit := do
  modifyModel fun model =>
    { model with
      types := model.types.push node
      createdClasses := model.createdClasses ++ [node.id] }
  modifyTables fun tables =>
    { tables with externals := (node.fullName, node.id) :: tables.externals }

/-- Adds a field, and enters it in its type. -/
def addField (node : FieldNode) : LinkM Unit := do
  modifyModel fun model => { model with fields := model.fields.push node }
  modifyType node.containingType fun type => { type with fields := type.fields ++ [node.id] }

/-- Adds a property, and enters it in its type. -/
def addProperty (node : PropertyNode) : LinkM Unit := do
  modifyModel fun model => { model with properties := model.properties.push node }
  modifyType node.containingType fun type =>
    { type with properties := type.properties ++ [node.id] }

/-- Adds a parameter, and enters it in its method. -/
def addParameter (node : ParameterNode) : LinkM Unit := do
  modifyModel fun model => { model with parameters := model.parameters.push node }
  modifyMethod node.containingMethod fun method =>
    { method with parameters := method.parameters ++ [node.id] }

/-- Adds a local variable, and enters it in its method. -/
def addLocalVariable (node : LocalVariableNode) : LinkM Unit := do
  modifyModel fun model => { model with localVariables := model.localVariables.push node }
  modifyMethod node.containingMethod fun method =>
    { method with localVariables := method.localVariables ++ [node.id] }

/-- Adds a method. It is not entered anywhere yet. -/
def addMethod (node : MethodNode) : LinkM Unit :=
  modifyModel fun model => { model with methods := model.methods.push node }

end LinkM

end FactGraph
