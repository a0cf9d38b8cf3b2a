import FactGraph.Model.Node

/-!
# The reference model

All nodes of a linked repository. The lists of nodes are public data, and a model may be read from
a file, so a look-up by handle may fail.

## Main definitions

* `ReferenceModel`: the lists of nodes
* `ReferenceModel.count`, `ReferenceModel.contains`: which handles lead to a node
* `ReferenceModel.findType?`, `ReferenceModel.methodsNamed`, `ReferenceModel.parameterTypes`:
  look-ups by name
-/

namespace FactGraph

/-- A linked repository. -/
structure ReferenceModel where
  repository : RepositoryNode := {}
  solutions : Array SolutionNode := #[]
  projects : Array ProjectNode := #[]
  files : Array FileNode := #[]
  namespaces : Array NamespaceNode := #[]
  types : Array TypeNode := #[]
  methods : Array MethodNode := #[]
  fields : Array FieldNode := #[]
  properties : Array PropertyNode := #[]
  parameters : Array ParameterNode := #[]
  localVariables : Array LocalVariableNode := #[]
  /-- The external types, in the order of their creation. -/
  createdClasses : List TypeId := []
  deriving Inhabited

namespace ReferenceModel

variable (model : ReferenceModel)

/-! ## Nodes by handle -/

/-- The number of nodes of a kind. -/
def count : NodeKind → Nat
  | .solution => model.solutions.size
  | .project => model.projects.size
  | .file => model.files.size
  | .space => model.namespaces.size
  | .type => model.types.size
  | .method => model.methods.size
  | .field => model.fields.size
  | .property => model.properties.size
  | .parameter => model.parameters.size
  | .localVariable => model.localVariables.size

/-- The number of nodes of all kinds, the repository included. -/
def nodeCount : Nat :=
  (NodeKind.all.map model.count).foldr (· + ·) 1

/-- The handle leads to a node. -/
def hasHandle {kind : NodeKind} (id : Handle kind) : Bool :=
  id.idx < model.count kind

/-- The node is one of the model. -/
def contains : ModelNode → Bool
  | .repository => true
  | .node _ id => model.hasHandle id

/-- The project of a handle. -/
def project? (id : ProjectId) : Option ProjectNode := model.projects[id.idx]?

/-- The file of a handle. -/
def file? (id : FileId) : Option FileNode := model.files[id.idx]?

/-- The namespace of a handle. -/
def namespace? (id : NamespaceId) : Option NamespaceNode := model.namespaces[id.idx]?

/-- The type of a handle. -/
def type? (id : TypeId) : Option TypeNode := model.types[id.idx]?

/-- The method of a handle. -/
def method? (id : MethodId) : Option MethodNode := model.methods[id.idx]?

/-- The field of a handle. -/
def field? (id : FieldId) : Option FieldNode := model.fields[id.idx]?

/-- The property of a handle. -/
def property? (id : PropertyId) : Option PropertyNode := model.properties[id.idx]?

/-- The parameter of a handle. -/
def parameter? (id : ParameterId) : Option ParameterNode := model.parameters[id.idx]?

/-- The local variable of a handle. -/
def localVariable? (id : LocalVariableId) : Option LocalVariableNode :=
  model.localVariables[id.idx]?

/-- There are no files. -/
def isEmpty : Bool :=
  model.files.isEmpty

/-! ## Nodes by name -/

/-- The first type of that full name, a declared one if there is any. -/
def findType? (fullName : String) : Option TypeId :=
  let named := model.types.toList.filter fun node => node.fullName = fullName
  ((named.find? fun node => !node.isExternal).or named.head?).map TypeNode.id

/-- The methods, constructors and destructor of a type that have that name. -/
def methodsNamed (id : TypeId) (name : String) : List MethodId :=
  match model.type? id with
  | none => []
  | some node =>
    node.allMethods.filter fun method =>
      (model.method? method).any fun method => method.name = name

/-- The names of the parameter types of a method, in order. -/
def parameterTypes (id : MethodId) : List String :=
  match model.method? id with
  | none => []
  | some node =>
    (node.parameters.filterMap model.parameter?).map fun parameter => parameter.typeLink.name

end ReferenceModel

end FactGraph
