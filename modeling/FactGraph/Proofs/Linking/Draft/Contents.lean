import FactGraph.Model.Basic

/-!
# What nodes contain

Every node says what it is contained in. What a node contains can be read off these upward links,
in the order of the nodes. A link run fills the lists of contents in another way, list by list,
where nodes are made and at its end; a model whose lists have been read off is what they are
compared with.

## Main definitions

* `ReferenceModel.fieldsIn` and its like: the contents of a node, read off the upward links
* `ReferenceModel.wire`: the model with all lists of contents read off
-/

namespace FactGraph.ReferenceModel

variable (model : ReferenceModel)

/-- The handles of the nodes of a list that satisfy a condition, in their order. -/
def handlesWhere {α : Type} {kind : NodeKind} (nodes : Array α) (condition : α → Bool)
    (id : α → Handle kind) : List (Handle kind) :=
  (nodes.toList.filter condition).map id

theorem mem_handlesWhere {α : Type} {kind : NodeKind} {nodes : Array α} {condition : α → Bool}
    {id : α → Handle kind} {handle : Handle kind} :
    handle ∈ handlesWhere nodes condition id ↔
      ∃ node ∈ nodes, condition node ∧ id node = handle := by
  simp [handlesWhere, and_assoc]

/-- The same nodes are picked if the conditions agree on them. -/
theorem handlesWhere_congr {α : Type} {kind : NodeKind} {nodes : Array α}
    {condition condition' : α → Bool} {id : α → Handle kind}
    (h : ∀ node ∈ nodes, condition node = condition' node) :
    handlesWhere nodes condition id = handlesWhere nodes condition' id := by
  unfold handlesWhere
  rw [List.filter_congr fun node hnode => h node (Array.mem_toList_iff.1 hnode)]

/-! ## Contents -/

/-- The solutions that list a project. -/
def solutionsListing (id : ProjectId) : List SolutionId :=
  handlesWhere model.solutions (fun node => node.projects.contains id) SolutionNode.id

/-- The files of a project. -/
def filesIn (id : ProjectId) : List FileId :=
  handlesWhere model.files (fun node => node.project = id) FileNode.id

/-- The outermost namespaces of a project. -/
def namespacesIn (id : ProjectId) : List NamespaceId :=
  handlesWhere model.namespaces (fun node => node.parent.isNone && node.project = id)
    NamespaceNode.id

/-- The namespaces directly in a namespace. -/
def childrenIn (id : NamespaceId) : List NamespaceId :=
  handlesWhere model.namespaces (fun node => node.parent = some id) NamespaceNode.id

/-- The outermost types of a namespace. -/
def typesIn (id : NamespaceId) : List TypeId :=
  handlesWhere model.types
    (fun node => node.containingType.isNone && node.namespaceId = some id) TypeNode.id

/-- The types directly in a type. -/
def nestedIn (id : TypeId) : List TypeId :=
  handlesWhere model.types (fun node => node.containingType = some id) TypeNode.id

/-- The fields of a type. -/
def fieldsIn (id : TypeId) : List FieldId :=
  handlesWhere model.fields (fun node => node.containingType = id) FieldNode.id

/-- The properties of a type. -/
def propertiesIn (id : TypeId) : List PropertyId :=
  handlesWhere model.properties (fun node => node.containingType = id) PropertyNode.id

/-- The methods of a type that were declared as the given kind. -/
def methodsIn (id : TypeId) (kind : MethodKind) : List MethodId :=
  handlesWhere model.methods (fun node => node.containingType = id && node.kind = kind)
    MethodNode.id

/-- The accessors of a property. -/
def accessorsIn (id : PropertyId) : List MethodId :=
  handlesWhere model.methods (fun node => node.containingProperty = some id) MethodNode.id

/-- The local functions directly in a method. -/
def localFunctionsIn (id : MethodId) : List MethodId :=
  handlesWhere model.methods (fun node => node.containingMethod = some id) MethodNode.id

/-- The parameters of a method. -/
def parametersIn (id : MethodId) : List ParameterId :=
  handlesWhere model.parameters (fun node => node.containingMethod = id) ParameterNode.id

/-- The local variables of a method. -/
def localVariablesIn (id : MethodId) : List LocalVariableId :=
  handlesWhere model.localVariables (fun node => node.containingMethod = id)
    LocalVariableNode.id

/-! ## Nodes with their contents -/

/-- A project with its contents. -/
def wireProject (node : ProjectNode) : ProjectNode :=
  { node with
    solutions := model.solutionsListing node.id
    files := model.filesIn node.id
    namespaces := model.namespacesIn node.id }

/-- A namespace with its contents. -/
def wireNamespace (node : NamespaceNode) : NamespaceNode :=
  { node with children := model.childrenIn node.id, types := model.typesIn node.id }

/-- A type with its contents. -/
def wireType (node : TypeNode) : TypeNode :=
  { node with
    nestedTypes := model.nestedIn node.id
    fields := model.fieldsIn node.id
    properties := model.propertiesIn node.id
    methods := model.methodsIn node.id .method
    constructors := model.methodsIn node.id .constructor
    destructor := (model.methodsIn node.id .destructor).head? }

/-- A method with its contents. -/
def wireMethod (node : MethodNode) : MethodNode :=
  { node with
    parameters := model.parametersIn node.id
    localVariables := model.localVariablesIn node.id
    localFunctions := model.localFunctionsIn node.id }

/-- A property with its contents. -/
def wireProperty (node : PropertyNode) : PropertyNode :=
  { node with accessors := model.accessorsIn node.id }

/-- **The model with all lists of contents read off.** -/
def wire : ReferenceModel :=
  { model with
    repository := { model.repository with
      solutions := handlesWhere model.solutions (fun _ => true) SolutionNode.id }
    projects := model.projects.map model.wireProject
    namespaces := model.namespaces.map model.wireNamespace
    types := model.types.map model.wireType
    methods := model.methods.map model.wireMethod
    properties := model.properties.map model.wireProperty
    createdClasses := handlesWhere model.types TypeNode.isExternal TypeNode.id }

end FactGraph.ReferenceModel
