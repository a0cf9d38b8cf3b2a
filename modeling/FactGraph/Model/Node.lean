import FactGraph.Fact.Kind
import FactGraph.Model.Handle

/-!
# The nodes of a reference model

What a fact names, a node refers to by handle. Every node knows its own handle and what it is
contained in; the lists of what it contains are there as well, so that a model can be walked in
both directions.

## Main definitions

* `TypeLink`: a type name with the type it refers to
* `CallEdge`, `RelationEdge`: what a method calls, and how often a type refers to another
* one structure for each kind of node
-/

namespace FactGraph

/-! ## Links -/

/-- What a method node was declared as. -/
inductive MethodKind where
  | method
  | constructor
  | destructor
  | accessor
  | localFunction
  deriving DecidableEq, Inhabited

namespace MethodKind

/-- The word for a kind. -/
def text : MethodKind → String
  | .method => "method"
  | .constructor => "constructor"
  | .destructor => "destructor"
  | .accessor => "accessor"
  | .localFunction => "local_function"

/-- Every kind. -/
def all : List MethodKind := [.method, .constructor, .destructor, .accessor, .localFunction]

/-- The kind that a word names. -/
def ofText? (word : String) : Option MethodKind :=
  all.find? fun kind => kind.text = word

@[simp] theorem ofText?_text (kind : MethodKind) : ofText? kind.text = some kind := by
  cases kind <;> rfl

end MethodKind

/-- A type name with the type that its base refers to, and the same for its arguments. A generic
parameter refers to no type. -/
structure TypeLink where
  /-- The canonical name. -/
  name : String
  target : Option TypeId
  genericArguments : List TypeLink := []
  deriving Inhabited

/-- An attribute with its type. -/
structure AttributeLink where
  typeLink : TypeLink
  target : Option String
  deriving Inhabited

/-- A call site. There is no target if no method matched. -/
structure CallEdge where
  target : Option MethodId
  deriving DecidableEq, Inhabited

/-- How often a type refers to another one in one way. -/
structure RelationEdge where
  relation : RelationKind
  target : TypeId
  count : Nat
  deriving DecidableEq, Inhabited

/-! ## Containers -/

/-- The root of a model. -/
structure RepositoryNode where
  path : String := ""
  solutions : List SolutionId := []
  deriving Inhabited

structure SolutionNode where
  id : SolutionId
  path : String
  /-- The listed projects, each once. -/
  projects : List ProjectId := []
  deriving Inhabited

structure ProjectNode where
  id : ProjectId
  path : String
  name : String
  /-- The solutions that list the project. -/
  solutions : List SolutionId := []
  references : List ProjectId := []
  files : List FileId := []
  /-- The outermost namespaces. -/
  namespaces : List NamespaceId := []
  deriving Inhabited

structure FileNode where
  id : FileId
  path : String
  project : ProjectId
  /-- The types of the named declarations of the file, in their order. -/
  types : List TypeId := []
  deriving Inhabited

structure NamespaceNode where
  id : NamespaceId
  /-- The last segment of the full name. -/
  name : String
  fullName : String
  project : ProjectId
  parent : Option NamespaceId
  children : List NamespaceId := []
  /-- The outermost types. -/
  types : List TypeId := []
  deriving Inhabited

/-! ## Types and members -/

/-- A type: declared in a project, possibly in several fragments, or external, when it is only
ever referred to. -/
structure TypeNode where
  id : TypeId
  name : String
  fullName : String
  kind : TypeKind := .classType
  /-- An external type has no project. -/
  project : Option ProjectId := none
  namespaceId : Option NamespaceId := none
  /-- The files with a fragment of the type, in the order of discovery. -/
  files : List FileId := []
  isPartial : Bool := false
  isExternal : Bool := false
  accessModifier : String := ""
  modifier : String := ""
  containingType : Option TypeId := none
  nestedTypes : List TypeId := []
  genericParameters : List String := []
  baseTypes : List TypeLink := []
  fields : List FieldId := []
  properties : List PropertyId := []
  methods : List MethodId := []
  constructors : List MethodId := []
  destructor : Option MethodId := none
  attributes : List AttributeLink := []
  relations : List RelationEdge := []
  deriving Inhabited

/-- The methods, then the constructors, then the destructor. -/
def TypeNode.allMethods (node : TypeNode) : List MethodId :=
  node.methods ++ node.constructors ++ node.destructor.toList

/-- The types that the base types of a type refer to, in their order. -/
def TypeNode.baseTargets (node : TypeNode) : List TypeId :=
  node.baseTypes.filterMap TypeLink.target

structure MethodNode where
  id : MethodId
  name : String
  kind : MethodKind
  containingType : TypeId
  /-- The method around a local function. -/
  containingMethod : Option MethodId := none
  /-- The property of an accessor. -/
  containingProperty : Option PropertyId := none
  accessModifier : String := ""
  modifier : String := ""
  genericParameters : List String := []
  returnType : Option TypeLink := none
  parameters : List ParameterId := []
  localVariables : List LocalVariableId := []
  localFunctions : List MethodId := []
  calls : List CallEdge := []
  attributes : List AttributeLink := []
  cyclomaticComplexity : Nat := 0
  /-- The method belongs to an external type and is only known from calls. -/
  isSynthetic : Bool := false
  deriving Inhabited

/-- The methods that a method calls, in the order of the call sites. -/
def MethodNode.callTargets (node : MethodNode) : List MethodId :=
  node.calls.filterMap CallEdge.target

structure FieldNode where
  id : FieldId
  name : String
  typeLink : TypeLink
  containingType : TypeId
  accessModifier : String := ""
  modifier : String := ""
  isEvent : Bool := false
  attributes : List AttributeLink := []
  deriving Inhabited

structure PropertyNode where
  id : PropertyId
  name : String
  typeLink : TypeLink
  containingType : TypeId
  accessModifier : String := ""
  modifier : String := ""
  accessors : List MethodId := []
  attributes : List AttributeLink := []
  deriving Inhabited

structure ParameterNode where
  id : ParameterId
  name : String
  typeLink : TypeLink
  containingMethod : MethodId
  modifier : String := ""
  defaultValue : Option String := none
  attributes : List AttributeLink := []
  deriving Inhabited

structure LocalVariableNode where
  id : LocalVariableId
  name : String
  typeLink : TypeLink
  containingMethod : MethodId
  deriving Inhabited

end FactGraph
