import FactGraph.Graph.BreadthFirst
import FactGraph.Model.Basic

/-!
# Walking a model

## Main definitions

* `ReferenceModel.parent?`, `ReferenceModel.pathToRoot`: what a node is contained in
* `ReferenceModel.callees`, `ReferenceModel.callers`, `ReferenceModel.callPath?`: the call graph
* `ReferenceModel.ancestors`, `ReferenceModel.derivedTypes`: the inheritance graph
-/

namespace FactGraph.ReferenceModel

variable (model : ReferenceModel)

/-! ## Containment -/

/-- **What a node is directly contained in.** A project is reached through the first solution that
lists it; a type is in its enclosing type, else in its namespace, else in its project; a method is
in the method or the property around it, else in its type. An external type is directly in the
repository, which is in nothing. -/
def parent? : ModelNode → Option ModelNode
  | .repository => none
  | .node .solution _ => some .repository
  | .node .project id =>
    (model.project? id).map fun node =>
      match node.solutions with
      | [] => .repository
      | solution :: _ => .of solution
  | .node .file id => (model.file? id).map fun node => .of node.project
  | .node .space id =>
    (model.namespace? id).map fun node =>
      match node.parent with
      | some parent => .of parent
      | none => .of node.project
  | .node .type id =>
    (model.type? id).map fun node =>
      match node.containingType, node.namespaceId, node.project with
      | some outer, _, _ => .of outer
      | none, some space, _ => .of space
      | none, none, some project => .of project
      | none, none, none => .repository
  | .node .method id =>
    (model.method? id).map fun node =>
      match node.containingMethod, node.containingProperty with
      | some outer, _ => .of outer
      | none, some property => .of property
      | none, none => .of node.containingType
  | .node .field id => (model.field? id).map fun node => .of node.containingType
  | .node .property id => (model.property? id).map fun node => .of node.containingType
  | .node .parameter id => (model.parameter? id).map fun node => .of node.containingMethod
  | .node .localVariable id => (model.localVariable? id).map fun node => .of node.containingMethod

/-- The node and what it is contained in, at most `steps` nodes up. -/
def pathWithin : Nat → ModelNode → List ModelNode
  | 0, node => [node]
  | steps + 1, node =>
    match model.parent? node with
    | some parent => node :: pathWithin steps parent
    | none => [node]

/-- **The way from a node to the repository**, both included. A way that repeats no node is no
longer than the number of nodes. -/
def pathToRoot (node : ModelNode) : List ModelNode :=
  model.pathWithin model.nodeCount node

/-! ## Calls -/

/-- The methods that a method calls, in the order of the call sites. -/
def calleesOf (id : MethodId) : List MethodId :=
  match model.method? id with
  | some node => node.callTargets
  | none => []

/-- The methods with a call of a method, in their order. -/
def callersOf (id : MethodId) : List MethodId :=
  (model.methods.toList.filter fun node => node.callTargets.contains id).map MethodNode.id

/-- A search with limited depth, as nodes with their distance. -/
def withDistance {kind : NodeKind} (visits : List (BreadthFirst.Visit (Handle kind))) :
    List (Handle kind × Nat) :=
  visits.map fun visit => (visit.node, visit.distance)

/-- **The methods that a method calls**, directly or not, each with the length of the shortest
chain of calls, which is at most `maxDepth`. -/
def callees (id : MethodId) (maxDepth : Nat) : List (MethodId × Nat) :=
  withDistance (BreadthFirst.search model.calleesOf (min maxDepth model.methods.size) id)

/-- **The methods that call a method**, directly or not, each with the length of the shortest
chain of calls, which is at most `maxDepth`. -/
def callers (id : MethodId) (maxDepth : Nat) : List (MethodId × Nat) :=
  withDistance (BreadthFirst.search model.callersOf (min maxDepth model.methods.size) id)

/-- A shortest chain of calls from one method to another, both included, if there is one. -/
def callPath? (start target : MethodId) : Option (List MethodId) :=
  BreadthFirst.path? (BreadthFirst.search model.calleesOf model.methods.size start) start target

/-! ## Inheritance -/

/-- The types that the base types of a type refer to. -/
def basesOf (id : TypeId) : List TypeId :=
  match model.type? id with
  | some node => node.baseTargets
  | none => []

/-- The types that a type inherits from, directly or not, nearest first. -/
def ancestors (id : TypeId) : List TypeId :=
  (BreadthFirst.search model.basesOf model.types.size id).map BreadthFirst.Visit.node

/-- The types that inherit directly from a type, in their order. -/
def derivedTypes (id : TypeId) : List TypeId :=
  (model.types.toList.filter fun node => node.baseTargets.contains id).map TypeNode.id

end FactGraph.ReferenceModel
