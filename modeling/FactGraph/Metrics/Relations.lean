import FactGraph.Model.Basic

/-!
# Relations between types

How often, and in which way, a type refers to each other one. The references are read off the
linked model, one after the other: every type link of the type and its members, generic arguments
included, and every resolved call. References to the type itself do not count.

## Main definitions

* `RelationEdge.add`: raises the count of a relation
* `RelationCollector`: the references of a type, as far as they have been counted
* `ReferenceModel.deriveRelations`: the references of a type, counted
-/

namespace FactGraph

/-- The edges with the count of a relation to a target raised. A relation that is not there yet
comes last. -/
def RelationEdge.add (relation : RelationKind) (target : TypeId) (count : Nat) :
    List RelationEdge → List RelationEdge
  | [] => [⟨relation, target, count⟩]
  | edge :: edges =>
    if edge.relation = relation ∧ edge.target = target then
      { edge with count := edge.count + count } :: edges
    else edge :: add relation target count edges

/-- The references of a type, as far as they have been counted. -/
structure RelationCollector where
  /-- The type whose references are counted. -/
  owner : TypeId
  /-- One edge for each relation to a target, in the order of first occurrence. -/
  edges : List RelationEdge := []
  deriving Inhabited

namespace RelationCollector

/-- Counts a reference, unless the type refers to itself. -/
def add (relation : RelationKind) (collector : RelationCollector) (target : TypeId) :
    RelationCollector :=
  if target = collector.owner then collector
  else { collector with edges := RelationEdge.add relation target 1 collector.edges }

/-! ## Links -/

mutual

/-- Counts the references of a link: its own, if it refers to a type, then those of its
arguments. -/
def addLink (relation : RelationKind) (collector : RelationCollector) :
    TypeLink → RelationCollector
  | ⟨_, some target, args⟩ => addLinks relation (add relation collector target) args
  | ⟨_, none, args⟩ => addLinks relation collector args

/-- Counts the references of the links of a list. -/
def addLinks (relation : RelationKind) (collector : RelationCollector) :
    List TypeLink → RelationCollector
  | [] => collector
  | link :: links => addLinks relation (addLink relation collector link) links

end

/-- Counts the references of attributes. -/
def addAttributes (collector : RelationCollector) (attributes : List AttributeLink) :
    RelationCollector :=
  attributes.foldl (fun collector link => addLink .attributes collector link.typeLink) collector

/-! ## Members -/

/-- Counts the references of a member: its type, then its attributes. -/
def addMember (relation : RelationKind) (collector : RelationCollector) (typeLink : TypeLink)
    (attributes : List AttributeLink) : RelationCollector :=
  (addLink relation collector typeLink).addAttributes attributes

/-- Counts the references of a method: its attributes, parameters, return type, local variables
and calls. -/
def addMethod (model : ReferenceModel) (collector : RelationCollector) (node : MethodNode) :
    RelationCollector :=
  let collector := collector.addAttributes node.attributes
  let collector := (node.parameters.filterMap model.parameter?).foldl
    (fun collector parameter =>
      addMember .parameters collector parameter.typeLink parameter.attributes) collector
  let collector := addLinks .returnValues collector node.returnType.toList
  let collector := (node.localVariables.filterMap model.localVariable?).foldl
    (fun collector declared => addLink .localVariables collector declared.typeLink) collector
  (node.callTargets.filterMap model.method?).foldl
    (fun collector callee => add .calls collector callee.containingType) collector

end RelationCollector

namespace ReferenceModel

open RelationCollector

variable (model : ReferenceModel)

/-- The methods declared by a type, at whatever depth. -/
def declaredMethods (id : TypeId) : List MethodNode :=
  model.methods.toList.filter fun node => !node.isSynthetic && node.containingType = id

/-- **The references of a type, counted**, in the order of first occurrence: those of its base
types and attributes, its fields, its properties and its methods. -/
def deriveRelations (id : TypeId) : List RelationEdge :=
  match model.type? id with
  | none => []
  | some node =>
    let collector := addLinks .inheritance { owner := id } node.baseTypes
    let collector := collector.addAttributes node.attributes
    let collector := (node.fields.filterMap model.field?).foldl
      (fun collector field =>
        addMember .declarations collector field.typeLink field.attributes) collector
    let collector := (node.properties.filterMap model.property?).foldl
      (fun collector property =>
        addMember .declarations collector property.typeLink property.attributes) collector
    ((model.declaredMethods id).foldl (addMethod model) collector).edges

end ReferenceModel

end FactGraph
