import FactGraph.Linking.Fragment
import FactGraph.Linking.TypeLink
import FactGraph.Metrics.Relations

/-!
# Members

Every fragment of a type adds its members to the type, fragment after fragment in the order of
their discovery. A member that lacks its name or its type is skipped and reported; so is a second
destructor. The calls of a method are set aside.

## Main definitions

* `MemberScope`: where the members of a fragment are linked
* `Linker.linkMethod`: a method with its parameters, local variables and local functions
* `Linker.linkMembers`: all that a fragment adds to its type
-/

namespace FactGraph

/-- Where members are linked. -/
structure MemberScope where
  project : ProjectId
  type : TypeId
  /-- Where findings are reported. -/
  context : DiagnosticContext
  typeParameters : List String

/-- Where a method belongs, apart from its type. -/
structure MethodOwner where
  kind : MethodKind
  containingMethod : Option MethodId := none
  containingProperty : Option PropertyId := none

/-- A type with a further method of a kind. It has one destructor. -/
def TypeNode.enter (node : TypeNode) (kind : MethodKind) (id : MethodId) : TypeNode :=
  match kind with
  | .constructor => { node with constructors := node.constructors ++ [id] }
  | .destructor => { node with destructor := some id }
  | _ => { node with methods := node.methods ++ [id] }

namespace Linker

open LinkM

variable (linker : Linker)

/-! ## Methods -/

/-- Links a parameter of a method. -/
def linkParameter (scope : MemberScope) (method : MethodId) (fact : ParameterFact) :
    LinkM Unit := do
  if isNamedRef fact.typeRef then
    let id ← nextHandle .parameter
    let typeLink ← linker.linkTypeRef scope.project scope.typeParameters fact.typeRef
    let attributes ← linker.linkAttributes scope.project scope.typeParameters fact.attributes
    addParameter
      { id, name := fact.name, typeLink, containingMethod := method, modifier := fact.modifier
        defaultValue := fact.defaultValue, attributes }
  else report (.skippedMember scope.context "parameter without a type" fact.name)

/-- Links a local variable of a method. -/
def linkLocalVariable (scope : MemberScope) (method : MethodId) (fact : LocalVariableFact) :
    LinkM Unit := do
  if isNamedRef fact.typeRef then
    let id ← nextHandle .localVariable
    let typeLink ← linker.linkTypeRef scope.project scope.typeParameters fact.typeRef
    addLocalVariable { id, name := fact.name, typeLink, containingMethod := method }
  else report (.skippedMember scope.context "local variable without a type" fact.name)

/-- Sets a call of a method aside. -/
def collectCall (scope : MemberScope) (method : MethodId) (methodName : String)
    (fact : CallFact) : LinkM Unit :=
  if Text.isBlank fact.name then
    report (.skippedMember scope.context "call without a method name" methodName)
  else postpone { caller := method, project := scope.project, call := fact }

/-- The return type of a method, if it names one. -/
def linkReturnType (scope : MemberScope) (returnType : Option TypeRef) :
    LinkM (Option TypeLink) :=
  match returnType.filter isNamedRef with
  | some ref => some <$> linker.linkTypeRef scope.project scope.typeParameters ref
  | none => return none

/-- Links a method without its local functions. The scope is the one inside of the method. -/
def linkMethodHead (scope : MemberScope) (owner : MethodOwner) (head : MethodHead) :
    LinkM MethodId := do
  let id ← nextHandle .method
  let returnType ← linker.linkReturnType scope head.returnType
  let attributes ← linker.linkAttributes scope.project scope.typeParameters head.attributes
  addMethod
    { id, name := head.name, kind := owner.kind, containingType := scope.type
      containingMethod := owner.containingMethod, containingProperty := owner.containingProperty
      accessModifier := head.accessModifier, modifier := head.modifier
      genericParameters := head.genericParameters, returnType, attributes
      cyclomaticComplexity := head.cyclomaticComplexity }
  head.parameters.forM (linker.linkParameter scope id)
  head.localVariables.forM (linker.linkLocalVariable scope id)
  head.calledMethods.forM (collectCall scope id head.name)
  return id

/-- Enters a method in what it belongs to. -/
def enterMethod (type : TypeId) (owner : MethodOwner) (id : MethodId) : LinkM Unit :=
  match owner.containingProperty, owner.containingMethod with
  | some property, _ =>
    modifyProperty property fun node => { node with accessors := node.accessors ++ [id] }
  | none, some method =>
    modifyMethod method fun node => { node with localFunctions := node.localFunctions ++ [id] }
  | none, none =>
    modifyType type fun node => node.enter owner.kind id

mutual

/-- **A method with its local functions.** It is not entered in what it belongs to. There is none
if it has no name. -/
def linkMethod (scope : MemberScope) (owner : MethodOwner) : MethodFact → LinkM (Option MethodId)
  | ⟨head, localFunctions⟩ => do
    if Text.isBlank head.name then
      report (.skippedMember scope.context "method without a name" "")
      return none
    else
      let inner := { scope with typeParameters := scope.typeParameters ++ head.genericParameters }
      let method ← linker.linkMethodHead inner owner head
      linkMethods inner { kind := .localFunction, containingMethod := some method } localFunctions
      return some method

/-- The methods of a list, each of which is entered in what it belongs to. -/
def linkMethods (scope : MemberScope) (owner : MethodOwner) : List MethodFact → LinkM Unit
  | [] => return
  | fact :: facts => do
    let method ← linkMethod scope owner fact
    method.forM (enterMethod scope.type owner)
    linkMethods scope owner facts

end

/-- Links the destructor of a fragment, unless the type has one already. -/
def linkDestructor (scope : MemberScope) (fact : MethodFact) : LinkM Unit := do
  if (← typeAt scope.type).destructor.isSome then
    report (.skippedMember scope.context "second destructor" fact.name)
  else linker.linkMethods scope { kind := .destructor } [fact]

/-! ## Fields and properties -/

/-- Links a field. -/
def linkField (scope : MemberScope) (fact : FieldFact) : LinkM Unit := do
  if !Text.isBlank fact.name && isNamedRef fact.typeRef then
    let id ← nextHandle .field
    let typeLink ← linker.linkTypeRef scope.project scope.typeParameters fact.typeRef
    let attributes ← linker.linkAttributes scope.project scope.typeParameters fact.attributes
    addField
      { id, name := fact.name, typeLink, containingType := scope.type
        accessModifier := fact.accessModifier, modifier := fact.modifier, isEvent := fact.isEvent
        attributes }
  else report (.skippedMember scope.context "incomplete field" fact.name)

/-- Links a property with its accessors. -/
def linkProperty (scope : MemberScope) (fact : PropertyFact) : LinkM Unit := do
  if !Text.isBlank fact.name && isNamedRef fact.typeRef then
    let id ← nextHandle .property
    let typeLink ← linker.linkTypeRef scope.project scope.typeParameters fact.typeRef
    let attributes ← linker.linkAttributes scope.project scope.typeParameters fact.attributes
    addProperty
      { id, name := fact.name, typeLink, containingType := scope.type
        accessModifier := fact.accessModifier, modifier := fact.modifier, attributes }
    linker.linkMethods scope { kind := .accessor, containingProperty := some id } fact.accessors
  else report (.skippedMember scope.context "incomplete property" fact.name)

/-! ## Base types, attributes and metrics -/

/-- Links a base type. One that the type has already, by its canonical name, is not repeated. -/
def linkBaseType (scope : MemberScope) (typeName : String) (base : TypeRef) : LinkM Unit := do
  if isNamedRef base then
    let link ← linker.linkTypeRef scope.project scope.typeParameters base
    modifyType scope.type fun node =>
      if node.baseTypes.any fun other => other.name = link.name then node
      else { node with baseTypes := node.baseTypes ++ [link] }
  else report (.skippedMember scope.context "base type without a name" typeName)

/-- Links one count of a metric. A blank name and a generic parameter are left out. -/
def linkCount (scope : MemberScope) (relation : RelationKind) (name : String) (count : Nat) :
    LinkM Unit := do
  if !Text.isBlank name then
    let link ← linker.linkName scope.project scope.typeParameters name
    match link.target with
    | some target =>
      modifyType scope.type fun node =>
        { node with relations := RelationEdge.add relation target count node.relations }
    | none => return

/-- Links a metric. -/
def linkMetric (scope : MemberScope) (fact : MetricFact) : LinkM Unit :=
  fact.counts.entries.forM fun (name, count) =>
    linker.linkCount scope fact.relation name count

/-! ## Fragments -/

/-- The type and the types around it, innermost first, at most `steps` of them. -/
def enclosingTypes (model : ReferenceModel) : Nat → Option TypeId → List TypeId
  | 0, _ => []
  | _, none => []
  | steps + 1, some type =>
    type :: enclosingTypes model steps ((model.type? type).bind TypeNode.containingType)

/-- The types around the type of a fragment. A type is never around itself, so there are no more
of them than types. -/
def typesAround (model : ReferenceModel) (fragment : Fragment) : List TypeId :=
  enclosingTypes model model.types.size
    ((model.type? fragment.type).bind TypeNode.containingType)

/-- The generic parameters in scope in a fragment: its own, and those of the types around its
type. -/
def parametersInScope (fragment : Fragment) : LinkM (List String) := do
  require fragment.type
  let around ← (typesAround (← model) fragment).mapM typeAt
  return fragment.fact.genericParameters ++ around.flatMap TypeNode.genericParameters

/-- **All that a fragment adds to its type.** -/
def linkMembers (fragment : Fragment) : LinkM Unit := do
  let fact := fragment.fact
  let typeParameters ← parametersInScope fragment
  let scope : MemberScope := {
    project := fragment.project
    type := fragment.type
    context := fragment.context
    typeParameters }
  fact.baseTypes.forM (linker.linkBaseType scope fact.name)
  let attributes ← linker.linkAttributes scope.project scope.typeParameters fact.attributes
  modifyType scope.type fun node => { node with attributes := node.attributes ++ attributes }
  fact.fields.forM (linker.linkField scope)
  fact.properties.forM (linker.linkProperty scope)
  linker.linkMethods scope { kind := .method } fact.methods
  linker.linkMethods scope { kind := .constructor } fact.constructors
  fact.destructor.forM (linker.linkDestructor scope)
  fact.metrics.forM (linker.linkMetric scope)

end Linker

end FactGraph
