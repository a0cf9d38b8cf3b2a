import FactGraph.Proofs.Linking.Draft.Scan
import FactGraph.Proofs.Linking.Draft.State

/-!
# A link run in draft

The steps of a link run, as they are on drafts. Each one does what the step of the linker with the
like name does, but for three things: it looks names up by scanning the nodes, it enters no node in
a list, and a node gets its handle when it is added. The listings are no steps of their own, a run
starts with their nodes.

## Main definitions

* `Linker.draftAll`, `Linker.draftNestAll`: types are declared, and put into each other
* `Linker.draftTypeFor`, `Linker.draftTree`: type names are linked
* `Linker.draftMembers`: the members of a fragment are linked
* `Linker.draftCall`: a call is linked
* `Linker.draftRun`: the state at the end
-/

namespace FactGraph.Linker

open DraftM

variable (linker : Linker)

/-! ## Declarations -/

/-- The namespace of a project with that full name, which is added in the given one if the project
does not have it yet. -/
def draftSpace (project : ProjectId) (parent : Option NamespaceId) (fullName : String) :
    DraftM NamespaceId := do
  match findNamespace? (← model) project fullName with
  | some id => return id
  | none =>
    addNamespace fun id =>
      { id, name := linker.namespaceName fullName, fullName, project, parent }

/-- The innermost of the namespaces with these full names, outermost first, each in the one before
it. -/
def draftNamespaces (project : ProjectId) (parent : Option NamespaceId) :
    List String → DraftM (Option NamespaceId)
  | [] => return parent
  | fullName :: fullNames => do
    let id ← linker.draftSpace project parent fullName
    draftNamespaces project (some id) fullNames

/-- The namespace of a declaration. -/
def draftNamespace (project : ProjectId) (fact : TypeFact) : DraftM (Option NamespaceId) :=
  linker.draftNamespaces project none (linker.namespaceNames fact)

/-- The type that a declaration belongs to, which is made if it is the first fragment. -/
def draftType (project : ProjectId) (fact : TypeFact) : DraftM TypeId := do
  let fullName := fact.fullName linker.separator
  match findFragments? (← model) project fullName fact.isPartial with
  | some id => return id
  | none =>
    let namespaceId ← linker.draftNamespace project fact
    addType fun id =>
      { id
        name := linker.separator.lastSegment (fact.relativeName linker.separator)
        fullName
        kind := fact.kind
        project := some project
        namespaceId
        isPartial := fact.isPartial
        accessModifier := fact.accessModifier
        modifier := fact.modifier
        genericParameters := fact.genericParameters }

/-- Makes or joins the type of a declaration, and notes it in the file. -/
def draftDeclaration (unit : SourceUnit) (fact : TypeFact) : DraftM (Option Fragment) := do
  if fact.isNamed then
    let type ← linker.draftType unit.project fact
    modifyType type (withFile unit.file)
    modifyFile unit.file fun node => { node with types := node.types ++ [type] }
    return some { type, project := unit.project, context := unit.context, fact }
  else
    report (.namelessType unit.context fact.namespaceName)
    return none

/-- The fragments of the declarations of a unit. -/
def draftUnit (unit : SourceUnit) : DraftM (List Fragment) := do
  return (← unit.fact.types.mapM (linker.draftDeclaration unit)).filterMap id

/-- **The types of all declarations**, and the declarations as their fragments. -/
def draftAll (units : List SourceUnit) : DraftM (List Fragment) := do
  return (← units.mapM linker.draftUnit).flatten

/-- Puts the type of a fragment into the type it says it is nested in, unless an earlier fragment
has done so. -/
def draftNest (fragment : Fragment) : DraftM Unit := do
  let outer := linker.outerType? (← model) fragment
  modifyType fragment.type fun node =>
    { node with containingType := node.containingType.or outer }

/-- Puts nested types into their enclosing types. -/
def draftNestAll (fragments : List Fragment) : DraftM Unit :=
  fragments.forM linker.draftNest

/-! ## Type names -/

/-- The external type with a full name, which is made when it is first asked for. -/
def draftExternal (fullName : String) : DraftM TypeId := do
  match findExternal? (← model) fullName with
  | some id => return id
  | none =>
    addType fun id =>
      { id, name := linker.separator.lastSegment fullName, fullName, isExternal := true }

/-- The declared type that a full name refers to, or the external type of that name. -/
def draftTypeFor (fullName : String) (project : ProjectId) : DraftM TypeId := do
  require project
  match linker.lookupDeclared? (← model) fullName project with
  | some id => return id
  | none => linker.draftExternal fullName

mutual

/-- The link of a type name, its arguments first. -/
def draftTree (project : ProjectId) (typeParameters : List String) : TypeName → DraftM TypeLink
  | ⟨base, args, suffix⟩ => do
    let genericArguments ← draftTrees project typeParameters args
    let target ←
      if base = "" || (args.isEmpty && typeParameters.contains base) then pure none
      else some <$> linker.draftTypeFor base project
    return { name := (TypeName.mk base args suffix).render, target, genericArguments }

/-- The links of a list of type names. -/
def draftTrees (project : ProjectId) (typeParameters : List String) :
    List TypeName → DraftM (List TypeLink)
  | [] => return []
  | arg :: args => do
    let link ← draftTree project typeParameters arg
    let links ← draftTrees project typeParameters args
    return link :: links

end

/-- The link of a written type name. -/
def draftName (project : ProjectId) (typeParameters : List String) (name : String) :
    DraftM TypeLink :=
  linker.draftTree project typeParameters (TypeName.parse name)

/-- The link of a reference. -/
def draftTypeRef (project : ProjectId) (typeParameters : List String) (ref : TypeRef) :
    DraftM TypeLink :=
  linker.draftName project typeParameters ref.fullName

/-- The links of attributes. One that names no type is left out. -/
def draftAttributes (project : ProjectId) (typeParameters : List String)
    (attributes : List AttributeFact) : DraftM (List AttributeLink) :=
  (attributes.filter fun fact => isNamedRef fact.typeRef).mapM fun fact => do
    let typeLink ← linker.draftTypeRef project typeParameters fact.typeRef
    return { typeLink, target := fact.target }

/-! ## Methods -/

/-- Links a parameter of a method. -/
def draftParameter (scope : MemberScope) (method : MethodId) (fact : ParameterFact) :
    DraftM Unit := do
  if isNamedRef fact.typeRef then
    let typeLink ← linker.draftTypeRef scope.project scope.typeParameters fact.typeRef
    let attributes ← linker.draftAttributes scope.project scope.typeParameters fact.attributes
    addParameter fun id =>
      { id, name := fact.name, typeLink, containingMethod := method, modifier := fact.modifier
        defaultValue := fact.defaultValue, attributes }
  else report (.skippedMember scope.context "parameter without a type" fact.name)

/-- Links a local variable of a method. -/
def draftLocalVariable (scope : MemberScope) (method : MethodId) (fact : LocalVariableFact) :
    DraftM Unit := do
  if isNamedRef fact.typeRef then
    let typeLink ← linker.draftTypeRef scope.project scope.typeParameters fact.typeRef
    addLocalVariable fun id => { id, name := fact.name, typeLink, containingMethod := method }
  else report (.skippedMember scope.context "local variable without a type" fact.name)

/-- Sets a call of a method aside. -/
def draftCollect (scope : MemberScope) (method : MethodId) (methodName : String)
    (fact : CallFact) : DraftM Unit :=
  if Text.isBlank fact.name then
    report (.skippedMember scope.context "call without a method name" methodName)
  else postpone { caller := method, project := scope.project, call := fact }

/-- The return type of a method, if it names one. -/
def draftReturnType (scope : MemberScope) (returnType : Option TypeRef) :
    DraftM (Option TypeLink) :=
  match returnType.filter isNamedRef with
  | some ref => some <$> linker.draftTypeRef scope.project scope.typeParameters ref
  | none => return none

/-- Links a method without its local functions. The scope is the one inside of the method. -/
def draftMethodHead (scope : MemberScope) (owner : MethodOwner) (head : MethodHead) :
    DraftM MethodId := do
  let returnType ← linker.draftReturnType scope head.returnType
  let attributes ← linker.draftAttributes scope.project scope.typeParameters head.attributes
  let method ← addMethod fun id =>
    { id, name := head.name, kind := owner.kind, containingType := scope.type
      containingMethod := owner.containingMethod, containingProperty := owner.containingProperty
      accessModifier := head.accessModifier, modifier := head.modifier
      genericParameters := head.genericParameters, returnType, attributes
      cyclomaticComplexity := head.cyclomaticComplexity }
  head.parameters.forM (linker.draftParameter scope method)
  head.localVariables.forM (linker.draftLocalVariable scope method)
  head.calledMethods.forM (draftCollect scope method head.name)
  return method

mutual

/-- **A method with its local functions.** -/
def draftMethod (scope : MemberScope) (owner : MethodOwner) : MethodFact → DraftM Unit
  | ⟨head, localFunctions⟩ => do
    if Text.isBlank head.name then
      report (.skippedMember scope.context "method without a name" "")
    else
      let inner := { scope with typeParameters := scope.typeParameters ++ head.genericParameters }
      let method ← linker.draftMethodHead inner owner head
      draftMethods inner { kind := .localFunction, containingMethod := some method } localFunctions

/-- The methods of a list. -/
def draftMethods (scope : MemberScope) (owner : MethodOwner) : List MethodFact → DraftM Unit
  | [] => return
  | method :: methods => do
    draftMethod scope owner method
    draftMethods scope owner methods

end

/-- Links the destructor of a fragment, unless the type has one already. -/
def draftDestructor (scope : MemberScope) (fact : MethodFact) : DraftM Unit := do
  if hasDestructor (← model) scope.type then
    report (.skippedMember scope.context "second destructor" fact.name)
  else linker.draftMethod scope { kind := .destructor } fact

/-! ## Members -/

/-- Links a field. -/
def draftField (scope : MemberScope) (fact : FieldFact) : DraftM Unit := do
  if !Text.isBlank fact.name && isNamedRef fact.typeRef then
    let typeLink ← linker.draftTypeRef scope.project scope.typeParameters fact.typeRef
    let attributes ← linker.draftAttributes scope.project scope.typeParameters fact.attributes
    addField fun id =>
      { id, name := fact.name, typeLink, containingType := scope.type
        accessModifier := fact.accessModifier, modifier := fact.modifier, isEvent := fact.isEvent
        attributes }
  else report (.skippedMember scope.context "incomplete field" fact.name)

/-- Links a property with its accessors. -/
def draftProperty (scope : MemberScope) (fact : PropertyFact) : DraftM Unit := do
  if !Text.isBlank fact.name && isNamedRef fact.typeRef then
    let typeLink ← linker.draftTypeRef scope.project scope.typeParameters fact.typeRef
    let attributes ← linker.draftAttributes scope.project scope.typeParameters fact.attributes
    let property ← addProperty fun id =>
      { id, name := fact.name, typeLink, containingType := scope.type
        accessModifier := fact.accessModifier, modifier := fact.modifier, attributes }
    linker.draftMethods scope { kind := .accessor, containingProperty := some property }
      fact.accessors
  else report (.skippedMember scope.context "incomplete property" fact.name)

/-- Links a base type. One that the type has already, by its canonical name, is not repeated. -/
def draftBaseType (scope : MemberScope) (typeName : String) (base : TypeRef) : DraftM Unit := do
  if isNamedRef base then
    let link ← linker.draftTypeRef scope.project scope.typeParameters base
    modifyType scope.type fun node =>
      if node.baseTypes.any fun other => other.name = link.name then node
      else { node with baseTypes := node.baseTypes ++ [link] }
  else report (.skippedMember scope.context "base type without a name" typeName)

/-- Links one count of a metric. A blank name and a generic parameter are left out. -/
def draftCount (scope : MemberScope) (relation : RelationKind) (name : String) (count : Nat) :
    DraftM Unit := do
  if !Text.isBlank name then
    let link ← linker.draftName scope.project scope.typeParameters name
    match link.target with
    | some target =>
      modifyType scope.type fun node =>
        { node with relations := RelationEdge.add relation target count node.relations }
    | none => return

/-- Links a metric. -/
def draftMetric (scope : MemberScope) (fact : MetricFact) : DraftM Unit :=
  fact.counts.entries.forM fun (name, count) =>
    linker.draftCount scope fact.relation name count

/-- The generic parameters in scope in a fragment: its own, and those of the types around its
type. -/
def draftParametersInScope (fragment : Fragment) : DraftM (List String) := do
  let around ← (typesAround (← model) fragment).mapM typeAt
  return fragment.fact.genericParameters ++ around.flatMap TypeNode.genericParameters

/-- **All that a fragment adds to its type.** -/
def draftMembers (fragment : Fragment) : DraftM Unit := do
  let fact := fragment.fact
  let typeParameters ← draftParametersInScope fragment
  let scope : MemberScope := {
    project := fragment.project
    type := fragment.type
    context := fragment.context
    typeParameters }
  fact.baseTypes.forM (linker.draftBaseType scope fact.name)
  let attributes ← linker.draftAttributes scope.project scope.typeParameters fact.attributes
  modifyType scope.type fun node => { node with attributes := node.attributes ++ attributes }
  fact.fields.forM (linker.draftField scope)
  fact.properties.forM (linker.draftProperty scope)
  linker.draftMethods scope { kind := .method } fact.methods
  linker.draftMethods scope { kind := .constructor } fact.constructors
  fact.destructor.forM (linker.draftDestructor scope)
  fact.metrics.forM (linker.draftMetric scope)

/-! ## Calls -/

/-- **The method that a call of a declared type matches**, of the type itself or of the nearest
one that it inherits from. -/
def draftFind (owner : TypeId) (name : String) (parameterTypes : List String) :
    DraftM (Option MethodId) := do
  let model ← model
  let ancestry ← (inheritanceOrder model owner).mapM typeAt
  return ancestry.findSome? (ownMethod? model name parameterTypes)

/-- Makes a method of an external type. The types of its parameters are linked as far as they are
there already. -/
def draftSynthetic (owner : TypeId) (name : String) (parameterTypes : List String)
    (project : ProjectId) : DraftM MethodId := do
  require project
  let method ← addMethod fun id =>
    { id, name, kind := .method, containingType := owner, isSynthetic := true }
  parameterTypes.forM fun parameterType => do
    let typeLink := linker.linkIn (← model) project (TypeName.parse parameterType)
    addParameter fun id => { id, name := "", typeLink, containingMethod := method }
  return method

/-- **The method that a call of an external type matches**, which is made when the signature is
first called. -/
def draftMatching (owner : TypeId) (name : String) (parameterTypes : List String)
    (project : ProjectId) : DraftM MethodId := do
  let model ← model
  match matching? model (methodsOfKind model owner .method) name parameterTypes with
  | some method => return method
  | none => linker.draftSynthetic owner name parameterTypes project

/-- The owner of a call: the type it names, or the type of the calling method. -/
def draftOwner (callerType : TypeId) (pending : PendingCall) : DraftM TypeId :=
  let owner := TypeName.parse pending.call.containingType
  if owner.base = "" then return callerType else linker.draftTypeFor owner.base pending.project

/-- The target of a call of an owner. -/
def draftTarget (owner : TypeNode) (pending : PendingCall) : DraftM (Option MethodId) :=
  let signature := callSignature pending.call
  if owner.isExternal then
    some <$> linker.draftMatching owner.id pending.call.name signature pending.project
  else draftFind owner.id pending.call.name signature

/-- The path of the first file of a type. -/
def draftFilePath (type : TypeNode) : DraftM (Option String) :=
  match type.files.head? with
  | some file => do return some (← fileAt file).path
  | none => return none

/-- Reports a call without a target. -/
def draftUnresolved (callerType : TypeId) (owner : TypeNode) (pending : PendingCall) :
    DraftM Unit := do
  let project ← projectAt pending.project
  let filePath ← draftFilePath (← typeAt callerType)
  report (.unresolvedCall project.path filePath
    (owner.fullName ++ linker.separator.text ++ pending.call.name) (callSignature pending.call))

/-- **Links a call** that was set aside. -/
def draftCall (pending : PendingCall) : DraftM Unit := do
  let caller ← methodAt pending.caller
  let owner ← typeAt (← linker.draftOwner caller.containingType pending)
  let target ← linker.draftTarget owner pending
  if target.isNone then linker.draftUnresolved caller.containingType owner pending
  modifyMethod pending.caller fun node => { node with calls := node.calls ++ [{ target }] }

/-! ## All steps -/

/-- Links all calls that were set aside, in their order. -/
def draftCalls : DraftM Unit := do
  (← get).pending.toList.forM linker.draftCall

/-- The steps of a link run behind the listings. -/
def draftFacts (repo : RepositoryFact) : DraftM Unit := do
  let fragments ← linker.draftAll (sourceUnits repo)
  linker.draftNestAll fragments
  fragments.forM linker.draftMembers
  linker.draftCalls

/-- The state at the end of a link run, or the node that was not there. -/
def draftRun (repo : RepositoryFact) : Except ModelNode DraftState :=
  ((linker.draftFacts repo).run { model := linker.skeleton repo }).map Prod.snd

end FactGraph.Linker
