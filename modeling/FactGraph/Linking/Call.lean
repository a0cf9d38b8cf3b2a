import FactGraph.Graph.BreadthFirst
import FactGraph.Linking.TypeLink

/-!
# Linking calls

A call names its owner, a method and the parameter types. On a declared owner it is linked to a
method or constructor with that name and exactly these parameter types, of the owner or of the
nearest type that it inherits from, as far as declared types go. If there is none, the call has no
target, which is reported. On an external owner there is always a target: a synthetic method,
which is made when the signature is first called.

## Main definitions

* `Linker.findMethod`: the method of a declared type that a call matches
* `Linker.ensureSynthetic`: the method of an external type that a call matches
* `Linker.linkCall`: links a call that was set aside
-/

namespace FactGraph.Linker

open LinkM

variable (linker : Linker)

/-! ## Signatures -/

/-- The method has that name and exactly these parameter types. -/
def matchesSignature (name : String) (parameterTypes : List String) (method : MethodId) :
    LinkM Bool := do
  let node ← methodAt method
  if node.name = name && node.parameters.length = parameterTypes.length then
    let parameters ← node.parameters.mapM parameterAt
    return parameters.map (fun parameter => parameter.typeLink.name) = parameterTypes
  else return false

/-- The first of the methods with that name and these parameter types. -/
def firstMatching (name : String) (parameterTypes : List String) :
    List MethodId → LinkM (Option MethodId)
  | [] => return none
  | method :: methods => do
    if ← matchesSignature name parameterTypes method then return some method
    else firstMatching name parameterTypes methods

/-! ## Declared owners -/

/-- The base types of a declared type. The search ends at external types. -/
def declaredBases (model : ReferenceModel) (type : TypeId) : List TypeId :=
  match model.type? type with
  | some node => if node.isExternal then [] else node.baseTargets
  | none => []

/-- A type and the types that it inherits from, in the order of a breadth-first search. -/
def inheritanceOrder (model : ReferenceModel) (type : TypeId) : List TypeId :=
  type :: (BreadthFirst.search (declaredBases model) model.types.size type).map
    BreadthFirst.Visit.node

/-- The method or constructor of one type that a call matches. An external type has none. -/
def ownOverload (name : String) (parameterTypes : List String) (node : TypeNode) :
    LinkM (Option MethodId) :=
  if node.isExternal then return none
  else firstMatching name parameterTypes (node.methods ++ node.constructors)

/-- The first method or constructor of these types that a call matches. -/
def firstOverload (name : String) (parameterTypes : List String) :
    List TypeId → LinkM (Option MethodId)
  | [] => return none
  | type :: types => do
    match ← ownOverload name parameterTypes (← typeAt type) with
    | some method => return some method
    | none => firstOverload name parameterTypes types

/-- **The method that a call of a declared type matches**, of the type itself or of the nearest
one that it inherits from. -/
def findMethod (owner : TypeId) (name : String) (parameterTypes : List String) :
    LinkM (Option MethodId) := do
  firstOverload name parameterTypes (inheritanceOrder (← model) owner)

/-! ## External owners -/

/-- Makes a parameter of a method of an external type. Its type is linked as far as it is there
already. -/
def addStubParameter (method : MethodId) (project : ProjectId) (parameterType : String) :
    LinkM Unit := do
  let id ← nextHandle .parameter
  let typeLink ← linker.existingLink project (TypeName.parse parameterType)
  addParameter { id, name := "", typeLink, containingMethod := method }

/-- Makes a method of an external type. -/
def addSynthetic (owner : TypeId) (name : String) (parameterTypes : List String)
    (project : ProjectId) : LinkM MethodId := do
  let method ← nextHandle .method
  addMethod { id := method, name, kind := .method, containingType := owner, isSynthetic := true }
  parameterTypes.forM (linker.addStubParameter method project)
  modifyType owner fun node => { node with methods := node.methods ++ [method] }
  return method

/-- **The method that a call of an external type matches**, which is made when the signature is
first called. -/
def ensureSynthetic (owner : TypeId) (name : String) (parameterTypes : List String)
    (project : ProjectId) : LinkM MethodId := do
  match ← firstMatching name parameterTypes (← typeAt owner).methods with
  | some method => return method
  | none => linker.addSynthetic owner name parameterTypes project

/-! ## Calls -/

/-- The canonical names of the parameter types of a call. -/
def callSignature (call : CallFact) : List String :=
  call.parameterTypes.map fun ref => (TypeName.parse ref.fullName).render

/-- The owner of a call: the type it names, or the type of the calling method. -/
def callOwner (callerType : TypeId) (pending : PendingCall) : LinkM TypeId :=
  let owner := TypeName.parse pending.call.containingType
  -- A method belongs to the type of the base, whatever its arguments are.
  if owner.base = "" then return callerType else linker.typeFor owner.base pending.project

/-- The target of a call of an owner. -/
def callTarget (owner : TypeId) (pending : PendingCall) : LinkM (Option MethodId) := do
  let signature := callSignature pending.call
  if (← typeAt owner).isExternal then
    some <$> linker.ensureSynthetic owner pending.call.name signature pending.project
  else findMethod owner pending.call.name signature

/-- The path of the first file of a type. -/
def firstFilePath (type : TypeNode) : LinkM (Option String) :=
  match type.files.head? with
  | some file => do return some (← fileAt file).path
  | none => return none

/-- Reports a call without a target. -/
def reportUnresolved (callerType owner : TypeId) (pending : PendingCall) : LinkM Unit := do
  let fullName := (← typeAt owner).fullName
  let caller ← typeAt callerType
  let project ← projectAt pending.project
  let filePath ← firstFilePath caller
  report (.unresolvedCall project.path filePath
    (fullName ++ linker.separator.text ++ pending.call.name) (callSignature pending.call))

/-- **Links a call** that was set aside. -/
def linkCall (pending : PendingCall) : LinkM Unit := do
  let caller ← methodAt pending.caller
  let owner ← linker.callOwner caller.containingType pending
  let target ← linker.callTarget owner pending
  if target.isNone then linker.reportUnresolved caller.containingType owner pending
  -- A call without a target has its edge all the same.
  modifyMethod pending.caller fun node => { node with calls := node.calls ++ [{ target }] }

end FactGraph.Linker
