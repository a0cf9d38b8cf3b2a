import FactGraph.Linking.State
import FactGraph.Proofs.Linking.Draft.Contents

/-!
# Drafts

A draft of a model has every node of it, each with what it says it is contained in, and no list of
contents. A link run in draft keeps neither lists nor tables: a step looks at the nodes, or adds
one, or changes one. What holds of it is told by what happens to single nodes, and this is how
everything about link runs is proved. That the linker makes the model of the draft with all its
lists is shown on its own (`Linker.Trace.linkRun`).

## Main definitions

* `DraftState`, `DraftM`: a draft, the findings and the calls set aside
* `DraftM.require`, `DraftM.typeAt` and its like: following a handle
* `DraftM.addType` and its like: adding a node, which gets the next handle of its kind
-/

namespace FactGraph

/-- What is carried along in a link run in draft. -/
structure DraftState where
  model : ReferenceModel
  diagnostics : Diagnostics := {}
  pending : Array PendingCall := #[]

/-- A step of a link run in draft. It fails at a node that is not there. -/
abbrev DraftM := StateT DraftState (Except ModelNode)

namespace DraftM

/-- The model so far. -/
def model : DraftM ReferenceModel := do
  return (← get).model

/-- Changes the model. -/
def modifyModel (change : ReferenceModel → ReferenceModel) : DraftM Unit :=
  modify fun state => { state with model := change state.model }

/-- Reports a finding. -/
def report (diagnostic : Diagnostic) : DraftM Unit :=
  modify fun state => { state with diagnostics := state.diagnostics.push diagnostic }

/-- Sets a call aside. -/
def postpone (call : PendingCall) : DraftM Unit :=
  modify fun state => { state with pending := state.pending.push call }

/-! ## Following handles -/

/-- Ends the run unless the handle leads to a node. -/
def require {kind : NodeKind} (id : Handle kind) : DraftM Unit := do
  if (← model).hasHandle id then return else throw (.of id)

/-- What a handle leads to, if it leads to anything. -/
def orMissing {kind : NodeKind} {α : Type} (id : Handle kind) : Option α → DraftM α
  | some node => return node
  | none => throw (.of id)

/-- The project of a handle. -/
def projectAt (id : ProjectId) : DraftM ProjectNode := do
  orMissing id ((← model).project? id)

/-- The file of a handle. -/
def fileAt (id : FileId) : DraftM FileNode := do
  orMissing id ((← model).file? id)

/-- The type of a handle. -/
def typeAt (id : TypeId) : DraftM TypeNode := do
  orMissing id ((← model).type? id)

/-- The method of a handle. -/
def methodAt (id : MethodId) : DraftM MethodNode := do
  orMissing id ((← model).method? id)

/-! ## Adding nodes -/

/-- Adds a namespace. -/
def addNamespace (node : NamespaceId → NamespaceNode) : DraftM NamespaceId := do
  let id : NamespaceId := ⟨(← model).namespaces.size⟩
  modifyModel fun model => { model with namespaces := model.namespaces.push (node id) }
  return id

/-- Adds a type. -/
def addType (node : TypeId → TypeNode) : DraftM TypeId := do
  let id : TypeId := ⟨(← model).types.size⟩
  modifyModel fun model => { model with types := model.types.push (node id) }
  return id

/-- Adds a method. -/
def addMethod (node : MethodId → MethodNode) : DraftM MethodId := do
  let id : MethodId := ⟨(← model).methods.size⟩
  modifyModel fun model => { model with methods := model.methods.push (node id) }
  return id

/-- Adds a field. -/
def addField (node : FieldId → FieldNode) : DraftM Unit := do
  let id : FieldId := ⟨(← model).fields.size⟩
  modifyModel fun model => { model with fields := model.fields.push (node id) }

/-- Adds a property. -/
def addProperty (node : PropertyId → PropertyNode) : DraftM PropertyId := do
  let id : PropertyId := ⟨(← model).properties.size⟩
  modifyModel fun model => { model with properties := model.properties.push (node id) }
  return id

/-- Adds a parameter. -/
def addParameter (node : ParameterId → ParameterNode) : DraftM Unit := do
  let id : ParameterId := ⟨(← model).parameters.size⟩
  modifyModel fun model => { model with parameters := model.parameters.push (node id) }

/-- Adds a local variable. -/
def addLocalVariable (node : LocalVariableId → LocalVariableNode) : DraftM Unit := do
  let id : LocalVariableId := ⟨(← model).localVariables.size⟩
  modifyModel fun model => { model with localVariables := model.localVariables.push (node id) }

/-! ## Changing nodes -/

/-- Changes a type. -/
def modifyType (id : TypeId) (change : TypeNode → TypeNode) : DraftM Unit := do
  require id
  modifyModel fun model => { model with types := model.types.modify id.idx change }

/-- Changes a method. -/
def modifyMethod (id : MethodId) (change : MethodNode → MethodNode) : DraftM Unit := do
  require id
  modifyModel fun model => { model with methods := model.methods.modify id.idx change }

/-- Changes a file. -/
def modifyFile (id : FileId) (change : FileNode → FileNode) : DraftM Unit := do
  require id
  modifyModel fun model => { model with files := model.files.modify id.idx change }

end DraftM

end FactGraph
