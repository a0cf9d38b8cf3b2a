import FactGraph.Linking.Member
import FactGraph.Proofs.Linking.Draft.Lists
import FactGraph.Proofs.Linking.Draft.State
import FactGraph.Proofs.Linking.Draft.Tables

/-!
# What a state of the linker says of a draft

A state of the linker has more in it than a draft: tables, and lists of members. Both are settled by
the nodes, so a state realizes a draft if its nodes are those of the draft, its tables say what the
nodes say, and its lists are those of all members but the methods that wait. Here is how each change
of a state that adds or changes a node is one of the draft as well.

## Main definitions

* `WaitingMethod`, `WaitingMethod.Waits`: a method that is not entered yet, and what the methods
  made after it are
* `LinkState.Realizes`: a state of the linker realizes a draft

## Main results

* `Realizes.pushField` and its like: a node is added
* `Realizes.pushMethod`, `Realizes.enter`: a method is added, and entered later
* `Realizes.modifyType`, `Realizes.addCall`: a node is changed
-/

namespace FactGraph

/-! ## Methods that wait -/

/-- A method that has been made, and is not entered yet in what it belongs to. -/
structure WaitingMethod where
  id : MethodId
  type : TypeId
  owner : MethodOwner

/-- A method is directly in its type, or is an accessor of a property, or is a local function of
another method. -/
def MethodOwner.Fits (owner : MethodOwner) : Prop :=
  match owner.kind with
  | .accessor => owner.containingMethod = none ∧ owner.containingProperty.isSome
  | .localFunction => owner.containingProperty = none ∧ owner.containingMethod.isSome
  | _ => owner.containingMethod = none ∧ owner.containingProperty = none

/-- The method is a local function of this one, or of a later method. -/
def MethodOwner.IsInside (owner : MethodOwner) (id : MethodId) : Prop :=
  owner.kind = .localFunction ∧ owner.containingProperty = none ∧
    ∃ outer, owner.containingMethod = some outer ∧ id.idx ≤ outer.idx

/-- **A method waits**: it is there, and all later ones are inside of it. If it is a destructor, it
is the only one of its type. -/
structure WaitingMethod.Waits (waiting : WaitingMethod) (model : ReferenceModel) : Prop where
  method? : ∃ node, model.method? waiting.id = some node ∧
    node.containingType = waiting.type ∧ node.owner = waiting.owner
  fits : waiting.owner.Fits
  older : ∀ outer, waiting.owner.containingMethod = some outer → outer.idx < waiting.id.idx
  later : ∀ i node, model.methods[i]? = some node → waiting.id.idx < i →
    node.owner.IsInside waiting.id
  only : waiting.owner.kind = .destructor → ∀ node ∈ model.methods, node.kind = .destructor →
    node.containingType = waiting.type → node.id = waiting.id

namespace WaitingMethod

variable {waiting : WaitingMethod} {model model' : ReferenceModel}

theorem Waits.hasHandle (h : waiting.Waits model) : model.hasHandle waiting.id := by
  obtain ⟨node, hnode, -⟩ := h.method?
  exact ReferenceModel.hasHandle_of_method hnode

/-- A method still waits when one is added inside of it. -/
theorem Waits.push (h : waiting.Waits model) {node : MethodNode}
    (hinside : node.owner.IsInside waiting.id)
    (hmethods : model'.methods = model.methods.push node) : waiting.Waits model' where
  method? := by
    obtain ⟨own, hown, hplace⟩ := h.method?
    refine ⟨own, ?_, hplace⟩
    rw [ReferenceModel.method?, hmethods,
      Array.getElem?_push_lt (of_decide_eq_true (ReferenceModel.hasHandle_of_method hown))]
    exact (Array.getElem?_eq_getElem _).symm.trans hown
  fits := h.fits
  older := h.older
  later i other hother hlt := by
    rw [hmethods, Array.getElem?_push] at hother
    split at hother
    · cases hother
      exact hinside
    · exact h.later i other hother hlt
  only hkind other hother hdestructor htype := by
    rw [hmethods] at hother
    rcases Array.mem_push.1 hother with hother | rfl
    · exact h.only hkind other hother hdestructor htype
    · exact absurd (hinside.1.symm.trans hdestructor) (by decide)

theorem Waits.congr (h : waiting.Waits model) (hmethods : model'.methods = model.methods) :
    waiting.Waits model' where
  method? := by
    rw [ReferenceModel.method?, hmethods]
    exact h.method?
  fits := h.fits
  older := h.older
  later := by
    rw [hmethods]
    exact h.later
  only := by
    rw [hmethods]
    exact h.only

end WaitingMethod

/-! ## States -/

/-- **A state of the linker realizes a draft**: it has the nodes of the draft, the tables and the
lists of these nodes, but for the methods that wait, and the same findings and calls. The nodes of
the draft are in order, and some of them are known to be there. -/
structure LinkState.Realizes (full : LinkState) (waiting : List WaitingMethod)
    (known : List ModelNode) (s : DraftState) : Prop where
  model : full.model = s.model.listed (waiting.map WaitingMethod.id)
  tables : full.tables.InStep s.model
  members : full.members = s.model.solutions.toList.map SolutionNode.projects
  diagnostics : full.diagnostics = s.diagnostics
  pending : full.pending = s.pending
  numbered : s.model.Numbered
  housed : s.model.Housed
  external : ∀ node ∈ s.model.types, node.isExternal = node.project.isNone
  waits : ∀ method ∈ waiting, method.Waits s.model
  ordered : waiting.Pairwise fun method other => other.id.idx < method.id.idx
  known : ∀ node ∈ known, s.model.contains node

namespace LinkState.Realizes

variable {full : LinkState} {waiting : List WaitingMethod} {known : List ModelNode}
  {s : DraftState}

theorem count (h : full.Realizes waiting known s) (kind : NodeKind) :
    full.model.count kind = s.model.count kind := by
  rw [h.model, ReferenceModel.listed_count]

theorem hasHandle (h : full.Realizes waiting known s) {kind : NodeKind} (id : Handle kind) :
    full.model.hasHandle id = s.model.hasHandle id := by
  rw [h.model, ReferenceModel.listed_hasHandle]

/-- One more node that is there is known. -/
theorem know (h : full.Realizes waiting known s) {kind : NodeKind} {id : Handle kind}
    (hid : s.model.hasHandle id) : full.Realizes waiting (.of id :: known) s :=
  { h with known := List.forall_mem_cons.2 ⟨hid, h.known⟩ }

theorem forget (h : full.Realizes waiting known s) {others : List ModelNode}
    (hsubset : others ⊆ known) : full.Realizes waiting others s :=
  { h with known := fun node hnode => h.known node (hsubset hnode) }

/-! ### Findings and calls -/

theorem report (h : full.Realizes waiting known s) (finding : Diagnostic) :
    { full with diagnostics := full.diagnostics.push finding }.Realizes waiting known
      { s with diagnostics := s.diagnostics.push finding } :=
  { h with diagnostics := congrArg (·.push finding) h.diagnostics }

theorem postpone (h : full.Realizes waiting known s) (call : PendingCall) :
    { full with pending := full.pending.push call }.Realizes waiting known
      { s with pending := s.pending.push call } :=
  { h with pending := congrArg (·.push call) h.pending }

/-! ### Nodes that are added -/

/-- **A draft grows**, and the state of the linker with it. The methods stay as they are. -/
theorem grow (h : full.Realizes waiting known s) {larger listed : ReferenceModel}
    {tables : LinkTables} (hgrows : s.model.Grows larger)
    (hmodel : listed = larger.listed (waiting.map WaitingMethod.id))
    (htables : tables.InStep larger) (hsolutions : larger.solutions = s.model.solutions)
    (hhoused : larger.Housed)
    (hexternal : ∀ node ∈ larger.types, node.isExternal = node.project.isNone)
    (hmethods : larger.methods = s.model.methods) :
    { full with model := listed, tables }.Realizes waiting known { s with model := larger } :=
  { h with
    model := hmodel
    tables := htables
    members := h.members.trans (by rw [hsolutions])
    numbered := hgrows.numbered h.numbered
    housed := hhoused
    external := hexternal
    waits := fun method hmethod => (h.waits method hmethod).congr hmethods
    known := fun node hnode => ReferenceModel.contains_mono hgrows.count_le (h.known node hnode) }

/-- A field is added, and entered in its type. -/
theorem pushField (h : full.Realizes waiting known s) {node : FieldNode}
    (hid : node.id = ⟨s.model.count .field⟩) (htype : s.model.hasHandle node.containingType) :
    { full with model := { full.model with
        fields := full.model.fields.push node
        types := full.model.types.modify node.containingType.idx fun type =>
          { type with fields := type.fields ++ [node.id] } } }.Realizes waiting known
      { s with model := { s.model with fields := s.model.fields.push node } } := by
  have hgrows := ReferenceModel.grows_pushField hid
  refine h.grow hgrows ?_ (h.tables.congr rfl rfl rfl) rfl ?_ h.external rfl
  · rw [h.model]
    exact (ReferenceModel.listed_pushField h.numbered node).symm
  · have hold := h.housed.mono hgrows.count_le
    have hthere := ReferenceModel.hasHandle_mono hgrows.count_le htype
    exact { hold with fields := Array.forall_mem_push.2 ⟨hthere, hold.fields⟩ }

/-- A property is added, and entered in its type. -/
theorem pushProperty (h : full.Realizes waiting known s) {node : PropertyNode}
    (hid : node.id = ⟨s.model.count .property⟩) (hnew : { node with accessors := [] } = node)
    (htype : s.model.hasHandle node.containingType) :
    { full with model := { full.model with
        properties := full.model.properties.push node
        types := full.model.types.modify node.containingType.idx fun type =>
          { type with properties := type.properties ++ [node.id] } } }.Realizes waiting known
      { s with model := { s.model with properties := s.model.properties.push node } } := by
  have hgrows := ReferenceModel.grows_pushProperty hid
  refine h.grow hgrows ?_ (h.tables.congr rfl rfl rfl) rfl ?_ h.external rfl
  · rw [h.model]
    exact (ReferenceModel.listed_pushProperty h.numbered h.housed hid hnew).symm
  · have hold := h.housed.mono hgrows.count_le
    have hthere := ReferenceModel.hasHandle_mono hgrows.count_le htype
    exact { hold with properties := Array.forall_mem_push.2 ⟨hthere, hold.properties⟩ }

/-- A parameter is added, and entered in its method. -/
theorem pushParameter (h : full.Realizes waiting known s) {node : ParameterNode}
    (hid : node.id = ⟨s.model.count .parameter⟩)
    (hmethod : s.model.hasHandle node.containingMethod) :
    { full with model := { full.model with
        parameters := full.model.parameters.push node
        methods := full.model.methods.modify node.containingMethod.idx fun method =>
          { method with parameters := method.parameters ++ [node.id] } } }.Realizes waiting known
      { s with model := { s.model with parameters := s.model.parameters.push node } } := by
  have hgrows := ReferenceModel.grows_pushParameter hid
  refine h.grow hgrows ?_ (h.tables.congr rfl rfl rfl) rfl ?_ h.external rfl
  · rw [h.model]
    exact (ReferenceModel.listed_pushParameter h.numbered node).symm
  · have hold := h.housed.mono hgrows.count_le
    have hthere := ReferenceModel.hasHandle_mono hgrows.count_le hmethod
    exact { hold with parameters := Array.forall_mem_push.2 ⟨hthere, hold.parameters⟩ }

/-- A local variable is added, and entered in its method. -/
theorem pushLocalVariable (h : full.Realizes waiting known s) {node : LocalVariableNode}
    (hid : node.id = ⟨s.model.count .localVariable⟩)
    (hmethod : s.model.hasHandle node.containingMethod) :
    { full with model := { full.model with
        localVariables := full.model.localVariables.push node
        methods := full.model.methods.modify node.containingMethod.idx fun method =>
          { method with localVariables := method.localVariables ++ [node.id] } } }.Realizes
        waiting known
      { s with model := { s.model with localVariables := s.model.localVariables.push node } } := by
  have hgrows := ReferenceModel.grows_pushLocalVariable hid
  refine h.grow hgrows ?_ (h.tables.congr rfl rfl rfl) rfl ?_ h.external rfl
  · rw [h.model]
    exact (ReferenceModel.listed_pushLocalVariable h.numbered node).symm
  · have hold := h.housed.mono hgrows.count_le
    have hthere := ReferenceModel.hasHandle_mono hgrows.count_le hmethod
    exact { hold with localVariables := Array.forall_mem_push.2 ⟨hthere, hold.localVariables⟩ }

/-- A namespace is added that its project does not have yet. -/
theorem pushNamespace (h : full.Realizes waiting known s) {node : NamespaceNode}
    (hid : node.id = ⟨s.model.count .space⟩)
    (hnew : { node with children := [], types := [] } = node)
    (hfresh : Linker.findNamespace? s.model node.project node.fullName = none) :
    { full with
      model := { full.model with namespaces := full.model.namespaces.push node }
      tables := { full.tables with
        namespaces :=
          ((node.project, node.fullName), node.id) :: full.tables.namespaces } }.Realizes
        waiting known
      { s with model := { s.model with namespaces := s.model.namespaces.push node } } := by
  have hgrows := ReferenceModel.grows_pushNamespace hid
  refine h.grow hgrows ?_ (h.tables.pushNamespace hid hfresh) rfl
    { h.housed.mono hgrows.count_le with } h.external rfl
  rw [h.model]
  exact (ReferenceModel.listed_pushNamespace hnew).symm

/-- The first declaration of a type is added. -/
theorem pushDeclared (h : full.Realizes waiting known s) {project : ProjectId} {node : TypeNode}
    (hid : node.id = ⟨s.model.count .type⟩)
    (hnew : { node with
      nestedTypes := [], fields := [], properties := [], methods := [], constructors := []
      destructor := none } = node)
    (hproject : node.project = some project) (hexternal : node.isExternal = false)
    (hfresh : Linker.findFragments? s.model project node.fullName node.isPartial = none) :
    { full with
      model := { full.model with types := full.model.types.push node }
      tables := { full.tables with
        declared := full.tables.declared.push node.fullName (project, node.id)
        merged := ((project, node.fullName, node.isPartial), node.id) ::
          full.tables.merged } }.Realizes waiting known
      { s with model := { s.model with types := s.model.types.push node } } := by
  have hgrows := ReferenceModel.grows_pushType hid
  refine h.grow hgrows ?_ (h.tables.pushDeclared hid hproject hexternal hfresh) rfl
    { h.housed.mono hgrows.count_le with } (fun type htype => ?_) rfl
  · rw [h.model]
    refine Eq.trans ?_ (ReferenceModel.listed_pushType h.housed hid hnew).symm
    rw [hexternal, if_neg (by simp), List.append_nil]
  · rcases Array.mem_push.1 htype with htype | rfl
    · exact h.external type htype
    · rw [hexternal, hproject, Option.isNone_some]

/-- An external type is added that is not there yet. -/
theorem pushExternal (h : full.Realizes waiting known s) {node : TypeNode}
    (hid : node.id = ⟨s.model.count .type⟩)
    (hnew : { node with
      nestedTypes := [], fields := [], properties := [], methods := [], constructors := []
      destructor := none } = node)
    (hproject : node.project = none) (hexternal : node.isExternal = true)
    (hfresh : Linker.findExternal? s.model node.fullName = none) :
    { full with
      model := { full.model with
        types := full.model.types.push node
        createdClasses := full.model.createdClasses ++ [node.id] }
      tables := { full.tables with
        externals := (node.fullName, node.id) :: full.tables.externals } }.Realizes waiting known
      { s with model := { s.model with types := s.model.types.push node } } := by
  have hgrows := ReferenceModel.grows_pushType hid
  refine h.grow hgrows ?_ (h.tables.pushExternal hid hproject hexternal hfresh) rfl
    { h.housed.mono hgrows.count_le with } (fun type htype => ?_) rfl
  · rw [h.model]
    refine Eq.trans ?_ (ReferenceModel.listed_pushType h.housed hid hnew).symm
    rw [if_pos hexternal]
  · rcases Array.mem_push.1 htype with htype | rfl
    · exact h.external type htype
    · rw [hexternal, hproject, Option.isNone_none]

/-! ### Methods -/

/-- A method is added, and waits to be entered. It is inside of all methods that wait already. -/
theorem pushMethod (h : full.Realizes waiting known s) {node : MethodNode}
    (hid : node.id = ⟨s.model.count .method⟩)
    (hnew : { node with parameters := [], localVariables := [], localFunctions := [] } = node)
    (hfits : node.owner.Fits) (htype : s.model.hasHandle node.containingType)
    (hproperty : ∀ id, node.containingProperty = some id → s.model.hasHandle id)
    (houter : ∀ id, node.containingMethod = some id → s.model.hasHandle id)
    (hinside : ∀ method ∈ waiting, node.owner.IsInside method.id)
    (honly : node.kind = .destructor → Linker.hasDestructor s.model node.containingType = false) :
    { full with model := { full.model with methods := full.model.methods.push node } }.Realizes
      (⟨node.id, node.containingType, node.owner⟩ :: waiting) (.of node.id :: known)
      { s with model := { s.model with methods := s.model.methods.push node } } := by
  have hgrows := ReferenceModel.grows_pushMethod hid
  have hold := h.housed.mono hgrows.count_le
  have hkept {kind : NodeKind} {id : Handle kind} (hid : s.model.hasHandle id) :
      { s.model with methods := s.model.methods.push node }.hasHandle id :=
    ReferenceModel.hasHandle_mono hgrows.count_le hid
  have hsize : node.id.idx = s.model.methods.size := by
    rw [hid]
    rfl
  have hwaits : WaitingMethod.Waits ⟨node.id, node.containingType, node.owner⟩
      { s.model with methods := s.model.methods.push node } := by
    refine ⟨⟨node, ?_, rfl, rfl⟩, hfits, fun outer hother => ?_, fun i other hother hlt => ?_,
      fun hkind other hother hdestructor hsame => ?_⟩
    · rw [ReferenceModel.method?, hsize]
      exact Array.getElem?_push_size
    · rw [hsize]
      exact of_decide_eq_true (houter outer hother)
    · have hbound := (Array.getElem?_eq_some_iff.1 hother).1
      rw [Array.size_push] at hbound
      dsimp only at hlt
      omega
    · rcases Array.mem_push.1 hother with hother | rfl
      · have hnone := honly hkind
        rw [Linker.hasDestructor, Array.any_eq_false'] at hnone
        exact absurd (by simp [hdestructor, hsame]) (hnone other hother)
      · rfl
  exact { h with
    model := by
      rw [h.model]
      exact (ReferenceModel.listed_pushMethod h.numbered h.housed hid hnew).symm
    tables := h.tables.congr rfl rfl rfl
    numbered := hgrows.numbered h.numbered
    housed := { hold with
      methods := Array.forall_mem_push.2 ⟨hkept htype, hold.methods⟩
      localFunctions := Array.forall_mem_push.2
        ⟨fun id hid => hkept (houter id hid), hold.localFunctions⟩
      accessors := Array.forall_mem_push.2
        ⟨fun id hid => hkept (hproperty id hid), hold.accessors⟩ }
    waits := by
      refine List.forall_mem_cons.2 ⟨hwaits, fun method hmethod => ?_⟩
      exact (h.waits method hmethod).push (hinside method hmethod) rfl
    ordered := by
      refine List.pairwise_cons.2 ⟨fun method hmethod => ?_, h.ordered⟩
      dsimp only
      rw [hsize]
      exact of_decide_eq_true (h.waits method hmethod).hasHandle
    known := by
      refine List.forall_mem_cons.2 ⟨hwaits.hasHandle, fun node hnode => ?_⟩
      exact ReferenceModel.contains_mono hgrows.count_le (h.known node hnode) }

/-- The last one of the methods that wait, and what is after it. -/
theorem waits_head {method : WaitingMethod} (h : full.Realizes (method :: waiting) known s) :
    method.Waits s.model ∧ method.id ∉ waiting.map WaitingMethod.id := by
  refine ⟨h.waits method (by simp), fun hmem => ?_⟩
  obtain ⟨other, hother, heq⟩ := List.mem_map.1 hmem
  have hlt := List.rel_of_pairwise_cons h.ordered hother
  rw [heq] at hlt
  exact Nat.lt_irrefl _ hlt

/-- A method is entered: the state of the linker has changed as its lists do. -/
theorem enter {method : WaitingMethod} (h : full.Realizes (method :: waiting) known s)
    {model : ReferenceModel} (hmodel : model = s.model.listed (waiting.map WaitingMethod.id)) :
    { full with model }.Realizes waiting known s :=
  { h with
    model := hmodel
    waits := fun other hother => h.waits other (List.mem_cons_of_mem _ hother)
    ordered := h.ordered.of_cons }

/-! ### Nodes that are changed -/

/-- A type is changed behind its header, and apart from its members. -/
theorem modifyType (h : full.Realizes waiting known s) {change : TypeNode → TypeNode}
    (id : TypeId) (hheader : ∀ node, (change node).header = node.header)
    (hlists : ∀ node, s.model.listType (waiting.map WaitingMethod.id) (change node) =
      change (s.model.listType (waiting.map WaitingMethod.id) node)) :
    { full with model := { full.model with
        types := full.model.types.modify id.idx change } }.Realizes waiting known
      { s with model := { s.model with types := s.model.types.modify id.idx change } } := by
  have hid (node : TypeNode) : (change node).id = node.id :=
    (congrArg TypeNode.id (hheader node) :)
  have hexternal (node : TypeNode) : (change node).isExternal = node.isExternal :=
    (congrArg TypeNode.isExternal (hheader node) :)
  have hproject (node : TypeNode) : (change node).project = node.project :=
    (congrArg TypeNode.project (hheader node) :)
  have hgrows := @ReferenceModel.grows_modifyType s.model id.idx change hid
  refine h.grow hgrows ?_ (h.tables.modifyType id.idx hheader) rfl
    { h.housed.mono hgrows.count_le with } (fun node hnode => ?_) rfl
  · rw [h.model]
    exact (ReferenceModel.listed_modifyType id hexternal hid hlists).symm
  · obtain ⟨i, hi⟩ := Array.mem_iff_getElem?.1 hnode
    rw [Array.getElem?_modify] at hi
    split at hi
    · obtain ⟨old, hold, rfl⟩ := Option.map_eq_some_iff.1 hi
      rw [hexternal, hproject]
      exact h.external old (Array.mem_of_getElem? hold)
    · exact h.external node (Array.mem_of_getElem? hi)

/-- A file is changed apart from its handle. -/
theorem modifyFile (h : full.Realizes waiting known s) {change : FileNode → FileNode}
    (id : FileId) (hid : ∀ node, (change node).id = node.id) :
    { full with model := { full.model with
        files := full.model.files.modify id.idx change } }.Realizes waiting known
      { s with model := { s.model with files := s.model.files.modify id.idx change } } := by
  have hgrows := @ReferenceModel.grows_modifyFile s.model id.idx change hid
  refine h.grow hgrows ?_ (h.tables.congr rfl rfl rfl) rfl
    { h.housed.mono hgrows.count_le with } h.external rfl
  rw [h.model]
  rfl

/-- A method gets a further call. Methods do not wait any more then. -/
theorem addCall (h : full.Realizes [] known s) (id : MethodId) (edge : CallEdge) :
    { full with model := { full.model with
        methods := full.model.methods.modify id.idx fun node =>
          { node with calls := node.calls ++ [edge] } } }.Realizes [] known
      { s with model := { s.model with
        methods := s.model.methods.modify id.idx fun node =>
          { node with calls := node.calls ++ [edge] } } } := by
  have hgrows := @ReferenceModel.grows_modifyMethod s.model id.idx
    (fun node => { node with calls := node.calls ++ [edge] }) fun _ => rfl
  have hold : ∀ node ∈ s.model.methods.modify id.idx (fun node =>
      { node with calls := node.calls ++ [edge] }), ∃ old ∈ s.model.methods,
        node.containingType = old.containingType ∧ node.containingMethod = old.containingMethod ∧
          node.containingProperty = old.containingProperty := by
    intro node hnode
    obtain ⟨i, hi⟩ := Array.mem_iff_getElem?.1 hnode
    rw [Array.getElem?_modify] at hi
    split at hi
    · obtain ⟨old, hold, rfl⟩ := Option.map_eq_some_iff.1 hi
      exact ⟨old, Array.mem_of_getElem? hold, rfl, rfl, rfl⟩
    · exact ⟨node, Array.mem_of_getElem? hi, rfl, rfl, rfl⟩
  exact { h with
    model := by
      rw [h.model]
      exact (ReferenceModel.listed_addCall id edge).symm
    tables := h.tables.congr rfl rfl rfl
    numbered := hgrows.numbered h.numbered
    housed := { h.housed.mono hgrows.count_le with
      methods := by
        intro node hnode
        obtain ⟨old, hmem, htype, -⟩ := hold node hnode
        exact ReferenceModel.hasHandle_mono hgrows.count_le (htype ▸ h.housed.methods old hmem)
      localFunctions := by
        intro node hnode outer houter
        obtain ⟨old, hmem, -, hsame, -⟩ := hold node hnode
        exact ReferenceModel.hasHandle_mono hgrows.count_le
          (h.housed.localFunctions old hmem outer (hsame ▸ houter))
      accessors := by
        intro node hnode property hproperty
        obtain ⟨old, hmem, -, -, hsame⟩ := hold node hnode
        exact ReferenceModel.hasHandle_mono hgrows.count_le
          (h.housed.accessors old hmem property (hsame ▸ hproperty)) }
    waits := by simp
    known := fun node hnode => ReferenceModel.contains_mono hgrows.count_le (h.known node hnode) }

end LinkState.Realizes

end FactGraph
