import FactGraph.Proofs.Linking.Arranged

/-!
# Upward and downward containment agree

A linked model can be walked in both directions: every node says what it is contained in, and has
lists of what it contains. A run enters members where it makes them, and files, namespaces and types
at its end. It leaves out none and enters none twice, so its lists are those that can be read off
the upward links (`Trace.link`), and say exactly the same: what a node says it is in lists it once,
and nothing else does.

## Main definitions

* `Mirror`: upward links and lists of contents are inverses
* `ReferenceModel.Contained`: they are so for every kind of content, and the upward links fit

## Main results

* `Mirror.of_handlesWhere`: lists that can be read off upward links are their inverse
* `link_contained`: a linked model is contained
-/

namespace FactGraph

open ReferenceModel (handlesWhere mem_handlesWhere)

/-- **Upward and downward links are inverses.** The upward link `holder?` of a node leads to a
holder; the list `contents` of a holder has just the nodes whose upward link leads to it, each
once. -/
structure Mirror {α β : Type} {kind holderKind : NodeKind} (holders : Array α)
    (contents : α → List (Handle kind)) (nodes : Array β)
    (holder? : β → Option (Handle holderKind)) : Prop where
  up : ∀ node ∈ nodes, ∀ id, holder? node = some id → id.idx < holders.size
  once : ∀ holder ∈ holders, (contents holder).Nodup
  listed : ∀ i holder, holders[i]? = some holder → ∀ id, id ∈ contents holder ↔
    ∃ node, nodes[id.idx]? = some node ∧ holder? node = some ⟨i⟩

section Mirror

variable {α β : Type} {kind holderKind : NodeKind} {holders : Array α} {nodes nodes' : Array β}
  {holderId : α → Handle holderKind} {nodeId : β → Handle kind}
  {contents : α → List (Handle kind)} {holder? : β → Option (Handle holderKind)}

theorem idx_of_numbered (hnodes : nodes.toList.map nodeId = (List.range nodes.size).map Handle.mk)
    {i : Nat} {node : β} (hnode : nodes[i]? = some node) : nodeId node = ⟨i⟩ := by
  have hlt := (Array.getElem?_eq_some_iff.1 hnode).1
  have hget : (nodes.toList.map nodeId)[i]? = some (nodeId node) := by
    rw [List.getElem?_map, Array.getElem?_toList, hnode]
    rfl
  rw [hnodes, List.getElem?_map, List.getElem?_range hlt] at hget
  exact (Option.some.inj hget).symm

theorem nodup_of_numbered
    (hnodes : nodes.toList.map nodeId = (List.range nodes.size).map Handle.mk)
    (condition : β → Bool) : (handlesWhere nodes condition nodeId).Nodup := by
  have hall : (nodes.toList.map nodeId).Nodup := by
    rw [hnodes]
    exact List.nodup_range.map fun i j hij => congrArg Handle.idx hij
  exact hall.sublist (List.filter_sublist.map nodeId)

/-- **Lists that can be read off upward links are their inverse.** Adding the lists changes neither
the handles nor the upward links. -/
theorem Mirror.of_handlesWhere {wireHolder : α → α} (wireNode : β → β)
    (hholders : holders.toList.map holderId = (List.range holders.size).map Handle.mk)
    (hnodes : nodes.toList.map nodeId = (List.range nodes.size).map Handle.mk)
    (hwire : ∀ i : Nat, nodes'[i]? = nodes[i]?.map wireNode)
    (hkept : ∀ node, holder? (wireNode node) = holder? node)
    (hcontents : ∀ holder ∈ holders, contents (wireHolder holder) =
      handlesWhere nodes (fun node => holder? node = some (holderId holder)) nodeId)
    (hup : ∀ node ∈ nodes, ∀ id, holder? node = some id → id.idx < holders.size) :
    Mirror (holders.map wireHolder) contents nodes' holder? := by
  constructor
  · intro node hnode id hid
    obtain ⟨i, hi⟩ := Array.mem_iff_getElem?.1 hnode
    rw [hwire, Option.map_eq_some_iff] at hi
    obtain ⟨old, hold, rfl⟩ := hi
    rw [hkept] at hid
    rw [Array.size_map]
    exact hup old (Array.mem_of_getElem? hold) id hid
  · intro holder hholder
    obtain ⟨old, hold, rfl⟩ := Array.mem_map.1 hholder
    rw [hcontents old hold]
    exact nodup_of_numbered hnodes _
  -- Up and down: a holder lists exactly the nodes that name it.
  · intro i holder hholder id
    rw [Array.getElem?_map, Option.map_eq_some_iff] at hholder
    obtain ⟨old, hold, rfl⟩ := hholder
    rw [hcontents old (Array.mem_of_getElem? hold), mem_handlesWhere,
      idx_of_numbered hholders hold]
    simp only [decide_eq_true_eq, hwire, Option.map_eq_some_iff]
    constructor
    · rintro ⟨node, hnode, hin, rfl⟩
      obtain ⟨j, hj⟩ := Array.mem_iff_getElem?.1 hnode
      rw [idx_of_numbered hnodes hj]
      exact ⟨_, ⟨node, hj, rfl⟩, (hkept node).trans hin⟩
    · rintro ⟨_, ⟨node, hnode, rfl⟩, hin⟩
      exact ⟨node, Array.mem_of_getElem? hnode, (hkept node).symm.trans hin,
        idx_of_numbered hnodes hnode⟩

end Mirror

/-! ## Holders -/

/-- The type of a method that was declared as the given kind. -/
def MethodNode.typeIf (kind : MethodKind) (node : MethodNode) : Option TypeId :=
  if node.kind = kind then some node.containingType else none

/-- The property of an accessor. -/
def MethodNode.accessedProperty? (node : MethodNode) : Option PropertyId :=
  if node.kind = .accessor then node.containingProperty else none

/-- The method around a local function. -/
def MethodNode.outerMethod? (node : MethodNode) : Option MethodId :=
  if node.kind = .localFunction then node.containingMethod else none

/-- The project of an outermost namespace. -/
def NamespaceNode.rootProject? (node : NamespaceNode) : Option ProjectId :=
  if node.parent.isNone then some node.project else none

/-- The namespace of an outermost type. -/
def TypeNode.directNamespace? (node : TypeNode) : Option NamespaceId :=
  if node.containingType.isNone then node.namespaceId else none

/-- **Upward and downward containment agree**, for every kind of content, and the upward links fit
together. -/
structure ReferenceModel.Contained (sep : Separator) (model : ReferenceModel) : Prop where
  files : Mirror model.projects ProjectNode.files model.files fun node => some node.project
  rootNamespaces : Mirror model.projects ProjectNode.namespaces model.namespaces
    NamespaceNode.rootProject?
  childNamespaces : Mirror model.namespaces NamespaceNode.children model.namespaces
    NamespaceNode.parent
  namespaceNames : ∀ node ∈ model.namespaces, node.Joined sep model
  nestedTypes : Mirror model.types TypeNode.nestedTypes model.types TypeNode.containingType
  nestedProjects : ∀ node ∈ model.types, node.Nested model
  namespaceTypes : Mirror model.namespaces NamespaceNode.types model.types
    TypeNode.directNamespace?
  methods : Mirror model.types TypeNode.methods model.methods (MethodNode.typeIf .method)
  constructors : Mirror model.types TypeNode.constructors model.methods
    (MethodNode.typeIf .constructor)
  destructors : Mirror model.types (fun node => node.destructor.toList) model.methods
    (MethodNode.typeIf .destructor)
  accessors : Mirror model.properties PropertyNode.accessors model.methods
    MethodNode.accessedProperty?
  localFunctions : Mirror model.methods MethodNode.localFunctions model.methods
    MethodNode.outerMethod?
  methodPlaces : ∀ node ∈ model.methods, node.Located model
  fields : Mirror model.types TypeNode.fields model.fields fun node => some node.containingType
  properties : Mirror model.types TypeNode.properties model.properties
    fun node => some node.containingType
  parameters : Mirror model.methods MethodNode.parameters model.parameters
    fun node => some node.containingMethod
  localVariables : Mirror model.methods MethodNode.localVariables model.localVariables
    fun node => some node.containingMethod

namespace ReferenceModel

variable {model : ReferenceModel} {sep : Separator}

/-- Only an accessor is in a property. -/
theorem accessedProperty?_eq {node : MethodNode} (h : node.Located model) :
    node.accessedProperty? = node.containingProperty := by
  unfold MethodNode.accessedProperty?
  unfold MethodNode.Located at h
  split at h
  next heq => rw [if_pos heq]
  next heq => simp [heq, h.1]
  next => simp [h.2]

/-- Only a local function is in a method. -/
theorem outerMethod?_eq {node : MethodNode} (h : node.Located model) :
    node.outerMethod? = node.containingMethod := by
  unfold MethodNode.outerMethod?
  unfold MethodNode.Located at h
  split at h
  next heq => simp [heq, h.1]
  next heq => rw [if_pos heq]
  next => simp [h.1]

theorem length_destructors (methods : List MethodNode) (id : TypeId) :
    (methods.filter fun node => node.containingType = id && node.kind = .destructor).length =
      (methods.filterMap MethodNode.destroys?).count id := by
  induction methods with
  | nil => rfl
  | cons node methods ih =>
    rw [List.filter_cons, List.filterMap_cons]
    by_cases hkind : node.kind = .destructor
    · by_cases htype : node.containingType = id <;>
        simp [MethodNode.destroys?, hkind, htype, ih]
    · simp [MethodNode.destroys?, hkind, ih]

/-- A list of at most one element is its first element. -/
theorem toList_head?_of_length_le {α : Type} {xs : List α} (h : xs.length ≤ 1) :
    xs.head?.toList = xs := by
  cases xs with
  | nil => rfl
  | cons x xs =>
    obtain rfl : xs = [] := by simpa using h
    rfl

/-- A type has no more than the one destructor that it names. -/
theorem Arranged.toList_head?_destructors (h : model.Arranged sep) (id : TypeId) :
    (model.methodsIn id .destructor).head?.toList = model.methodsIn id .destructor := by
  have hlength : (model.methodsIn id .destructor).length ≤ 1 := by
    rw [methodsIn, handlesWhere, List.length_map, length_destructors]
    exact List.nodup_iff_count_le_one.1 h.destructors id
  exact toList_head?_of_length_le hlength

section Wire

variable (hnumbered : model.Numbered) (hclosed : model.Closed)

include hnumbered hclosed

theorem wire_files :
    Mirror model.wire.projects ProjectNode.files model.wire.files
      fun node => some node.project := by
  refine .of_handlesWhere id (hnumbered .project) (hnumbered .file) (by simp [wire])
    (fun _ => rfl) (fun holder _ => ?_) (hclosed.up .file rfl ?_)
  · simp [wireProject, filesIn]
  · rintro node _ ⟨⟩
    simp [FileNode.handles]

theorem wire_rootNamespaces :
    Mirror model.wire.projects ProjectNode.namespaces model.wire.namespaces
      NamespaceNode.rootProject? := by
  refine .of_handlesWhere model.wireNamespace (hnumbered .project) (hnumbered .space)
    (by simp [wire]) (fun _ => rfl) (fun holder _ => handlesWhere_congr fun node _ => ?_)
    (hclosed.up .space rfl ?_)
  · by_cases hroot : node.parent.isNone <;> simp [NamespaceNode.rootProject?, hroot]
  · intro node id hid
    unfold NamespaceNode.rootProject? at hid
    split at hid
    · cases hid
      simp [NamespaceNode.handles]
    · cases hid

theorem wire_childNamespaces :
    Mirror model.wire.namespaces NamespaceNode.children model.wire.namespaces
      NamespaceNode.parent := by
  refine .of_handlesWhere model.wireNamespace (hnumbered .space) (hnumbered .space)
    (by simp [wire]) (fun _ => rfl) (fun _ _ => rfl) (hclosed.up .space rfl ?_)
  intro node id hid
  simp [NamespaceNode.handles, hid]

theorem wire_nestedTypes :
    Mirror model.wire.types TypeNode.nestedTypes model.wire.types TypeNode.containingType := by
  refine .of_handlesWhere model.wireType (hnumbered .type) (hnumbered .type)
    (by simp [wire]) (fun _ => rfl) (fun _ _ => rfl) (hclosed.up .type rfl ?_)
  intro node id hid
  simp [TypeNode.handles, hid]

theorem wire_namespaceTypes :
    Mirror model.wire.namespaces NamespaceNode.types model.wire.types
      TypeNode.directNamespace? := by
  refine .of_handlesWhere model.wireType (hnumbered .space) (hnumbered .type)
    (by simp [wire]) (fun _ => rfl) (fun holder _ => handlesWhere_congr fun node _ => ?_)
    (hclosed.up .type rfl ?_)
  · by_cases houter : node.containingType.isNone <;> simp [TypeNode.directNamespace?, houter]
  · intro node id hid
    unfold TypeNode.directNamespace? at hid
    split at hid
    · simp [TypeNode.handles, TypeNode.memberHandles, hid]
    · cases hid

theorem wire_fields :
    Mirror model.wire.types TypeNode.fields model.wire.fields
      fun node => some node.containingType := by
  refine .of_handlesWhere id (hnumbered .type) (hnumbered .field) (by simp [wire])
    (fun _ => rfl) (fun holder _ => ?_) (hclosed.up .field rfl ?_)
  · simp [wireType, fieldsIn]
  · rintro node _ ⟨⟩
    simp [FieldNode.handles]

theorem wire_properties :
    Mirror model.wire.types TypeNode.properties model.wire.properties
      fun node => some node.containingType := by
  refine .of_handlesWhere model.wireProperty (hnumbered .type) (hnumbered .property)
    (by simp [wire]) (fun _ => rfl) (fun holder _ => ?_) (hclosed.up .property rfl ?_)
  · simp [wireType, propertiesIn]
  · rintro node _ ⟨⟩
    simp [PropertyNode.handles]

theorem wire_parameters :
    Mirror model.wire.methods MethodNode.parameters model.wire.parameters
      fun node => some node.containingMethod := by
  refine .of_handlesWhere id (hnumbered .method) (hnumbered .parameter) (by simp [wire])
    (fun _ => rfl) (fun holder _ => ?_) (hclosed.up .parameter rfl ?_)
  · simp [wireMethod, parametersIn]
  · rintro node _ ⟨⟩
    simp [ParameterNode.handles]

theorem wire_localVariables :
    Mirror model.wire.methods MethodNode.localVariables model.wire.localVariables
      fun node => some node.containingMethod := by
  refine .of_handlesWhere id (hnumbered .method) (hnumbered .localVariable) (by simp [wire])
    (fun _ => rfl) (fun holder _ => ?_) (hclosed.up .localVariable rfl ?_)
  · simp [wireMethod, localVariablesIn]
  · rintro node _ ⟨⟩
    simp [LocalVariableNode.handles]

/-- The list of a type that a kind of methods goes to. -/
theorem wire_methodsOfKind (kind : MethodKind) {contents : TypeNode → List MethodId}
    (hcontents : ∀ type ∈ model.types,
      contents (model.wireType type) = model.methodsIn type.id kind) :
    Mirror model.wire.types contents model.wire.methods (MethodNode.typeIf kind) := by
  refine .of_handlesWhere model.wireMethod (hnumbered .type) (hnumbered .method)
    (by simp [wire]) (fun _ => rfl) (fun holder hholder => ?_) (hclosed.up .method rfl ?_)
  · rw [hcontents holder hholder]
    refine handlesWhere_congr fun node _ => ?_
    by_cases hkind : node.kind = kind <;> simp [MethodNode.typeIf, hkind]
  · intro node id hid
    unfold MethodNode.typeIf at hid
    split at hid
    · cases hid
      simp [MethodNode.handles, MethodNode.memberHandles]
    · cases hid

theorem wire_accessors (hmodel : model.Arranged sep) :
    Mirror model.wire.properties PropertyNode.accessors model.wire.methods
      MethodNode.accessedProperty? := by
  refine .of_handlesWhere model.wireMethod (hnumbered .property) (hnumbered .method)
    (by simp [wire]) (fun _ => rfl) (fun holder _ => handlesWhere_congr fun node hnode => ?_)
    (hclosed.up .method rfl ?_)
  · rw [accessedProperty?_eq (hmodel.methods node hnode)]
  · intro node id hid
    unfold MethodNode.accessedProperty? at hid
    split at hid
    · simp [MethodNode.handles, MethodNode.memberHandles, hid]
    · cases hid

theorem wire_localFunctions (hmodel : model.Arranged sep) :
    Mirror model.wire.methods MethodNode.localFunctions model.wire.methods
      MethodNode.outerMethod? := by
  refine .of_handlesWhere model.wireMethod (hnumbered .method) (hnumbered .method)
    (by simp [wire]) (fun _ => rfl) (fun holder _ => handlesWhere_congr fun node hnode => ?_)
    (hclosed.up .method rfl ?_)
  · rw [outerMethod?_eq (hmodel.methods node hnode)]
  · intro node id hid
    unfold MethodNode.outerMethod? at hid
    split at hid
    · simp [MethodNode.handles, MethodNode.memberHandles, hid]
    · cases hid

end Wire

/-! ## The whole model -/

theorem wire_joined {node : NamespaceNode} (h : node.Joined sep model) :
    (model.wireNamespace node).Joined sep model.wire := by
  unfold NamespaceNode.Joined at h ⊢
  dsimp only [wireNamespace]
  split
  next hparent =>
    rw [hparent] at h
    exact h
  next id hparent =>
    rw [hparent] at h
    obtain ⟨outer, houter, hproject, hname⟩ := h
    exact ⟨model.wireNamespace outer, by rw [wire_namespace?, houter]; rfl, hproject, hname⟩

theorem wire_nested {node : TypeNode} (h : node.Nested model) :
    (model.wireType node).Nested model.wire := by
  intro id hid
  obtain ⟨outer, houter, hproject⟩ := h id hid
  exact ⟨model.wireType outer, by rw [wire_type?, houter]; rfl, hproject⟩

theorem wire_located {node : MethodNode} (h : node.Located model) :
    (model.wireMethod node).Located model.wire := by
  unfold MethodNode.Located at h ⊢
  dsimp only [wireMethod]
  split
  next heq =>
    rw [heq] at h
    obtain ⟨hnone, id, property, hid, hproperty, htype⟩ := h
    exact ⟨hnone, id, model.wireProperty property, hid, by rw [wire_property?, hproperty]; rfl,
      htype⟩
  next heq =>
    rw [heq] at h
    obtain ⟨hnone, id, method, hid, hmethod, htype⟩ := h
    exact ⟨hnone, id, model.wireMethod method, hid, by rw [wire_method?, hmethod]; rfl, htype⟩
  next haccessor hlocal =>
    split at h
    next heq => exact absurd heq haccessor
    next heq => exact absurd heq hlocal
    next => exact h

/-- **Upward and downward containment agree** in a model that has the lists of its contents. -/
theorem Arranged.wire (h : model.Arranged sep) (hnumbered : model.Numbered)
    (hclosed : model.Closed) : model.wire.Contained sep where
  files := wire_files hnumbered hclosed
  rootNamespaces := wire_rootNamespaces hnumbered hclosed
  childNamespaces := wire_childNamespaces hnumbered hclosed
  namespaceNames node hnode := by
    obtain ⟨old, hold, rfl⟩ := Array.mem_map.1 hnode
    exact wire_joined (h.namespaces old hold)
  nestedTypes := wire_nestedTypes hnumbered hclosed
  nestedProjects node hnode := by
    obtain ⟨old, hold, rfl⟩ := Array.mem_map.1 hnode
    exact wire_nested (h.types old hold)
  namespaceTypes := wire_namespaceTypes hnumbered hclosed
  methods := wire_methodsOfKind hnumbered hclosed .method fun _ _ => rfl
  constructors := wire_methodsOfKind hnumbered hclosed .constructor fun _ _ => rfl
  destructors := wire_methodsOfKind hnumbered hclosed .destructor fun type _ =>
    h.toList_head?_destructors type.id
  accessors := wire_accessors hnumbered hclosed h
  localFunctions := wire_localFunctions hnumbered hclosed h
  methodPlaces node hnode := by
    obtain ⟨old, hold, rfl⟩ := Array.mem_map.1 hnode
    exact wire_located (h.methods old hold)
  fields := wire_fields hnumbered hclosed
  properties := wire_properties hnumbered hclosed
  parameters := wire_parameters hnumbered hclosed
  localVariables := wire_localVariables hnumbered hclosed

end ReferenceModel

/-- **Upward and downward containment of a linked model agree**, if it is linked with the index of
its own repository and no segment of a namespace has blanks at its ends. -/
theorem Linker.link_contained (repo : RepositoryFact) (sep : Separator) (policy : FallbackPolicy)
    (hbare : ∀ project ∈ repo.firstListings, ∀ unit ∈ project.units, ∀ fact ∈ unit.types,
      fact.isNamed → ∀ segment ∈ sep.segments fact.trimmedNamespace,
        Text.trim segment = segment) :
    (Linker.link ⟨(ScopeIndex.build repo sep).1, policy⟩ repo).1.Contained sep := by
  have hnamed : ∀ entry ∈ repo.named, ∀ segment ∈ sep.segments entry.2.2.trimmedNamespace,
      Text.trim segment = segment := by
    intro entry hentry
    obtain ⟨⟨project, position⟩, hproject, hentry⟩ := List.mem_flatMap.1 hentry
    obtain ⟨unit, hunit, hentry⟩ := List.mem_flatMap.1 hentry
    obtain ⟨fact, hfact, rfl⟩ := List.mem_map.1 hentry
    obtain ⟨hmem, hnamed⟩ := List.mem_filter.1 hfact
    exact hbare project (List.fst_mem_of_mem_zipIdx hproject) unit hunit fact hmem hnamed
  obtain ⟨declared, nested, final, hlink, hphases⟩ :=
    link_spec ⟨(ScopeIndex.build repo sep).1, policy⟩ repo
  have harranged := hphases.arranged rfl hnamed
  have hs := hphases.sound
  rw [hlink]
  exact harranged.wire hs.numbered hs.closed

/-- A type and a type nested in it, two namespaces deep. -/
def Linker.shapes : RepositoryFact where
  solutions := [{ path := "all", projects := [{ path := "geo", units := [unit] }] }]
where
  unit : UnitFact :=
    { path := "disc"
      types := [
        { name := "Disc", namespaceName := "Geo.Shapes" },
        { name := "Rim", namespaceName := "Geo.Shapes", containingType := some "Disc" }] }

theorem Linker.shapes_contained :
    (∀ project ∈ Linker.shapes.firstListings, ∀ unit ∈ project.units, ∀ fact ∈ unit.types,
      fact.isNamed → ∀ segment ∈ Separator.dot.segments fact.trimmedNamespace,
        Text.trim segment = segment) ∧
    (Linker.link ⟨(ScopeIndex.build Linker.shapes .dot).1, .referencesOnly⟩
      Linker.shapes).1.Contained .dot :=
  ⟨by decide +kernel,
    Linker.link_contained Linker.shapes .dot .referencesOnly (by decide +kernel)⟩

end FactGraph
