import FactGraph.Proofs.Linking.Draft.Link

/-!
# A linked model is in order

Whatever the facts are, and whatever index they are linked with, even one of another repository: a
link run never follows a handle that leads to no node, and the model that it makes has none. The
run follows a run in draft, which is in order when it ends (`Phases.sound`), and the lists of
contents that the model has besides only store handles of nodes (`wire_contains`).

## Main results

* `wire_numbered`, `wire_closed`: the model with its lists is in order if it is without them
* `link_integrity`: the linked model is numbered, and every handle in it leads to a node
-/

namespace FactGraph

/-! ## The model with all lists -/

namespace ReferenceModel

variable {model : ReferenceModel}

@[simp] theorem wire_ids (model : ReferenceModel) (kind : NodeKind) :
    model.wire.ids kind = model.ids kind := by
  cases kind <;> simp [ids, wire, wireProject, wireNamespace, wireType, wireMethod, wireProperty,
    Function.comp_def]

@[simp] theorem wire_count (model : ReferenceModel) (kind : NodeKind) :
    model.wire.count kind = model.count kind := by
  rw [← length_ids, wire_ids, length_ids]

theorem wire_numbered (h : model.Numbered) : model.wire.Numbered := by
  intro kind
  rw [wire_ids, wire_count]
  exact h kind

theorem wire_contains (model : ReferenceModel) (node : ModelNode) :
    model.wire.contains node = model.contains node := by
  cases node with
  | repository => rfl
  | node kind id => simp [contains, hasHandle]

theorem wire_namespace? (model : ReferenceModel) (id : NamespaceId) :
    model.wire.namespace? id = (model.namespace? id).map model.wireNamespace := by
  simp [namespace?, wire]

theorem wire_project? (model : ReferenceModel) (id : ProjectId) :
    model.wire.project? id = (model.project? id).map model.wireProject := by
  simp [project?, wire]

theorem wire_type? (model : ReferenceModel) (id : TypeId) :
    model.wire.type? id = (model.type? id).map model.wireType := by
  simp [type?, wire]

theorem wire_method? (model : ReferenceModel) (id : MethodId) :
    model.wire.method? id = (model.method? id).map model.wireMethod := by
  simp [method?, wire]

theorem wire_property? (model : ReferenceModel) (id : PropertyId) :
    model.wire.property? id = (model.property? id).map model.wireProperty := by
  simp [property?, wire]

/-- Handles of nodes that are read off a list lead to nodes. -/
theorem Numbered.contains_handlesWhere (h : model.Numbered) {α : Type} {kind : NodeKind}
    {nodes : Array α} (condition : α → Bool) {id : α → Handle kind}
    (hids : model.ids kind = nodes.toList.map id) :
    ∀ node ∈ nodesOf (handlesWhere nodes condition id), model.contains node := by
  intro node hnode
  obtain ⟨handle, hhandle, rfl⟩ := mem_nodesOf.1 hnode
  obtain ⟨origin, horigin, -, rfl⟩ := mem_handlesWhere.1 hhandle
  refine h.mem_ids.1 ?_
  rw [hids]
  exact List.mem_map_of_mem (Array.mem_toList_iff.2 horigin)

theorem contains_wireProject (h : model.Numbered) {project : ProjectNode}
    (hold : ∀ node ∈ project.handles, model.contains node) :
    ∀ node ∈ (model.wireProject project).handles, model.contains node := by
  simp only [ProjectNode.handles, wireProject, List.forall_mem_append] at hold ⊢
  obtain ⟨⟨⟨-, hreferences⟩, -⟩, -⟩ := hold
  exact ⟨⟨⟨h.contains_handlesWhere _ rfl, hreferences⟩, h.contains_handlesWhere _ rfl⟩,
    h.contains_handlesWhere _ rfl⟩

theorem contains_wireNamespace (h : model.Numbered) {space : NamespaceNode}
    (hold : ∀ node ∈ space.handles, model.contains node) :
    ∀ node ∈ (model.wireNamespace space).handles, model.contains node := by
  simp only [NamespaceNode.handles, wireNamespace, List.forall_mem_append] at hold ⊢
  obtain ⟨⟨⟨hproject, hparent⟩, -⟩, -⟩ := hold
  exact ⟨⟨⟨hproject, hparent⟩, h.contains_handlesWhere _ rfl⟩, h.contains_handlesWhere _ rfl⟩

theorem contains_wireType (h : model.Numbered) {type : TypeNode}
    (hold : ∀ node ∈ type.handles, model.contains node) :
    ∀ node ∈ (model.wireType type).handles, model.contains node := by
  have hdestructor : ∀ node ∈ nodesOf (model.methodsIn type.id .destructor).head?.toList,
      model.contains node := by
    intro node hnode
    obtain ⟨id, hid, rfl⟩ := mem_nodesOf.1 hnode
    have hmem := List.mem_of_mem_head? (Option.mem_toList.1 hid)
    exact h.contains_handlesWhere _ rfl _ (mem_nodesOf.2 ⟨id, hmem, rfl⟩)
  simp only [TypeNode.handles, TypeNode.memberHandles, wireType, List.forall_mem_append] at hold ⊢
  obtain ⟨⟨⟨⟨⟨⟨⟨⟨⟨⟨hproject, hspace⟩, -⟩, -⟩, -⟩, -⟩, -⟩, -⟩, hfiles⟩, hcontaining⟩, hlinks⟩ := hold
  exact ⟨⟨⟨⟨⟨⟨⟨⟨⟨⟨hproject, hspace⟩, h.contains_handlesWhere _ rfl⟩,
    h.contains_handlesWhere _ rfl⟩, h.contains_handlesWhere _ rfl⟩, h.contains_handlesWhere _ rfl⟩,
    h.contains_handlesWhere _ rfl⟩, hdestructor⟩, hfiles⟩, hcontaining⟩, hlinks⟩

theorem contains_wireMethod (h : model.Numbered) {method : MethodNode}
    (hold : ∀ node ∈ method.handles, model.contains node) :
    ∀ node ∈ (model.wireMethod method).handles, model.contains node := by
  simp only [MethodNode.handles, MethodNode.memberHandles, wireMethod, List.forall_mem_append]
    at hold ⊢
  obtain ⟨⟨⟨⟨⟨hplace, -⟩, -⟩, -⟩, hlinks⟩, hcalls⟩ := hold
  exact ⟨⟨⟨⟨⟨hplace, h.contains_handlesWhere _ rfl⟩, h.contains_handlesWhere _ rfl⟩,
    h.contains_handlesWhere _ rfl⟩, hlinks⟩, hcalls⟩

theorem contains_wireProperty (h : model.Numbered) {property : PropertyNode}
    (hold : ∀ node ∈ property.handles, model.contains node) :
    ∀ node ∈ (model.wireProperty property).handles, model.contains node := by
  simp only [PropertyNode.handles, wireProperty, List.forall_mem_append] at hold ⊢
  obtain ⟨⟨htype, -⟩, hlinks⟩ := hold
  exact ⟨⟨htype, h.contains_handlesWhere _ rfl⟩, hlinks⟩

/-- The handles of listed nodes lead to nodes, if those of each of them do. -/
theorem contains_of_map {α : Type} {nodes : Array α} {handles : α → List ModelNode}
    {wireNode : α → α} (hold : ∀ node ∈ nodes.toList.flatMap handles, model.contains node)
    (hwire : ∀ a, (∀ node ∈ handles a, model.contains node) →
      ∀ node ∈ handles (wireNode a), model.contains node) :
    ∀ node ∈ (nodes.map wireNode).toList.flatMap handles, model.contains node := by
  intro node hnode
  rw [Array.toList_map, List.flatMap_map] at hnode
  obtain ⟨a, ha, hnode⟩ := List.mem_flatMap.1 hnode
  exact hwire a (fun other hother => hold other (List.mem_flatMap.2 ⟨a, ha, hother⟩)) node hnode

/-- **A model is closed with all lists** if it is without them. -/
theorem wire_closed (h : model.Numbered) (hclosed : model.Closed) : model.wire.Closed := by
  have hkinds (kind : NodeKind) : ∀ node ∈ model.wire.handlesIn kind, model.contains node := by
    have hold := hclosed kind
    cases kind
    case project => exact contains_of_map hold fun _ => contains_wireProject h
    case space => exact contains_of_map hold fun _ => contains_wireNamespace h
    case type => exact contains_of_map hold fun _ => contains_wireType h
    case method => exact contains_of_map hold fun _ => contains_wireMethod h
    case property => exact contains_of_map hold fun _ => contains_wireProperty h
    all_goals exact hold
  intro kind node hnode
  rw [wire_contains]
  exact hkinds kind node hnode

/-- **The model with all lists stores handles of nodes only.** -/
theorem wire_storedHandles (h : model.Numbered) (hclosed : model.Closed) :
    ∀ node ∈ model.wire.storedHandles, model.wire.contains node := by
  intro node hnode
  rw [storedHandles, List.mem_append, List.mem_append] at hnode
  rcases hnode with (hsolution | hkind) | hexternal
  · rw [wire_contains]
    exact h.contains_handlesWhere _ rfl node hsolution
  · obtain ⟨kind, -, hnode⟩ := List.mem_flatMap.1 hkind
    exact wire_closed h hclosed kind node hnode
  · rw [wire_contains]
    exact h.contains_handlesWhere _ rfl node hexternal

end ReferenceModel

/-! ## The linked model -/

namespace Linker

/-- **A link run never follows a stray handle, and leaves none behind.** With whatever index and
policy a repository is linked, the run gets to its end; in the model that it makes, every node
stands at the position that its handle says, and every handle that is stored anywhere leads to a
node. -/
theorem link_integrity (linker : Linker) (repo : RepositoryFact) :
    (∃ state, linker.linkRun repo = .ok state ∧
      linker.link repo = (state.model, state.diagnostics)) ∧
    (linker.link repo).1.Numbered ∧
    ∀ node ∈ (linker.link repo).1.storedHandles, (linker.link repo).1.contains node := by
  obtain ⟨_, _, _, _, final, htrace⟩ := draftRun_trace linker repo
  obtain ⟨state, hrun, -⟩ := htrace.linkRun
  have hs := htrace.phases.sound
  refine ⟨⟨state, hrun, by rw [link, hrun]⟩, ?_⟩
  rw [htrace.link]
  exact ⟨ReferenceModel.wire_numbered hs.numbered,
    ReferenceModel.wire_storedHandles hs.numbered hs.closed⟩

end Linker

end FactGraph
