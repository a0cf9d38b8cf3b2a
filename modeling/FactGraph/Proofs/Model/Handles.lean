import FactGraph.Model.Basic
import Mathlib.Data.List.Nodup

/-!
# The handles that a model stores

A handle is only worth something if it leads to a node. This module says which handles a model
stores, in whatever place, and when a model is in order: the node at position `i` of a list has
the handle `i`, and every stored handle leads to a node.

A model grows by adding a node or by changing one. Neither makes a handle stray: lists never get
shorter, so `contains` is kept (`ReferenceModel.contains_mono`), and the only handles to look at
are those that the new or changed node has more (`ReferenceModel.Grows.closed`).

## Main definitions

* `TypeLink.targets`, `TypeLink.targetsAll`: the types that links refer to, at every depth
* `TypeNode.handles` and its like: the handles that a node stores
* `ReferenceModel.storedHandles`: the handles that a model stores
* `ReferenceModel.Numbered`: every node stands at the position that its handle says
* `ReferenceModel.Closed`: every handle stored in a node leads to a node
-/

namespace FactGraph

/-! ## Links -/

namespace TypeLink

mutual

/-- The types that a link refers to: its own, then those of its arguments. -/
def targets : TypeLink → List TypeId
  | ⟨_, target, args⟩ => target.toList ++ targetsAll args

/-- The types that the links of a list refer to. -/
def targetsAll : List TypeLink → List TypeId
  | [] => []
  | arg :: args => arg.targets ++ targetsAll args

end

mutual

/-- A link and the links of its arguments, at every depth. -/
def parts : TypeLink → List TypeLink
  | ⟨name, target, args⟩ => ⟨name, target, args⟩ :: partsAll args

/-- The links of a list with those of their arguments, at every depth. -/
def partsAll : List TypeLink → List TypeLink
  | [] => []
  | link :: links => link.parts ++ partsAll links

end

theorem mem_parts_self (link : TypeLink) : link ∈ link.parts := by
  cases link
  simp [parts]

@[simp] theorem partsAll_append (links others : List TypeLink) :
    partsAll (links ++ others) = partsAll links ++ partsAll others := by
  induction links with
  | nil => rfl
  | cons link links ih => rw [List.cons_append, partsAll, partsAll, ih, List.append_assoc]

@[simp] theorem targetsAll_append (links others : List TypeLink) :
    targetsAll (links ++ others) = targetsAll links ++ targetsAll others := by
  induction links with
  | nil => rfl
  | cons link links ih => rw [List.cons_append, targetsAll, targetsAll, ih, List.append_assoc]

mutual

/-- What a link refers to, one of its parts refers to. -/
theorem exists_part {id : TypeId} : ∀ {link : TypeLink}, id ∈ link.targets →
    ∃ part ∈ link.parts, part.target = some id
  | ⟨name, target, args⟩, h => by
    rw [targets, List.mem_append] at h
    rcases h with h | h
    · exact ⟨⟨name, target, args⟩, by simp [parts], Option.mem_toList.1 h⟩
    · obtain ⟨part, hpart, hid⟩ := exists_part_of_all h
      exact ⟨part, by simp [parts, hpart], hid⟩

theorem exists_part_of_all {id : TypeId} : ∀ {links : List TypeLink}, id ∈ targetsAll links →
    ∃ part ∈ partsAll links, part.target = some id
  | [], h => by simp [targetsAll] at h
  | link :: links, h => by
    rw [targetsAll, List.mem_append] at h
    rcases h with h | h
    · obtain ⟨part, hpart, hid⟩ := exists_part h
      exact ⟨part, by simp [partsAll, hpart], hid⟩
    · obtain ⟨part, hpart, hid⟩ := exists_part_of_all h
      exact ⟨part, by simp [partsAll, hpart], hid⟩

end

theorem mem_targetsAll {links : List TypeLink} {id : TypeId} :
    id ∈ targetsAll links ↔ ∃ link ∈ links, id ∈ link.targets := by
  induction links with
  | nil => simp [targetsAll]
  | cons link links ih => simp [targetsAll, ih]

theorem mem_partsAll {links : List TypeLink} {part : TypeLink} :
    part ∈ partsAll links ↔ ∃ link ∈ links, part ∈ link.parts := by
  induction links with
  | nil => simp [partsAll]
  | cons link links ih => simp [partsAll, ih]

theorem target_mem_targets {link : TypeLink} {id : TypeId} (h : link.target = some id) :
    id ∈ link.targets := by
  cases link
  simp_all [targets]

end TypeLink

/-- Handles as nodes of any kind. -/
def nodesOf {kind : NodeKind} (ids : List (Handle kind)) : List ModelNode :=
  ids.map ModelNode.of

@[simp] theorem nodesOf_nil {kind : NodeKind} : nodesOf ([] : List (Handle kind)) = [] := rfl

@[simp] theorem nodesOf_append {kind : NodeKind} (ids others : List (Handle kind)) :
    nodesOf (ids ++ others) = nodesOf ids ++ nodesOf others :=
  List.map_append

@[simp] theorem mem_nodesOf {kind : NodeKind} {ids : List (Handle kind)} {node : ModelNode} :
    node ∈ nodesOf ids ↔ ∃ id ∈ ids, ModelNode.of id = node :=
  List.mem_map

/-! ## Nodes -/

namespace TypeNode

/-- The links of the base types and attributes of a type. -/
def links (node : TypeNode) : List TypeLink :=
  node.baseTypes ++ node.attributes.map AttributeLink.typeLink

/-- The types that the base types, attributes and relations of a type refer to. -/
def linkTargets (node : TypeNode) : List TypeId :=
  TypeLink.targetsAll node.links ++ node.relations.map RelationEdge.target

/-- The project, the namespace and the members of a type. -/
def memberHandles (node : TypeNode) : List ModelNode :=
  nodesOf node.project.toList ++ nodesOf node.namespaceId.toList ++ nodesOf node.nestedTypes ++
    nodesOf node.fields ++ nodesOf node.properties ++ nodesOf node.methods ++
    nodesOf node.constructors ++ nodesOf node.destructor.toList

/-- The handles that a type stores. -/
def handles (node : TypeNode) : List ModelNode :=
  node.memberHandles ++ nodesOf node.files ++ nodesOf node.containingType.toList ++
    nodesOf node.linkTargets

end TypeNode

namespace MethodNode

/-- The links of the return type and the attributes of a method. -/
def links (node : MethodNode) : List TypeLink :=
  node.returnType.toList ++ node.attributes.map AttributeLink.typeLink

/-- What a method is contained in, and what it contains. -/
def memberHandles (node : MethodNode) : List ModelNode :=
  nodesOf [node.containingType] ++ nodesOf node.containingMethod.toList ++
    nodesOf node.containingProperty.toList ++ nodesOf node.parameters ++
    nodesOf node.localVariables ++ nodesOf node.localFunctions

/-- The handles that a method stores. -/
def handles (node : MethodNode) : List ModelNode :=
  node.memberHandles ++ nodesOf (TypeLink.targetsAll node.links) ++ nodesOf node.callTargets

end MethodNode

/-- The links of the type and the attributes of a field. -/
def FieldNode.links (node : FieldNode) : List TypeLink :=
  node.typeLink :: node.attributes.map AttributeLink.typeLink

/-- The handles that a field stores. -/
def FieldNode.handles (node : FieldNode) : List ModelNode :=
  nodesOf [node.containingType] ++ nodesOf (TypeLink.targetsAll node.links)

/-- The links of the type and the attributes of a property. -/
def PropertyNode.links (node : PropertyNode) : List TypeLink :=
  node.typeLink :: node.attributes.map AttributeLink.typeLink

/-- The handles that a property stores. -/
def PropertyNode.handles (node : PropertyNode) : List ModelNode :=
  nodesOf [node.containingType] ++ nodesOf node.accessors ++
    nodesOf (TypeLink.targetsAll node.links)

/-- The links of the type and the attributes of a parameter. -/
def ParameterNode.links (node : ParameterNode) : List TypeLink :=
  node.typeLink :: node.attributes.map AttributeLink.typeLink

/-- The handles that a parameter stores. -/
def ParameterNode.handles (node : ParameterNode) : List ModelNode :=
  nodesOf [node.containingMethod] ++ nodesOf (TypeLink.targetsAll node.links)

/-- The link of the type of a local variable. -/
def LocalVariableNode.links (node : LocalVariableNode) : List TypeLink :=
  [node.typeLink]

/-- The handles that a local variable stores. -/
def LocalVariableNode.handles (node : LocalVariableNode) : List ModelNode :=
  nodesOf [node.containingMethod] ++ nodesOf (TypeLink.targetsAll node.links)

/-- The handles that a solution stores. -/
def SolutionNode.handles (node : SolutionNode) : List ModelNode :=
  nodesOf node.projects

/-- The handles that a project stores. -/
def ProjectNode.handles (node : ProjectNode) : List ModelNode :=
  nodesOf node.solutions ++ nodesOf node.references ++ nodesOf node.files ++
    nodesOf node.namespaces

/-- The handles that a file stores. -/
def FileNode.handles (node : FileNode) : List ModelNode :=
  nodesOf [node.project] ++ nodesOf node.types

/-- The handles that a namespace stores. -/
def NamespaceNode.handles (node : NamespaceNode) : List ModelNode :=
  nodesOf [node.project] ++ nodesOf node.parent.toList ++ nodesOf node.children ++
    nodesOf node.types

/-! ## Models -/

/-- What is read off every element is not changed, if it is not changed for any element. -/
theorem map_toList_modify {α β : Type} {xs : Array α} {i : Nat} {f : α → α} {read : α → β}
    (h : ∀ x, read (f x) = read x) : (xs.modify i f).toList.map read = xs.toList.map read := by
  rw [Array.toList_modify]
  refine List.ext_getElem? fun j => ?_
  rw [List.getElem?_map, List.getElem?_map, List.getElem?_modify]
  cases xs.toList[j]? with
  | none => simp
  | some x =>
    by_cases hij : i = j
    · simp [hij, h]
    · simp [hij]

/-- What is read off the elements of a list, some passed over, when one element is changed and
reads as before. -/
theorem filterMap_toList_modify {α β : Type} {xs : Array α} {i : Nat} {f : α → α}
    {read : α → Option β} (h : ∀ x, read (f x) = read x) :
    (xs.modify i f).toList.filterMap read = xs.toList.filterMap read := by
  have heq := congrArg (List.filterMap id) (@map_toList_modify _ _ xs i f read h)
  simpa only [List.filterMap_map, Function.id_comp] using heq

namespace ReferenceModel

/-- The handles of the nodes of a kind, in the order of the nodes. -/
def ids (model : ReferenceModel) : (kind : NodeKind) → List (Handle kind)
  | .solution => model.solutions.toList.map SolutionNode.id
  | .project => model.projects.toList.map ProjectNode.id
  | .file => model.files.toList.map FileNode.id
  | .space => model.namespaces.toList.map NamespaceNode.id
  | .type => model.types.toList.map TypeNode.id
  | .method => model.methods.toList.map MethodNode.id
  | .field => model.fields.toList.map FieldNode.id
  | .property => model.properties.toList.map PropertyNode.id
  | .parameter => model.parameters.toList.map ParameterNode.id
  | .localVariable => model.localVariables.toList.map LocalVariableNode.id

/-- The handles that the nodes of a kind store. -/
def handlesIn (model : ReferenceModel) : NodeKind → List ModelNode
  | .solution => model.solutions.toList.flatMap SolutionNode.handles
  | .project => model.projects.toList.flatMap ProjectNode.handles
  | .file => model.files.toList.flatMap FileNode.handles
  | .space => model.namespaces.toList.flatMap NamespaceNode.handles
  | .type => model.types.toList.flatMap TypeNode.handles
  | .method => model.methods.toList.flatMap MethodNode.handles
  | .field => model.fields.toList.flatMap FieldNode.handles
  | .property => model.properties.toList.flatMap PropertyNode.handles
  | .parameter => model.parameters.toList.flatMap ParameterNode.handles
  | .localVariable => model.localVariables.toList.flatMap LocalVariableNode.handles

/-- **The handles that a model stores**, in its nodes, in its root and in the list of external
types. -/
def storedHandles (model : ReferenceModel) : List ModelNode :=
  nodesOf model.repository.solutions ++ NodeKind.all.flatMap model.handlesIn ++
    nodesOf model.createdClasses

/-- **Every node stands where its handle says**: the node at position `i` has the handle `i`. -/
def Numbered (model : ReferenceModel) : Prop :=
  ∀ kind, model.ids kind = (List.range (model.count kind)).map Handle.mk

/-- Every handle that is stored in a node leads to a node. -/
def Closed (model : ReferenceModel) : Prop :=
  ∀ kind, ∀ node ∈ model.handlesIn kind, model.contains node

/-- Every list of nodes is as it was, or has one node more, which has the next handle. -/
def Grows (model model' : ReferenceModel) : Prop :=
  ∀ kind, model'.ids kind = model.ids kind ∨
    model'.ids kind = model.ids kind ++ [⟨model.count kind⟩]

variable {model model' : ReferenceModel}

@[simp] theorem contains_of {kind : NodeKind} (id : Handle kind) :
    model.contains (.of id) = model.hasHandle id := rfl

/-- A handle that leads to a node does so in a larger model. -/
theorem hasHandle_mono (hcount : ∀ kind, model.count kind ≤ model'.count kind)
    {kind : NodeKind} {id : Handle kind} (h : model.hasHandle id) : model'.hasHandle id := by
  simp only [hasHandle, decide_eq_true_eq] at h ⊢
  exact Nat.lt_of_lt_of_le h (hcount kind)

/-- A node of a model is one of a larger model. -/
theorem contains_mono (hcount : ∀ kind, model.count kind ≤ model'.count kind)
    {node : ModelNode} (h : model.contains node) : model'.contains node := by
  cases node with
  | repository => rfl
  | node kind id => exact hasHandle_mono hcount h

theorem length_ids (model : ReferenceModel) (kind : NodeKind) :
    (model.ids kind).length = model.count kind := by
  cases kind <;> simp [ids, count]

theorem Grows.count_le (h : model.Grows model') (kind : NodeKind) :
    model.count kind ≤ model'.count kind := by
  rw [← length_ids, ← length_ids]
  rcases h kind with h | h <;> simp [h]

/-- A model stays numbered when it grows. -/
theorem Grows.numbered (h : model.Grows model') (hnumbered : model.Numbered) :
    model'.Numbered := by
  intro kind
  rw [← length_ids]
  rcases h kind with h | h
  · rw [h, length_ids]
    exact hnumbered kind
  · rw [h, List.length_append, length_ids, hnumbered kind]
    simp [List.range_succ]

/-- **A model stays closed when it grows**, if all handles that are stored in the larger model and
not in the smaller one lead to nodes. -/
theorem Grows.closed (h : model.Grows model') (hclosed : model.Closed)
    (hnew : ∀ kind, ∀ node ∈ model'.handlesIn kind,
      node ∈ model.handlesIn kind ∨ model.contains node) :
    model'.Closed := by
  intro kind node hnode
  refine contains_mono h.count_le ?_
  rcases hnew kind node hnode with hold | hnode
  · exact hclosed kind node hold
  · exact hnode

/-! ### A node that is added or changed -/

theorem grows_pushNamespace {node : NamespaceNode} (hid : node.id = ⟨model.count .space⟩) :
    model.Grows { model with namespaces := model.namespaces.push node } := by
  intro kind
  cases kind
  case space => exact .inr (by simp [ids, hid])
  all_goals exact .inl rfl

theorem grows_pushType {node : TypeNode} (hid : node.id = ⟨model.count .type⟩) :
    model.Grows { model with types := model.types.push node } := by
  intro kind
  cases kind
  case type => exact .inr (by simp [ids, hid])
  all_goals exact .inl rfl

theorem grows_pushMethod {node : MethodNode} (hid : node.id = ⟨model.count .method⟩) :
    model.Grows { model with methods := model.methods.push node } := by
  intro kind
  cases kind
  case method => exact .inr (by simp [ids, hid])
  all_goals exact .inl rfl

theorem grows_pushField {node : FieldNode} (hid : node.id = ⟨model.count .field⟩) :
    model.Grows { model with fields := model.fields.push node } := by
  intro kind
  cases kind
  case field => exact .inr (by simp [ids, hid])
  all_goals exact .inl rfl

theorem grows_pushProperty {node : PropertyNode} (hid : node.id = ⟨model.count .property⟩) :
    model.Grows { model with properties := model.properties.push node } := by
  intro kind
  cases kind
  case property => exact .inr (by simp [ids, hid])
  all_goals exact .inl rfl

theorem grows_pushParameter {node : ParameterNode} (hid : node.id = ⟨model.count .parameter⟩) :
    model.Grows { model with parameters := model.parameters.push node } := by
  intro kind
  cases kind
  case parameter => exact .inr (by simp [ids, hid])
  all_goals exact .inl rfl

theorem grows_pushLocalVariable {node : LocalVariableNode}
    (hid : node.id = ⟨model.count .localVariable⟩) :
    model.Grows { model with localVariables := model.localVariables.push node } := by
  intro kind
  cases kind
  case localVariable => exact .inr (by simp [ids, hid])
  all_goals exact .inl rfl

theorem grows_modifyType (i : Nat) {change : TypeNode → TypeNode}
    (hid : ∀ node, (change node).id = node.id) :
    model.Grows { model with types := model.types.modify i change } := by
  intro kind
  cases kind
  case type => exact .inl (map_toList_modify hid)
  all_goals exact .inl rfl

theorem grows_modifyMethod (i : Nat) {change : MethodNode → MethodNode}
    (hid : ∀ node, (change node).id = node.id) :
    model.Grows { model with methods := model.methods.modify i change } := by
  intro kind
  cases kind
  case method => exact .inl (map_toList_modify hid)
  all_goals exact .inl rfl

theorem grows_modifyFile (i : Nat) {change : FileNode → FileNode}
    (hid : ∀ node, (change node).id = node.id) :
    model.Grows { model with files := model.files.modify i change } := by
  intro kind
  cases kind
  case file => exact .inl (map_toList_modify hid)
  all_goals exact .inl rfl

/-! ### Nodes by position -/

/-- The handle at a position of a numbered model is that position. -/
theorem Numbered.idx_of_getElem? (h : model.Numbered) {kind : NodeKind} {i : Nat}
    {id : Handle kind} (hid : (model.ids kind)[i]? = some id) : id = ⟨i⟩ := by
  rw [h kind, List.getElem?_map] at hid
  obtain ⟨j, hj, rfl⟩ := Option.map_eq_some_iff.1 hid
  obtain ⟨-, rfl⟩ := List.getElem?_eq_some_iff.1 hj
  rw [List.getElem_range]

/-- No handle is used twice. -/
theorem Numbered.nodup (h : model.Numbered) (kind : NodeKind) : (model.ids kind).Nodup := by
  rw [h kind]
  exact List.nodup_range.map fun i j hij => congrArg Handle.idx hij

/-- The handles of the nodes of a numbered model are those that lead to a node. -/
theorem Numbered.mem_ids (h : model.Numbered) {kind : NodeKind} {id : Handle kind} :
    id ∈ model.ids kind ↔ model.hasHandle id := by
  rw [h kind]
  simp only [List.mem_map, List.mem_range, hasHandle, decide_eq_true_eq]
  constructor
  · rintro ⟨i, hi, rfl⟩
    exact hi
  · intro hid
    exact ⟨id.idx, hid, rfl⟩

/-- The type of a handle of a numbered model has that handle. -/
theorem Numbered.type_id (h : model.Numbered) {id : TypeId} {node : TypeNode}
    (hnode : model.type? id = some node) : node.id = id := by
  have hid : (model.ids .type)[id.idx]? = some node.id := by
    rw [ids, List.getElem?_map, Array.getElem?_toList]
    exact congrArg (Option.map TypeNode.id) hnode
  exact h.idx_of_getElem? hid

/-- A type of a numbered model is where its handle says. -/
theorem Numbered.type?_id (h : model.Numbered) {node : TypeNode} (hnode : node ∈ model.types) :
    model.type? node.id = some node := by
  obtain ⟨i, hi⟩ := Array.mem_iff_getElem?.1 hnode
  have hid : node.id = ⟨i⟩ := h.type_id hi
  rw [hid]
  exact hi

/-- The method of a handle of a numbered model has that handle. -/
theorem Numbered.method_id (h : model.Numbered) {id : MethodId} {node : MethodNode}
    (hnode : model.method? id = some node) : node.id = id := by
  have hid : (model.ids .method)[id.idx]? = some node.id := by
    rw [ids, List.getElem?_map, Array.getElem?_toList]
    exact congrArg (Option.map MethodNode.id) hnode
  exact h.idx_of_getElem? hid

/-- The property of a handle of a numbered model has that handle. -/
theorem Numbered.property_id (h : model.Numbered) {id : PropertyId} {node : PropertyNode}
    (hnode : model.property? id = some node) : node.id = id := by
  have hid : (model.ids .property)[id.idx]? = some node.id := by
    rw [ids, List.getElem?_map, Array.getElem?_toList]
    exact congrArg (Option.map PropertyNode.id) hnode
  exact h.idx_of_getElem? hid

/-- The namespace of a handle of a numbered model has that handle. -/
theorem Numbered.namespace_id (h : model.Numbered) {id : NamespaceId} {node : NamespaceNode}
    (hnode : model.namespace? id = some node) : node.id = id := by
  have hid : (model.ids .space)[id.idx]? = some node.id := by
    rw [ids, List.getElem?_map, Array.getElem?_toList]
    exact congrArg (Option.map NamespaceNode.id) hnode
  exact h.idx_of_getElem? hid

/-- The project of a handle of a numbered model has that handle. -/
theorem Numbered.project_id (h : model.Numbered) {id : ProjectId} {node : ProjectNode}
    (hnode : model.project? id = some node) : node.id = id := by
  have hid : (model.ids .project)[id.idx]? = some node.id := by
    rw [ids, List.getElem?_map, Array.getElem?_toList]
    exact congrArg (Option.map ProjectNode.id) hnode
  exact h.idx_of_getElem? hid

/-- A method of a numbered model is where its handle says. -/
theorem Numbered.method?_id (h : model.Numbered) {node : MethodNode}
    (hnode : node ∈ model.methods) : model.method? node.id = some node := by
  obtain ⟨i, hi⟩ := Array.mem_iff_getElem?.1 hnode
  have hid : node.id = ⟨i⟩ := h.method_id hi
  rw [hid]
  exact hi

/-- A parameter of a numbered model is where its handle says. -/
theorem Numbered.parameter?_id (h : model.Numbered) {node : ParameterNode}
    (hnode : node ∈ model.parameters) : model.parameter? node.id = some node := by
  obtain ⟨i, hi⟩ := Array.mem_iff_getElem?.1 hnode
  have hid : (model.ids .parameter)[i]? = some node.id := by
    rw [ids, List.getElem?_map, Array.getElem?_toList, hi]
    rfl
  rw [h.idx_of_getElem? hid]
  exact hi

/-- A handle of a type leads to a type. -/
theorem exists_type {id : TypeId} (h : model.hasHandle id) :
    ∃ node, model.type? id = some node :=
  ⟨_, Array.getElem?_eq_getElem (of_decide_eq_true h)⟩

/-- A handle of a method leads to a method. -/
theorem exists_method {id : MethodId} (h : model.hasHandle id) :
    ∃ node, model.method? id = some node :=
  ⟨_, Array.getElem?_eq_getElem (of_decide_eq_true h)⟩

/-- A handle of a project leads to a project. -/
theorem exists_project {id : ProjectId} (h : model.hasHandle id) :
    ∃ node, model.project? id = some node :=
  ⟨_, Array.getElem?_eq_getElem (of_decide_eq_true h)⟩

/-- A handle of a file leads to a file. -/
theorem exists_file {id : FileId} (h : model.hasHandle id) :
    ∃ node, model.file? id = some node :=
  ⟨_, Array.getElem?_eq_getElem (of_decide_eq_true h)⟩

/-- A handle of a field leads to a field. -/
theorem exists_field {id : FieldId} (h : model.hasHandle id) :
    ∃ node, model.field? id = some node :=
  ⟨_, Array.getElem?_eq_getElem (of_decide_eq_true h)⟩

/-- A handle of a property leads to a property. -/
theorem exists_property {id : PropertyId} (h : model.hasHandle id) :
    ∃ node, model.property? id = some node :=
  ⟨_, Array.getElem?_eq_getElem (of_decide_eq_true h)⟩

/-- A handle of a parameter leads to a parameter. -/
theorem exists_parameter {id : ParameterId} (h : model.hasHandle id) :
    ∃ node, model.parameter? id = some node :=
  ⟨_, Array.getElem?_eq_getElem (of_decide_eq_true h)⟩

/-- A handle of a local variable leads to a local variable. -/
theorem exists_localVariable {id : LocalVariableId} (h : model.hasHandle id) :
    ∃ node, model.localVariable? id = some node :=
  ⟨_, Array.getElem?_eq_getElem (of_decide_eq_true h)⟩

/-- What a node stores is there. -/
theorem Closed.hasHandle_up {α : Type} (hclosed : model.Closed) (kind : NodeKind)
    {otherKind : NodeKind} {nodes : Array α} {handles : α → List ModelNode}
    (hhandles : model.handlesIn kind = nodes.toList.flatMap handles) {node : α}
    (hnode : node ∈ nodes) {id : Handle otherKind} (hid : .of id ∈ handles node) :
    model.hasHandle id := by
  refine hclosed kind (.of id) ?_
  rw [hhandles]
  exact List.mem_flatMap.2 ⟨node, Array.mem_toList_iff.2 hnode, hid⟩

/-- What a node says it is in is there. -/
theorem Closed.up {α : Type} (hclosed : model.Closed) (kind : NodeKind) {holderKind : NodeKind}
    {nodes : Array α} {handles : α → List ModelNode}
    (hhandles : model.handlesIn kind = nodes.toList.flatMap handles)
    {holder? : α → Option (Handle holderKind)}
    (hholder : ∀ node id, holder? node = some id → .of id ∈ handles node) :
    ∀ node ∈ nodes, ∀ id, holder? node = some id → id.idx < model.count holderKind :=
  fun node hnode id hid =>
    of_decide_eq_true (hclosed.hasHandle_up kind hhandles hnode (hholder node id hid))

/-- What a type of a closed model stores leads to a node. -/
theorem Closed.hasHandle_of_type (h : model.Closed) {node : TypeNode} (hnode : node ∈ model.types)
    {kind : NodeKind} {id : Handle kind} (hid : .of id ∈ node.handles) : model.hasHandle id :=
  h.hasHandle_up .type rfl hnode hid

/-- What a method of a closed model stores leads to a node. -/
theorem Closed.hasHandle_of_method (h : model.Closed) {node : MethodNode}
    (hnode : node ∈ model.methods) {kind : NodeKind} {id : Handle kind}
    (hid : .of id ∈ node.handles) : model.hasHandle id :=
  h.hasHandle_up .method rfl hnode hid

theorem hasHandle_of_type {id : TypeId} {node : TypeNode} (h : model.type? id = some node) :
    model.hasHandle id :=
  decide_eq_true (Array.getElem?_eq_some_iff.1 h).1

theorem hasHandle_of_method {id : MethodId} {node : MethodNode}
    (h : model.method? id = some node) : model.hasHandle id :=
  decide_eq_true (Array.getElem?_eq_some_iff.1 h).1

theorem hasHandle_of_namespace {id : NamespaceId} {node : NamespaceNode}
    (h : model.namespace? id = some node) : model.hasHandle id :=
  decide_eq_true (Array.getElem?_eq_some_iff.1 h).1

theorem hasHandle_of_property {id : PropertyId} {node : PropertyNode}
    (h : model.property? id = some node) : model.hasHandle id :=
  decide_eq_true (Array.getElem?_eq_some_iff.1 h).1

theorem mem_of_type {id : TypeId} {node : TypeNode} (h : model.type? id = some node) :
    node ∈ model.types :=
  Array.mem_of_getElem? h

end ReferenceModel

end FactGraph
