import FactGraph.Metrics.Relations
import FactGraph.Proofs.Model.Handles
import Mathlib.Data.List.Induction

/-!
# Derived relations are exact counts

The relations of a type are collected edge by edge: a reference either raises the count of the edge
that is there for it or makes a new one. Here the references are written down first, as one list in
the order of a walk over the type and its members, and only then counted. Both ways lead to the
same edges: one for each reference that the walk meets, in the order in which it first meets them,
with the number of times that it meets them.

The walk follows every handle that it meets, and is given up at the first one that leads nowhere. In
a closed model this does not happen, so there the collector passes over nothing either.

## Main definitions

* `Reference`: a relation together with the type that it leads to
* `ReferenceModel.relationWalk?`: the references of a type, as they are met
* `RelationCollector.addAll`: the references of a list, collected one after the other

## Main results

* `foldl_add_eq`: references collected one after the other are counted
* `addLink_eq`, `addMember_eq`, `addMethod_eq`: what is collected of a part is what a walk over it
  meets
* `deriveRelations_counts`: the derived relations of a type count the references of its walk
-/

namespace FactGraph

/-- A relation together with the type that it leads to. -/
abbrev Reference := RelationKind × TypeId

/-! ## The walk -/

/-- The references of links, all of one kind, at every depth of the links. -/
def references (relation : RelationKind) (links : List TypeLink) : List Reference :=
  (TypeLink.targetsAll links).map fun target => (relation, target)

/-- The references of a member: its type, then its attributes. -/
def memberReferences (relation : RelationKind) (typeLink : TypeLink)
    (attributes : List AttributeLink) : List Reference :=
  references relation [typeLink] ++
    references .attributes (attributes.map AttributeLink.typeLink)

namespace ReferenceModel

variable (model : ReferenceModel)

/-- **The references that a walk over a method meets**: those of its attributes, parameters, return
type, local variables and calls. There is no walk if a handle leads nowhere. -/
def methodWalk? (node : MethodNode) : Option (List Reference) := do
  let parameters ← node.parameters.mapM model.parameter?
  let localVariables ← node.localVariables.mapM model.localVariable?
  let callees ← node.callTargets.mapM model.method?
  return references .attributes (node.attributes.map AttributeLink.typeLink) ++
    parameters.flatMap (fun parameter =>
      memberReferences .parameters parameter.typeLink parameter.attributes) ++
    references .returnValues node.returnType.toList ++
    references .localVariables (localVariables.map LocalVariableNode.typeLink) ++
    callees.map fun callee => (.calls, callee.containingType)

/-- **The references that a walk over a type meets**, without those to itself: those of its base
types and attributes, its fields, its properties and its methods that are not synthetic. There is no
walk if a handle leads nowhere. -/
def relationWalk? (id : TypeId) : Option (List Reference) := do
  let node ← model.type? id
  let fields ← node.fields.mapM model.field?
  let properties ← node.properties.mapM model.property?
  let methods := model.methods.toList.filter fun method =>
    !method.isSynthetic && method.containingType = id
  let walks ← methods.mapM model.methodWalk?
  let walk := references .inheritance node.baseTypes ++
    references .attributes (node.attributes.map AttributeLink.typeLink) ++
    fields.flatMap (fun field =>
      memberReferences .declarations field.typeLink field.attributes) ++
    properties.flatMap (fun property =>
      memberReferences .declarations property.typeLink property.attributes) ++
    walks.flatten
  return walk.filter fun reference => reference.2 ≠ id

end ReferenceModel

/-! ## Counting -/

/-- A list with one more value, without its repetitions. -/
theorem eraseDups_concat {α : Type} [BEq α] [LawfulBEq α] (values : List α) (value : α) :
    (values ++ [value]).eraseDups =
      if value ∈ values then values.eraseDups else values.eraseDups ++ [value] := by
  rw [List.eraseDups_append]
  split <;> simp [List.removeAll, List.eraseDups_cons, *]

theorem nodup_eraseDups {α : Type} [BEq α] [LawfulBEq α] (values : List α) :
    values.eraseDups.Nodup := by
  induction values using List.reverseRecOn with
  | nil => simp
  | append_singleton values value ih =>
    rw [eraseDups_concat]
    split
    · exact ih
    next hfresh =>
      rw [← List.concat_eq_append]
      exact ih.concat fun hmem => hfresh (List.mem_eraseDups.1 hmem)

namespace RelationEdge

/-- The edges of the given references, with the given counts. -/
def edgesOf (count : Reference → Nat) (keys : List Reference) : List RelationEdge :=
  keys.map fun key => ⟨key.1, key.2, count key⟩

/-- Edges that are not concerned do not change. -/
theorem edgesOf_congr {count count' : Reference → Nat} {keys : List Reference}
    (h : ∀ key ∈ keys, count key = count' key) : edgesOf count keys = edgesOf count' keys :=
  List.map_congr_left fun key hkey => by rw [h key hkey]

/-- **A reference more**: its edge is there and its count is raised, or its edge is new. -/
theorem add_edgesOf {count count' : Reference → Nat} {keys : List Reference} (h : keys.Nodup)
    {key : Reference} (hkey : key ∉ keys → count key = 0) (hraised : count' key = count key + 1)
    (hothers : ∀ other, other ≠ key → count' other = count other) :
    add key.1 key.2 1 (edgesOf count keys) =
      edgesOf count' (if key ∈ keys then keys else keys ++ [key]) := by
  induction keys with
  | nil => simp [edgesOf, add, hraised, hkey]
  | cons first keys ih =>
    obtain ⟨hfirst, hnodup⟩ := List.nodup_cons.1 h
    by_cases hsame : first = key
    · subst hsame
      have hrest : edgesOf count keys = edgesOf count' keys :=
        edgesOf_congr fun other hother => (hothers other (ne_of_mem_of_not_mem hother hfirst)).symm
      rw [if_pos List.mem_cons_self]
      simpa [edgesOf, add, hraised] using hrest
    · have hrest := ih hnodup fun hnot => hkey (by simp [hnot, Ne.symm hsame])
      have hdiffers : ¬(first.1 = key.1 ∧ first.2 = key.2) := fun heq =>
        hsame (Prod.ext heq.1 heq.2)
      have hcons : (if key ∈ first :: keys then first :: keys else first :: keys ++ [key]) =
          first :: if key ∈ keys then keys else keys ++ [key] := by
        simp only [List.mem_cons, Ne.symm hsame, false_or]
        split <;> rfl
      rw [hcons]
      simpa [edgesOf, add, hdiffers, hothers first hsame] using hrest

/-- **References collected one after the other are counted**: there is one edge for each of them, in
the order of first occurrence, with the number of its occurrences. -/
theorem foldl_add_eq (walk : List Reference) :
    walk.foldl (fun edges reference => add reference.1 reference.2 1 edges) [] =
      walk.eraseDups.map fun reference => ⟨reference.1, reference.2, walk.count reference⟩ := by
  change _ = edgesOf walk.count walk.eraseDups
  -- A reference is added to the edges of those before it, so the walk is taken apart at its end.
  induction walk using List.reverseRecOn with
  | nil => rfl
  | append_singleton walk reference ih =>
    calc (walk ++ [reference]).foldl
          (fun edges reference => add reference.1 reference.2 1 edges) []
        = add reference.1 reference.2 1 (edgesOf walk.count walk.eraseDups) := by
          rw [List.foldl_append, ih, List.foldl_cons, List.foldl_nil]
      _ = edgesOf (walk ++ [reference]).count
            (if reference ∈ walk.eraseDups then walk.eraseDups
              else walk.eraseDups ++ [reference]) := by
          apply add_edgesOf (nodup_eraseDups walk)
          · intro hfresh
            exact List.count_eq_zero.2 fun hmem => hfresh (List.mem_eraseDups.2 hmem)
          · simp
          · intro other hne
            simp [List.count_append, Ne.symm hne]
      _ = edgesOf (walk ++ [reference]).count (walk ++ [reference]).eraseDups := by
          rw [eraseDups_concat]
          simp only [List.mem_eraseDups]

end RelationEdge

/-! ## Collecting -/

namespace RelationCollector

variable {collector : RelationCollector} {relation : RelationKind}

/-- The references of a list, collected one after the other. -/
def addAll (collector : RelationCollector) (walk : List Reference) : RelationCollector :=
  walk.foldl (fun collector reference => add reference.1 collector reference.2) collector

@[simp] theorem addAll_nil : collector.addAll [] = collector := rfl

@[simp] theorem addAll_append (walk others : List Reference) :
    collector.addAll (walk ++ others) = (collector.addAll walk).addAll others :=
  List.foldl_append

/-- What is collected of the parts of a list, one after the other. -/
theorem foldl_eq_addAll {α : Type} {step : RelationCollector → α → RelationCollector}
    {met : α → List Reference} (h : ∀ collector x, step collector x = collector.addAll (met x))
    (xs : List α) : xs.foldl step collector = collector.addAll (xs.flatMap met) := by
  induction xs generalizing collector with
  | nil => rfl
  | cons x xs ih => rw [List.foldl_cons, ih, h, List.flatMap_cons, addAll_append]

mutual

theorem addLink_eq : ∀ (collector : RelationCollector) (link : TypeLink),
    addLink relation collector link = collector.addAll (references relation [link])
  | collector, ⟨_, some target, args⟩ => by
    rw [addLink, addLinks_eq]
    simp [references, TypeLink.targetsAll, TypeLink.targets, addAll]
  | collector, ⟨_, none, args⟩ => by
    rw [addLink, addLinks_eq]
    simp [references, TypeLink.targetsAll, TypeLink.targets]

/-- **What is collected of links** is what they refer to, at every depth. -/
theorem addLinks_eq : ∀ (collector : RelationCollector) (links : List TypeLink),
    addLinks relation collector links = collector.addAll (references relation links)
  | collector, [] => rfl
  | collector, link :: links => by
    rw [addLinks, addLink_eq, addLinks_eq]
    simp [references, TypeLink.targetsAll]

end

/-- The references of the links of a list, link by link. -/
theorem references_map {α : Type} (link : α → TypeLink) (xs : List α) :
    references relation (xs.map link) = xs.flatMap fun x => references relation [link x] := by
  induction xs with
  | nil => rfl
  | cons x xs ih =>
    rw [List.flatMap_cons, ← ih]
    simp [references, TypeLink.targetsAll]

/-- What is collected of the links of a list, one after the other. -/
theorem foldl_addLink {α : Type} (link : α → TypeLink) (xs : List α)
    (collector : RelationCollector) :
    xs.foldl (fun collector x => addLink relation collector (link x)) collector =
      collector.addAll (references relation (xs.map link)) := by
  rw [references_map]
  exact foldl_eq_addAll (fun collector x => addLink_eq collector (link x)) xs

/-- What is collected of a member. -/
theorem addMember_eq (collector : RelationCollector) (typeLink : TypeLink)
    (attributes : List AttributeLink) :
    addMember relation collector typeLink attributes =
      collector.addAll (memberReferences relation typeLink attributes) := by
  rw [addMember, addAttributes, foldl_addLink, addLink_eq, memberReferences, addAll_append]

/-- What is collected of the members of a list, one after the other. -/
theorem foldl_addMember {α : Type} (typeLink : α → TypeLink) (attributes : α → List AttributeLink)
    (xs : List α) (collector : RelationCollector) :
    xs.foldl (fun collector x => addMember relation collector (typeLink x) (attributes x))
        collector =
      collector.addAll
        (xs.flatMap fun x => memberReferences relation (typeLink x) (attributes x)) :=
  foldl_eq_addAll (fun collector x => addMember_eq collector (typeLink x) (attributes x)) xs

/-- What can be looked up all at once can be looked up one by one. -/
theorem filterMap_of_mapM {α β : Type} {look : α → Option β} {xs : List α} {ys : List β}
    (h : xs.mapM look = some ys) : xs.filterMap look = ys := by
  induction xs generalizing ys with
  | nil => simpa using h
  | cons x xs ih =>
    simp only [List.mapM_cons, Option.bind_eq_bind, Option.bind_eq_some_iff, Option.pure_def,
      Option.some.injEq] at h
    obtain ⟨y, hy, rest, hrest, rfl⟩ := h
    rw [List.filterMap_cons_some hy, ih hrest]

/-- **What is collected of a method** is what a walk over it meets. -/
theorem addMethod_eq {model : ReferenceModel} {node : MethodNode} {walk : List Reference}
    (h : model.methodWalk? node = some walk) (collector : RelationCollector) :
    addMethod model collector node = collector.addAll walk := by
  simp only [ReferenceModel.methodWalk?, Option.bind_eq_bind, Option.bind_eq_some_iff,
    Option.pure_def, Option.some.injEq] at h
  obtain ⟨parameters, hparameters, localVariables, hlocals, callees, hcallees, rfl⟩ := h
  have hcalls (collector : RelationCollector) :
      callees.foldl (fun collector callee => add .calls collector callee.containingType)
          collector =
        collector.addAll (callees.map fun callee => (.calls, callee.containingType)) := by
    rw [addAll, List.foldl_map]
  rw [addMethod, filterMap_of_mapM hparameters, filterMap_of_mapM hlocals,
    filterMap_of_mapM hcallees, hcalls, addAttributes, foldl_addLink AttributeLink.typeLink,
    foldl_addMember ParameterNode.typeLink ParameterNode.attributes, addLinks_eq,
    foldl_addLink LocalVariableNode.typeLink]
  simp only [addAll_append]

/-- What is collected of methods, one after the other. -/
theorem foldl_addMethod {model : ReferenceModel} {nodes : List MethodNode}
    {walks : List (List Reference)} (h : nodes.mapM model.methodWalk? = some walks)
    (collector : RelationCollector) :
    nodes.foldl (addMethod model) collector = collector.addAll walks.flatten := by
  induction nodes generalizing collector walks with
  | nil =>
    obtain rfl : [] = walks := by simpa using h
    rfl
  | cons node nodes ih =>
    simp only [List.mapM_cons, Option.bind_eq_bind, Option.bind_eq_some_iff, Option.pure_def,
      Option.some.injEq] at h
    obtain ⟨walk, hwalk, rest, hrest, rfl⟩ := h
    rw [List.foldl_cons, addMethod_eq hwalk, ih hrest, List.flatten_cons, addAll_append]

/-- The edges that are collected are those of the references to other types. -/
theorem edges_addAll (collector : RelationCollector) (walk : List Reference) :
    (collector.addAll walk).edges =
      (walk.filter fun reference => reference.2 ≠ collector.owner).foldl
        (fun edges reference => RelationEdge.add reference.1 reference.2 1 edges)
        collector.edges := by
  induction walk generalizing collector with
  | nil => rfl
  | cons reference walk ih =>
    rw [addAll, List.foldl_cons, ← addAll, ih]
    by_cases hself : reference.2 = collector.owner <;> simp [add, hself]

end RelationCollector

namespace ReferenceModel

open RelationCollector

variable {model : ReferenceModel} {id : TypeId}

/-- **The derived relations of a type count the references of its walk.** -/
theorem deriveRelations_of_walk {walk : List Reference}
    (h : model.relationWalk? id = some walk) :
    model.deriveRelations id =
      walk.eraseDups.map fun reference => ⟨reference.1, reference.2, walk.count reference⟩ := by
  simp only [relationWalk?, Option.bind_eq_bind, Option.bind_eq_some_iff, Option.pure_def,
    Option.some.injEq] at h
  obtain ⟨node, hnode, fields, hfields, properties, hproperties, walks, hwalks, rfl⟩ := h
  have hmethods (collector : RelationCollector) :
      (model.declaredMethods id).foldl (addMethod model) collector =
        collector.addAll walks.flatten := foldl_addMethod hwalks collector
  rw [deriveRelations, hnode]
  dsimp only
  rw [filterMap_of_mapM hfields, filterMap_of_mapM hproperties, hmethods, addLinks_eq,
    addAttributes, foldl_addLink AttributeLink.typeLink,
    foldl_addMember FieldNode.typeLink FieldNode.attributes,
    foldl_addMember PropertyNode.typeLink PropertyNode.attributes]
  simp only [← addAll_append]
  rw [edges_addAll]
  exact RelationEdge.foldl_add_eq _

/-- What can be looked up one by one can be looked up all at once. -/
theorem exists_mapM {α β : Type} {look : α → Option β} {xs : List α}
    (h : ∀ x ∈ xs, ∃ y, look x = some y) : ∃ ys, xs.mapM look = some ys := by
  induction xs with
  | nil => exact ⟨[], rfl⟩
  | cons x xs ih =>
    obtain ⟨y, hy⟩ := h x (by simp)
    obtain ⟨ys, hys⟩ := ih fun other hother => h other (by simp [hother])
    exact ⟨y :: ys, by simp [hy, hys]⟩

/-- In a closed model, no walk over a method is given up. -/
theorem Closed.exists_methodWalk (h : model.Closed) {node : MethodNode}
    (hnode : node ∈ model.methods) : ∃ walk, model.methodWalk? node = some walk := by
  have hparameters : ∃ nodes, node.parameters.mapM model.parameter? = some nodes :=
    exists_mapM fun id hid => exists_parameter (h.hasHandle_of_method hnode (by
      simp [MethodNode.handles, MethodNode.memberHandles, hid]))
  have hlocals : ∃ nodes, node.localVariables.mapM model.localVariable? = some nodes :=
    exists_mapM fun id hid => exists_localVariable (h.hasHandle_of_method hnode (by
      simp [MethodNode.handles, MethodNode.memberHandles, hid]))
  have hcallees : ∃ nodes, node.callTargets.mapM model.method? = some nodes :=
    exists_mapM fun id hid => exists_method (h.hasHandle_of_method hnode (by
      simp [MethodNode.handles, hid]))
  obtain ⟨parameters, hparameters⟩ := hparameters
  obtain ⟨localVariables, hlocals⟩ := hlocals
  obtain ⟨callees, hcallees⟩ := hcallees
  exact ⟨_, by rw [methodWalk?, hparameters, hlocals, hcallees]; rfl⟩

/-- **In a closed model, no walk over a type is given up.** -/
theorem Closed.exists_relationWalk (h : model.Closed) (hid : model.hasHandle id) :
    ∃ walk, model.relationWalk? id = some walk := by
  obtain ⟨node, hnode⟩ := exists_type hid
  have hmem := mem_of_type hnode
  have hfields : ∃ nodes, node.fields.mapM model.field? = some nodes :=
    exists_mapM fun id hid => exists_field (h.hasHandle_of_type hmem (by
      simp [TypeNode.handles, TypeNode.memberHandles, hid]))
  have hproperties : ∃ nodes, node.properties.mapM model.property? = some nodes :=
    exists_mapM fun id hid => exists_property (h.hasHandle_of_type hmem (by
      simp [TypeNode.handles, TypeNode.memberHandles, hid]))
  have hwalks : ∃ walks, (model.methods.toList.filter fun method =>
      !method.isSynthetic && method.containingType = id).mapM model.methodWalk? = some walks :=
    exists_mapM fun method hmethod =>
      h.exists_methodWalk (Array.mem_toList_iff.1 (List.mem_filter.1 hmethod).1)
  obtain ⟨fields, hfields⟩ := hfields
  obtain ⟨properties, hproperties⟩ := hproperties
  obtain ⟨walks, hwalks⟩ := hwalks
  exact ⟨_, by rw [relationWalk?, hnode, Option.bind_eq_bind, Option.bind_some, hfields,
    hproperties, Option.bind_eq_bind, Option.bind_some]; dsimp only; rw [hwalks]; rfl⟩

/-- **Derived relations are exact counts.** In a model where every stored handle leads to a node,
the walk over a type gets to its end, and the derived relations of the type have one edge for each
reference to another type that it meets, in the order of first occurrence, with the number of its
occurrences. -/
theorem deriveRelations_counts (hclosed : model.Closed) (hid : model.hasHandle id) :
    ∃ walk, model.relationWalk? id = some walk ∧
      model.deriveRelations id = walk.eraseDups.map fun reference =>
        ⟨reference.1, reference.2, walk.count reference⟩ := by
  obtain ⟨walk, hwalk⟩ := hclosed.exists_relationWalk hid
  exact ⟨walk, hwalk, deriveRelations_of_walk hwalk⟩

/-- An order with a list of items and a first item; it can be given further items, which calls a
method of its own and one of an audit twice. -/
def orders : ReferenceModel where
  types := #[
    { id := ⟨0⟩, name := "Order", fullName := "Order", fields := [⟨0⟩, ⟨1⟩], methods := [⟨0⟩] },
    { id := ⟨1⟩, name := "List", fullName := "List" },
    { id := ⟨2⟩, name := "Item", fullName := "Item" },
    { id := ⟨3⟩, name := "Audit", fullName := "Audit", methods := [⟨1⟩] }]
  methods := #[
    { id := ⟨0⟩, name := "add", kind := .method, containingType := ⟨0⟩, parameters := [⟨0⟩]
      returnType := some order, calls := [⟨some ⟨1⟩⟩, ⟨some ⟨0⟩⟩, ⟨none⟩, ⟨some ⟨1⟩⟩] },
    { id := ⟨1⟩, name := "note", kind := .method, containingType := ⟨3⟩ }]
  fields := #[
    { id := ⟨0⟩, name := "items", containingType := ⟨0⟩
      typeLink := { name := "List<Item>", target := some ⟨1⟩, genericArguments := [item] } },
    { id := ⟨1⟩, name := "first", typeLink := item, containingType := ⟨0⟩ }]
  parameters := #[{ id := ⟨0⟩, name := "next", typeLink := item, containingMethod := ⟨0⟩ }]
where
  order : TypeLink := { name := "Order", target := some ⟨0⟩ }
  item : TypeLink := { name := "Item", target := some ⟨2⟩ }

/-- The order declares an item twice, once inside of a list, and does not refer to itself. -/
theorem orders_counts :
    orders.Closed ∧ orders.hasHandle (⟨0⟩ : TypeId) ∧
    orders.deriveRelations ⟨0⟩ =
      [⟨.declarations, ⟨1⟩, 1⟩, ⟨.declarations, ⟨2⟩, 2⟩, ⟨.parameters, ⟨2⟩, 1⟩,
        ⟨.calls, ⟨3⟩, 2⟩] := by
  have hclosed : orders.Closed := by
    intro kind
    cases kind <;> decide
  have hid : orders.hasHandle (⟨0⟩ : TypeId) := by decide
  obtain ⟨walk, hwalk, hedges⟩ := deriveRelations_counts hclosed hid
  have hmet : orders.relationWalk? ⟨0⟩ = some [(.declarations, ⟨1⟩), (.declarations, ⟨2⟩),
      (.declarations, ⟨2⟩), (.parameters, ⟨2⟩), (.calls, ⟨3⟩), (.calls, ⟨3⟩)] := by rfl
  obtain rfl := Option.some.inj (hwalk.symm.trans hmet)
  exact ⟨hclosed, hid, hedges.trans (by decide)⟩

end ReferenceModel

end FactGraph
