import FactGraph.Proofs.Linking.Draft.Scan
import FactGraph.Proofs.Model.Handles
import FactGraph.Proofs.Scope.Index

/-!
# Tables and scans find the same

The linker finds nodes by name in tables, which it keeps along with the nodes. What a table says at
any moment is what a scan of the nodes would say: it is so at the start, it stays so with each node
that is added, since a node is only added under a key that is not there yet, and a change of a node
behind its header shows in no table.

## Main definitions

* `LinkTables.InStep`: tables say what the nodes say

## Main results

* `InStep.pushNamespace`, `InStep.pushDeclared`, `InStep.pushExternal`: a node is added, in the
  list and in the tables
* `InStep.modifyType`: a type is changed behind its header
* `InStep.lookup_declaredAs`, `InStep.findDeclared?_eq`: the types of a full name by project
-/

namespace FactGraph

open Linker

/-- **Tables say what the nodes say**: a look-up finds what a scan finds. -/
structure LinkTables.InStep (tables : LinkTables) (model : ReferenceModel) : Prop where
  project? : ∀ path, tables.project? path = model.projectOf? path
  fragments? : ∀ project fullName isPartial,
    tables.fragments? project fullName isPartial =
      findFragments? model project fullName isPartial
  /-- A declared type has a project. -/
  declaredAs : ∀ fullName,
    (tables.declaredAs fullName).map (fun entry => (some entry.1, entry.2)) =
      (declaredTypes model fullName).map fun node => (node.project, node.id)
  space? : ∀ project fullName,
    tables.namespace? project fullName = findNamespace? model project fullName
  external? : ∀ fullName, tables.external? fullName = findExternal? model fullName

namespace LinkTables.InStep

variable {tables : LinkTables} {model : ReferenceModel}

/-- The tables do not depend on members. -/
theorem congr {model' : ReferenceModel} (h : tables.InStep model)
    (hprojects : model'.projects = model.projects)
    (hnamespaces : model'.namespaces = model.namespaces) (htypes : model'.types = model.types) :
    tables.InStep model' where
  project? path := by
    rw [h.project?, ReferenceModel.projectOf?, ReferenceModel.projectOf?, hprojects]
  fragments? project fullName isPartial := by
    rw [h.fragments?, findFragments?, findFragments?, htypes]
  declaredAs fullName := by rw [h.declaredAs, declaredTypes, declaredTypes, htypes]
  space? project fullName := by
    rw [h.space?, findNamespace?, findNamespace?, hnamespaces]
  external? fullName := by rw [h.external?, findExternal?, findExternal?, htypes]

/-! ## Nodes that are added -/

/-- What is found after one more node. The nodes before it come first. -/
theorem findIdx?_push_map {α : Type} {kind : NodeKind} (nodes : Array α) (node : α)
    (condition : α → Bool) :
    ((nodes.push node).findIdx? condition).map (@Handle.mk kind) =
      ((nodes.findIdx? condition).map Handle.mk).or
        (if condition node then some ⟨nodes.size⟩ else none) := by
  rw [Array.findIdx?_push]
  cases nodes.findIdx? condition with
  | some i => simp
  | none => cases condition node <;> simp

/-- A namespace is added that its project does not have yet. -/
theorem pushNamespace (h : tables.InStep model) {node : NamespaceNode}
    (hid : node.id = ⟨model.count .space⟩)
    (hfresh : findNamespace? model node.project node.fullName = none) :
    { tables with
      namespaces := ((node.project, node.fullName), node.id) :: tables.namespaces }.InStep
        { model with namespaces := model.namespaces.push node } where
  project? := h.project?
  fragments? := h.fragments?
  declaredAs := h.declaredAs
  external? := h.external?
  space? project fullName := by
    have hold := h.space? project fullName
    rw [LinkTables.namespace?] at hold ⊢
    rw [NameTable.lookup_cons_ite, findNamespace?, findIdx?_push_map, ← findNamespace?, hold]
    by_cases hkey : (project, fullName) = (node.project, node.fullName)
    · obtain ⟨rfl, rfl⟩ := Prod.mk.inj hkey
      rw [if_pos rfl, hfresh, Option.none_or, if_pos (by simp), hid]
      rfl
    · rw [if_neg hkey, if_neg fun hsame => hkey ?_, Option.or_none]
      simp only [Bool.and_eq_true, decide_eq_true_eq] at hsame
      rw [hsame.1, hsame.2]

/-- The first declaration of a type is added. -/
theorem pushDeclared (h : tables.InStep model) {project : ProjectId} {node : TypeNode}
    (hid : node.id = ⟨model.count .type⟩) (hproject : node.project = some project)
    (hexternal : node.isExternal = false)
    (hfresh : findFragments? model project node.fullName node.isPartial = none) :
    { tables with
      declared := tables.declared.push node.fullName (project, node.id)
      merged := ((project, node.fullName, node.isPartial), node.id) :: tables.merged }.InStep
        { model with types := model.types.push node } where
  project? := h.project?
  space? := h.space?
  fragments? other fullName isPartial := by
    have hold := h.fragments? other fullName isPartial
    rw [LinkTables.fragments?] at hold ⊢
    rw [NameTable.lookup_cons_ite, findFragments?, findIdx?_push_map, ← findFragments?, hold]
    by_cases hkey : (other, fullName, isPartial) = (project, node.fullName, node.isPartial)
    · obtain ⟨rfl, hname⟩ := Prod.mk.inj hkey
      obtain ⟨rfl, rfl⟩ := Prod.mk.inj hname
      rw [if_pos rfl, hfresh, Option.none_or, if_pos (by simp [hproject]), hid]
      rfl
    · rw [if_neg hkey, if_neg fun hsame => hkey ?_, Option.or_none]
      simp only [hproject, Bool.and_eq_true, decide_eq_true_eq, Option.some.injEq] at hsame
      rw [hsame.1.1, hsame.1.2, hsame.2]
  declaredAs fullName := by
    have hold := h.declaredAs fullName
    rw [LinkTables.declaredAs, declaredTypes] at hold ⊢
    rw [NameTable.get_push, Array.toList_push, List.filter_append, List.map_append, ← hold]
    by_cases hname : fullName = node.fullName
    · subst hname
      simp [hexternal, hproject]
    · simp [hname, Ne.symm hname]
  external? fullName := by
    have hold := h.external? fullName
    rw [LinkTables.external?] at hold ⊢
    rw [findExternal?, findIdx?_push_map, ← findExternal?, hold]
    simp [hexternal]

/-- An external type is added that is not there yet. -/
theorem pushExternal (h : tables.InStep model) {node : TypeNode}
    (hid : node.id = ⟨model.count .type⟩) (hproject : node.project = none)
    (hexternal : node.isExternal = true) (hfresh : findExternal? model node.fullName = none) :
    { tables with externals := (node.fullName, node.id) :: tables.externals }.InStep
        { model with types := model.types.push node } where
  project? := h.project?
  space? := h.space?
  fragments? other fullName isPartial := by
    have hold := h.fragments? other fullName isPartial
    rw [findFragments?, findIdx?_push_map, ← findFragments?, ← hold]
    simp [hproject, LinkTables.fragments?]
  declaredAs fullName := by
    have hold := h.declaredAs fullName
    rw [declaredTypes] at hold ⊢
    rw [Array.toList_push, List.filter_append, List.map_append, ← hold]
    simp [hexternal, LinkTables.declaredAs]
  external? fullName := by
    have hold := h.external? fullName
    rw [LinkTables.external?] at hold ⊢
    rw [NameTable.lookup_cons_ite, findExternal?, findIdx?_push_map, ← findExternal?, hold]
    by_cases hname : fullName = node.fullName
    · subst hname
      rw [if_pos rfl, hfresh, Option.none_or, if_pos (by simp [hexternal]), hid]
      rfl
    · rw [if_neg hname, if_neg (by simp [Ne.symm hname]), Option.or_none]

/-! ## Nodes that are changed -/

/-- What is found is read off the headers. -/
theorem findIdx?_modify {types : Array TypeNode} {change : TypeNode → TypeNode} (i : Nat)
    (hchange : ∀ node, (change node).header = node.header) {condition : TypeNode → Bool}
    (hcondition : ∀ node, condition node = condition node.header) :
    (types.modify i change).findIdx? condition = types.findIdx? condition := by
  have hread (nodes : Array TypeNode) :
      nodes.findIdx? condition = (nodes.map TypeNode.header).findIdx? condition := by
    rw [Array.findIdx?_map]
    congr 1
    exact funext hcondition
  have hsame : (types.modify i change).map TypeNode.header = types.map TypeNode.header := by
    refine Array.toList_inj.1 ?_
    rw [Array.toList_map, Array.toList_map, map_toList_modify hchange]
  rw [hread, hread types, hsame]

/-- A type is changed behind its header. -/
theorem modifyType (h : tables.InStep model) {change : TypeNode → TypeNode} (i : Nat)
    (hchange : ∀ node, (change node).header = node.header) :
    tables.InStep { model with types := model.types.modify i change } where
  project? := h.project?
  space? := h.space?
  fragments? other fullName isPartial := by
    rw [h.fragments?, findFragments?, findFragments?, findIdx?_modify i hchange fun _ => rfl]
  declaredAs fullName := by
    rw [h.declaredAs, declaredTypes, declaredTypes]
    have hread : ∀ nodes : List TypeNode, ((nodes.filter fun node =>
          !node.isExternal && node.fullName = fullName).map fun node => (node.project, node.id)) =
        nodes.filterMap fun node => if !node.header.isExternal && node.header.fullName = fullName
          then some (node.header.project, node.header.id) else none := by
      intro nodes
      rw [← List.filterMap_eq_map, List.filterMap_filter]
      rfl
    rw [hread, hread, filterMap_toList_modify fun node => by rw [hchange]]
  external? fullName := by
    rw [h.external?, findExternal?, findExternal?, findIdx?_modify i hchange fun _ => rfl]

/-! ## The projects of an index -/

/-- The projects at these positions, as the table and as a scan has them. -/
theorem projectsAt_eq (h : ∀ path, tables.project? path = model.projectOf? path) (linker : Linker)
    (positions : List Nat) :
    linker.projectsAt tables positions = linker.toProjects model positions := by
  unfold projectsAt toProjects
  congr 1
  funext position
  cases linker.index.projects[position]? with
  | none => rfl
  | some entry => exact h entry.path

/-! ## The types of a full name -/

/-- The first of these types that is one of the project. -/
theorem lookup_entries {entries : List (ProjectId × TypeId)} {nodes : List TypeNode}
    (h : entries.map (fun entry => (some entry.1, entry.2)) =
      nodes.map fun node => (node.project, node.id)) (place : ProjectId) :
    entries.lookup place =
      (nodes.find? fun node => node.project = some place).map TypeNode.id := by
  induction entries generalizing nodes with
  | nil =>
    obtain rfl : nodes = [] := by simpa using h.symm
    rfl
  | cons entry entries ih =>
    obtain ⟨node, others, rfl, hnode, hothers⟩ := List.map_eq_cons_iff.1 h.symm
    obtain ⟨hproject, hid⟩ := Prod.mk.inj hnode
    obtain ⟨project, id⟩ := entry
    rw [NameTable.lookup_cons_ite, List.find?_cons, ih hothers.symm, hproject]
    by_cases hplace : place = project
    · subst hplace
      simp [hid]
    · simp [hplace, Ne.symm hplace]

/-- **The declared type of a full name in a project**, as the table and as a scan has it. -/
theorem lookup_declaredAs (h : tables.InStep model) (fullName : String) (place : ProjectId) :
    (tables.declaredAs fullName).lookup place =
      ((declaredTypes model fullName).find? fun node => node.project = some place).map
        TypeNode.id :=
  lookup_entries (h.declaredAs fullName) place

/-- The first node of a list that satisfies a condition, by its position and as it is. -/
theorem findIdx?_map_mk {α : Type} {kind : NodeKind} {nodes : Array α} {nodeId : α → Handle kind}
    (hids : ∀ (id : Handle kind) node, nodes[id.idx]? = some node → nodeId node = id)
    (condition : α → Bool) :
    (nodes.findIdx? condition).map Handle.mk = (nodes.toList.find? condition).map nodeId := by
  cases hfound : nodes.findIdx? condition with
  | none =>
    have hnone := Array.findIdx?_eq_none_iff.1 hfound
    rw [List.find?_eq_none.2 fun node hnode => by simp [hnone node (Array.mem_toList_iff.1 hnode)]]
    rfl
  | some i =>
    obtain ⟨hlt, hcondition, hbefore⟩ := Array.findIdx?_eq_some_iff_getElem.1 hfound
    have hfirst : nodes.toList.find? condition = some nodes[i] :=
      List.find?_eq_some_iff_getElem.2 ⟨hcondition, i, by simpa using hlt, by simp, fun j hj => by
        simpa using hbefore j hj⟩
    rw [hfirst, Option.map_some, Option.map_some,
      hids ⟨i⟩ nodes[i] (Array.getElem?_eq_getElem hlt)]

/-- The first declared type of a project with a full name, as the table and as a scan has it. -/
theorem findDeclared?_eq (h : tables.InStep model) (hnumbered : model.Numbered)
    (hexternal : ∀ node ∈ model.types, node.isExternal = node.project.isNone)
    (fullName : String) (project : ProjectId) :
    (tables.declaredAs fullName).lookup project = findDeclared? model project fullName := by
  rw [h.lookup_declaredAs, findDeclared?, findIdx?_map_mk fun _ _ => hnumbered.type_id,
    declaredTypes, List.find?_filter, ← List.head?_filter, ← List.head?_filter]
  congr 2
  refine List.filter_congr fun node hnode => ?_
  have hplace := hexternal node (Array.mem_toList_iff.1 hnode)
  cases hproject : node.project with
  | none => simp
  | some own => simp [hplace, hproject, Bool.and_comm]

end LinkTables.InStep

end FactGraph
