import FactGraph.Proofs.Linking.Moves

/-!
# What a look-up sees

To find the declared type of a full name, a look-up reads little of a model: the declared types by
full name, handle and project, and the paths of the projects. Once all types are declared, a link
run changes neither, so a name means the same to the last link as to the first one.

## Main definitions

* `ReferenceModel.declared`, `ReferenceModel.paths`: all that a look-up reads
* `chosen?`: the choice among the declared types of one full name

## Main results

* `lookupDeclared?_eq`: a look-up is that choice
* `NestMove.sameView`, `MemberMove.sameView`: what a look-up reads is kept
* `Refers.keep`: what a name refers to is kept
-/

namespace FactGraph

open Relation (ReflTransGen)

/-- A declared type as a look-up sees it. -/
structure DeclaredEntry where
  fullName : String
  type : TypeId
  project : Option ProjectId

/-- A type as a look-up would see it if it were declared. -/
def TypeNode.entry (node : TypeNode) : DeclaredEntry :=
  { fullName := node.fullName, type := node.id, project := node.project }

/-- What a look-up sees of a type; external types are passed over. -/
def TypeNode.declaredEntry? (node : TypeNode) : Option DeclaredEntry :=
  if node.isExternal then none else some node.entry

theorem TypeNode.declaredEntry?_of_header {node node' : TypeNode}
    (h : node'.header = node.header) : node'.declaredEntry? = node.declaredEntry? :=
  calc node'.declaredEntry? = node'.header.declaredEntry? := rfl
    _ = node.header.declaredEntry? := by rw [h]
    _ = node.declaredEntry? := rfl

namespace ReferenceModel

/-- The declared types as a look-up sees them. -/
def declared (model : ReferenceModel) : List DeclaredEntry :=
  model.types.toList.filterMap TypeNode.declaredEntry?

/-- The paths of the projects. -/
def paths (model : ReferenceModel) : List String :=
  model.projects.toList.map ProjectNode.path

/-- A look-up sees no difference between the models. -/
structure SameView (model model' : ReferenceModel) : Prop where
  declared : model'.declared = model.declared
  paths : model'.paths = model.paths

variable {model model' model'' : ReferenceModel}

theorem SameView.refl (model : ReferenceModel) : model.SameView model := ⟨rfl, rfl⟩

theorem SameView.trans (h : model.SameView model') (h' : model'.SameView model'') :
    model.SameView model'' :=
  ⟨h'.declared.trans h.declared, h'.paths.trans h.paths⟩

theorem SameView.symm (h : model.SameView model') : model'.SameView model :=
  ⟨h.declared.symm, h.paths.symm⟩

theorem projectOf?_eq (model : ReferenceModel) (path : String) :
    model.projectOf? path = (model.paths.findIdx? fun other => other = path).map Handle.mk := by
  rw [projectOf?, paths, List.findIdx?_map]
  cases model.projects
  simp [Function.comp_def]

theorem path_of_project? (model : ReferenceModel) (id : ProjectId) :
    (model.project? id).map ProjectNode.path = model.paths[id.idx]? := by
  rw [project?, paths, List.getElem?_map, Array.getElem?_toList]

end ReferenceModel

namespace Linker

variable {linker : Linker} {source : Occurrences} {model model' : ReferenceModel}
  {s s' : DraftState}

/-! ## The choice -/

/-- **The choice among the declared types of a full name**: the first one of the nearest project,
or, if the search may go that far, the first one of all. -/
def chosen? (order : List ProjectId) (global : Bool) (entries : List DeclaredEntry) :
    Option DeclaredEntry :=
  (order.findSome? fun place => entries.find? fun entry => entry.project = some place).or
    (if global then entries.head? else none)

/-- What is chosen is one of the entries. -/
theorem mem_of_chosen? {order : List ProjectId} {global : Bool} {entries : List DeclaredEntry}
    {entry : DeclaredEntry} (h : chosen? order global entries = some entry) :
    entry ∈ entries := by
  rcases Option.or_eq_some_iff.1 h with hnear | ⟨-, hfirst⟩
  · obtain ⟨place, -, hfind⟩ := List.exists_of_findSome?_eq_some hnear
    exact List.mem_of_find?_eq_some hfind
  · split at hfirst
    · exact List.mem_of_mem_head? hfirst
    · cases hfirst

/-- The entries of a full name are those of the declared types with it. -/
theorem filter_declared (model : ReferenceModel) (fullName : String) :
    (model.declared.filter fun entry => entry.fullName = fullName) =
      (declaredTypes model fullName).map TypeNode.entry := by
  unfold ReferenceModel.declared declaredTypes
  induction model.types.toList with
  | nil => rfl
  | cons node nodes ih =>
    by_cases hexternal : node.isExternal
    · simp [TypeNode.declaredEntry?, hexternal, ih]
    · by_cases hname : node.fullName = fullName
      · simp [TypeNode.declaredEntry?, TypeNode.entry, hexternal, hname, ih]
      · simp [TypeNode.declaredEntry?, TypeNode.entry, hexternal, hname, ih]

/-- **A look-up chooses among the declared types of the full name.** -/
theorem lookupDeclared?_eq (linker : Linker) (model : ReferenceModel) (fullName : String)
    (project : ProjectId) :
    linker.lookupDeclared? model fullName project =
      (chosen? (project :: linker.reachableFrom model project)
        (linker.index.allowsGlobal linker.policy)
        (model.declared.filter fun entry => entry.fullName = fullName)).map
          DeclaredEntry.type := by
  rw [filter_declared]
  have hnear (order : List ProjectId) (nodes : List TypeNode) :
      (order.findSome? fun place =>
          (nodes.map TypeNode.entry).find? fun entry => entry.project = some place) =
        (order.findSome? fun place => nodes.find? fun node => node.project = some place).map
          TypeNode.entry := by
    simp only [List.map_findSome?, List.find?_map]
    rfl
  unfold lookupDeclared? chosen?
  rw [hnear]
  split
  next hnil =>
    rw [hnil]
    simp [List.findSome?_eq_none_iff.2]
  next first others hcons =>
    rw [hcons]
    dsimp only
    split
    next node hnode => simp [hnode, TypeNode.entry]
    next hnone =>
      rw [hnone]
      split <;> simp [TypeNode.entry]

/-- The projects that can be reached are found by the paths of the projects. -/
theorem reachableFrom_eq (linker : Linker) (model : ReferenceModel) (project : ProjectId) :
    linker.reachableFrom model project =
      match model.paths[project.idx]?.bind linker.index.projectIndex? with
      | some position => linker.toProjects model (linker.index.reachableProjects position)
      | none => [] := by
  rw [← model.path_of_project? project, Option.bind_map]
  rfl

/-- A look-up sees no more of a model than its declared types and the paths of its projects. -/
theorem lookupDeclared?_congr (h : model.SameView model') (fullName : String)
    (project : ProjectId) :
    linker.lookupDeclared? model' fullName project =
      linker.lookupDeclared? model fullName project := by
  have hreachable : linker.reachableFrom model' project = linker.reachableFrom model project := by
    rw [reachableFrom_eq, reachableFrom_eq]
    simp only [toProjects, ReferenceModel.projectOf?_eq, h.paths]
  rw [lookupDeclared?_eq, lookupDeclared?_eq, hreachable, h.declared]

/-- **A look-up gives a declared type of the full name.** -/
theorem lookupDeclared?_spec (hmodel : model.Numbered) {fullName : String} {project : ProjectId}
    {id : TypeId} (h : linker.lookupDeclared? model fullName project = some id) :
    ∃ node, model.type? id = some node ∧ node.isExternal = false ∧ node.fullName = fullName := by
  rw [lookupDeclared?_eq, filter_declared] at h
  obtain ⟨entry, hentry, rfl⟩ := Option.map_eq_some_iff.1 h
  obtain ⟨node, hnode, rfl⟩ := List.mem_map.1 (mem_of_chosen? hentry)
  obtain ⟨hmem, hdeclared⟩ := List.mem_filter.1 hnode
  simp only [Bool.and_eq_true, Bool.not_eq_true', decide_eq_true_eq] at hdeclared
  exact ⟨node, hmodel.type?_id (Array.mem_toList_iff.1 hmem), hdeclared⟩

/-- The external type that is found has the full name. -/
theorem findExternal?_spec {fullName : String} {id : TypeId}
    (h : findExternal? model fullName = some id) :
    ∃ node, model.type? id = some node ∧ node.isExternal = true ∧ node.fullName = fullName := by
  obtain ⟨i, hi, rfl⟩ := Option.map_eq_some_iff.1 h
  obtain ⟨hlt, hnode, -⟩ := Array.findIdx?_eq_some_iff_getElem.1 hi
  simp only [Bool.and_eq_true, decide_eq_true_eq] at hnode
  exact ⟨_, Array.getElem?_eq_getElem hlt, hnode⟩

/-! ## Nothing changes for a look-up -/

theorem NestMove.sameView (h : linker.NestMove s s') : s.model.SameView s'.model := by
  cases h
  exact ⟨filterMap_toList_modify fun _ => rfl, rfl⟩

theorem ExternalMove.sameView (h : linker.ExternalMove source s s') :
    s.model.SameView s'.model := by
  cases h
  refine ⟨?_, rfl⟩
  simp [ReferenceModel.declared, newExternal, TypeNode.declaredEntry?]

theorem MemberMove.sameView (h : linker.MemberMove source s s') : s.model.SameView s'.model := by
  cases h with
  | external h => exact h.sameView
  | addLinks id change links hid hdeclared houtline =>
    exact ⟨filterMap_toList_modify fun node =>
      TypeNode.declaredEntry?_of_header (TypeNode.header_of_outline (houtline node)), rfl⟩
  | addRelation => exact ⟨filterMap_toList_modify fun _ => rfl, rfl⟩
  | _ => exact ⟨rfl, rfl⟩

/-- What a name refers to is kept. -/
theorem Refers.keep {project : ProjectId} {fullName : String} {id : TypeId}
    (h : linker.Refers model project fullName id) (hview : model.SameView model')
    (hextends : model.Extends model') : linker.Refers model' project fullName id := by
  obtain ⟨node, hnode, hname, hrefers⟩ := h
  obtain ⟨node', hnode', hheader⟩ := hextends.type? id node hnode
  refine ⟨node', hnode', ?_⟩
  rw [← node'.header_isExternal, ← node'.header_fullName, hheader, lookupDeclared?_congr hview]
  exact ⟨hname, hrefers⟩

/-- What is inside of a type stays looked up from the project of the type. -/
theorem FromProject.keep {type : TypeId} {holds holds' : ProjectId → Prop}
    (h : FromProject model type holds) (hextends : model.Extends model')
    (hholds : ∀ project, holds project → holds' project) : FromProject model' type holds' := by
  obtain ⟨node, project, hnode, hown, hlooked⟩ := h
  obtain ⟨node', hnode', hheader⟩ := hextends.type? type node hnode
  refine ⟨node', project, hnode', ?_, hholds project hlooked⟩
  rw [← node'.header_project, hheader]
  exact hown

/-- What is linked stays linked. -/
theorem LinkedAll.keep {project : ProjectId} {links : List TypeLink}
    (h : linker.LinkedAll model project links) (hview : model.SameView model')
    (hextends : model.Extends model') : linker.LinkedAll model' project links := by
  intro part hpart
  obtain ⟨tree, hparsed, hname, htarget⟩ := h part hpart
  exact ⟨tree, hparsed, hname, fun id hid => (htarget id hid).keep hview hextends⟩

/-- A run changes nothing for a look-up if its moves do not. -/
theorem sameView_of_moves {move : DraftState → DraftState → Prop}
    (hmove : ∀ s s', move s s' → s.model.SameView s'.model) (h : ReflTransGen move s s') :
    s.model.SameView s'.model := by
  induction h with
  | refl => exact .refl _
  | tail _ hlast ih => exact ih.trans (hmove _ _ hlast)

theorem nestMoves_sameView (h : ReflTransGen linker.NestMove s s') : s.model.SameView s'.model :=
  sameView_of_moves (fun _ _ => NestMove.sameView) h

theorem memberMoves_sameView (h : ReflTransGen (linker.MemberMove source) s s') :
    s.model.SameView s'.model :=
  sameView_of_moves (fun _ _ => MemberMove.sameView) h

end Linker

end FactGraph
