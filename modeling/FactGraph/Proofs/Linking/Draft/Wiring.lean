import FactGraph.Proofs.Linking.Draft.Realizes
import FactGraph.Proofs.Linking.Draft.Follows

/-!
# The lists of the outer nodes

At the end of a run every file, every namespace and every type is entered in what it says it is
contained in, one after the other. When some of them have been entered, the lists hold these ones in
their order (`ReferenceModel.filled`), so in the end they are what can be read off the nodes.

## Main definitions

* `ReferenceModel.filled`: the model when some files, namespaces and types have been entered

## Main results

* `Linker.run_wireContainment`: the model with all lists of contents
-/

namespace FactGraph

namespace ReferenceModel

variable (model : ReferenceModel) (files : List FileNode) (spaces : List NamespaceNode)
  (types : List TypeNode)

/-- A project when these files and namespaces have been entered. -/
def fillProject (node : ProjectNode) : ProjectNode :=
  { node with
    solutions := model.solutionsListing node.id
    files := (files.filter fun file => file.project = node.id).map FileNode.id
    namespaces := (spaces.filter fun space =>
      space.parent.isNone && space.project = node.id).map NamespaceNode.id }

/-- A namespace when these namespaces and types have been entered. -/
def fillNamespace (node : NamespaceNode) : NamespaceNode :=
  { node with
    children := (spaces.filter fun space => space.parent = some node.id).map NamespaceNode.id
    types := (types.filter fun type =>
      type.containingType.isNone && type.namespaceId = some node.id).map TypeNode.id }

/-- A type with its members, when these types have been entered. -/
def fillType (node : TypeNode) : TypeNode :=
  { model.listType [] node with
    nestedTypes := (types.filter fun type => type.containingType = some node.id).map TypeNode.id }

/-- **The model when these files, namespaces and types have been entered.** -/
def filled : ReferenceModel :=
  { model.listed [] with
    repository := { model.repository with solutions := model.solutions.toList.map SolutionNode.id }
    solutions := model.solutions
    projects := model.projects.map (model.fillProject files spaces)
    namespaces := model.namespaces.map (fillNamespace spaces types)
    types := model.types.map (model.fillType types) }

variable {model files spaces types}

/-- **When all of them have been entered**, the lists are what can be read off the nodes. -/
theorem filled_all :
    model.filled model.files.toList model.namespaces.toList model.types.toList = model.wire := by
  have hentered (condition : MethodNode → Bool) : model.enteredWhere [] condition =
      handlesWhere model.methods condition MethodNode.id := by
    simp [enteredWhere]
  have htype : model.fillType model.types.toList = model.wireType := by
    funext node
    rw [fillType, listType, hentered, hentered, hentered]
    rfl
  have hmethod : model.listMethod [] = model.wireMethod := by
    funext node
    rw [listMethod, hentered]
    rfl
  have hproperty : model.listProperty [] = model.wireProperty := by
    funext node
    rw [listProperty, hentered]
    rfl
  have hsolutions : model.solutions.toList.map SolutionNode.id =
      handlesWhere model.solutions (fun _ => true) SolutionNode.id := by
    simp [handlesWhere]
  unfold filled listed wire
  rw [htype, hmethod, hproperty, hsolutions]
  rfl

theorem filled_hasHandle {kind : NodeKind} (id : Handle kind) :
    (model.filled files spaces types).hasHandle id = model.hasHandle id := by
  have hcount : (model.filled files spaces types).count kind = model.count kind := by
    cases kind <;> simp [count, filled, listed]
  rw [hasHandle, hasHandle, hcount]

/-! ## One more node -/

/-- **A file is entered** in its project. -/
theorem filled_file (h : model.Numbered) (file : FileNode) :
    model.filled (files ++ [file]) spaces types =
      { model.filled files spaces types with
        projects := (model.filled files spaces types).projects.modify file.project.idx fun node =>
          { node with files := node.files ++ [file.id] } } := by
  have hprojects : model.projects.map (model.fillProject (files ++ [file]) spaces) =
      (model.projects.map (model.fillProject files spaces)).modify file.project.idx fun node =>
        { node with files := node.files ++ [file.id] } := by
    refine map_eq_modify (fun _ _ => h.project_id) _ (fun node hid => ?_) fun node hid => ?_
    · simp [fillProject, List.filter_append, hid]
    · simp [fillProject, List.filter_append, Ne.symm hid]
  unfold filled
  rw [hprojects]

/-- **A namespace is entered** in the one around it. -/
theorem filled_inner (h : model.Numbered) {space : NamespaceNode} {outer : NamespaceId}
    (houter : space.parent = some outer) :
    model.filled files (spaces ++ [space]) types =
      { model.filled files spaces types with
        namespaces := (model.filled files spaces types).namespaces.modify outer.idx fun node =>
          { node with children := node.children ++ [space.id] } } := by
  have hnamespaces : model.namespaces.map (fillNamespace (spaces ++ [space]) types) =
      (model.namespaces.map (fillNamespace spaces types)).modify outer.idx fun node =>
        { node with children := node.children ++ [space.id] } := by
    refine map_eq_modify (fun _ _ => h.namespace_id) _ (fun node hid => ?_) fun node hid => ?_
    · simp [fillNamespace, List.filter_append, houter, hid]
    · simp [fillNamespace, List.filter_append, houter, Ne.symm hid]
  have hprojects : model.fillProject files (spaces ++ [space]) =
      model.fillProject files spaces := by
    funext node
    simp [fillProject, List.filter_append, houter]
  unfold filled
  rw [hnamespaces, hprojects]

/-- **An outermost namespace is entered** in its project. -/
theorem filled_outermost (h : model.Numbered) {space : NamespaceNode}
    (houter : space.parent = none) :
    model.filled files (spaces ++ [space]) types =
      { model.filled files spaces types with
        projects := (model.filled files spaces types).projects.modify space.project.idx fun node =>
          { node with namespaces := node.namespaces ++ [space.id] } } := by
  have hprojects : model.projects.map (model.fillProject files (spaces ++ [space])) =
      (model.projects.map (model.fillProject files spaces)).modify space.project.idx fun node =>
        { node with namespaces := node.namespaces ++ [space.id] } := by
    refine map_eq_modify (fun _ _ => h.project_id) _ (fun node hid => ?_) fun node hid => ?_
    · simp [fillProject, List.filter_append, houter, hid]
    · simp [fillProject, List.filter_append, houter, Ne.symm hid]
  have hnamespaces : fillNamespace (spaces ++ [space]) types = fillNamespace spaces types := by
    funext node
    simp [fillNamespace, List.filter_append, houter]
  unfold filled
  rw [hnamespaces, hprojects]

/-- **A nested type is entered** in the type around it. -/
theorem filled_nested (h : model.Numbered) {type : TypeNode} {outer : TypeId}
    (houter : type.containingType = some outer) :
    model.filled files spaces (types ++ [type]) =
      { model.filled files spaces types with
        types := (model.filled files spaces types).types.modify outer.idx fun node =>
          { node with nestedTypes := node.nestedTypes ++ [type.id] } } := by
  have htypes : model.types.map (model.fillType (types ++ [type])) =
      (model.types.map (model.fillType types)).modify outer.idx fun node =>
        { node with nestedTypes := node.nestedTypes ++ [type.id] } := by
    refine map_eq_modify (fun _ _ => h.type_id) _ (fun node hid => ?_) fun node hid => ?_
    · simp [fillType, List.filter_append, houter, hid]
    · simp [fillType, List.filter_append, houter, Ne.symm hid]
  have hnamespaces : fillNamespace spaces (types ++ [type]) = fillNamespace spaces types := by
    funext node
    simp [fillNamespace, List.filter_append, houter]
  unfold filled
  rw [htypes, hnamespaces]

/-- An outermost type is entered in its namespace, if it has one. -/
theorem fillType_outermost {type : TypeNode} (houter : type.containingType = none) :
    model.fillType (types ++ [type]) = model.fillType types := by
  funext node
  simp [fillType, List.filter_append, houter]

/-- **An outermost type is entered** in its namespace. -/
theorem filled_topLevel (h : model.Numbered) {type : TypeNode} {space : NamespaceId}
    (houter : type.containingType = none) (hspace : type.namespaceId = some space) :
    model.filled files spaces (types ++ [type]) =
      { model.filled files spaces types with
        namespaces := (model.filled files spaces types).namespaces.modify space.idx fun node =>
          { node with types := node.types ++ [type.id] } } := by
  have hnamespaces : model.namespaces.map (fillNamespace spaces (types ++ [type])) =
      (model.namespaces.map (fillNamespace spaces types)).modify space.idx fun node =>
        { node with types := node.types ++ [type.id] } := by
    refine map_eq_modify (fun _ _ => h.namespace_id) _ (fun node hid => ?_) fun node hid => ?_
    · simp [fillNamespace, List.filter_append, houter, hspace, hid]
    · simp [fillNamespace, List.filter_append, houter, hspace, Ne.symm hid]
  unfold filled
  rw [hnamespaces, fillType_outermost houter]

/-- A type in the global namespace is in no list. -/
theorem filled_global {type : TypeNode} (houter : type.containingType = none)
    (hspace : type.namespaceId = none) :
    model.filled files spaces (types ++ [type]) = model.filled files spaces types := by
  have hnamespaces : fillNamespace spaces (types ++ [type]) = fillNamespace spaces types := by
    funext node
    simp [fillNamespace, List.filter_append, houter, hspace]
  unfold filled
  rw [hnamespaces, fillType_outermost houter]

end ReferenceModel

namespace Linker

open LinkM

variable {full : LinkState} {model : ReferenceModel} {files : List FileNode}
  {spaces : List NamespaceNode} {types : List TypeNode}

/-! ## Steps -/

theorem run_wireFile (h : model.Numbered) {file : FileNode} (hid : model.hasHandle file.project) :
    (wireFile file).run { full with model := model.filled files spaces types } =
      .ok ((), { full with model := model.filled (files ++ [file]) spaces types }) := by
  rw [ReferenceModel.filled_file h]
  exact run_change ((ReferenceModel.filled_hasHandle _).trans hid) _

theorem run_wireNamespace (h : model.Numbered) {space : NamespaceNode}
    (hproject : model.hasHandle space.project)
    (hparent : ∀ id, space.parent = some id → model.hasHandle id) :
    (wireNamespace space).run { full with model := model.filled files spaces types } =
      .ok ((), { full with model := model.filled files (spaces ++ [space]) types }) := by
  unfold wireNamespace
  cases houter : space.parent with
  | some outer =>
    dsimp only
    rw [ReferenceModel.filled_inner h houter]
    exact run_change ((ReferenceModel.filled_hasHandle _).trans (hparent outer houter)) _
  | none =>
    dsimp only
    rw [ReferenceModel.filled_outermost h houter]
    exact run_change ((ReferenceModel.filled_hasHandle _).trans hproject) _

theorem run_wireType (h : model.Numbered) {type : TypeNode}
    (hspace : ∀ id, type.namespaceId = some id → model.hasHandle id)
    (houter : ∀ id, type.containingType = some id → model.hasHandle id) :
    (wireType type).run { full with model := model.filled files spaces types } =
      .ok ((), { full with model := model.filled files spaces (types ++ [type]) }) := by
  unfold wireType
  cases hcontaining : type.containingType with
  | some outer =>
    dsimp only
    rw [ReferenceModel.filled_nested h hcontaining]
    exact run_change ((ReferenceModel.filled_hasHandle _).trans (houter outer hcontaining)) _
  | none =>
    cases hnamespace : type.namespaceId with
    | some space =>
      dsimp only
      rw [ReferenceModel.filled_topLevel h hcontaining hnamespace]
      exact run_change ((ReferenceModel.filled_hasHandle _).trans (hspace space hnamespace)) _
    | none =>
      rw [ReferenceModel.filled_global hcontaining hnamespace]
      rfl

/-- What each step does to the model of what has been done, all of them do. -/
theorem run_forM_done {α : Type} {step : α → LinkM Unit} (done : List α → ReferenceModel)
    {xs : List α} (h : ∀ before, ∀ x ∈ xs, (step x).run { full with model := done before } =
      .ok ((), { full with model := done (before ++ [x]) })) :
    (xs.forM step).run { full with model := done [] } =
      .ok ((), { full with model := done xs }) := by
  have hfrom (before : List α) : (xs.forM step).run { full with model := done before } =
      .ok ((), { full with model := done (before ++ xs) }) := by
    induction xs generalizing before with
    | nil =>
      rw [List.append_nil]
      rfl
    | cons x xs ih =>
      obtain ⟨hfirst, hrest⟩ := forall_and.1 fun before => List.forall_mem_cons.1 (h before)
      refine (run_bind (hfirst before)).trans ((ih hrest (before ++ [x])).trans ?_)
      rw [List.append_assoc, List.singleton_append]
  exact hfrom []

section Wire

variable (hnumbered : model.Numbered) (hclosed : model.Closed)

include hnumbered hclosed

theorem run_wireFiles :
    (model.files.toList.forM wireFile).run { full with model := model.filled [] [] [] } =
      .ok ((), { full with model := model.filled model.files.toList [] [] }) := by
  refine run_forM_done (fun files => model.filled files [] []) fun before file hfile => ?_
  refine run_wireFile hnumbered (hclosed.hasHandle_up .file rfl (Array.mem_toList_iff.1 hfile) ?_)
  simp [FileNode.handles]

/-- Only the lists of the namespaces have changed when it is their turn. -/
theorem run_wireNamespaces :
    ((model.filled files [] []).namespaces.toList.forM wireNamespace).run
        { full with model := model.filled files [] [] } =
      .ok ((), { full with model := model.filled files model.namespaces.toList [] }) := by
  have hspaces : (model.filled files [] []).namespaces.toList.forM wireNamespace =
      model.namespaces.toList.forM wireNamespace := by
    rw [ReferenceModel.filled, Array.toList_map]
    exact List.forM_map
  rw [hspaces]
  refine run_forM_done (fun spaces => model.filled files spaces []) fun before space hspace => ?_
  have hup {kind : NodeKind} {id : Handle kind} (hid : .of id ∈ space.handles) :
      model.hasHandle id :=
    hclosed.hasHandle_up .space rfl (Array.mem_toList_iff.1 hspace) hid
  refine run_wireNamespace hnumbered (hup ?_) fun id hid => hup ?_
  · simp [NamespaceNode.handles]
  · simp [NamespaceNode.handles, hid]

theorem run_wireTypes :
    ((model.filled files spaces []).types.toList.forM wireType).run
        { full with model := model.filled files spaces [] } =
      .ok ((), { full with model := model.filled files spaces model.types.toList }) := by
  have htypes : (model.filled files spaces []).types.toList.forM wireType =
      model.types.toList.forM wireType := by
    rw [ReferenceModel.filled, Array.toList_map]
    exact List.forM_map
  rw [htypes]
  refine run_forM_done (model.filled files spaces) fun before type htype => ?_
  have hup {kind : NodeKind} {id : Handle kind} (hid : .of id ∈ type.handles) :
      model.hasHandle id :=
    hclosed.hasHandle_up .type rfl (Array.mem_toList_iff.1 htype) hid
  refine run_wireType hnumbered (fun id hid => hup ?_) fun id hid => hup ?_
  · simp [TypeNode.handles, TypeNode.memberHandles, hid]
  · simp [TypeNode.handles, hid]

end Wire

/-- The projects of the solutions were set aside in the order of the solutions. -/
theorem wireSolutions_projects (solutions : Array SolutionNode) :
    wireSolutions (solutions.toList.map SolutionNode.projects)
      (solutions.map fun node => { node with projects := [] }) = solutions := by
  unfold wireSolutions
  refine Array.ext (by simp) fun i _ hi => ?_
  simp [hi]

/-- **At the end of a run the lists are what can be read off the nodes.** -/
theorem run_wireContainment {known : List ModelNode} {s : DraftState}
    (h : full.Realizes [] known s) (hclosed : s.model.Closed) :
    wireContainment.run full = .ok ((), { full with model := s.model.wire }) := by
  have hstart : (modifyModel fun model => { model with
      repository := { model.repository with
        solutions := model.solutions.toList.map SolutionNode.id }
      solutions := wireSolutions full.members model.solutions }).run full =
        .ok ((), { full with model := s.model.filled [] [] [] }) := by
    refine congrArg (fun model => Except.ok ((), { full with model })) ?_
    dsimp only
    rw [h.members, h.model, ReferenceModel.listed, wireSolutions_projects, Array.toList_map,
      List.map_map]
    rfl
  have hmodel (full : LinkState) : LinkM.model.run full = .ok (full.model, full) := rfl
  unfold wireContainment
  refine (run_bind rfl).trans ((run_bind hstart).trans ?_)
  refine (run_bind (hmodel _)).trans ((run_bind (run_wireFiles h.numbered hclosed)).trans ?_)
  refine (run_bind (hmodel _)).trans ((run_bind (run_wireNamespaces h.numbered hclosed)).trans ?_)
  refine (run_bind (hmodel _)).trans ((run_wireTypes h.numbered hclosed).trans ?_)
  rw [ReferenceModel.filled_all]

end Linker

end FactGraph
