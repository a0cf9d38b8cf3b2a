import FactGraph.Proofs.Linking.Draft.Member

/-!
# Calls are linked as in draft

When calls are linked, no method waits any more, so the lists of methods and of parameters are all
that can be read off the nodes. A search through these lists finds what a search among the nodes
finds.

## Main results

* `run_firstMatching`, `run_firstOverload`: searches, which change nothing
* `follows_ensureSynthetic`: methods of external types
* `follows_linkCalls`: all calls
-/

namespace FactGraph.Linker

open LinkM

variable {linker : Linker} {full : LinkState} {s : DraftState} {known : List ModelNode}

/-! ## Searches among methods -/

/-- The methods of a list when none waits. -/
theorem enteredWhere_nil (model : ReferenceModel) (condition : MethodNode → Bool) :
    model.enteredWhere [] condition =
      ReferenceModel.handlesWhere model.methods condition MethodNode.id := by
  simp [ReferenceModel.enteredWhere]

/-- Following the handles of parameters. -/
theorem run_parametersAt {waiting : List WaitingMethod} (h : full.Realizes waiting known s)
    {nodes : List ParameterNode} (hnodes : ∀ node ∈ nodes, node ∈ s.model.parameters) :
    ((nodes.map ParameterNode.id).mapM parameterAt).run full = .ok (nodes, full) := by
  induction nodes with
  | nil => rfl
  | cons node nodes ih =>
    obtain ⟨hnode, hrest⟩ := List.forall_mem_cons.1 hnodes
    have hat : (parameterAt node.id).run full = .ok (node, full) := by
      refine run_parameterAt ?_
      rw [h.model, ReferenceModel.listed_parameter?]
      exact h.numbered.parameter?_id hnode
    rw [List.map_cons, List.mapM_cons, run_bind hat, run_bind (ih hrest)]
    rfl

theorem run_matchesSignature (h : full.Realizes [] known s) (name : String)
    (parameterTypes : List String) {node : MethodNode} (hnode : node ∈ s.model.methods) :
    (matchesSignature name parameterTypes node.id).run full =
      .ok (node.name = name && signatureOf s.model node.id = parameterTypes, full) := by
  have hparameters : (((s.model.listMethod [] node).parameters).mapM parameterAt).run full =
      .ok (s.model.parameters.toList.filter fun other => other.containingMethod = node.id, full) :=
    run_parametersAt h fun other hother => by simpa using List.mem_of_mem_filter hother
  have hlength : (s.model.listMethod [] node).parameters.length =
      (signatureOf s.model node.id).length := by
    simp [ReferenceModel.listMethod, ReferenceModel.parametersIn, ReferenceModel.handlesWhere,
      signatureOf]
  refine (run_bind (run_methodAt_listed h (h.numbered.method?_id hnode))).trans ?_
  split
  next hsame =>
    simp only [Bool.and_eq_true, decide_eq_true_eq] at hsame
    have hname : node.name = name := hsame.1
    rw [run_bind hparameters, decide_eq_true hname, Bool.true_and]
    rfl
  next hother =>
    have hno :
        (node.name = name && signatureOf s.model node.id = parameterTypes : Bool) = false := by
      refine Bool.eq_false_iff.2 fun hboth => hother ?_
      simp only [Bool.and_eq_true, decide_eq_true_eq] at hboth ⊢
      exact ⟨hboth.1, hlength.trans (congrArg List.length hboth.2)⟩
    rw [hno]
    rfl

/-- **The first method of a list that matches**, as a search among the nodes has it. -/
theorem run_firstMatching (h : full.Realizes [] known s) (name : String)
    (parameterTypes : List String) {nodes : List MethodNode}
    (hnodes : ∀ node ∈ nodes, node ∈ s.model.methods) :
    (firstMatching name parameterTypes (nodes.map MethodNode.id)).run full =
      .ok (matching? s.model nodes name parameterTypes, full) := by
  induction nodes with
  | nil => rfl
  | cons node nodes ih =>
    obtain ⟨hnode, hrest⟩ := List.forall_mem_cons.1 hnodes
    rw [List.map_cons, firstMatching, run_bind (run_matchesSignature h name parameterTypes hnode)]
    unfold matching?
    rw [List.find?_cons]
    cases (node.name = name && signatureOf s.model node.id = parameterTypes : Bool) with
    | true => rfl
    | false => exact ih hrest

/-- The methods of a kind in the list of a type are those that say so. -/
theorem enteredWhere_eq_map (model : ReferenceModel) (type : TypeId) (kind : MethodKind) :
    (model.enteredWhere [] fun method => method.containingType = type && method.kind = kind) =
      (methodsOfKind model type kind).map MethodNode.id :=
  enteredWhere_nil model _

theorem mem_methodsOfKind {model : ReferenceModel} {type : TypeId} {kind : MethodKind}
    {node : MethodNode} (h : node ∈ methodsOfKind model type kind) : node ∈ model.methods :=
  Array.mem_toList_iff.1 (List.mem_of_mem_filter h)

theorem run_ownOverload (h : full.Realizes [] known s) (name : String)
    (parameterTypes : List String) (node : TypeNode) :
    (ownOverload name parameterTypes (s.model.listType [] node)).run full =
      .ok (ownMethod? s.model name parameterTypes node, full) := by
  unfold ownOverload ownMethod?
  split
  next hexternal =>
    rw [if_pos (by exact hexternal)]
    rfl
  next hdeclared =>
    rw [if_neg (by exact hdeclared)]
    change (firstMatching name parameterTypes (s.model.enteredWhere [] _ ++
      s.model.enteredWhere [] _)).run full = _
    rw [enteredWhere_eq_map, enteredWhere_eq_map, ← List.map_append]
    refine run_firstMatching h name parameterTypes fun method hmethod => ?_
    rcases List.mem_append.1 hmethod with hmethod | hmethod
    · exact mem_methodsOfKind hmethod
    · exact mem_methodsOfKind hmethod

/-- **The first overload**, as a search among the nodes has it. -/
theorem run_firstOverload (h : full.Realizes [] known s) (name : String)
    (parameterTypes : List String) {types : List TypeId} {nodes : List TypeNode}
    (hnodes : List.Forall₂ (fun id node => s.model.type? id = some node) types nodes) :
    (firstOverload name parameterTypes types).run full =
      .ok (nodes.findSome? (ownMethod? s.model name parameterTypes), full) := by
  induction hnodes with
  | nil => rfl
  | @cons type node types nodes hnode _ ih =>
    rw [firstOverload, run_bind (run_typeAt_listed h hnode),
      run_bind (run_ownOverload h name parameterTypes node), List.findSome?_cons]
    cases ownMethod? s.model name parameterTypes node with
    | some method => rfl
    | none => exact ih

/-! ## Declared owners -/

theorem inheritanceOrder_listed (model : ReferenceModel) (waiting : List MethodId)
    (type : TypeId) :
    inheritanceOrder (model.listed waiting) type = inheritanceOrder model type := by
  have hbases : declaredBases (model.listed waiting) = declaredBases model := by
    funext type
    unfold declaredBases
    rw [ReferenceModel.listed_type?]
    cases model.type? type <;> rfl
  have hsize : (model.listed waiting).types.size = model.types.size := Array.size_map
  unfold inheritanceOrder
  rw [hbases, hsize]

theorem follows_findMethod (h : full.Realizes [] known s) (owner : TypeId) (name : String)
    (parameterTypes : List String) :
    Follows full s (findMethod owner name parameterTypes) (draftFind owner name parameterTypes)
      (Agrees [] known) := by
  refine Follows.first (rfl : model.run full = .ok (full.model, full)) ?_
  refine Follows.after DraftM.ends_model ?_
  rintro _ _ ⟨rfl, rfl⟩
  refine Follows.after (DraftM.ends_typesAt _) ?_
  rintro nodes _ ⟨hnodes, rfl⟩
  rw [h.model, inheritanceOrder_listed]
  exact .of_run (run_firstOverload h name parameterTypes hnodes) rfl ⟨rfl, h⟩

/-! ## External owners -/

theorem follows_addStubParameter {waiting : List WaitingMethod}
    (h : full.Realizes waiting known s) {method : MethodId} {project : ProjectId}
    (hmethod : .of method ∈ known) (hproject : .of project ∈ known) (parameterType : String) :
    Follows full s (linker.addStubParameter method project parameterType)
      (do
        let typeLink := linker.linkIn (← DraftM.model) project (TypeName.parse parameterType)
        DraftM.addParameter fun id => { id, name := "", typeLink, containingMethod := method })
      fun _ _ full' s' => full'.Realizes waiting known s' := by
  refine Follows.first (run_nextHandle h .parameter) ?_
  refine Follows.first (run_existingLink h (h.known _ hproject) _) ?_
  refine Follows.after DraftM.ends_model ?_
  rintro _ _ ⟨rfl, rfl⟩
  exact follows_addParameter h (by rfl) (by rfl) (h.known _ hmethod)

theorem follows_addSynthetic (h : full.Realizes [] known s) {owner : TypeId}
    (howner : s.model.hasHandle owner) (name : String) (parameterTypes : List String)
    (project : ProjectId) :
    Follows full s (linker.addSynthetic owner name parameterTypes project)
      (linker.draftSynthetic owner name parameterTypes project) (Agrees [] known) := by
  refine Follows.after DraftM.ends_require_hasHandle ?_
  rintro _ _ ⟨hproject, rfl⟩
  refine Follows.first (run_nextHandle h .method) ?_
  refine Follows.bind (follows_addMethod (h.know hproject) (by rfl) (by rfl) (by rfl)
    (by exact ⟨rfl, rfl⟩) (by exact howner) nofun nofun (by simp) nofun) ?_
  rintro _ _ full₁ s₁ ⟨rfl, h₁⟩
  have hstubs : Follows full₁ s₁
      (parameterTypes.forM (linker.addStubParameter ⟨s.model.count .method⟩ project)) _ _ :=
    .forM h₁ fun parameterType _ _ _ h' => follows_addStubParameter h' (List.mem_cons_self ..)
      (List.mem_cons_of_mem _ (List.mem_cons_self ..)) parameterType
  refine hstubs.bind ?_
  intro _ _ full₂ s₂ h₂
  obtain ⟨full₃, hrun, h₃⟩ := run_enterMethod h₂
  refine Follows.first (by exact hrun) (.pure ⟨rfl, h₃.forget ?_⟩)
  exact fun node hnode => List.mem_cons_of_mem _ (List.mem_cons_of_mem _ hnode)

theorem follows_ensureSynthetic (h : full.Realizes [] known s) {node : TypeNode}
    (hnode : s.model.type? node.id = some node) (name : String) (parameterTypes : List String)
    (project : ProjectId) :
    Follows full s (linker.ensureSynthetic node.id name parameterTypes project)
      (linker.draftMatching node.id name parameterTypes project) (Agrees [] known) := by
  refine Follows.first (run_typeAt_listed h hnode) ?_
  have hfirst : (firstMatching name parameterTypes (s.model.listType [] node).methods).run full =
      .ok (matching? s.model (methodsOfKind s.model node.id .method) name parameterTypes,
        full) := by
    refine Eq.trans ?_ (run_firstMatching h name parameterTypes fun _ => mem_methodsOfKind)
    rw [← enteredWhere_eq_map]
    rfl
  refine Follows.first hfirst ?_
  refine Follows.after DraftM.ends_model ?_
  rintro _ _ ⟨rfl, rfl⟩
  cases matching? s.model (methodsOfKind s.model node.id .method) name parameterTypes with
  | some method => exact .pure ⟨rfl, h⟩
  | none =>
    exact follows_addSynthetic h (ReferenceModel.hasHandle_of_type hnode) name parameterTypes
      project

/-! ## Calls -/

theorem follows_callOwner (h : full.Realizes [] known s) (callerType : TypeId)
    (pending : PendingCall) :
    Follows full s (linker.callOwner callerType pending) (linker.draftOwner callerType pending)
      (Agrees [] known) := by
  unfold callOwner draftOwner
  dsimp only
  split
  · exact .pure ⟨rfl, h⟩
  · exact follows_typeFor h _ _

theorem follows_callTarget (h : full.Realizes [] known s) {node : TypeNode}
    (hnode : s.model.type? node.id = some node) (pending : PendingCall) :
    Follows full s (linker.callTarget node.id pending) (linker.draftTarget node pending)
      (Agrees [] known) := by
  refine Follows.first (run_typeAt_listed h hnode) ?_
  unfold draftTarget
  dsimp only
  split
  next hexternal =>
    rw [if_pos (by exact hexternal)]
    exact (follows_ensureSynthetic h hnode _ _ _).map some
  next hdeclared =>
    rw [if_neg (by exact hdeclared)]
    exact follows_findMethod h _ _ _

theorem follows_reportUnresolved (h : full.Realizes [] known s) {node : TypeNode}
    (hnode : s.model.type? node.id = some node) (callerType : TypeId) (pending : PendingCall) :
    Follows full s (linker.reportUnresolved callerType node.id pending)
      (linker.draftUnresolved callerType node pending) fun _ _ full' s' =>
        full'.Realizes [] known s' := by
  refine Follows.first (run_typeAt_listed h hnode) ?_
  refine Follows.after DraftM.ends_projectAt ?_
  rintro project _ ⟨hproject, rfl⟩
  refine Follows.after DraftM.ends_typeAt ?_
  rintro caller _ ⟨hcaller, rfl⟩
  refine Follows.first (run_typeAt_listed h hcaller) ?_
  have hat : (projectAt pending.project).run full = .ok (s.model.listProject project, full) :=
    run_projectAt (by rw [h.model, ReferenceModel.listed_project?, hproject]; rfl)
  refine Follows.first hat ?_
  have hpath : Follows full s (firstFilePath (s.model.listType [] caller)) (draftFilePath caller)
      (Agrees [] known) := by
    have hfiles : (s.model.listType [] caller).files = caller.files := rfl
    unfold firstFilePath draftFilePath
    rw [hfiles]
    cases caller.files.head? with
    | none => exact .pure ⟨rfl, h⟩
    | some file =>
      refine Follows.after DraftM.ends_fileAt ?_
      rintro fileNode _ ⟨hfile, rfl⟩
      refine Follows.first (run_fileAt (by rw [h.model]; exact hfile)) ?_
      exact .pure ⟨rfl, h⟩
  refine hpath.bind ?_
  rintro path _ full₁ s₁ ⟨rfl, h₁⟩
  exact follows_report h₁ _

theorem follows_addCall (h : full.Realizes [] known s) (id : MethodId) (edge : CallEdge) :
    Follows full s (modifyMethod id fun node => { node with calls := node.calls ++ [edge] })
      (DraftM.modifyMethod id fun node => { node with calls := node.calls ++ [edge] })
      fun _ _ full' s' => full'.Realizes [] known s' := by
  refine Follows.after DraftM.ends_require_hasHandle ?_
  rintro _ _ ⟨hid, rfl⟩
  exact .of_run (run_modifyMethod full ((h.hasHandle id).trans hid) _) rfl (h.addCall id edge)

/-- **A call follows the draft.** -/
theorem follows_linkCall (h : full.Realizes [] known s) (pending : PendingCall) :
    Follows full s (linker.linkCall pending) (linker.draftCall pending)
      fun _ _ full' s' => full'.Realizes [] known s' := by
  refine Follows.after DraftM.ends_methodAt ?_
  rintro caller _ ⟨hcaller, rfl⟩
  refine Follows.first (run_methodAt_listed h hcaller) ?_
  refine Follows.bind (follows_callOwner h caller.containingType pending) ?_
  rintro owner _ full₁ s₁ ⟨rfl, h₁⟩
  refine Follows.after DraftM.ends_typeAt ?_
  rintro node _ ⟨hnode, rfl⟩
  obtain rfl := h₁.numbered.type_id hnode
  have hmem := ReferenceModel.mem_of_type hnode
  refine ((follows_callTarget h₁ hnode pending).under (ends_draftTarget hmem pending)).bind ?_
  rintro target _ full₂ s₂ ⟨⟨rfl, h₂⟩, hadds⟩
  dsimp only
  split
  next =>
    have hnode₂ : s₂.model.type? node.id = some node := by
      obtain ⟨hlt, hget⟩ := Array.getElem?_eq_some_iff.1 hnode
      have hkept := List.prefix_iff_getElem?.1 hadds.types node.id.idx (by simpa using hlt)
      rw [Array.getElem?_toList, Array.getElem_toList, hget] at hkept
      exact hkept
    refine (follows_reportUnresolved h₂ hnode₂ _ pending).bind ?_
    exact fun _ _ _ _ h₃ => follows_addCall h₃ _ _
  next => exact follows_addCall h₂ _ _

theorem follows_forM_linkCall (h : full.Realizes [] known s) (calls : List PendingCall) :
    Follows full s (calls.forM linker.linkCall) (calls.forM linker.draftCall)
      fun _ _ full' s' => full'.Realizes [] known s' :=
  .forM h fun pending _ _ _ h' => follows_linkCall h' pending

/-- **All calls follow the draft.** -/
theorem follows_linkCalls (h : full.Realizes [] known s) :
    Follows full s linker.linkCalls linker.draftCalls
      fun _ _ full' s' => full'.Realizes [] known s' := by
  refine Follows.first (rfl : (get : LinkM LinkState).run full = .ok (full, full)) ?_
  have hget : DraftM.Ends s get fun state s' => state = s ∧ s' = s := by
    rintro _ _ hrun
    cases hrun
    exact ⟨rfl, rfl⟩
  refine Follows.after hget ?_
  rintro _ _ ⟨rfl, rfl⟩
  rw [h.pending]
  exact follows_forM_linkCall h _

end FactGraph.Linker
