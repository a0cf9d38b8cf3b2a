import FactGraph.Proofs.Linking.Draft.Realizes
import FactGraph.Proofs.Linking.Ends

/-!
# Steps that follow a draft

A step of the linker is compared with the step that a link run in draft makes in its place: whenever
the one in draft ends, so does the step of the linker, and their results and the states that they
end in are as stated (`LinkM.Follows`). A longer step is taken apart on both sides at once. Where
the linker does something that a draft does not do, such as taking a handle or entering a method,
only its side goes on, and the other way round.

## Main definitions

* `LinkM.Follows`: whenever the step in draft ends, the step of the linker does, as stated
* `LinkM.Agrees`: the results are the same, and the state of the linker realizes the draft

## Main results

* `Follows.bind`, `Follows.mapM`, `Follows.forM`: both sides go on
* `Follows.first`, `Follows.under`: the linker goes on alone; what is known of the draft is used
* `follows_report`, `follows_addField` and its like: single steps
* `follows_enterMethod`: a method that has waited is entered
-/

namespace FactGraph.LinkM

open DraftM (Ends)

variable {α β γ δ : Type} {full : LinkState} {s : DraftState}

theorem run_bind {step : LinkM α} {next : α → LinkM β} {a : α} {full' : LinkState}
    (h : step.run full = .ok (a, full')) : (step >>= next).run full = (next a).run full' := by
  rw [StateT.run_bind, h]
  rfl

/-! ## Following a handle -/

/-- The handle that the next node of a kind gets. -/
theorem run_nextHandle_of {kind : NodeKind} {count : Nat} (h : full.model.count kind = count) :
    (nextHandle kind).run full = .ok (⟨count⟩, full) := by
  rw [← h]
  rfl

theorem run_require {kind : NodeKind} {id : Handle kind} (h : full.model.hasHandle id) :
    (require id).run full = .ok ((), full) := by
  simp [require, model, h]
  rfl

/-- What a handle leads to in the model is what it is followed to. -/
theorem run_orMissing {kind : NodeKind} {id : Handle kind} {find : ReferenceModel → Option α}
    {a : α} (h : find full.model = some a) :
    (do orMissing id (find (← model)) : LinkM α).run full = .ok (a, full) := by
  rw [run_bind (rfl : model.run full = .ok (full.model, full)), h]
  rfl

theorem run_typeAt {id : TypeId} {node : TypeNode} (h : full.model.type? id = some node) :
    (typeAt id).run full = .ok (node, full) :=
  run_orMissing h

theorem run_methodAt {id : MethodId} {node : MethodNode} (h : full.model.method? id = some node) :
    (methodAt id).run full = .ok (node, full) :=
  run_orMissing h

theorem run_parameterAt {id : ParameterId} {node : ParameterNode}
    (h : full.model.parameter? id = some node) :
    (parameterAt id).run full = .ok (node, full) :=
  run_orMissing h

theorem run_projectAt {id : ProjectId} {node : ProjectNode}
    (h : full.model.project? id = some node) :
    (projectAt id).run full = .ok (node, full) :=
  run_orMissing h

theorem run_fileAt {id : FileId} {node : FileNode} (h : full.model.file? id = some node) :
    (fileAt id).run full = .ok (node, full) :=
  run_orMissing h

/-! ## Changing nodes -/

/-- A model is changed once a handle has been followed. -/
theorem run_change {kind : NodeKind} {id : Handle kind} (hid : full.model.hasHandle id)
    (change : ReferenceModel → ReferenceModel) :
    (do require id; modifyModel change : LinkM Unit).run full =
      .ok ((), { full with model := change full.model }) :=
  run_bind (run_require hid)

theorem run_modifyType (full : LinkState) {id : TypeId} (hid : full.model.hasHandle id)
    (change : TypeNode → TypeNode) :
    (modifyType id change).run full = .ok ((), { full with model := { full.model with
      types := full.model.types.modify id.idx change } }) :=
  run_change hid _

theorem run_modifyMethod (full : LinkState) {id : MethodId} (hid : full.model.hasHandle id)
    (change : MethodNode → MethodNode) :
    (modifyMethod id change).run full = .ok ((), { full with model := { full.model with
      methods := full.model.methods.modify id.idx change } }) :=
  run_change hid _

theorem run_modifyProperty (full : LinkState) {id : PropertyId} (hid : full.model.hasHandle id)
    (change : PropertyNode → PropertyNode) :
    (modifyProperty id change).run full = .ok ((), { full with model := { full.model with
      properties := full.model.properties.modify id.idx change } }) :=
  run_change hid _

theorem run_modifyFile (full : LinkState) {id : FileId} (hid : full.model.hasHandle id)
    (change : FileNode → FileNode) :
    (modifyFile id change).run full = .ok ((), { full with model := { full.model with
      files := full.model.files.modify id.idx change } }) :=
  run_change hid _

/-! ## Steps side by side -/

/-- **The step follows the one in draft**: whenever the one in draft ends, started in `s`, so does
the step, started in `full`, and the results and the states that they end in are as `post` says. -/
def Follows (full : LinkState) (s : DraftState) (step : LinkM α) (draft : DraftM β)
    (post : α → β → LinkState → DraftState → Prop) : Prop :=
  ∀ b s', draft.run s = .ok (b, s') →
    ∃ a full', step.run full = .ok (a, full') ∧ post a b full' s'

/-- The results are the same, and the state of the linker realizes the draft. -/
abbrev Agrees (waiting : List WaitingMethod) (known : List ModelNode) (a b : α)
    (full : LinkState) (s : DraftState) : Prop :=
  a = b ∧ full.Realizes waiting known s

namespace Follows

variable {waiting : List WaitingMethod} {known : List ModelNode} {step : LinkM α}
  {draft : DraftM β} {post : α → β → LinkState → DraftState → Prop}

theorem of_run {a : α} {b : β} {full' : LinkState} {s' : DraftState}
    (hstep : step.run full = .ok (a, full')) (hdraft : draft.run s = .ok (b, s'))
    (h : post a b full' s') : Follows full s step draft post := by
  intro b' s'' hrun
  obtain ⟨rfl, rfl⟩ := Prod.mk.inj (Except.ok.inj (hdraft.symm.trans hrun))
  exact ⟨a, full', hstep, h⟩

theorem pure {a : α} {b : β} (h : post a b full s) :
    Follows full s (Pure.pure a) (Pure.pure b) post :=
  of_run rfl rfl h

theorem mono {post' : α → β → LinkState → DraftState → Prop} (h : Follows full s step draft post)
    (hpost : ∀ a b full' s', post a b full' s' → post' a b full' s') :
    Follows full s step draft post' := by
  intro b s' hrun
  obtain ⟨a, full', hstep, ha⟩ := h b s' hrun
  exact ⟨a, full', hstep, hpost a b full' s' ha⟩

/-- What holds whenever the step in draft ends may be used. -/
theorem under {fact : β → DraftState → Prop} (h : Follows full s step draft post)
    (hdraft : Ends s draft fact) :
    Follows full s step draft fun a b full' s' => post a b full' s' ∧ fact b s' := by
  intro b s' hrun
  obtain ⟨a, full', hstep, ha⟩ := h b s' hrun
  exact ⟨a, full', hstep, ha, hdraft b s' hrun⟩

/-- Both sides go on. -/
theorem bind {next : α → LinkM γ} {next' : β → DraftM δ}
    {goal : γ → δ → LinkState → DraftState → Prop} (h : Follows full s step draft post)
    (hnext : ∀ a b full' s', post a b full' s' → Follows full' s' (next a) (next' b) goal) :
    Follows full s (step >>= next) (draft >>= next') goal := by
  intro d s₂ hrun
  rw [StateT.run_bind] at hrun
  cases hdraft : draft.run s with
  | error => rw [hdraft] at hrun; cases hrun
  | ok result =>
    rw [hdraft] at hrun
    obtain ⟨a, full₁, hstep, ha⟩ := h result.1 result.2 hdraft
    obtain ⟨c, full₂, hstep₂, hc⟩ := hnext a result.1 full₁ result.2 ha d s₂ hrun
    refine ⟨c, full₂, ?_, hc⟩
    rw [StateT.run_bind, hstep]
    exact hstep₂

/-- The linker goes on alone. -/
theorem first {a : α} {full' : LinkState} {next : α → LinkM γ}
    {goal : γ → β → LinkState → DraftState → Prop} (hstep : step.run full = .ok (a, full'))
    (hnext : Follows full' s (next a) draft goal) : Follows full s (step >>= next) draft goal := by
  intro b s' hrun
  obtain ⟨c, full₂, hstep₂, hc⟩ := hnext b s' hrun
  refine ⟨c, full₂, ?_, hc⟩
  rw [StateT.run_bind, hstep]
  exact hstep₂

/-- The run in draft goes on alone. -/
theorem after {fact : β → DraftState → Prop} {next : β → DraftM δ}
    {goal : α → δ → LinkState → DraftState → Prop} (hdraft : Ends s draft fact)
    (hnext : ∀ b s', fact b s' → Follows full s' step (next b) goal) :
    Follows full s step (draft >>= next) goal := by
  intro d s₂ hrun
  rw [StateT.run_bind] at hrun
  cases hfirst : draft.run s with
  | error => rw [hfirst] at hrun; cases hrun
  | ok result =>
    rw [hfirst] at hrun
    exact hnext result.1 result.2 (hdraft _ _ hfirst) d s₂ hrun

/-- The linker goes on when the run in draft has come to its end. -/
theorem last {next : α → LinkM γ} {goal : γ → β → LinkState → DraftState → Prop}
    (h : Follows full s step draft post)
    (hnext : ∀ a b full' s', post a b full' s' →
      ∃ c full₂, (next a).run full' = .ok (c, full₂) ∧ goal c b full₂ s') :
    Follows full s (step >>= next) draft goal := by
  intro b s' hrun
  obtain ⟨a, full', hstep, ha⟩ := h b s' hrun
  obtain ⟨c, full₂, hstep₂, hc⟩ := hnext a b full' s' ha
  refine ⟨c, full₂, ?_, hc⟩
  rw [StateT.run_bind, hstep]
  exact hstep₂

/-- A result is changed in the same way. -/
theorem map {draft : DraftM α} (f : α → γ) (h : Follows full s step draft (Agrees waiting known)) :
    Follows full s (f <$> step) (f <$> draft) (Agrees waiting known) := by
  rw [map_eq_pure_bind, map_eq_pure_bind]
  refine h.bind ?_
  rintro a _ full' s' ⟨rfl, h'⟩
  exact .pure ⟨rfl, h'⟩

/-- A list is gone through side by side. -/
theorem forM {f : γ → LinkM Unit} {g : γ → DraftM Unit} {xs : List γ}
    (hstart : full.Realizes waiting known s)
    (h : ∀ x ∈ xs, ∀ full s, full.Realizes waiting known s →
      Follows full s (f x) (g x) fun _ _ full' s' => full'.Realizes waiting known s') :
    Follows full s (xs.forM f) (xs.forM g) fun _ _ full' s' =>
      full'.Realizes waiting known s' := by
  induction xs generalizing full s with
  | nil => exact .pure hstart
  | cons x xs ih =>
    exact (h x (by simp) full s hstart).bind fun _ _ _ _ hrest =>
      ih hrest fun y hy => h y (List.mem_cons_of_mem _ hy)

/-- The same with results. -/
theorem mapM {f : γ → LinkM α} {g : γ → DraftM α} {xs : List γ}
    (hstart : full.Realizes waiting known s)
    (h : ∀ x ∈ xs, ∀ full s, full.Realizes waiting known s →
      Follows full s (f x) (g x) (Agrees waiting known)) :
    Follows full s (xs.mapM f) (xs.mapM g) (Agrees waiting known) := by
  induction xs generalizing full s with
  | nil => exact .pure ⟨rfl, hstart⟩
  | cons x xs ih =>
    rw [List.mapM_cons, List.mapM_cons]
    refine (h x (by simp) full s hstart).bind ?_
    rintro a _ full₁ s₁ ⟨rfl, hrest⟩
    refine (ih hrest fun y hy => h y (List.mem_cons_of_mem _ hy)).bind ?_
    rintro others _ full₂ s₂ ⟨rfl, hlast⟩
    exact .pure ⟨rfl, hlast⟩

end Follows

/-! ## Single steps -/

section Steps

variable {waiting : List WaitingMethod} {known : List ModelNode}
  (h : full.Realizes waiting known s)

include h

/-- The handle that a node will get. -/
theorem run_nextHandle (kind : NodeKind) :
    (nextHandle kind).run full = .ok (⟨s.model.count kind⟩, full) :=
  run_nextHandle_of (h.count kind)

/-- A type is followed to itself, with its lists. -/
theorem follows_typeAt (id : TypeId) :
    Follows full s (typeAt id) (DraftM.typeAt id) fun a b full' s' =>
      a = s.model.listType (waiting.map WaitingMethod.id) b ∧ s.model.type? id = some b ∧
        full' = full ∧ s' = s := by
  intro b s' hrun
  obtain ⟨hnode, rfl⟩ := DraftM.ends_typeAt b s' hrun
  refine ⟨_, full, run_typeAt ?_, rfl, hnode, rfl, rfl⟩
  rw [h.model, ReferenceModel.listed_type?, hnode]
  rfl

theorem follows_report (finding : Diagnostic) :
    Follows full s (report finding) (DraftM.report finding) fun _ _ full' s' =>
      full'.Realizes waiting known s' :=
  .of_run rfl rfl (h.report finding)

theorem follows_postpone (call : PendingCall) :
    Follows full s (postpone call) (DraftM.postpone call) fun _ _ full' s' =>
      full'.Realizes waiting known s' :=
  .of_run rfl rfl (h.postpone call)

theorem follows_modifyType (id : TypeId) {change : TypeNode → TypeNode}
    (hheader : ∀ node, (change node).header = node.header)
    (hlists : ∀ node, s.model.listType (waiting.map WaitingMethod.id) (change node) =
      change (s.model.listType (waiting.map WaitingMethod.id) node)) :
    Follows full s (modifyType id change) (DraftM.modifyType id change) fun _ _ full' s' =>
      full'.Realizes waiting known s' ∧ s'.model.hasHandle id := by
  refine Follows.after DraftM.ends_require_hasHandle ?_
  rintro _ _ ⟨hid, rfl⟩
  refine .of_run (run_modifyType full ((h.hasHandle id).trans hid) change) rfl
    ⟨h.modifyType id hheader hlists, ?_⟩
  simpa [ReferenceModel.hasHandle, ReferenceModel.count] using of_decide_eq_true hid

theorem follows_modifyFile (id : FileId) {change : FileNode → FileNode}
    (hid : ∀ node, (change node).id = node.id) :
    Follows full s (modifyFile id change) (DraftM.modifyFile id change) fun _ _ full' s' =>
      full'.Realizes waiting known s' := by
  refine Follows.after DraftM.ends_require_hasHandle ?_
  rintro _ _ ⟨hfile, rfl⟩
  exact .of_run (run_modifyFile full ((h.hasHandle id).trans hfile) change) rfl
    (h.modifyFile id hid)

theorem follows_addNamespace {node : NamespaceNode} {make : NamespaceId → NamespaceNode}
    (hmake : make ⟨s.model.count .space⟩ = node) (hid : node.id = ⟨s.model.count .space⟩)
    (hnew : { node with children := [], types := [] } = node)
    (hfresh : Linker.findNamespace? s.model node.project node.fullName = none) :
    Follows full s (addNamespace node) (DraftM.addNamespace make) fun _ b full' s' =>
      b = node.id ∧ full'.Realizes waiting known s' ∧ s'.model.types = s.model.types := by
  subst hmake
  exact .of_run rfl rfl ⟨hid.symm, h.pushNamespace hid hnew hfresh, rfl⟩

theorem follows_addDeclared {project : ProjectId} {node : TypeNode} {make : TypeId → TypeNode}
    (hmake : make ⟨s.model.count .type⟩ = node) (hid : node.id = ⟨s.model.count .type⟩)
    (hnew : { node with
      nestedTypes := [], fields := [], properties := [], methods := [], constructors := []
      destructor := none } = node)
    (hproject : node.project = some project) (hexternal : node.isExternal = false)
    (hfresh : Linker.findFragments? s.model project node.fullName node.isPartial = none) :
    Follows full s (addDeclared project node) (DraftM.addType make) fun _ b full' s' =>
      b = node.id ∧ full'.Realizes waiting known s' := by
  subst hmake
  exact .of_run rfl rfl ⟨hid.symm, h.pushDeclared hid hnew hproject hexternal hfresh⟩

theorem follows_addExternal {node : TypeNode} {make : TypeId → TypeNode}
    (hmake : make ⟨s.model.count .type⟩ = node) (hid : node.id = ⟨s.model.count .type⟩)
    (hnew : { node with
      nestedTypes := [], fields := [], properties := [], methods := [], constructors := []
      destructor := none } = node)
    (hproject : node.project = none) (hexternal : node.isExternal = true)
    (hfresh : Linker.findExternal? s.model node.fullName = none) :
    Follows full s (addExternal node) (DraftM.addType make) fun _ b full' s' =>
      b = node.id ∧ full'.Realizes waiting known s' := by
  subst hmake
  exact .of_run rfl rfl ⟨hid.symm, h.pushExternal hid hnew hproject hexternal hfresh⟩

theorem follows_addField {node : FieldNode} {make : FieldId → FieldNode}
    (hmake : make ⟨s.model.count .field⟩ = node) (hid : node.id = ⟨s.model.count .field⟩)
    (htype : s.model.hasHandle node.containingType) :
    Follows full s (addField node) (DraftM.addField make) fun _ _ full' s' =>
      full'.Realizes waiting known s' := by
  subst hmake
  have hrun := run_modifyType
    { full with model := { full.model with
      fields := full.model.fields.push (make ⟨s.model.count .field⟩) } }
    ((h.hasHandle _).trans htype) fun type =>
      { type with fields := type.fields ++ [(make ⟨s.model.count .field⟩).id] }
  exact .of_run hrun rfl (h.pushField hid htype)

theorem follows_addProperty {node : PropertyNode} {make : PropertyId → PropertyNode}
    (hmake : make ⟨s.model.count .property⟩ = node) (hid : node.id = ⟨s.model.count .property⟩)
    (hnew : { node with accessors := [] } = node)
    (htype : s.model.hasHandle node.containingType) :
    Follows full s (addProperty node) (DraftM.addProperty make) fun _ b full' s' =>
      b = node.id ∧ full'.Realizes waiting (.of node.id :: known) s' := by
  subst hmake
  have hrun := run_modifyType
    { full with model := { full.model with
      properties := full.model.properties.push (make ⟨s.model.count .property⟩) } }
    ((h.hasHandle _).trans htype) fun type =>
      { type with properties := type.properties ++ [(make ⟨s.model.count .property⟩).id] }
  refine .of_run hrun rfl ⟨hid.symm, (h.pushProperty hid hnew htype).know ?_⟩
  rw [hid]
  simp [ReferenceModel.hasHandle, ReferenceModel.count]

theorem follows_addParameter {node : ParameterNode} {make : ParameterId → ParameterNode}
    (hmake : make ⟨s.model.count .parameter⟩ = node)
    (hid : node.id = ⟨s.model.count .parameter⟩)
    (hmethod : s.model.hasHandle node.containingMethod) :
    Follows full s (addParameter node) (DraftM.addParameter make) fun _ _ full' s' =>
      full'.Realizes waiting known s' := by
  subst hmake
  have hrun := run_modifyMethod
    { full with model := { full.model with
      parameters := full.model.parameters.push (make ⟨s.model.count .parameter⟩) } }
    ((h.hasHandle _).trans hmethod) fun method =>
      { method with parameters := method.parameters ++ [(make ⟨s.model.count .parameter⟩).id] }
  exact .of_run hrun rfl (h.pushParameter hid hmethod)

theorem follows_addLocalVariable {node : LocalVariableNode}
    {make : LocalVariableId → LocalVariableNode}
    (hmake : make ⟨s.model.count .localVariable⟩ = node)
    (hid : node.id = ⟨s.model.count .localVariable⟩)
    (hmethod : s.model.hasHandle node.containingMethod) :
    Follows full s (addLocalVariable node) (DraftM.addLocalVariable make) fun _ _ full' s' =>
      full'.Realizes waiting known s' := by
  subst hmake
  have hrun := run_modifyMethod
    { full with model := { full.model with
      localVariables := full.model.localVariables.push (make ⟨s.model.count .localVariable⟩) } }
    ((h.hasHandle _).trans hmethod) fun method =>
      { method with
        localVariables := method.localVariables ++ [(make ⟨s.model.count .localVariable⟩).id] }
  exact .of_run hrun rfl (h.pushLocalVariable hid hmethod)

/-- A method is added, and waits to be entered. -/
theorem follows_addMethod {node : MethodNode} {make : MethodId → MethodNode}
    (hmake : make ⟨s.model.count .method⟩ = node) (hid : node.id = ⟨s.model.count .method⟩)
    (hnew : { node with parameters := [], localVariables := [], localFunctions := [] } = node)
    (hfits : node.owner.Fits) (htype : s.model.hasHandle node.containingType)
    (hproperty : ∀ id, node.containingProperty = some id → s.model.hasHandle id)
    (houter : ∀ id, node.containingMethod = some id → s.model.hasHandle id)
    (hinside : ∀ method ∈ waiting, node.owner.IsInside method.id)
    (honly : node.kind = .destructor → Linker.hasDestructor s.model node.containingType = false) :
    Follows full s (addMethod node) (DraftM.addMethod make) fun _ b full' s' =>
      b = node.id ∧ full'.Realizes (⟨node.id, node.containingType, node.owner⟩ :: waiting)
        (.of node.id :: known) s' := by
  subst hmake
  exact .of_run rfl rfl
    ⟨hid.symm, h.pushMethod hid hnew hfits htype hproperty houter hinside honly⟩

end Steps

section Listed

variable {known : List ModelNode} (h : full.Realizes [] known s)

include h

/-- When no method waits, a type is there with all of its members. -/
theorem run_typeAt_listed {id : TypeId} {node : TypeNode} (hnode : s.model.type? id = some node) :
    (typeAt id).run full = .ok (s.model.listType [] node, full) := by
  refine run_typeAt ?_
  rw [h.model, ReferenceModel.listed_type?, hnode]
  rfl

/-- And a method is there with all of its contents. -/
theorem run_methodAt_listed {id : MethodId} {node : MethodNode}
    (hnode : s.model.method? id = some node) :
    (methodAt id).run full = .ok (s.model.listMethod [] node, full) := by
  refine run_methodAt ?_
  rw [h.model, ReferenceModel.listed_method?, hnode]
  rfl

end Listed

/-! ## Methods that have waited -/

section Enter

variable {waiting : List WaitingMethod} {known : List ModelNode} {method : WaitingMethod}

/-- A type with a method that is entered in it. -/
theorem listType_enterMember (h : full.Realizes (method :: waiting) known s)
    (haccessor : method.owner.kind ≠ .accessor) (hlocal : method.owner.kind ≠ .localFunction)
    {type : TypeNode} (htype : type.id = method.type) :
    s.model.listType (waiting.map WaitingMethod.id) type =
      (s.model.listType (method.id :: waiting.map WaitingMethod.id) type).enter method.owner.kind
        method.id := by
  obtain ⟨hwaits, hfree⟩ := h.waits_head
  obtain ⟨node, hnode, hown, howner⟩ := hwaits.method?
  have hkind : node.kind = method.owner.kind := congrArg MethodOwner.kind howner
  have hlast : ∀ i other, s.model.methods[i]? = some other → method.id.idx < i →
      other.kind ≠ node.kind := by
    intro i other hother hlt heq
    exact hlocal ((hkind.symm.trans heq.symm).trans (hwaits.later i other hother hlt).1)
  have hsame := ReferenceModel.enteredWhere_member h.numbered hnode hfree hlast
    (htype.trans hown.symm)
  rw [ReferenceModel.listType, hsame, hsame, hsame, hkind]
  cases hcase : method.owner.kind with
  | accessor => exact absurd hcase haccessor
  | localFunction => exact absurd hcase hlocal
  | method =>
    simp only [if_true, reduceCtorEq, if_false, List.append_nil]
    rfl
  | constructor =>
    simp only [if_true, reduceCtorEq, if_false, List.append_nil]
    rfl
  | destructor =>
    have hnone : s.model.enteredWhere (method.id :: waiting.map WaitingMethod.id) (fun other =>
        other.containingType = type.id && other.kind = .destructor) = [] := by
      refine ReferenceModel.handlesWhere_eq_nil fun other hother => ?_
      by_cases hin : other.containingType = type.id ∧ other.kind = .destructor
      · simp [hwaits.only hcase other hother hin.2 (hin.1.trans htype)]
      · simp [hin]
    simp only [if_true, reduceCtorEq, if_false, List.append_nil, hnone, List.nil_append,
      List.head?_cons]
    rfl

/-- **A method that has waited is entered** in what it belongs to. A draft does not change. -/
theorem run_enterMethod (h : full.Realizes (method :: waiting) known s) :
    ∃ full', (Linker.enterMethod method.type method.owner method.id).run full = .ok ((), full') ∧
      full'.Realizes waiting known s := by
  obtain ⟨hwaits, hfree⟩ := h.waits_head
  obtain ⟨node, hnode, hown, howner⟩ := hwaits.method?
  have hmem : node ∈ s.model.methods := Array.mem_of_getElem? hnode
  have hkind : node.kind = method.owner.kind := congrArg MethodOwner.kind howner
  have houter : node.containingMethod = method.owner.containingMethod :=
    congrArg MethodOwner.containingMethod howner
  have hproperty : node.containingProperty = method.owner.containingProperty :=
    congrArg MethodOwner.containingProperty howner
  have hfits := hwaits.fits
  unfold MethodOwner.Fits at hfits
  unfold Linker.enterMethod
  split at hfits
  next hcase =>
    obtain ⟨hnone, hsome⟩ := hfits
    obtain ⟨property, hin⟩ := Option.isSome_iff_exists.1 hsome
    rw [hin]
    have hid := h.housed.accessors node hmem property (hproperty.trans hin)
    refine ⟨_, run_modifyProperty full ((h.hasHandle property).trans hid) _, h.enter ?_⟩
    rw [h.model]
    exact (ReferenceModel.listed_enterAccessor h.numbered hnode hfree (hkind.trans hcase)
      (houter.trans hnone) (hproperty.trans hin) fun i other hother hlt =>
        (hwaits.later i other hother hlt).2.1).symm
  next hcase =>
    obtain ⟨hnone, hsome⟩ := hfits
    obtain ⟨outer, hin⟩ := Option.isSome_iff_exists.1 hsome
    rw [hnone, hin]
    have hid := h.housed.localFunctions node hmem outer (houter.trans hin)
    refine ⟨_, run_modifyMethod full ((h.hasHandle outer).trans hid) _, h.enter ?_⟩
    rw [h.model]
    refine (ReferenceModel.listed_enterLocalFunction h.numbered hnode hfree (hkind.trans hcase)
      (hproperty.trans hnone) (houter.trans hin) fun i other hother hlt heq => ?_).symm
    obtain ⟨-, -, around, haround, hle⟩ := hwaits.later i other hother hlt
    obtain rfl : around = outer := Option.some.inj (haround.symm.trans heq)
    exact absurd (hwaits.older around hin) (Nat.not_lt.2 hle)
  next haccessor hlocal =>
    rw [hfits.1, hfits.2]
    have hid : s.model.hasHandle method.type := hown ▸ h.housed.methods node hmem
    refine ⟨_, run_modifyType full ((h.hasHandle method.type).trans hid) _, h.enter ?_⟩
    rw [h.model]
    rw [← hown]
    exact (ReferenceModel.listed_enterMember h.numbered hnode hfree (houter.trans hfits.1)
      (hproperty.trans hfits.2) fun type htype =>
        listType_enterMember h haccessor hlocal (htype.trans hown)).symm

end Enter

end FactGraph.LinkM
