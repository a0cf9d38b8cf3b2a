import FactGraph.Proofs.Linking.Synthetic
import FactGraph.Proofs.Model.Calls

/-!
# The first call of a synthetic method

A method of an external type is made when it is first called, and its parameters are linked then, as
seen from the project of that call. Later calls find the method, whatever their projects see. Calls
are linked in the order of their callers, so the caller that has made a method is the first one that
calls it.

## Main definitions

* `ReferenceModel.FirstCaller`: the first method with a call of the other one
* `Linker.CallAdded`: all that linking a call does to calls, methods and parameters
* `Linker.MadeByCalls`: methods were made by their first callers

## Main results

* `CallAdded.madeByCalls`: one more call keeps it true
* `Trace.madeByCalls`: the parameters of synthetic methods are linked from the first caller
-/

namespace FactGraph

/-- **The first caller of a method**: no method that stands before it calls the other one. -/
def ReferenceModel.FirstCaller (model : ReferenceModel) (caller callee : MethodId) : Prop :=
  model.Calls caller callee ∧ ∀ other, model.Calls other callee → caller.idx ≤ other.idx

namespace Linker

open DraftM
open Relation (ReflTransGen)

-- What is linked is a tree; how it was read does not matter.
attribute [local irreducible] TypeName.parse

variable {linker : Linker} {source : Occurrences} {model model' : ReferenceModel}
  {s s' : DraftState}

/-! ## Methods and their callers -/

/-- **Methods were made by their first callers**, from a number on: each has one, and its parameters
are linked as seen from the project of that caller. -/
def MadeByCalls (linker : Linker) (start : Nat) (model : ReferenceModel) : Prop :=
  ∀ id : MethodId, start ≤ id.idx → model.hasHandle id → ∃ caller project,
    model.FirstCaller caller id ∧ model.MethodFrom caller project ∧
      ∀ node ∈ model.parameters, node.containingMethod = id →
        linker.LinkedAll model project node.links

/-- **A call has been linked**, of a caller in the project: the caller calls one more method, which
may be a new one. No other method is new, and only the new one has got parameters. -/
structure CallAdded (linker : Linker) (project : ProjectId) (caller : MethodId)
    (target : Option MethodId) (model model' : ReferenceModel) : Prop where
  calls : ∀ other callee, model'.Calls other callee ↔
    model.Calls other callee ∨ other = caller ∧ target = some callee
  hasHandle : ∀ id : MethodId, model'.hasHandle id → model.hasHandle id ∨ target = some id
  parameters : ∀ node ∈ model'.parameters, node ∈ model.parameters ∨
    ¬model.hasHandle node.containingMethod ∧ linker.LinkedAll model' project node.links

/-- **One more call keeps it true** that methods were made by their first callers: a new method is
made by the call, and a method that was there keeps its first caller. -/
theorem CallAdded.madeByCalls {start : Nat} {project : ProjectId} {caller : MethodId}
    {target : Option MethodId} (hadded : linker.CallAdded project caller target model model')
    (h : linker.MadeByCalls start model) (hclosed : model.Closed)
    (hview : model.SameView model') (hextends : model.Extends model')
    (hcaller : model.MethodFrom caller project)
    (hlast : ∀ other callee, model.Calls other callee → other.idx ≤ caller.idx) :
    linker.MadeByCalls start model' := by
  have hcalled {other callee : MethodId} (hcalls : model.Calls other callee) :
      model.hasHandle callee := by
    obtain ⟨node, hnode, hcall⟩ := hcalls
    refine hclosed .method (.of callee) (mem_flatMap_of_getElem? hnode ?_)
    have hmem := ReferenceModel.MethodNode.mem_callTargets.2 hcall
    simp [MethodNode.handles, hmem]
  intro id hid hhandle
  by_cases hold : model.hasHandle id
  · -- The caller that has made the method comes before this one, or is the same.
    obtain ⟨first, own, ⟨hcalls, hfirst⟩, hfrom, hlinked⟩ := h id hid hold
    refine ⟨first, own, ⟨(hadded.calls _ _).2 (.inl hcalls), fun other hother => ?_⟩,
      hfrom.keep hextends, fun node hnode hmethod => ?_⟩
    · rcases (hadded.calls _ _).1 hother with hother | ⟨rfl, -⟩
      · exact hfirst other hother
      · exact hlast first id hcalls
    · rcases hadded.parameters node hnode with hnode | ⟨hnew, -⟩
      · exact (hlinked node hnode hmethod).keep hview hextends
      · exact absurd (hmethod ▸ hold) hnew
  · have htarget := (hadded.hasHandle id hhandle).resolve_left hold
    refine ⟨caller, project, ⟨(hadded.calls _ _).2 (.inr ⟨rfl, htarget⟩), fun other hother => ?_⟩,
      hcaller.keep hextends, fun node hnode hmethod => ?_⟩
    · rcases (hadded.calls _ _).1 hother with hother | ⟨rfl, -⟩
      · exact absurd (hcalled hother) hold
      · exact Nat.le_refl _
    · rcases hadded.parameters node hnode with hnode | ⟨-, hlinked⟩
      · have hmem : model.hasHandle node.containingMethod := by
          refine hclosed .parameter (.of node.containingMethod) ?_
          refine List.mem_flatMap.2 ⟨node, Array.mem_toList_iff.2 hnode, ?_⟩
          simp [ParameterNode.handles]
        exact absurd (hmethod ▸ hmem) hold
      · exact hlinked

/-! ## The target of a call -/

/-- What is linked in a model is linked in one with the same types and projects. -/
theorem LinkedAll.congr {project : ProjectId} {links : List TypeLink}
    (h : linker.LinkedAll model project links) (htypes : model'.types = model.types)
    (hprojects : model'.projects = model.projects) : linker.LinkedAll model' project links := by
  have hview : model.SameView model' :=
    ⟨by rw [ReferenceModel.declared, htypes, ReferenceModel.declared],
      by rw [ReferenceModel.paths, hprojects, ReferenceModel.paths]⟩
  intro part hpart
  obtain ⟨tree, hparsed, hname, htarget⟩ := h part hpart
  refine ⟨tree, hparsed, hname, fun id hid => ?_⟩
  unfold Refers ReferenceModel.type?
  rw [htypes, lookupDeclared?_congr hview]
  exact htarget id hid

/-- **The method has got parameters**, linked as seen from the project. Types, projects and methods
are the same. -/
structure ParametersAdded (linker : Linker) (project : ProjectId) (method : MethodId)
    (model model' : ReferenceModel) : Prop where
  numbered : model'.Numbered
  types : model'.types = model.types
  projects : model'.projects = model.projects
  methods : model'.methods = model.methods
  parameters : ∀ node ∈ model'.parameters, node ∈ model.parameters ∨
    node.containingMethod = method ∧ linker.LinkedAll model' project node.links

theorem ParametersAdded.trans {project : ProjectId} {method : MethodId}
    {model'' : ReferenceModel} (h : linker.ParametersAdded project method model model')
    (h' : linker.ParametersAdded project method model' model'') :
    linker.ParametersAdded project method model model'' where
  numbered := h'.numbered
  types := h'.types.trans h.types
  projects := h'.projects.trans h.projects
  methods := h'.methods.trans h.methods
  parameters node hnode := by
    rcases h'.parameters node hnode with hnode | hnew
    · exact (h.parameters node hnode).imp_right fun hnew =>
        ⟨hnew.1, hnew.2.congr h'.types h'.projects⟩
    · exact .inr hnew

theorem ends_addStub (hs : s.model.Numbered) (method : MethodId) (project : ProjectId)
    (parameterType : String) :
    Ends s (do
      let typeLink := linker.linkIn (← DraftM.model) project (TypeName.parse parameterType)
      addParameter fun id => { id, name := "", typeLink, containingMethod := method })
      fun _ s' => linker.ParametersAdded project method s.model s'.model := by
  refine ends_model.bind ?_
  rintro _ _ ⟨rfl, rfl⟩
  refine ends_model.bind ?_
  rintro _ _ ⟨rfl, rfl⟩
  refine ends_modify ⟨?_, rfl, rfl, rfl, fun node hnode => ?_⟩
  · exact (ReferenceModel.grows_pushParameter rfl).numbered hs
  · rcases Array.mem_push.1 hnode with hnode | rfl
    · exact .inl hnode
    · have hlinked := @linkedAll_linkIn linker _ hs project _ (TypeName.parsed_parse parameterType)
      exact .inr ⟨rfl, hlinked.congr rfl rfl⟩

theorem ends_forM_addStub (hs : s.model.Numbered) (method : MethodId) (project : ProjectId)
    (parameterTypes : List String) :
    Ends s (parameterTypes.forM fun parameterType => do
      let typeLink := linker.linkIn (← DraftM.model) project (TypeName.parse parameterType)
      addParameter fun id => { id, name := "", typeLink, containingMethod := method })
      fun _ s' => linker.ParametersAdded project method s.model s'.model := by
  induction parameterTypes generalizing s with
  | nil => exact .pure ⟨hs, rfl, rfl, rfl, fun _ => .inl⟩
  | cons parameterType parameterTypes ih =>
    exact (ends_addStub hs method project parameterType).bind fun _ _ hone =>
      (ih hone.numbered).mono fun _ _ hrest => hone.trans hrest

/-- **The target of a call has been found**, or has been made for it with its parameters. -/
structure TargetFound (linker : Linker) (project : ProjectId) (target : Option MethodId)
    (model model' : ReferenceModel) : Prop where
  types : model'.types = model.types
  projects : model'.projects = model.projects
  calls : ∀ caller callee, model'.Calls caller callee ↔ model.Calls caller callee
  hasHandle : ∀ id : MethodId, model'.hasHandle id → model.hasHandle id ∨ target = some id
  parameters : ∀ node ∈ model'.parameters, node ∈ model.parameters ∨
    ¬model.hasHandle node.containingMethod ∧ linker.LinkedAll model' project node.links

theorem TargetFound.refl (project : ProjectId) (target : Option MethodId)
    (model : ReferenceModel) : linker.TargetFound project target model model where
  types := rfl
  projects := rfl
  calls _ _ := Iff.rfl
  hasHandle _ := .inl
  parameters _ := .inl

/-- A method that calls nothing makes no difference to calls. -/
theorem calls_push {added : MethodNode} (hadded : added.calls = [])
    (hmethods : model'.methods = model.methods.push added) (caller callee : MethodId) :
    model'.Calls caller callee ↔ model.Calls caller callee := by
  unfold ReferenceModel.Calls ReferenceModel.method?
  rw [hmethods]
  constructor
  · rintro ⟨node, hnode, hcall⟩
    rw [Array.getElem?_push] at hnode
    split at hnode
    · obtain rfl := Option.some.inj hnode
      rw [hadded] at hcall
      cases hcall
    · exact ⟨node, hnode, hcall⟩
  · rintro ⟨node, hnode, hcall⟩
    exact ⟨node, getElem?_push_of_some hnode, hcall⟩

theorem ends_synthetic_made (hs : s.model.Numbered) (owner : TypeId) (name : String)
    (parameterTypes : List String) (project : ProjectId) :
    Ends s (linker.draftSynthetic owner name parameterTypes project) fun method s' =>
      linker.TargetFound project (some method) s.model s'.model := by
  unfold draftSynthetic
  refine ends_require.bind ?_
  rintro _ _ rfl
  have hadd : Ends s (addMethod fun id =>
      { id, name, kind := .method, containingType := owner, isSynthetic := true })
      fun method s₁ => method = ⟨s.model.methods.size⟩ ∧ s₁.model = { s.model with
        methods := s.model.methods.push
          { id := method, name, kind := .method, containingType := owner
            isSynthetic := true } } := by
    refine ends_model.bind ?_
    rintro _ _ ⟨rfl, rfl⟩
    exact ends_modify_pure ⟨rfl, rfl⟩
  refine hadd.bind ?_
  rintro method s₁ ⟨rfl, hmodel⟩
  have hs₁ : s₁.model.Numbered := by
    rw [hmodel]
    exact (ReferenceModel.grows_pushMethod rfl).numbered hs
  refine (ends_forM_addStub hs₁ _ project parameterTypes).bind fun _ s' hparameters =>
    .pure ⟨?_, ?_, fun caller callee => ?_, fun id hid => ?_, fun node hnode => ?_⟩
  · rw [hparameters.types, hmodel]
  · rw [hparameters.projects, hmodel]
  · exact calls_push rfl (hparameters.methods.trans (congrArg _ hmodel)) caller callee
  · -- The method that was added has the next number.
    simp only [ReferenceModel.hasHandle, ReferenceModel.count, decide_eq_true_eq,
      hparameters.methods, hmodel, Array.size_push] at hid ⊢
    rcases Nat.lt_or_eq_of_le (Nat.le_of_lt_succ hid) with hlt | heq
    · exact .inl (decide_eq_true hlt)
    · exact .inr (congrArg some (congrArg Handle.mk heq.symm))
  · rcases hparameters.parameters node hnode with hold | ⟨hmethod, hlinked⟩
    · rw [hmodel] at hold
      exact .inl hold
    · refine .inr ⟨?_, hlinked⟩
      simp [hmethod, ReferenceModel.hasHandle, ReferenceModel.count]

theorem ends_draftTarget_made (hs : s.model.Numbered) (owner : TypeNode) (pending : PendingCall) :
    Ends s (linker.draftTarget owner pending) fun target s' =>
      linker.TargetFound pending.project target s.model s'.model := by
  unfold draftTarget
  dsimp only
  split
  · suffices hensure : Ends s (linker.draftMatching owner.id pending.call.name
        (callSignature pending.call) pending.project) fun method s' =>
          linker.TargetFound pending.project (some method) s.model s'.model from
      hensure.map fun _ _ h => h
    unfold draftMatching
    refine ends_model.bind ?_
    rintro _ _ ⟨rfl, rfl⟩
    split
    · exact .pure (.refl ..)
    · exact ends_synthetic_made hs _ _ _ _
  · refine (ends_draftFind hs owner.id _ _).mono ?_
    rintro target _ ⟨rfl, -⟩
    exact .refl ..

/-! ## Calls -/

/-- The calls of a model when one method has got one more edge. -/
theorem calls_modify {caller : MethodId} (hcaller : model.hasHandle caller)
    {target : Option MethodId}
    (hmethods : model'.methods = model.methods.modify caller.idx fun node =>
      { node with calls := node.calls ++ [{ target }] }) (other callee : MethodId) :
    model'.Calls other callee ↔
      model.Calls other callee ∨ other = caller ∧ target = some callee := by
  unfold ReferenceModel.Calls ReferenceModel.method?
  rw [hmethods]
  constructor
  · rintro ⟨node, hnode, hcall⟩
    rw [Array.getElem?_modify] at hnode
    split at hnode
    next heq =>
      obtain ⟨old, hold, rfl⟩ := Option.map_eq_some_iff.1 hnode
      rcases List.mem_append.1 hcall with hcall | hcall
      · exact .inl ⟨old, hold, hcall⟩
      · have htarget := congrArg CallEdge.target (List.mem_singleton.1 hcall)
        exact .inr ⟨congrArg Handle.mk heq.symm, htarget.symm⟩
    next => exact .inl ⟨node, hnode, hcall⟩
  · rintro (⟨node, hnode, hcall⟩ | ⟨rfl, rfl⟩)
    · refine ⟨_, getElem?_modify_of_some hnode, ?_⟩
      split
      · exact List.mem_append_left _ hcall
      · exact hcall
    · obtain ⟨node, hnode⟩ := ReferenceModel.exists_method hcaller
      refine ⟨_, getElem?_modify_of_some hnode, ?_⟩
      rw [if_pos rfl]
      exact List.mem_append_right _ (List.mem_singleton_self _)

/-- **Linking a call adds it** to those of its caller. -/
theorem ends_draftCall_added (hs : s.Ready source) {pending : PendingCall}
    (hpending : pending ∈ s.pending) :
    Ends s (linker.draftCall pending) fun _ s' => ∃ target,
      linker.CallAdded pending.project pending.caller target s.model s'.model := by
  unfold draftCall
  refine ends_methodAt.bind ?_
  rintro caller _ ⟨hget, rfl⟩
  refine (ends_draftOwner hs hpending hget).bind ?_
  rintro owner s₁ ⟨hmembers, -, hpath, -⟩
  have hs₁ := memberMoves_sound hpath hs.sound
  refine ends_typeAt.bind ?_
  rintro node _ ⟨-, rfl⟩
  refine (ends_draftTarget_made hs₁.numbered node pending).bind fun target s₂ hfound => ?_
  have hcalls (other callee : MethodId) :
      s₁.model.Calls other callee ↔ s.model.Calls other callee := by
    simp only [ReferenceModel.Calls, ReferenceModel.method?, hmembers.methods]
  have hsame (id : MethodId) : s₁.model.hasHandle id = s.model.hasHandle id := by
    rw [ReferenceModel.hasHandle, ReferenceModel.hasHandle, hmembers.count (by decide)]
  have hedge (diagnostics : Diagnostics) : Ends { s₂ with diagnostics }
      (modifyMethod pending.caller fun node => { node with calls := node.calls ++ [{ target }] })
        fun _ s' => ∃ target,
          linker.CallAdded pending.project pending.caller target s.model s'.model := by
    refine ends_require_hasHandle.bind ?_
    rintro _ _ ⟨hcaller, rfl⟩
    refine ends_modify ⟨target, fun other callee => ?_, fun id hid => ?_, fun node hnode => ?_⟩
    · rw [← hcalls, ← hfound.calls]
      exact calls_modify hcaller rfl other callee
    · have hlt : id.idx < s₂.model.methods.size := by
        simpa [ReferenceModel.count] using of_decide_eq_true hid
      rw [← hsame]
      exact hfound.hasHandle id (decide_eq_true hlt)
    · rw [← hsame, ← hmembers.parameters]
      exact (hfound.parameters node hnode).imp_right fun hnew => ⟨hnew.1, hnew.2.congr rfl rfl⟩
  dsimp only
  split
  · refine (ends_draftUnresolved caller.containingType node pending).bind ?_
    rintro _ _ ⟨finding, -, rfl⟩
    exact hedge _
  · exact hedge s₂.diagnostics

/-- **All calls keep it true** that methods were made by their first callers, if they are linked in
the order of their callers. -/
theorem ends_forM_draftCall_made {start : Nat} {calls : List PendingCall} (hs : s.Ready source)
    (hpending : ∀ pending ∈ calls, pending ∈ s.pending)
    (hsorted : calls.Pairwise fun pending other => pending.caller.idx ≤ other.caller.idx)
    (hbefore : ∀ pending ∈ calls, ∀ other callee, s.model.Calls other callee →
      other.idx ≤ pending.caller.idx)
    (hmade : linker.MadeByCalls start s.model) :
    Ends s (calls.forM linker.draftCall) fun _ s' => linker.MadeByCalls start s'.model := by
  -- The callers that have their calls so far do not come behind those of the calls that are left.
  induction calls generalizing s with
  | nil => exact .pure hmade
  | cons pending calls ih =>
    have hmem := hpending pending (by simp)
    obtain ⟨hfirst, hrest⟩ := List.pairwise_cons.1 hsorted
    refine ((ends_draftCall_ready hs hmem).and (ends_draftCall_added hs hmem)).bind ?_
    rintro _ s₁ ⟨⟨hpath, -, hready⟩, target, hadded⟩
    refine ih hready ?_ hrest ?_ ?_
    · exact fun other hother => memberMoves_pending hpath other (hpending other (by simp [hother]))
    · intro other hother caller callee hcalls
      rcases (hadded.calls _ _).1 hcalls with hcalls | ⟨rfl, -⟩
      · exact hbefore other (by simp [hother]) caller callee hcalls
      · exact hfirst other hother
    · exact hadded.madeByCalls hmade hs.sound.closed (memberMoves_sameView hpath)
        (memberMoves_extends hpath) (hs.collected pending hmem).2 (hbefore pending (by simp))

/-- **The parameters of methods that were made for calls** are linked as seen from the projects of
their first callers. -/
theorem Trace.madeByCalls {repo : RepositoryFact} {fragments : List Fragment}
    {declared nested linked final : DraftState}
    (h : linker.Trace repo fragments declared nested linked final) :
    linker.MadeByCalls linked.model.methods.size final.model := by
  obtain ⟨callers, hroster, -⟩ := h.roster_linked
  have hnone (caller callee : MethodId) : ¬linked.model.Calls caller callee := by
    rintro ⟨node, hnode, hcall⟩
    have hentry := List.mem_of_getElem? (DraftState.roster_methods_getElem? hnode)
    rw [hroster, Roster.enroll, List.nil_append] at hentry
    obtain ⟨_, -, hentry⟩ := List.mem_map.1 hentry
    have hcalls : [] = node.calls := congrArg RosterEntry.calls hentry
    rw [← hcalls] at hcall
    cases hcall
  refine ends_forM_draftCall_made h.ready (fun _ => Array.mem_toList_iff.1) ?_ ?_ ?_ () final
    h.calls
  · rw [DraftState.pending_of_enroll hroster]
    refine pairwise_flatMap_zipIdx fun entry pending hmem => ?_
    obtain ⟨_, -, rfl⟩ := List.mem_map.1 hmem
    rfl
  · exact fun _ _ caller callee hcalls => absurd hcalls (hnone caller callee)
  · intro id hid hhandle
    exact absurd (of_decide_eq_true hhandle) (Nat.not_lt_of_le hid)

end Linker

end FactGraph
