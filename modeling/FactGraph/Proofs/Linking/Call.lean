import FactGraph.Proofs.Linking.Draft.Steps
import FactGraph.Proofs.Graph.BreadthFirst
import FactGraph.Proofs.Linking.Member

/-!
# Linking calls

The last phase of a link run gets to its end: a call follows handles only, from the calling method
to its type, from a type to its base types and from there to methods, and all of them lead to
nodes.

## Main results

* `reaches_draftFind`, `reaches_draftMatching`: the target of a call
* `reaches_draftCalls`: all calls that were set aside
-/

namespace FactGraph.Linker

open DraftM
open Relation (ReflTransGen)

-- What is linked is a tree; how it was read does not matter.
attribute [local irreducible] TypeName.parse

variable {linker : Linker} {source : Occurrences} {model model' : ReferenceModel}
  {s s' : DraftState}

/-! ## Declared owners -/

/-- The method that matches is one of those. -/
theorem method?_of_matching? (hmodel : model.Numbered) {methods : List MethodNode}
    (hmethods : ∀ node ∈ methods, node ∈ model.methods.toList) {name : String}
    {parameterTypes : List String} {id : MethodId}
    (h : matching? model methods name parameterTypes = some id) :
    ∃ node ∈ methods, model.method? id = some node := by
  obtain ⟨node, hnode, rfl⟩ := Option.map_eq_some_iff.1 h
  have hmem := List.mem_of_find?_eq_some hnode
  exact ⟨node, hmem, hmodel.method?_id (Array.mem_toList_iff.1 (hmethods node hmem))⟩

theorem mem_of_methodsOfKind {type : TypeId} {kind : MethodKind} {node : MethodNode}
    (h : node ∈ methodsOfKind model type kind) :
    node ∈ model.methods.toList ∧ node.containingType = type := by
  obtain ⟨hmem, hkind⟩ := List.mem_filter.1 h
  simp only [Bool.and_eq_true, decide_eq_true_eq] at hkind
  exact ⟨hmem, hkind.1⟩

/-- The base types of a declared type are there. -/
theorem hasHandle_of_declaredBases (hclosed : model.Closed) {type base : TypeId}
    (h : base ∈ declaredBases model type) : model.hasHandle base := by
  unfold declaredBases at h
  split at h
  next node hnode =>
    split at h
    · cases h
    · obtain ⟨link, hlink, htarget⟩ := List.mem_filterMap.1 h
      have hmem : base ∈ node.linkTargets := by
        rw [TypeNode.linkTargets, List.mem_append]
        exact .inl (TypeLink.mem_targetsAll.2
          ⟨link, List.mem_append_left _ hlink, TypeLink.target_mem_targets htarget⟩)
      refine hclosed .type (.of base) (mem_flatMap_of_getElem? hnode ?_)
      rw [TypeNode.handles, List.mem_append]
      exact .inr (mem_nodesOf.2 ⟨base, hmem, rfl⟩)
  next => cases h

/-- A search for a method goes through the owner and the types that it inherits from. -/
theorem inherits_of_inheritanceOrder {owner : TypeId} :
    ∀ id ∈ inheritanceOrder model owner,
      ReflTransGen (fun type base => base ∈ declaredBases model type) owner id := by
  intro id hid
  rcases List.mem_cons.1 hid with rfl | hid
  · exact .refl
  · obtain ⟨visit, hvisit, rfl⟩ := List.mem_map.1 hid
    refine BreadthFirst.forall_visits (fun type htype base hbase => ?_) .refl _ visit hvisit
    exact htype.tail hbase

/-- The types that a search for a method goes through are there. -/
theorem hasHandle_of_inheritanceOrder (hclosed : model.Closed) {owner : TypeId}
    (howner : model.hasHandle owner) :
    ∀ id ∈ inheritanceOrder model owner, model.hasHandle id := by
  intro id hid
  induction inherits_of_inheritanceOrder id hid with
  | refl => exact howner
  | tail _ hbase _ => exact hasHandle_of_declaredBases hclosed hbase

/-- The method that a call of a declared type matches is one of the type or of a type that it
inherits from. -/
theorem reaches_draftFind (hs : s.Sound) {owner : TypeId} (howner : s.model.hasHandle owner)
    (name : String) (parameterTypes : List String) :
    Reaches (linker.MemberMove source) s (draftFind owner name parameterTypes)
      fun target s' => ∀ method ∈ target, ∃ callee, s'.model.method? method = some callee ∧
        ReflTransGen (fun type base => base ∈ declaredBases s'.model type) owner
          callee.containingType := by
  unfold draftFind
  refine reaches_model.bind ?_
  rintro _ _ - ⟨rfl, rfl⟩
  have hhandles := hasHandle_of_inheritanceOrder hs.closed howner
  refine (reaches_typesAt hhandles).bind ?_
  rintro nodes _ - ⟨hnodes, rfl⟩
  refine .pure fun method hmethod => ?_
  obtain ⟨node, hnode, hown⟩ := List.exists_of_findSome?_eq_some hmethod
  obtain ⟨id, hid, hget⟩ := exists_of_forall₂_right hnodes hnode
  obtain rfl := hs.numbered.type_id hget
  unfold ownMethod? at hown
  split at hown
  · cases hown
  · have hkinds : ∀ other ∈ methodsOfKind s.model node.id .method ++
        methodsOfKind s.model node.id .constructor,
        other ∈ s.model.methods.toList ∧ other.containingType = node.id :=
      List.forall_mem_append.2 ⟨fun _ => mem_of_methodsOfKind, fun _ => mem_of_methodsOfKind⟩
    obtain ⟨callee, hcallee, hget⟩ :=
      method?_of_matching? hs.numbered (fun other hother => (hkinds other hother).1) hown
    refine ⟨callee, hget, ?_⟩
    rw [(hkinds callee hcallee).2]
    exact inherits_of_inheritanceOrder _ hid

/-! ## External owners -/

mutual

/-- A link to what is there already says what each part of the name refers to. -/
theorem linkedAll_linkIn (hmodel : model.Numbered) (project : ProjectId) :
    ∀ tree : TypeName, tree.Parsed → linker.LinkedAll model project
      [linker.linkIn model project tree]
  | ⟨base, args, suffix⟩, hparsed => by
    rw [linkIn]
    refine linkedAll_singleton hparsed ?_
      (linkedAll_linksIn hmodel project args (TypeName.parsed_args hparsed))
    intro id hid
    rcases Option.or_eq_some_iff.1 hid with hdeclared | ⟨hunseen, hfound⟩
    · obtain ⟨node, hnode, hexternal, hname⟩ := lookupDeclared?_spec hmodel hdeclared
      exact ⟨node, hnode, hname, .inl ⟨hexternal, hdeclared⟩⟩
    · obtain ⟨node, hnode, hexternal, hname⟩ := findExternal?_spec hfound
      exact ⟨node, hnode, hname, .inr ⟨hexternal, hunseen⟩⟩

theorem linkedAll_linksIn (hmodel : model.Numbered) (project : ProjectId) :
    ∀ trees : List TypeName, (∀ tree ∈ trees, tree.Parsed) → linker.LinkedAll model project
      (linker.linksIn model project trees)
  | [], _ => by simp [linksIn, TypeLink.partsAll, LinkedAll]
  | tree :: trees, hparsed => by
    rw [linksIn]
    exact linkedAll_append (linkedAll_linkIn hmodel project tree (hparsed tree (by simp)))
      (linkedAll_linksIn hmodel project trees
        fun other hother => hparsed other (by simp [hother]))

end

/-- The type is an external one. -/
def IsExternal (model : ReferenceModel) (type : TypeId) : Prop :=
  ∃ node, model.type? type = some node ∧ node.isExternal = true

theorem IsExternal.keep {type : TypeId} (h : IsExternal model type)
    (hextends : model.Extends model') : IsExternal model' type := by
  obtain ⟨node, hnode, hexternal⟩ := h
  obtain ⟨node', hnode', hheader⟩ := hextends.type? type node hnode
  refine ⟨node', hnode', ?_⟩
  rw [← node'.header_isExternal, hheader]
  exact hexternal

theorem IsExternal.not_declared (hs : s.Sound) {type : TypeId} (h : IsExternal s.model type) :
    ¬s.model.Declared type := by
  rintro ⟨other, own, hother, hown⟩
  obtain ⟨node, hnode, hexternal⟩ := h
  obtain rfl := Option.some.inj (hnode.symm.trans hother)
  have hnone := hs.external node (ReferenceModel.mem_of_type hnode)
  simp [hexternal, hown] at hnone

/-- In an external type, links may come from any project. -/
theorem IsExternal.linksFrom (hs : s.Sound) {type : TypeId} (h : IsExternal s.model type)
    {project : ProjectId} {links : List TypeLink}
    (hlinks : linker.LinkedAll s.model project links) :
    linker.LinksFrom s.model type links := by
  have hdeclared := h.not_declared hs
  obtain ⟨node, hnode, -⟩ := h
  exact ⟨node, project, hnode, fun own hown => absurd ⟨node, own, hnode, hown⟩ hdeclared, hlinks⟩

theorem reaches_draftSynthetic (hs : s.Sound) {owner : TypeId} (howner : IsExternal s.model owner)
    (name : String) (parameterTypes : List String) {project : ProjectId}
    (hproject : s.model.hasHandle project) :
    Reaches (linker.MemberMove source) s (linker.draftSynthetic owner name parameterTypes project)
      fun method s' => MethodIn s'.model method owner := by
  unfold draftSynthetic
  refine (reaches_require hproject).bind ?_
  rintro _ _ - rfl
  have hhandle : s.model.hasHandle owner := by
    obtain ⟨node, hnode, -⟩ := howner
    exact ReferenceModel.hasHandle_of_type hnode
  have hnone : linker.LinkedAll s.model project [] := by simp [LinkedAll, TypeLink.partsAll]
  refine (reaches_addMethod (.addMethod s _ rfl hhandle ⟨rfl, rfl⟩ rfl rfl rfl rfl
    (howner.linksFrom hs hnone) [] .outside
    (fun hdeclared => absurd hdeclared (howner.not_declared hs)) (.inr ⟨rfl, rfl, rfl⟩))).bind
      fun method s₁ hpath₁ hnode => ?_
  have hmethod : Inside s₁.model method owner [] := ⟨⟨_, hnode, rfl⟩, .inside hnode .outside⟩
  have hparameters : Reaches (linker.MemberMove source) s₁
      (parameterTypes.forM fun parameterType => do
        let typeLink := linker.linkIn (← DraftM.model) project (TypeName.parse parameterType)
        addParameter fun id => { id, name := "", typeLink, containingMethod := method })
      fun _ _ => True := by
    refine .forM fun parameterType _ s₂ hpath₂ => reaches_model.bind ?_
    rintro _ _ - ⟨rfl, rfl⟩
    have hpath := hpath₁.trans hpath₂
    have hs₂ := memberMoves_sound hpath hs
    have hextends := memberMoves_extends hpath
    have hmethod₂ := hmethod.keep (memberMoves_extends hpath₂)
    obtain ⟨node, hnode, htype⟩ := hmethod₂.methodIn
    refine reaches_addParameter (.addParameter s₂ _ node rfl hnode ?_ [] hmethod₂.inScope ?_)
    · rw [htype]
      exact (howner.keep hextends).linksFrom hs₂
        (linkedAll_linkIn hs₂.numbered project _ (TypeName.parsed_parse _))
    · rw [htype]
      exact fun hdeclared => absurd hdeclared ((howner.keep hextends).not_declared hs₂)
  exact hparameters.bind fun _ s₂ hpath₂ _ =>
    .pure (hmethod.keep (memberMoves_extends hpath₂)).methodIn

theorem reaches_draftMatching (hs : s.Sound) {owner : TypeId}
    (howner : IsExternal s.model owner) (name : String) (parameterTypes : List String)
    {project : ProjectId} (hproject : s.model.hasHandle project) :
    Reaches (linker.MemberMove source) s (linker.draftMatching owner name parameterTypes project)
      fun method s' => MethodIn s'.model method owner := by
  unfold draftMatching
  refine reaches_model.bind ?_
  rintro _ _ - ⟨rfl, rfl⟩
  split
  next method hmatch =>
    obtain ⟨node, hnode, hget⟩ :=
      method?_of_matching? hs.numbered (fun _ hnode => (mem_of_methodsOfKind hnode).1) hmatch
    exact .pure ⟨node, hget, (mem_of_methodsOfKind hnode).2⟩
  next => exact reaches_draftSynthetic hs howner name parameterTypes hproject

/-! ## Calls -/

/-- The owner of a call: the calling type, or one that is referred to from its project. -/
theorem reaches_draftOwner (hs : s.Sound) {pending : PendingCall}
    (hproject : s.model.hasHandle pending.project) (hcall : source.calls pending.call)
    {callerType : TypeId} {node : TypeNode} (hnode : s.model.type? callerType = some node)
    (hown : node.project = some pending.project) :
    Reaches (linker.MemberMove source) s (linker.draftOwner callerType pending)
      fun owner s' => s'.model.hasHandle owner ∧ (owner = callerType ∨
        FromProject s'.model callerType fun project =>
          ∃ fullName, linker.Refers s'.model project fullName owner) := by
  unfold draftOwner
  dsimp only
  split
  · exact .pure ⟨ReferenceModel.hasHandle_of_type hnode, .inl rfl⟩
  · have hintroduced : source.Introduces (TypeName.parse pending.call.containingType).base :=
      .inr ⟨pending.call, hcall, rfl⟩
    refine ((reaches_draftTypeFor hs hproject hintroduced).widen fun _ _ => .external).mono
      fun owner s₁ hpath hrefers => ⟨hrefers.hasHandle, .inr ?_⟩
    have hfrom : FromProject s.model callerType fun project => project = pending.project :=
      ⟨node, pending.project, hnode, fun own h => Option.some.inj (h.symm.trans hown), rfl⟩
    exact hfrom.keep (memberMoves_extends hpath) fun project heq => ⟨_, heq ▸ hrefers⟩

theorem reaches_draftTarget (hs : s.Sound) {id : TypeId} {owner : TypeNode}
    (howner : s.model.type? id = some owner) {pending : PendingCall}
    (hproject : s.model.hasHandle pending.project) :
    Reaches (linker.MemberMove source) s (linker.draftTarget owner pending)
      fun target s' => ∀ method ∈ target, ∃ callee, s'.model.method? method = some callee ∧
        ReflTransGen (fun type base => base ∈ declaredBases s'.model type) id
          callee.containingType := by
  have hid : owner.id = id := hs.numbered.type_id howner
  unfold draftTarget
  dsimp only
  rw [hid]
  split
  next hexternal =>
    refine (reaches_draftMatching hs ⟨owner, howner, hexternal⟩ _ _ hproject).map ?_
    rintro method s₁ - ⟨callee, hcallee, rfl⟩ _ ⟨⟩
    exact ⟨callee, hcallee, .refl⟩
  next => exact reaches_draftFind hs (ReferenceModel.hasHandle_of_type howner) _ _

theorem reaches_draftFilePath (hs : s.Sound) {id : TypeId} {type : TypeNode}
    (htype : s.model.type? id = some type) :
    Reaches (linker.MemberMove source) s (draftFilePath type) fun _ s' => s = s' := by
  unfold draftFilePath
  split
  next file hfile =>
    have hhandle : s.model.hasHandle file := by
      refine hs.closed .type (.of file) (mem_flatMap_of_getElem? htype ?_)
      have hmem := List.mem_of_mem_head? hfile
      simp [TypeNode.handles, hmem]
    exact (reaches_fileAt hhandle).bind fun _ _ _ hfile => .pure hfile.2
  next => exact .pure rfl

/-- Reporting a call leaves the model alone. -/
theorem reaches_draftUnresolved (hs : s.Sound) {callerType : TypeId}
    (hcaller : s.model.hasHandle callerType) (owner : TypeNode) {pending : PendingCall}
    (hproject : s.model.hasHandle pending.project) :
    Reaches (linker.MemberMove source) s (linker.draftUnresolved callerType owner pending)
      fun _ s' => s'.model = s.model := by
  unfold draftUnresolved
  refine (reaches_projectAt hproject).bind ?_
  rintro project _ - ⟨-, rfl⟩
  refine (reaches_typeAt hcaller).bind ?_
  rintro type _ - ⟨htype, rfl⟩
  refine (reaches_draftFilePath hs htype).bind ?_
  rintro filePath _ - rfl
  exact reaches_modify (.report s _) rfl

/-- **A call is linked**, whatever it names. -/
theorem reaches_draftCall (hs : s.Sound) {pending : PendingCall}
    (hproject : s.model.hasHandle pending.project) (hpending : Collected source s.model pending) :
    Reaches (linker.MemberMove source) s (linker.draftCall pending) fun _ _ => True := by
  obtain ⟨hcall, caller, node, hcaller, hnode, hown⟩ := hpending
  have hcallerHandle := ReferenceModel.hasHandle_of_method hcaller
  have htype := ReferenceModel.hasHandle_of_type hnode
  unfold draftCall
  refine (reaches_methodAt hcallerHandle).bind ?_
  rintro other _ - ⟨hother, rfl⟩
  obtain rfl := Option.some.inj (hcaller.symm.trans hother)
  refine (reaches_draftOwner hs hproject hcall hnode hown).bind
    fun id s₁ hpath₁ ⟨hid, howner⟩ => ?_
  have hs₁ := memberMoves_sound hpath₁ hs
  have hextends₁ := memberMoves_extends hpath₁
  refine (reaches_typeAt hid).bind ?_
  rintro owner _ - ⟨hget, rfl⟩
  refine (reaches_draftTarget hs₁ hget (hextends₁.hasHandle hproject)).bind
    fun target s₂ hpath₂ htarget => ?_
  have hs₂ := memberMoves_sound hpath₂ hs₁
  have hextends₂ := hextends₁.trans (memberMoves_extends hpath₂)
  have hcallable : ∀ method ∈ target, ∃ caller callee,
      s₂.model.method? pending.caller = some caller ∧ s₂.model.method? method = some callee ∧
        linker.Callable s₂.model caller.containingType callee.containingType := by
    intro method hmethod
    obtain ⟨callee, hcallee, hinherits⟩ := htarget method hmethod
    obtain ⟨caller', hcaller', hsame⟩ :=
      MethodIn.keep ⟨caller, hcaller, rfl⟩ hextends₂
    refine ⟨caller', callee, hcaller', hcallee, id, ?_, hinherits⟩
    rw [hsame]
    refine howner.imp_right fun hfrom => hfrom.keep (memberMoves_extends hpath₂) ?_
    rintro project ⟨fullName, hrefers⟩
    exact ⟨fullName, hrefers.keep (memberMoves_sameView hpath₂) (memberMoves_extends hpath₂)⟩
  have hlast (s₃ : DraftState) (hmodel : s₃.model = s₂.model) :
      Reaches (linker.MemberMove source) s₃ (modifyMethod pending.caller fun node =>
        { node with calls := node.calls ++ [{ target }] }) fun _ _ => True := by
    rw [← hmodel] at hcallable htarget hextends₂
    have hcaller₃ := hextends₂.hasHandle hcallerHandle
    refine reaches_modifyMethod hcaller₃ (.addCall s₃ pending.caller target hcaller₃ ?_ hcallable)
    intro method hmethod
    obtain ⟨callee, hcallee, -⟩ := htarget method hmethod
    exact ReferenceModel.hasHandle_of_method hcallee
  dsimp only
  split
  · exact (reaches_draftUnresolved hs₂ (hextends₂.hasHandle htype) owner
      (hextends₂.hasHandle hproject)).bind fun _ s₃ _ hmodel => hlast s₃ hmodel
  · exact hlast s₂ rfl

theorem Collected.keep {pending : PendingCall} (h : Collected source model pending)
    (hextends : model.Extends model') : Collected source model' pending :=
  ⟨h.1, h.2.keep hextends⟩

/-- The calls that were set aside are calls of declarations. -/
theorem memberMoves_collected (h : ReflTransGen (linker.MemberMove source) s s')
    (hs : ∀ pending ∈ s.pending, Collected source s.model pending) :
    ∀ pending ∈ s'.pending, Collected source s'.model pending := by
  induction h with
  | refl => exact hs
  | tail _ hlast ih =>
    have hextends := hlast.extends
    intro pending hpending
    cases hlast with
    | postpone call hcaller hproject hcollected =>
      rcases Array.mem_push.1 hpending with hpending | rfl
      · exact ih pending hpending
      · exact hcollected
    | external h =>
      cases h
      exact (ih pending hpending).keep hextends
    | _ => exact (ih pending hpending).keep hextends

/-- No call that was set aside gets lost. -/
theorem memberMoves_pending (h : ReflTransGen (linker.MemberMove source) s s') :
    ∀ pending ∈ s.pending, pending ∈ s'.pending := by
  induction h with
  | refl => exact fun _ => id
  | tail _ hlast ih =>
    intro pending hpending
    have hmem := ih pending hpending
    cases hlast with
    | postpone => exact Array.mem_push_of_mem _ hmem
    | external h =>
      cases h
      exact hmem
    | _ => exact hmem

/-- **Calls that were set aside can be linked**, each wherever the ones before it have led. -/
theorem reaches_forM_draftCall (hs : s.Sound)
    (hcollected : ∀ pending ∈ s.pending, Collected source s.model pending)
    {calls : List PendingCall} (hcalls : ∀ pending ∈ calls, pending ∈ s.pending) :
    Reaches (linker.MemberMove source) s (calls.forM linker.draftCall) fun _ _ => True := by
  refine .forM fun pending hpending s₁ hpath => ?_
  have hmem := hcalls pending hpending
  have hextends := memberMoves_extends hpath
  exact reaches_draftCall (memberMoves_sound hpath hs)
    (hextends.hasHandle (hs.pending pending hmem).2) ((hcollected pending hmem).keep hextends)

/-- **All calls that were set aside are linked.** -/
theorem reaches_draftCalls (hs : s.Sound)
    (hcollected : ∀ pending ∈ s.pending, Collected source s.model pending) :
    Reaches (linker.MemberMove source) s linker.draftCalls fun _ _ => True := by
  have hcalls : Reaches (linker.MemberMove source) s (s.pending.toList.forM linker.draftCall)
      fun _ _ => True :=
    reaches_forM_draftCall hs hcollected fun _ => Array.mem_toList_iff.1
  exact hcalls

end FactGraph.Linker
