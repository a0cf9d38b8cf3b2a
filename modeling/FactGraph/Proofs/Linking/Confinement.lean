import FactGraph.Fact.Build
import FactGraph.Proofs.Linking.Visibility

/-!
# The linked graph respects the project graph

If the policy lets no search go beyond the projects that are referred to, nothing in a declared type
points at a type of a project that its own project does not reach over references.

For links and relations this is a matter of one look-up: what is found is in the own project or in
one that it reaches. A call is another matter. Its target may be a method of an inherited type, and
the base types on the way were linked from the viewpoint of their own projects. So a call is
followed from owner to base type (`Callable.near`): every step stays within reach of the project it
is made from, and being within reach is transitive. A base type that is added later does not change
where a call leads, so what is known of a call when it is linked is kept.

## Main definitions

* `ReferenceModel.RefersTo`, `ReferenceModel.InProject`: the project graph, the project of a type
* `ReferenceModel.PointsAt`: something in the one type points at the other one
* `Linker.Near`: what a project refers to is within its reach

## Main results

* `refersTo_of_reachable`: what a search over the index finds, the references of the model lead to
* `Callable.near`: a call stays within reach of the calling type
* `MemberMove.callsNear`: every move keeps all calls within reach
* `link_confined`: all that a linked model points at is within reach
-/

namespace FactGraph

open Relation (ReflTransGen)

namespace ReferenceModel

/-- The project refers to the other one. -/
def RefersTo (model : ReferenceModel) (project other : ProjectId) : Prop :=
  ∃ node, model.project? project = some node ∧ other ∈ node.references

/-- The type is a declared one of the project. -/
def InProject (model : ReferenceModel) (type : TypeId) (project : ProjectId) : Prop :=
  ∃ node, model.type? type = some node ∧ node.project = some project

/-- **Something in the one type points at the other one**: a link of it or of its members, at any
depth of generic arguments, a relation, or a call of one of its methods, by the type of the called
method. -/
inductive PointsAt (model : ReferenceModel) : TypeId → TypeId → Prop
  | link {type target : TypeId} {links : List TypeLink} (hlinks : model.HasLinks type links)
      (htarget : target ∈ TypeLink.targetsAll links) : PointsAt model type target
  | relation {node : TypeNode} {edge : RelationEdge} (hnode : node ∈ model.types)
      (hedge : edge ∈ node.relations) : PointsAt model node.id edge.target
  | call {node callee : MethodNode} {edge : CallEdge} {id : MethodId}
      (hnode : node ∈ model.methods) (hedge : edge ∈ node.calls) (hid : edge.target = some id)
      (hcallee : model.method? id = some callee) :
      PointsAt model node.containingType callee.containingType

variable {model model' : ReferenceModel}

theorem InProject.unique {type : TypeId} {project other : ProjectId}
    (h : model.InProject type project) (h' : model.InProject type other) : project = other := by
  obtain ⟨node, hnode, hproject⟩ := h
  obtain ⟨node', hnode', hother⟩ := h'
  obtain rfl := Option.some.inj (hnode.symm.trans hnode')
  exact Option.some.inj (hproject.symm.trans hother)

/-- A type that was there before has the project that it had. -/
theorem InProject.of_extends {type : TypeId} {project : ProjectId}
    (h : model'.InProject type project) (hextends : model.Extends model')
    (htype : model.hasHandle type) : model.InProject type project := by
  obtain ⟨node, hnode⟩ := exists_type htype
  obtain ⟨node', hnode', hheader⟩ := hextends.type? type node hnode
  obtain ⟨other, hother, hproject⟩ := h
  obtain rfl := Option.some.inj (hnode'.symm.trans hother)
  refine ⟨node, hnode, ?_⟩
  rw [← node.header_project, ← hheader]
  exact hproject

theorem wire_inProject {type : TypeId} {project : ProjectId}
    (h : model.wire.InProject type project) : model.InProject type project := by
  obtain ⟨node, hnode, hproject⟩ := h
  rw [wire_type?] at hnode
  obtain ⟨old, hold, rfl⟩ := Option.map_eq_some_iff.1 hnode
  exact ⟨old, hold, hproject⟩

theorem RefersTo.wire {project other : ProjectId} (h : model.RefersTo project other) :
    model.wire.RefersTo project other := by
  obtain ⟨node, hnode, hmem⟩ := h
  refine ⟨model.wireProject node, ?_, hmem⟩
  have hget : (model.projects.map model.wireProject)[project.idx]? =
      (model.projects[project.idx]?).map model.wireProject := Array.getElem?_map
  rw [project?] at hnode ⊢
  rw [ReferenceModel.wire, hget, hnode]
  rfl

end ReferenceModel

namespace Linker

variable {linker : Linker} {source : Occurrences} {model : ReferenceModel} {s s' : DraftState}
  {repo facts : RepositoryFact} {sep : Separator}

/-! ## References -/

/-- What a project of the index refers to, the project of the model does. -/
theorem skeleton_refersTo (hindex : linker.index = (ScopeIndex.build repo sep).1)
    (hpaths : facts.firstListings.map ProjectFact.path =
      repo.firstListings.map ProjectFact.path) {project other : Nat}
    (h : other ∈ linker.index.referencesOf project) :
    (linker.skeleton facts).RefersTo ⟨project⟩ ⟨other⟩ := by
  have hlt : project < facts.firstListings.length := by
    have hentry : project < linker.index.projects.length := by
      by_contra hle
      rw [ScopeIndex.referencesOf, List.getElem?_eq_none (by omega)] at h
      cases h
    have hlengths := congrArg List.length hpaths
    rw [List.length_map, List.length_map] at hlengths
    rwa [hindex, ScopeIndex.length_projects, ← hlengths] at hentry
  let listed : ReferenceModel := {
    repository := { path := facts.path }
    projects := (projectNodes facts.firstListings).toArray
    files := (fileNodes (sourceUnits facts)).toArray }
  have hlisted : listed.paths = repo.firstListings.map ProjectFact.path :=
    (skeleton_paths linker facts ▸ by simp [listed, skeleton, ReferenceModel.paths] :
      listed.paths = facts.firstListings.map ProjectFact.path).trans hpaths
  have hnode : (projectNodes facts.firstListings)[project]? = some
      { id := ⟨project⟩, path := facts.firstListings[project].path
        name := facts.firstListings[project].name } := by
    simp [projectNodes, hlt]
  have hposition : linker.index.projectIndex? facts.firstListings[project].path =
      some project := by
    rw [hindex]
    refine ScopeIndex.projectIndex?_of_getElem? ?_
    rw [← hpaths, List.getElem?_map, List.getElem?_eq_getElem hlt]
    rfl
  refine ⟨{ id := ⟨project⟩, path := facts.firstListings[project].path
            name := facts.firstListings[project].name
            references := linker.referencesOf listed facts.firstListings[project].path }, ?_, ?_⟩
  · change ((projectNodes facts.firstListings).toArray.map fun node =>
      { node with references := linker.referencesOf listed node.path })[project]? = _
    rw [Array.getElem?_map, List.getElem?_toArray, hnode]
    rfl
  · change (⟨other⟩ : ProjectId) ∈
      linker.referencesOf listed facts.firstListings[project].path
    rw [referencesOf, hposition]
    dsimp only
    rw [toProjects_eq hindex hlisted]
    · exact List.mem_map_of_mem h
    · intro position hmem
      rw [hindex] at hmem ⊢
      exact ScopeIndex.lt_of_referencesOf hmem

/-- **What a search over the index finds, the references of the model lead to.** -/
theorem refersTo_of_reachable (hindex : linker.index = (ScopeIndex.build repo sep).1)
    (hpaths : facts.firstListings.map ProjectFact.path =
      repo.firstListings.map ProjectFact.path)
    (hprojects : model.projects = (linker.skeleton facts).projects) {project other : ProjectId}
    (h : other ∈ project :: linker.reachableFrom model project) :
    ReflTransGen model.RefersTo project other := by
  have hstep (a b : Nat) (hb : b ∈ linker.index.referencesOf a) :
      model.RefersTo ⟨a⟩ ⟨b⟩ := by
    obtain ⟨node, hnode, hmem⟩ := skeleton_refersTo hindex hpaths hb
    refine ⟨node, ?_, hmem⟩
    rw [ReferenceModel.project?, hprojects]
    exact hnode
  have hmodel : model.paths = repo.firstListings.map ProjectFact.path := by
    rw [ReferenceModel.paths, hprojects]
    exact (skeleton_paths linker facts).trans hpaths
  rcases List.mem_cons.1 h with rfl | h
  · exact .refl
  · rw [reachableFrom_eq_map hindex hmodel] at h
    obtain ⟨position, hposition, rfl⟩ := List.mem_map.1 h
    obtain ⟨visit, hvisit, rfl⟩ := List.mem_map.1 hposition
    have hfollow (a : Nat) (ha : ReflTransGen model.RefersTo project ⟨a⟩) :
        ∀ b ∈ linker.index.referencesOf a, ReflTransGen model.RefersTo project ⟨b⟩ :=
      fun b hb => ha.tail (hstep a b hb)
    exact BreadthFirst.forall_visits hfollow .refl _ visit hvisit

/-! ## Look-ups -/

/-- What a look-up finds is in the own project or in one that it reaches, if the search may not go
any further. -/
theorem reachable_of_lookup (hglobal : linker.index.allowsGlobal linker.policy = false)
    (hmodel : model.Numbered) {fullName : String} {project other : ProjectId} {id : TypeId}
    (h : linker.lookupDeclared? model fullName project = some id)
    (hid : model.InProject id other) : other ∈ project :: linker.reachableFrom model project := by
  rw [lookupDeclared?_eq, filter_declared, hglobal] at h
  obtain ⟨entry, hentry, rfl⟩ := Option.map_eq_some_iff.1 h
  have hnear : ((project :: linker.reachableFrom model project).findSome? fun place =>
      ((declaredTypes model fullName).map TypeNode.entry).find?
        fun entry => entry.project = some place) = some entry := by
    simpa [chosen?] using hentry
  obtain ⟨place, hplace, hfind⟩ := List.exists_of_findSome?_eq_some hnear
  obtain ⟨node, hnode, rfl⟩ := List.mem_map.1 (List.mem_of_find?_eq_some hfind)
  have hproject : node.entry.project = some place := by simpa using List.find?_some hfind
  have hget := hmodel.type?_id (Array.mem_toList_iff.1 (List.mem_filter.1 hnode).1)
  have hown : model.InProject node.id place := ⟨node, hget, hproject⟩
  obtain rfl := hid.unique hown
  exact hplace

/-- **What a project refers to is within its reach.** -/
def Near (linker : Linker) (reach : ProjectId → ProjectId → Prop) (model : ReferenceModel) :
    Prop :=
  ∀ project fullName id other, linker.Refers model project fullName id →
    model.InProject id other → reach project other

theorem near_of_reach {reach : ProjectId → ProjectId → Prop}
    (hglobal : linker.index.allowsGlobal linker.policy = false) (hs : s.Sound)
    (hreach : ∀ project, ∀ other ∈ project :: linker.reachableFrom s.model project,
      reach project other) : linker.Near reach s.model := by
  intro project fullName id other hrefers hother
  obtain ⟨node, hnode, -, ⟨-, hfound⟩ | ⟨hexternal, -⟩⟩ := hrefers
  · exact hreach project other (reachable_of_lookup hglobal hs.numbered hfound hother)
  · -- An external type is in no project.
    obtain ⟨node', hnode', hproject⟩ := hother
    obtain rfl := Option.some.inj (hnode.symm.trans hnode')
    have hnone := hs.external node (ReferenceModel.mem_of_type hnode)
    simp [hexternal, hproject] at hnone

/-- What is looked up inside of a type is looked up from its project. -/
theorem FromProject.of_inProject {type : TypeId} {project : ProjectId}
    {holds : ProjectId → Prop} (h : FromProject model type holds)
    (htype : model.InProject type project) : holds project := by
  obtain ⟨node, from_, hnode, hown, hholds⟩ := h
  obtain ⟨node', hnode', hproject⟩ := htype
  obtain rfl := Option.some.inj (hnode.symm.trans hnode')
  rwa [hown project hproject]

/-- The links of a type are within reach of its project. -/
theorem LinksFrom.near {reach : ProjectId → ProjectId → Prop} (hnear : linker.Near reach model)
    {type target : TypeId} {links : List TypeLink} (h : linker.LinksFrom model type links)
    (htarget : target ∈ TypeLink.targetsAll links) {project other : ProjectId}
    (htype : model.InProject type project) (hother : model.InProject target other) :
    reach project other := by
  have hlinked := FromProject.of_inProject h htype
  obtain ⟨part, hpart, hid⟩ := TypeLink.exists_part_of_all htarget
  obtain ⟨tree, -, -, hrefers⟩ := hlinked part hpart
  exact hnear project tree.base target other (hrefers target hid) hother

/-! ## Calls -/

section Calls

variable {reach : ProjectId → ProjectId → Prop}

/-- Base types are within reach of the project of the type that has them. -/
theorem near_of_inherits (hreach : ∀ a b c, reach a b → reach b c → reach a c)
    (hrefl : ∀ a, reach a a) (hs : s.Sound) (hnear : linker.Near reach s.model)
    (hlinks : linker.Attributed s.model) {owner type : TypeId}
    (h : ReflTransGen (fun type base => base ∈ declaredBases s.model type) owner type)
    {other : ProjectId} (htype : s.model.InProject type other) :
    ∃ project, s.model.InProject owner project ∧ reach project other := by
  induction h using ReflTransGen.head_induction_on with
  | refl => exact ⟨other, htype, hrefl other⟩
  | @head first base hfirst _ ih =>
    obtain ⟨between, hbase, hrest⟩ := ih
    unfold declaredBases at hfirst
    split at hfirst
    next node hnode =>
      split at hfirst
      · cases hfirst
      next hexternal =>
        have hmem := ReferenceModel.mem_of_type hnode
        -- The type is a declared one, since the search does not go on behind an external one.
        obtain ⟨project, hproject⟩ : ∃ project, node.project = some project := by
          rw [← Option.isSome_iff_exists, ← Option.not_isNone, ← hs.external node hmem]
          simpa using hexternal
        have howner : s.model.InProject first project := ⟨node, hnode, hproject⟩
        obtain ⟨link, hlink, htarget⟩ := List.mem_filterMap.1 hfirst
        have hat := hlinks _ _ _ (.type hmem)
        rw [hs.numbered.type_id hnode] at hat
        have htargets : base ∈ TypeLink.targetsAll node.links := TypeLink.mem_targetsAll.2
          ⟨link, List.mem_append_left _ hlink, TypeLink.target_mem_targets htarget⟩
        have hstep := LinksFrom.near hnear hat htargets howner hbase
        exact ⟨project, howner, hreach _ _ _ hstep hrest⟩
    next => cases hfirst

/-- **A call stays within reach of the calling type**: its owner is, and so is every base type on
the way to the called method. -/
theorem Callable.near (hreach : ∀ a b c, reach a b → reach b c → reach a c)
    (hrefl : ∀ a, reach a a) (hs : s.Sound) (hnear : linker.Near reach s.model)
    (hlinks : linker.Attributed s.model) {caller callee : TypeId}
    (h : linker.Callable s.model caller callee) {project other : ProjectId}
    (hcaller : s.model.InProject caller project) (hcallee : s.model.InProject callee other) :
    reach project other := by
  obtain ⟨owner, howner, hinherits⟩ := h
  obtain ⟨between, hbetween, hrest⟩ :=
    near_of_inherits hreach hrefl hs hnear hlinks hinherits hcallee
  rcases howner with rfl | hfrom
  · obtain rfl := hbetween.unique hcaller
    exact hrest
  · obtain ⟨fullName, hrefers⟩ := FromProject.of_inProject hfrom hcaller
    exact hreach _ _ _ (hnear project fullName owner between hrefers hbetween) hrest

/-- The calls of a method are within reach of its type. -/
def CallsNear (reach : ProjectId → ProjectId → Prop) (model : ReferenceModel) : Prop :=
  ∀ node ∈ model.methods, ∀ edge ∈ node.calls, ∀ id ∈ edge.target, ∀ callee project other,
    model.method? id = some callee → model.InProject node.containingType project →
      model.InProject callee.containingType other → reach project other

/-- **What a move can do to calls**: the call was there before, of a method of the same type, or it
is a new one. -/
theorem MemberMove.callsMade (h : linker.MemberMove source s s') {node : MethodNode}
    (hnode : node ∈ s'.model.methods) {edge : CallEdge} (hedge : edge ∈ node.calls) :
    (∃ old ∈ s.model.methods, old.containingType = node.containingType ∧ edge ∈ old.calls) ∨
      ∀ id ∈ edge.target, ∃ caller callee, caller ∈ s.model.methods ∧
        caller.containingType = node.containingType ∧ s.model.method? id = some callee ∧
        linker.Callable s.model caller.containingType callee.containingType := by
  cases h with
  | external h =>
    cases h
    exact .inl ⟨node, hnode, rfl, hedge⟩
  | addMethod added hid htype hplaced hparameters hvariables hfunctions hcalls =>
    rcases Array.mem_push.1 hnode with hmem | rfl
    · exact .inl ⟨node, hmem, rfl, hedge⟩
    · rw [hcalls] at hedge
      cases hedge
  | addCall id target hid htarget hcallable =>
    dsimp only at hnode
    rcases mem_modify hnode with hmem | ⟨old, hget, rfl⟩
    · exact .inl ⟨node, hmem, rfl, hedge⟩
    · have hmem := Array.mem_of_getElem? hget
      rcases List.mem_append.1 hedge with hold | hnew
      · exact .inl ⟨old, hmem, rfl, hold⟩
      · obtain rfl := List.mem_singleton.1 hnew
        refine .inr fun method hmethod => ?_
        obtain ⟨caller, callee, hcaller, hcallee, hcall⟩ := hcallable method hmethod
        obtain rfl := Option.some.inj (hcaller.symm.trans hget)
        exact ⟨caller, callee, hmem, rfl, hcallee, hcall⟩
  | _ => exact .inl ⟨node, hnode, rfl, hedge⟩

theorem hasHandle_of_method_type (hs : s.Sound) {node : MethodNode}
    (hnode : node ∈ s.model.methods) : s.model.hasHandle node.containingType := by
  refine hs.closed .method (.of node.containingType)
    (List.mem_flatMap.2 ⟨node, Array.mem_toList_iff.2 hnode, ?_⟩)
  simp [MethodNode.handles, MethodNode.memberHandles]

theorem hasHandle_of_call (hs : s.Sound) {node : MethodNode} (hnode : node ∈ s.model.methods)
    {edge : CallEdge} (hedge : edge ∈ node.calls) {id : MethodId} (hid : id ∈ edge.target) :
    s.model.hasHandle id := by
  refine hs.closed .method (.of id) (List.mem_flatMap.2 ⟨node, Array.mem_toList_iff.2 hnode, ?_⟩)
  rw [MethodNode.handles, List.mem_append]
  refine .inr (mem_nodesOf.2 ⟨id, ?_, rfl⟩)
  exact List.mem_filterMap.2 ⟨edge, hedge, hid⟩

/-- **Every move keeps all calls within reach.** -/
theorem MemberMove.callsNear (hreach : ∀ a b c, reach a b → reach b c → reach a c)
    (hrefl : ∀ a, reach a a) (h : linker.MemberMove source s s') (hs : s.Sound)
    (hnear : linker.Near reach s.model) (hlinks : linker.Attributed s.model)
    (hcalls : CallsNear reach s.model) : CallsNear reach s'.model := by
  have hextends := h.extends
  intro node hnode edge hedge id hid callee project other hcallee hproject hother
  have hbefore (old : MethodNode) (hold : s.model.method? id = some old) :
      s.model.InProject old.containingType other := by
    obtain ⟨same, hsame, htype⟩ := MethodIn.keep ⟨old, hold, rfl⟩ hextends
    obtain rfl := Option.some.inj (hcallee.symm.trans hsame)
    rw [htype] at hother
    exact hother.of_extends hextends
      (hasHandle_of_method_type hs (Array.mem_of_getElem? hold))
  rcases h.callsMade hnode hedge with ⟨old, hold, htype, hmem⟩ | hnew
  · obtain ⟨oldCallee, hget⟩ := ReferenceModel.exists_method (hasHandle_of_call hs hold hmem hid)
    refine hcalls old hold edge hmem id hid oldCallee project other hget ?_ (hbefore _ hget)
    rw [← htype] at hproject
    exact hproject.of_extends hextends (hasHandle_of_method_type hs hold)
  · obtain ⟨caller, oldCallee, hcaller, htype, hget, hcall⟩ := hnew id hid
    refine hcall.near hreach hrefl hs hnear hlinks ?_ (hbefore _ hget)
    rw [← htype] at hproject
    exact hproject.of_extends hextends (hasHandle_of_method_type hs hcaller)

end Calls

/-! ## The whole run -/

/-- Projects stay as the listings made them. -/
theorem Phases.projects {declared nested final : DraftState}
    (h : linker.Phases facts declared nested final) :
    nested.model.projects = (linker.skeleton facts).projects ∧
      final.model.projects = nested.model.projects :=
  ⟨(nestMoves_extends h.nests).projects.trans h.declares.extends.projects,
    (memberMoves_extends h.links).projects⟩

/-- **All that a model points at is within reach when a run is over.** -/
theorem Phases.pointsAt_near {declared nested final : DraftState}
    (h : linker.Phases facts declared nested final)
    (hindex : linker.index = (ScopeIndex.build repo sep).1)
    (hpaths : facts.firstListings.map ProjectFact.path =
      repo.firstListings.map ProjectFact.path)
    (hglobal : linker.index.allowsGlobal linker.policy = false) {type target : TypeId}
    {project other : ProjectId} (htype : final.model.InProject type project)
    (htarget : final.model.InProject target other) (hpoints : final.model.PointsAt type target) :
    ReflTransGen final.model.RefersTo project other := by
  let reach := ReflTransGen final.model.RefersTo
  obtain ⟨hnested, hfinal⟩ := h.projects
  -- Nothing is added to the projects, so the graph is the same in every state.
  have hnear (s : DraftState) (hs : s.Sound) (hprojects : s.model.projects = final.model.projects) :
      linker.Near reach s.model := by
    refine near_of_reach hglobal hs fun project other hmem => ?_
    have hgraph := refersTo_of_reachable hindex hpaths
      (hprojects.trans (hfinal.trans hnested)) hmem
    have hsame : s.model.RefersTo = final.model.RefersTo := by
      funext a b
      rw [ReferenceModel.RefersTo, ReferenceModel.RefersTo, ReferenceModel.project?,
        ReferenceModel.project?, hprojects]
    rwa [hsame] at hgraph
  have hcalls : CallsNear reach final.model := by
    -- Links have to be followed along with calls, since a call is followed over base types.
    refine (h.keeps (fun s => s.model.projects = final.model.projects ∧
      linker.Attributed s.model ∧ CallsNear reach s.model) ⟨hfinal.symm, ?_, ?_⟩ ?_).2.2
    · exact h.nested_unlinked.attributed h.nested_sound.numbered
    · intro node hnode
      simp [h.nested_unlinked.methods] at hnode
    · rintro s s' hs hmove ⟨hprojects, hlinks, hcalls⟩
      refine ⟨hmove.extends.projects.trans hprojects, hmove.attributed hs hlinks, ?_⟩
      exact hmove.callsNear (fun _ _ _ => ReflTransGen.trans) (fun _ => .refl) hs
        (hnear s hs hprojects) hlinks hcalls
  cases hpoints with
  | link hlinks htargets =>
    obtain ⟨place, hat⟩ := hlinks.linksAt
    exact (h.attributed _ _ _ hat).near (hnear final h.sound rfl) htargets htype htarget
  | relation hnode hedge =>
    obtain ⟨outer, name, -, -, hrefers⟩ :=
      FromProject.of_inProject (h.counted _ hnode _ hedge) htype
    exact hnear final h.sound rfl project _ _ other hrefers htarget
  | call hnode hedge hid hcallee =>
    exact hcalls _ hnode _ hedge _ hid _ project other hcallee htype htarget

/-- What points at a type in the model with all lists points at it without them. -/
theorem pointsAt_of_wire {type target : TypeId} (h : model.wire.PointsAt type target) :
    model.PointsAt type target := by
  cases h with
  | link hlinks htarget =>
    obtain ⟨place, hat⟩ := hlinks.linksAt
    exact .link (linksAt_of_wire hat).hasLinks htarget
  | relation hnode hedge =>
    obtain ⟨old, hold, rfl⟩ := Array.mem_map.1 hnode
    have hpoints := @ReferenceModel.PointsAt.relation model old _ hold hedge
    exact hpoints
  | call hnode hedge hid hcallee =>
    obtain ⟨old, hold, rfl⟩ := Array.mem_map.1 hnode
    rw [ReferenceModel.wire_method?] at hcallee
    obtain ⟨callee, hget, rfl⟩ := Option.map_eq_some_iff.1 hcallee
    have hpoints := @ReferenceModel.PointsAt.call model old callee _ _ hold hedge hid hget
    exact hpoints

/-- **The linked graph respects the project graph.** If the policy lets no search go beyond the
projects that are referred to, then whatever a declared type points at, by a link, a relation or a
call, is in its own project or in one that the references of the model lead to. The repository may
be linked as it is or after its names were resolved. -/
theorem link_confined (repo : RepositoryFact) (sep : Separator) (policy : FallbackPolicy)
    (hglobal : (ScopeIndex.build repo sep).1.allowsGlobal policy = false)
    (facts : RepositoryFact)
    (hfacts : facts = repo ∨ ∃ resolver : Resolver, facts = (resolver.resolveRepository repo).1)
    (type target : TypeId) (project other : ProjectId) :
    let model := (Linker.link ⟨(ScopeIndex.build repo sep).1, policy⟩ facts).1
    model.InProject type project → model.InProject target other → model.PointsAt type target →
      ReflTransGen model.RefersTo project other := by
  intro model htype htarget hpoints
  obtain ⟨declared, nested, final, hlink, hphases⟩ :=
    link_spec ⟨(ScopeIndex.build repo sep).1, policy⟩ facts
  have hmodel : model = final.model.wire := by
    change (Linker.link _ facts).1 = _
    rw [hlink]
  have hpaths : facts.firstListings.map ProjectFact.path =
      repo.firstListings.map ProjectFact.path := by
    rcases hfacts with rfl | ⟨resolver, rfl⟩
    · rfl
    · rw [resolver.firstListings_resolveRepository, List.map_map]
      exact List.map_congr_left fun fact _ => resolver.resolveProject_path fact
  rw [hmodel] at htype htarget hpoints ⊢
  have hreach := hphases.pointsAt_near rfl hpaths hglobal (ReferenceModel.wire_inProject htype)
    (ReferenceModel.wire_inProject htarget) (pointsAt_of_wire hpoints)
  exact ReflTransGen.mono (fun _ _ => ReferenceModel.RefersTo.wire) _ _ hreach

/-- Each of the three projects refers to the next one. A reader takes a book, by a method that the
book inherits. -/
def shelves : RepositoryFact where
  solutions := [{ path := "all", projects := [readers, books, stock] }]
where
  readers : ProjectFact :=
    { path := "readers", projectReferences := ["books"]
      units := [{ path := "reader", types := [
        .withMethod (.ofClass "" "Reader") (.withCall (.named "read") (.of "Book" "take" []))] }] }
  books : ProjectFact :=
    { path := "books", projectReferences := ["stock"]
      units := [{ path := "book", types := [.withBase (.ofClass "" "Book") "Item"] }] }
  stock : ProjectFact :=
    { path := "stock"
      units := [{ path := "item", types := [.withMethod (.ofClass "" "Item") (.named "take")] }] }

/-- The call of the reader leads into the third project, to which its own one does not refer. -/
theorem shelves_confined :
    let model := (Linker.link ⟨(ScopeIndex.build shelves .dot).1, .referencesOnly⟩ shelves).1
    (ScopeIndex.build shelves .dot).1.allowsGlobal .referencesOnly = false ∧
      model.InProject ⟨0⟩ ⟨0⟩ ∧ model.InProject ⟨2⟩ ⟨2⟩ ∧ model.PointsAt ⟨0⟩ ⟨2⟩ ∧
      ReflTransGen model.RefersTo ⟨0⟩ ⟨2⟩ := by
  intro model
  have hreader : model.InProject ⟨0⟩ ⟨0⟩ := Option.map_eq_some_iff.1 (by decide +kernel)
  have hitem : model.InProject ⟨2⟩ ⟨2⟩ := Option.map_eq_some_iff.1 (by decide +kernel)
  have hpoints : model.PointsAt ⟨0⟩ ⟨2⟩ := by
    have hread : (model.method? ⟨0⟩).map (fun node => (node.containingType, node.calls)) =
        some (⟨0⟩, [{ target := some ⟨1⟩ }]) := by
      decide +kernel
    have htake : (model.method? ⟨1⟩).map MethodNode.containingType = some ⟨2⟩ := by
      decide +kernel
    obtain ⟨read, hread, hcalls⟩ := Option.map_eq_some_iff.1 hread
    obtain ⟨htype, hcalls⟩ := Prod.mk.inj hcalls
    obtain ⟨take, htake, howner⟩ := Option.map_eq_some_iff.1 htake
    rw [← htype, ← howner]
    refine .call (Array.mem_of_getElem? hread) ?_ rfl htake
    rw [hcalls]
    exact List.mem_singleton_self _
  exact ⟨rfl, hreader, hitem, hpoints, link_confined shelves .dot .referencesOnly rfl shelves
    (.inl rfl) ⟨0⟩ ⟨2⟩ ⟨0⟩ ⟨2⟩ hreader hitem hpoints⟩

end Linker

end FactGraph
