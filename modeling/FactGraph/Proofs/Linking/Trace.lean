import FactGraph.Proofs.Fact.Listing
import FactGraph.Proofs.Linking.Enclosing

/-!
# A run in draft

Whatever the facts are, and whatever index they are linked with, even one of another repository: a
link run in draft never follows a handle that leads to no node. The state is in order when the
listings have been entered (`skeleton_sound`), and every move keeps it so.

## Main definitions

* `Linker.Phases`, `Linker.Trace`: a run by its phases, and step by step

## Main results

* `skeleton_sound`: the state that a run starts in is in order
* `draftRun_trace`: a run gets to its end, through its phases
* `Phases.keeps`: what every move keeps holds when a run is over
-/

namespace FactGraph

/-- Handles that are made from the positions of a list are numbered. -/
theorem map_zipIdx_eq_range {α : Type} {kind : NodeKind} (xs : List α) (id : α × Nat → Handle kind)
    (hid : ∀ x, id x = ⟨x.2⟩) :
    xs.zipIdx.map id = (List.range xs.length).map Handle.mk := by
  rw [List.range_eq_range', ← List.zipIdx_map_snd, List.map_map]
  exact List.map_congr_left fun x _ => hid x

/-- What is made from the positions of a list is in their order. -/
theorem pairwise_flatMap_zipIdx {α β : Type} {xs : List α} {n : Nat} {f : α × Nat → List β}
    {place : β → Nat} (hplace : ∀ entry, ∀ y ∈ f entry, place y = entry.2) :
    ((xs.zipIdx n).flatMap f).Pairwise fun y y' => place y ≤ place y' := by
  have hsorted : (xs.zipIdx n).Pairwise fun entry entry' => entry.2 ≤ entry'.2 := by
    rw [← List.pairwise_map (f := Prod.snd) (R := (· ≤ ·)), List.zipIdx_map_snd]
    exact List.pairwise_le_range'
  refine List.pairwise_flatMap.2 ⟨fun entry _ => ?_, hsorted.imp ?_⟩
  · refine List.pairwise_of_forall_mem_list fun y hy y' hy' => ?_
    rw [hplace entry y hy, hplace entry y' hy']
  · intro entry entry' hle y hy y' hy'
    rw [hplace entry y hy, hplace entry' y' hy']
    exact hle

namespace Linker

open DraftM
open Relation (ReflTransGen)

variable {linker : Linker} {model : ReferenceModel}

/-! ## The listings -/

theorem projectOf?_hasHandle {path : String} {id : ProjectId}
    (h : model.projectOf? path = some id) : model.hasHandle id := by
  obtain ⟨i, hi, rfl⟩ := Option.map_eq_some_iff.1 h
  exact decide_eq_true (Array.findIdx?_eq_some_iff_getElem.1 hi).1

theorem mem_toProjects {positions : List Nat} {id : ProjectId}
    (h : id ∈ linker.toProjects model positions) : model.hasHandle id := by
  obtain ⟨position, -, hid⟩ := List.mem_filterMap.1 h
  split at hid
  · exact projectOf?_hasHandle hid
  · cases hid

theorem mem_referencesOf {path : String} {id : ProjectId}
    (h : id ∈ linker.referencesOf model path) : model.hasHandle id := by
  unfold referencesOf at h
  split at h
  · exact mem_toProjects h
  · cases h

/-- There is a project for each first listing, and a file for each unit of them. -/
theorem skeleton_count (linker : Linker) (repo : RepositoryFact) :
    (linker.skeleton repo).count .project = repo.firstListings.length ∧
      (linker.skeleton repo).count .file = (listedUnits repo.firstListings).length := by
  simp [skeleton, ReferenceModel.count, projectNodes, fileNodes, sourceUnits, unitsOf]

/-- The units of a repository are in projects and files of its model. -/
theorem hasHandle_of_sourceUnits (linker : Linker) {repo : RepositoryFact} {unit : SourceUnit}
    (h : unit ∈ sourceUnits repo) :
    (linker.skeleton repo).hasHandle unit.project ∧
      (linker.skeleton repo).hasHandle unit.file := by
  obtain ⟨hprojects, hfiles⟩ := skeleton_count linker repo
  obtain ⟨⟨⟨project, listing, fact⟩, file⟩, hmem, rfl⟩ := List.mem_map.1 h
  obtain ⟨-, hfile, hunit⟩ := List.mem_zipIdx hmem
  have hlisted : (project, listing, fact) ∈ listedUnits repo.firstListings := by
    rw [hunit]
    exact List.getElem_mem _
  obtain ⟨⟨_, position⟩, hposition, hfact⟩ := List.mem_flatMap.1 hlisted
  obtain ⟨_, -, heq⟩ := List.mem_map.1 hfact
  cases heq
  obtain ⟨-, hproject, -⟩ := List.mem_zipIdx hposition
  simp only [ReferenceModel.hasHandle, decide_eq_true_eq, hprojects, hfiles]
  omega

/-- What is read off the units of a repository, listing by listing. -/
theorem flatMap_sourceUnits {β : Type} (repo : RepositoryFact)
    (read : ProjectId → UnitFact → List β) :
    ((sourceUnits repo).flatMap fun unit => read unit.project unit.fact) =
      repo.firstListings.zipIdx.flatMap fun (project, position) =>
        project.units.flatMap (read ⟨position⟩) := by
  have hunits (units : List (Nat × ProjectFact × UnitFact)) :
      (units.zipIdx.flatMap fun entry => read ⟨entry.1.1⟩ entry.1.2.2) =
        units.flatMap fun entry => read ⟨entry.1⟩ entry.2.2 := by
    conv_rhs => rw [← List.zipIdx_map_fst 0 units]
    rw [List.flatMap_map]
  rw [sourceUnits, unitsOf, List.flatMap_map]
  refine (hunits (listedUnits repo.firstListings)).trans ?_
  rw [listedUnits, List.flatMap_assoc]
  refine List.flatMap_congr fun entry _ => ?_
  rw [List.flatMap_map]

theorem skeleton_numbered (linker : Linker) (repo : RepositoryFact) :
    (linker.skeleton repo).Numbered := by
  intro kind
  cases kind
  case solution =>
    simp only [ReferenceModel.ids, ReferenceModel.count, skeleton, List.map_map,
      List.size_toArray, List.length_map, List.length_zipIdx]
    exact map_zipIdx_eq_range _ _ fun _ => rfl
  case project =>
    simp only [ReferenceModel.ids, ReferenceModel.count, skeleton, projectNodes,
      Array.toList_map, List.map_map, Array.size_map, List.size_toArray, List.length_map,
      List.length_zipIdx]
    exact map_zipIdx_eq_range _ _ fun _ => rfl
  case file =>
    simp only [ReferenceModel.ids, ReferenceModel.count, skeleton, fileNodes, sourceUnits,
      unitsOf,
      List.map_map, List.size_toArray, List.length_map, List.length_zipIdx]
    exact map_zipIdx_eq_range _ _ fun _ => rfl
  all_goals rfl

theorem skeleton_closed (linker : Linker) (repo : RepositoryFact) :
    (linker.skeleton repo).Closed := by
  intro kind node hnode
  cases kind
  case solution =>
    obtain ⟨solution, hsolution, hnode⟩ := List.mem_flatMap.1 hnode
    obtain ⟨⟨fact, position⟩, -, rfl⟩ := List.mem_map.1 hsolution
    obtain ⟨id, hid, rfl⟩ := mem_nodesOf.1 hnode
    obtain ⟨project, -, hproject⟩ := List.mem_filterMap.1 (mem_keepFirst.1 hid)
    have hhandle := projectOf?_hasHandle hproject
    simpa [ReferenceModel.hasHandle, ReferenceModel.count, skeleton] using hhandle
  case project =>
    obtain ⟨project, hproject, hnode⟩ := List.mem_flatMap.1 hnode
    simp only [skeleton, Array.toList_map, List.mem_map] at hproject
    obtain ⟨listed, hlisted, rfl⟩ := hproject
    obtain ⟨⟨listing, position⟩, -, rfl⟩ := List.mem_map.1 hlisted
    simp only [ProjectNode.handles, nodesOf_nil, List.nil_append, List.append_nil,
      mem_nodesOf] at hnode
    obtain ⟨id, hid, rfl⟩ := hnode
    have hhandle := mem_referencesOf hid
    simpa [ReferenceModel.hasHandle, ReferenceModel.count, skeleton] using hhandle
  case file =>
    obtain ⟨file, hfile, hnode⟩ := List.mem_flatMap.1 hnode
    obtain ⟨unit, hunit, rfl⟩ := List.mem_map.1 hfile
    simp only [FileNode.handles, nodesOf_nil, List.append_nil, mem_nodesOf,
      List.mem_singleton] at hnode
    obtain ⟨_, rfl, rfl⟩ := hnode
    exact (hasHandle_of_sourceUnits linker hunit).1
  all_goals cases hnode

/-- **The state that a run starts in is in order.** -/
theorem skeleton_sound (linker : Linker) (repo : RepositoryFact) :
    DraftState.Sound { model := linker.skeleton repo } where
  numbered := skeleton_numbered linker repo
  closed := skeleton_closed linker repo
  external := by simp [skeleton]
  pending := by simp

/-! ## The whole run -/

/-- A state that a run ends in, and the states between its phases: when all types are declared,
and when all of them are nested. -/
structure Phases (linker : Linker) (repo : RepositoryFact) (declared nested final : DraftState) :
    Prop where
  declares : linker.Declares (sourceUnits repo) { model := linker.skeleton repo } declared
  /-- Every named declaration has a type with its project, full name and partiality. -/
  complete : ∀ unit ∈ sourceUnits repo, ∀ fact ∈ unit.fact.types, fact.isNamed →
    ∃ id, linker.FragmentOf declared.model unit.project fact id
  nests : ReflTransGen linker.NestMove declared nested
  links : ReflTransGen (linker.MemberMove (linker.occurrences repo nested.model)) nested final

theorem outward_of_nests {linker : Linker} {repo : RepositoryFact}
    {declared nested : DraftState}
    (hdeclares : linker.Declares (sourceUnits repo) { model := linker.skeleton repo } declared)
    (hnests : ReflTransGen linker.NestMove declared nested) : nested.model.Outward := by
  have hstart : Unnested (linker.skeleton repo) := by simp [Unnested, skeleton]
  have hdeclared := (hdeclares.unnested hstart).outward
  exact DraftM.keep_of_moves hnests hdeclared fun _ _ => NestMove.outward

/-- A run step by step: the fragments that it finds, and the state that each of its phases ends
in. -/
structure Trace (linker : Linker) (repo : RepositoryFact) (fragments : List Fragment)
    (declared nested linked final : DraftState) : Prop where
  declare : (linker.draftAll (sourceUnits repo)).run { model := linker.skeleton repo } =
    .ok (fragments, declared)
  nest : (linker.draftNestAll fragments).run declared = .ok ((), nested)
  members : (fragments.forM linker.draftMembers).run nested = .ok ((), linked)
  calls : linker.draftCalls.run linked = .ok ((), final)
  placed : ∀ fragment ∈ fragments, linker.Placed declared.model fragment
  moves : ReflTransGen (linker.MemberMove (linker.occurrences repo nested.model)) nested linked
  phases : linker.Phases repo declared nested final

theorem Trace.draftRun {linker : Linker} {repo : RepositoryFact} {fragments : List Fragment}
    {declared nested linked final : DraftState}
    (h : linker.Trace repo fragments declared nested linked final) :
    linker.draftRun repo = .ok final := by
  have hrun : (linker.draftFacts repo).run { model := linker.skeleton repo } = .ok ((), final) := by
    unfold draftFacts
    rw [StateT.run_bind, h.declare]
    change (linker.draftNestAll fragments >>= fun _ =>
      fragments.forM linker.draftMembers >>= fun _ => linker.draftCalls).run declared = _
    rw [StateT.run_bind, h.nest]
    change (fragments.forM linker.draftMembers >>= fun _ => linker.draftCalls).run nested = _
    rw [StateT.run_bind, h.members]
    exact h.calls
  rw [Linker.draftRun, hrun]
  rfl

/-- **A run gets to its end**, step by step. -/
theorem draftRun_trace (linker : Linker) (repo : RepositoryFact) :
    ∃ fragments declared nested linked final,
      linker.Trace repo fragments declared nested linked final := by
  have hs := skeleton_sound linker repo
  obtain ⟨fragments, declared, hdeclare, hdeclares, hplaced, hcomplete⟩ :=
    draftAll_run linker hs fun unit hunit => hasHandle_of_sourceUnits linker hunit
  have hs₁ := hdeclares.sound hs
  obtain ⟨_, nested, hnest, hnests, -⟩ :=
    reaches_draftNestAll fun fragment hfragment => (hplaced fragment hfragment).1
  have hs₂ := nestMoves_sound hnests hs₁
  have houtward := outward_of_nests hdeclares hnests
  let source := linker.occurrences repo nested.model
  have hmembers : Reaches (linker.MemberMove source) nested (fragments.forM linker.draftMembers)
      fun _ _ => True := by
    refine .forM fun fragment hfragment s₃ hpath => ?_
    obtain ⟨hplaced, hfrom⟩ := hplaced fragment hfragment
    have hnested := placed_keep hplaced (nestMoves_extends hnests)
    exact reaches_draftMembers (memberMoves_sound hpath hs₂)
      (placed_keep hnested (memberMoves_extends hpath))
      (accounted_of_fragment hs₂ houtward hpath hfrom hnested)
  have hpending : ∀ pending ∈ nested.pending, Collected source nested.model pending := by
    rw [nestMoves_pending hnests, hdeclares.pending]
    simp
  obtain ⟨_, linked, hlink, hlinks, -⟩ := hmembers
  obtain ⟨_, final, hcall, hcalls, -⟩ := reaches_draftCalls (memberMoves_sound hlinks hs₂)
    (memberMoves_collected hlinks hpending)
  refine ⟨fragments, declared, nested, linked, final, hdeclare, hnest, hlink, hcall,
    fun fragment hfragment => (hplaced fragment hfragment).1, hlinks, hdeclares, ?_, hnests,
    hlinks.trans hcalls⟩
  intro unit hunit fact hfact hnamed
  obtain ⟨type, hfragment⟩ := hcomplete unit hunit fact hfact hnamed
  exact ⟨type, (hplaced _ hfragment).1.type⟩

section Trace

variable {linker : Linker} {repo : RepositoryFact} {fragments : List Fragment}
  {declared nested linked final : DraftState}

/-- The types of the fragments are there when all types are nested. -/
theorem Trace.placed_nested (h : linker.Trace repo fragments declared nested linked final)
    {fragment : Fragment} (hfragment : fragment ∈ fragments) :
    linker.Placed nested.model fragment :=
  placed_keep (h.placed fragment hfragment) (nestMoves_extends h.phases.nests)

/-- **The members of a fragment can be linked** wherever the moves of other fragments have led. -/
theorem Trace.reaches_draftMembers (h : linker.Trace repo fragments declared nested linked final)
    {fragment : Fragment} (hfragment : fragment ∈ fragments) {s : DraftState}
    (hpath : ReflTransGen (linker.MemberMove (linker.occurrences repo nested.model)) nested s) :
    Reaches (linker.MemberMove (linker.occurrences repo nested.model)) s
      (linker.draftMembers fragment) fun _ _ => True := by
  have hs := skeleton_sound linker repo
  obtain ⟨others, _, hrun, -, horigin, -⟩ :=
    draftAll_run linker hs fun unit hunit => hasHandle_of_sourceUnits linker hunit
  obtain ⟨rfl, rfl⟩ := Prod.mk.inj (Except.ok.inj (hrun.symm.trans h.declare))
  have hnested := nestMoves_sound h.phases.nests (h.phases.declares.sound hs)
  have houtward := outward_of_nests h.phases.declares h.phases.nests
  have hplaced := h.placed_nested hfragment
  exact Linker.reaches_draftMembers (memberMoves_sound hpath hnested)
    (placed_keep hplaced (memberMoves_extends hpath))
    (accounted_of_fragment hnested houtward hpath (horigin fragment hfragment).2 hplaced)

end Trace

section Phases

variable {linker : Linker} {repo : RepositoryFact} {declared nested final : DraftState}

theorem Phases.nested_sound (h : linker.Phases repo declared nested final) : nested.Sound :=
  nestMoves_sound h.nests (h.declares.sound (skeleton_sound linker repo))

theorem Phases.sound (h : linker.Phases repo declared nested final) : final.Sound :=
  memberMoves_sound h.links h.nested_sound

/-- **What holds before members are linked, and is kept by every move, holds when a run is over.**
A move may be taken to start in a state that is in order. -/
theorem Phases.keeps (h : linker.Phases repo declared nested final) (holds : DraftState → Prop)
    (hstart : holds nested)
    (hmove : ∀ s s', s.Sound → linker.MemberMove (linker.occurrences repo nested.model) s s' →
      holds s → holds s') : holds final := by
  have hrun {s : DraftState} (hpath : ReflTransGen
      (linker.MemberMove (linker.occurrences repo nested.model)) nested s) : holds s := by
    induction hpath with
    | refl => exact hstart
    | tail hpath hlast ih =>
      exact hmove _ _ (memberMoves_sound hpath h.nested_sound) hlast ih
  exact hrun h.links

end Phases

end Linker

end FactGraph
