import FactGraph.Proofs.Fact.Listing
import FactGraph.Proofs.Linking.Draft.Follows
import FactGraph.Proofs.Linking.Trace

/-!
# The listings are entered

A run in draft starts with the nodes of the listings, which are read off the first listings. The
linker enters one listing after the other, finds the project of a path in its table, and notes each
solution in the projects that it lists. What it has at any moment is what is read off the solutions
and the first listings so far (`LinkState.Entered`); entering a listing either finds its path among
them or adds a project behind them.

## Main definitions

* `LinkState.Entered`: the state when some solutions and first listings have been entered

## Main results

* `Linker.run_enterListing`, `Linker.run_enterSolution`: one more listing, and one more solution
* `Linker.run_buildSkeleton`: the state that the draft starts in
-/

namespace FactGraph

open Linker

/-! ## Compilation units -/

/-- The units of one more listing come behind all others. -/
theorem unitsOf_append (listings : List ProjectFact) (listing : ProjectFact) :
    unitsOf (listings ++ [listing]) = unitsOf listings ++
      (listing.units.zipIdx (unitsOf listings).length).map fun (unit, file) =>
        { project := ⟨listings.length⟩, file := ⟨file⟩
          context := .inFile listing.path unit.path, fact := unit } := by
  have hlength : (unitsOf listings).length = (listedUnits listings).length := by simp [unitsOf]
  have hlisted : listedUnits (listings ++ [listing]) =
      listedUnits listings ++ listing.units.map fun unit => (listings.length, listing, unit) := by
    simp [listedUnits, List.zipIdx_append]
  rw [hlength, unitsOf, hlisted, List.zipIdx_append, List.map_append, List.zipIdx_map,
    List.map_map, Nat.zero_add]
  rfl

/-- A listing without units adds none. -/
theorem unitsOf_append_nil (listings : List ProjectFact) {listing : ProjectFact}
    (h : listing.units = []) : unitsOf (listings ++ [listing]) = unitsOf listings := by
  simp [unitsOf_append, h]

/-- The next unit of the last listing comes behind all others. -/
theorem unitsOf_concat (listings : List ProjectFact) (listing : ProjectFact)
    (units : List UnitFact) (unit : UnitFact) :
    unitsOf (listings ++ [{ listing with units := units ++ [unit] }]) =
      unitsOf (listings ++ [{ listing with units }]) ++
        [{ project := ⟨listings.length⟩
           file := ⟨(unitsOf (listings ++ [{ listing with units }])).length⟩
           context := .inFile listing.path unit.path, fact := unit }] := by
  have hlength : (unitsOf (listings ++ [{ listing with units }])).length =
      (unitsOf listings).length + units.length := by
    simp [unitsOf_append]
  rw [hlength, unitsOf_append, unitsOf_append, List.zipIdx_append, List.map_append,
    List.append_assoc]
  rfl

theorem fileNodes_append (units others : List SourceUnit) :
    fileNodes (units ++ others) = fileNodes units ++ fileNodes others :=
  List.map_append

/-! ## States -/

/-- The solutions that list a project. -/
def listersOf (solutions : List SolutionNode) (id : ProjectId) : List SolutionId :=
  (solutions.filter fun node => node.projects.contains id).map SolutionNode.id

/-- The last solution is noted in the projects that it lists. -/
theorem listersOf_concat (solutions : List SolutionNode) (node : SolutionNode) (id : ProjectId) :
    listersOf (solutions ++ [node]) id =
      listersOf solutions id ++ if id ∈ node.projects then [node.id] else [] := by
  by_cases h : id ∈ node.projects <;> simp [listersOf, List.filter_append, h]

/-- **The state when these solutions and first listings have been entered.** There is nothing else
yet. -/
structure LinkState.Entered (full : LinkState) (path : String) (solutions : List SolutionNode)
    (listings : List ProjectFact) : Prop where
  model : full.model =
    { repository := { path }
      solutions := (solutions.map fun node => { node with projects := [] }).toArray
      projects := ((projectNodes listings).map fun node =>
        { node with solutions := listersOf solutions node.id }).toArray
      files := (fileNodes (unitsOf listings)).toArray }
  project? : ∀ path, full.tables.project? path =
    (listings.findIdx? fun listing => listing.path = path).map Handle.mk
  tables : { full.tables with projects := [] } = {}
  diagnostics : full.diagnostics = {}
  pending : full.pending = #[]
  /-- The solutions are numbered, and list projects that are there. -/
  ids : solutions.map SolutionNode.id = (List.range solutions.length).map Handle.mk
  bounded : ∀ node ∈ solutions, ∀ id ∈ node.projects, id.idx < listings.length

namespace LinkState.Entered

variable {full : LinkState} {path : String} {solutions : List SolutionNode}
  {listings : List ProjectFact}

open LinkM

/-- The handle of a project is its position. -/
theorem projectNodes_id {id : ProjectId} {node : ProjectNode}
    (h : (projectNodes listings).toArray[id.idx]? = some node) : node.id = id := by
  rw [List.getElem?_toArray, projectNodes, List.getElem?_map, List.getElem?_zipIdx] at h
  obtain ⟨_, hentry, rfl⟩ := Option.map_eq_some_iff.1 h
  obtain ⟨listing, -, rfl⟩ := Option.map_eq_some_iff.1 hentry
  simp

/-! ### Solutions -/

/-- **A solution is added**, with no projects yet. -/
theorem addSolution (h : full.Entered path solutions listings) (solutionPath : String) :
    ∃ full', (LinkM.addSolution { id := ⟨solutions.length⟩, path := solutionPath }).run full =
        .ok ((), full') ∧ full'.members = full.members ∧
      full'.Entered path (solutions ++ [{ id := ⟨solutions.length⟩, path := solutionPath }])
        listings := by
  refine ⟨_, rfl, rfl, ?_, h.project?, h.tables, h.diagnostics, h.pending, ?_, ?_⟩
  · simp only [h.model, listersOf_concat, List.push_toArray, List.map_append, List.not_mem_nil,
      if_false, List.append_nil]
    rfl
  · rw [List.map_append, h.ids, List.length_append, List.length_singleton, List.range_succ,
      List.map_append]
    rfl
  · rw [List.forall_mem_append]
    exact ⟨h.bounded, by simp⟩

/-- The last solution is none of those before it. -/
theorem fresh {node : SolutionNode} (h : full.Entered path (solutions ++ [node]) listings) :
    node.id ∉ solutions.map SolutionNode.id := by
  have hnodup : ((solutions ++ [node]).map SolutionNode.id).Nodup := by
    rw [h.ids]
    exact List.nodup_range.map fun _ _ heq => Handle.mk.inj heq
  rw [List.map_append] at hnodup
  exact fun hmem => List.disjoint_of_nodup_append hnodup hmem (List.mem_singleton_self _)

/-- **A listed project is noted**, in the solution and in the project. -/
theorem note {node : SolutionNode} (h : full.Entered path (solutions ++ [node]) listings)
    {position : Nat} (hposition : position < listings.length) :
    ∃ full', (noteSolution node.id ⟨position⟩).run full = .ok ((), full') ∧
      full'.members = full.members ∧
      full'.Entered path
        (solutions ++ [{ node with projects := node.projects ++ [⟨position⟩] }]) listings := by
  have hhas : full.model.hasHandle (⟨position⟩ : ProjectId) := by
    rw [h.model]
    simpa [ReferenceModel.hasHandle, ReferenceModel.count, projectNodes] using hposition
  refine ⟨_, run_bind (run_require hhas), rfl, ?_, h.project?, h.tables, h.diagnostics, h.pending,
    ?_, ?_⟩
  · let noted : SolutionNode := { node with projects := node.projects ++ [⟨position⟩] }
    have hprojects : (projectNodes listings).toArray.map (fun project =>
          { project with solutions := listersOf (solutions ++ [noted]) project.id }) =
        ((projectNodes listings).toArray.map fun project =>
          { project with solutions := listersOf (solutions ++ [node]) project.id }).modify position
            fun project => { project with
              solutions := if node.id ∈ project.solutions then project.solutions
                else project.solutions ++ [node.id] } := by
      refine map_eq_modify (fun _ _ => projectNodes_id) ⟨position⟩ (fun project hid => ?_)
        fun project hid => ?_
      · have hnew : node.id ∉ listersOf solutions ⟨position⟩ := fun hmem =>
          h.fresh (List.map_subset _ (List.filter_subset_self _) hmem)
        by_cases hin : ⟨position⟩ ∈ node.projects <;>
          simp [hid, listersOf_concat, hin, hnew, noted]
      · simp [listersOf_concat, hid, noted]
    have hsolutions : (solutions ++ [noted]).map (fun node => { node with projects := [] }) =
        (solutions ++ [node]).map fun node => { node with projects := [] } := by
      rw [List.map_append, List.map_append]
      rfl
    rw [List.map_toArray, List.map_toArray] at hprojects
    rw [hprojects, hsolutions]
    simp only [h.model]
  · simpa using h.ids
  · obtain ⟨hbefore, hlast⟩ := List.forall_mem_append.1 h.bounded
    refine List.forall_mem_append.2 ⟨hbefore, ?_⟩
    have hnode := hlast node (List.mem_singleton_self _)
    rw [List.forall_mem_singleton]
    exact List.forall_mem_append.2 ⟨hnode, by simpa using hposition⟩

/-! ### Listings -/

theorem projectNodes_concat (listings : List ProjectFact) (listing : ProjectFact) :
    projectNodes (listings ++ [listing]) =
      projectNodes listings ++
        [{ id := ⟨listings.length⟩, path := listing.path, name := listing.name }] := by
  simp [projectNodes, List.zipIdx_append]

/-- **A project is added** for a path that has not been listed, with no units yet. -/
theorem addListing (h : full.Entered path solutions listings) (listing : ProjectFact)
    (hnew : listings.findIdx? (fun other => other.path = listing.path) = none) :
    ∃ full', (addProject
        { id := ⟨listings.length⟩, path := listing.path, name := listing.name }).run full =
          .ok ((), full') ∧ full'.members = full.members ∧
      full'.Entered path solutions (listings ++ [{ listing with units := [] }]) := by
  refine ⟨_, rfl, rfl, ?_, fun other => ?_, h.tables, h.diagnostics, h.pending, h.ids, ?_⟩
  · have hlisters : listersOf solutions ⟨listings.length⟩ = [] := by
      refine List.map_eq_nil_iff.2 (List.filter_eq_nil_iff.2 fun node hnode => ?_)
      simpa using fun hmem => absurd (h.bounded node hnode _ hmem) (Nat.lt_irrefl _)
    rw [projectNodes_concat, unitsOf_append_nil _ rfl, List.map_append, List.map_singleton,
      hlisters]
    simp only [h.model, List.push_toArray]
  · have hold := h.project? other
    rw [LinkTables.project?] at hold
    change List.lookup other ((listing.path, _) :: full.tables.projects) = _
    rw [NameTable.lookup_cons_ite, hold, List.findIdx?_append]
    by_cases hpath : other = listing.path
    · subst hpath
      rw [if_pos rfl, hnew, List.findIdx?_singleton, if_pos (by simp)]
      simp
    · rw [if_neg hpath, List.findIdx?_singleton, if_neg (by simpa using Ne.symm hpath)]
      simp
  · intro node hnode id hid
    rw [List.length_append, List.length_singleton]
    exact Nat.lt_succ_of_lt (h.bounded node hnode id hid)

/-- **A compilation unit is added** to the last listing. -/
theorem addUnit {listing : ProjectFact} {units : List UnitFact}
    (h : full.Entered path solutions (listings ++ [{ listing with units }])) (unit : UnitFact) :
    ∃ added full', (enterUnit ⟨listings.length⟩ listing unit).run full = .ok (added, full') ∧
      full'.members = full.members ∧
      full'.Entered path solutions (listings ++ [{ listing with units := units ++ [unit] }]) ∧
      unitsOf (listings ++ [{ listing with units := units ++ [unit] }]) =
        unitsOf (listings ++ [{ listing with units }]) ++ [added] := by
  have hcount :
      full.model.count .file = (unitsOf (listings ++ [{ listing with units }])).length := by
    rw [h.model]
    simp [ReferenceModel.count, fileNodes]
  refine ⟨_, _, (run_bind (run_nextHandle_of hcount)).trans rfl, rfl, ⟨?_, fun other => ?_,
    h.tables, h.diagnostics, h.pending, h.ids, ?_⟩, unitsOf_concat listings listing units unit⟩
  · simp only [h.model, projectNodes_concat, unitsOf_concat, fileNodes_append, List.push_toArray]
    rfl
  · have hold := h.project? other
    rw [List.findIdx?_append] at hold ⊢
    exact hold
  · simpa using h.bounded

/-- All compilation units of the last listing. -/
theorem addUnits {listing : ProjectFact} {units : List UnitFact} (rest : List UnitFact)
    (h : full.Entered path solutions (listings ++ [{ listing with units }])) :
    ∃ added full', (rest.mapM (enterUnit ⟨listings.length⟩ listing)).run full =
        .ok (added, full') ∧ full'.members = full.members ∧
      full'.Entered path solutions (listings ++ [{ listing with units := units ++ rest }]) ∧
      unitsOf (listings ++ [{ listing with units := units ++ rest }]) =
        unitsOf (listings ++ [{ listing with units }]) ++ added := by
  induction rest generalizing full units with
  | nil => exact ⟨[], full, rfl, rfl, by simpa using h, by simp⟩
  | cons unit rest ih =>
    obtain ⟨first, full₁, hrun₁, hmembers₁, h₁, hunits₁⟩ := h.addUnit unit
    obtain ⟨others, full₂, hrun₂, hmembers₂, h₂, hunits₂⟩ := ih h₁
    refine ⟨first :: others, full₂, ?_, hmembers₂.trans hmembers₁, by simpa using h₂, ?_⟩
    · rw [List.mapM_cons, run_bind hrun₁, run_bind hrun₂]
      rfl
    · rw [hunits₁, List.append_assoc, List.append_assoc] at hunits₂
      exact hunits₂

end LinkState.Entered

/-! ## Listings and solutions -/

/-- The first listings when one more has been met. -/
def enterPath (listings : List ProjectFact) (fact : ProjectFact) : List ProjectFact :=
  if fact.path ∈ listings.map ProjectFact.path then listings else listings ++ [fact]

/-- The position of the first listing of a path. -/
def positionOf? (listings : List ProjectFact) (path : String) : Option Nat :=
  listings.findIdx? fun listing => listing.path = path

theorem positionOf?_eq_none {listings : List ProjectFact} {path : String} :
    positionOf? listings path = none ↔ path ∉ listings.map ProjectFact.path := by
  simp [positionOf?, List.findIdx?_eq_none_iff]

/-- The projects that are listed, as the first listings have them. -/
def projectsListed (listings facts : List ProjectFact) : List ProjectId :=
  facts.filterMap fun fact => (positionOf? listings fact.path).map Handle.mk

/-- A solution with the projects that it lists, each once. -/
def listedSolution (listings : List ProjectFact) (fact : SolutionFact) (position : Nat) :
    SolutionNode :=
  { id := ⟨position⟩, path := fact.path
    projects := keepFirst (projectsListed listings fact.projects) }

/-- A path stays where it is. -/
theorem positionOf?_enterPath {listings : List ProjectFact} {path : String} {position : Nat}
    (h : positionOf? listings path = some position) (fact : ProjectFact) :
    positionOf? (enterPath listings fact) path = some position := by
  unfold enterPath
  split
  · exact h
  · rw [positionOf?, List.findIdx?_append, ← positionOf?, h]
    rfl

theorem positionOf?_foldl {listings : List ProjectFact} {path : String} {position : Nat}
    (h : positionOf? listings path = some position) (facts : List ProjectFact) :
    positionOf? (facts.foldl enterPath listings) path = some position := by
  induction facts generalizing listings with
  | nil => exact h
  | cons fact facts ih => exact ih (positionOf?_enterPath h fact)

/-- **The paths that have been met are those of the first listings.** -/
theorem foldl_enterPath {seen : List String} {listings : List ProjectFact}
    (h : ∀ path, path ∈ seen ↔ path ∈ listings.map ProjectFact.path) (facts : List ProjectFact) :
    facts.foldl enterPath listings = listings ++ RepositoryFact.firstOfPath seen facts := by
  induction facts generalizing seen listings with
  | nil => simp [RepositoryFact.firstOfPath]
  | cons fact facts ih =>
    rw [List.foldl_cons, RepositoryFact.firstOfPath, enterPath]
    by_cases hmem : fact.path ∈ seen
    · rw [if_pos hmem, if_pos ((h _).1 hmem)]
      exact ih h
    · rw [if_neg hmem, if_neg fun hlisted => hmem ((h _).2 hlisted),
        @ih (fact.path :: seen) _ fun path => ?_, List.append_assoc]
      · rfl
      · simp [h, or_comm]

namespace Linker

open LinkM

variable {full : LinkState} {path : String} {solutions : List SolutionNode}
  {listings : List ProjectFact}

/-- **One more listing**: its path is found, or a project is added behind the others. -/
theorem run_enterListing {node : SolutionNode}
    (h : full.Entered path (solutions ++ [node]) listings) (fact : ProjectFact) :
    ∃ position units full', (enterListing node.id fact).run full =
        .ok ((⟨position⟩, units), full') ∧ full'.members = full.members ∧
      full'.Entered path (solutions ++ [{ node with projects := node.projects ++ [⟨position⟩] }])
        (enterPath listings fact) ∧
      positionOf? (enterPath listings fact) fact.path = some position ∧
      unitsOf (enterPath listings fact) = unitsOf listings ++ units := by
  have htable : full.tables.project? fact.path =
      (positionOf? listings fact.path).map Handle.mk := h.project? fact.path
  have htables : tables.run full = .ok (full.tables, full) := rfl
  cases hfound : positionOf? listings fact.path with
  | some position =>
    have hmem : fact.path ∈ listings.map ProjectFact.path := by
      by_contra hnot
      rw [positionOf?_eq_none.2 hnot] at hfound
      cases hfound
    have hlt : position < listings.length := (List.findIdx?_eq_some_iff_getElem.1 hfound).1
    obtain ⟨full', hrun, hmembers, h'⟩ := h.note hlt
    rw [enterPath, if_pos hmem]
    refine ⟨position, [], full', (run_bind htables).trans ?_, hmembers, h', hfound,
      (List.append_nil _).symm⟩
    rw [htable, hfound]
    exact (run_bind hrun).trans rfl
  | none =>
    have hnew : fact.path ∉ listings.map ProjectFact.path := positionOf?_eq_none.1 hfound
    have hlt : listings.length < (listings ++ [{ fact with units := [] }]).length := by simp
    have hcount : full.model.count .project = listings.length := by
      rw [h.model]
      simp [ReferenceModel.count, projectNodes]
    obtain ⟨full₁, hrun₁, hmembers₁, h₁⟩ := h.addListing fact hfound
    obtain ⟨full₂, hrun₂, hmembers₂, h₂⟩ := h₁.note hlt
    obtain ⟨units, full₃, hrun₃, hmembers₃, h₃, hunits⟩ := h₂.addUnits fact.units
    have hlast : positionOf? (listings ++ [fact]) fact.path = some listings.length := by
      rw [positionOf?, List.findIdx?_append, ← positionOf?, hfound]
      simp [List.findIdx?_singleton]
    have hempty : unitsOf (listings ++ [{ fact with units := [] }]) = unitsOf listings :=
      unitsOf_append_nil listings rfl
    rw [hempty] at hunits
    rw [enterPath, if_neg hnew]
    refine ⟨listings.length, units, full₃, (run_bind htables).trans ?_,
      hmembers₃.trans (hmembers₂.trans hmembers₁), h₃, hlast, hunits⟩
    rw [htable, hfound]
    refine (run_bind (run_nextHandle_of hcount)).trans ((run_bind hrun₁).trans ?_)
    exact (run_bind hrun₂).trans ((run_bind hrun₃).trans rfl)

/-- The listings of a solution, one after the other. Whatever is listed later, the projects stay
where they are. -/
theorem run_enterListings {node : SolutionNode}
    (h : full.Entered path (solutions ++ [node]) listings) (facts : List ProjectFact) :
    ∃ results full', (facts.mapM (enterListing node.id)).run full = .ok (results, full') ∧
      full'.members = full.members ∧
      full'.Entered path
        (solutions ++ [{ node with projects := node.projects ++ results.map Prod.fst }])
        (facts.foldl enterPath listings) ∧
      (∀ more, results.map Prod.fst = projectsListed ((facts ++ more).foldl enterPath listings)
        facts) ∧
      unitsOf (facts.foldl enterPath listings) =
        unitsOf listings ++ results.flatMap Prod.snd := by
  induction facts generalizing full node listings with
  | nil => exact ⟨[], full, rfl, rfl, by simpa using h, fun _ => rfl, by simp⟩
  | cons fact facts ih =>
    obtain ⟨position, units, full₁, hrun₁, hmembers₁, h₁, hposition, hunits₁⟩ :=
      run_enterListing h fact
    obtain ⟨results, full₂, hrun₂, hmembers₂, h₂, hresults, hunits₂⟩ := ih h₁
    refine ⟨(⟨position⟩, units) :: results, full₂, ?_, hmembers₂.trans hmembers₁, ?_,
      fun more => ?_, ?_⟩
    · rw [List.mapM_cons, run_bind hrun₁, run_bind hrun₂]
      rfl
    · simpa using h₂
    · have hstays := positionOf?_foldl hposition (facts ++ more)
      rw [List.map_cons, hresults more, List.cons_append, List.foldl_cons, projectsListed,
        projectsListed, List.filterMap_cons, hstays]
      rfl
    · rw [List.foldl_cons, hunits₂, hunits₁, List.append_assoc, List.flatMap_cons]

/-- A project that is listed twice by a solution is noted once. -/
theorem listersOf_keepFirst (solutions : List SolutionNode) (node : SolutionNode) :
    listersOf (solutions ++ [{ node with projects := keepFirst node.projects }]) =
      listersOf (solutions ++ [node]) := by
  funext id
  rw [listersOf_concat, listersOf_concat]
  simp only [mem_keepFirst]

theorem entered_keepFirst {node : SolutionNode}
    (h : full.Entered path (solutions ++ [node]) listings) (members : List (List ProjectId)) :
    { full with members }.Entered path
      (solutions ++ [{ node with projects := keepFirst node.projects }]) listings := by
  refine ⟨?_, h.project?, h.tables, h.diagnostics, h.pending, by simpa using h.ids, ?_⟩
  · simp only [h.model, listersOf_keepFirst, List.map_append]
    rfl
  · obtain ⟨hbefore, hlast⟩ := List.forall_mem_append.1 h.bounded
    refine List.forall_mem_append.2 ⟨hbefore, ?_⟩
    rw [List.forall_mem_singleton] at hlast ⊢
    exact fun id hid => hlast id (mem_keepFirst.1 hid)

/-- **One more solution** with its listings. -/
theorem run_enterSolution (h : full.Entered path solutions listings) (fact : SolutionFact) :
    ∃ node units full', (enterSolution fact).run full = .ok (units, full') ∧
      full'.members = full.members ++ [node.projects] ∧
      full'.Entered path (solutions ++ [node]) (fact.projects.foldl enterPath listings) ∧
      (∀ more, node = listedSolution ((fact.projects ++ more).foldl enterPath listings) fact
        solutions.length) ∧
      unitsOf (fact.projects.foldl enterPath listings) = unitsOf listings ++ units := by
  have hcount : full.model.count .solution = solutions.length := by
    rw [h.model]
    simp [ReferenceModel.count]
  obtain ⟨full₁, hrun₁, hmembers₁, h₁⟩ := h.addSolution fact.path
  obtain ⟨results, full₂, hrun₂, hmembers₂, h₂, hresults, hunits⟩ :=
    run_enterListings h₁ fact.projects
  let node : SolutionNode :=
    { id := ⟨solutions.length⟩, path := fact.path, projects := results.map Prod.fst }
  have hnode : full₂.Entered path (solutions ++ [node])
      (fact.projects.foldl enterPath listings) := h₂
  refine ⟨{ node with projects := keepFirst node.projects }, results.flatMap Prod.snd,
    { full₂ with members := full₂.members ++ [keepFirst node.projects] }, ?_, ?_,
    entered_keepFirst hnode _, fun more => ?_, hunits⟩
  · refine (run_bind (run_nextHandle_of hcount)).trans ?_
    exact (run_bind hrun₁).trans ((run_bind hrun₂).trans rfl)
  · rw [hmembers₂, hmembers₁]
  · rw [listedSolution, ← hresults more]

/-- The solutions of a repository, one after the other. -/
theorem run_enterSolutions (h : full.Entered path solutions listings)
    (facts : List SolutionFact) :
    ∃ nodes units full', (facts.mapM enterSolution).run full = .ok (units, full') ∧
      full'.members = full.members ++ nodes.map SolutionNode.projects ∧
      full'.Entered path (solutions ++ nodes)
        ((facts.flatMap SolutionFact.projects).foldl enterPath listings) ∧
      (∀ more, nodes = (facts.zipIdx solutions.length).map fun (fact, position) =>
        listedSolution ((facts.flatMap SolutionFact.projects ++ more).foldl enterPath listings)
          fact position) ∧
      unitsOf ((facts.flatMap SolutionFact.projects).foldl enterPath listings) =
        unitsOf listings ++ units.flatten := by
  induction facts generalizing full solutions listings with
  | nil => exact ⟨[], [], full, rfl, by simp, by simpa using h, fun _ => rfl, by simp⟩
  | cons fact facts ih =>
    obtain ⟨node, units, full₁, hrun₁, hmembers₁, h₁, hnode, hunits₁⟩ := run_enterSolution h fact
    obtain ⟨nodes, others, full₂, hrun₂, hmembers₂, h₂, hnodes, hunits₂⟩ := ih h₁
    refine ⟨node :: nodes, units :: others, full₂, ?_, ?_, ?_, fun more => ?_, ?_⟩
    · rw [List.mapM_cons, run_bind hrun₁, run_bind hrun₂]
      rfl
    · simp [hmembers₂, hmembers₁]
    · simpa using h₂
    · rw [hnodes more, hnode (facts.flatMap SolutionFact.projects ++ more)]
      simp
    · rw [List.flatMap_cons, List.foldl_append, hunits₂, hunits₁, List.flatten_cons,
        List.append_assoc]

/-! ## The outer nodes -/

/-- The project of a path, in any model with the projects of these listings. -/
theorem projectOf?_eq {model : ReferenceModel}
    (h : model.projects.toList.map ProjectNode.path = listings.map ProjectFact.path)
    (path : String) : model.projectOf? path = (positionOf? listings path).map Handle.mk := by
  have hlistings : positionOf? listings path =
      (listings.map ProjectFact.path).findIdx? fun other => other = path := by
    rw [List.findIdx?_map]
    rfl
  have hnodes : model.projects.findIdx? (fun node => node.path = path) =
      (model.projects.toList.map ProjectNode.path).findIdx? fun other => other = path := by
    rw [List.findIdx?_map, ← List.findIdx?_toArray, Array.toArray_toList]
    rfl
  rw [ReferenceModel.projectOf?, hnodes, hlistings, h]

theorem map_path_projectNodes (listings : List ProjectFact) :
    (projectNodes listings).map ProjectNode.path = listings.map ProjectFact.path := by
  conv_rhs => rw [← List.zipIdx_map_fst 0 listings]
  rw [projectNodes, List.map_map, List.map_map]
  rfl

/-- The solutions of a draft list the projects of the first listings. -/
theorem skeleton_solutions (linker : Linker) (repo : RepositoryFact) :
    (linker.skeleton repo).solutions = (repo.solutions.zipIdx.map fun (fact, position) =>
      listedSolution repo.firstListings fact position).toArray := by
  unfold skeleton
  dsimp only
  congr 2
  funext ⟨fact, position⟩
  unfold solutionNode listedSolution projectsListed
  congr 2
  refine List.filterMap_congr fun project _ => ?_
  exact projectOf?_eq (map_path_projectNodes _) project.path

/-- A path leads to the same project in a draft as in the table. -/
theorem skeleton_projectOf? (linker : Linker) (repo : RepositoryFact) (path : String) :
    (linker.skeleton repo).projectOf? path =
      (positionOf? repo.firstListings path).map Handle.mk := by
  refine projectOf?_eq ?_ path
  simp only [skeleton, Array.toList_map, List.map_map]
  exact map_path_projectNodes _

/-- The projects of a draft refer to what the table leads to. -/
theorem listed_skeleton_projects (linker : Linker) (repo : RepositoryFact) {tables : LinkTables}
    (htable : ∀ path, tables.project? path =
      (positionOf? repo.firstListings path).map Handle.mk) :
    ((linker.skeleton repo).listed []).projects =
      ((projectNodes repo.firstListings).map fun node => { node with
        solutions := listersOf (linker.skeleton repo).solutions.toList node.id
        references := linker.directReferences tables node.path }).toArray := by
  have hreferences (path : String) {model : ReferenceModel}
      (hmodel : ∀ path, model.projectOf? path =
        (positionOf? repo.firstListings path).map Handle.mk) :
      linker.referencesOf model path = linker.directReferences tables path := by
    unfold directReferences referencesOf
    cases linker.index.projectIndex? path with
    | none => rfl
    | some position =>
      exact (LinkTables.InStep.projectsAt_eq (fun path => (htable path).trans (hmodel path).symm)
        linker _).symm
  change (((projectNodes repo.firstListings).toArray.map _).map _) = _
  rw [Array.map_map, List.map_toArray]
  refine congrArg List.toArray (List.map_congr_left fun node hnode => ?_)
  obtain ⟨⟨listing, position⟩, -, rfl⟩ := List.mem_map.1 hnode
  rw [Function.comp_apply, hreferences _ (projectOf?_eq (map_path_projectNodes _))]
  rfl

/-- The only table with entries is that of the projects, and it says what a draft says. -/
theorem entered_inStep {repo : RepositoryFact}
    (h : full.Entered path solutions repo.firstListings) (linker : Linker) :
    full.tables.InStep (linker.skeleton repo) := by
  have hempty : full.tables = { projects := full.tables.projects } :=
    congrArg (fun tables : LinkTables => { tables with projects := full.tables.projects }) h.tables
  refine ⟨fun path => ?_, ?_, ?_, ?_, ?_⟩
  · rw [skeleton_projectOf?]
    exact h.project? path
  all_goals rw [hempty]
  · simp [LinkTables.fragments?, findFragments?, skeleton]
  · exact fun _ => rfl
  · simp [LinkTables.namespace?, findNamespace?, skeleton]
  · simp [LinkTables.external?, findExternal?, skeleton]

/-- **The linker enters the listings as a draft has them.** -/
theorem run_buildSkeleton (linker : Linker) (repo : RepositoryFact) :
    ∃ full, (linker.buildSkeleton repo).run { model := {} } = .ok (sourceUnits repo, full) ∧
      full.Realizes [] [] { model := linker.skeleton repo } := by
  have hstart : LinkState.Entered { model := { repository := { path := repo.path } } } repo.path
      [] [] :=
    ⟨rfl, fun _ => rfl, rfl, rfl, rfl, rfl, by simp⟩
  obtain ⟨nodes, units, full, hrun, hmembers, h, hnodes, hunits⟩ :=
    run_enterSolutions hstart repo.solutions
  have hlistings : (repo.solutions.flatMap SolutionFact.projects).foldl enterPath [] =
      repo.firstListings :=
    foldl_enterPath (fun _ => Iff.rfl) _
  have hsolutions := hnodes []
  rw [List.append_nil] at hsolutions
  rw [hlistings] at h hsolutions hunits
  rw [List.nil_append] at h
  replace hsolutions : (linker.skeleton repo).solutions = nodes.toArray :=
    (skeleton_solutions linker repo).trans (congrArg List.toArray hsolutions.symm)
  have hprojects := listed_skeleton_projects linker repo h.project?
  rw [hsolutions] at hprojects
  have hunits' : sourceUnits repo = units.flatten := hunits
  refine ⟨{ full with model := { full.model with projects := full.model.projects.map fun node =>
    { node with references := linker.directReferences full.tables node.path } } }, ?_, ?_⟩
  · refine (run_bind rfl).trans ((run_bind hrun).trans ?_)
    rw [hunits']
    rfl
  · have hlisted : (linker.skeleton repo).listed [] =
        { repository := { path := repo.path }
          solutions := (linker.skeleton repo).solutions.map fun node =>
            { node with projects := [] }
          projects := ((linker.skeleton repo).listed []).projects
          files := (fileNodes (sourceUnits repo)).toArray } := by
      simp [ReferenceModel.listed, ReferenceModel.handlesWhere, skeleton]
    exact {
      model := by
        refine Eq.trans ?_ hlisted.symm
        rw [hprojects, hsolutions]
        simp only [h.model, List.map_toArray, List.map_map]
        rfl
      tables := entered_inStep h linker
      members := by rw [hsolutions]; exact hmembers
      diagnostics := h.diagnostics
      pending := h.pending
      numbered := skeleton_numbered linker repo
      housed := by constructor <;> simp [skeleton]
      external := by simp [skeleton]
      waits := by simp
      ordered := by simp
      known := by simp }

end Linker

end FactGraph
