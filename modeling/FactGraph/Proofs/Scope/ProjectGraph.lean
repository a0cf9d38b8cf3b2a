import FactGraph.Proofs.Fact.Listing
import FactGraph.Proofs.Graph.Distance
import FactGraph.Proofs.Scope.Index

/-!
# The graph of projects

A fact model names the projects that a project refers to by path. The paths come as they were
written: a solution may list a project again, and a reference may be repeated, lead back to the
project itself or to nothing that is listed. What an index makes of them is a graph over positions.
A project has an edge to each other listed project that its first listing mentions, once, in the
order of first mention; a mention of a path that is not listed is reported, each time.

The references are looked up before any of them is entered, but entering them changes no path, so
they are those that the finished index would give. A path leads to at most one position and no two
paths to the same, which is why the order of the positions is that of the paths.

## Main definitions

* `ScopeIndex.RefersTo`: the references of a listing
* `ScopeIndex.Reaches`: what can be reached over references, the nearer projects first

## Main results

* `build_paths`, `projectIndex?_eq_some_iff`: the projects of an index stand where their listings do
* `build_projects`: the entries of an index, with the references looked up in the index itself
* `refersTo_referencesFrom`: what a look-up of the references of a listing gives
* `missing_build`: the findings about references that lead nowhere
* `isOrder_reachableProjects`: what can be reached over references, in breadth-first order
* `projectGraph_exact`: the graph of projects and its closure
-/

namespace FactGraph.ScopeIndex

open BreadthFirst
open Relation (TransGen)

variable {repo : RepositoryFact} {sep : Separator} {index : ScopeIndex} {fact : ProjectFact}
  {path : String} {paths : List String} {project position other : Nat}

/-! ## Paths and positions -/

theorem projects_enterProjects (listings : List ProjectFact) (index : ScopeIndex) :
    (listings.foldl enterProject index).projects =
      index.projects ++ listings.map fun fact => ({ path := fact.path } : ProjectEntry) := by
  induction listings generalizing index with
  | nil => simp
  | cons fact listings ih => simp [ih, projects_enterProject]

theorem length_projects (repo : RepositoryFact) (sep : Separator) :
    (build repo sep).1.projects.length = repo.firstListings.length := by
  simp [build_eq]

/-- **The paths of an index** are those of the first listings. -/
theorem build_paths (repo : RepositoryFact) (sep : Separator) :
    (build repo sep).1.projects.map ProjectEntry.path =
      repo.firstListings.map ProjectFact.path := by
  rw [build_eq]
  dsimp only
  rw [List.map_map]
  conv_rhs => rw [← List.zipIdx_map_fst 0 repo.firstListings, List.map_map]
  rfl

theorem projectIndex?_eq (index : ScopeIndex) (path : String) : index.projectIndex? path =
    (index.projects.map ProjectEntry.path).findIdx? fun other => other = path := by
  rw [List.findIdx?_map]
  rfl

/-- The path at a position leads back to the position. -/
theorem projectIndex?_of_getElem?
    (h : (repo.firstListings.map ProjectFact.path)[position]? = some path) :
    (build repo sep).1.projectIndex? path = some position := by
  rw [projectIndex?_eq, build_paths, RepositoryFact.findIdx?_path h]

/-- The references are looked up with the positions that the finished index gives. -/
theorem projectIndex?_entered (repo : RepositoryFact) (sep : Separator) :
    (repo.firstListings.foldl enterProject (initial sep)).projectIndex? =
      (build repo sep).1.projectIndex? := by
  funext path
  rw [projectIndex?_eq, projectIndex?_eq, build_paths, projects_enterProjects, initial,
    List.nil_append, List.map_map]
  rfl

/-- **A position belongs to a path** if a first listing of that path stands there. -/
theorem projectIndex?_eq_some_iff : (build repo sep).1.projectIndex? path = some position ↔
    (repo.firstListings.map ProjectFact.path)[position]? = some path := by
  refine ⟨fun h => ?_, projectIndex?_of_getElem?⟩
  obtain ⟨hlt, hpath, -⟩ := List.findIdx?_eq_some_iff_getElem.1 h
  rw [← build_paths repo sep, List.getElem?_map, List.getElem?_eq_getElem hlt, Option.map_some,
    of_decide_eq_true hpath]

/-- Two paths do not lead to the same position. -/
theorem projectIndex?_inj {path path' : String}
    (h : (build repo sep).1.projectIndex? path = some position)
    (h' : (build repo sep).1.projectIndex? path' = some position) : path = path' :=
  Option.some.inj ((projectIndex?_eq_some_iff.1 h).symm.trans (projectIndex?_eq_some_iff.1 h'))

/-- The paths with a position are those that are listed. -/
theorem exists_projectIndex?_iff (sep : Separator) :
    (∃ position, (build repo sep).1.projectIndex? path = some position) ↔
      path ∈ repo.projects.map ProjectFact.path := by
  simp only [projectIndex?_eq_some_iff]
  rw [← List.mem_iff_getElem?, RepositoryFact.mem_map_path_firstListings]

/-! ## References -/

theorem mem_referencesFrom : other ∈ index.referencesFrom project paths ↔
    other ≠ project ∧ ∃ path ∈ paths, index.projectIndex? path = some other := by
  change other ∈ keepFirst _ ↔ _
  rw [mem_keepFirst, List.mem_filter, List.mem_filterMap, decide_eq_true_eq, and_comm]

/-- A look-up of references leads into the index. -/
theorem lt_of_referencesFrom (h : other ∈ index.referencesFrom project paths) :
    other < index.projects.length := by
  obtain ⟨-, path, -, hpath⟩ := mem_referencesFrom.1 h
  obtain ⟨hlt, -⟩ := List.findIdx?_eq_some_iff_getElem.1 hpath
  exact hlt

/-- The flag is set by the projects that have references. -/
theorem refersElsewhere_iff : index.refersElsewhere fact project ↔
    index.referencesFrom project fact.projectReferences ≠ [] := by
  rw [refersElsewhere, List.any_eq_true]
  constructor
  · rintro ⟨path, hpath, hany⟩
    obtain ⟨other, hother, hne⟩ := (Option.any_eq_true _ _).1 hany
    exact List.ne_nil_of_mem (mem_referencesFrom.2 ⟨of_decide_eq_true hne, path, hpath, hother⟩)
  · intro hne
    obtain ⟨other, hmem⟩ := List.exists_mem_of_ne_nil _ hne
    obtain ⟨hne, path, hpath, hother⟩ := mem_referencesFrom.1 hmem
    exact ⟨path, hpath, (Option.any_eq_true _ _).2 ⟨other, hother, decide_eq_true hne⟩⟩

/-- Of two references, the one whose path is mentioned first comes first. -/
theorem pairwise_referencesFrom
    (hinj : ∀ path path' other, index.projectIndex? path = some other →
      index.projectIndex? path' = some other → path = path') :
    (index.referencesFrom project paths).Pairwise fun other later => ∀ path path',
      index.projectIndex? path = some other → index.projectIndex? path' = some later →
        paths.idxOf path < paths.idxOf path' := by
  have hfilter : (paths.filterMap index.projectIndex?).filter (· ≠ project) =
      paths.filterMap fun path => (index.projectIndex? path).filter (· ≠ project) :=
    List.filter_filterMap
  refine (pairwise_keepFirst _).imp_of_mem ?_
  intro other later hother hlater hlt path path' hpath hpath'
  rw [hfilter] at hlt
  refine idxOf_lt_of_filterMap (fun path path' other hpath hpath' => ?_) ?_ ?_ hlt
  · exact hinj path path' other (Option.filter_eq_some_iff.1 hpath).1
      (Option.filter_eq_some_iff.1 hpath').1
  · exact Option.filter_eq_some_iff.2 ⟨hpath, by simpa using (mem_referencesFrom.1 hother).1⟩
  · exact Option.filter_eq_some_iff.2 ⟨hpath', by simpa using (mem_referencesFrom.1 hlater).1⟩

/-- A path leads to a reference of a listing if it is listed, mentioned and another one. -/
theorem exists_reference_iff (sep : Separator) (h : repo.firstListings[position]? = some fact) :
    (∃ other ∈ (build repo sep).1.referencesFrom position fact.projectReferences,
        (build repo sep).1.projectIndex? path = some other) ↔
      path ∈ fact.projectReferences ∧ path ≠ fact.path ∧
        path ∈ repo.projects.map ProjectFact.path := by
  have hown : (build repo sep).1.projectIndex? fact.path = some position :=
    projectIndex?_of_getElem? (by rw [List.getElem?_map, h, Option.map_some])
  rw [← exists_projectIndex?_iff sep]
  constructor
  · rintro ⟨other, hother, hpath⟩
    obtain ⟨hne, mentioned, hmentioned, hsame⟩ := mem_referencesFrom.1 hother
    obtain rfl := projectIndex?_inj hsame hpath
    refine ⟨hmentioned, ?_, other, hpath⟩
    rintro rfl
    exact hne (Option.some.inj (hpath.symm.trans hown))
  · rintro ⟨hmentioned, hne, other, hpath⟩
    refine ⟨other, mem_referencesFrom.2 ⟨?_, path, hmentioned, hpath⟩, hpath⟩
    rintro rfl
    exact hne (projectIndex?_inj hpath hown)

/-- **The references of a listing**, for the project at a position of an index. They lead into the
index, not back to the project, and to the other listed paths that the listing mentions, each once;
of two of them, the one that is mentioned first comes first. -/
structure RefersTo (repo : RepositoryFact) (index : ScopeIndex) (fact : ProjectFact)
    (position : Nat) (references : List Nat) : Prop where
  lt : ∀ other ∈ references, other < index.projects.length
  nodup : references.Nodup
  notMem : position ∉ references
  mem_iff : ∀ path, (∃ other ∈ references, index.projectIndex? path = some other) ↔
    path ∈ fact.projectReferences ∧ path ≠ fact.path ∧ path ∈ repo.projects.map ProjectFact.path
  ordered : references.Pairwise fun other later => ∀ path path',
    index.projectIndex? path = some other → index.projectIndex? path' = some later →
      fact.projectReferences.idxOf path < fact.projectReferences.idxOf path'

/-- **What a look-up of the references of a listing gives.** -/
theorem refersTo_referencesFrom (sep : Separator)
    (h : repo.firstListings[position]? = some fact) :
    RefersTo repo (build repo sep).1 fact position
      ((build repo sep).1.referencesFrom position fact.projectReferences) where
  lt _ := lt_of_referencesFrom
  nodup := nodup_keepFirst _
  notMem hmem := (mem_referencesFrom.1 hmem).1 rfl
  mem_iff _ := exists_reference_iff sep h
  ordered := pairwise_referencesFrom fun _ _ _ => projectIndex?_inj

/-! ## The graph of an index -/

/-- **The entries of an index**, with the references looked up in the index itself. -/
theorem build_projects (repo : RepositoryFact) (sep : Separator) :
    (build repo sep).1.projects = repo.firstListings.zipIdx.map fun (fact, position) =>
      (build repo sep).1.linkedEntry fact position := by
  conv_lhs => rw [build_eq]
  simp only [linkedEntry, referencesFrom, projectIndex?_entered]

theorem getElem?_projects (sep : Separator) (h : repo.firstListings[position]? = some fact) :
    (build repo sep).1.projects[position]? =
      some ((build repo sep).1.linkedEntry fact position) := by
  rw [build_projects, List.getElem?_map, List.getElem?_zipIdx, h, Option.map_some, Option.map_some,
    Nat.zero_add]

/-- **Projects refer to each other** if some entry has references. -/
theorem hasReferenceGraph_iff : (build repo sep).1.hasReferenceGraph ↔
    ∃ entry ∈ (build repo sep).1.projects, entry.references ≠ [] := by
  have hflag : (build repo sep).1.hasReferenceGraph =
      repo.firstListings.zipIdx.any fun (fact, position) =>
        (build repo sep).1.refersElsewhere fact position := by
    conv_lhs => rw [build_eq]
    simp only [refersElsewhere, projectIndex?_entered]
  rw [hflag, build_projects, List.any_eq_true]
  constructor
  · rintro ⟨⟨fact, position⟩, hmem, hrefers⟩
    exact ⟨_, List.mem_map_of_mem hmem, refersElsewhere_iff.1 hrefers⟩
  · rintro ⟨entry, hentry, hne⟩
    obtain ⟨⟨fact, position⟩, hmem, rfl⟩ := List.mem_map.1 hentry
    exact ⟨_, hmem, refersElsewhere_iff.2 hne⟩

/-! ## Findings -/

/-- What has been found so far about references that lead nowhere. -/
def Survey.missing (survey : Survey) : List Diagnostic :=
  survey.diagnostics.ofKind .missingProjectReference

/-- A finding of another kind. -/
theorem missing_report {diagnostic : Diagnostic} (h : diagnostic.kind ≠ .missingProjectReference)
    (survey : Survey) : ((report diagnostic).run survey).2.missing = survey.missing := by
  change (survey.diagnostics.push diagnostic).ofKind .missingProjectReference = _
  rw [Diagnostics.ofKind, Diagnostics.entries_push, List.filter_append,
    List.filter_singleton, decide_eq_false h]
  exact List.append_nil _

theorem missing_surveyNamespace (projectPath filePath name : String) (survey : Survey) :
    ((surveyNamespace projectPath filePath name).run survey).2.missing = survey.missing := by
  simp only [surveyNamespace, StateT.run_bind, StateT.run_get, pure_bind]
  split
  · exact missing_report (by simp [Diagnostic.malformedNamespace]) _
  · rfl

theorem missing_surveyType (project : Nat) (projectPath filePath : String) (fact : TypeFact)
    (survey : Survey) :
    ((surveyType project projectPath filePath fact).run survey).2.missing = survey.missing := by
  unfold surveyType
  split
  · exact missing_surveyNamespace projectPath filePath fact.namespaceName survey
  · rfl

theorem missing_surveyUnit (project : Nat) (projectPath : String) (fact : UnitFact)
    (survey : Survey) :
    ((surveyUnit project projectPath fact).run survey).2.missing = survey.missing := by
  refine (read_forM_of_keeps Survey.missing
    (missing_surveyType project projectPath fact.path) fact.types _).trans ?_
  exact read_forM_of_keeps Survey.missing
    (fun _ => missing_report (by simp [Diagnostic.incompleteImport])) _ survey

theorem missing_surveyProject (fact : ProjectFact) (survey : Survey) :
    ((surveyProject fact).run survey).2.missing = survey.missing :=
  read_forM_of_keeps Survey.missing
    (missing_surveyUnit survey.index.projects.length fact.path) fact.units _

/-- The references that are missing when they are looked up are the mentions of paths that are not
listed. -/
theorem missingReferences_entered (repo : RepositoryFact) (sep : Separator) :
    (repo.firstListings.foldl enterProject (initial sep)).missingReferences repo.firstListings =
      repo.firstListings.flatMap fun fact =>
        (fact.projectReferences.filter fun path => path ∉ repo.projects.map ProjectFact.path).map
          (.missingProject fact.path) := by
  have hlisted (path : String) : ((build repo sep).1.projectIndex? path).isNone =
      decide (path ∉ repo.projects.map ProjectFact.path) := by
    rw [Bool.eq_iff_iff, decide_eq_true_iff, ← exists_projectIndex?_iff sep,
      ← Option.isSome_iff_exists, Option.isNone_iff_eq_none, Option.not_isSome_iff_eq_none]
  simp only [missingReferences, projectIndex?_entered, hlisted]

/-- **The findings about references that lead nowhere**: one for each mention of a path that is not
listed, in the order of the first listings. -/
theorem missing_build (repo : RepositoryFact) (sep : Separator) :
    (build repo sep).2.ofKind .missingProjectReference = repo.firstListings.flatMap fun fact =>
      (fact.projectReferences.filter fun path => path ∉ repo.projects.map ProjectFact.path).map
        (.missingProject fact.path) := by
  have hsurvey : _ = ([] : List Diagnostic) :=
    read_forM_of_keeps Survey.missing missing_surveyProject repo.firstListings
      { index := initial sep }
  have hindex := read_forM Survey.index index_surveyProject repo.firstListings
    { index := initial sep }
  rw [build, Diagnostics.ofKind, List.filter_append, hindex, missingReferences_entered]
  change Survey.missing _ ++ _ = _
  rw [hsurvey, List.nil_append, List.filter_eq_self]
  intro diagnostic hmem
  obtain ⟨fact, -, hmem⟩ := List.mem_flatMap.1 hmem
  obtain ⟨path, -, rfl⟩ := List.mem_map.1 hmem
  rfl

/-! ## What can be reached -/

/-- A reference leads to a project of the index. -/
theorem lt_of_referencesOf {reference : Nat}
    (h : reference ∈ (build repo sep).1.referencesOf project) :
    reference < (build repo sep).1.projects.length := by
  unfold referencesOf at h
  split at h
  next entry hentry =>
    have hmem := List.mem_of_getElem? hentry
    rw [build_projects] at hmem
    obtain ⟨⟨fact, position⟩, -, rfl⟩ := List.mem_map.1 hmem
    exact lt_of_referencesFrom h
  next => cases h

/-- **Only projects of the index can be reached.** -/
theorem lt_of_reachableProjects
    (h : other ∈ (build repo sep).1.reachableProjects project) :
    other < (build repo sep).1.projects.length := by
  obtain ⟨visit, hvisit, rfl⟩ := List.mem_map.1 h
  obtain ⟨node, hnode⟩ := exists_of_visit hvisit
  exact lt_of_referencesOf hnode

/-- **The projects that a project can reach** are those to which a way over references leads. -/
theorem isOrder_reachableProjects (repo : RepositoryFact) (sep : Separator) (project : Nat) :
    IsOrder (build repo sep).1.referencesOf project
      (project :: (build repo sep).1.reachableProjects project) := by
  refine isOrder_search fun other distance hdistance => ?_
  have hle := hdistance.le_length (List.range (build repo sep).1.projects.length)
    fun _ _ hreference => List.mem_range.2 (lt_of_referencesOf hreference)
  rwa [List.length_range] at hle

/-- Outside of the index, nothing can be reached. -/
theorem reachableProjects_of_le (h : index.projects.length ≤ project) :
    index.reachableProjects project = [] := by
  have hnone : index.referencesOf project = [] := by
    rw [referencesOf, List.getElem?_eq_none h]
  rw [reachableProjects, search_of_isEmpty hnone, List.map_nil]

/-- **What a project reaches** over one reference or more, itself left out: each project once, and
none before one that is nearer. -/
structure Reaches (index : ScopeIndex) (project : Nat) (others : List Nat) : Prop where
  nodup : others.Nodup
  mem_iff : ∀ other, other ∈ others ↔
    other ≠ project ∧ TransGen (fun a b => b ∈ index.referencesOf a) project other
  nearer : others.Pairwise fun other later => ∃ n m,
    IsDistance index.referencesOf project other n ∧
      IsDistance index.referencesOf project later m ∧ n ≤ m

/-- A breadth-first order has, after its start, what the start reaches. -/
theorem reaches_of_isOrder {others : List Nat}
    (h : IsOrder index.referencesOf project (project :: others)) :
    Reaches index project others := by
  obtain ⟨hstart, hnodup⟩ := List.nodup_cons.1 h.nodup
  refine ⟨hnodup, fun other => ?_, ?_⟩
  · have hmem := h.mem_iff other
    rw [List.mem_cons, Relation.reflTransGen_iff_eq_or_transGen] at hmem
    constructor
    · intro hother
      have hne : other ≠ project := fun heq => hstart (heq ▸ hother)
      exact ⟨hne, (hmem.1 (.inr hother)).resolve_left hne⟩
    · rintro ⟨hne, hreach⟩
      exact (hmem.2 (.inr hreach)).resolve_left hne
  · have hdistance : ∀ other ∈ others, ∃ n, IsDistance index.referencesOf project other n := by
      intro other hother
      obtain ⟨n, hwalk⟩ := reflTransGen_iff.1 ((h.mem_iff other).1 (List.mem_cons_of_mem _ hother))
      obtain ⟨m, -, hdistance⟩ := exists_isDistance hwalk
      exact ⟨m, hdistance⟩
    refine (List.pairwise_cons.1 h.nearer).2.imp_of_mem fun hother hlater hle => ?_
    obtain ⟨n, hn⟩ := hdistance _ hother
    obtain ⟨m, hm⟩ := hdistance _ hlater
    exact ⟨n, m, hn, hm, hle n m hn hm⟩

/-- **The graph of projects and its closure.** The projects of an index are the first listings, each
with the references of its listing. Projects refer to each other if some entry has references. One
finding is made for each mention of a path that is not listed. What can be reached from a project is
found over any graph, cycles included. -/
theorem projectGraph_exact (repo : RepositoryFact) (sep : Separator) :
    let index := (build repo sep).1
    index.projects.length = repo.firstListings.length ∧
    (∀ position fact, repo.firstListings[position]? = some fact →
      ∃ entry, index.projects[position]? = some entry ∧ entry.path = fact.path ∧
        RefersTo repo index fact position entry.references) ∧
    (index.hasReferenceGraph ↔ ∃ entry ∈ index.projects, entry.references ≠ []) ∧
    ((build repo sep).2.ofKind .missingProjectReference = repo.firstListings.flatMap fun fact =>
      (fact.projectReferences.filter fun path => path ∉ repo.projects.map ProjectFact.path).map
        (.missingProject fact.path)) ∧
    ∀ project, Reaches index project (index.reachableProjects project) := by
  refine ⟨length_projects repo sep, fun position fact hfact => ?_, hasReferenceGraph_iff,
    missing_build repo sep, fun project => ?_⟩
  · exact ⟨_, getElem?_projects sep hfact, rfl, refersTo_referencesFrom sep hfact⟩
  · exact reaches_of_isOrder (isOrder_reachableProjects repo sep project)

/-- Listings with a cycle, a second listing of a project, and references that are repeated, that
lead back to the project and that lead nowhere. -/
def joinery : RepositoryFact where
  solutions := [
    { path := "all", projects := [
      { path := "saw", projectReferences := ["lathe", "saw", "glue", "lathe", "bench"] },
      { path := "bench", projectReferences := ["saw", "glue"] },
      { path := "lathe", projectReferences := ["drill", "bench"] }] },
    { path := "old", projects := [
      { path := "saw", projectReferences := ["drill"] },
      { path := "drill" }] }]

example : let index := (build joinery .dot).1
    index.projects.map ProjectEntry.references = [[2, 1], [0], [3, 1], []] ∧
    index.reachableProjects 1 = [0, 2, 3] := by
  decide +kernel

end FactGraph.ScopeIndex
