import FactGraph.Proofs.Scope.Visibility

/-!
# An index after a project has been replaced

The compilation units of one project are replaced by others. What an index says about the other
projects stays as it is: which projects there are, what they refer to, what they declare, which
names are visible from a project that does not reach the replaced one, and the imports of the files
that the replaced project does not have.

## Main definitions

* `RepositoryFact.replaceUnits`: the repository with other units in the project of a path

## Main results

* `named_replaceUnits`: the other projects have the same declarations
* `projects_replaceUnits`: all projects refer to the same ones
* `isVisibleFrom_replaceUnits`: the same names are visible
-/

namespace FactGraph

/-- The project with other units, if it has that path. -/
def ProjectFact.replaceUnits (path : String) (units : List UnitFact) (fact : ProjectFact) :
    ProjectFact :=
  if fact.path = path then { fact with units } else fact

/-- **The repository with other units** in the project of that path. -/
def RepositoryFact.replaceUnits (repo : RepositoryFact) (path : String) (units : List UnitFact) :
    RepositoryFact :=
  { repo with
    solutions := repo.solutions.map fun solution =>
      { solution with projects := solution.projects.map (ProjectFact.replaceUnits path units) } }

namespace ProjectFact

variable (path : String) (units : List UnitFact) (fact : ProjectFact)

@[simp] theorem replaceUnits_path : (fact.replaceUnits path units).path = fact.path := by
  unfold replaceUnits
  split <;> rfl

@[simp] theorem replaceUnits_projectReferences :
    (fact.replaceUnits path units).projectReferences = fact.projectReferences := by
  unfold replaceUnits
  split <;> rfl

theorem replaceUnits_of_ne {path : String} {fact : ProjectFact} (h : fact.path ≠ path)
    (units : List UnitFact) : fact.replaceUnits path units = fact := by
  rw [replaceUnits, if_neg h]

end ProjectFact

namespace RepositoryFact

variable {repo : RepositoryFact} {other : ProjectFact} {place : Nat}

theorem projects_replaceUnits (repo : RepositoryFact) (path : String) (units : List UnitFact) :
    (repo.replaceUnits path units).projects =
      repo.projects.map (ProjectFact.replaceUnits path units) := by
  simp [replaceUnits, projects, List.flatMap_map, List.map_flatMap]

theorem firstListings_replaceUnits (repo : RepositoryFact) (path : String)
    (units : List UnitFact) :
    (repo.replaceUnits path units).firstListings =
      repo.firstListings.map (ProjectFact.replaceUnits path units) := by
  rw [firstListings, projects_replaceUnits,
    firstOfPath_map (ProjectFact.replaceUnits_path path units), firstListings]

/-- First listings with the same path are at the same position. -/
theorem eq_of_path (hother : repo.firstListings[place]? = some other) {fact : ProjectFact}
    {position : Nat} (hfact : repo.firstListings[position]? = some fact)
    (hpath : fact.path = other.path) : position = place := by
  have hpaths {fact : ProjectFact} {position : Nat}
      (h : repo.firstListings[position]? = some fact) :
      (repo.firstListings.map ProjectFact.path)[position]? = some fact.path := by
    rw [List.getElem?_map, h, Option.map_some]
  have hposition := findIdx?_path (hpaths hfact)
  rw [hpath, findIdx?_path (hpaths hother)] at hposition
  exact (Option.some.inj hposition).symm

/-- Another project is listed as before. -/
theorem getElem?_replaceUnits (hother : repo.firstListings[place]? = some other)
    (units : List UnitFact) {fact : ProjectFact} {position : Nat}
    (hfact : repo.firstListings[position]? = some fact) (hne : position ≠ place) :
    (repo.replaceUnits other.path units).firstListings[position]? = some fact := by
  have hpath : fact.path ≠ other.path := fun heq => hne (eq_of_path hother hfact heq)
  rw [firstListings_replaceUnits, List.getElem?_map, hfact, Option.map_some,
    ProjectFact.replaceUnits_of_ne hpath]

/-- **The other projects have the same declarations.** -/
theorem named_replaceUnits (hother : repo.firstListings[place]? = some other)
    (units : List UnitFact) :
    ((repo.replaceUnits other.path units).named.filter fun entry => entry.1 ≠ place) =
      repo.named.filter fun entry => entry.1 ≠ place := by
  rw [named, named, firstListings_replaceUnits, List.zipIdx_map, List.flatMap_map,
    List.filter_flatMap, List.filter_flatMap]
  refine List.flatMap_congr fun entry hentry => ?_
  obtain ⟨fact, position⟩ := entry
  by_cases hposition : position = place
  · have hnone (other : ProjectFact) : ((other.units.flatMap fun unit =>
        (unit.types.filter TypeFact.isNamed).map fun fact => (position, unit.path, fact)).filter
          fun entry => entry.1 ≠ place) = [] := by
      simp [List.filter_flatMap, List.filter_map, hposition]
    exact (hnone _).trans (hnone fact).symm
  · have hfact := List.mem_zipIdx_iff_getElem?.1 hentry
    have hpath : fact.path ≠ other.path := fun heq => hposition (eq_of_path hother hfact heq)
    simp only [Prod.map, ProjectFact.replaceUnits_of_ne hpath, id]

end RepositoryFact

namespace ScopeIndex

variable {repo : RepositoryFact} {other : ProjectFact} {place : Nat} {sep : Separator}

/-- **All projects refer to the same ones.** -/
theorem projects_replaceUnits (repo : RepositoryFact) (path : String) (units : List UnitFact)
    (sep : Separator) :
    (build (repo.replaceUnits path units) sep).1.projects = (build repo sep).1.projects := by
  rw [build_eq, build_eq]
  dsimp only
  rw [RepositoryFact.firstListings_replaceUnits, List.zipIdx_map, List.map_map]
  have hpaths : ((repo.firstListings.map (ProjectFact.replaceUnits path units)).foldl enterProject
      (initial sep)).projects =
        (repo.firstListings.foldl enterProject (initial sep)).projects := by
    rw [projects_enterProjects, projects_enterProjects, List.map_map]
    simp [Function.comp_def]
  have hindex (other : String) :
      ((repo.firstListings.map (ProjectFact.replaceUnits path units)).foldl enterProject
        (initial sep)).projectIndex? other =
        (repo.firstListings.foldl enterProject (initial sep)).projectIndex? other := by
    rw [projectIndex?, projectIndex?, hpaths]
  refine List.map_congr_left fun entry _ => ?_
  simp [linkedEntry, referencesFrom, funext hindex]

theorem projectIndex?_replaceUnits (path : String) (units : List UnitFact) (path' : String) :
    (build (repo.replaceUnits path units) sep).1.projectIndex? path' =
      (build repo sep).1.projectIndex? path' := by
  rw [projectIndex?, projectIndex?, projects_replaceUnits]

theorem reachableProjects_replaceUnits (path : String) (units : List UnitFact) (project : Nat) :
    (build (repo.replaceUnits path units) sep).1.reachableProjects project =
      (build repo sep).1.reachableProjects project := by
  have hreferences : (build (repo.replaceUnits path units) sep).1.referencesOf =
      (build repo sep).1.referencesOf := by
    funext project
    rw [referencesOf, referencesOf, projects_replaceUnits]
  rw [reachableProjects, reachableProjects, hreferences, projects_replaceUnits]

variable (hother : repo.firstListings[place]? = some other) (units : List UnitFact)
include hother

/-- **The other projects declare the same names.** -/
theorem isDeclaredIn_replaceUnits {project : Nat} (hproject : project ≠ place)
    (fullName : String) :
    (build (repo.replaceUnits other.path units) sep).1.isDeclaredIn fullName project =
      (build repo sep).1.isDeclaredIn fullName project := by
  have hnamed (entry : Nat × String × TypeFact) (hentry : entry.1 = project) :
      entry ∈ (repo.replaceUnits other.path units).named ↔ entry ∈ repo.named := by
    have hsame := RepositoryFact.named_replaceUnits hother units
    have hmem := congrArg (entry ∈ ·) hsame
    simpa [hentry, hproject] using hmem
  rw [Bool.eq_iff_iff, isDeclaredIn_iff, isDeclaredIn_iff]
  constructor
  · rintro ⟨entry, hentry, hproject, hname⟩
    exact ⟨entry, (hnamed entry hproject).1 hentry, hproject, hname⟩
  · rintro ⟨entry, hentry, hproject, hname⟩
    exact ⟨entry, (hnamed entry hproject).2 hentry, hproject, hname⟩

/-- The other projects have the same declarations that end in a name. -/
theorem declarationsEndingWith_replaceUnits {project : Nat} (hproject : project ≠ place)
    (name : String) :
    (build (repo.replaceUnits other.path units) sep).1.declarationsEndingWith name project =
      (build repo sep).1.declarationsEndingWith name project := by
  have hown (repo : RepositoryFact) :
      (build repo sep).1.declarationsEndingWith name project =
        (declarationsFrom sep (repo.named.filter fun entry => entry.1 ≠ place)).filter
          fun declaration =>
            (declaration.project = project && sep.endsWith declaration.fullName name) &&
              sep.lastSegment declaration.relativeName = sep.lastSegment name := by
    rw [declarationsEndingWith_eq, declarationsFrom, declarationsFrom, List.filter_map,
      List.filter_map, List.filter_filter]
    congr 1
    refine List.filter_congr fun entry _ => ?_
    by_cases h : entry.1 = project
    · simp [declarationOf, h, hproject]
    · simp [declarationOf, h]
  rw [hown, hown, RepositoryFact.named_replaceUnits hother]

/-- **From a project that does not reach the replaced one, the same names are visible.** -/
theorem isVisibleFrom_replaceUnits {project : Nat} (hproject : project ≠ place)
    (hreach : place ∉ (build repo sep).1.reachableProjects project) (fullName : String) :
    (build (repo.replaceUnits other.path units) sep).1.isVisibleFrom fullName project
        .referencesOnly =
      (build repo sep).1.isVisibleFrom fullName project .referencesOnly := by
  have hplaces :
      (build (repo.replaceUnits other.path units) sep).1.placesFrom .referencesOnly project =
      (build repo sep).1.placesFrom .referencesOnly project := by
    rw [placesFrom, placesFrom, reachableProjects_replaceUnits]
    rfl
  rw [Bool.eq_iff_iff, isVisibleFrom_iff, isVisibleFrom_iff, hplaces]
  refine exists_congr fun near => and_congr_right fun hnear => ?_
  have hne : near ≠ place := by
    rintro rfl
    simp only [placesFrom, allowsGlobal, Bool.false_eq_true, if_false, List.append_nil,
      List.mem_cons] at hnear
    rcases hnear with rfl | hnear
    · exact hproject rfl
    · exact hreach hnear
  rw [isDeclaredIn_replaceUnits hother units hne]

/-- A file keeps its imports, if the replaced project has no unit of that path, neither before nor
afterwards. -/
theorem importsOf?_replaceUnits {filePath : String}
    (hbefore : ∀ unit ∈ other.units, unit.path ≠ filePath)
    (hafter : ∀ unit ∈ units, unit.path ≠ filePath) :
    (build (repo.replaceUnits other.path units) sep).1.importsOf? filePath =
      (build repo sep).1.importsOf? filePath := by
  rw [importsOf?_eq, importsOf?_eq, RepositoryFact.firstListings_replaceUnits, List.flatMap_map,
    List.filter_flatMap, List.filter_flatMap]
  congr 2
  refine List.flatMap_congr fun fact hfact => ?_
  by_cases hpath : fact.path = other.path
  · obtain ⟨position, hposition⟩ := List.mem_iff_getElem?.1 hfact
    obtain rfl := RepositoryFact.eq_of_path hother hposition hpath
    obtain rfl : fact = other := Option.some.inj (hposition.symm.trans hother)
    rw [ProjectFact.replaceUnits, if_pos hpath]
    rw [List.filter_eq_nil_iff.2 (by simpa using hafter),
      List.filter_eq_nil_iff.2 (by simpa using hbefore)]
  · rw [ProjectFact.replaceUnits_of_ne hpath]

end ScopeIndex

end FactGraph
