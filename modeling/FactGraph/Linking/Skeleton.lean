import FactGraph.Linking.State

/-!
# Solutions, projects and files

The outer nodes of a model come straight from the listings of the repository: one solution for
each one listed, one project for each path, as it is first listed, and one file for each of its
compilation units. When all projects are there, they get to know what they refer to.

## Main definitions

* `SourceUnit`: a compilation unit with the file and the project it belongs to
* `Linker.enterSolution`, `Linker.enterListing`: the nodes of a solution, and of one listing in it
* `Linker.buildSkeleton`: all these nodes, and the units in the order of their files
-/

namespace FactGraph

/-- A list without the repetitions of its elements, in the order of first occurrence. -/
def keepFirst {α : Type} [DecidableEq α] (values : List α) : List α :=
  values.foldl (fun kept value => if value ∈ kept then kept else kept ++ [value]) []

/-- A compilation unit in its place. -/
structure SourceUnit where
  project : ProjectId
  file : FileId
  /-- Where findings in the unit are reported. -/
  context : DiagnosticContext
  fact : UnitFact

namespace Linker

open LinkM

/-! ## Listings -/

/-- Makes the file of a compilation unit. -/
def enterUnit (project : ProjectId) (listing : ProjectFact) (fact : UnitFact) :
    LinkM SourceUnit := do
  let file ← nextHandle .file
  addFile { id := file, path := fact.path, project }
  return { project, file, context := .inFile listing.path fact.path, fact }

/-- Tells a project that a solution lists it. -/
def noteSolution (solution : SolutionId) (project : ProjectId) : LinkM Unit :=
  modifyProject project fun node => { node with
    solutions :=
      if solution ∈ node.solutions then node.solutions else node.solutions ++ [solution] }

/-- Finds the project of a listing, or makes it. Its units count if it is new. -/
def enterListing (solution : SolutionId) (fact : ProjectFact) :
    LinkM (ProjectId × List SourceUnit) := do
  match (← tables).project? fact.path with
  | some id =>
    noteSolution solution id
    return (id, [])
  | none =>
    let id ← nextHandle .project
    addProject { id, path := fact.path, name := fact.name }
    noteSolution solution id
    return (id, ← fact.units.mapM (enterUnit id fact))

/-- Makes a solution with the projects that it lists. The list of them, each once, is kept for the
end. -/
def enterSolution (fact : SolutionFact) : LinkM (List SourceUnit) := do
  let id ← nextHandle .solution
  addSolution { id, path := fact.path }
  let listings ← fact.projects.mapM (enterListing id)
  modify fun state => { state with
    members := state.members ++ [keepFirst (listings.map Prod.fst)] }
  return listings.flatMap Prod.snd

/-! ## References -/

variable (linker : Linker)

/-- The projects at these positions of the index, as far as they are listed. -/
def projectsAt (tables : LinkTables) (positions : List Nat) : List ProjectId :=
  positions.filterMap fun position =>
    linker.index.projects[position]?.bind fun entry => tables.project? entry.path

/-- The projects that a project refers to, by the index. -/
def directReferences (tables : LinkTables) (path : String) : List ProjectId :=
  match linker.index.projectIndex? path with
  | some position => linker.projectsAt tables (linker.index.referencesOf position)
  | none => []

/-- The projects that a project can reach, by the index, nearest first. -/
def reachableProjects (tables : LinkTables) (path : String) : List ProjectId :=
  match linker.index.projectIndex? path with
  | some position => linker.projectsAt tables (linker.index.reachableProjects position)
  | none => []

/-- Every project gets to know what it refers to. -/
def linkReferences : LinkM Unit := do
  let tables ← tables
  modifyModel fun model => { model with
    projects := model.projects.map fun node =>
      { node with references := linker.directReferences tables node.path } }

/-- **The nodes of the listings**: the repository, its solutions, projects and files. -/
def buildSkeleton (repo : RepositoryFact) : LinkM (List SourceUnit) := do
  modifyModel fun model => { model with repository := { model.repository with path := repo.path } }
  let units ← repo.solutions.mapM enterSolution
  linker.linkReferences
  return units.flatten

end Linker

end FactGraph
