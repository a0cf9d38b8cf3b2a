import FactGraph.Resolution.Memory
import FactGraph.Resolution.Traversal

/-!
# Resolving a repository

Each project is resolved on its own, with a memory of its own. A project that several solutions
list is resolved once, as it is first listed; its later listings take that result.

## Main definitions

* `Resolver.resolveProject`: a project with its names resolved, and the findings
* `Resolver.resolveRepository`: a fact model with its names resolved, and the findings
-/

namespace FactGraph.Resolver

variable (resolver : Resolver)

/-- Names are resolved, with a memory. -/
def action : NameAction ResolveM where
  onName := resolver.resolveName
  onMissingOwner := resolver.resolveOwner

/-- A project with its names resolved, and what was found wrong on the way. A project that the
index does not know is left as it is. -/
def resolveProject (fact : ProjectFact) : ProjectFact × Diagnostics :=
  match resolver.index.projectIndex? fact.path with
  | none => (fact, {})
  | some project =>
    let (resolved, memory) :=
      (fact.mapNames resolver.action (resolver.scopeOf project fact.path)).run {}
    (resolved, memory.diagnostics)

/-- The first listings of a fact model with their names resolved, each with its findings. -/
def resolveListings (repo : RepositoryFact) : List (ProjectFact × Diagnostics) :=
  repo.firstListings.map resolver.resolveProject

/-- The resolved project that stands for a listing: the one of the same path. -/
def listed (resolved : List (ProjectFact × Diagnostics)) (fact : ProjectFact) : ProjectFact :=
  match resolved.find? fun result => result.1.path = fact.path with
  | some result => result.1
  | none => fact

/-- **A fact model with its names resolved**, and what was found wrong on the way, project after
project. -/
def resolveRepository (repo : RepositoryFact) : RepositoryFact × Diagnostics :=
  let resolved := resolver.resolveListings repo
  ({ repo with
      solutions := repo.solutions.map fun solution =>
        { solution with projects := solution.projects.map (listed resolved) } },
    ⟨resolved.flatMap fun result => result.2.entries⟩)

end FactGraph.Resolver
