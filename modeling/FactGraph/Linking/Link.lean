import FactGraph.Linking.Call
import FactGraph.Linking.Containment
import FactGraph.Linking.Member

/-!
# Linking a repository

A repository is linked in six steps: the outer nodes are taken from the listings; declarations
become types; nested types are put into their enclosing types; the members of every fragment are
linked, with external types made on the way; then the calls are linked; at last the lists of the
outer nodes are filled in.

## Main definitions

* `Linker.linkFacts`: the steps of a link run
* `Linker.linkRun`: the state at the end of a link run
* `Linker.link`: the model of a repository, and what was found wrong on the way
-/

namespace FactGraph.Linker

open LinkM

variable (linker : Linker)

/-- Links all calls that were set aside, in their order. -/
def linkCalls : LinkM Unit := do
  (← get).pending.toList.forM linker.linkCall

/-- The steps of a link run. -/
def linkFacts (repo : RepositoryFact) : LinkM Unit := do
  let units ← linker.buildSkeleton repo
  let fragments ← linker.declareAll units
  linker.nestAll fragments
  fragments.forM linker.linkMembers
  linker.linkCalls
  wireContainment

/-- The state at the end of a link run, or the node that was not there. -/
def linkRun (repo : RepositoryFact) : Except ModelNode LinkState :=
  ((linker.linkFacts repo).run { model := {} }).map Prod.snd

/-- **The model of a repository** whose names are resolved, and what was found wrong on the way.
A run that met a handle without a node would have no model. -/
def link (repo : RepositoryFact) : ReferenceModel × Diagnostics :=
  match linker.linkRun repo with
  | .ok state => (state.model, state.diagnostics)
  | .error _ => ({}, {})

end FactGraph.Linker
