import FactGraph.Config.Glob
import FactGraph.Diagnostic.Codec
import FactGraph.Linking.Link
import FactGraph.Model.Codec
import FactGraph.Resolution.Repository

/-!
# A whole run

The compilation units that the configuration leaves out are dropped; what remains is indexed, its
names are resolved, and it is linked. A fact model without any unit left gives an empty model.

## Main definitions

* `LinkConfig.filterUnits`: a fact model without the units that are left out
* `LinkConfig.run?`: the model of a repository, and all that was found wrong
-/

namespace FactGraph

/-- The result of a run. -/
structure LinkOutput where
  model : ReferenceModel := {}
  diagnostics : Diagnostics := {}
  deriving Inhabited

/-- The record of a result. -/
def LinkOutput.encode (output : LinkOutput) : Json :=
  .obj [("model", output.model.encode), ("diagnostics", output.diagnostics.encode)]

namespace LinkConfig

variable (config : LinkConfig)

/-- A project without the units that the configuration leaves out. -/
def filterProject (project : ProjectFact) : ProjectFact :=
  { project with units := project.units.filter fun unit => config.includesPath unit.path }

/-- A fact model without the units that the configuration leaves out. -/
def filterUnits (repo : RepositoryFact) : RepositoryFact :=
  { repo with
    solutions := repo.solutions.map fun solution =>
      { solution with projects := solution.projects.map config.filterProject } }

/-- Indexes, resolves and links a fact model. The findings of the three passes come one behind the
other. -/
def process (separator : Separator) (policy : FallbackPolicy) (repo : RepositoryFact) :
    LinkOutput :=
  let (index, found) := ScopeIndex.build repo separator
  let (resolved, ambiguities) := Resolver.resolveRepository ⟨index, policy⟩ repo
  let (model, skipped) := Linker.link ⟨index, policy⟩ resolved
  { model, diagnostics := found ++ ambiguities ++ skipped }

/-- The result of a run with a separator. -/
def runWith (separator : Separator) (repo : RepositoryFact) : LinkOutput :=
  let kept := config.filterUnits repo
  if kept.isEmpty then {} else process separator config.fallback kept

/-- **The result of a run.** There is none if the separator is empty. -/
def run? (repo : RepositoryFact) : Option LinkOutput :=
  (Separator.ofString? config.separator).map fun separator => config.runWith separator repo

end LinkConfig

end FactGraph
