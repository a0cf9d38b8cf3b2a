import FactGraph.Proofs.Fact.Listing
import FactGraph.Proofs.Scope.Index

/-!
# An index after the imports of a unit have been replaced

The import directives of one compilation unit are replaced by others. They are entered in the import
tables and nowhere else, so the two indexes are the same without these tables, and the table under
another path than that of the unit is the same too.

## Main definitions

* `RepositoryFact.setImports`: the repository with other imports in one unit
* `ScopeIndex.forgetImports`: the index without the import tables

## Main results

* `ScopeIndex.forgetImports_build`: the rest of an index does not depend on imports
* `ScopeIndex.importsOf?_setImports`: the table under another path
-/

namespace FactGraph

/-! ## Other imports -/

/-- The project with other imports in the unit at a position, if it has that path. -/
def ProjectFact.setImports (path : String) (place : Nat) (imports : List ImportFact)
    (fact : ProjectFact) : ProjectFact :=
  if fact.path = path then
    { fact with units := fact.units.modify place fun unit => { unit with imports } }
  else fact

/-- **The repository with other imports** in the unit at a position of the project of that path. -/
def RepositoryFact.setImports (repo : RepositoryFact) (path : String) (place : Nat)
    (imports : List ImportFact) : RepositoryFact :=
  { repo with
    solutions := repo.solutions.map fun solution =>
      { solution with
        projects := solution.projects.map (ProjectFact.setImports path place imports) } }

/-- The unit without its imports. -/
def UnitFact.forgetImports (fact : UnitFact) : UnitFact :=
  { fact with imports := [] }

/-- The project without the imports of its units. -/
def ProjectFact.forgetImports (fact : ProjectFact) : ProjectFact :=
  { fact with units := fact.units.map UnitFact.forgetImports }

namespace ProjectFact

variable (path : String) (place : Nat) (imports : List ImportFact) (fact : ProjectFact)

@[simp] theorem setImports_path : (fact.setImports path place imports).path = fact.path := by
  unfold setImports
  split <;> rfl

/-- Nothing else is changed. -/
theorem forgetImports_setImports :
    (fact.setImports path place imports).forgetImports = fact.forgetImports := by
  unfold setImports
  split
  next =>
    have hunits : ((fact.units.modify place fun unit => { unit with imports }).map
        UnitFact.forgetImports) = fact.units.map UnitFact.forgetImports := by
      refine List.ext_getElem? fun position => ?_
      rw [List.getElem?_map, List.getElem?_map, List.getElem?_modify, Option.map_eq_map,
        Option.map_map]
      refine congrArg (fun f => Option.map f _) (funext fun unit => ?_)
      simp only [Function.comp]
      split <;> rfl
    rw [forgetImports, forgetImports, hunits]
  next => rfl

end ProjectFact

namespace RepositoryFact

variable (repo : RepositoryFact) (path : String) (place : Nat) (imports : List ImportFact)

theorem firstListings_setImports :
    (repo.setImports path place imports).firstListings =
      repo.firstListings.map (ProjectFact.setImports path place imports) := by
  have hprojects : (repo.setImports path place imports).projects =
      repo.projects.map (ProjectFact.setImports path place imports) := by
    simp [setImports, projects, List.flatMap_map, List.map_flatMap]
  rw [firstListings, hprojects,
    firstOfPath_map (ProjectFact.setImports_path path place imports), firstListings]

theorem forgetImports_firstListings_setImports :
    (repo.setImports path place imports).firstListings.map ProjectFact.forgetImports =
      repo.firstListings.map ProjectFact.forgetImports := by
  rw [firstListings_setImports, List.map_map]
  exact List.map_congr_left fun fact _ => fact.forgetImports_setImports path place imports

end RepositoryFact

/-- A value that is left out by a filter can be changed to another one that is left out. -/
theorem filter_modify {α : Type} {p : α → Bool} {xs : List α} {place : Nat} {x : α} {f : α → α}
    (hx : xs[place]? = some x) (h : p x = false) (h' : p (f x) = false) :
    (xs.modify place f).filter p = xs.filter p := by
  induction xs generalizing place with
  | nil => cases hx
  | cons y xs ih =>
    cases place with
    | zero =>
      obtain rfl : y = x := by simpa using hx
      simp [h, h']
    | succ place =>
      have hrest : xs[place]? = some x := by simpa using hx
      simp [List.filter_cons, ih hrest]

/-! ## The index without imports -/

namespace ScopeIndex

/-- **The index without the import tables.** -/
def forgetImports (index : ScopeIndex) : ScopeIndex :=
  { index with imports := [] }

/-- The index with other projects. -/
def withProjects (projects : List ProjectEntry) (index : ScopeIndex) : ScopeIndex :=
  { index with projects }

/-- The index with another answer to whether projects refer to each other. -/
def withReferenceGraph (hasReferenceGraph : Bool) (index : ScopeIndex) : ScopeIndex :=
  { index with hasReferenceGraph }

/-- A fold over elements that agree in what the steps read of them. -/
theorem foldl_congr_of_map {α β γ δ : Type} {step : β → α → β} {read : α → γ} {kept : β → δ}
    (h : ∀ state state' x x', kept state' = kept state → read x' = read x →
      kept (step state' x') = kept (step state x)) {xs xs' : List α}
    (hxs : xs'.map read = xs.map read) {state state' : β} (hstate : kept state' = kept state) :
    kept (xs'.foldl step state') = kept (xs.foldl step state) := by
  induction xs generalizing xs' state state' with
  | nil => rw [List.map_eq_nil_iff.1 hxs]; exact hstate
  | cons x xs ih =>
    obtain ⟨x', xs', rfl, hx, hrest⟩ := List.map_eq_cons_iff.1 hxs
    exact ih hrest (h state state' x x' hstate hx)

theorem forgetImports_enterType {index index' : ScopeIndex}
    (hindex : index'.forgetImports = index.forgetImports) (project : Nat) (filePath : String)
    (fact : TypeFact) :
    (enterType project filePath index' fact).forgetImports =
      (enterType project filePath index fact).forgetImports := by
  have hforget (index : ScopeIndex) : (enterType project filePath index fact).forgetImports =
      enterType project filePath index.forgetImports fact := by
    unfold enterType
    split <;> rfl
  rw [hforget, hforget, hindex]

theorem forgetImports_enterUnit {index index' : ScopeIndex} {unit unit' : UnitFact}
    (hindex : index'.forgetImports = index.forgetImports)
    (hunit : unit'.forgetImports = unit.forgetImports) (project : Nat) :
    (enterUnit project index' unit').forgetImports =
      (enterUnit project index unit).forgetImports := by
  have hpath : unit'.path = unit.path := (congrArg UnitFact.path hunit :)
  have htypes : unit'.types.map id = unit.types.map id :=
    (congrArg (fun unit => unit.types.map id) hunit :)
  unfold enterUnit
  rw [hpath]
  refine foldl_congr_of_map (fun index index' fact fact' hindex hfact => ?_) htypes hindex
  rw [show fact' = fact from hfact]
  exact forgetImports_enterType hindex project unit.path fact

theorem forgetImports_enterProject {index index' : ScopeIndex} {fact fact' : ProjectFact}
    (hindex : index'.forgetImports = index.forgetImports)
    (hfact : fact'.forgetImports = fact.forgetImports) :
    (enterProject index' fact').forgetImports = (enterProject index fact).forgetImports := by
  have hpath : fact'.path = fact.path := (congrArg ProjectFact.path hfact :)
  have hunits : fact'.units.map UnitFact.forgetImports = fact.units.map UnitFact.forgetImports :=
    (congrArg ProjectFact.units hfact :)
  have hprojects : index'.projects = index.projects := (congrArg ScopeIndex.projects hindex :)
  unfold enterProject
  rw [hpath, hprojects]
  refine foldl_congr_of_map (fun _ _ _ _ hindex hunit => ?_) hunits ?_
  · exact forgetImports_enterUnit hindex hunit _
  · exact (congrArg (withProjects _) hindex :)

/-- **The rest of an index does not depend on imports.** -/
theorem forgetImports_build {repo repo' : RepositoryFact}
    (h : repo'.firstListings.map ProjectFact.forgetImports =
      repo.firstListings.map ProjectFact.forgetImports) (sep : Separator) :
    (build repo' sep).1.forgetImports = (build repo sep).1.forgetImports := by
  have hentered : (repo'.firstListings.foldl enterProject (initial sep)).forgetImports =
      (repo.firstListings.foldl enterProject (initial sep)).forgetImports :=
    foldl_congr_of_map (fun _ _ _ _ => forgetImports_enterProject) h rfl
  rw [build_eq, build_eq]
  change withReferenceGraph _ (withProjects _ (forgetImports _)) =
    withReferenceGraph _ (withProjects _ (forgetImports _))
  refine congrArg₂ withReferenceGraph (any_zipIdx_congr h fun fact fact' position hfact => ?_)
    (congrArg₂ withProjects (map_zipIdx_congr h fun fact fact' position hfact => ?_) hentered)
  · have hread (index : ScopeIndex) (fact : ProjectFact) : index.refersElsewhere fact position =
        index.forgetImports.refersElsewhere fact.forgetImports position := rfl
    change refersElsewhere _ fact' position = refersElsewhere _ fact position
    rw [hread, hread _ fact, hentered, hfact]
  · -- An entry reads the path and the references of its project, and the projects of the index.
    have hread (index : ScopeIndex) (fact : ProjectFact) : index.linkedEntry fact position =
        index.forgetImports.linkedEntry fact.forgetImports position := rfl
    change linkedEntry _ fact' position = linkedEntry _ fact position
    rw [hread, hread _ fact, hentered, hfact]

/-! ## Import tables -/

/-- **The table under another path** than that of the changed unit. -/
theorem importsOf?_setImports {repo : RepositoryFact} {fact : ProjectFact}
    (hfact : fact ∈ repo.firstListings) {place : Nat} {unit : UnitFact}
    (hunit : fact.units[place]? = some unit) (imports : List ImportFact) (sep : Separator)
    {path : String} (hpath : path ≠ unit.path) :
    (build (repo.setImports fact.path place imports) sep).1.importsOf? path =
      (build repo sep).1.importsOf? path := by
  have hlisting : ∀ other ∈ repo.firstListings,
      ((other.setImports fact.path place imports).units.filter fun unit => unit.path = path) =
        other.units.filter fun unit => unit.path = path := by
    intro other hother
    unfold ProjectFact.setImports
    split
    next hsame =>
      obtain rfl : other = fact :=
        List.inj_on_of_nodup_map repo.nodup_firstListings hother hfact hsame
      exact filter_modify hunit (by simpa using hpath.symm) (by simpa using hpath.symm)
    next => rfl
  rw [importsOf?_eq, importsOf?_eq, RepositoryFact.firstListings_setImports, List.flatMap_map,
    List.filter_flatMap, List.filter_flatMap, List.flatMap_congr hlisting]

end ScopeIndex

end FactGraph
