import FactGraph.Proofs.Fact.Listing
import FactGraph.Proofs.Scope.Index
import FactGraph.Resolution.Repository

/-!
# What resolving leaves alone

Resolving replaces names at their occurrences. What is declared where, and under which name, stays
as it is: every declaration keeps its heading, every unit its path and its imports, every project
its path and its references. So a repository has the same first listings after resolving as before,
each of them resolved on its own.

## Main definitions

* `ResolveM.Yields`: whatever is remembered, the result has a property
* `TypeFact.heading`, `UnitFact.headings`, `ProjectFact.headings`: what is left alone

## Main results

* `resolveProject_headings`: a project keeps its headings
* `firstListings_resolveRepository`: the first listings of a resolved repository
* `named_headings`: the named declarations of a repository keep their headings
-/

namespace FactGraph

/-! ## Results with a memory -/

/-- Whatever is remembered, the result has the property. -/
def ResolveM.Yields {α : Type} (step : ResolveM α) (post : α → Prop) : Prop :=
  ∀ memory, post (step.run memory).1

namespace ResolveM.Yields

variable {α β γ : Type} {step : ResolveM α} {next : α → ResolveM β} {post : α → Prop}
  {goal : β → Prop}

theorem pure {a : α} (h : post a) : Yields (Pure.pure a) post :=
  fun _ => h

theorem bind (hstep : Yields step post) (hnext : ∀ a, post a → Yields (next a) goal) :
    Yields (step >>= next) goal :=
  fun memory => hnext _ (hstep memory) (step.run memory).2

/-- A step whose result does not matter. -/
theorem skip (hnext : ∀ a, Yields (next a) goal) : Yields (step >>= next) goal :=
  fun memory => hnext _ (step.run memory).2

/-- What every element keeps, the list keeps. -/
theorem mapM {f : α → ResolveM α} {kept : α → γ} {xs : List α}
    (h : ∀ x ∈ xs, Yields (f x) fun y => kept y = kept x) :
    Yields (xs.mapM f) fun ys => ys.map kept = xs.map kept := by
  induction xs with
  | nil => exact .pure rfl
  | cons x xs ih =>
    rw [List.mapM_cons]
    refine bind (h x (by simp)) fun y hy => ?_
    refine bind (ih fun other hother => h other (by simp [hother])) fun ys hys => ?_
    exact .pure (by simp [hy, hys])

theorem optionMapM {f : α → ResolveM α} {kept : α → γ} {x : Option α}
    (h : ∀ a ∈ x, Yields (f a) fun b => kept b = kept a) :
    Yields (x.mapM f) fun y => y.map kept = x.map kept := by
  cases x with
  | none => exact .pure rfl
  | some a =>
    rw [Option.mapM_some, map_eq_pure_bind]
    exact (h a rfl).bind fun b hb => .pure (congrArg some hb)

end ResolveM.Yields

/-! ## Headings -/

/-- A declaration without all that names other types. -/
def TypeFact.heading (fact : TypeFact) : TypeFact :=
  { fact with
    baseTypes := [], fields := [], properties := [], methods := [], constructors := []
    destructor := none, attributes := [], metrics := [] }

@[simp] theorem TypeFact.heading_isNamed (fact : TypeFact) :
    fact.heading.isNamed = fact.isNamed := rfl

@[simp] theorem TypeFact.heading_fullName (fact : TypeFact) (sep : Separator) :
    fact.heading.fullName sep = fact.fullName sep := rfl

/-- A unit with the headings of its declarations only. -/
def UnitFact.headings (fact : UnitFact) : UnitFact :=
  { fact with types := fact.types.map TypeFact.heading }

/-- A project with the headings of its declarations only. -/
def ProjectFact.headings (fact : ProjectFact) : ProjectFact :=
  { fact with units := fact.units.map UnitFact.headings }

@[simp] theorem ProjectFact.headings_path (fact : ProjectFact) :
    fact.headings.path = fact.path := rfl

open ResolveM (Yields)

theorem TypeFact.mapNames_heading (action : NameAction ResolveM) (scope : ResolutionScope)
    (fact : TypeFact) :
    Yields (fact.mapNames action scope) fun result => result.heading = fact.heading := by
  unfold TypeFact.mapNames
  refine .skip fun _ => .skip fun _ => .skip fun _ => .skip fun _ => .skip fun _ => .skip fun _ =>
    .skip fun _ => .skip fun _ => .pure ?_
  rfl

theorem UnitFact.mapNames_headings (action : NameAction ResolveM)
    (scopeOf : TypeFact → ResolutionScope) (fact : UnitFact) :
    Yields (fact.mapNames action scopeOf) fun result => result.headings = fact.headings := by
  have htypes : Yields
      (fact.types.mapM fun type =>
        if type.isNamed then type.mapNames action (scopeOf type) else pure type)
      fun types => types.map TypeFact.heading = fact.types.map TypeFact.heading := by
    refine .mapM fun type _ => ?_
    split
    · exact type.mapNames_heading action _
    · exact .pure rfl
  refine htypes.bind fun types hkept => .pure ?_
  simp only [headings, hkept]

theorem ProjectFact.mapNames_headings (action : NameAction ResolveM)
    (scopeOf : String → TypeFact → ResolutionScope) (fact : ProjectFact) :
    Yields (fact.mapNames action scopeOf) fun result => result.headings = fact.headings := by
  have hunits : Yields (fact.units.mapM fun unit => unit.mapNames action (scopeOf unit.path))
      fun units => units.map UnitFact.headings = fact.units.map UnitFact.headings :=
    .mapM fun unit _ => unit.mapNames_headings action _
  refine hunits.bind fun units hkept => .pure ?_
  simp only [headings, hkept]

/-! ## Repositories -/

namespace Resolver

variable (resolver : Resolver)

/-- **A project keeps its headings.** -/
theorem resolveProject_headings (fact : ProjectFact) :
    (resolver.resolveProject fact).1.headings = fact.headings := by
  unfold resolveProject
  split
  · rfl
  next project _ =>
    exact fact.mapNames_headings resolver.action (resolver.scopeOf project fact.path) {}

@[simp] theorem resolveProject_path (fact : ProjectFact) :
    (resolver.resolveProject fact).1.path = fact.path := by
  rw [← ProjectFact.headings_path, resolveProject_headings, ProjectFact.headings_path]

theorem listed_path (resolved : List (ProjectFact × Diagnostics)) (fact : ProjectFact) :
    (listed resolved fact).path = fact.path := by
  unfold listed
  split
  next result hresult => simpa using List.find?_some hresult
  next => rfl

/-- The resolved project that stands for a listing is that of the first listing of its path. -/
theorem listed_of_path {repo : RepositoryFact} {fact listing : ProjectFact}
    (h : fact ∈ repo.firstListings) (hpath : listing.path = fact.path) :
    listed (resolver.resolveListings repo) listing = (resolver.resolveProject fact).1 := by
  have hnodup := repo.nodup_firstListings
  have hfind : (resolver.resolveListings repo).find? (fun result => result.1.path = fact.path) =
      some (resolver.resolveProject fact) := by
    rw [resolveListings, List.find?_map]
    have hfirst : repo.firstListings.find?
        ((fun result => result.1.path = fact.path) ∘ resolver.resolveProject) = some fact := by
      generalize repo.firstListings = listings at h hnodup
      induction listings with
      | nil => cases h
      | cons first listings ih =>
        rw [List.map_cons, List.nodup_cons] at hnodup
        rw [List.find?_cons]
        rcases List.mem_cons.1 h with rfl | h
        · simp
        · have hne : first.path ≠ fact.path :=
            fun heq => hnodup.1 (heq ▸ List.mem_map_of_mem h)
          simpa [hne] using ih h hnodup.2
    rw [hfirst]
    rfl
  rw [listed, hpath, hfind]

theorem projects_resolveRepository (repo : RepositoryFact) :
    (resolver.resolveRepository repo).1.projects =
      repo.projects.map (listed (resolver.resolveListings repo)) := by
  simp [resolveRepository, RepositoryFact.projects, List.flatMap_map, List.map_flatMap]

/-- **The first listings of a resolved repository** are those of the repository, each of them
resolved. -/
theorem firstListings_resolveRepository (repo : RepositoryFact) :
    (resolver.resolveRepository repo).1.firstListings =
      repo.firstListings.map fun fact => (resolver.resolveProject fact).1 := by
  rw [RepositoryFact.firstListings, projects_resolveRepository,
    RepositoryFact.firstOfPath_map (listed_path _)]
  exact List.map_congr_left fun fact hfact => resolver.listed_of_path hfact rfl

theorem firstListings_headings (repo : RepositoryFact) :
    (resolver.resolveRepository repo).1.firstListings.map ProjectFact.headings =
      repo.firstListings.map ProjectFact.headings := by
  rw [firstListings_resolveRepository, List.map_map]
  exact List.map_congr_left fun fact _ => resolver.resolveProject_headings fact

end Resolver

/-! ## Named declarations -/

/-- The headings of the named declarations depend on the headings of the listings only. -/
theorem RepositoryFact.map_named (repo : RepositoryFact) :
    (repo.named.map fun (project, path, fact) => (project, path, fact.heading)) =
      (repo.firstListings.map ProjectFact.headings).zipIdx.flatMap fun (project, position) =>
        project.units.flatMap (ScopeIndex.namedIn position) := by
  have hunit (position : Nat) (unit : UnitFact) :
      ((ScopeIndex.namedIn position unit).map fun (project, path, fact) =>
          (project, path, fact.heading)) = ScopeIndex.namedIn position unit.headings := by
    simp [ScopeIndex.namedIn, UnitFact.headings, List.filter_map, Function.comp_def]
  rw [named, List.map_flatMap, List.zipIdx_map, List.flatMap_map]
  refine List.flatMap_congr fun entry _ => ?_
  change _ = (entry.1.units.map UnitFact.headings).flatMap (ScopeIndex.namedIn entry.2)
  rw [List.map_flatMap, List.flatMap_map]
  exact List.flatMap_congr fun unit _ => hunit entry.2 unit

/-- **The named declarations of a repository keep their headings.** -/
theorem Resolver.named_headings (resolver : Resolver) (repo : RepositoryFact) :
    ((resolver.resolveRepository repo).1.named.map fun (project, path, fact) =>
        (project, path, fact.heading)) =
      repo.named.map fun (project, path, fact) => (project, path, fact.heading) := by
  rw [RepositoryFact.map_named, RepositoryFact.map_named, firstListings_headings]

/-- What is said of the headings of the named declarations is the same after resolving. -/
theorem Resolver.exists_named_iff (resolver : Resolver) (repo : RepositoryFact)
    (holds : Nat → TypeFact → Prop) :
    (∃ entry ∈ (resolver.resolveRepository repo).1.named, holds entry.1 entry.2.2.heading) ↔
      ∃ entry ∈ repo.named, holds entry.1 entry.2.2.heading := by
  have hmapped (other : RepositoryFact) :
      (∃ entry ∈ other.named, holds entry.1 entry.2.2.heading) ↔
        ∃ entry ∈ other.named.map (fun (project, path, fact) => (project, path, fact.heading)),
          holds entry.1 entry.2.2 := by
    simp
  rw [hmapped, hmapped, named_headings]

end FactGraph
