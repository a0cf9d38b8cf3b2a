import FactGraph.Proofs.Scope.ProjectGraph

/-!
# Visible names

A full name is visible from a project if it is declared in one of the projects where it is looked
for: the project itself, those that it can reach, and all of them if the policy lets a search go
that far.

## Main definitions

* `ScopeIndex.placesFrom`: the projects where a name is looked for, nearest first

## Main results

* `isVisibleFrom_iff`: visible is what is declared in one of these places
-/

namespace FactGraph.ScopeIndex

variable {repo : RepositoryFact} {sep : Separator}

/-- A named declaration is in a project of the index. -/
theorem lt_of_named {entry : Nat × String × TypeFact} (h : entry ∈ repo.named) :
    entry.1 < (build repo sep).1.projects.length := by
  obtain ⟨⟨project, position⟩, hproject, hentry⟩ := List.mem_flatMap.1 h
  obtain ⟨unit, -, hentry⟩ := List.mem_flatMap.1 hentry
  obtain ⟨fact, -, rfl⟩ := List.mem_map.1 hentry
  obtain ⟨-, hlt, -⟩ := List.mem_zipIdx hproject
  rw [length_projects]
  simpa using hlt

/-- **The projects where a name is looked for**: the project itself, those that it can reach, in
the order of a breadth-first search, and all of them in their order if the policy lets a search
go that far. -/
def placesFrom (index : ScopeIndex) (policy : FallbackPolicy) (project : Nat) : List Nat :=
  project :: index.reachableProjects project ++
    if index.allowsGlobal policy then List.range index.projects.length else []

/-- **A name is visible if it is declared in one of the places where it is looked for.** -/
theorem isVisibleFrom_iff {fullName : String} {project : Nat} {policy : FallbackPolicy} :
    (build repo sep).1.isVisibleFrom fullName project policy ↔
      ∃ place ∈ (build repo sep).1.placesFrom policy project,
        (build repo sep).1.isDeclaredIn fullName place := by
  rw [isVisibleFrom, isDeclared_eq, declarationsOf_eq]
  simp only [isDeclaredIn_iff, placesFrom, declarationsFrom, List.any_map, List.filter_map,
    List.any_filter, List.mem_append, List.mem_cons, Bool.and_eq_true, Bool.or_eq_true,
    List.any_eq_true, Function.comp_apply, declarationOf, decide_eq_true_eq,
    List.contains_iff_mem]
  constructor
  · rintro ⟨⟨entry, hentry, hname⟩, hglobal | ⟨near, hnear, hname', hplace⟩⟩
    · refine ⟨entry.1, .inr ?_, entry, hentry, rfl, hname⟩
      rw [if_pos hglobal]
      exact List.mem_range.2 (lt_of_named hentry)
    · exact ⟨near.1, .inl hplace, near, hnear, rfl, hname'⟩
  · rintro ⟨place, hplace, entry, hentry, rfl, hname⟩
    refine ⟨⟨entry, hentry, hname⟩, ?_⟩
    rcases hplace with hplace | hplace
    · exact .inr ⟨entry, hentry, hname, hplace⟩
    · split at hplace
      next hglobal => exact .inl hglobal
      next => cases hplace

end FactGraph.ScopeIndex
