import FactGraph.Linking.Skeleton
import Mathlib.Data.List.Induction
import Mathlib.Data.List.Nodup

/-!
# Listings without repetitions

## Main definitions

* `RepositoryFact.Relists`: a repository with one more listing of a path

## Main results

* `mem_keepFirst`, `nodup_keepFirst`, `pairwise_keepFirst`: leaving out repetitions leaves out no
  value, and all repetitions, and keeps the order
* `RepositoryFact.nodup_firstListings`, `RepositoryFact.findIdx?_path`: no two first listings have
  the same path
* `RepositoryFact.Relists.firstListings_eq`: listing a path once more changes no first listing
-/

namespace FactGraph

variable {α : Type} [DecidableEq α]

theorem mem_foldl_keepFirst {values kept : List α} {value : α} :
    value ∈ values.foldl (fun kept value => if value ∈ kept then kept else kept ++ [value]) kept ↔
      value ∈ kept ∨ value ∈ values := by
  induction values generalizing kept with
  | nil => simp
  | cons first values ih =>
    rw [List.foldl_cons, ih]
    split
    next hmem =>
      constructor
      · exact Or.imp_right (List.mem_cons_of_mem _)
      · rintro (h | h)
        · exact .inl h
        · rcases List.mem_cons.1 h with rfl | h
          · exact .inl hmem
          · exact .inr h
    next => simp [or_assoc]

/-- The values of a list without repetitions are those of the list. -/
theorem mem_keepFirst {values : List α} {value : α} :
    value ∈ keepFirst values ↔ value ∈ values := by
  rw [keepFirst, mem_foldl_keepFirst]
  simp

theorem nodup_foldl_keepFirst {values kept : List α} (h : kept.Nodup) :
    (values.foldl (fun kept value => if value ∈ kept then kept else kept ++ [value])
      kept).Nodup := by
  induction values generalizing kept with
  | nil => exact h
  | cons value values ih =>
    rw [List.foldl_cons]
    refine ih ?_
    split
    · exact h
    next hfresh =>
      refine List.nodup_append.2 ⟨h, List.nodup_singleton value, ?_⟩
      intro old hold other hother
      obtain rfl := List.mem_singleton.1 hother
      rintro rfl
      exact hfresh hold

/-- A list without repetitions has none. -/
theorem nodup_keepFirst (values : List α) : (keepFirst values).Nodup :=
  nodup_foldl_keepFirst List.nodup_nil

/-- A list without repetitions has its values in the order of their first occurrences. -/
theorem pairwise_keepFirst (values : List α) :
    (keepFirst values).Pairwise fun a b => values.idxOf a < values.idxOf b := by
  induction values using List.reverseRecOn with
  | nil => exact .nil
  | append_singleton values last ih =>
    have hkept : (keepFirst values).Pairwise fun a b =>
        (values ++ [last]).idxOf a < (values ++ [last]).idxOf b := by
      refine ih.imp_of_mem fun ha hb hlt => ?_
      rwa [List.idxOf_append_of_mem (mem_keepFirst.1 ha),
        List.idxOf_append_of_mem (mem_keepFirst.1 hb)]
    rw [keepFirst, List.foldl_append, List.foldl_cons, List.foldl_nil, ← keepFirst]
    split
    · exact hkept
    next hfresh =>
      refine List.pairwise_append.2 ⟨hkept, List.pairwise_singleton _ _, fun a ha b hb => ?_⟩
      obtain rfl := List.mem_singleton.1 hb
      have hmem := mem_keepFirst.1 ha
      rw [List.idxOf_append_of_mem hmem, List.idxOf_append_of_notMem (mt mem_keepFirst.2 hfresh)]
      exact Nat.lt_add_right _ (List.idxOf_lt_length_of_mem hmem)

/-- Where a value is found first, compared by what the values of a list are mapped to. -/
theorem idxOf_lt_of_filterMap {β : Type} [DecidableEq β] {f : α → Option β}
    (hf : ∀ a a' b, f a = some b → f a' = some b → a = a') {values : List α} {a a' : α} {b b' : β}
    (ha : f a = some b) (ha' : f a' = some b')
    (h : (values.filterMap f).idxOf b < (values.filterMap f).idxOf b') :
    values.idxOf a < values.idxOf a' := by
  induction values with
  | nil => simp at h
  | cons first values ih =>
    by_cases hfirst : first = a
    · subst hfirst
      have hne : first ≠ a' := by
        rintro rfl
        obtain rfl := Option.some.inj (ha.symm.trans ha')
        exact absurd h (Nat.lt_irrefl _)
      rw [List.idxOf_cons_self, List.idxOf_cons_ne _ hne]
      exact Nat.succ_pos _
    · have hfirst' : first ≠ a' := by
        rintro rfl
        rw [List.filterMap_cons_some ha', List.idxOf_cons_self] at h
        exact absurd h (Nat.not_lt_zero _)
      rw [List.idxOf_cons_ne _ hfirst, List.idxOf_cons_ne _ hfirst']
      refine Nat.succ_lt_succ (ih ?_)
      cases hmapped : f first with
      | none => rwa [List.filterMap_cons_none hmapped] at h
      | some found =>
        have hb : found ≠ b := fun heq => hfirst (hf _ _ _ (heq ▸ hmapped) ha)
        have hb' : found ≠ b' := fun heq => hfirst' (hf _ _ _ (heq ▸ hmapped) ha')
        rw [List.filterMap_cons_some hmapped, List.idxOf_cons_ne _ hb,
          List.idxOf_cons_ne _ hb'] at h
        exact Nat.lt_of_succ_lt_succ h

namespace RepositoryFact

theorem nodup_firstOfPath (seen : List String) (projects : List ProjectFact) :
    ((firstOfPath seen projects).map ProjectFact.path).Nodup ∧
      ∀ project ∈ firstOfPath seen projects, project.path ∉ seen := by
  induction projects generalizing seen with
  | nil => simp [firstOfPath]
  | cons project projects ih =>
    unfold firstOfPath
    split
    · exact ih seen
    next hpath =>
      obtain ⟨hnodup, hfresh⟩ := ih (project.path :: seen)
      constructor
      · rw [List.map_cons, List.nodup_cons]
        refine ⟨fun hmem => ?_, hnodup⟩
        obtain ⟨other, hother, heq⟩ := List.mem_map.1 hmem
        exact hfresh other hother (heq ▸ List.mem_cons_self)
      · intro other hother
        rcases List.mem_cons.1 hother with rfl | hother
        · exact hpath
        · exact fun hmem => hfresh other hother (List.mem_cons_of_mem _ hmem)

/-- **No two first listings have the same path.** -/
theorem nodup_firstListings (repo : RepositoryFact) :
    (repo.firstListings.map ProjectFact.path).Nodup :=
  (nodup_firstOfPath [] repo.projects).1

theorem exists_firstOfPath {seen : List String} {projects : List ProjectFact}
    {project : ProjectFact} (h : project ∈ projects) (hfresh : project.path ∉ seen) :
    ∃ first ∈ firstOfPath seen projects, first.path = project.path := by
  induction projects generalizing seen with
  | nil => cases h
  | cons other projects ih =>
    unfold firstOfPath
    split
    next hseen =>
      rcases List.mem_cons.1 h with rfl | h
      · exact absurd hseen hfresh
      · exact ih h hfresh
    next =>
      by_cases hsame : project.path = other.path
      · exact ⟨other, List.mem_cons_self, hsame.symm⟩
      · have hmem := (List.mem_cons.1 h).resolve_left fun heq => hsame (congrArg _ heq)
        have hfresh' : project.path ∉ other.path :: seen := by simp [hsame, hfresh]
        obtain ⟨first, hfirst, hpath⟩ := ih hmem hfresh'
        exact ⟨first, List.mem_cons_of_mem _ hfirst, hpath⟩

/-- **Every path that is listed has a first listing.** -/
theorem exists_firstListing {repo : RepositoryFact} {project : ProjectFact}
    (h : project ∈ repo.projects) : ∃ first ∈ repo.firstListings, first.path = project.path :=
  exists_firstOfPath h List.not_mem_nil

theorem firstOfPath_eq_filter (seen : List String) (projects : List ProjectFact) :
    firstOfPath seen projects = (projects.zipIdx.filter fun (project, place) =>
      project.path ∉ seen ++ (projects.take place).map ProjectFact.path).map Prod.fst := by
  induction projects generalizing seen with
  | nil => rfl
  | cons project projects ih =>
    -- Before a place behind the first project stand that project and what is before it in the rest.
    have hrest {met : List String} (hmet : ∀ path, path ∈ met ↔ path = project.path ∨ path ∈ seen) :
        ((projects.zipIdx 1).filter fun (other, place) => other.path ∉
          seen ++ ((project :: projects).take place).map ProjectFact.path).map Prod.fst =
        firstOfPath met projects := by
      rw [ih, List.zipIdx_succ, List.filter_map, List.map_map]
      congr 1
      refine List.filter_congr fun entry _ => ?_
      simp [hmet, Bool.and_left_comm, Bool.and_assoc]
    rw [List.zipIdx_cons, List.filter_cons, firstOfPath, Nat.zero_add]
    by_cases hseen : project.path ∈ seen
    · rw [if_pos hseen, if_neg (by simpa using hseen)]
      refine (hrest fun path => (or_iff_right_of_imp ?_).symm).symm
      rintro rfl
      exact hseen
    · rw [if_neg hseen, if_pos (by simpa using hseen), List.map_cons,
        hrest fun path => List.mem_cons]

/-- **A listing is the first one of its path** if its path is not that of an earlier one. -/
theorem firstListings_eq_filter (repo : RepositoryFact) :
    repo.firstListings = (repo.projects.zipIdx.filter fun (project, place) =>
      project.path ∉ (repo.projects.take place).map ProjectFact.path).map Prod.fst :=
  firstOfPath_eq_filter [] repo.projects

/-- The paths of the first listings are those that are listed. -/
theorem mem_map_path_firstListings {repo : RepositoryFact} {path : String} :
    path ∈ repo.firstListings.map ProjectFact.path ↔ path ∈ repo.projects.map ProjectFact.path := by
  constructor
  · intro h
    obtain ⟨fact, hfact, rfl⟩ := List.mem_map.1 h
    rw [firstListings_eq_filter] at hfact
    obtain ⟨⟨project, place⟩, hentry, rfl⟩ := List.mem_map.1 hfact
    have hget := List.mem_zipIdx_iff_getElem?.1 (List.mem_filter.1 hentry).1
    exact List.mem_map_of_mem (List.mem_of_getElem? hget)
  · intro h
    obtain ⟨project, hproject, rfl⟩ := List.mem_map.1 h
    obtain ⟨first, hfirst, hpath⟩ := exists_firstListing hproject
    exact hpath ▸ List.mem_map_of_mem hfirst

/-- The path of a first listing leads back to its position. -/
theorem findIdx?_path {repo : RepositoryFact} {position : Nat} {path : String}
    (h : (repo.firstListings.map ProjectFact.path)[position]? = some path) :
    (repo.firstListings.map ProjectFact.path).findIdx? (fun other => other = path) =
      some position := by
  have hnodup := repo.nodup_firstListings
  obtain ⟨hlt, hget⟩ := List.getElem?_eq_some_iff.1 h
  rw [List.findIdx?_eq_some_iff_getElem]
  refine ⟨hlt, by simpa using hget, fun other hother => ?_⟩
  simp only [Bool.not_eq_true, decide_eq_false_iff_not]
  rw [← hget]
  intro heq
  exact absurd ((List.Nodup.getElem_inj_iff hnodup).1 heq) (by omega)

/-- Replacing projects by others of the same path does not change which listings are first. -/
theorem firstOfPath_map {replace : ProjectFact → ProjectFact}
    (h : ∀ fact, (replace fact).path = fact.path) (seen : List String)
    (projects : List ProjectFact) :
    firstOfPath seen (projects.map replace) =
      (firstOfPath seen projects).map replace := by
  induction projects generalizing seen with
  | nil => rfl
  | cons project projects ih =>
    rw [List.map_cons, firstOfPath, firstOfPath, h]
    split
    · exact ih seen
    · rw [ih, List.map_cons]

/-- A project whose path is met earlier is passed over. -/
theorem firstOfPath_relisted {extra : ProjectFact} {seen : List String} {front : List ProjectFact}
    (h : extra.path ∈ seen ∨ extra.path ∈ front.map ProjectFact.path) (back : List ProjectFact) :
    firstOfPath seen (front ++ extra :: back) = firstOfPath seen (front ++ back) := by
  induction front generalizing seen with
  | nil =>
    have hseen : extra.path ∈ seen := by simpa using h
    rw [List.nil_append, List.nil_append, firstOfPath, if_pos hseen]
  | cons project front ih =>
    rw [List.cons_append, List.cons_append, firstOfPath, firstOfPath]
    split
    next hmem =>
      refine ih ?_
      rcases h with h | h
      · exact .inl h
      · rcases List.mem_cons.1 h with heq | h
        · exact .inl (heq ▸ hmem)
        · exact .inr h
    next =>
      congr 1
      refine ih ?_
      rcases h with h | h
      · exact .inl (List.mem_cons_of_mem _ h)
      · rcases List.mem_cons.1 h with heq | h
        · exact .inl (heq ▸ List.mem_cons_self)
        · exact .inr h

/-- **A path is listed once more**, with whatever name, references and units: in a solution of the
repository, behind the first listing of the path, or alone in a new solution at the end. -/
inductive Relists (extra : ProjectFact) : RepositoryFact → RepositoryFact → Prop
  | inside {path : String} {before after : List SolutionFact} {solution : SolutionFact}
      {front back : List ProjectFact}
      (listed : extra.path ∈ (before.flatMap SolutionFact.projects ++ front).map ProjectFact.path) :
      Relists extra
        ⟨path, before ++ { solution with projects := front ++ back } :: after⟩
        ⟨path, before ++ { solution with projects := front ++ extra :: back } :: after⟩
  | appended {repo : RepositoryFact} {path : String}
      (listed : extra.path ∈ repo.projects.map ProjectFact.path) :
      Relists extra repo
        { repo with solutions := repo.solutions ++ [{ path, projects := [extra] }] }

namespace Relists

variable {extra : ProjectFact} {repo repo' : RepositoryFact}

theorem path_eq (h : Relists extra repo repo') : repo'.path = repo.path := by
  cases h <;> rfl

/-- The new listing stands somewhere behind the first one. -/
theorem exists_projects (h : Relists extra repo repo') : ∃ front back,
    repo.projects = front ++ back ∧ repo'.projects = front ++ extra :: back ∧
      extra.path ∈ front.map ProjectFact.path := by
  cases h with
  | @inside path before after solution front back listed =>
    refine ⟨before.flatMap SolutionFact.projects ++ front,
      back ++ after.flatMap SolutionFact.projects, ?_, ?_, listed⟩ <;> simp [projects]
  | appended listed => exact ⟨repo.projects, [], by simp, by simp [projects], listed⟩

/-- **The first listings stay what they are.** -/
theorem firstListings_eq (h : Relists extra repo repo') :
    repo'.firstListings = repo.firstListings := by
  obtain ⟨front, back, hold, hnew, hlisted⟩ := h.exists_projects
  rw [firstListings, firstListings, hold, hnew, firstOfPath_relisted (.inr hlisted)]

end Relists

end RepositoryFact

end FactGraph
