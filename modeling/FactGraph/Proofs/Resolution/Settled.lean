import FactGraph.Proofs.Name.TypeName
import FactGraph.Proofs.Scope.Visibility
import FactGraph.Resolution.Memory

/-!
# What a name is settled as

Each step of a look-up only offers names that may be used at the occurrence, apart from aliases,
which are taken at their word. So what a name is settled as is visible from the project, unless an
alias decided.

## Main definitions

* `Resolution.tier?`: the step that gave the answer
* `Resolution.names`: every name that an outcome offers

## Main results

* `lookupWith_visible`: every step offers visible names
* `lookup_visible`: what a look-up offers is visible, unless by an alias
* `resolveTypeName_settled`: a written name whose base is settled
-/

namespace FactGraph

namespace Resolution

/-- The step that gave the answer. -/
def tier? : Resolution → Option Tier
  | .found _ tier => some tier
  | .ambiguous _ _ tier => some tier
  | .notFound => none

/-- Every name that an outcome offers. -/
def names : Resolution → List String
  | .found fullName _ => [fullName]
  | .ambiguous chosen candidates _ => chosen :: candidates
  | .notFound => []

/-- What a name is settled as is offered. -/
theorem mem_names {outcome : Resolution} {fullName : String}
    (h : outcome.fullName? = some fullName) : fullName ∈ outcome.names := by
  cases outcome with
  | found other _ => exact List.mem_singleton.2 (Option.some.inj h).symm
  | ambiguous chosen _ _ =>
    obtain rfl : chosen = fullName := Option.some.inj h
    exact List.mem_cons_self
  | notFound => cases h

/-- An outcome for candidates offers nothing else. -/
theorem mem_of_names_ofCandidates {tier : Tier} {candidates : List String} {fullName : String}
    (h : fullName ∈ (ofCandidates tier candidates).names) : fullName ∈ candidates := by
  match candidates with
  | [] => cases h
  | [_] => exact h
  | _ :: _ :: _ =>
    rcases List.mem_cons.1 h with rfl | h
    · exact List.mem_cons_self
    · exact h

theorem mem_names_orElse {outcome : Resolution} {other : Unit → Resolution} {fullName : String}
    (h : fullName ∈ (outcome.orElse other).names) :
    fullName ∈ outcome.names ∨ fullName ∈ (other ()).names := by
  cases outcome with
  | notFound => exact .inr h
  | found => exact .inl h
  | ambiguous => exact .inl h

theorem ofCandidates_eq_notFound {tier : Tier} {candidates : List String} :
    ofCandidates tier candidates = .notFound ↔ candidates = [] := by
  match candidates with
  | [] => exact iff_of_true rfl rfl
  | [_] => exact iff_of_false nofun nofun
  | _ :: _ :: _ => exact iff_of_false nofun nofun

end Resolution

namespace Resolver

-- How a tree is read from a text does not matter here.
attribute [local irreducible] TypeName.parse

variable {repo : RepositoryFact} {sep : Separator} {resolver : Resolver} {scope : ResolutionScope}
  {name fullName : String}

/-! ## The steps -/

/-- What the own project declares is visible. -/
theorem isVisible_of_isDeclaredIn (hindex : resolver.index = (ScopeIndex.build repo sep).1)
    (h : resolver.index.isDeclaredIn fullName scope.project) :
    resolver.isVisible scope fullName := by
  rw [hindex] at h
  rw [isVisible, hindex, ScopeIndex.isVisibleFrom_iff]
  exact ⟨scope.project, by simp [ScopeIndex.placesFrom], h⟩

theorem isVisible_of_importCandidates (h : fullName ∈ resolver.importCandidates scope name) :
    resolver.isVisible scope fullName := by
  have hmem := (mem_foldl_keepFirst.1 h).resolve_left (by simp)
  exact (List.mem_filter.1 hmem).2

/-- **The projects that the last step searches** are the places where names are looked for. -/
theorem mem_searchOrder_iff {project : Nat} : project ∈ resolver.searchOrder scope ↔
    project ∈ resolver.index.placesFrom resolver.policy scope.project := by
  rw [searchOrder, ScopeIndex.placesFrom, List.mem_append]
  split
  next =>
    rw [List.mem_append, List.mem_filter, decide_eq_true_eq]
    refine ⟨Or.imp_right And.left, fun h => ?_⟩
    by_cases hnear : project ∈ scope.project :: resolver.index.reachableProjects scope.project
    · exact .inl hnear
    · exact .inr ⟨h.resolve_left hnear, hnear⟩
  next => simp

theorem candidatesIn_eq (name : String) (project : Nat) : resolver.candidatesIn name project =
    keepFirst ((resolver.index.declarationsEndingWith name project).map
      DeclaredType.fullName) := by
  rw [candidatesIn, keepFirst, List.foldl_map]

/-- The candidates of a project are names that it declares. -/
theorem isDeclaredIn_of_candidatesIn (hindex : resolver.index = (ScopeIndex.build repo sep).1)
    {project : Nat} (h : fullName ∈ resolver.candidatesIn name project) :
    resolver.index.isDeclaredIn fullName project := by
  rw [candidatesIn_eq, mem_keepFirst, hindex, ScopeIndex.declarationsEndingWith_eq] at h
  obtain ⟨declaration, hmem, rfl⟩ := List.mem_map.1 h
  obtain ⟨hdeclared, hends⟩ := List.mem_filter.1 hmem
  obtain ⟨⟨place, path, fact⟩, hentry, rfl⟩ := List.mem_map.1 hdeclared
  rw [Bool.and_eq_true, Bool.and_eq_true] at hends
  dsimp only [ScopeIndex.declarationOf] at hends ⊢
  rw [hindex, ScopeIndex.isDeclaredIn_iff]
  exact ⟨(place, path, fact), hentry, of_decide_eq_true hends.1.1, rfl⟩

theorem isVisible_of_fallbackMatch (hindex : resolver.index = (ScopeIndex.build repo sep).1)
    (h : fullName ∈ (resolver.fallbackMatch scope name).names) :
    resolver.isVisible scope fullName := by
  have hmem := Resolution.mem_of_names_ofCandidates h
  cases hfind : ((resolver.searchOrder scope).map (resolver.candidatesIn name)).find?
      fun candidates => !candidates.isEmpty with
  | none => simp [hfind] at hmem
  | some candidates =>
    rw [hfind, Option.getD_some] at hmem
    obtain ⟨project, hproject, rfl⟩ := List.mem_map.1 (List.mem_of_find?_eq_some hfind)
    have hplace := mem_searchOrder_iff.1 hproject
    have hdeclared := isDeclaredIn_of_candidatesIn hindex hmem
    rw [hindex] at hplace hdeclared
    rw [isVisible, hindex, ScopeIndex.isVisibleFrom_iff]
    exact ⟨project, hplace, hdeclared⟩

/-! ## The look-up -/

/-- **Every step offers visible names**, apart from aliases. -/
theorem lookupWith_visible (hindex : resolver.index = (ScopeIndex.build repo sep).1)
    {byAlias? : String → Option String}
    (h : fullName ∈ (resolver.lookupWith scope byAlias? name).names) :
    resolver.isVisible scope fullName ∨
      byAlias? (Text.trim name) = some fullName ∧
        (resolver.lookupWith scope byAlias? name).tier? = some .imports := by
  -- Each tier but that of the aliases only answers with a name that it has tested.
  unfold lookupWith at h ⊢
  dsimp only at h ⊢
  split at h
  · cases h
  · rw [if_neg ‹_›]
    split at h
    next hqualified =>
      obtain rfl := List.mem_singleton.1 h
      rw [Bool.and_eq_true] at hqualified
      exact .inl hqualified.2
    · rw [if_neg ‹_›]
      split at h
      next outer houter =>
        obtain rfl := List.mem_singleton.1 h
        rw [enclosingMatch?] at houter
        have hdeclared := List.find?_some houter
        exact .inl (isVisible_of_isDeclaredIn hindex hdeclared)
      next =>
        split at h
        next other hother =>
          obtain rfl := List.mem_singleton.1 h
          rw [hother]
          exact .inr ⟨rfl, rfl⟩
        next =>
          rcases Resolution.mem_names_orElse h with h | h
          · exact .inl (isVisible_of_importCandidates (Resolution.mem_of_names_ofCandidates h))
          · exact .inl (isVisible_of_fallbackMatch hindex h)

/-- **What a look-up offers is visible**, unless by an alias of the file. -/
theorem lookup_visible (hindex : resolver.index = (ScopeIndex.build repo sep).1)
    (h : fullName ∈ (resolver.lookup scope name).names)
    (hdirect : (resolver.lookup scope name).tier? ≠ some .imports ∨
      resolver.aliasMatch? scope (Text.trim name) = none) :
    resolver.isVisible scope fullName := by
  rcases lookupWith_visible hindex h with hvisible | ⟨halias, htier⟩
  · exact hvisible
  · rcases hdirect with hdirect | hnone
    · exact absurd htier hdirect
    · rw [hnone] at halias
      cases halias

/-! ## Written names -/

theorem parse_base_of_isBlank (h : Text.isBlank name) : (TypeName.parse name).base = "" := by
  have htrim : Text.trimChars name.toList = [] := by
    have hstart : name.toList.dropWhile Text.isBlankChar = [] :=
      List.dropWhile_eq_nil_iff.2 (List.all_eq_true.1 h)
    rw [Text.trimChars, Text.trimStartChars, hstart]
    rfl
  rw [TypeName.parse, TypeName.parseWithin_succ, htrim]
  rfl

theorem lookup_empty (scope : ResolutionScope) : resolver.lookup scope "" = .notFound := by
  have htrim : Text.trim "" = "" := by decide
  rw [lookup, lookupWith, htrim]
  rfl

/-- A plain name is a base and nothing else. -/
theorem parse_of_plain (hplain : TypeName.Plain name) : TypeName.parse name = ⟨name, [], ""⟩ := by
  have hparse := @TypeName.parse_plain name "" hplain .nil (by simp [Text.Bare])
  rwa [String.append_empty] at hparse

theorem run_bind_fst {α β : Type} {step : ResolveM α} {memory : Memory} {a : α}
    (h : (step.run memory).1 = a) (next : α → ResolveM β) :
    ((step >>= next).run memory).1 = ((next a).run (step.run memory).2).1 := by
  subst h
  rfl

/-- **A written name without arguments**, when the answer for its base is a plain name: that name,
with the modifiers behind it. -/
theorem resolveName_of_answer {memory : Memory} {base suffix : String}
    (hblank : Text.isBlank name = false)
    (hname : TypeName.parse name = ⟨base, [], suffix⟩) (hbase : base ∉ scope.typeParameters)
    (hanswer : ((resolver.lookupOnce scope base).run memory).1 = some fullName)
    (hplain : TypeName.Plain fullName) :
    ((resolver.resolveName scope name).run memory).1 = fullName ++ suffix := by
  have htree : ((resolver.resolveTree scope ⟨base, [], suffix⟩).run memory).1 =
      ⟨fullName, [], suffix⟩ := by
    rw [resolveTree, resolveTrees]
    simp only [pure_bind, List.isEmpty_nil, Bool.true_and, List.contains_iff_mem, hbase,
      if_false]
    rw [run_bind_fst hanswer]
    change compose fullName [] suffix = _
    rw [compose, parse_of_plain hplain]
    simp
  rw [resolveName, hblank, if_neg (by simp), hname]
  change TypeName.render ((resolver.resolveTree scope ⟨base, [], suffix⟩).run memory).1 = _
  rw [htree, TypeName.render]

/-- A written name without arguments, when its base is settled as a plain name. -/
theorem resolveTypeName_settled {base suffix : String}
    (hname : TypeName.parse name = ⟨base, [], suffix⟩) (hbase : base ∉ scope.typeParameters)
    (hsettled : (resolver.lookup scope base).fullName? = some fullName)
    (hplain : TypeName.Plain fullName) :
    resolver.resolveTypeName scope name = fullName ++ suffix := by
  have hblank : Text.isBlank name = false := by
    refine Bool.eq_false_iff.2 fun hblank => ?_
    have hempty := parse_base_of_isBlank hblank
    rw [hname] at hempty
    obtain rfl : base = "" := hempty
    rw [lookup_empty] at hsettled
    cases hsettled
  refine resolveName_of_answer hblank hname hbase ?_ hplain
  rw [← hsettled, lookupOnce]
  generalize resolver.lookup scope base = outcome
  rfl

end Resolver

end FactGraph
