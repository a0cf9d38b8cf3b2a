import FactGraph.Proofs.Resolution.Fixpoint

/-!
# A look-up misses nothing

The four steps of a look-up go through different tables: the full names of the own project, those
that are visible, and for each project the names under their last segment. In a file without
aliases they agree with one rule. What a name can stand for are the declarations that can be used at
the occurrence and whose full name is the name or ends in it behind a separator; if there is one the
look-up finds one, and it offers nothing else.

That each step offers only such names is known. That nothing is missed is due to the last step,
which goes through every project that can be used. It goes to the declarations by the last segment
of the name, and finds there what a scan for the name would find if the declarations are plain.

## Main definitions

* `Resolver.CanUse`: the declarations of a project can be used at an occurrence
* `Resolver.Means`: what a name can stand for

## Main results

* `Resolver.isVisible_iff`: visible are the declarations that can be used
* `Resolver.lookup_exact`: a look-up is sound and complete where there are no aliases
-/

namespace FactGraph

open Relation (ReflTransGen)

/-! ## Declarations -/

theorem Separator.lastSegment_empty (sep : Separator) : sep.lastSegment "" = "" := by
  rw [lastSegment, splitLast?_of_not_mem (by simp)]

namespace ScopeIndex

variable {repo : RepositoryFact} {sep : Separator} {name : String}

/-- **The declarations of a project that end in a name are all found**, if they are plain. -/
theorem mem_declarationsEndingWith {project : Nat}
    (hplain : ∀ entry ∈ repo.named, entry.2.2.IsPlain sep) {entry : Nat × String × TypeFact}
    (hentry : entry ∈ repo.named) (hproject : entry.1 = project)
    (hends : sep.endsWith (entry.2.2.fullName sep) name) :
    declarationOf sep entry.1 entry.2.1 entry.2.2 ∈
      (build repo sep).1.declarationsEndingWith name project := by
  rw [declarationsEndingWith_eq_filter hplain, List.mem_filter]
  refine ⟨List.mem_map.2 ⟨entry, hentry, rfl⟩, ?_⟩
  rw [Bool.and_eq_true, decide_eq_true_eq]
  dsimp only [declarationOf]
  exact ⟨hproject, hends⟩

end ScopeIndex

/-! ## What a name can stand for -/

namespace Resolver

variable {repo : RepositoryFact} {sep : Separator} {resolver : Resolver} {scope : ResolutionScope}
  {name fullName : String}

/-- **The declarations of a project can be used at an occurrence**: a way over references leads to
the project from the own one, or the policy allows for any project. -/
def CanUse (resolver : Resolver) (scope : ResolutionScope) (project : Nat) : Prop :=
  ReflTransGen (fun a b => b ∈ resolver.index.referencesOf a) scope.project project ∨
    resolver.index.allowsGlobal resolver.policy

/-- **What a name can stand for**: the full name of a declaration that can be used, which is the
name or ends in it behind a separator. -/
def Means (repo : RepositoryFact) (resolver : Resolver) (scope : ResolutionScope)
    (name fullName : String) : Prop :=
  (∃ entry ∈ repo.named, resolver.CanUse scope entry.1 ∧
    entry.2.2.fullName resolver.separator = fullName) ∧
  (fullName = name ∨ ∃ outer, fullName = outer ++ resolver.separator.text ++ name)

theorem endsWith_iff_append : resolver.separator.endsWith fullName name ↔
    fullName = name ∨ ∃ outer, fullName = outer ++ resolver.separator.text ++ name := by
  rw [Separator.endsWith_iff]
  refine or_congr_right ⟨?_, ?_⟩
  · rintro ⟨front, hfront⟩
    refine ⟨String.ofList front, String.toList_inj.1 ?_⟩
    rw [← hfront, String.toList_append, String.toList_append, String.toList_ofList]
  · rintro ⟨outer, rfl⟩
    exact ⟨outer.toList, by rw [String.toList_append, String.toList_append]⟩

/-- A declaration can be used if its project is one of those where names are looked for. -/
theorem mem_placesFrom_iff (scope : ResolutionScope)
    (hindex : resolver.index = (ScopeIndex.build repo sep).1) {entry : Nat × String × TypeFact}
    (hentry : entry ∈ repo.named) :
    entry.1 ∈ resolver.index.placesFrom resolver.policy scope.project ↔
      resolver.CanUse scope entry.1 := by
  have hproject : entry.1 < (ScopeIndex.build repo sep).1.projects.length :=
    ScopeIndex.lt_of_named hentry
  have horder := ScopeIndex.isOrder_reachableProjects repo sep scope.project
  rw [← hindex] at horder hproject
  rw [ScopeIndex.placesFrom, List.mem_append, horder.mem_iff, CanUse]
  refine or_congr_right ?_
  split
  next hglobal => simp [hglobal, hproject]
  next hglobal => simp [hglobal]

/-- **Visible are the names of the declarations that can be used.** -/
theorem isVisible_iff (hindex : resolver.index = (ScopeIndex.build repo sep).1) :
    resolver.isVisible scope fullName ↔ ∃ entry ∈ repo.named, resolver.CanUse scope entry.1 ∧
      entry.2.2.fullName resolver.separator = fullName := by
  have hsep : resolver.separator = sep := by rw [separator, hindex, ScopeIndex.build_separator]
  have hplace (entry : Nat × String × TypeFact) (hentry : entry ∈ repo.named) :=
    mem_placesFrom_iff scope hindex hentry
  rw [hindex] at hplace
  rw [isVisible, hindex, ScopeIndex.isVisibleFrom_iff, hsep]
  constructor
  · rintro ⟨place, hmem, hdeclared⟩
    obtain ⟨entry, hentry, rfl, hname⟩ := ScopeIndex.isDeclaredIn_iff.1 hdeclared
    exact ⟨entry, hentry, (hplace entry hentry).1 hmem, hname⟩
  · rintro ⟨entry, hentry, huse, hname⟩
    exact ⟨entry.1, (hplace entry hentry).2 huse,
      ScopeIndex.isDeclaredIn_iff.2 ⟨entry, hentry, rfl, hname⟩⟩

/-! ## Completeness -/

/-- If the last step finds nothing, no project that can be used has a candidate. -/
theorem candidatesIn_eq_nil (h : resolver.fallbackMatch scope name = .notFound) {project : Nat}
    (hplace : project ∈ resolver.index.placesFrom resolver.policy scope.project) :
    resolver.candidatesIn name project = [] := by
  rw [fallbackMatch, Resolution.ofCandidates_eq_notFound] at h
  cases hfind : ((resolver.searchOrder scope).map (resolver.candidatesIn name)).find?
      fun candidates => !candidates.isEmpty with
  | some candidates =>
    rw [hfind, Option.getD_some] at h
    have hnonempty := List.find?_some hfind
    rw [h] at hnonempty
    cases hnonempty
  | none =>
    have hall := List.find?_eq_none.1 hfind (resolver.candidatesIn name project)
      (List.mem_map_of_mem (mem_searchOrder_iff.2 hplace))
    simpa using hall

/-- If a look-up finds nothing, neither does its last step. -/
theorem fallbackMatch_eq_notFound {byAlias? : String → Option String} (hne : Text.trim name ≠ "")
    (h : resolver.lookupWith scope byAlias? name = .notFound) :
    resolver.fallbackMatch scope (Text.trim name) = .notFound := by
  unfold lookupWith at h
  dsimp only at h
  rw [if_neg hne] at h
  split at h
  · cases h
  · split at h
    · cases h
    · split at h
      · cases h
      · generalize Resolution.ofCandidates .imports
          (resolver.importCandidates scope (Text.trim name)) = outcome at h
        cases outcome with
        | notFound => exact h
        | found => cases h
        | ambiguous => cases h

/-- **A look-up misses nothing**: if a declaration that can be used ends in the name, something is
found. -/
theorem lookup_ne_notFound (hindex : resolver.index = (ScopeIndex.build repo sep).1)
    (hplain : ∀ entry ∈ repo.named, entry.2.2.IsPlain sep)
    (hmeans : resolver.Means repo scope (Text.trim name) fullName) :
    resolver.lookup scope name ≠ .notFound := by
  intro hnone
  obtain ⟨⟨entry, hentry, huse, rfl⟩, hends⟩ := hmeans
  rw [← endsWith_iff_append] at hends
  have hsep : resolver.separator = sep := by rw [separator, hindex, ScopeIndex.build_separator]
  rw [hsep] at hends
  have hfact := hplain entry hentry
  have hne : Text.trim name ≠ "" := by
    intro hempty
    obtain ⟨segments, others, hall, -, -, hfull⟩ := hfact.exists_path
    rw [hfull, hempty] at hends
    have hlast := Separator.lastSegment_of_endsWith hall hfact.simpleName hends
    rw [Separator.lastSegment_empty] at hlast
    exact hfact.simpleName.ne_empty hlast.symm
  have hplace : entry.1 ∈ resolver.index.placesFrom resolver.policy scope.project :=
    (mem_placesFrom_iff scope hindex hentry).2 huse
  have hcandidates := candidatesIn_eq_nil (fallbackMatch_eq_notFound hne hnone) hplace
  have hmem := ScopeIndex.mem_declarationsEndingWith hplain hentry rfl hends
  rw [← hindex] at hmem
  have hcandidate : entry.2.2.fullName sep ∈ resolver.candidatesIn (Text.trim name) entry.1 := by
    rw [candidatesIn_eq, mem_keepFirst]
    have hname := List.mem_map_of_mem (f := DeclaredType.fullName) hmem
    dsimp only [ScopeIndex.declarationOf] at hname
    exact hname
  rw [hcandidates] at hcandidate
  cases hcandidate

/-! ## Soundness and completeness -/

/-- **A look-up is sound and complete in a file without aliases**, among plain declarations: nothing
is found only if there is nothing that the name can stand for, and nothing else is offered. -/
theorem lookup_exact (resolver : Resolver)
    (hindex : resolver.index = (ScopeIndex.build repo sep).1)
    (hplain : ∀ entry ∈ repo.named, entry.2.2.IsPlain sep)
    (hfree : resolver.IsAliasFreeAt scope) (name : String) :
    (resolver.lookup scope name = .notFound ↔
      ¬ ∃ fullName, resolver.Means repo scope (Text.trim name) fullName) ∧
    ∀ fullName ∈ (resolver.lookup scope name).names,
      resolver.Means repo scope (Text.trim name) fullName := by
  have hsound : ∀ fullName ∈ (resolver.lookup scope name).names,
      resolver.Means repo scope (Text.trim name) fullName := by
    intro fullName hoffered
    have hvisible := lookup_visible hindex hoffered (.inr (hfree.aliasMatch?_eq_none _))
    have hends := lookup_endsWith hfree.aliasMatch?_eq_none hoffered
    exact ⟨(isVisible_iff hindex).1 hvisible, endsWith_iff_append.1 hends⟩
  refine ⟨⟨?_, ?_⟩, hsound⟩
  · rintro hnone ⟨fullName, hmeans⟩
    exact lookup_ne_notFound hindex hplain hmeans hnone
  · intro hnothing
    cases houtcome : resolver.lookup scope name with
    | notFound => rfl
    | found fullName tier =>
      have hmeans := hsound fullName (by rw [houtcome]; exact List.mem_cons_self)
      exact absurd ⟨fullName, hmeans⟩ hnothing
    | ambiguous chosen candidates tier =>
      have hmeans := hsound chosen (by rw [houtcome]; exact List.mem_cons_self)
      exact absurd ⟨chosen, hmeans⟩ hnothing

/-- A viewer that refers to the shapes of an atlas, and an attic that it does not refer to. -/
def atlas : RepositoryFact where
  solutions := [{ path := "all", projects := [viewer, shapes, attic] }]
where
  viewer : ProjectFact :=
    { path := "viewer", projectReferences := ["shapes"], units := [{ path := "viewer/main" }] }
  shapes : ProjectFact :=
    { path := "shapes", units := [{ path := "shapes/round", types := [round "Disc"] }] }
  attic : ProjectFact :=
    { path := "attic", units := [{ path := "attic/round", types := [round "Cone"] }] }
  /-- A round shape of a name. -/
  round (name : String) : TypeFact :=
    { name, namespaceName := "Geo.Round" }

/-- The resolver of the atlas, which stays with the references. -/
def atlasResolver : Resolver :=
  ⟨(ScopeIndex.build atlas .dot).1, .referencesOnly⟩

/-- The viewer finds the disc, behind the reference, and not the cone. -/
theorem atlas_exact :
    let scope : ResolutionScope := ⟨0, "viewer", "viewer/main", "", [], []⟩
    ((∀ entry ∈ atlas.named, entry.2.2.IsPlain .dot) ∧ atlasResolver.IsAliasFreeAt scope) ∧
      atlasResolver.lookup scope " Round.Disc" = .found "Geo.Round.Disc" .fallback ∧
      atlasResolver.Means atlas scope "Round.Disc" "Geo.Round.Disc" ∧
      atlasResolver.lookup scope "Cone" = .notFound ∧
      ¬ ∃ fullName, atlasResolver.Means atlas scope "Cone" fullName := by
  intro scope
  have hround (name : String) (hname : Separator.dot.IsSegment (atlas.round name).simpleName) :
      (atlas.round name).IsPlain .dot := by
    have hpath : Separator.dot.path ["Geo", "Round"] = Text.trim "Geo.Round" := by decide
    exact ⟨⟨["Geo", "Round"], by decide, hpath⟩, by simp [TypeFact.outerName?, atlas.round], hname⟩
  have hnamed : atlas.named = [(1, "shapes/round", atlas.round "Disc"),
      (2, "attic/round", atlas.round "Cone")] := rfl
  have hplain : ∀ entry ∈ atlas.named, entry.2.2.IsPlain .dot := by
    rw [hnamed, List.forall_mem_cons, List.forall_mem_cons]
    exact ⟨hround "Disc" (by decide), hround "Cone" (by decide), List.forall_mem_nil _⟩
  have halias : atlas.IsAliasFree := by unfold RepositoryFact.IsAliasFree; decide
  have hfree : atlasResolver.IsAliasFreeAt scope := isAliasFreeAt_of_isAliasFree rfl halias scope
  have hdisc : atlasResolver.lookup scope " Round.Disc" = .found "Geo.Round.Disc" .fallback := by
    decide +kernel
  have hcone : atlasResolver.lookup scope "Cone" = .notFound := by decide +kernel
  obtain ⟨-, hoffered⟩ := lookup_exact atlasResolver rfl hplain hfree " Round.Disc"
  obtain ⟨hnothing, -⟩ := lookup_exact atlasResolver rfl hplain hfree "Cone"
  have htrim : Text.trim " Round.Disc" = "Round.Disc" := by decide
  have htrim' : Text.trim "Cone" = "Cone" := by decide
  rw [htrim, hdisc] at hoffered
  rw [htrim'] at hnothing
  exact ⟨⟨hplain, hfree⟩, hdisc, hoffered _ List.mem_cons_self, hcone, hnothing.1 hcone⟩

end Resolver

end FactGraph
