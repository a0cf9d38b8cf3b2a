import FactGraph.Proofs.Resolution.Agreement
import FactGraph.Proofs.Resolution.Settled

/-!
# Reporting an ambiguity once

An ambiguity is reported where a name is first met in a file, and not again at its later
occurrences in other scopes. That loses nothing. The full names, the enclosing scope and the
aliases of a file give one answer or none, so only the imports of a file and the search through the
projects can be ambiguous, and they do not ask what is around the occurrence.

Two occurrences of a name may still be answered by different steps. But a name that is ambiguous at
both got past the same steps, and so the candidates are the same.

## Main definitions

* `Diagnostic.IsAmbiguity`, `Diagnostic.site`: a report of an ambiguity, and its file and name
* `Memory.ReportsOnce`: no ambiguity was reported twice

## Main results

* `lookup_of_isAmbiguous`: an ambiguous outcome depends on the project and the file only
* `lookup_ambiguous_spec`: the candidates of an ambiguous outcome
* `resolveProject_reportsOnce`: one report for each file and name
* `ambiguity_reported_once`: all of that together
-/

namespace FactGraph

/-! ## Ambiguous outcomes -/

namespace Resolution

variable {tier : Tier} {chosen : String} {candidates : List String}

/-- The candidates of an ambiguous outcome are told apart, and the first of them is taken. -/
theorem ofCandidates_eq_ambiguous {tier' : Tier} {given : List String}
    (h : ofCandidates tier' given = .ambiguous chosen candidates tier) :
    candidates = given ∧ 2 ≤ candidates.length ∧ candidates.head? = some chosen ∧
      tier = tier' := by
  match given, h with
  | first :: second :: others, h =>
    obtain ⟨rfl, rfl, rfl⟩ := Resolution.ambiguous.inj h
    exact ⟨rfl, by simp, rfl, rfl⟩

theorem isAmbiguous_iff {outcome : Resolution} :
    outcome.isAmbiguous ↔ ∃ chosen candidates tier,
      outcome = .ambiguous chosen candidates tier := by
  cases outcome <;> simp [isAmbiguous]

end Resolution

open ResolveM (Alike)

namespace Resolver

-- How a tree is read from a text does not matter here.
attribute [local irreducible] TypeName.parse

variable {resolver : Resolver} {scope scope' : ResolutionScope} {name : String}

/-- The two steps of a look-up that can be ambiguous. -/
def lastSteps (resolver : Resolver) (scope : ResolutionScope) (name : String) : Resolution :=
  (Resolution.ofCandidates .imports (resolver.importCandidates scope name)).orElse
    fun _ => resolver.fallbackMatch scope name

/-- The last two steps ask for the project and the file of the occurrence only. -/
theorem lastSteps_eq (hproject : scope'.project = scope.project)
    (hfile : scope'.filePath = scope.filePath) (name : String) :
    resolver.lastSteps scope' name = resolver.lastSteps scope name := by
  have himports : resolver.importCandidates scope' name =
      resolver.importCandidates scope name := by
    simp only [importCandidates, importEntries, isVisible, hproject, hfile]
  have hfallback : resolver.fallbackMatch scope' name = resolver.fallbackMatch scope name := by
    simp only [fallbackMatch, searchOrder, hproject]
  rw [lastSteps, lastSteps, himports, hfallback]

/-- **Only the last two steps can be ambiguous.** -/
theorem lookup_eq_lastSteps (h : (resolver.lookup scope name).isAmbiguous) :
    resolver.lookup scope name = resolver.lastSteps scope (Text.trim name) := by
  -- Every step before these two ends the look-up with one answer, so each of them was passed.
  unfold lookup lookupWith at h ⊢
  dsimp only at h ⊢
  split at h
  · cases h
  next hne =>
    rw [if_neg hne]
    split at h
    · cases h
    next hqualified =>
      rw [if_neg hqualified]
      cases henclosing : resolver.enclosingMatch? scope (Text.trim name) with
      | some fullName =>
        rw [henclosing] at h
        cases h
      | none =>
        cases halias : resolver.aliasMatch? scope (Text.trim name) with
        | some fullName =>
          rw [henclosing, halias] at h
          cases h
        | none => rfl

/-- **An ambiguous outcome depends on the project and the file only.** -/
theorem lookup_of_isAmbiguous (hproject : scope'.project = scope.project)
    (hfile : scope'.filePath = scope.filePath)
    (h : (resolver.lookup scope name).isAmbiguous)
    (h' : (resolver.lookup scope' name).isAmbiguous) :
    resolver.lookup scope' name = resolver.lookup scope name := by
  rw [lookup_eq_lastSteps h, lookup_eq_lastSteps h', lastSteps_eq hproject hfile]

/-- The candidates of the first project that has any, or none. -/
theorem nodup_candidates_of_fallbackMatch (scope : ResolutionScope) (name : String) :
    ((((resolver.searchOrder scope).map (resolver.candidatesIn name)).find?
      fun candidates => !candidates.isEmpty).getD []).Nodup := by
  cases hfind : ((resolver.searchOrder scope).map (resolver.candidatesIn name)).find?
      fun candidates => !candidates.isEmpty with
  | none => exact List.nodup_nil
  | some candidates =>
    obtain ⟨project, -, rfl⟩ := List.mem_map.1 (List.mem_of_find?_eq_some hfind)
    rw [Option.getD_some, candidatesIn_eq]
    exact nodup_keepFirst _

/-- **The candidates of an ambiguous outcome** are at least two and all distinct, and the first one
is taken. -/
theorem lookup_ambiguous_spec {chosen : String} {candidates : List String} {tier : Tier}
    (h : resolver.lookup scope name = .ambiguous chosen candidates tier) :
    2 ≤ candidates.length ∧ candidates.Nodup ∧ candidates.head? = some chosen := by
  have hambiguous : (resolver.lookup scope name).isAmbiguous :=
    Resolution.isAmbiguous_iff.2 ⟨_, _, _, h⟩
  have hlast := lookup_eq_lastSteps hambiguous
  rw [h, lastSteps] at hlast
  have himports : (resolver.importCandidates scope (Text.trim name)).Nodup :=
    nodup_foldl_keepFirst List.nodup_nil
  generalize himported : Resolution.ofCandidates .imports
    (resolver.importCandidates scope (Text.trim name)) = imported at hlast
  cases imported with
  | notFound =>
    obtain ⟨rfl, hlength, hhead, -⟩ := Resolution.ofCandidates_eq_ambiguous hlast.symm
    exact ⟨hlength, nodup_candidates_of_fallbackMatch scope _, hhead⟩
  | found fullName _ => cases hlast
  | ambiguous first others _ =>
    obtain ⟨rfl, hlength, hhead, -⟩ :=
      Resolution.ofCandidates_eq_ambiguous (himported.trans hlast.symm)
    exact ⟨hlength, himports, hhead⟩

end Resolver

/-! ## Reports -/

namespace Diagnostic

/-- The finding is an ambiguity. -/
def IsAmbiguity (diagnostic : Diagnostic) : Prop :=
  diagnostic.kind = .ambiguousName ∨ diagnostic.kind = .fallbackAmbiguity

instance (diagnostic : Diagnostic) : Decidable diagnostic.IsAmbiguity :=
  inferInstanceAs (Decidable (_ ∨ _))

/-- The file and the name that a finding is about. -/
def site (diagnostic : Diagnostic) : Option String × Option String :=
  (diagnostic.context.filePath, diagnostic.context.name)

end Diagnostic

/-- The files and names of the ambiguities among some findings, in the order of the reports. -/
def Diagnostics.ambiguitySites (diagnostics : Diagnostics) :
    List (Option String × Option String) :=
  (diagnostics.entries.filter fun diagnostic => diagnostic.IsAmbiguity).map Diagnostic.site

@[simp] theorem Diagnostics.ambiguitySites_push (diagnostics : Diagnostics) (fromSearch : Bool)
    (projectPath filePath name chosen : String) (candidates : List String) :
    (diagnostics.push (.ambiguity fromSearch projectPath filePath name chosen
      candidates)).ambiguitySites =
        diagnostics.ambiguitySites ++ [(some filePath, some name)] := by
  have hambiguity : (Diagnostic.ambiguity fromSearch projectPath filePath name chosen
      candidates).IsAmbiguity := by
    cases fromSearch
    · exact .inl rfl
    · exact .inr rfl
  rw [ambiguitySites, entries_push, List.filter_append, List.map_append,
    List.filter_singleton, decide_eq_true hambiguity]
  rfl

/-- **No ambiguity was reported twice**, and the memory knows which ones were reported. -/
structure Memory.ReportsOnce (memory : Memory) : Prop where
  nodup : memory.diagnostics.ambiguitySites.Nodup
  known : ∀ site ∈ memory.diagnostics.ambiguitySites, ∃ report ∈ memory.reported,
    site = (some report.1, some report.2)

namespace Memory.ReportsOnce

/-- A report is only made of what the memory does not know yet. -/
theorem reportAmbiguity {memory : Memory} (h : memory.ReportsOnce) (scope : ResolutionScope)
    (name : String) (outcome : Resolution) :
    (memory.reportAmbiguity scope name outcome).ReportsOnce := by
  unfold Memory.reportAmbiguity
  split
  next chosen candidates tier =>
    split
    next => exact h
    next hfresh =>
      constructor
      · dsimp only
        rw [Diagnostics.ambiguitySites_push]
        refine List.nodup_append.2 ⟨h.nodup, List.nodup_singleton _, ?_⟩
        intro site hsite other hother
        obtain rfl := List.mem_singleton.1 hother
        rintro rfl
        obtain ⟨report, hreport, heq⟩ := h.known _ hsite
        obtain ⟨hfile, hname⟩ := Prod.mk.inj heq
        rw [Option.some.inj hfile, Option.some.inj hname] at hfresh
        exact hfresh hreport
      · intro site hsite
        dsimp only at hsite ⊢
        rw [Diagnostics.ambiguitySites_push] at hsite
        rcases List.mem_append.1 hsite with hsite | hsite
        · obtain ⟨report, hreport, heq⟩ := h.known site hsite
          exact ⟨report, List.mem_cons_of_mem _ hreport, heq⟩
        · exact ⟨_, List.mem_cons_self, List.mem_singleton.1 hsite⟩
  next => exact h

/-- An answer is no report. -/
theorem remember {memory : Memory} (h : memory.ReportsOnce) (key : MemoryKey)
    (answer : Option String) : (memory.remember key answer).ReportsOnce :=
  ⟨h.nodup, h.known⟩

end Memory.ReportsOnce

namespace Resolver

attribute [local irreducible] TypeName.parse

/-- **One report for each file and name** in the findings of a project. -/
theorem resolveProject_reportsOnce (resolver : Resolver) (fact : ProjectFact) :
    (resolver.resolveProject fact).2.ambiguitySites.Nodup := by
  unfold resolveProject
  split
  next => exact List.nodup_nil
  next project _ =>
    -- A run that is alike to itself keeps what it shares with itself, which is an invariant.
    have hlookup (scope : ResolutionScope) (_ : ScopeIn resolver project fact scope) :
        ∀ base, Alike (Memory.Shared Memory.ReportsOnce) (resolver.lookupOnce scope base)
          (resolver.lookupOnce scope base) := by
      refine lookupOnce_alike (.refl resolver scope) fun base memory hmemory => ?_
      exact (hmemory.reportAmbiguity scope base _).remember _ _
    have hwalk := mapNames_action_alike (fun _ _ _ _ _ => rfl) hlookup
      fun unit _ type _ _ call _ hscope =>
        resolveOwner_alike (hlookup call.1 hscope) rfl rfl fun _ _ _ _ _ => rfl
    exact (hwalk {} {} ⟨rfl, List.nodup_nil, by simp [Diagnostics.ambiguitySites]⟩).2.2.nodup

/-- **Reporting an ambiguity once for each file and name loses nothing.** A name that is ambiguous
in two scopes of a file is so with the same outcome. -/
theorem ambiguity_reported_once (resolver : Resolver) :
    (∀ scope scope' name, scope'.project = scope.project → scope'.filePath = scope.filePath →
      (resolver.lookup scope name).isAmbiguous → (resolver.lookup scope' name).isAmbiguous →
        resolver.lookup scope' name = resolver.lookup scope name) ∧
    (∀ scope name chosen candidates tier,
      resolver.lookup scope name = .ambiguous chosen candidates tier →
        2 ≤ candidates.length ∧ candidates.Nodup ∧ candidates.head? = some chosen) ∧
    ∀ fact, (resolver.resolveProject fact).2.ambiguitySites.Nodup :=
  ⟨fun _ _ _ => lookup_of_isAmbiguous, fun _ _ _ _ _ => lookup_ambiguous_spec,
    resolver.resolveProject_reportsOnce⟩

/-- Items in the attic and in the cellar, and a file that imports both. Its two types are in
namespaces of their own, and each has a field of type `Item`. -/
def stalls : ProjectFact where
  path := "market"
  units := [
    { path := "market/items"
      types := [{ name := "Item", namespaceName := "Attic" },
        { name := "Item", namespaceName := "Cellar" }] },
    { path := "market/stalls"
      imports := [.plain "Attic", .plain "Cellar"]
      types := [stall "Front", stall "Back"] }]
where
  stall (namespaceName : String) : TypeFact :=
    { name := "Stall", namespaceName
      fields := [{ name := "item", typeRef := { name := "Item" } }] }

/-- The resolver of the stalls. -/
def stallResolver : Resolver :=
  ⟨(ScopeIndex.build { solutions := [{ path := "all", projects := [stalls] }] } .dot).1,
    .referencesOnly⟩

/-- The item is ambiguous in both types, and only the first of them is told about. -/
theorem stalls_reported_once :
    let front := stallResolver.scopeOf 0 "market" "market/stalls" (stalls.stall "Front")
    let back := stallResolver.scopeOf 0 "market" "market/stalls" (stalls.stall "Back")
    stallResolver.lookup front "Item" =
        .ambiguous "Attic.Item" ["Attic.Item", "Cellar.Item"] .imports ∧
      stallResolver.lookup back "Item" = stallResolver.lookup front "Item" ∧
      (stallResolver.resolveProject stalls).2.ambiguitySites =
        [(some "market/stalls", some "Item")] := by
  intro front back
  have hfront : stallResolver.lookup front "Item" =
      .ambiguous "Attic.Item" ["Attic.Item", "Cellar.Item"] .imports := by decide +kernel
  have hback : (stallResolver.lookup back "Item").isAmbiguous := by decide +kernel
  refine ⟨hfront, ?_, by decide +kernel⟩
  exact (ambiguity_reported_once stallResolver).1 front back "Item" rfl rfl
    (by rw [hfront]; rfl) hback

end Resolver

end FactGraph
