import FactGraph.Proofs.Resolution.Agreement
import FactGraph.Proofs.Scope.Chain
import FactGraph.Proofs.Scope.Declarations

/-!
# What is around a plain declaration

A declaration is plain if its namespace and its enclosing types are paths and its name is a single
segment. Then the place of a scope tells what is around it: a path, whichever part of it names
namespaces and whichever part types, is surrounded by the paths of its first segments.

## Main results

* `Resolver.surroundings_of_plain`: the surroundings of a scope of a plain declaration
-/

namespace FactGraph

namespace Resolver

variable {resolver : Resolver} {repo : RepositoryFact} {sep : Separator} {fact : TypeFact}

/-- **The types around a plain declaration**, with the names around its namespace behind them, are
the names around the path of the namespace and the enclosing types. -/
theorem exists_enclosingChain (hsep : resolver.separator = sep) {segments others : List String}
    (hall : ∀ segment ∈ segments ++ others, sep.IsSegment segment)
    (hnamespace : fact.trimmedNamespace = sep.path segments)
    (houters : fact.outerName?.getD "" = sep.path others) : ∃ types,
    resolver.enclosingChain fact = fact.fullName sep :: types ∧
    types ++ sep.around (sep.path segments) = sep.around (sep.path (segments ++ others)) ∧
    types.head?.getD fact.trimmedNamespace = sep.path (segments ++ others) := by
  unfold enclosingChain
  rw [hsep]
  cases houter : fact.outerName? with
  | none =>
    rw [houter, Option.getD_none] at houters
    have hpath : sep.path (segments ++ others) = sep.path segments := by
      rw [sep.path_append, ← houters, sep.join_empty]
    exact ⟨[], rfl, by rw [hpath, List.nil_append], by simpa [hpath] using hnamespace⟩
  | some outer =>
    rw [houter, Option.getD_some] at houters
    have hne : outer ≠ "" := by
      simpa using (Option.filter_eq_some_iff.1 houter).2
    have hpath : sep.join fact.trimmedNamespace outer = sep.path (segments ++ others) := by
      rw [sep.path_append, hnamespace, houters]
    have hlonger : fact.trimmedNamespace.utf8ByteSize <
        (sep.path (segments ++ others)).utf8ByteSize := by
      rw [← hpath]
      exact sep.utf8ByteSize_lt_join _ hne
    obtain ⟨names, hnames⟩ := sep.outward_eq_cons (sep.path (segments ++ others))
    refine ⟨_, rfl, ?_, ?_⟩
    · rw [← Separator.takeWhile_outward_path hall, hpath, Separator.outwardBeyond, hnames,
        List.takeWhile_cons_of_pos (by simpa [hnamespace] using hlonger), hnamespace,
        List.tail_cons]
    · rw [hpath]
      rfl

/-- **The surroundings of a plain declaration** are the names around its full name, and outside of
it the names around its place there. -/
theorem surroundings_of_plain (hindex : resolver.index = (ScopeIndex.build repo sep).1)
    (h : fact.IsPlain sep) (project : Nat) (projectPath filePath : String) :
    let scope := resolver.scopeOf project projectPath filePath fact
    resolver.surroundings scope = sep.around scope.place ∧
      resolver.surroundings scope.outsideCurrentType =
        sep.around scope.outsideCurrentType.place := by
  have hsep : resolver.separator = sep := by simp [separator, hindex]
  obtain ⟨segments, others, hall, hnamespace, houters, hfull⟩ := h.exists_path
  obtain ⟨types, htypes, haround, hplace⟩ :=
    exists_enclosingChain hsep hall hnamespace houters
  have hchain : resolver.index.namespaces.chain fact.trimmedNamespace =
      sep.around (sep.path segments) := by
    have hseparator := ScopeIndex.build_namespaces_separator repo sep
    have hpath := h.namespaceName
    rw [← hseparator] at hpath
    rw [hindex, NamespaceTree.chain_path (ScopeIndex.build_wellFormed repo sep)
      (ScopeIndex.build_placed repo sep) hpath (Text.trim_trim _), hseparator, hnamespace]
  generalize hscope : resolver.scopeOf project projectPath filePath fact = scope
  have hwithin : scope.namespaceName = fact.trimmedNamespace := by rw [← hscope]; rfl
  have hinside : scope.enclosingTypes = fact.fullName sep :: types := by rw [← hscope]; exact htypes
  have houtside : scope.outsideCurrentType.enclosingTypes = types := congrArg List.tail hinside
  dsimp only
  constructor
  · rw [surroundings, hinside, hwithin, hchain, List.cons_append, haround, ResolutionScope.place,
      ResolutionScope.currentType?, hinside, List.head?_cons, Option.getD_some, hfull,
      Separator.around_path_concat hall h.simpleName]
  · have hwithin' : scope.outsideCurrentType.namespaceName = fact.trimmedNamespace := hwithin
    rw [surroundings, houtside, hwithin', hchain, haround, ResolutionScope.place,
      ResolutionScope.currentType?, houtside, hwithin', hplace]

end Resolver

end FactGraph
