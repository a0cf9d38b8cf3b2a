import FactGraph.Proofs.Resolution.Fixpoint

/-!
# No name is lost when it is resolved

A member of which the type is not named is left out when the facts are linked. So a name that is
written should not become blank when it is resolved, or members that were complete would get lost
with all that they call. It does not: every step of a look-up offers the full name of a declaration,
an alias that is in effect has a source, and a tree that is not empty has a text with more than
blanks in it, whatever its bases are replaced by.

## Main results

* `TypeName.isBlank_render_iff`: which trees have a blank text
* `Resolver.isBlank_lookup`: no name is settled as a blank one
* `Resolver.isBlank_resolveTypeName`: a resolved name is blank just if the written one is
-/

namespace FactGraph

namespace Text

theorem isBlank_append (s t : String) : isBlank (s ++ t) = (isBlank s && isBlank t) := by
  simp [isBlank]

/-- What is left of a name without the blanks at its ends is not blank. -/
theorem isBlank_of_trim_ne {s : String} (h : trim s ≠ "") : isBlank (trim s) = false := by
  refine Bool.eq_false_iff.2 fun hblank => h ?_
  have hempty : trimChars (trim s).toList = [] := by
    rw [trimChars, trimStartChars, List.dropWhile_eq_nil_iff.2 (List.all_eq_true.1 hblank)]
    rfl
  rw [← trim_trim, trim, hempty]

end Text

theorem Separator.isBlank_join (sep : Separator) {outer : String}
    (h : Text.isBlank outer = false) (name : String) :
    Text.isBlank (sep.join outer name) = false := by
  unfold join
  split
  next hempty =>
    rw [hempty] at h
    cases h
  next =>
    split
    · exact h
    · rw [Text.isBlank_append, Text.isBlank_append, h, Bool.false_and, Bool.false_and]

namespace TypeName

/-- **A tree has a blank text** if there are no arguments in it, and nothing but blanks. -/
theorem isBlank_render_iff {tree : TypeName} : Text.isBlank tree.render ↔
    Text.isBlank tree.base ∧ tree.args = [] ∧ Text.isBlank tree.suffix := by
  by_cases hargs : tree.args = []
  · obtain ⟨base, args, suffix⟩ := tree
    obtain rfl : args = [] := hargs
    rw [render, Text.isBlank_append, Bool.and_eq_true]
    simp
  · refine iff_of_false (fun h => ?_) fun h => hargs h.2.1
    have hopen := List.all_eq_true.1 h '<' (mem_render hargs)
    exact absurd hopen (by decide)

theorem isBlank_render_parse (name : String) :
    Text.isBlank (parse name).render = Text.isBlank name := by
  rw [Bool.eq_iff_iff, ← parse_eq_empty_iff, ← parse_eq_empty_iff, (parse_stable name).1]

end TypeName

namespace Resolver

-- How a tree is read from a text does not matter here.
attribute [local irreducible] TypeName.parse

variable {repo : RepositoryFact} {sep : Separator} {resolver : Resolver} {scope : ResolutionScope}
  {name fullName : String}

/-! ## Look-ups -/

/-- The sources of the imports that are in effect are not blank. -/
theorem isBlank_sourceName (hindex : resolver.index = (ScopeIndex.build repo sep).1)
    {path : String} {table : ImportTable} (htable : resolver.index.importsOf? path = some table)
    {entry : ImportEntry} (hentry : entry ∈ table.entries) :
    Text.isBlank entry.sourceName = false := by
  rw [hindex, ScopeIndex.importsOf?_eq] at htable
  obtain ⟨unit, -, rfl⟩ := List.mem_map.1 (List.mem_of_getLast? htable)
  obtain ⟨directive, -, heq⟩ := List.mem_filterMap.1 hentry
  unfold ImportTable.entryOf? at heq
  dsimp only at heq
  split at heq
  · cases heq
  next hcomplete =>
    cases heq
    refine Text.isBlank_of_trim_ne fun hempty => hcomplete ?_
    rw [hempty]
    rfl

section Plain

variable (hindex : resolver.index = (ScopeIndex.build repo sep).1) (hplain : repo.IsPlain sep)
include hindex hplain

theorem isBlank_of_isVisible (h : resolver.isVisible scope fullName) :
    Text.isBlank fullName = false := by
  rw [isVisible, hindex, ScopeIndex.isVisibleFrom_iff] at h
  obtain ⟨place, -, hdeclared⟩ := h
  obtain ⟨entry, hentry, -, rfl⟩ := ScopeIndex.isDeclaredIn_iff.1 hdeclared
  exact (hplain.fullName hentry).1.isBlank_eq_false (hplain.fullName hentry).2

/-- No name is settled as a blank one, unless by an alias. -/
theorem isBlank_lookupWith {byAlias? : String → Option String}
    (halias : ∀ name fullName, byAlias? name = some fullName → Text.isBlank fullName = false)
    (h : (resolver.lookupWith scope byAlias? name).fullName? = some fullName) :
    Text.isBlank fullName = false := by
  rcases lookupWith_visible hindex (Resolution.mem_names h) with hvisible | ⟨hfound, -⟩
  · exact isBlank_of_isVisible hindex hplain hvisible
  · exact halias _ _ hfound

/-- The target of an alias is not blank when its bases are replaced. -/
theorem isBlank_aliasTarget {target : String} (h : Text.isBlank target = false) :
    Text.isBlank (resolver.aliasTarget scope target) = false := by
  rw [aliasTarget]
  rw [← TypeName.isBlank_render_parse, Bool.eq_false_iff] at h
  refine Bool.eq_false_iff.2 fun hblank => h ?_
  generalize TypeName.parse target = tree at hblank
  obtain ⟨base, args, suffix⟩ := tree
  rw [TypeName.isBlank_render_iff] at hblank ⊢
  obtain ⟨hbase, hargs, hsuffix⟩ := hblank
  rw [expand] at hbase hargs hsuffix
  refine ⟨?_, ?_, hsuffix⟩
  · cases hlookup : (resolver.lookupWithoutAliases scope base).fullName? with
    | none => simpa [hlookup] using hbase
    | some fullName =>
      have hnot := isBlank_lookupWith hindex hplain (by simp) hlookup
      simp [hlookup, hnot] at hbase
  · cases args with
    | nil => rfl
    | cons arg args => simp [expandAll] at hargs

theorem isBlank_aliasMatch? (h : resolver.aliasMatch? scope name = some fullName) :
    Text.isBlank fullName = false := by
  unfold aliasMatch? at h
  split at h
  · cases h
  next table htable =>
    have hsource {kind : ImportKind} {entry : ImportEntry} (hentry : entry ∈ table.ofKind kind) :
        Text.isBlank entry.sourceName = false :=
      isBlank_sourceName hindex htable (List.mem_of_mem_filter hentry)
    have htype {short : String} {entry : ImportEntry}
        (hentry : table.typeAlias? short = some entry) :
        Text.isBlank (resolver.aliasTarget scope entry.sourceName) = false :=
      isBlank_aliasTarget hindex hplain
        (hsource (List.mem_reverse.1 (List.mem_of_find?_eq_some hentry)))
    split at h
    · obtain ⟨entry, hentry, rfl⟩ := Option.map_eq_some_iff.1 h
      exact htype hentry
    next head rest _ =>
      split at h
      next entry hentry =>
        cases h
        exact Separator.isBlank_join _ (htype hentry) rest
      next =>
        obtain ⟨entry, hentry, rfl⟩ := Option.map_eq_some_iff.1 h
        exact Separator.isBlank_join _ (hsource (List.mem_of_find?_eq_some hentry)) rest

/-- **No name is settled as a blank one.** -/
theorem isBlank_lookup (h : (resolver.lookup scope name).fullName? = some fullName) :
    Text.isBlank fullName = false :=
  isBlank_lookupWith hindex hplain (fun _ _ => isBlank_aliasMatch? hindex hplain) h

/-! ## Trees -/

/-- A tree has no blank text when it is resolved, if it had none before. -/
theorem isBlank_render_settle {tree : TypeName}
    (h : Text.isBlank (resolver.settle scope tree).render) : Text.isBlank tree.render := by
  obtain ⟨base, args, suffix⟩ := tree
  have hnil (h : resolver.settleAll scope args = []) : args = [] := by
    rw [settleAll_eq] at h
    exact List.map_eq_nil_iff.1 h
  unfold settle at h
  split at h
  · exact h
  · split at h
    next fullName hlookup =>
      have hnot := isBlank_lookup hindex hplain hlookup
      rw [← TypeName.isBlank_render_parse, Bool.eq_false_iff] at hnot
      rw [compose, TypeName.isBlank_render_iff] at h
      obtain ⟨hbase, hargs, hsuffix⟩ := h
      dsimp only at hbase hargs hsuffix
      rw [Text.isBlank_append, Bool.and_eq_true] at hsuffix
      refine absurd (TypeName.isBlank_render_iff.2 ⟨hbase, ?_, hsuffix.1⟩) hnot
      split at hargs
      · exact hargs
      next hne =>
        rw [hargs] at hne
        exact absurd rfl hne
    next =>
      rw [TypeName.isBlank_render_iff] at h ⊢
      exact ⟨h.1, hnil h.2.1, h.2.2⟩

/-- **A resolved name is blank just if the written one is.** -/
theorem isBlank_resolveTypeName (scope : ResolutionScope) (name : String) :
    Text.isBlank (resolver.resolveTypeName scope name) = Text.isBlank name := by
  rw [resolveTypeName_eq]
  split
  · rfl
  next hblank =>
    rw [Bool.eq_false_iff.2 hblank]
    refine Bool.eq_false_iff.2 fun hrendered => hblank ?_
    rw [← TypeName.isBlank_render_parse]
    exact isBlank_render_settle hindex hplain hrendered

end Plain

end Resolver

end FactGraph
