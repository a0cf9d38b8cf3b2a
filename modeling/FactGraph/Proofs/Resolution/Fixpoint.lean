import FactGraph.Proofs.Name.Rebasing
import FactGraph.Proofs.Resolution.Settled
import FactGraph.Proofs.Resolution.Transparency

/-!
# Resolved names stay as they are

A name is resolved, and what comes of it is resolved again in the same scope. Nothing should change
any more. It does not if the declared names are plain and there are no aliases.

What a base is settled as ends in the base, in whatever step the answer was found. So either it is
the base itself, which has the same answer again, or there is a separator in it, and then the first
step takes it as it is, since it is visible. As plain names are put in the place of plain names, the
text of a resolved name is read as the tree that was resolved. A base that is a generic parameter is
left alone both times, and one that has become the name of a generic parameter is left alone the
second time, so generic parameters may have any names.

## Main definitions

* `RepositoryFact.IsPlain`, `RepositoryFact.IsAliasFree`: plain declarations, and no aliases
* `Resolver.IsAliasFreeAt`: there are no aliases in the file of an occurrence
* `Resolver.IsPlain`, `Resolver.IsPlainAt`: what is looked up is settled as a plain name, in every
  scope or in one
* `Resolver.settle`: a tree with every part resolved, without a memory

## Main results

* `lookup_endsWith`: what a look-up offers ends in the name
* `IsPlain.lookup_settled`: what a name is settled as is settled
* `IsPlain.resolveTypeName_resolveTypeName`: a resolved name stays as it is
-/

namespace FactGraph

/-! ## Plain repositories -/

namespace RepositoryFact

/-- **The declarations are plain**: the namespaces and the enclosing types of the named declarations
are plain paths, their names are plain segments, and the separator is plain. -/
structure IsPlain (sep : Separator) (repo : RepositoryFact) : Prop where
  separator : TypeName.Plain sep.text
  namespaceName : ∀ entry ∈ repo.named, sep.IsPlainPath entry.2.2.trimmedNamespace
  outerName : ∀ entry ∈ repo.named, ∀ outer ∈ entry.2.2.outerName?, sep.IsPlainPath outer
  simpleName : ∀ entry ∈ repo.named, sep.IsPlainSegment entry.2.2.simpleName

/-- **There are no aliases**: no unit imports under another name. -/
def IsAliasFree (repo : RepositoryFact) : Prop :=
  ∀ listing ∈ repo.firstListings, ∀ unit ∈ listing.units, ∀ directive ∈ unit.imports,
    directive.kind.needsAlias = false

namespace IsPlain

variable {sep : Separator} {repo : RepositoryFact} {entry : Nat × String × TypeFact}

theorem declaration (h : repo.IsPlain sep) (hentry : entry ∈ repo.named) :
    entry.2.2.IsPlain sep := by
  have hnamespace := (h.namespaceName entry hentry).isPath
  have houter : ∀ outer ∈ entry.2.2.outerName?, sep.IsPath outer :=
    fun outer houter => (h.outerName entry hentry outer houter).isPath
  have hsimple := (h.simpleName entry hentry).isSegment
  exact ⟨hnamespace, houter, hsimple⟩

/-- The full name of a declaration is plain. -/
theorem fullName (h : repo.IsPlain sep) (hentry : entry ∈ repo.named) :
    TypeName.Plain (entry.2.2.fullName sep) ∧ entry.2.2.fullName sep ≠ "" := by
  have hsimple := h.simpleName entry hentry
  have hnamespace := (h.namespaceName entry hentry).plain h.separator
  have hrelative : TypeName.Plain (entry.2.2.relativeName sep) ∧
      entry.2.2.relativeName sep ≠ "" := by
    unfold TypeFact.relativeName
    split
    next outer houter =>
      have hplain := (h.outerName entry hentry outer houter).plain h.separator
      exact ⟨(hplain.append h.separator).append hsimple.plain, by simp [hsimple.ne_empty]⟩
    next => exact ⟨hsimple.plain, hsimple.ne_empty⟩
  rw [TypeFact.fullName]
  exact ⟨.join h.separator hnamespace hrelative.1, Separator.join_ne_empty _ hrelative.2⟩

end IsPlain

end RepositoryFact

open ResolveM (Alike)

namespace Resolver

-- How a tree is read from a text does not matter here.
attribute [local irreducible] TypeName.parse

variable {repo : RepositoryFact} {sep : Separator} {resolver : Resolver} {scope : ResolutionScope}
  {name fullName base : String}

/-! ## Answers -/

/-- The last step offers names that end in the name. -/
theorem endsWith_of_fallbackMatch
    (h : fullName ∈ (resolver.fallbackMatch scope name).names) :
    resolver.separator.endsWith fullName name := by
  have hmem := Resolution.mem_of_names_ofCandidates h
  cases hfind : ((resolver.searchOrder scope).map (resolver.candidatesIn name)).find?
      fun candidates => !candidates.isEmpty with
  | none => simp [hfind] at hmem
  | some candidates =>
    rw [hfind, Option.getD_some] at hmem
    obtain ⟨project, -, rfl⟩ := List.mem_map.1 (List.mem_of_find?_eq_some hfind)
    rw [candidatesIn_eq, mem_keepFirst] at hmem
    obtain ⟨declaration, hdeclaration, rfl⟩ := List.mem_map.1 hmem
    have hends := (List.mem_filter.1 hdeclaration).2
    rw [Bool.and_eq_true] at hends
    exact hends.2

/-- **Every step offers names that end in the name**, apart from aliases. -/
theorem lookup_endsWith (hdirect : ∀ name, resolver.aliasMatch? scope name = none)
    (h : fullName ∈ (resolver.lookup scope name).names) :
    resolver.separator.endsWith fullName (Text.trim name) := by
  have hself (name : String) : resolver.separator.endsWith name name :=
    Separator.endsWith_iff.2 (.inl rfl)
  unfold lookup lookupWith at h
  dsimp only at h
  split at h
  · cases h
  next hne =>
    split at h
    · obtain rfl := List.mem_singleton.1 h
      exact hself _
    · split at h
      next outer houter =>
        obtain rfl := List.mem_singleton.1 h
        obtain ⟨front, -, rfl⟩ := List.mem_map.1 (List.mem_of_find?_eq_some houter)
        exact Separator.endsWith_join front hne
      next =>
        rw [hdirect] at h
        dsimp only at h
        rcases Resolution.mem_names_orElse h with h | h
        · have hcandidate := Resolution.mem_of_names_ofCandidates h
          have hmem := (mem_foldl_keepFirst.1 hcandidate).resolve_left (by simp)
          obtain ⟨entry, -, rfl⟩ := List.mem_map.1 (List.mem_filter.1 hmem).1
          exact Separator.endsWith_join _ hne
        · exact endsWith_of_fallbackMatch h

/-- **The file of the occurrence has no aliases.** -/
def IsAliasFreeAt (resolver : Resolver) (scope : ResolutionScope) : Prop :=
  ∀ kind : ImportKind, kind.needsAlias → resolver.importEntries scope kind = []

/-- Without aliases in its file, no name stands for anything by an alias. -/
theorem IsAliasFreeAt.aliasMatch?_eq_none (h : resolver.IsAliasFreeAt scope) (name : String) :
    resolver.aliasMatch? scope name = none := by
  have htype := h .typeAlias rfl
  have hnamespace := h .namespaceAlias rfl
  unfold importEntries at htype hnamespace
  unfold aliasMatch?
  split
  · rfl
  next table htable =>
    rw [htable] at htype hnamespace
    dsimp only at htype hnamespace
    have htypes (short : String) : table.typeAlias? short = none := by
      rw [ImportTable.typeAlias?, htype]
      rfl
    have hnamespaces (short : String) : table.namespaceAlias? short = none := by
      rw [ImportTable.namespaceAlias?, hnamespace]
      rfl
    split
    · rw [htypes, Option.map_none]
    next head rest _ =>
      rw [htypes, hnamespaces]
      rfl

/-- **A file whose units give no new name to what they import has no aliases.** -/
theorem isAliasFreeAt_of_units (hindex : resolver.index = (ScopeIndex.build repo sep).1)
    (h : ∀ listing ∈ repo.firstListings, ∀ unit ∈ listing.units, unit.path = scope.filePath →
      ∀ directive ∈ unit.imports, directive.kind.needsAlias = false) :
    resolver.IsAliasFreeAt scope := by
  intro kind hkind
  rw [importEntries, hindex, ScopeIndex.importsOf?_eq]
  split
  next table htable =>
    obtain ⟨unit, hunit, rfl⟩ := List.mem_map.1 (List.mem_of_getLast? htable)
    obtain ⟨hlisted, hpath⟩ := List.mem_filter.1 hunit
    obtain ⟨listing, hlisting, hunit⟩ := List.mem_flatMap.1 hlisted
    refine List.filter_eq_nil_iff.2 fun entry hentry hsame => ?_
    obtain ⟨directive, hdirective, heq⟩ := List.mem_filterMap.1 hentry
    have hkept : entry.kind = directive.kind := by
      unfold ImportTable.entryOf? at heq
      dsimp only at heq
      split at heq
      · cases heq
      · cases heq
        rfl
    obtain rfl := of_decide_eq_true hsame
    rw [hkept, h listing hlisting unit hunit (of_decide_eq_true hpath) directive hdirective]
      at hkind
    cases hkind
  next => rfl

theorem isAliasFreeAt_of_isAliasFree (hindex : resolver.index = (ScopeIndex.build repo sep).1)
    (h : repo.IsAliasFree) (scope : ResolutionScope) : resolver.IsAliasFreeAt scope :=
  isAliasFreeAt_of_units hindex fun listing hlisting unit hunit _ => h listing hlisting unit hunit

/-- What a name is settled as is not empty if it ends in the name. -/
theorem ne_empty_of_lookup (h : (resolver.lookup scope name).fullName? = some fullName)
    (hends : resolver.separator.endsWith fullName (Text.trim name)) : fullName ≠ "" := by
  rintro rfl
  have hempty : Text.trim name = "" := by
    rcases Separator.endsWith_iff.1 hends with hsame | ⟨front, hfront⟩
    · exact hsame.symm
    · rw [String.toList_empty, List.append_eq_nil_iff] at hfront
      exact String.toList_eq_nil_iff.1 hfront.2
  rw [lookup, lookupWith, hempty] at h
  cases h

/-- **What is looked up in a scope is settled as a plain name** that ends in what was looked up. -/
structure IsPlainAt (resolver : Resolver) (scope : ResolutionScope) : Prop where
  lookup_endsWith : ∀ name fullName, (resolver.lookup scope name).fullName? = some fullName →
    resolver.separator.endsWith fullName (Text.trim name)
  lookup_plain : ∀ name fullName, (resolver.lookup scope name).fullName? = some fullName →
    TypeName.Plain fullName

/-- Where there are no aliases, plain declarations are enough. -/
theorem isPlainAt_of_index (hindex : resolver.index = (ScopeIndex.build repo sep).1)
    (hplain : ∀ entry ∈ repo.named, TypeName.Plain (entry.2.2.fullName sep))
    (halias : resolver.IsAliasFreeAt scope) : resolver.IsPlainAt scope where
  lookup_endsWith name fullName h :=
    Resolver.lookup_endsWith halias.aliasMatch?_eq_none (Resolution.mem_names h)
  lookup_plain name fullName h := by
    have hvisible := lookup_visible hindex (Resolution.mem_names h)
      (.inr (halias.aliasMatch?_eq_none _))
    rw [isVisible, hindex, ScopeIndex.isVisibleFrom_iff] at hvisible
    obtain ⟨place, -, hdeclared⟩ := hvisible
    obtain ⟨entry, hentry, -, rfl⟩ := ScopeIndex.isDeclaredIn_iff.1 hdeclared
    exact hplain entry hentry

/-- **What is looked up is settled as a plain name**, which is visible and ends in what was looked
up. -/
structure IsPlain (resolver : Resolver) : Prop where
  lookup_visible : ∀ scope name fullName,
    (resolver.lookup scope name).fullName? = some fullName → resolver.isVisible scope fullName
  lookup_endsWith : ∀ scope name fullName,
    (resolver.lookup scope name).fullName? = some fullName →
      resolver.separator.endsWith fullName (Text.trim name)
  visible_plain : ∀ scope fullName, resolver.isVisible scope fullName →
    TypeName.Plain fullName ∧ fullName ≠ ""

/-- The resolver of a plain repository without aliases is plain. -/
theorem isPlain_of_index (hindex : resolver.index = (ScopeIndex.build repo sep).1)
    (hplain : repo.IsPlain sep) (halias : repo.IsAliasFree) : resolver.IsPlain where
  lookup_visible scope name fullName h := by
    have hfree := isAliasFreeAt_of_isAliasFree hindex halias scope
    exact Resolver.lookup_visible hindex (Resolution.mem_names h)
      (.inr (hfree.aliasMatch?_eq_none _))
  lookup_endsWith scope name fullName h := by
    have hfree := isAliasFreeAt_of_isAliasFree hindex halias scope
    exact Resolver.lookup_endsWith hfree.aliasMatch?_eq_none (Resolution.mem_names h)
  visible_plain scope fullName h := by
    rw [isVisible, hindex, ScopeIndex.isVisibleFrom_iff] at h
    obtain ⟨place, -, hdeclared⟩ := h
    obtain ⟨entry, hentry, -, rfl⟩ := ScopeIndex.isDeclaredIn_iff.1 hdeclared
    exact hplain.fullName hentry

namespace IsPlain

variable (h : resolver.IsPlain)
include h

/-- What a name is settled as is plain in every scope. -/
theorem isPlainAt (scope : ResolutionScope) : resolver.IsPlainAt scope where
  lookup_endsWith := h.lookup_endsWith scope
  lookup_plain name fullName hlookup :=
    (h.visible_plain scope fullName (h.lookup_visible scope name fullName hlookup)).1

/-- **What a name is settled as is settled**: it has a separator in it and is taken as it is, or it
is the name itself. -/
theorem lookup_settled (hlookup : (resolver.lookup scope name).fullName? = some fullName) :
    (resolver.lookup scope fullName).fullName? = some fullName := by
  rcases Separator.occursIn_of_endsWith (h.lookup_endsWith scope name fullName hlookup) with
    rfl | hqualified
  · have hsame : resolver.lookup scope (Text.trim name) = resolver.lookup scope name := by
      rw [lookup, lookup, lookupWith, lookupWith, Text.trim_trim]
    rw [hsame, hlookup]
  · have htrim := ((h.isPlainAt scope).lookup_plain name fullName hlookup).trim
    have hvisible := h.lookup_visible scope name fullName hlookup
    rw [lookup_of_isVisible htrim hqualified hvisible]
    rfl

end IsPlain

/-! ## Trees -/

variable (resolver scope)

mutual

/-- **The tree of a type name with every part resolved**, without a memory. -/
def settle : TypeName → TypeName
  | ⟨base, args, suffix⟩ =>
    if args.isEmpty && scope.typeParameters.contains base then ⟨base, args, suffix⟩
    else
      match (resolver.lookup scope base).fullName? with
      | some fullName => compose fullName (settleAll args) suffix
      | none => ⟨base, settleAll args, suffix⟩

/-- The trees of a list with every part resolved. -/
def settleAll : List TypeName → List TypeName
  | [] => []
  | arg :: args => settle arg :: settleAll args

end

/-- What a base is replaced by: a generic parameter and a base that stands for nothing stay as they
are. -/
def settleBase (isGeneric : Bool) (base : String) : String :=
  if !isGeneric && scope.typeParameters.contains base then base
  else (resolver.lookup scope base).fullName?.getD base

variable {resolver scope}

theorem settleAll_eq (trees : List TypeName) :
    resolver.settleAll scope trees = trees.map (resolver.settle scope) := by
  induction trees with
  | nil => rw [settleAll, List.map_nil]
  | cons tree trees ih => rw [settleAll, ih, List.map_cons]

namespace IsPlainAt

variable (h : resolver.IsPlainAt scope)
include h

/-- With plain names, the base of a tree is replaced and nothing else is put in. -/
theorem settle_mk (base : String) (args : List TypeName) (suffix : String) :
    resolver.settle scope ⟨base, args, suffix⟩ =
      ⟨resolver.settleBase scope (!args.isEmpty) base, args.map (resolver.settle scope),
        suffix⟩ := by
  rw [settle, settleBase, settleAll_eq, Bool.not_not]
  split
  next hparameter =>
    rw [Bool.and_eq_true, List.isEmpty_iff] at hparameter
    rw [hparameter.1, List.map_nil]
  next =>
    cases hlookup : (resolver.lookup scope base).fullName? with
    | none => rfl
    | some fullName =>
      -- A plain full name has no arguments of its own, so those at the occurrence stay.
      have hplain := h.lookup_plain base fullName hlookup
      dsimp only
      rw [compose, parse_of_plain hplain, Option.getD_some]
      cases args <;> simp

/-- **A base is replaced by a plain one only if it is plain itself.** -/
theorem replacesBase_settleBase (isGeneric : Bool) {base : String}
    (hbase : Text.Bare base.toList) :
    TypeName.ReplacesBase base (resolver.settleBase scope isGeneric base) := by
  unfold settleBase
  split
  · exact .inl rfl
  · cases hlookup : (resolver.lookup scope base).fullName? with
    | none => exact .inl rfl
    | some fullName =>
      have hplain := h.lookup_plain base fullName hlookup
      have hends := h.lookup_endsWith base fullName hlookup
      have hne := ne_empty_of_lookup hlookup hends
      rw [Text.trim_eq_self_iff.2 hbase] at hends
      exact .inr ⟨Separator.plain_of_endsWith hends hplain, hplain, hne⟩

omit h in
mutual

/-- **A resolved tree takes the place of the written one.** -/
theorem replaces_settle (h : resolver.IsPlainAt scope) :
    (tree : TypeName) → tree.Parsed → tree.Replaces (resolver.settle scope tree)
  | ⟨base, args, suffix⟩ => fun hparsed => by
    rw [h.settle_mk]
    refine TypeName.replaces_mk hparsed
      (h.replacesBase_settleBase _ (TypeName.bare_base hparsed)) ?_
    exact replaces_settleAll h args (TypeName.parsed_args hparsed)

theorem replaces_settleAll (h : resolver.IsPlainAt scope) :
    (trees : List TypeName) → (∀ tree ∈ trees, tree.Parsed) →
      ∀ tree ∈ trees, tree.Replaces (resolver.settle scope tree)
  | [] => fun _ => nofun
  | tree :: trees => fun hparsed => by
    obtain ⟨hfirst, hothers⟩ := List.forall_mem_cons.1 hparsed
    exact List.forall_mem_cons.2
      ⟨replaces_settle h tree hfirst, replaces_settleAll h trees hothers⟩

end

end IsPlainAt

namespace IsPlain

variable (h : resolver.IsPlain)
include h

/-- A replaced base stays as it is. -/
theorem settleBase_settleBase (isGeneric : Bool) (base : String) :
    resolver.settleBase scope isGeneric (resolver.settleBase scope isGeneric base) =
      resolver.settleBase scope isGeneric base := by
  by_cases hparameter : (!isGeneric && scope.typeParameters.contains base) = true
  · simp only [settleBase, if_pos hparameter]
  · cases hlookup : (resolver.lookup scope base).fullName? with
    | none => simp only [settleBase, if_neg hparameter, hlookup, Option.getD_none]
    | some fullName =>
      have hsettled := h.lookup_settled hlookup
      simp only [settleBase, if_neg hparameter, hlookup, Option.getD_some, hsettled, ite_self]

omit h in
mutual

/-- A resolved tree stays as it is. -/
theorem settle_settle (h : resolver.IsPlain) :
    (tree : TypeName) → resolver.settle scope (resolver.settle scope tree) =
      resolver.settle scope tree
  | ⟨base, args, suffix⟩ => by
    have hargs : (args.map (resolver.settle scope)).isEmpty = args.isEmpty := by simp
    rw [(h.isPlainAt scope).settle_mk, (h.isPlainAt scope).settle_mk, hargs,
      h.settleBase_settleBase, List.map_map]
    exact congrArg (TypeName.mk _ · _) (List.map_congr_left (settle_settleAll h args))

theorem settle_settleAll (h : resolver.IsPlain) :
    (trees : List TypeName) → ∀ tree ∈ trees,
      resolver.settle scope (resolver.settle scope tree) = resolver.settle scope tree
  | [] => nofun
  | tree :: trees => List.forall_mem_cons.2 ⟨settle_settle h tree, settle_settleAll h trees⟩

end

end IsPlain

/-! ## Written names -/

open ResolveM (settles)

mutual

/-- **Every part of a tree is resolved as without a memory.** -/
theorem resolveTree_settles (resolver : Resolver) (scope : ResolutionScope) :
    (tree : TypeName) → ResolveM.Settles (Memory.Faithful resolver (· = scope))
      (resolver.resolveTree scope tree) (resolver.settle scope tree)
  | ⟨base, args, suffix⟩ => by
    have hbase : ResolveM.Settles (Memory.Faithful resolver (· = scope))
        (resolver.lookupOnce scope base) (resolver.lookup scope base).fullName? := by
      refine lookupOnce_settles ?_ ?_
      · rfl
      · rintro scope' rfl - -
        rfl
    unfold resolveTree settle
    refine (resolveTrees_settles resolver scope args).bind ?_
    split
    · exact (settles _).same_pure _
    · refine hbase.bind ?_
      cases (resolver.lookup scope base).fullName? with
      | some fullName => exact (settles _).same_pure _
      | none => exact (settles _).same_pure _

theorem resolveTrees_settles (resolver : Resolver) (scope : ResolutionScope) :
    (trees : List TypeName) → ResolveM.Settles (Memory.Faithful resolver (· = scope))
      (resolver.resolveTrees scope trees) (resolver.settleAll scope trees)
  | [] => by
    unfold resolveTrees settleAll
    exact (settles _).same_pure []
  | tree :: trees => by
    unfold resolveTrees settleAll
    refine (resolveTree_settles resolver scope tree).bind ?_
    exact (resolveTrees_settles resolver scope trees).bind ((settles _).same_pure _)

end

/-- **A written name, resolved without a memory.** -/
theorem resolveTypeName_eq (resolver : Resolver) (scope : ResolutionScope) (name : String) :
    resolver.resolveTypeName scope name =
      if Text.isBlank name then name
      else (resolver.settle scope (TypeName.parse name)).render := by
  unfold resolveTypeName resolveName
  split
  · rfl
  · have htree := resolveTree_settles resolver scope (TypeName.parse name)
    exact congrArg TypeName.render (htree {} (by simp [Memory.Faithful])).1

/-- Only the empty tree is resolved to the empty tree. -/
theorem IsPlainAt.eq_empty_of_settle (h : resolver.IsPlainAt scope) {tree : TypeName}
    (hparsed : tree.Parsed) (hempty : resolver.settle scope tree = ⟨"", [], ""⟩) :
    tree = ⟨"", [], ""⟩ := by
  obtain ⟨base, args, suffix⟩ := tree
  rw [h.settle_mk, TypeName.mk.injEq, List.map_eq_nil_iff] at hempty
  obtain ⟨hbase, rfl, rfl⟩ := hempty
  have hbare : Text.Bare base.toList := TypeName.bare_base hparsed
  rcases h.replacesBase_settleBase _ hbare with hsame | ⟨-, -, hne⟩
  · rw [← hsame, hbase]
  · exact absurd hbase hne

/-- **A resolved name stays as it is**, and it is blank only if the written one is. -/
theorem IsPlain.resolveTypeName_resolveTypeName (h : resolver.IsPlain) (scope : ResolutionScope)
    (name : String) :
    resolver.resolveTypeName scope (resolver.resolveTypeName scope name) =
        resolver.resolveTypeName scope name ∧
      (Text.isBlank name = false → Text.isBlank (resolver.resolveTypeName scope name) = false) := by
  rw [resolveTypeName_eq resolver scope name]
  split
  next hblank =>
    rw [resolveTypeName_eq, if_pos hblank]
    exact ⟨rfl, id⟩
  next hblank =>
    have hparsed := TypeName.parsed_parse name
    have hreplaces : (TypeName.parse name).Replaces (resolver.settle scope (TypeName.parse name)) :=
      (h.isPlainAt scope).replaces_settle _ hparsed
    have hread := hreplaces.read
    refine ⟨?_, fun _ => Bool.eq_false_iff.2 fun hrendered => hblank ?_⟩
    · rw [resolveTypeName_eq, hread, h.settle_settle, ite_self]
    · have hempty := TypeName.parse_eq_empty_iff.2 hrendered
      rw [hread] at hempty
      exact TypeName.parse_eq_empty_iff.1
        ((h.isPlainAt scope).eq_empty_of_settle hparsed hempty)

end Resolver

end FactGraph
