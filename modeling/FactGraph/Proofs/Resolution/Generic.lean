import FactGraph.Proofs.Resolution.Fixpoint

/-!
# Generic names

A generic name is resolved part by part. What comes of it is written down and read again, so it
matters that it is divided at the same places as before. In a file without aliases, among plain
declarations, it is: its tree has the same shape, arguments and suffixes, and each base is replaced
on its own (`parse_resolveTypeName`).

A reference can give its arguments as a list too. Then its head is resolved as if it had none, and
the two ways only agree for some heads (`fullName_mapNames`). What a head stands for must have no
arguments and no suffix of its own, as the target of a type alias may: written in the name, the
arguments replace those of the target, and given as a list they come behind it. A head that is the
name of a generic parameter must not stand for anything else, since it is left alone without
arguments only.

## Main definitions

* `TypeName.mapBases`: a tree with its bases replaced
* `TypeRef.tree`, `TypeRef.Spelled`: a reference as a tree, and references with plain names
* `Memory.answer`: what a base stands for, from memory or else by a look-up
* `Resolver.FitsHead`: a head that is resolved alike with arguments and without

## Main results

* `Resolver.parse_resolveTypeName`: a generic name is resolved argument by argument
* `Resolver.fullName_mapNames`: both ways to give the arguments lead to the same name
-/

namespace FactGraph

-- How a tree is read from a text does not matter here.
attribute [local irreducible] TypeName.parse

/-! ## Argument by argument -/

namespace TypeName

mutual

/-- **The tree with its bases replaced**, at every depth. Whether there are arguments may matter
for the new base. -/
def mapBases (replace : (isGeneric : Bool) → String → String) : TypeName → TypeName
  | ⟨base, args, suffix⟩ => ⟨replace (!args.isEmpty) base, mapBasesAll replace args, suffix⟩

/-- The trees of a list with their bases replaced. -/
def mapBasesAll (replace : (isGeneric : Bool) → String → String) : List TypeName → List TypeName
  | [] => []
  | arg :: args => mapBases replace arg :: mapBasesAll replace args

end

end TypeName

namespace Resolver

variable {repo : RepositoryFact} {sep : Separator} {resolver : Resolver} {scope : ResolutionScope}

mutual

/-- With plain names, the bases of a tree are replaced and nothing else happens to it. -/
theorem IsPlainAt.settle_eq (h : resolver.IsPlainAt scope) : (tree : TypeName) →
    resolver.settle scope tree = tree.mapBases (resolver.settleBase scope)
  | ⟨base, args, suffix⟩ => by
    rw [h.settle_mk, TypeName.mapBases, ← settleAll_eq, IsPlainAt.settleAll_eq_mapBasesAll h args]

theorem IsPlainAt.settleAll_eq_mapBasesAll (h : resolver.IsPlainAt scope) :
    (trees : List TypeName) → resolver.settleAll scope trees =
      TypeName.mapBasesAll (resolver.settleBase scope) trees
  | [] => by rw [settleAll, TypeName.mapBasesAll]
  | tree :: trees => by
    rw [settleAll, TypeName.mapBasesAll, IsPlainAt.settle_eq h tree,
      IsPlainAt.settleAll_eq_mapBasesAll h trees]

end

/-- **A generic name is resolved argument by argument** in a file without aliases, among plain
declarations: a generic parameter without arguments stays as it is, and any other base is replaced
by what it stands for, if there is anything. -/
theorem parse_resolveTypeName (resolver : Resolver)
    (hindex : resolver.index = (ScopeIndex.build repo sep).1)
    (hplain : ∀ entry ∈ repo.named, TypeName.Plain (entry.2.2.fullName sep))
    (hfree : resolver.IsAliasFreeAt scope) (name : String) :
    TypeName.parse (resolver.resolveTypeName scope name) =
      (TypeName.parse name).mapBases fun isGeneric base =>
        if !isGeneric && scope.typeParameters.contains base then base
        else (resolver.lookup scope base).fullName?.getD base := by
  have hat : resolver.IsPlainAt scope := isPlainAt_of_index hindex hplain hfree
  change _ = (TypeName.parse name).mapBases (resolver.settleBase scope)
  rw [resolveTypeName_eq, ← hat.settle_eq]
  split
  next hblank =>
    rw [TypeName.parse_eq_empty_iff.2 hblank, hat.settle_mk, settleBase, lookup_empty]
    simp [Resolution.fullName?]
  next => exact (hat.replaces_settle _ (TypeName.parsed_parse name)).read

/-- A shop with maps, keys and items, and a file in which a table is a map of keys. -/
def tables : RepositoryFact where
  solutions := [{
    path := "all"
    projects := [{
      path := "shop"
      units := [
        { path := "shop/maps", types := [goods "Map", goods "Key", goods "Item"] },
        { path := "shop/tables", imports := [.typeAlias "Table" "Shop.Map<Shop.Key>"] }] }] }]
where
  /-- A type of the shop. -/
  goods (name : String) : TypeFact :=
    { name, namespaceName := "Shop" }

/-- The resolver of the tables. -/
def tableResolver : Resolver :=
  ⟨(ScopeIndex.build tables .dot).1, .referencesThenGlobal⟩

/-- An occurrence in a file of the shop, with a generic parameter. -/
def tableScope (filePath : String) : ResolutionScope :=
  ⟨0, "shop", filePath, "Shop", [], ["T"]⟩

/-- A map is resolved argument by argument. -/
theorem maps_argumentwise :
    let scope := tableScope "shop/maps"
    ((∀ entry ∈ tables.named, TypeName.Plain (entry.2.2.fullName .dot)) ∧
        tableResolver.IsAliasFreeAt scope) ∧
      tableResolver.resolveTypeName scope " Map<Key[] ,List<T>>?" =
        "Shop.Map<Shop.Key[], List<T>>?" ∧
      TypeName.parse "Shop.Map<Shop.Key[], List<T>>?" =
        (TypeName.parse " Map<Key[] ,List<T>>?").mapBases fun isGeneric base =>
          if !isGeneric && scope.typeParameters.contains base then base
          else (tableResolver.lookup scope base).fullName?.getD base := by
  intro scope
  have hnamed : tables.named = [(0, "shop/maps", tables.goods "Map"),
      (0, "shop/maps", tables.goods "Key"), (0, "shop/maps", tables.goods "Item")] := rfl
  have hplain : ∀ entry ∈ tables.named, TypeName.Plain (entry.2.2.fullName .dot) := by
    simp only [hnamed, List.forall_mem_cons]
    exact ⟨by decide, by decide, by decide, nofun⟩
  have hfree : tableResolver.IsAliasFreeAt scope := isAliasFreeAt_of_units rfl (by decide)
  have hresolved : tableResolver.resolveTypeName scope " Map<Key[] ,List<T>>?" =
      "Shop.Map<Shop.Key[], List<T>>?" := by decide +kernel
  have hread := parse_resolveTypeName tableResolver rfl hplain hfree " Map<Key[] ,List<T>>?"
  rw [hresolved] at hread
  exact ⟨⟨hplain, hfree⟩, hresolved, hread⟩

end Resolver

/-! ## References with a list of arguments -/

namespace TypeRef

mutual

/-- The reference as a tree, whose text is the single name. -/
def tree : TypeRef → TypeName
  | ⟨name, args⟩ => ⟨name, trees args, ""⟩

/-- The references of a list as trees. -/
def trees : List TypeRef → List TypeName
  | [] => []
  | arg :: args => tree arg :: trees args

end

theorem trees_eq (args : List TypeRef) : trees args = args.map tree := by
  induction args with
  | nil => rw [trees, List.map_nil]
  | cons arg args ih => rw [trees, ih, List.map_cons]

theorem fullNameTail_eq {args : List TypeRef} {trees : List TypeName}
    (h : args.map fullName = trees.map TypeName.render) :
    fullNameTail args = TypeName.renderTail trees := by
  induction args generalizing trees with
  | nil =>
    obtain rfl := List.map_eq_nil_iff.1 h.symm
    rw [fullNameTail, TypeName.renderTail]
  | cons arg args ih =>
    obtain ⟨tree, trees, rfl, htree, htrees⟩ := List.map_eq_cons_iff.1 h.symm
    rw [fullNameTail, TypeName.renderTail, htree, ih htrees.symm]

/-- A reference has the text of a tree if their arguments have the same texts. -/
theorem fullName_eq_render (name : String) {args : List TypeRef} {trees : List TypeName}
    (h : args.map fullName = trees.map TypeName.render) :
    fullName ⟨name, args⟩ = TypeName.render ⟨name, trees, ""⟩ := by
  cases args with
  | nil =>
    obtain rfl := List.map_eq_nil_iff.1 h.symm
    rw [fullName, TypeName.render, String.append_empty]
  | cons arg args =>
    obtain ⟨tree, trees, rfl, htree, htrees⟩ := List.map_eq_cons_iff.1 h.symm
    rw [fullName, TypeName.render, htree, fullNameTail_eq htrees.symm, String.append_empty]

mutual

/-- **The single name is the text of the tree.** -/
theorem render_tree : (ref : TypeRef) → ref.tree.render = ref.fullName
  | ⟨name, args⟩ => by
    rw [tree, fullName_eq_render name (render_trees args).symm]

theorem render_trees : (args : List TypeRef) →
    (trees args).map TypeName.render = args.map fullName
  | [] => by rw [trees, List.map_nil, List.map_nil]
  | arg :: args => by
    rw [trees, List.map_cons, List.map_cons, render_tree arg, render_trees args]

end

/-- **A reference whose names are plain**, at every depth, and whose heads are as wanted. -/
inductive Spelled (fits : String → Prop) : TypeRef → Prop
  | mk {name : String} {args : List TypeRef} (hne : name ≠ "") (hplain : TypeName.Plain name)
      (hfits : args ≠ [] → fits name) (hargs : ∀ arg ∈ args, Spelled fits arg) :
      Spelled fits ⟨name, args⟩

variable {fits : String → Prop} {ref : TypeRef}

/-- The tree is of the documented form. -/
theorem Spelled.documented (h : ref.Spelled fits) : ref.tree.Documented ∧ ref.tree.RanksPlain := by
  induction h with
  | @mk name args hne hplain _ _ ih =>
    rw [tree, trees_eq]
    constructor
    · refine .mk hne hplain .nil fun tree htree => ?_
      obtain ⟨arg, harg, rfl⟩ := List.mem_map.1 htree
      exact (ih arg harg).1
    · refine .mk (by simp) fun tree htree => ?_
      obtain ⟨arg, harg, rfl⟩ := List.mem_map.1 htree
      exact (ih arg harg).2

/-- The single name is read as the tree. -/
theorem Spelled.parse_fullName (h : ref.Spelled fits) : TypeName.parse ref.fullName = ref.tree := by
  obtain ⟨hdocumented, hranks⟩ := h.documented
  rw [← render_tree]
  exact (hdocumented.read hranks.args).1

theorem Spelled.isBlank_fullName (h : ref.Spelled fits) : Text.isBlank ref.fullName = false := by
  refine Bool.eq_false_iff.2 fun hblank => ?_
  have hempty := TypeName.parse_eq_empty_iff.2 hblank
  rw [h.parse_fullName] at hempty
  cases h with
  | mk hne _ _ _ =>
    rw [tree, TypeName.mk.injEq] at hempty
    exact hne hempty.1

end TypeRef

/-! ## Two ways to give the arguments -/

/-- **What a base stands for** at an occurrence, from memory or else by a look-up. -/
def Memory.answer (memory : Memory) (resolver : Resolver) (scope : ResolutionScope)
    (base : String) : Option String :=
  match memory.answers.lookup (scope.filePath, scope.place, base) with
  | some answer => answer
  | none => (resolver.lookup scope base).fullName?

/-- The memory gives the same answers at an occurrence as another one. -/
def Memory.Answers (memory : Memory) (resolver : Resolver) (scope : ResolutionScope)
    (later : Memory) : Prop :=
  later.answer resolver scope = memory.answer resolver scope

/-- What was looked up and is remembered is the same answer as before. -/
theorem Memory.answer_remember {memory : Memory} (resolver : Resolver) {scope : ResolutionScope}
    {base : String} (hnew : memory.answers.lookup (scope.filePath, scope.place, base) = none)
    (outcome : Resolution) :
    ((memory.reportAmbiguity scope base outcome).remember (scope.filePath, scope.place, base)
      (resolver.lookup scope base).fullName?).answer resolver scope =
        memory.answer resolver scope := by
  funext other
  rw [answer, answer, remember, reportAmbiguity_answers, List.lookup_cons]
  by_cases hsame : other = base
  · rw [hsame, beq_self_eq_true, hnew]
  · have hkey : ((scope.filePath, scope.place, other) == (scope.filePath, scope.place, base)) =
        false := by
      simp [hsame]
    rw [hkey]

namespace Resolver

open ResolveM (settles)

variable {resolver : Resolver} {scope : ResolutionScope} {memory : Memory}

/-- **A look-up gives the answer and changes no other**, since what it remembers is the answer. -/
theorem lookupOnce_answer (base : String) : ResolveM.Settles (memory.Answers resolver scope)
    (resolver.lookupOnce scope base) (memory.answer resolver scope base) := by
  intro later hlater
  rw [← show later.answer resolver scope = memory.answer resolver scope from hlater, lookupOnce]
  simp only [StateT.run_bind, StateT.run_get, pure_bind]
  cases hknown : later.answers.lookup (scope.filePath, scope.place, base) with
  | some answer =>
    rw [Memory.answer, hknown]
    exact ⟨rfl, hlater⟩
  | none =>
    have hkept := Memory.answer_remember resolver hknown (resolver.lookup scope base)
    rw [Memory.answer, hknown]
    simp only [StateT.run_bind, StateT.run_modify, StateT.run_pure, pure_bind]
    dsimp only [pure, Id.run]
    exact ⟨rfl, hkept.trans hlater⟩

/-- **A head that is resolved alike with arguments and without**: what it stands for has no
arguments and no suffix, and a generic parameter stands for nothing else. -/
def FitsHead (scope : ResolutionScope) (answer : Option String) (head : String) : Prop :=
  ∀ fullName ∈ answer, (TypeName.parse fullName).args = [] ∧
    (TypeName.parse fullName).suffix = "" ∧ (head ∈ scope.typeParameters → fullName = head)

/-- The tree of an occurrence, from its resolved arguments and the answer for its base. -/
def composeAnswer (scope : ResolutionScope) (answer : Option String) (base : String)
    (args : List TypeName) : TypeName :=
  if args.isEmpty && scope.typeParameters.contains base then ⟨base, [], ""⟩
  else
    match answer with
    | some fullName => compose fullName args ""
    | none => ⟨base, args, ""⟩

/-- A head that fits has the text of its base. -/
theorem composeAnswer_eq {answer : Option String} {head : String} {args : List TypeName}
    (hhead : TypeName.Plain head) (hfits : FitsHead scope answer head) (hargs : args ≠ []) :
    composeAnswer scope answer head args =
      ⟨(composeAnswer scope answer head []).render, args, ""⟩ := by
  have hempty : args.isEmpty = false := by simpa using hargs
  unfold composeAnswer
  rw [hempty, Bool.false_and, List.isEmpty_nil, Bool.true_and, if_neg Bool.false_ne_true]
  cases answer with
  | none => simp [TypeName.render]
  | some fullName =>
    obtain ⟨hnone, hsuffix, hparameter⟩ := hfits fullName rfl
    dsimp only [compose]
    rw [hempty, hnone, hsuffix, if_neg Bool.false_ne_true]
    split
    next hcontains =>
      obtain rfl := hparameter (by simpa using hcontains)
      rw [parse_of_plain hhead, TypeName.render, String.append_empty, String.append_empty]
    next => simp [TypeName.render]

section

variable {holds : Memory → Prop} {answer? : String → Option String}
  (hlookup : ∀ base, ResolveM.Settles holds (resolver.lookupOnce scope base) (answer? base))
include hlookup

/-- A tree without a suffix is put together from its arguments and the answer for its base. -/
theorem resolveTree_composeAnswer {base : String} {args trees : List TypeName}
    (hargs : ResolveM.Settles holds (resolver.resolveTrees scope args) trees)
    (hempty : args = [] ↔ trees = []) :
    ResolveM.Settles holds (resolver.resolveTree scope ⟨base, args, ""⟩)
      (composeAnswer scope (answer? base) base trees) := by
  have hsame : args.isEmpty = trees.isEmpty := by
    rw [Bool.eq_iff_iff, List.isEmpty_iff, List.isEmpty_iff, hempty]
  unfold composeAnswer
  rw [resolveTree, hsame]
  refine hargs.bind ?_
  split
  next hparameter =>
    rw [Bool.and_eq_true, List.isEmpty_iff] at hparameter
    rw [hempty.2 hparameter.1]
    exact (settles holds).same_pure _
  next =>
    refine (hlookup base).bind ?_
    cases answer? base with
    | some fullName => exact (settles holds).same_pure _
    | none => exact (settles holds).same_pure _

/-- A plain name is resolved to the answer for it. -/
theorem resolveName_composeAnswer {name : String} (hne : name ≠ "") (hplain : TypeName.Plain name) :
    ResolveM.Settles holds (resolver.resolveName scope name)
      (composeAnswer scope (answer? name) name []).render := by
  rw [resolveName, hplain.isBlank_eq_false hne, if_neg Bool.false_ne_true, parse_of_plain hplain]
  have hnone : ResolveM.Settles holds (resolver.resolveTrees scope []) [] := by
    rw [resolveTrees]
    exact (settles holds).same_pure _
  exact (resolveTree_composeAnswer hlookup hnone Iff.rfl).bind ((settles holds).same_pure _)

omit hlookup in
mutual

/-- **Both ways to give the arguments lead to the same name**, part by part. -/
theorem mapNames_resolveTree
    (hlookup : ∀ base, ResolveM.Settles holds (resolver.lookupOnce scope base) (answer? base)) :
    (ref : TypeRef) → ref.Spelled (fun name => FitsHead scope (answer? name) name) →
      ∃ (tree : TypeName) (resolved : TypeRef),
        ResolveM.Settles holds (resolver.resolveTree scope ref.tree) tree ∧
        ResolveM.Settles holds (ref.mapNames (resolver.resolveName scope)) resolved ∧
        resolved.fullName = tree.render
  | ⟨name, args⟩, .mk hne hplain hfits hspelled => by
    obtain ⟨trees, refs, htrees, hrefs, htexts, hlength⟩ :=
      mapNames_resolveTrees hlookup args hspelled
    have hempty : TypeRef.trees args = [] ↔ trees = [] := by
      rw [TypeRef.trees_eq, List.map_eq_nil_iff, ← List.length_eq_zero_iff, ← hlength,
        List.length_eq_zero_iff]
    refine ⟨composeAnswer scope (answer? name) name trees,
      ⟨(composeAnswer scope (answer? name) name []).render, refs⟩, ?_, ?_, ?_⟩
    · rw [TypeRef.tree]
      exact resolveTree_composeAnswer hlookup htrees hempty
    · rw [TypeRef.mapNames]
      refine (resolveName_composeAnswer hlookup hne hplain).bind ?_
      exact hrefs.bind ((settles holds).same_pure _)
    · rw [TypeRef.fullName_eq_render _ htexts]
      by_cases hnil : trees = []
      · rw [hnil, TypeName.render, String.append_empty]
      · have hargs : args ≠ [] := by
          rintro rfl
          exact hnil (hempty.1 (by rw [TypeRef.trees]))
        rw [← composeAnswer_eq hplain (hfits hargs) hnil]

theorem mapNames_resolveTrees
    (hlookup : ∀ base, ResolveM.Settles holds (resolver.lookupOnce scope base) (answer? base)) :
    (args : List TypeRef) →
      (∀ arg ∈ args, arg.Spelled (fun name => FitsHead scope (answer? name) name)) →
      ∃ (trees : List TypeName) (refs : List TypeRef),
        ResolveM.Settles holds (resolver.resolveTrees scope (TypeRef.trees args)) trees ∧
        ResolveM.Settles holds (TypeRef.mapNamesAll (resolver.resolveName scope) args) refs ∧
        refs.map TypeRef.fullName = trees.map TypeName.render ∧ trees.length = args.length
  | [], _ => by
    refine ⟨[], [], ?_, ?_, rfl, rfl⟩
    · rw [TypeRef.trees, resolveTrees]
      exact (settles holds).same_pure _
    · rw [TypeRef.mapNamesAll]
      exact (settles holds).same_pure _
  | arg :: args, hspelled => by
    obtain ⟨hfirst, hothers⟩ := List.forall_mem_cons.1 hspelled
    obtain ⟨tree, ref, htree, href, htext⟩ := mapNames_resolveTree hlookup arg hfirst
    obtain ⟨trees, refs, htrees, hrefs, htexts, hlength⟩ :=
      mapNames_resolveTrees hlookup args hothers
    refine ⟨tree :: trees, ref :: refs, ?_, ?_, ?_, ?_⟩
    · rw [TypeRef.trees, resolveTrees]
      exact htree.bind (htrees.bind ((settles holds).same_pure _))
    · rw [TypeRef.mapNamesAll]
      exact href.bind (hrefs.bind ((settles holds).same_pure _))
    · rw [List.map_cons, List.map_cons, htext, htexts]
    · rw [List.length_cons, List.length_cons, hlength]

end

end

/-- **Both ways to give the arguments lead to the same name**, from the same memory, if the heads
fit: resolving the parts of a reference and putting them together is resolving the single name. -/
theorem fullName_mapNames (resolver : Resolver) (scope : ResolutionScope) (memory : Memory)
    (ref : TypeRef)
    (h : ref.Spelled fun name => FitsHead scope (memory.answer resolver scope name) name) :
    ((ref.mapNames (resolver.resolveName scope)).run memory).1.fullName =
      ((resolver.resolveName scope ref.fullName).run memory).1 := by
  obtain ⟨tree, resolved, htree, hresolved, htext⟩ :=
    mapNames_resolveTree lookupOnce_answer ref h
  have hstart : memory.Answers resolver scope memory := rfl
  have hname : ResolveM.Settles (memory.Answers resolver scope)
      (resolver.resolveName scope ref.fullName) tree.render := by
    rw [resolveName, h.isBlank_fullName, if_neg Bool.false_ne_true, h.parse_fullName]
    exact htree.bind ((settles _).same_pure _)
  rw [(hresolved memory hstart).1, (hname memory hstart).1]
  exact htext

/-- A map of keys and lists of items, whose arguments are given as lists. -/
def mapRef : TypeRef :=
  ⟨"Map", [⟨"Key", []⟩, ⟨"List", [⟨"Item", []⟩]⟩]⟩

/-- For the map, both ways lead to the same name. -/
theorem mapRef_together :
    let scope := tableScope "shop/maps"
    mapRef.Spelled (fun name =>
        FitsHead scope (({} : Memory).answer tableResolver scope name) name) ∧
      mapRef.fullName = "Map<Key, List<Item>>" ∧
      ((mapRef.mapNames (tableResolver.resolveName scope)).run {}).1.fullName =
        "Shop.Map<Shop.Key, List<Shop.Item>>" ∧
      ((tableResolver.resolveName scope mapRef.fullName).run {}).1 =
        "Shop.Map<Shop.Key, List<Shop.Item>>" := by
  intro scope
  have hmap : ({} : Memory).answer tableResolver scope "Map" = some "Shop.Map" := by
    decide +kernel
  have hlist : ({} : Memory).answer tableResolver scope "List" = none := by decide +kernel
  have hspelled : mapRef.Spelled fun name =>
      FitsHead scope (({} : Memory).answer tableResolver scope name) name := by
    have hleaf (name : String) (hne : name ≠ "") (hplain : TypeName.Plain name) :
        TypeRef.Spelled (fun name =>
          FitsHead scope (({} : Memory).answer tableResolver scope name) name) ⟨name, []⟩ :=
      .mk hne hplain (fun hnone => absurd rfl hnone) nofun
    refine .mk (by decide) (by decide) (fun _ => ?_) ?_
    · rw [hmap]
      rintro fullName ⟨⟩
      rw [parse_of_plain (by decide)]
      exact ⟨rfl, rfl, by decide⟩
    · rw [List.forall_mem_cons, List.forall_mem_singleton]
      refine ⟨hleaf "Key" (by decide) (by decide), .mk (by decide) (by decide) (fun _ => ?_) ?_⟩
      · rw [hlist]
        exact nofun
      · rw [List.forall_mem_singleton]
        exact hleaf "Item" (by decide) (by decide)
  have htogether := fullName_mapNames tableResolver scope {} mapRef hspelled
  have hlisted : ((mapRef.mapNames (tableResolver.resolveName scope)).run {}).1.fullName =
      "Shop.Map<Shop.Key, List<Shop.Item>>" := by decide +kernel
  exact ⟨hspelled, by decide +kernel, hlisted, htogether.symm.trans hlisted⟩

/-- **An alias whose target has arguments tells both ways apart**: written in the name, the
arguments take the place of those of the target, and given as a list they come behind them. -/
theorem tableRef_apart :
    let scope := tableScope "shop/tables"
    let ref : TypeRef := ⟨"Table", [⟨"Item", []⟩]⟩
    ref.Spelled (fun _ => True) ∧ ref.fullName = "Table<Item>" ∧
      ((ref.mapNames (tableResolver.resolveName scope)).run {}).1.fullName =
        "Shop.Map<Shop.Key><Shop.Item>" ∧
      ((tableResolver.resolveName scope ref.fullName).run {}).1 = "Shop.Map<Shop.Item>" ∧
      TypeName.parse "Shop.Map<Shop.Key><Shop.Item>" ≠ TypeName.parse "Shop.Map<Shop.Item>" := by
  intro scope ref
  have hspelled : ref.Spelled fun _ => True := by
    refine .mk (by decide) (by decide) (fun _ => trivial) ?_
    rw [List.forall_mem_singleton]
    exact .mk (by decide) (by decide) (fun _ => trivial) nofun
  refine ⟨hspelled, by decide +kernel, by decide +kernel, by decide +kernel, fun hsame => ?_⟩
  have hbase := congrArg TypeName.base hsame
  exact absurd hbase (by decide +kernel)

end Resolver

end FactGraph
