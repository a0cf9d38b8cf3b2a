import FactGraph.Proofs.Fact.Counts
import FactGraph.Proofs.Resolution.Fixpoint
import FactGraph.Proofs.Resolution.Frame

/-!
# Resolving twice

What comes of resolving a repository is resolved again with the same index. Every occurrence of a
name holds a resolved name by then, in the same scope as before, since declarations keep their
headings; and a resolved name stays as it is. The counts of a metric are kept by name, so they are
entered again just as they are; and the later listings of a project have become copies of the first.

Calls that are written without an owner are left out: the owner that is put in is the full name of a
type, which is looked up the second time.

## Main definitions

* `NameAction.Idempotent`: names that were replaced stay as they are
* `MetricFact.recount`: counts, entered once more by replaced names
* `RepositoryFact.NamesOwners`: every call names its owner

## Main results

* `TypeFact.mapNames_mapNames`, `ProjectFact.mapNames_mapNames`: replacing names twice
* `Resolver.resolveRepository_resolveRepository`: resolving is idempotent
-/

namespace FactGraph

/-! ## Replacing names twice -/

/-- **Names that were replaced stay as they are**, and names that are not blank do not become so. -/
structure NameAction.Idempotent (action : NameAction Id) : Prop where
  onName : ∀ scope name,
    (action.onName scope (action.onName scope name).run).run = (action.onName scope name).run
  notBlank : ∀ scope name, Text.isBlank name = false →
    Text.isBlank (action.onName scope name).run = false

/-- The elements of a list that were replaced stay as they are. -/
theorem idRun_mapM_mapM {α : Type} {f : α → Id α} (xs : List α)
    (h : ∀ x ∈ xs, (f (f x).run).run = (f x).run) :
    ((xs.mapM f).run.mapM f).run = (xs.mapM f).run := by
  rw [List.idRun_mapM, List.idRun_mapM, List.map_map]
  exact List.map_congr_left h

theorem idRun_optionMapM_mapM {α : Type} {f : α → Id α} (x : Option α)
    (h : ∀ a ∈ x, (f (f a).run).run = (f a).run) :
    ((x.mapM f).run.mapM f).run = (x.mapM f).run := by
  cases x with
  | none => rfl
  | some a => exact congrArg some (h a rfl)

section Names

/-- The counts with further entries, which are counted by their replaced names. -/
def MetricFact.recount (act : String → Id String) (entries : List (String × Nat))
    (counts : Counts) : Counts :=
  entries.foldl (fun counts entry => counts.add (act entry.1).run entry.2) counts

variable {act : String → Id String}

mutual

theorem TypeRef.mapNames_mapNames (h : ∀ name, (act (act name).run).run = (act name).run) :
    (ref : TypeRef) → ((ref.mapNames act).run.mapNames act).run = (ref.mapNames act).run
  | ⟨name, args⟩ => by
    have hargs := TypeRef.mapNamesAll_mapNamesAll h args
    simp only [TypeRef.mapNames, Id.run_bind, Id.run_pure, h, hargs]

theorem TypeRef.mapNamesAll_mapNamesAll (h : ∀ name, (act (act name).run).run = (act name).run) :
    (refs : List TypeRef) → (TypeRef.mapNamesAll act (TypeRef.mapNamesAll act refs).run).run =
      (TypeRef.mapNamesAll act refs).run
  | [] => rfl
  | ref :: refs => by
    have href := TypeRef.mapNames_mapNames h ref
    have hrefs := TypeRef.mapNamesAll_mapNamesAll h refs
    simp only [TypeRef.mapNamesAll, Id.run_bind, Id.run_pure, href, hrefs]

end

variable (h : ∀ name, (act (act name).run).run = (act name).run)
include h

theorem AttributeFact.mapNames_mapNames (fact : AttributeFact) :
    ((fact.mapNames act).run.mapNames act).run = (fact.mapNames act).run := by
  simp only [mapNames, Id.run_bind, Id.run_pure, TypeRef.mapNames_mapNames h]

theorem AttributeFact.mapM_mapNames (facts : List AttributeFact) :
    ((facts.mapM (AttributeFact.mapNames act)).run.mapM (AttributeFact.mapNames act)).run =
      (facts.mapM (AttributeFact.mapNames act)).run :=
  idRun_mapM_mapM facts fun fact _ => AttributeFact.mapNames_mapNames h fact

theorem ParameterFact.mapNames_mapNames (fact : ParameterFact) :
    ((fact.mapNames act).run.mapNames act).run = (fact.mapNames act).run := by
  simp only [mapNames, Id.run_bind, Id.run_pure, TypeRef.mapNames_mapNames h,
    AttributeFact.mapM_mapNames h]

theorem LocalVariableFact.mapNames_mapNames (fact : LocalVariableFact) :
    ((fact.mapNames act).run.mapNames act).run = (fact.mapNames act).run := by
  simp only [mapNames, Id.run_bind, Id.run_pure, TypeRef.mapNames_mapNames h]

theorem FieldFact.mapNames_mapNames (fact : FieldFact) :
    ((fact.mapNames act).run.mapNames act).run = (fact.mapNames act).run := by
  simp only [mapNames, Id.run_bind, Id.run_pure, TypeRef.mapNames_mapNames h,
    AttributeFact.mapM_mapNames h]

omit h in
/-- The counts of a metric are entered once more, by their replaced names. -/
theorem MetricFact.run_mapNames (fact : MetricFact) : (fact.mapNames act).run =
    { fact with counts := recount act fact.counts.entries .empty } := by
  simp only [mapNames, Id.run_bind, Id.run_pure, List.idRun_foldlM, recount]

/-- What is counted by replaced names has only names that stay as they are. -/
theorem MetricFact.forall_mem_recount (entries : List (String × Nat)) {counts : Counts}
    (hcounts : ∀ entry ∈ counts.entries, (act entry.1).run = entry.1) :
    ∀ entry ∈ (recount act entries counts).entries, (act entry.1).run = entry.1 := by
  induction entries generalizing counts with
  | nil => exact hcounts
  | cons entry entries ih =>
    exact ih (Counts.forall_mem_add (fun name => (act name).run = name) hcounts (h entry.1))

omit h in
/-- Counts whose names stay as they are come out as they were: they are entered in their order. -/
theorem MetricFact.recount_entries {counts : Counts}
    (hcounts : ∀ entry ∈ counts.entries, (act entry.1).run = entry.1) :
    recount act counts.entries .empty = counts := by
  refine Eq.trans (List.foldl_ext _ _ _ fun all entry hentry => ?_) counts.foldl_add_entries
  rw [hcounts entry hentry]

/-- The replaced names that a metric counts by stay as they are. -/
theorem MetricFact.mapNames_mapNames (fact : MetricFact) :
    ((fact.mapNames act).run.mapNames act).run = (fact.mapNames act).run := by
  have hempty : ∀ entry ∈ Counts.empty.entries, (act entry.1).run = entry.1 := by
    simp [Counts.empty]
  have hkept := forall_mem_recount h fact.counts.entries hempty
  rw [run_mapNames, run_mapNames, recount_entries hkept]

end Names

/-! ## Declarations -/

section Declarations

variable {action : NameAction Id} (h : action.Idempotent) {scope : ResolutionScope}
include h

theorem CallFact.mapNames_mapNames {fact : CallFact} (howner : fact.ownerless scope = []) :
    ((fact.mapNames action scope).run.mapNames action scope).run =
      (fact.mapNames action scope).run := by
  have hnamed : Text.isBlank fact.containingType = false := by
    unfold CallFact.ownerless at howner
    split at howner
    · cases howner
    next hnamed => exact Bool.eq_false_iff.2 hnamed
  have hkept := h.notBlank scope _ hnamed
  have hrefs : ((fact.parameterTypes.mapM (TypeRef.mapNames (action.onName scope))).run.mapM
      (TypeRef.mapNames (action.onName scope))).run =
        (fact.parameterTypes.mapM (TypeRef.mapNames (action.onName scope))).run :=
    idRun_mapM_mapM fact.parameterTypes fun ref _ => TypeRef.mapNames_mapNames (h.onName scope) ref
  simp only [mapNames, hnamed, hkept, Bool.false_eq_true, if_false, Id.run_bind, Id.run_pure,
    h.onName, hrefs]

theorem MethodHead.mapNames_mapNames {head : MethodHead}
    (howners : head.calledMethods.flatMap (CallFact.ownerless scope) = []) :
    ((head.mapNames action scope).run.mapNames action scope).run =
      (head.mapNames action scope).run := by
  have hnames := h.onName scope
  have hreturn := idRun_optionMapM_mapM head.returnType fun ref _ =>
    TypeRef.mapNames_mapNames hnames ref
  have hparameters := idRun_mapM_mapM head.parameters fun fact _ =>
    ParameterFact.mapNames_mapNames hnames fact
  have hlocals := idRun_mapM_mapM head.localVariables fun fact _ =>
    LocalVariableFact.mapNames_mapNames hnames fact
  have hcalls := idRun_mapM_mapM head.calledMethods fun fact hfact =>
    CallFact.mapNames_mapNames h (List.flatMap_eq_nil_iff.1 howners fact hfact)
  simp only [mapNames, Id.run_bind, Id.run_pure, hreturn, hparameters, hlocals, hcalls,
    AttributeFact.mapM_mapNames hnames]

omit h in
mutual

theorem MethodFact.mapNames_mapNames (h : action.Idempotent) {scope : ResolutionScope} :
    (fact : MethodFact) → fact.ownerless scope = [] →
      ((fact.mapNames action scope).run.mapNames action scope).run =
        (fact.mapNames action scope).run
  | ⟨head, localFunctions⟩ => fun howners => by
    rw [MethodFact.ownerless, List.append_eq_nil_iff] at howners
    have hhead := MethodHead.mapNames_mapNames h howners.1
    have hlocal := MethodFact.mapNamesAll_mapNamesAll h localFunctions howners.2
    have hinner : (head.mapNames action
        (scope.withTypeParameters head.genericParameters)).run.genericParameters =
          head.genericParameters := rfl
    simp only [MethodFact.mapNames, Id.run_bind, Id.run_pure, hinner, hhead, hlocal]

theorem MethodFact.mapNamesAll_mapNamesAll (h : action.Idempotent) {scope : ResolutionScope} :
    (facts : List MethodFact) → MethodFact.ownerlessAll scope facts = [] →
      (MethodFact.mapNamesAll action scope (MethodFact.mapNamesAll action scope facts).run).run =
        (MethodFact.mapNamesAll action scope facts).run
  | [] => fun _ => rfl
  | fact :: facts => fun howners => by
    rw [MethodFact.ownerlessAll, List.append_eq_nil_iff] at howners
    have hfact := MethodFact.mapNames_mapNames h fact howners.1
    have hfacts := MethodFact.mapNamesAll_mapNamesAll h facts howners.2
    simp only [MethodFact.mapNamesAll, Id.run_bind, Id.run_pure, hfact, hfacts]

end

theorem MethodFact.mapM_mapNames {facts : List MethodFact}
    (howners : facts.flatMap (MethodFact.ownerless scope) = []) :
    ((facts.mapM (MethodFact.mapNames action scope)).run.mapM
        (MethodFact.mapNames action scope)).run =
      (facts.mapM (MethodFact.mapNames action scope)).run :=
  idRun_mapM_mapM facts fun fact hfact =>
    MethodFact.mapNames_mapNames h fact (List.flatMap_eq_nil_iff.1 howners fact hfact)

theorem PropertyFact.mapNames_mapNames {fact : PropertyFact}
    (howners : fact.accessors.flatMap (MethodFact.ownerless scope) = []) :
    ((fact.mapNames action scope).run.mapNames action scope).run =
      (fact.mapNames action scope).run := by
  have hnames := h.onName scope
  simp only [mapNames, Id.run_bind, Id.run_pure, TypeRef.mapNames_mapNames hnames,
    MethodFact.mapM_mapNames h howners, AttributeFact.mapM_mapNames hnames]

/-- **The replaced names of a declaration stay as they are**, if every call names its owner. -/
theorem TypeFact.mapNames_mapNames {fact : TypeFact} (howners : fact.ownerless scope = []) :
    ((fact.mapNames action scope).run.mapNames action scope).run =
      (fact.mapNames action scope).run := by
  simp only [TypeFact.ownerless, List.flatMap_append, List.flatMap_assoc,
    List.append_eq_nil_iff] at howners
  obtain ⟨⟨⟨hproperties, hmethods⟩, hconstructors⟩, hdestructor⟩ := howners
  have hnames := h.onName scope
  have hbase := idRun_mapM_mapM fact.baseTypes fun ref _ =>
    TypeRef.mapNames_mapNames (h.onName scope.outsideCurrentType) ref
  have hfields := idRun_mapM_mapM fact.fields fun field _ =>
    FieldFact.mapNames_mapNames hnames field
  have hproperties := idRun_mapM_mapM fact.properties fun property hproperty =>
    PropertyFact.mapNames_mapNames h (List.flatMap_eq_nil_iff.1 hproperties property hproperty)
  have hmetrics := idRun_mapM_mapM fact.metrics fun metric _ =>
    MetricFact.mapNames_mapNames hnames metric
  have hdestructor := idRun_optionMapM_mapM fact.destructor fun method hmethod =>
    MethodFact.mapNames_mapNames h method
      (List.flatMap_eq_nil_iff.1 hdestructor method (by simpa using hmethod))
  simp only [mapNames, Id.run_bind, Id.run_pure, hbase, hfields, hproperties, hmetrics,
    hdestructor, MethodFact.mapM_mapNames h hmethods, MethodFact.mapM_mapNames h hconstructors,
    AttributeFact.mapM_mapNames hnames]

/-- The replaced names of a unit stay as they are, if the scope of a declaration depends on its
heading only. -/
theorem UnitFact.mapNames_mapNames {scopeOf : TypeFact → ResolutionScope}
    (hscope : ∀ type, scopeOf type.heading = scopeOf type) {fact : UnitFact}
    (howners : ∀ type ∈ fact.types, type.isNamed → type.ownerless (scopeOf type) = []) :
    ((fact.mapNames action scopeOf).run.mapNames action scopeOf).run =
      (fact.mapNames action scopeOf).run := by
  have htypes := idRun_mapM_mapM fact.types
    (f := fun type => if type.isNamed then type.mapNames action (scopeOf type) else pure type)
    fun type htype => ?_
  · simp only [mapNames, Id.run_bind, Id.run_pure, htypes]
  · split
    next hnamed =>
      have hheading : (type.mapNames action (scopeOf type)).run.heading = type.heading := rfl
      have hnamed' : (type.mapNames action (scopeOf type)).run.isNamed := by
        rw [← TypeFact.heading_isNamed, hheading, TypeFact.heading_isNamed, hnamed]
      have hscope' : scopeOf (type.mapNames action (scopeOf type)).run = scopeOf type := by
        rw [← hscope, hheading, hscope]
      rw [if_pos hnamed', hscope', TypeFact.mapNames_mapNames h (howners type htype hnamed)]
    next hnamed => rw [Id.run_pure, if_neg hnamed, Id.run_pure]

/-- **The replaced names of a project stay as they are.** -/
theorem ProjectFact.mapNames_mapNames {scopeOf : String → TypeFact → ResolutionScope}
    (hscope : ∀ path type, scopeOf path type.heading = scopeOf path type) {fact : ProjectFact}
    (howners : ∀ unit ∈ fact.units, ∀ type ∈ unit.types, type.isNamed →
      type.ownerless (scopeOf unit.path type) = []) :
    ((fact.mapNames action scopeOf).run.mapNames action scopeOf).run =
      (fact.mapNames action scopeOf).run := by
  have hunits := idRun_mapM_mapM fact.units
    (f := fun unit => unit.mapNames action (scopeOf unit.path)) fun unit hunit =>
      UnitFact.mapNames_mapNames h (hscope unit.path) (howners unit hunit)
  simp only [mapNames, Id.run_bind, Id.run_pure, hunits]

end Declarations

/-! ## Resolving twice -/

/-- **Every call names its owner.** -/
def RepositoryFact.NamesOwners (repo : RepositoryFact) : Prop :=
  ∀ entry ∈ repo.named, ∀ scope, entry.2.2.ownerless scope = []

namespace Resolver

variable {repo : RepositoryFact} {sep : Separator} {resolver : Resolver}

/-- With plain names, the names that are resolved on their own stay as they are. -/
theorem IsPlain.idempotent (h : resolver.IsPlain) : resolver.forgetful.Idempotent where
  onName scope name := (h.resolveTypeName_resolveTypeName scope name).1
  notBlank scope name := (h.resolveTypeName_resolveTypeName scope name).2

/-- A project whose names were resolved on their own stays as it is. -/
theorem IsPlain.resolveForgetful_resolveForgetful (h : resolver.IsPlain) {fact : ProjectFact}
    (howners : ∀ unit ∈ fact.units, ∀ type ∈ unit.types, type.isNamed →
      ∀ scope, type.ownerless scope = []) :
    resolver.resolveForgetful (resolver.resolveForgetful fact) =
      resolver.resolveForgetful fact := by
  unfold resolveForgetful
  cases hproject : resolver.index.projectIndex? fact.path with
  | none => simp only [hproject]
  | some project =>
    have hpath : (fact.mapNames resolver.forgetful
        (resolver.scopeOf project fact.path)).run.path = fact.path := rfl
    simp only [hpath, hproject]
    refine ProjectFact.mapNames_mapNames h.idempotent (fun _ _ => rfl) ?_
    exact fun unit hunit type htype hnamed => howners unit hunit type htype hnamed _

/-- A resolved project has plain declarations if the project has. -/
theorem isPlain_resolveProject {fact : ProjectFact}
    (h : ∀ unit ∈ fact.units, ∀ type ∈ unit.types, type.isNamed → type.IsPlain sep) :
    ∀ unit ∈ (resolver.resolveProject fact).1.units, ∀ type ∈ unit.types, type.isNamed →
      type.IsPlain sep := by
  have hheadings (fact : ProjectFact) :
      (∀ unit ∈ fact.headings.units, ∀ type ∈ unit.types, type.isNamed → type.IsPlain sep) ↔
        ∀ unit ∈ fact.units, ∀ type ∈ unit.types, type.isNamed → type.IsPlain sep := by
    have htype (type : TypeFact) : type.heading.IsPlain sep ↔ type.IsPlain sep :=
      ⟨fun h => ⟨h.1, h.2, h.3⟩, fun h => ⟨h.1, h.2, h.3⟩⟩
    simp [ProjectFact.headings, UnitFact.headings, htype]
  rw [← hheadings, resolveProject_headings, hheadings]
  exact h

/-- **A resolved project stays as it is.** -/
theorem resolveProject_resolveProject (hindex : resolver.index = (ScopeIndex.build repo sep).1)
    (h : resolver.IsPlain) {fact : ProjectFact}
    (hplain : ∀ unit ∈ fact.units, ∀ type ∈ unit.types, type.isNamed → type.IsPlain sep)
    (howners : ∀ unit ∈ fact.units, ∀ type ∈ unit.types, type.isNamed →
      ∀ scope, type.ownerless scope = []) :
    (resolver.resolveProject (resolver.resolveProject fact).1).1 =
      (resolver.resolveProject fact).1 := by
  have hfirst := resolver.resolveProject_forgetful fact fun _ _ =>
    placesTell_of_plain hindex hplain
  have hsecond := resolver.resolveProject_forgetful (resolver.resolveProject fact).1 fun _ _ =>
    placesTell_of_plain hindex (isPlain_resolveProject hplain)
  rw [hsecond, hfirst, h.resolveForgetful_resolveForgetful howners]

/-- **Resolving is idempotent**, if the declarations are plain, there are no aliases, and every call
names its owner: what comes of it stays as it is when it is resolved again with the same index. -/
theorem resolveRepository_resolveRepository (policy : FallbackPolicy) (hplain : repo.IsPlain sep)
    (halias : repo.IsAliasFree) (howners : repo.NamesOwners) :
    let resolver : Resolver := ⟨(ScopeIndex.build repo sep).1, policy⟩
    (resolver.resolveRepository (resolver.resolveRepository repo).1).1 =
      (resolver.resolveRepository repo).1 := by
  intro resolver
  have hproject : ∀ fact ∈ repo.firstListings,
      (resolver.resolveProject (resolver.resolveProject fact).1).1 =
        (resolver.resolveProject fact).1 := by
    intro fact hfact
    obtain ⟨position, hposition⟩ := List.getElem?_of_mem hfact
    have hnamed {unit : UnitFact} (hunit : unit ∈ fact.units) {type : TypeFact}
        (htype : type ∈ unit.types) (hnamed : type.isNamed) :
        (position, unit.path, type) ∈ repo.named :=
      RepositoryFact.mem_named hposition hunit htype hnamed
    refine resolveProject_resolveProject rfl (isPlain_of_index rfl hplain halias) ?_ ?_
    · exact fun unit hunit type htype hname => hplain.declaration (hnamed hunit htype hname)
    · exact fun unit hunit type htype hname => howners _ (hnamed hunit htype hname)
  -- A listing has taken the result for its path, which is the first listing of its path now.
  have hlisted : ∀ listing ∈ (resolver.resolveRepository repo).1.projects,
      listed (resolver.resolveListings (resolver.resolveRepository repo).1) listing = listing := by
    intro listing hlisting
    rw [projects_resolveRepository] at hlisting
    obtain ⟨old, hold, rfl⟩ := List.mem_map.1 hlisting
    obtain ⟨fact, hfact, hpath⟩ := RepositoryFact.exists_firstListing hold
    have hfirst : (resolver.resolveProject fact).1 ∈
        (resolver.resolveRepository repo).1.firstListings := by
      rw [firstListings_resolveRepository]
      exact List.mem_map_of_mem hfact
    rw [resolver.listed_of_path hfact hpath.symm, resolver.listed_of_path hfirst rfl,
      hproject fact hfact]
  generalize hresolved : (resolver.resolveRepository repo).1 = resolved at hlisted
  have hsolutions : (resolved.solutions.map fun solution => { solution with
      projects := solution.projects.map (listed (resolver.resolveListings resolved)) }) =
        resolved.solutions := by
    refine (List.map_congr_left fun solution hsolution => ?_).trans (List.map_id _)
    have hprojects : solution.projects.map (listed (resolver.resolveListings resolved)) =
        solution.projects := by
      refine (List.map_congr_left fun listing hlisting => ?_).trans (List.map_id _)
      exact hlisted listing (List.mem_flatMap.2 ⟨solution, hsolution, hlisting⟩)
    rw [hprojects]
    rfl
  rw [resolveRepository]
  dsimp only
  rw [hsolutions]

/-- A shop whose cart is generic: it names an imported type in a field, as the owner of a call and,
in two ways, in a metric. -/
def stock : RepositoryFact where
  solutions := [{
    path := "all"
    projects := [{
      path := "shop"
      units := [{ path := "shop/cart", imports := [.plain "Goods"], types := [item, cart] }] }] }]
where
  item : TypeFact :=
    { name := "Item", namespaceName := "Goods" }
  cart : TypeFact :=
    { name := "Cart<T>"
      namespaceName := "Shop"
      genericParameters := ["T"]
      fields := [{ name := "first", typeRef := { name := "List< Item[], T >" } }]
      methods := [{
        name := "Add"
        calledMethods := [{ containingType := "Item", name := "Pack" }] }]
      metrics := [{
        relation := .declarations
        counts := .ofList [("Goods.Item", 1), ("Item", 2)] }] }

/-- The resolver of the stock. -/
def stockResolver : Resolver :=
  ⟨(ScopeIndex.build stock .dot).1, .referencesThenGlobal⟩

/-- The stock is resolved, and stays as it is when it is resolved again. -/
theorem stock_resolved :
    (stock.IsPlain .dot ∧ stock.IsAliasFree ∧ stock.NamesOwners) ∧
      (stockResolver.resolveRepository stock).1.projects.flatMap fieldTypes =
        ["List<Goods.Item[], T>"] ∧
      (stockResolver.resolveRepository (stockResolver.resolveRepository stock).1).1 =
        (stockResolver.resolveRepository stock).1 := by
  have hnamed : stock.named = [(0, "shop/cart", stock.item), (0, "shop/cart", stock.cart)] := rfl
  have hplain : stock.IsPlain .dot := by
    refine ⟨by decide, ?_, ?_, ?_⟩ <;> simp only [hnamed, List.forall_mem_cons]
    · have hgoods : Separator.dot.IsPlainSegment stock.item.trimmedNamespace := by decide
      have hshop : Separator.dot.IsPlainSegment stock.cart.trimmedNamespace := by decide
      exact ⟨hgoods.isPlainPath, hshop.isPlainPath, nofun⟩
    · exact ⟨nofun, nofun, nofun⟩
    · exact ⟨by decide, by decide, nofun⟩
  have halias : stock.IsAliasFree := by unfold RepositoryFact.IsAliasFree; decide
  have howners : stock.NamesOwners := by
    simp only [RepositoryFact.NamesOwners, hnamed, List.forall_mem_cons]
    exact ⟨fun _ => rfl, fun _ => rfl, nofun⟩
  exact ⟨⟨hplain, halias, howners⟩, by decide +kernel,
    resolveRepository_resolveRepository .referencesThenGlobal hplain halias howners⟩

end Resolver

end FactGraph
