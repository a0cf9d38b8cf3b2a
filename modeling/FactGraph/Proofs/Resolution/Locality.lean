import FactGraph.Proofs.Resolution.Frame
import FactGraph.Proofs.Resolution.Agreement
import FactGraph.Proofs.Scope.Imports
import FactGraph.Proofs.Scope.Visibility

/-!
# Imports stay in their file

Two resolvers have the same index apart from the import tables. A file whose table is the same for
both is then resolved to the same, although the files before it may have been resolved differently:
what is remembered from them is kept by file, so it is not asked for here. Hence two memories need
to agree on the files with the same table only, and a file with another table leaves them so,
whatever it does.

The tables are kept by path in one place for the whole repository, and the last unit of a path
counts. So the imports of a unit can be noticed in another one if both have the same path, and only
then.

## Main definitions

* `Memory.AgreesOn`: the two memories have the same answers for some of the files

## Main results

* `resolveProject_unit`: a unit is resolved with what the units before it have left behind
* `resolveRepository_setImports`: the imports of a unit are not noticed in another one
-/

namespace FactGraph

/-! ## One unit after the other -/

section Walk

variable {α β : Type} (f : α → ResolveM β)

/-- Each result is that of one step, from the memory that the steps before it have left behind. -/
theorem ResolveM.mapM_getElem? (xs : List α) (place : Nat) (memory : Memory) :
    ((xs.mapM f).run memory).1[place]? = xs[place]?.map fun x =>
      ((f x).run ((xs.take place).foldl (fun memory x => ((f x).run memory).2) memory)).1 := by
  induction xs generalizing place memory with
  | nil => rfl
  | cons x xs ih =>
    rw [List.mapM_cons]
    cases place with
    | zero => rfl
    | succ place => exact ih place ((f x).run memory).2

end Walk

namespace Resolver

variable (resolver : Resolver) (project : Nat) (path : String)

/-- A unit of a project with its names resolved. -/
def resolveUnit (unit : UnitFact) : ResolveM UnitFact :=
  unit.mapNames resolver.action (resolver.scopeOf project path unit.path)

/-- What is known after some units of a project have been resolved. -/
def rememberedFrom (units : List UnitFact) (memory : Memory) : Memory :=
  units.foldl (fun memory unit => ((resolver.resolveUnit project path unit).run memory).2) memory

/-- **A unit is resolved with what the units before it have left behind.** -/
theorem resolveProject_unit {fact : ProjectFact}
    (hproject : resolver.index.projectIndex? fact.path = some project) (place : Nat) :
    (resolver.resolveProject fact).1.units[place]? = fact.units[place]?.map fun unit =>
      ((resolver.resolveUnit project fact.path unit).run
        (resolver.rememberedFrom project fact.path (fact.units.take place) {})).1 := by
  unfold resolveProject
  rw [hproject]
  exact ResolveM.mapM_getElem? (resolver.resolveUnit project fact.path) fact.units place {}

/-- Imports leave no trace in the memory but through the index. -/
theorem rememberedFrom_forgetImports (units : List UnitFact) (memory : Memory) :
    resolver.rememberedFrom project path (units.map UnitFact.forgetImports) memory =
      resolver.rememberedFrom project path units memory := by
  rw [rememberedFrom, List.foldl_map]
  rfl

end Resolver

/-! ## Memories -/

/-- **The two memories agree on some of the files**: they have the same answers for these. -/
def Memory.AgreesOn (files : String → Prop) (memory memory' : Memory) : Prop :=
  ∀ key : MemoryKey, files key.1 → memory'.answers.lookup key = memory.answers.lookup key

namespace Memory.AgreesOn

variable {files : String → Prop} {memory memory' memory'' : Memory}

theorem refl (files : String → Prop) (memory : Memory) : memory.AgreesOn files memory :=
  fun _ _ => rfl

theorem symm (h : memory.AgreesOn files memory') : memory'.AgreesOn files memory :=
  fun key hkey => (h key hkey).symm

theorem trans (h : memory.AgreesOn files memory') (h' : memory'.AgreesOn files memory'') :
    memory.AgreesOn files memory'' :=
  fun key hkey => (h' key hkey).trans (h key hkey)

variable {scope : ResolutionScope} {name : String} {outcome : Resolution} {key : MemoryKey}
  {answer : Option String}

/-- The same answer is remembered in both. -/
theorem remember (h : memory.AgreesOn files memory') :
    ((memory.reportAmbiguity scope name outcome).remember key answer).AgreesOn files
      ((memory'.reportAmbiguity scope name outcome).remember key answer) := by
  intro other hother
  have hold := h other hother
  simp only [Memory.remember, reportAmbiguity_answers, List.lookup_cons, hold]

/-- An answer is remembered for one of the other files. -/
theorem remember_elsewhere (hkey : ¬ files key.1) :
    memory.AgreesOn files ((memory.reportAmbiguity scope name outcome).remember key answer) := by
  intro other hother
  have hne : (other == key) = false := by
    rw [beq_eq_false_iff_ne]
    rintro rfl
    exact hkey hother
  simp only [Memory.remember, reportAmbiguity_answers, List.lookup_cons, hne]

end Memory.AgreesOn

namespace Resolver

open ResolveM (Alike alike)

-- How a tree is read from a text does not matter here.
attribute [local irreducible] TypeName.parse

/-- The resolver without the import tables. -/
def forgetImports (resolver : Resolver) : Resolver :=
  { resolver with index := resolver.index.forgetImports }

/-- The file has the same imports for both. -/
def SameImports (resolver resolver' : Resolver) (path : String) : Prop :=
  resolver'.index.importsOf? path = resolver.index.importsOf? path

variable {resolver resolver' : Resolver} {scope : ResolutionScope}

/-- Two walks through a unit do the same, if names and owners are looked up alike from the scopes of
its file. -/
theorem resolveUnit_alike {keeps : Memory → Memory → Prop} {project : Nat} {path : String}
    {unit : UnitFact}
    (hscopes : resolver'.scopeOf project path unit.path = resolver.scopeOf project path unit.path)
    (hlookup : ∀ scope, scope.filePath = unit.path → ∀ base,
      Alike keeps (resolver.lookupOnce scope base) (resolver'.lookupOnce scope base))
    (howners : ∀ scope, scope.filePath = unit.path → ∀ method,
      Alike keeps (resolver.resolveOwner scope method) (resolver'.resolveOwner scope method)) :
    Alike keeps (resolver.resolveUnit project path unit)
      (resolver'.resolveUnit project path unit) := by
  unfold resolveUnit
  rw [hscopes]
  refine UnitFact.mapNames_alike (c := alike keeps) unit fun type _ _ => ?_
  refine type.mapNames_alike ?_ ?_ fun call hcall => ?_
  · exact fun parameters => resolveName_alike (hlookup _ rfl)
  · exact resolveName_alike (hlookup _ rfl)
  · obtain ⟨parameters, heq⟩ := TypeFact.scope_of_ownerless hcall
    exact howners call.1 (by rw [heq]; rfl) call.2

section SameIndex

variable (h : resolver'.forgetImports = resolver.forgetImports)
include h

/-- The same is seen from the scopes of a file with the same imports. -/
theorem seesAlike_of_imports (himports : SameImports resolver resolver' scope.filePath) :
    SeesAlike resolver resolver' scope scope where
  separator := (congrArg separator h :)
  surroundings := (congrArg (fun resolver => resolver.surroundings scope) h :)
  isDeclaredIn fullName :=
    (congrArg (fun resolver => resolver.index.isDeclaredIn fullName scope.project) h :)
  isVisible fullName := (congrArg (fun resolver => resolver.isVisible scope fullName) h :)
  importsOf? := himports
  fallbackMatch name := (congrArg (fun resolver => resolver.fallbackMatch scope name) h :)

/-- A base is looked up alike in such a file, if the answers for the file are the same. -/
theorem lookupOnce_agreesOn
    (hfile : SameImports resolver resolver' scope.filePath) (base : String) :
    Alike (Memory.AgreesOn (SameImports resolver resolver')) (resolver.lookupOnce scope base)
      (resolver'.lookupOnce scope base) := by
  rw [(seesAlike_of_imports h hfile).lookupOnce]
  intro memory memory' hmemory
  have hanswer := hmemory (scope.filePath, scope.place, base) hfile
  rw [lookupOnce]
  generalize resolver.lookup scope base = outcome
  simp only [StateT.run_bind, StateT.run_get, pure_bind, hanswer]
  split
  · exact ⟨rfl, hmemory⟩
  · exact ⟨rfl, hmemory.remember⟩

/-- **A unit with the same imports is resolved to the same**, if the answers for its file are. -/
theorem resolveUnit_agreesOn
    {unit : UnitFact} (hfile : SameImports resolver resolver' unit.path) (project : Nat)
    (path : String) :
    Alike (Memory.AgreesOn (SameImports resolver resolver'))
      (resolver.resolveUnit project path unit) (resolver'.resolveUnit project path unit) := by
  have hfile' {scope : ResolutionScope} (hscope : scope.filePath = unit.path) :
      SameImports resolver resolver' scope.filePath := hscope ▸ hfile
  have hlookup (scope : ResolutionScope) (hscope : scope.filePath = unit.path) :=
    lookupOnce_agreesOn h (hfile' hscope)
  have hdeclares (owner method : String) :
      resolver'.index.declaresMethod owner method = resolver.index.declaresMethod owner method :=
    (congrArg (fun resolver => resolver.index.declaresMethod owner method) h :)
  refine resolveUnit_alike ?_ hlookup fun scope hscope method => ?_
  · exact (congrArg (fun resolver => resolver.scopeOf project path unit.path) h :)
  · exact resolveOwner_alike (hlookup scope hscope)
      ((seesAlike_of_imports h (hfile' hscope)).importEntries _) (hdeclares _ _)
      fun _ _ _ _ _ => hdeclares _ _

end SameIndex

/-- **A unit leaves the answers for other files alone.** -/
theorem resolveUnit_elsewhere (resolver : Resolver) {files : String → Prop} {unit : UnitFact}
    (hfile : ¬ files unit.path) (project : Nat) (path : String) (memory : Memory) :
    memory.AgreesOn files ((resolver.resolveUnit project path unit).run memory).2 := by
  have hlookup (scope : ResolutionScope) (hscope : scope.filePath = unit.path) (base : String) :
      Alike (Memory.Shared (memory.AgreesOn files)) (resolver.lookupOnce scope base)
        (resolver.lookupOnce scope base) := by
    refine lookupOnce_alike (.refl resolver scope) (fun base later hlater => ?_) base
    exact hlater.trans (.remember_elsewhere (hscope ▸ hfile))
  have hunit : Alike (Memory.Shared (memory.AgreesOn files))
      (resolver.resolveUnit project path unit) (resolver.resolveUnit project path unit) :=
    resolveUnit_alike rfl hlookup fun scope hscope method =>
      resolveOwner_alike (hlookup scope hscope) rfl rfl fun _ _ _ _ _ => rfl
  exact (hunit memory memory ⟨rfl, .refl files memory⟩).2.2

/-- **What is known of the files with the same imports** is the same after both have resolved the
same units, whatever became of the other files. -/
theorem rememberedFrom_agreesOn (h : resolver'.forgetImports = resolver.forgetImports)
    (project : Nat) (path : String) (units : List UnitFact) {memory memory' : Memory}
    (hmemory : memory.AgreesOn (SameImports resolver resolver') memory') :
    (resolver.rememberedFrom project path units memory).AgreesOn (SameImports resolver resolver')
      (resolver'.rememberedFrom project path units memory') := by
  induction units generalizing memory memory' with
  | nil => exact hmemory
  | cons unit units ih =>
    refine ih ?_
    by_cases hfile : SameImports resolver resolver' unit.path
    · exact (resolveUnit_agreesOn h hfile project path memory memory' hmemory).2
    · have hstart := resolver.resolveUnit_elsewhere hfile project path memory
      have hend := resolver'.resolveUnit_elsewhere hfile project path memory'
      exact (hstart.symm.trans hmemory).trans hend

/-- A project that differs in imports only has the same units elsewhere: a unit with the same
imports in both is resolved to the same. -/
theorem resolveProject_unit_agreesOn (h : resolver'.forgetImports = resolver.forgetImports)
    {project : Nat} {fact fact' : ProjectFact} (hfact : fact'.forgetImports = fact.forgetImports)
    (hproject : resolver.index.projectIndex? fact.path = some project) {place : Nat}
    {unit : UnitFact} (hunit : fact.units[place]? = some unit)
    (hunit' : fact'.units[place]? = some unit)
    (hfile : SameImports resolver resolver' unit.path) :
    (resolver'.resolveProject fact').1.units[place]? =
      (resolver.resolveProject fact).1.units[place]? := by
  have hpath : fact'.path = fact.path := (congrArg ProjectFact.path hfact :)
  have hproject' : resolver'.index.projectIndex? fact'.path = some project := by
    rw [hpath, ← hproject]
    exact (congrArg (fun resolver => resolver.index.projectIndex? fact.path) h :)
  have hunits : (fact'.units.take place).map UnitFact.forgetImports =
      (fact.units.take place).map UnitFact.forgetImports := by
    rw [List.map_take, List.map_take]
    exact congrArg (List.take place) (congrArg ProjectFact.units hfact :)
  rw [resolver.resolveProject_unit project hproject,
    resolver'.resolveProject_unit project hproject', hunit, hunit', hpath, Option.map_some,
    Option.map_some]
  rw [← resolver'.rememberedFrom_forgetImports, hunits, resolver'.rememberedFrom_forgetImports]
  refine congrArg some ?_
  have hmemory := rememberedFrom_agreesOn h project fact.path (fact.units.take place) (.refl _ {})
  exact (resolveUnit_agreesOn h hfile project fact.path _ _ hmemory).1

end Resolver

/-! ## Repositories -/

namespace RepositoryFact

/-- The unit at a position of the project of a path, as it is first listed. -/
def unitAt? (repo : RepositoryFact) (path : String) (place : Nat) : Option UnitFact :=
  (repo.firstListings.find? fun fact => fact.path = path).bind fun fact => fact.units[place]?

/-- The repository with its names resolved by its own index. -/
def resolvedWith (repo : RepositoryFact) (sep : Separator) (policy : FallbackPolicy) :
    RepositoryFact :=
  ((Resolver.mk (ScopeIndex.build repo sep).1 policy).resolveRepository repo).1

/-- The project of a path, after every project has been replaced by one of the same path. -/
theorem unitAt?_of_map {repo repo' : RepositoryFact} {replace : ProjectFact → ProjectFact}
    (hpath : ∀ fact, (replace fact).path = fact.path)
    (h : repo'.firstListings = repo.firstListings.map replace) (path : String) (place : Nat) :
    repo'.unitAt? path place =
      (repo.firstListings.find? fun fact => fact.path = path).bind fun fact =>
        (replace fact).units[place]? := by
  have hsame : ((fun fact : ProjectFact => decide (fact.path = path)) ∘ replace) =
      fun fact => decide (fact.path = path) := by
    funext fact
    simp [hpath]
  rw [unitAt?, h, List.find?_map, hsame, Option.bind_map]
  rfl

variable {repo : RepositoryFact} {sep : Separator} {policy : FallbackPolicy}

/-- **The imports of a unit are not noticed in another one**, unless this has the same path and the
other imports change the table under that path. -/
theorem unitAt?_setImports {path path' : String} {place place' : Nat} {changed unit : UnitFact}
    (hchanged : repo.unitAt? path place = some changed)
    (hunit : repo.unitAt? path' place' = some unit) (imports : List ImportFact)
    (hne : (path', place') ≠ (path, place))
    (htable : unit.path = changed.path →
      (ScopeIndex.build (repo.setImports path place imports) sep).1.importsOf? unit.path =
        (ScopeIndex.build repo sep).1.importsOf? unit.path) :
    ((repo.setImports path place imports).resolvedWith sep policy).unitAt? path' place' =
      (repo.resolvedWith sep policy).unitAt? path' place' := by
  obtain ⟨fact, hfact, hchanged'⟩ := Option.bind_eq_some_iff.1 hchanged
  obtain ⟨other, hother, hunit'⟩ := Option.bind_eq_some_iff.1 hunit
  obtain rfl : fact.path = path := by simpa using List.find?_some hfact
  obtain rfl : other.path = path' := by simpa using List.find?_some hother
  have hresolver : (Resolver.mk (ScopeIndex.build (repo.setImports fact.path place imports) sep).1
      policy).forgetImports = (Resolver.mk (ScopeIndex.build repo sep).1 policy).forgetImports :=
    congrArg (Resolver.mk · policy) (ScopeIndex.forgetImports_build
      (repo.forgetImports_firstListings_setImports fact.path place imports) sep)
  have htable' : (ScopeIndex.build (repo.setImports fact.path place imports) sep).1.importsOf?
      unit.path = (ScopeIndex.build repo sep).1.importsOf? unit.path := by
    by_cases hpath : unit.path = changed.path
    · exact htable hpath
    · exact ScopeIndex.importsOf?_setImports (List.mem_of_find?_eq_some hfact) hchanged' imports
        sep hpath
  have hkept : (other.setImports fact.path place imports).units[place']? = some unit := by
    unfold ProjectFact.setImports
    split
    next hpath =>
      have hplace : place ≠ place' := fun heq => hne (by rw [hpath, heq])
      rw [List.getElem?_modify_ne _ _ hplace, hunit']
    next => exact hunit'
  obtain ⟨position, hposition⟩ := List.mem_iff_getElem?.1 (List.mem_of_find?_eq_some hother)
  have hproject : (ScopeIndex.build repo sep).1.projectIndex? other.path = some position :=
    ScopeIndex.projectIndex?_of_getElem? (by rw [List.getElem?_map, hposition, Option.map_some])
  have hbefore := unitAt?_of_map
    (Resolver.mk (ScopeIndex.build repo sep).1 policy).resolveProject_path
    (Resolver.firstListings_resolveRepository _ repo) other.path place'
  have hlistings := Resolver.firstListings_resolveRepository
    ⟨(ScopeIndex.build (repo.setImports fact.path place imports) sep).1, policy⟩
    (repo.setImports fact.path place imports)
  rw [firstListings_setImports, List.map_map] at hlistings
  have hafter := unitAt?_of_map (fun listing => by simp) hlistings other.path place'
  unfold resolvedWith
  rw [hbefore, hafter, hother, Option.bind_some, Option.bind_some]
  exact Resolver.resolveProject_unit_agreesOn hresolver
    (other.forgetImports_setImports fact.path place imports) hproject hunit' hkept htable'

/-- Two projects with a program each, in files of the same path, and a stock of two items. -/
def programs : RepositoryFact where
  solutions := [{ path := "all", projects := [shop, office, stock] }]
where
  shop : ProjectFact :=
    { path := "shop"
      units := [importing "Program" "Shop" "Order", importing "Bill" "Shop" "Bill"] }
  office : ProjectFact :=
    { path := "office", units := [importing "Program" "Office" "Desk"] }
  stock : ProjectFact :=
    { path := "stock"
      units := [{
        path := "Items"
        types := [{ name := "Item", namespaceName := "Books" },
          { name := "Item", namespaceName := "Tools" }] }] }
  /-- A unit that imports the books, with one type that has a field. -/
  importing (path namespaceName name : String) : UnitFact :=
    { path
      imports := [.plain "Books"]
      types := [{
        name, namespaceName
        fields := [{ name := "item", typeRef := { name := "Item" } }] }] }

/-- The types of the fields of a unit. -/
def fieldTypesAt (repo : RepositoryFact) (path : String) (place : Nat) : Option (List String) :=
  (repo.unitAt? path place).map fun unit => unit.types.flatMap fun type =>
    type.fields.map fun field => field.typeRef.name

/-- **Imports are noticed in a file of the same path**: the shop orders a tool when it is the office
that imports the tools. -/
theorem programs_leak :
    let changed := programs.setImports "office" 0 [.plain "Tools"]
    (programs.projects.map ProjectFact.path).Nodup ∧
      (programs.resolvedWith .dot .referencesThenGlobal).fieldTypesAt "shop" 0 =
        some ["Books.Item"] ∧
      (changed.resolvedWith .dot .referencesThenGlobal).fieldTypesAt "shop" 0 =
        some ["Tools.Item"] ∧
      (changed.resolvedWith .dot .referencesThenGlobal).unitAt? "shop" 0 ≠
        (programs.resolvedWith .dot .referencesThenGlobal).unitAt? "shop" 0 := by
  intro changed
  have hbefore : (programs.resolvedWith .dot .referencesThenGlobal).fieldTypesAt "shop" 0 =
      some ["Books.Item"] := by decide +kernel
  have hafter : (changed.resolvedWith .dot .referencesThenGlobal).fieldTypesAt "shop" 0 =
      some ["Tools.Item"] := by decide +kernel
  refine ⟨by decide, hbefore, hafter, fun hsame => ?_⟩
  rw [fieldTypesAt, hsame] at hafter
  rw [fieldTypesAt, hafter] at hbefore
  exact absurd hbefore (by decide)

/-- In a file of another path they are not noticed. -/
theorem programs_local :
    let changed := programs.setImports "office" 0 [.plain "Tools"]
    (changed.resolvedWith .dot .referencesThenGlobal).unitAt? "shop" 1 =
        (programs.resolvedWith .dot .referencesThenGlobal).unitAt? "shop" 1 ∧
      (programs.resolvedWith .dot .referencesThenGlobal).fieldTypesAt "shop" 1 =
        some ["Books.Item"] :=
  ⟨@unitAt?_setImports programs .dot .referencesThenGlobal "office" "shop" 0 1
    (programs.importing "Program" "Office" "Desk") (programs.importing "Bill" "Shop" "Bill")
    rfl rfl [.plain "Tools"] (by decide) (fun heq => absurd heq (by decide)), by decide +kernel⟩

end RepositoryFact

end FactGraph
