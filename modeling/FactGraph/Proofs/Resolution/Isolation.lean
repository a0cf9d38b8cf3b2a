import FactGraph.Proofs.Resolution.Agreement
import FactGraph.Proofs.Resolution.Frame
import FactGraph.Proofs.Resolution.Settled
import FactGraph.Proofs.Scope.Replacement

/-!
# Projects that are not referred to

When names are looked for in a project and in those that it refers to, the other projects should
make no difference to it: their units may be replaced by any others, and the project is resolved as
before, with the same findings.

Almost all that is asked while a project is resolved is asked from the project, and has the same
answer then. Two questions are asked by full name alone, whichever project declares it: what the
generic parameters of the types around a declaration are, and whether a type declares a method that
is called without an owner. Through them a project that is not referred to can be noticed, as soon
as it declares a type of the same full name. If their answers stay the same, it cannot.

## Main definitions

* `Resolver.AnswersAlike`: the two questions have the same answers
* `Resolver.resultFor`: what a resolved repository says about a project

## Main results

* `seesAlike_replaceUnits`: the scopes of a project see the same
* `resultFor_replaceUnits`: the project is resolved the same
-/

namespace FactGraph

open ResolveM (Alike)

namespace Resolver

variable {resolver resolver' : Resolver} {scope : ResolutionScope}

/-! ## One project -/

/-- **A type that is asked whether it declares a method that is called without an owner**: the
innermost type around the call, or what a type with statically imported members stands for there,
as far as is remembered. -/
def MayOwn (resolver : Resolver) (project : Nat) (fact : ProjectFact) (scope : ResolutionScope)
    (owner : String) : Prop :=
  owner = scope.currentType?.getD "" ∨
    ∃ entry ∈ resolver.importEntries scope .staticMember, ∃ memory : Memory,
      memory.Faithful resolver (ScopeIn resolver project fact) ∧
        owner = ((resolver.resolveName scope entry.sourceName).run memory).1

/-- **The two resolvers answer alike where they are asked by full name alone**, without regard to
the project that asks: for the generic parameters of the types around a declaration, and for the
methods of the types that may own a call. -/
structure AnswersAlike (resolver resolver' : Resolver) (project : Nat) (fact : ProjectFact) :
    Prop where
  genericParameters : ∀ unit ∈ fact.units, ∀ type ∈ unit.types, type.isNamed →
    ∀ fullName ∈ resolver.enclosingChain type,
      resolver'.index.genericParameters fullName = resolver.index.genericParameters fullName
  declaresMethod : ∀ unit ∈ fact.units, ∀ type ∈ unit.types, type.isNamed →
    ∀ call ∈ type.ownerless (resolver.scopeOf project fact.path unit.path type),
      ∀ owner, resolver.MayOwn project fact call.1 owner →
        resolver'.index.declaresMethod owner call.2 = resolver.index.declaresMethod owner call.2

theorem scopeOf_congr {project : Nat} {fact : ProjectFact}
    (hsep : resolver'.separator = resolver.separator)
    (h : AnswersAlike resolver resolver' project fact) {unit : UnitFact} (hunit : unit ∈ fact.units)
    {type : TypeFact} (htype : type ∈ unit.types) (hnamed : type.isNamed) :
    resolver'.scopeOf project fact.path unit.path type =
      resolver.scopeOf project fact.path unit.path type := by
  have hchain : resolver'.enclosingChain type = resolver.enclosingChain type := by
    rw [enclosingChain, enclosingChain, hsep]
  rw [scopeOf, scopeOf, hchain,
    List.flatMap_congr (h.genericParameters unit hunit type htype hnamed)]

/-- **A project is resolved alike**, if the same is seen from all its scopes and the answers by full
name alone are the same. -/
theorem resolveProject_congr {project : Nat} {fact : ProjectFact}
    (hsep : resolver'.separator = resolver.separator)
    (hproject : resolver.index.projectIndex? fact.path = some project)
    (hproject' : resolver'.index.projectIndex? fact.path = some project)
    (hsees : ∀ scope, ScopeIn resolver project fact scope →
      SeesAlike resolver resolver' scope scope)
    (hanswers : AnswersAlike resolver resolver' project fact) :
    resolver'.resolveProject fact = resolver.resolveProject fact := by
  have hlookup (scope : ResolutionScope) (hscope : ScopeIn resolver project fact scope) :
      ∀ base, Alike (Memory.Shared (Memory.Faithful resolver (ScopeIn resolver project fact)))
        (resolver.lookupOnce scope base) (resolver'.lookupOnce scope base) := by
    refine lookupOnce_alike (hsees scope hscope) fun base memory hmemory => ?_
    exact hmemory.lookedUp hscope base
  have hwalk := mapNames_action_alike
    (fun unit hunit type htype hnamed => scopeOf_congr hsep hanswers hunit htype hnamed) hlookup
    fun unit hunit type htype hnamed call hcall hscope => by
      have hdeclares := hanswers.declaresMethod unit hunit type htype hnamed call hcall
      refine resolveOwner_alike (hlookup _ hscope) ((hsees _ hscope).importEntries _)
        (hdeclares _ (.inl rfl)) fun entry hentry memory _ hmemory => ?_
      exact hdeclares _ (.inr ⟨entry, hentry, memory, hmemory.2, rfl⟩)
  unfold resolveProject
  rw [hproject, hproject']
  dsimp only
  obtain ⟨hresult, hmemory, -⟩ := hwalk {} {} ⟨rfl, by simp [Memory.Faithful]⟩
  rw [Prod.ext hresult hmemory]

/-- The resolver of a repository in which names are looked for in a project and in those that it
refers to. -/
def ofReferences (repo : RepositoryFact) (sep : Separator) : Resolver :=
  ⟨(ScopeIndex.build repo sep).1, .referencesOnly⟩

section Replacement

variable {repo : RepositoryFact} {sep : Separator} {fact other : ProjectFact}
  {project place : Nat} {units : List UnitFact}

theorem fallbackMatch_replaceUnits (hother : repo.firstListings[place]? = some other)
    (hne : scope.project ≠ place)
    (hreach : place ∉ (ScopeIndex.build repo sep).1.reachableProjects scope.project)
    (name : String) :
    (ofReferences (repo.replaceUnits other.path units) sep).fallbackMatch scope name =
      (ofReferences repo sep).fallbackMatch scope name := by
  have horder (repo : RepositoryFact) : (ofReferences repo sep).searchOrder scope =
      scope.project :: (ScopeIndex.build repo sep).1.reachableProjects scope.project := rfl
  have hcandidates : ∀ near ∈ (ofReferences repo sep).searchOrder scope,
      (ofReferences (repo.replaceUnits other.path units) sep).candidatesIn name near =
        (ofReferences repo sep).candidatesIn name near := by
    intro near hnear
    have hnear' : near ≠ place := by
      rintro rfl
      rw [horder, List.mem_cons] at hnear
      exact hnear.elim (fun heq => hne heq.symm) hreach
    rw [candidatesIn, candidatesIn]
    dsimp only [ofReferences]
    rw [ScopeIndex.declarationsEndingWith_replaceUnits hother units hnear']
  have horder' : (ofReferences (repo.replaceUnits other.path units) sep).searchOrder scope =
      (ofReferences repo sep).searchOrder scope := by
    rw [horder, horder, ScopeIndex.reachableProjects_replaceUnits]
  rw [fallbackMatch, fallbackMatch, horder', List.map_congr_left hcandidates]

/-- **The scopes of a project see the same**, whatever stands in the units of a project that it does
not reach. -/
theorem seesAlike_replaceUnits (hfact : repo.firstListings[project]? = some fact)
    (hother : repo.firstListings[place]? = some other) (hne : project ≠ place)
    (hreach : place ∉ (ScopeIndex.build repo sep).1.reachableProjects project)
    (hpaths : ∀ unit ∈ fact.units, ∀ foreign ∈ other.units ++ units, foreign.path ≠ unit.path)
    (hscope : ScopeIn (ofReferences repo sep) project fact scope) :
    SeesAlike (ofReferences repo sep) (ofReferences (repo.replaceUnits other.path units) sep)
      scope scope := by
  obtain ⟨rfl, -, unit, hunit, type, htype, hnamed, hfile, hnamespace⟩ := hscope.spec
  have hmem := RepositoryFact.mem_named hfact hunit htype hnamed
  have hfact' := RepositoryFact.getElem?_replaceUnits hother units hfact hne
  have hmem' := RepositoryFact.mem_named hfact' hunit htype hnamed
  constructor
  · simp [ofReferences, separator]
  · rw [surroundings, surroundings, hnamespace]
    exact congrArg _ (ScopeIndex.build_chain_congr hmem hmem' sep)
  · exact ScopeIndex.isDeclaredIn_replaceUnits hother units hne
  · exact ScopeIndex.isVisibleFrom_replaceUnits hother units hne hreach
  · rw [hfile]
    refine ScopeIndex.importsOf?_replaceUnits hother units ?_ ?_
    · exact fun foreign hforeign => hpaths unit hunit foreign (List.mem_append_left _ hforeign)
    · exact fun foreign hforeign => hpaths unit hunit foreign (List.mem_append_right _ hforeign)
  · exact fallbackMatch_replaceUnits hother hne hreach

end Replacement

/-! ## Repositories -/

variable {repo : RepositoryFact} {fact : ProjectFact}

/-- The listings of a path, resolved. -/
theorem filter_projects_resolveRepository (resolver : Resolver) (h : fact ∈ repo.firstListings) :
    ((resolver.resolveRepository repo).1.projects.filter fun listing =>
        listing.path = fact.path) =
      (repo.projects.filter fun listing => listing.path = fact.path).map fun _ =>
        (resolver.resolveProject fact).1 := by
  rw [projects_resolveRepository, List.filter_map]
  have hpaths : ((fun listing : ProjectFact => decide (listing.path = fact.path)) ∘
      listed (resolver.resolveListings repo)) =
        fun listing : ProjectFact => decide (listing.path = fact.path) := by
    funext listing
    simp [listed_path]
  rw [hpaths]
  refine List.map_congr_left fun listing hlisting => resolver.listed_of_path h ?_
  simpa using (List.mem_filter.1 hlisting).2

/-- The findings of a repository that are made in a project are those of the project. -/
theorem filter_diagnostics_resolveRepository (resolver : Resolver)
    (h : fact ∈ repo.firstListings) :
    ((resolver.resolveRepository repo).2.entries.filter fun diagnostic =>
        diagnostic.context.projectPath = some fact.path) =
      (resolver.resolveProject fact).2.entries := by
  have hnodup := repo.nodup_firstListings
  have hentries : (resolver.resolveRepository repo).2.entries =
      repo.firstListings.flatMap fun listing => (resolver.resolveProject listing).2.entries := by
    simp [resolveRepository, resolveListings, List.flatMap_map]
  have hforeign (listings : List ProjectFact) (hnot : fact.path ∉ listings.map ProjectFact.path) :
      ((listings.flatMap fun listing => (resolver.resolveProject listing).2.entries).filter
        fun diagnostic => diagnostic.context.projectPath = some fact.path) = [] := by
    rw [List.filter_eq_nil_iff]
    intro diagnostic hdiagnostic
    obtain ⟨listing, hlisting, hdiagnostic⟩ := List.mem_flatMap.1 hdiagnostic
    rw [resolver.resolveProject_reportsFor listing diagnostic hdiagnostic]
    simp only [Option.some.injEq, decide_eq_true_eq]
    exact fun heq => hnot (heq ▸ List.mem_map_of_mem hlisting)
  obtain ⟨front, back, hsplit⟩ := List.append_of_mem h
  rw [hsplit, List.map_append, List.map_cons, List.nodup_middle, List.nodup_cons,
    List.mem_append, not_or] at hnodup
  rw [hentries, hsplit, List.flatMap_append, List.flatMap_cons, List.filter_append,
    List.filter_append, hforeign front hnodup.1.1, hforeign back hnodup.1.2, List.nil_append,
    List.append_nil, List.filter_eq_self]
  exact fun diagnostic hdiagnostic => by
    simpa using resolver.resolveProject_reportsFor fact diagnostic hdiagnostic

/-- What a resolved repository says about the project of a path: its listings and the findings that
are made in it. -/
def resultFor (path : String) (result : RepositoryFact × Diagnostics) :
    List ProjectFact × List Diagnostic :=
  (result.1.projects.filter fun listing => listing.path = path,
    result.2.entries.filter fun diagnostic => diagnostic.context.projectPath = some path)

/-- **A project is resolved the same, whatever stands in the units of a project that it does not
reach**, as long as the answers by full name alone are the same. -/
theorem resultFor_replaceUnits {repo : RepositoryFact} {sep : Separator} {fact other : ProjectFact}
    {project place : Nat} {units : List UnitFact}
    (hfact : repo.firstListings[project]? = some fact)
    (hother : repo.firstListings[place]? = some other) (hne : project ≠ place)
    (hreach : place ∉ (ScopeIndex.build repo sep).1.reachableProjects project)
    (hpaths : ∀ unit ∈ fact.units, ∀ foreign ∈ other.units ++ units, foreign.path ≠ unit.path)
    (hanswers : AnswersAlike (ofReferences repo sep)
      (ofReferences (repo.replaceUnits other.path units) sep) project fact) :
    resultFor fact.path ((ofReferences (repo.replaceUnits other.path units) sep).resolveRepository
        (repo.replaceUnits other.path units)) =
      resultFor fact.path ((ofReferences repo sep).resolveRepository repo) := by
  have hpath : (repo.firstListings.map ProjectFact.path)[project]? = some fact.path := by
    rw [List.getElem?_map, hfact, Option.map_some]
  have hindex : (ofReferences repo sep).index.projectIndex? fact.path = some project :=
    ScopeIndex.projectIndex?_of_getElem? hpath
  have hsame := resolveProject_congr (by simp [ofReferences, separator]) hindex
    ((ScopeIndex.projectIndex?_replaceUnits other.path units fact.path).trans hindex)
    (fun scope => seesAlike_replaceUnits hfact hother hne hreach hpaths) hanswers
  have hmem := List.mem_of_getElem? hfact
  have hmem' := List.mem_of_getElem? (RepositoryFact.getElem?_replaceUnits hother units hfact hne)
  have hlistings : ((repo.replaceUnits other.path units).projects.filter fun listing =>
      listing.path = fact.path).map (fun _ => ((ofReferences repo sep).resolveProject fact).1) =
        (repo.projects.filter fun listing => listing.path = fact.path).map
          fun _ => ((ofReferences repo sep).resolveProject fact).1 := by
    rw [RepositoryFact.projects_replaceUnits, List.filter_map, List.map_map]
    simp [Function.comp_def]
  rw [resultFor, resultFor, filter_projects_resolveRepository _ hmem',
    filter_diagnostics_resolveRepository _ hmem', filter_projects_resolveRepository _ hmem,
    filter_diagnostics_resolveRepository _ hmem, hsame, hlistings]

end Resolver

/-! ## Answers by full name alone -/

namespace Resolver

/-- Two projects that do not refer to each other. A cart has a field and a call without an owner;
what they stand for is declared next to it. -/
def market : RepositoryFact where
  solutions := [{ path := "all", projects := [attic, shop] }]
where
  attic : ProjectFact := { path := "attic" }
  shop : ProjectFact := { path := "shop", units := [unit] }
  unit : UnitFact :=
    { path := "shop/cart"
      imports := [.staticMember "Shop.Prices"]
      types := [cart, { name := "Prices", namespaceName := "Shop", methods := [{ name := "round" }] },
        { name := "Item", namespaceName := "Shop" }] }
  cart : TypeFact :=
    { name := "Cart"
      namespaceName := "Shop"
      fields := [{ name := "first", typeRef := { name := "Item" } }]
      methods := [{ name := "total", calledMethods := [{ name := "round" }] }] }

/-- A unit with one type, which has a generic parameter and a method. -/
def genericUnit (path namespaceName name : String) : UnitFact where
  path := path
  types := [{ name, namespaceName, genericParameters := ["Item"], methods := [{ name := "round" }] }]

/-- The types of the fields and the owners of the calls. -/
def typesNamed (projects : List ProjectFact) : List String :=
  projects.flatMap fun project => project.units.flatMap fun unit => unit.types.flatMap fun fact =>
    fact.fields.map (fun field => field.typeRef.name) ++
      fact.methods.flatMap fun method => method.calledMethods.map CallFact.containingType

/-- **A project that is not referred to can be noticed**: when it declares the type around an
occurrence too, its generic parameters hide a type, and its methods take over a call. -/
theorem market_leaks :
    let changed := market.replaceUnits "attic" [genericUnit "attic/cart" "Shop" "Cart"]
    let before := resultFor "shop" ((ofReferences market .dot).resolveRepository market)
    let after := resultFor "shop" ((ofReferences changed .dot).resolveRepository changed)
    (market.projects.map ProjectFact.path).Nodup ∧
      market.firstListings[1]? = some market.shop ∧ market.firstListings[0]? = some market.attic ∧
      0 ∉ (ScopeIndex.build market .dot).1.reachableProjects 1 ∧
      (∀ unit ∈ market.shop.units,
        ∀ foreign ∈ market.attic.units ++ [genericUnit "attic/cart" "Shop" "Cart"],
          foreign.path ≠ unit.path) ∧
      typesNamed before.1 = ["Shop.Item", "Shop.Prices"] ∧ typesNamed after.1 = ["Item", "Shop.Cart"] ∧
      after ≠ before := by
  intro changed before after
  have hbefore : typesNamed before.1 = ["Shop.Item", "Shop.Prices"] := by decide +kernel
  have hafter : typesNamed after.1 = ["Item", "Shop.Cart"] := by decide +kernel
  refine ⟨by decide, rfl, rfl, by decide, by decide, hbefore, hafter, fun hsame => ?_⟩
  rw [hsame, hbefore] at hafter
  exact absurd hafter (by decide)

/-- A type with another full name is not noticed. -/
theorem market_isolated :
    let changed := market.replaceUnits "attic" [genericUnit "attic/box" "Attic" "Box"]
    AnswersAlike (ofReferences market .dot) (ofReferences changed .dot) 1 market.shop ∧
      resultFor "shop" ((ofReferences changed .dot).resolveRepository changed) =
        resultFor "shop" ((ofReferences market .dot).resolveRepository market) := by
  intro changed
  have hprices (scope : ResolutionScope)
      (hscope : ScopeIn (ofReferences market .dot) 1 market.shop scope) :
      (ofReferences market .dot).lookup scope "Shop.Prices" = .found "Shop.Prices" .qualified := by
    refine lookup_of_isVisible (by decide) (by decide +kernel) ?_
    rw [isVisible, hscope.spec.1]
    decide +kernel
  have hplain : TypeName.Plain "Shop.Prices" := by decide
  have hcalls : ∀ unit ∈ market.shop.units, ∀ type ∈ unit.types,
      ∀ call ∈ type.ownerless ((ofReferences market .dot).scopeOf 1 "shop" unit.path type),
        call = ((ofReferences market .dot).scopeOf 1 "shop" "shop/cart" market.cart, "round") := by
    decide +kernel
  have hanswers : AnswersAlike (ofReferences market .dot) (ofReferences changed .dot) 1
      market.shop := by
    refine ⟨by decide +kernel, fun unit hunit type htype hnamed call hcall owner howner => ?_⟩
    obtain rfl := hcalls unit hunit type htype call hcall
    rcases howner with rfl | ⟨entry, hentry, memory, hmemory, rfl⟩
    · decide +kernel
    · have hentries : ∀ entry ∈ (ofReferences market .dot).importEntries
          ((ofReferences market .dot).scopeOf 1 "shop" "shop/cart" market.cart) .staticMember,
            entry.sourceName = "Shop.Prices" := by
        decide +kernel
      have hscope : ScopeIn (ofReferences market .dot) 1 market.shop
          ((ofReferences market .dot).scopeOf 1 "shop" "shop/cart" market.cart) := by
        have hwithin := @ScopeIn.within (ofReferences market .dot) 1 market.shop market.unit
          market.cart (List.mem_singleton.2 rfl) List.mem_cons_self (by decide) []
        rwa [ResolutionScope.withTypeParameters_nil] at hwithin
      have hname := resolveName_of_answer (by decide) (parse_of_plain hplain) (by decide +kernel)
        (lookupOnce_of_faithful hmemory hscope
          fun scope hscope _ _ => congrArg Resolution.fullName? (hprices scope hscope)) hplain
      rw [hentries entry hentry, hname]
      decide +kernel
  exact ⟨hanswers, @resultFor_replaceUnits market .dot market.shop market.attic 1 0
    [genericUnit "attic/box" "Attic" "Box"] rfl rfl (by decide) (by decide) (by decide) hanswers⟩

end Resolver

end FactGraph
