import FactGraph.Proofs.Fact.Counts
import FactGraph.Proofs.Resolution.Frame

/-!
# Resolving replaces names only

The shape of a fact is the fact with the names at its occurrences erased: those of references, the
owners of calls, and the names that a metric counts by, of which the total is left. Nothing else is
erased, neither a declared name nor a modifier, the length of a list or the nesting of arguments and
local functions. Resolving keeps the shape of every project.

The scope index reads the shapes of the first listings and nothing else. So a resolved repository
has the index of the repository it came from, and the same findings are made on the way, whatever
index the names were resolved with.

## Main definitions

* `TypeRef.shape`, `MetricFact.shape`, `TypeFact.shape`, `ProjectFact.shape`: what resolving keeps

## Main results

* `MetricFact.total_mapNames`: names that become equal lose no count
* `TypeFact.mapNames_shape`: replacing names keeps the shape of a declaration
* `ScopeIndex.build_congr`: the index depends on the shapes of the first listings
* `Resolver.resolveRepository_frame`: what resolving a repository keeps
-/

namespace FactGraph

/-! ## Shapes -/

namespace TypeRef

mutual

/-- A reference without its names: how many arguments there are, and their arguments in turn. -/
def shape : TypeRef → TypeRef
  | ⟨_, args⟩ => ⟨"", shapeAll args⟩

/-- The shapes of the references of a list. -/
def shapeAll : List TypeRef → List TypeRef
  | [] => []
  | arg :: args => arg.shape :: shapeAll args

end

end TypeRef

/-- An attribute without the names of its type. -/
def AttributeFact.shape (fact : AttributeFact) : AttributeFact :=
  { fact with typeRef := fact.typeRef.shape }

/-- A call site without the owner and the names of the parameter types. -/
def CallFact.shape (fact : CallFact) : CallFact :=
  { fact with containingType := "", parameterTypes := fact.parameterTypes.map TypeRef.shape }

/-- A metric of which only the total is left. -/
def MetricFact.shape (fact : MetricFact) : MetricFact :=
  { fact with counts := Counts.empty.add "" fact.counts.total }

/-- A parameter without the names of its type and attributes. -/
def ParameterFact.shape (fact : ParameterFact) : ParameterFact :=
  { fact with
    typeRef := fact.typeRef.shape
    attributes := fact.attributes.map AttributeFact.shape }

/-- A local variable without the names of its type. -/
def LocalVariableFact.shape (fact : LocalVariableFact) : LocalVariableFact :=
  { fact with typeRef := fact.typeRef.shape }

/-- What a method declares apart from its local functions, without names of types. -/
def MethodHead.shape (head : MethodHead) : MethodHead :=
  { head with
    returnType := head.returnType.map TypeRef.shape
    parameters := head.parameters.map ParameterFact.shape
    localVariables := head.localVariables.map LocalVariableFact.shape
    calledMethods := head.calledMethods.map CallFact.shape
    attributes := head.attributes.map AttributeFact.shape }

namespace MethodFact

mutual

/-- A method without names of types, like its local functions. -/
def shape : MethodFact → MethodFact
  | ⟨head, localFunctions⟩ => ⟨head.shape, shapeAll localFunctions⟩

/-- The shapes of the methods of a list. -/
def shapeAll : List MethodFact → List MethodFact
  | [] => []
  | method :: methods => method.shape :: shapeAll methods

end

end MethodFact

/-- A field without the names of its type and attributes. -/
def FieldFact.shape (fact : FieldFact) : FieldFact :=
  { fact with
    typeRef := fact.typeRef.shape
    attributes := fact.attributes.map AttributeFact.shape }

/-- A property without the names of its type, accessors and attributes. -/
def PropertyFact.shape (fact : PropertyFact) : PropertyFact :=
  { fact with
    typeRef := fact.typeRef.shape
    accessors := fact.accessors.map MethodFact.shape
    attributes := fact.attributes.map AttributeFact.shape }

/-- A declaration without the names of the types that it refers to. -/
def TypeFact.shape (fact : TypeFact) : TypeFact :=
  { fact with
    baseTypes := fact.baseTypes.map TypeRef.shape
    fields := fact.fields.map FieldFact.shape
    properties := fact.properties.map PropertyFact.shape
    methods := fact.methods.map MethodFact.shape
    constructors := fact.constructors.map MethodFact.shape
    destructor := fact.destructor.map MethodFact.shape
    attributes := fact.attributes.map AttributeFact.shape
    metrics := fact.metrics.map MetricFact.shape }

/-- A unit with the shapes of its declarations. -/
def UnitFact.shape (fact : UnitFact) : UnitFact :=
  { fact with types := fact.types.map TypeFact.shape }

/-- A project with the shapes of its units. -/
def ProjectFact.shape (fact : ProjectFact) : ProjectFact :=
  { fact with units := fact.units.map UnitFact.shape }

@[simp] theorem MethodFact.shape_name (fact : MethodFact) : fact.shape.name = fact.name := by
  obtain ⟨head, localFunctions⟩ := fact
  rw [MethodFact.shape]
  rfl

/-! ## Replacing names -/

open ResolveM (Yields)

section References

variable (act : String → ResolveM String)

mutual

theorem TypeRef.mapNames_shape :
    (ref : TypeRef) → Yields (ref.mapNames act) fun result => result.shape = ref.shape
  | ⟨name, args⟩ => by
    unfold TypeRef.mapNames
    refine .skip fun _ => (TypeRef.mapNamesAll_shape args).bind fun args hargs => .pure ?_
    rw [TypeRef.shape, TypeRef.shape, hargs]

theorem TypeRef.mapNamesAll_shape :
    (refs : List TypeRef) →
      Yields (TypeRef.mapNamesAll act refs) fun results =>
        TypeRef.shapeAll results = TypeRef.shapeAll refs
  | [] => by
    unfold TypeRef.mapNamesAll
    exact .pure rfl
  | ref :: refs => by
    unfold TypeRef.mapNamesAll
    refine (TypeRef.mapNames_shape ref).bind fun ref href => ?_
    refine (TypeRef.mapNamesAll_shape refs).bind fun refs hrefs => .pure ?_
    rw [TypeRef.shapeAll, TypeRef.shapeAll, href, hrefs]

end

theorem AttributeFact.mapNames_shape (fact : AttributeFact) :
    Yields (fact.mapNames act) fun result => result.shape = fact.shape := by
  refine (TypeRef.mapNames_shape act fact.typeRef).bind fun ref href => .pure ?_
  rw [AttributeFact.shape, AttributeFact.shape, href]

theorem ParameterFact.mapNames_shape (fact : ParameterFact) :
    Yields (fact.mapNames act) fun result => result.shape = fact.shape := by
  refine (TypeRef.mapNames_shape act fact.typeRef).bind fun ref href => ?_
  refine (Yields.mapM fun fact _ => AttributeFact.mapNames_shape act fact).bind
    fun attributes hattributes => .pure ?_
  rw [ParameterFact.shape, ParameterFact.shape, href, hattributes]

theorem LocalVariableFact.mapNames_shape (fact : LocalVariableFact) :
    Yields (fact.mapNames act) fun result => result.shape = fact.shape := by
  refine (TypeRef.mapNames_shape act fact.typeRef).bind fun ref href => .pure ?_
  rw [LocalVariableFact.shape, LocalVariableFact.shape, href]

theorem FieldFact.mapNames_shape (fact : FieldFact) :
    Yields (fact.mapNames act) fun result => result.shape = fact.shape := by
  refine (TypeRef.mapNames_shape act fact.typeRef).bind fun ref href => ?_
  refine (Yields.mapM fun fact _ => AttributeFact.mapNames_shape act fact).bind
    fun attributes hattributes => .pure ?_
  rw [FieldFact.shape, FieldFact.shape, href, hattributes]

/-- The counts are added up name by name, so the new counts have the total of the old ones. -/
theorem Counts.foldlM_total (entries : List (String × Nat)) (counts : Counts) :
    Yields
      (entries.foldlM
        (fun (counts : Counts) (entry : String × Nat) => do
          let name ← act entry.1
          return counts.add name entry.2) counts)
      fun result => result.total = counts.total + (entries.map Prod.snd).foldr (· + ·) 0 := by
  induction entries generalizing counts with
  | nil => exact .pure rfl
  | cons entry entries ih =>
    rw [List.foldlM_cons, bind_assoc]
    refine .skip fun name => ?_
    rw [pure_bind]
    intro memory
    rw [ih (counts.add name entry.2) memory, counts.total_add]
    simp only [List.map_cons, List.foldr_cons]
    omega

/-- **Names that become equal lose no count**, whatever is done with them. -/
theorem MetricFact.total_mapNames (fact : MetricFact) :
    Yields (fact.mapNames act) fun result => result.counts.total = fact.counts.total := by
  refine (Counts.foldlM_total act fact.counts.entries .empty).bind fun counts hcounts => .pure ?_
  rw [hcounts, Counts.total_empty, Nat.zero_add, Counts.total]

theorem MetricFact.mapNames_shape (fact : MetricFact) :
    Yields (fact.mapNames act) fun result => result.shape = fact.shape := by
  intro memory
  rw [MetricFact.shape, MetricFact.shape, fact.total_mapNames act memory]
  rfl

end References

section Declarations

variable (action : NameAction ResolveM) (scope : ResolutionScope)

theorem CallFact.mapNames_shape (fact : CallFact) :
    Yields (fact.mapNames action scope) fun result => result.shape = fact.shape := by
  have hrest (owner : String) :
      Yields
        (do
          let parameterTypes ←
            fact.parameterTypes.mapM (TypeRef.mapNames (action.onName scope))
          return { fact with containingType := owner, parameterTypes })
        fun result => result.shape = fact.shape := by
    refine (Yields.mapM fun ref _ => TypeRef.mapNames_shape _ ref).bind fun refs hrefs => .pure ?_
    rw [CallFact.shape, CallFact.shape, hrefs]
  unfold CallFact.mapNames
  dsimp only
  split
  · exact .skip hrest
  · exact .skip hrest

theorem MethodHead.mapNames_shape (head : MethodHead) :
    Yields (head.mapNames action scope) fun result => result.shape = head.shape := by
  refine (Yields.optionMapM fun ref _ => TypeRef.mapNames_shape _ ref).bind fun ref href => ?_
  refine (Yields.mapM fun fact _ => ParameterFact.mapNames_shape _ fact).bind
    fun parameters hparameters => ?_
  refine (Yields.mapM fun fact _ => LocalVariableFact.mapNames_shape _ fact).bind
    fun locals hlocals => ?_
  refine (Yields.mapM fun fact _ => CallFact.mapNames_shape action scope fact).bind
    fun calls hcalls => ?_
  refine (Yields.mapM fun fact _ => AttributeFact.mapNames_shape _ fact).bind
    fun attributes hattributes => .pure ?_
  rw [MethodHead.shape, MethodHead.shape, href, hparameters, hlocals, hcalls, hattributes]

mutual

theorem MethodFact.mapNames_shape (scope : ResolutionScope) :
    (fact : MethodFact) →
      Yields (fact.mapNames action scope) fun result => result.shape = fact.shape
  | ⟨head, localFunctions⟩ => by
    unfold MethodFact.mapNames
    refine (MethodHead.mapNames_shape action _ head).bind fun head hhead => ?_
    refine (MethodFact.mapNamesAll_shape _ localFunctions).bind fun methods hmethods => .pure ?_
    rw [MethodFact.shape, MethodFact.shape, hhead, hmethods]

theorem MethodFact.mapNamesAll_shape (scope : ResolutionScope) :
    (facts : List MethodFact) →
      Yields (MethodFact.mapNamesAll action scope facts) fun results =>
        MethodFact.shapeAll results = MethodFact.shapeAll facts
  | [] => by
    unfold MethodFact.mapNamesAll
    exact .pure rfl
  | fact :: facts => by
    unfold MethodFact.mapNamesAll
    refine (MethodFact.mapNames_shape scope fact).bind fun fact hfact => ?_
    refine (MethodFact.mapNamesAll_shape scope facts).bind fun facts hfacts => .pure ?_
    rw [MethodFact.shapeAll, MethodFact.shapeAll, hfact, hfacts]

end

theorem PropertyFact.mapNames_shape (fact : PropertyFact) :
    Yields (fact.mapNames action scope) fun result => result.shape = fact.shape := by
  refine (TypeRef.mapNames_shape _ fact.typeRef).bind fun ref href => ?_
  refine (Yields.mapM fun fact _ => MethodFact.mapNames_shape action scope fact).bind
    fun accessors haccessors => ?_
  refine (Yields.mapM fun fact _ => AttributeFact.mapNames_shape _ fact).bind
    fun attributes hattributes => .pure ?_
  rw [PropertyFact.shape, PropertyFact.shape, href, haccessors, hattributes]

/-- **Replacing the names of a declaration keeps its shape.** -/
theorem TypeFact.mapNames_shape (fact : TypeFact) :
    Yields (fact.mapNames action scope) fun result => result.shape = fact.shape := by
  refine (Yields.mapM fun ref _ => TypeRef.mapNames_shape _ ref).bind fun bases hbases => ?_
  refine (Yields.mapM fun fact _ => AttributeFact.mapNames_shape _ fact).bind
    fun attributes hattributes => ?_
  refine (Yields.mapM fun fact _ => FieldFact.mapNames_shape _ fact).bind fun fields hfields => ?_
  refine (Yields.mapM fun fact _ => PropertyFact.mapNames_shape action scope fact).bind
    fun properties hproperties => ?_
  refine (Yields.mapM fun fact _ => MethodFact.mapNames_shape action scope fact).bind
    fun methods hmethods => ?_
  refine (Yields.mapM fun fact _ => MethodFact.mapNames_shape action scope fact).bind
    fun constructors hconstructors => ?_
  refine (Yields.optionMapM fun fact _ => MethodFact.mapNames_shape action scope fact).bind
    fun destructor hdestructor => ?_
  refine (Yields.mapM fun fact _ => MetricFact.mapNames_shape _ fact).bind
    fun metrics hmetrics => .pure ?_
  rw [TypeFact.shape, TypeFact.shape, hbases, hattributes, hfields, hproperties, hmethods,
    hconstructors, hdestructor, hmetrics]

theorem UnitFact.mapNames_shape (scopeOf : TypeFact → ResolutionScope) (fact : UnitFact) :
    Yields (fact.mapNames action scopeOf) fun result => result.shape = fact.shape := by
  have htypes : Yields
      (fact.types.mapM fun type =>
        if type.isNamed then type.mapNames action (scopeOf type) else pure type)
      fun types => types.map TypeFact.shape = fact.types.map TypeFact.shape := by
    refine .mapM fun type _ => ?_
    split
    · exact type.mapNames_shape action _
    · exact .pure rfl
  refine htypes.bind fun types hkept => .pure ?_
  rw [UnitFact.shape, UnitFact.shape, hkept]

theorem ProjectFact.mapNames_shape (scopeOf : String → TypeFact → ResolutionScope)
    (fact : ProjectFact) :
    Yields (fact.mapNames action scopeOf) fun result => result.shape = fact.shape := by
  refine (Yields.mapM fun unit _ => UnitFact.mapNames_shape action (scopeOf unit.path) unit).bind
    fun units hkept => .pure ?_
  rw [ProjectFact.shape, ProjectFact.shape, hkept]

end Declarations

/-! ## The scope index -/

namespace ScopeIndex

theorem declarationOf_shape (sep : Separator) (project : Nat) (filePath : String)
    (fact : TypeFact) :
    declarationOf sep project filePath fact.shape = declarationOf sep project filePath fact := by
  simp [declarationOf, TypeFact.shape, TypeFact.fullName, TypeFact.relativeName,
    TypeFact.outerName?, TypeFact.simpleName, TypeFact.trimmedNamespace, Function.comp_def]

theorem surveyType_shape (project : Nat) (projectPath filePath : String) (fact : TypeFact) :
    surveyType project projectPath filePath fact.shape =
      surveyType project projectPath filePath fact := by
  have hnamed : fact.shape.isNamed = fact.isNamed := rfl
  have hnamespace : fact.shape.namespaceName = fact.namespaceName := rfl
  simp only [surveyType, hnamed, hnamespace, declarationOf_shape]

theorem surveyUnit_shape (project : Nat) (projectPath : String) (fact : UnitFact) :
    surveyUnit project projectPath fact.shape = surveyUnit project projectPath fact := by
  simp only [surveyUnit, UnitFact.shape, List.forM_eq_forM, List.forM_map, surveyType_shape]

theorem surveyProject_shape (fact : ProjectFact) :
    surveyProject fact.shape = surveyProject fact := by
  simp only [surveyProject, ProjectFact.shape, List.forM_eq_forM, List.forM_map, surveyUnit_shape]

/-- **The index depends on the shapes of the first listings only**, like what is found wrong. -/
theorem build_congr {repo repo' : RepositoryFact}
    (h : repo'.firstListings.map ProjectFact.shape = repo.firstListings.map ProjectFact.shape)
    (sep : Separator) : build repo' sep = build repo sep := by
  have hsurvey (listings : List ProjectFact) :
      listings.forM surveyProject = (listings.map ProjectFact.shape).forM surveyProject := by
    simp only [List.forM_eq_forM, List.forM_map, surveyProject_shape]
  have hentries (index : ScopeIndex) {fact fact' : ProjectFact}
      (hfact : fact'.shape = fact.shape) (position : Nat) :
      index.linkedEntry fact' position = index.linkedEntry fact position :=
    (congrArg (index.linkedEntry · position) hfact :)
  have hgraph (index : ScopeIndex) {fact fact' : ProjectFact}
      (hfact : fact'.shape = fact.shape) (position : Nat) :
      index.refersElsewhere fact' position = index.refersElsewhere fact position :=
    (congrArg (index.refersElsewhere · position) hfact :)
  have hmissing (index : ScopeIndex) (listings : List ProjectFact) :
      index.missingReferences listings =
        index.missingReferences (listings.map ProjectFact.shape) := by
    rw [missingReferences, missingReferences, List.flatMap_map]
    rfl
  unfold build
  dsimp only
  rw [hsurvey, hsurvey repo.firstListings, hmissing, hmissing _ repo.firstListings, h,
    map_zipIdx_congr h ?_, any_zipIdx_congr h ?_]
  · exact fun _ _ position hfact => hgraph _ hfact position
  · exact fun _ _ position hfact => hentries _ hfact position

end ScopeIndex

/-! ## Repositories -/

namespace Resolver

variable (resolver : Resolver)

/-- A project keeps its shape. -/
theorem resolveProject_shape (fact : ProjectFact) :
    (resolver.resolveProject fact).1.shape = fact.shape := by
  unfold resolveProject
  split
  · rfl
  next project _ =>
    exact fact.mapNames_shape resolver.action (resolver.scopeOf project fact.path) {}

/-- The first listings keep their shapes. -/
theorem firstListings_shape (repo : RepositoryFact) :
    (resolver.resolveRepository repo).1.firstListings.map ProjectFact.shape =
      repo.firstListings.map ProjectFact.shape := by
  rw [firstListings_resolveRepository, List.map_map]
  exact List.map_congr_left fun fact _ => resolver.resolveProject_shape fact

/-- Every listing of a path is the first one, once the repository is resolved. -/
theorem eq_first_of_resolved {repo : RepositoryFact} {first listing : ProjectFact}
    (hfirst : first ∈ (resolver.resolveRepository repo).1.firstListings)
    (hlisting : listing ∈ (resolver.resolveRepository repo).1.projects)
    (hpath : listing.path = first.path) : listing = first := by
  rw [firstListings_resolveRepository] at hfirst
  obtain ⟨fact, hfact, rfl⟩ := List.mem_map.1 hfirst
  rw [projects_resolveRepository] at hlisting
  obtain ⟨written, -, rfl⟩ := List.mem_map.1 hlisting
  rw [listed_path, resolveProject_path] at hpath
  exact resolver.listed_of_path hfact hpath

/-- **What resolving a repository keeps.** Its index is the same in every part, and so is what is
found wrong while building it. Which solution lists which paths is the same. The first listings have
the same shapes, that is they differ in the names of references, the owners of calls and the names
that metrics count by, and in nothing else. Every later listing of a path has become the first. -/
theorem resolveRepository_frame (repo : RepositoryFact) (sep : Separator) :
    let resolved := (resolver.resolveRepository repo).1
    ScopeIndex.build resolved sep = ScopeIndex.build repo sep ∧
    resolved.path = repo.path ∧
    (resolved.solutions.map fun solution =>
        (solution.path, solution.projects.map ProjectFact.path)) =
      repo.solutions.map (fun solution =>
        (solution.path, solution.projects.map ProjectFact.path)) ∧
    resolved.firstListings.map ProjectFact.shape = repo.firstListings.map ProjectFact.shape ∧
    ∀ first ∈ resolved.firstListings, ∀ listing ∈ resolved.projects,
      listing.path = first.path → listing = first := by
  intro resolved
  have hshapes := resolver.firstListings_shape repo
  refine ⟨ScopeIndex.build_congr hshapes sep, rfl, ?_, hshapes, ?_⟩
  · show (repo.solutions.map _).map _ = _
    simp only [List.map_map, Function.comp_def, listed_path]
  · intro first hfirst listing hlisting hpath
    exact resolver.eq_first_of_resolved hfirst hlisting hpath

end Resolver

end FactGraph
