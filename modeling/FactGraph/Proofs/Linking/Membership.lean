import FactGraph.Fact.Build
import FactGraph.Proofs.Linking.Draft.Link
import FactGraph.Proofs.Resolution.Frame
import FactGraph.Run

/-!
# Listing a project more than once

A project may be listed by several solutions, and what the listings say of it may differ. Only the
first one counts: the others add to the lists of which solution has which project, and to nothing
else in a run.

The index and the resolver read the first listings and nothing else of a repository, so for them
there is little to do. The linker is different, since the solutions are in the model that it works
on, from the first step to the last one. No step of its run in draft looks at them: started with
other solutions in its model, a step does the same to all the rest (`DraftM.Blind`). This is shown
step by step, and the run as a whole has it from its steps.

## Main definitions

* `DraftM.Blind`: a step does not look at the solutions of its model
* `ReferenceModel.withoutMembership`: a model without what says which solution has which project

## Main results

* `Linker.blind_draftFacts`: a link run in draft does not look at the solutions
* `LinkConfig.process_of_firstListings`: a run depends on the first listings, apart from them
* `LinkConfig.run?_relisted`: the first listing of a path wins everywhere
-/

namespace FactGraph

/-! ## Models with other solutions -/

/-- The model with other solutions. -/
def ReferenceModel.withSolutions (model : ReferenceModel) (solutions : Array SolutionNode) :
    ReferenceModel :=
  { model with solutions }

/-- The state with other solutions in its model. -/
def DraftState.withSolutions (s : DraftState) (solutions : Array SolutionNode) : DraftState :=
  { s with model := s.model.withSolutions solutions }

namespace DraftM

variable {α β : Type}

/-- **The step does not look at the solutions**: started with other ones, it has the same result
and does the same to all else. -/
def Blind (step : DraftM α) : Prop :=
  ∀ s solutions, step.run (s.withSolutions solutions) =
    (step.run s).map fun result => (result.1, result.2.withSolutions solutions)

namespace Blind

variable {step : DraftM α}

theorem pure (a : α) : Blind (Pure.pure a) :=
  fun _ _ => rfl

theorem fail (node : ModelNode) : Blind (throw node : DraftM α) :=
  fun _ _ => rfl

theorem bind {next : α → DraftM β} (h : Blind step) (hnext : ∀ a, Blind (next a)) :
    Blind (step >>= next) := by
  intro s solutions
  rw [StateT.run_bind, StateT.run_bind, h s solutions]
  cases step.run s with
  | error node => rfl
  | ok result => exact hnext result.1 result.2 solutions

theorem map {f : α → β} (h : Blind step) : Blind (f <$> step) := by
  rw [map_eq_pure_bind]
  exact h.bind fun a => .pure (f a)

/-- What is made of the model is the same for all solutions. -/
theorem reads {next : ReferenceModel → DraftM α}
    (hsame : ∀ m solutions, next (m.withSolutions solutions) = next m)
    (h : ∀ m, Blind (next m)) : Blind (model >>= next) := by
  intro s solutions
  have hleft : (model >>= next).run (s.withSolutions solutions) =
      (next (s.model.withSolutions solutions)).run (s.withSolutions solutions) := rfl
  rw [hleft, hsame]
  exact h s.model s solutions

theorem mapM {f : α → DraftM β} {xs : List α} (h : ∀ x, Blind (f x)) : Blind (xs.mapM f) := by
  induction xs with
  | nil => exact .pure []
  | cons x xs ih =>
    rw [List.mapM_cons]
    exact (h x).bind fun y => ih.bind fun ys => .pure (y :: ys)

theorem forM {f : α → DraftM Unit} {xs : List α} (h : ∀ x, Blind (f x)) : Blind (xs.forM f) := by
  induction xs with
  | nil => exact .pure ()
  | cons x xs ih => exact (h x).bind fun _ => ih

end Blind

theorem blind_report (finding : Diagnostic) : Blind (report finding) :=
  fun _ _ => rfl

theorem blind_postpone (call : PendingCall) : Blind (postpone call) :=
  fun _ _ => rfl

theorem blind_orMissing {kind : NodeKind} (id : Handle kind) (node : Option α) :
    Blind (orMissing id node) := by
  cases node with
  | none => exact .fail _
  | some node => exact .pure node

theorem blind_require {kind : NodeKind} (hkind : kind ≠ .solution) (id : Handle kind) :
    Blind (require id) := by
  refine .reads (fun m solutions => ?_) fun m => ?_
  · have hsame : (m.withSolutions solutions).hasHandle id = m.hasHandle id := by
      -- Only the handles of solutions are looked for among the solutions.
      cases kind <;> first | rfl | exact absurd rfl hkind
    rw [hsame]
  · split
    · exact .pure ()
    · exact .fail _

theorem blind_typeAt (id : TypeId) : Blind (typeAt id) :=
  .reads (fun _ _ => rfl) fun _ => blind_orMissing id _

theorem blind_methodAt (id : MethodId) : Blind (methodAt id) :=
  .reads (fun _ _ => rfl) fun _ => blind_orMissing id _

theorem blind_projectAt (id : ProjectId) : Blind (projectAt id) :=
  .reads (fun _ _ => rfl) fun _ => blind_orMissing id _

theorem blind_fileAt (id : FileId) : Blind (fileAt id) :=
  .reads (fun _ _ => rfl) fun _ => blind_orMissing id _

theorem blind_addNamespace (node : NamespaceId → NamespaceNode) : Blind (addNamespace node) :=
  fun _ _ => rfl

theorem blind_addType (node : TypeId → TypeNode) : Blind (addType node) :=
  fun _ _ => rfl

theorem blind_addMethod (node : MethodId → MethodNode) : Blind (addMethod node) :=
  fun _ _ => rfl

theorem blind_addField (node : FieldId → FieldNode) : Blind (addField node) :=
  fun _ _ => rfl

theorem blind_addProperty (node : PropertyId → PropertyNode) : Blind (addProperty node) :=
  fun _ _ => rfl

theorem blind_addParameter (node : ParameterId → ParameterNode) : Blind (addParameter node) :=
  fun _ _ => rfl

theorem blind_addLocalVariable (node : LocalVariableId → LocalVariableNode) :
    Blind (addLocalVariable node) :=
  fun _ _ => rfl

theorem blind_modifyType (id : TypeId) (change : TypeNode → TypeNode) :
    Blind (modifyType id change) :=
  (blind_require (by decide) id).bind fun _ _ _ => rfl

theorem blind_modifyMethod (id : MethodId) (change : MethodNode → MethodNode) :
    Blind (modifyMethod id change) :=
  (blind_require (by decide) id).bind fun _ _ _ => rfl

theorem blind_modifyFile (id : FileId) (change : FileNode → FileNode) :
    Blind (modifyFile id change) :=
  (blind_require (by decide) id).bind fun _ _ _ => rfl

end DraftM

namespace Linker

open DraftM

variable (linker : Linker)

/-! ## Declarations -/

theorem blind_draftSpace (project : ProjectId) (parent : Option NamespaceId) (fullName : String) :
    Blind (linker.draftSpace project parent fullName) := by
  refine .reads (fun _ _ => rfl) fun m => ?_
  split
  next id _ => exact .pure id
  next => exact blind_addNamespace _

theorem blind_draftNamespaces (project : ProjectId) (parent : Option NamespaceId)
    (fullNames : List String) : Blind (linker.draftNamespaces project parent fullNames) := by
  induction fullNames generalizing parent with
  | nil => exact .pure parent
  | cons fullName fullNames ih =>
    exact (linker.blind_draftSpace project parent fullName).bind fun id => ih (some id)

theorem blind_draftType (project : ProjectId) (fact : TypeFact) :
    Blind (linker.draftType project fact) := by
  refine .reads (fun _ _ => rfl) fun m => ?_
  split
  next id _ => exact .pure id
  next => exact (linker.blind_draftNamespaces project none _).bind fun _ => blind_addType _

theorem blind_draftDeclaration (unit : SourceUnit) (fact : TypeFact) :
    Blind (linker.draftDeclaration unit fact) := by
  unfold draftDeclaration
  split
  · refine (linker.blind_draftType unit.project fact).bind fun type => ?_
    exact (blind_modifyType type _).bind fun _ => (blind_modifyFile unit.file _).bind fun _ =>
      .pure _
  · exact (blind_report _).bind fun _ => .pure none

theorem blind_draftAll (units : List SourceUnit) : Blind (linker.draftAll units) := by
  have hunit (unit : SourceUnit) : Blind (linker.draftUnit unit) :=
    (Blind.mapM fun fact => linker.blind_draftDeclaration unit fact).bind fun _ => .pure _
  exact (Blind.mapM hunit).bind fun _ => .pure _

theorem blind_draftNest (fragment : Fragment) : Blind (linker.draftNest fragment) :=
  .reads (fun _ _ => rfl) fun _ => blind_modifyType fragment.type _

/-! ## Type names -/

theorem blind_draftTypeFor (fullName : String) (project : ProjectId) :
    Blind (linker.draftTypeFor fullName project) := by
  refine (blind_require (by decide) project).bind fun _ => .reads (fun _ _ => rfl) fun m => ?_
  split
  next id _ => exact .pure id
  next =>
    refine .reads (fun _ _ => rfl) fun m => ?_
    split
    next id _ => exact .pure id
    next => exact blind_addType _

mutual

theorem blind_draftTree (project : ProjectId) (typeParameters : List String) :
    (tree : TypeName) → Blind (linker.draftTree project typeParameters tree)
  | ⟨base, args, suffix⟩ => by
    rw [draftTree]
    refine (blind_draftTrees project typeParameters args).bind fun links => ?_
    dsimp only
    split
    · exact (Blind.pure none).bind fun _ => .pure _
    · exact (linker.blind_draftTypeFor base project).map.bind fun _ => .pure _

theorem blind_draftTrees (project : ProjectId) (typeParameters : List String) :
    (trees : List TypeName) → Blind (linker.draftTrees project typeParameters trees)
  | [] => by
    rw [draftTrees]
    exact .pure []
  | tree :: trees => by
    rw [draftTrees]
    exact (blind_draftTree project typeParameters tree).bind fun link =>
      (blind_draftTrees project typeParameters trees).bind fun links => .pure _

end

section Members

variable {project : ProjectId} {typeParameters : List String} (scope : MemberScope)

theorem blind_draftName (name : String) : Blind (linker.draftName project typeParameters name) :=
  linker.blind_draftTree project typeParameters _

theorem blind_draftTypeRef (ref : TypeRef) :
    Blind (linker.draftTypeRef project typeParameters ref) :=
  linker.blind_draftName _

theorem blind_draftAttributes (attributes : List AttributeFact) :
    Blind (linker.draftAttributes project typeParameters attributes) :=
  .mapM fun fact => (linker.blind_draftTypeRef fact.typeRef).bind fun _ => .pure _

/-! ## Members -/

theorem blind_draftParameter (method : MethodId) (fact : ParameterFact) :
    Blind (linker.draftParameter scope method fact) := by
  unfold draftParameter
  split
  · exact (linker.blind_draftTypeRef _).bind fun _ => (linker.blind_draftAttributes _).bind fun _ =>
      blind_addParameter _
  · exact blind_report _

theorem blind_draftLocalVariable (method : MethodId) (fact : LocalVariableFact) :
    Blind (linker.draftLocalVariable scope method fact) := by
  unfold draftLocalVariable
  split
  · exact (linker.blind_draftTypeRef _).bind fun _ => blind_addLocalVariable _
  · exact blind_report _

theorem blind_draftCollect (method : MethodId) (methodName : String) (fact : CallFact) :
    Blind (draftCollect scope method methodName fact) := by
  unfold draftCollect
  split
  · exact blind_report _
  · exact blind_postpone _

theorem blind_draftReturnType (returnType : Option TypeRef) :
    Blind (linker.draftReturnType scope returnType) := by
  unfold draftReturnType
  split
  · exact (linker.blind_draftTypeRef _).map
  · exact .pure none

theorem blind_draftMethodHead (owner : MethodOwner) (head : MethodHead) :
    Blind (linker.draftMethodHead scope owner head) := by
  unfold draftMethodHead
  refine (linker.blind_draftReturnType scope _).bind fun _ =>
    (linker.blind_draftAttributes _).bind fun _ => (blind_addMethod _).bind fun method => ?_
  refine (Blind.forM fun fact => linker.blind_draftParameter scope method fact).bind fun _ => ?_
  refine (Blind.forM fun fact => linker.blind_draftLocalVariable scope method fact).bind fun _ => ?_
  exact (Blind.forM fun fact => blind_draftCollect scope method head.name fact).bind fun _ =>
    .pure method

mutual

theorem blind_draftMethod (scope : MemberScope) (owner : MethodOwner) :
    (fact : MethodFact) → Blind (linker.draftMethod scope owner fact)
  | ⟨head, localFunctions⟩ => by
    rw [draftMethod]
    split
    · exact blind_report _
    · exact (linker.blind_draftMethodHead _ owner head).bind fun method =>
        blind_draftMethods _ _ localFunctions

theorem blind_draftMethods (scope : MemberScope) (owner : MethodOwner) :
    (facts : List MethodFact) → Blind (linker.draftMethods scope owner facts)
  | [] => by
    rw [draftMethods]
    exact .pure ()
  | fact :: facts => by
    rw [draftMethods]
    exact (blind_draftMethod scope owner fact).bind fun _ => blind_draftMethods scope owner facts

end

theorem blind_draftDestructor (fact : MethodFact) : Blind (linker.draftDestructor scope fact) := by
  refine .reads (fun _ _ => rfl) fun m => ?_
  split
  · exact blind_report _
  · exact linker.blind_draftMethod scope _ fact

theorem blind_draftField (fact : FieldFact) : Blind (linker.draftField scope fact) := by
  unfold draftField
  split
  · exact (linker.blind_draftTypeRef _).bind fun _ => (linker.blind_draftAttributes _).bind fun _ =>
      blind_addField _
  · exact blind_report _

theorem blind_draftProperty (fact : PropertyFact) : Blind (linker.draftProperty scope fact) := by
  unfold draftProperty
  split
  · exact (linker.blind_draftTypeRef _).bind fun _ => (linker.blind_draftAttributes _).bind fun _ =>
      (blind_addProperty _).bind fun _ => linker.blind_draftMethods scope _ _
  · exact blind_report _

theorem blind_draftBaseType (typeName : String) (base : TypeRef) :
    Blind (linker.draftBaseType scope typeName base) := by
  unfold draftBaseType
  split
  · exact (linker.blind_draftTypeRef base).bind fun _ => blind_modifyType scope.type _
  · exact blind_report _

theorem blind_draftCount (relation : RelationKind) (name : String) (count : Nat) :
    Blind (linker.draftCount scope relation name count) := by
  unfold draftCount
  split
  · refine (linker.blind_draftName name).bind fun link => ?_
    split
    · exact blind_modifyType scope.type _
    · exact .pure ()
  · exact .pure ()

omit linker in
theorem enclosingTypes_withSolutions (m : ReferenceModel) (solutions : Array SolutionNode)
    (steps : Nat) (start : Option TypeId) :
    enclosingTypes (m.withSolutions solutions) steps start = enclosingTypes m steps start := by
  induction steps generalizing start with
  | zero => rfl
  | succ steps ih =>
    cases start with
    | none => rfl
    | some type => exact congrArg (type :: ·) (ih _)

theorem blind_draftParametersInScope (fragment : Fragment) :
    Blind (draftParametersInScope fragment) := by
  refine .reads (fun m solutions => ?_) fun _ => (Blind.mapM blind_typeAt).bind fun _ => .pure _
  have hsame : typesAround (m.withSolutions solutions) fragment = typesAround m fragment :=
    enclosingTypes_withSolutions m solutions _ _
  rw [hsame]

theorem blind_draftMembers (fragment : Fragment) : Blind (linker.draftMembers fragment) := by
  unfold draftMembers
  refine (blind_draftParametersInScope fragment).bind fun typeParameters => ?_
  refine (Blind.forM fun base => linker.blind_draftBaseType _ _ base).bind fun _ => ?_
  refine (linker.blind_draftAttributes _).bind fun _ => (blind_modifyType _ _).bind fun _ => ?_
  refine (Blind.forM fun fact => linker.blind_draftField _ fact).bind fun _ => ?_
  refine (Blind.forM fun fact => linker.blind_draftProperty _ fact).bind fun _ => ?_
  refine (linker.blind_draftMethods _ _ _).bind fun _ => ?_
  refine (linker.blind_draftMethods _ _ _).bind fun _ => ?_
  refine Blind.bind ?_ fun _ => Blind.forM fun fact =>
    Blind.forM fun entry => linker.blind_draftCount _ _ _ _
  cases fragment.fact.destructor with
  | none => exact .pure ()
  | some fact => exact linker.blind_draftDestructor _ fact

end Members

/-! ## Calls -/

mutual

theorem linkIn_withSolutions (m : ReferenceModel) (solutions : Array SolutionNode)
    (project : ProjectId) : (tree : TypeName) →
    linker.linkIn (m.withSolutions solutions) project tree =
      linker.linkIn m project tree
  | ⟨base, args, suffix⟩ => by
    rw [linkIn, linkIn, linksIn_withSolutions m solutions project args]
    rfl

theorem linksIn_withSolutions (m : ReferenceModel) (solutions : Array SolutionNode)
    (project : ProjectId) : (trees : List TypeName) →
    linker.linksIn (m.withSolutions solutions) project trees =
      linker.linksIn m project trees
  | [] => by rw [linksIn, linksIn]
  | tree :: trees => by
    rw [linksIn, linksIn, linkIn_withSolutions m solutions project tree,
      linksIn_withSolutions m solutions project trees]

end

theorem blind_draftMatching (owner : TypeId) (name : String) (parameterTypes : List String)
    (project : ProjectId) :
    Blind (linker.draftMatching owner name parameterTypes project) := by
  refine .reads (fun _ _ => rfl) fun m => ?_
  split
  next method _ => exact .pure method
  next =>
    refine (blind_require (by decide) project).bind fun _ => ?_
    refine (blind_addMethod _).bind fun method => ?_
    refine (Blind.forM fun parameterType => ?_).bind fun _ => .pure method
    refine .reads (fun m solutions => ?_) fun m => blind_addParameter _
    rw [linkIn_withSolutions]

theorem blind_draftFind (owner : TypeId) (name : String) (parameterTypes : List String) :
    Blind (draftFind owner name parameterTypes) :=
  .reads (fun _ _ => rfl) fun _ => (Blind.mapM blind_typeAt).bind fun _ => .pure _

theorem blind_draftCall (pending : PendingCall) : Blind (linker.draftCall pending) := by
  unfold draftCall
  refine (blind_methodAt _).bind fun caller => ?_
  refine Blind.bind ?_ fun id => (blind_typeAt id).bind fun owner => ?_
  · unfold draftOwner
    dsimp only
    split
    · exact .pure _
    · exact linker.blind_draftTypeFor _ _
  refine Blind.bind ?_ fun target => ?_
  · unfold draftTarget
    dsimp only
    split
    · exact (linker.blind_draftMatching _ _ _ _).map
    · exact blind_draftFind _ _ _
  have hreport : Blind (linker.draftUnresolved caller.containingType owner pending) := by
    unfold draftUnresolved
    refine (blind_projectAt _).bind fun _ => (blind_typeAt _).bind fun type => ?_
    refine Blind.bind ?_ fun _ => blind_report _
    unfold draftFilePath
    split
    · exact (blind_fileAt _).bind fun _ => .pure _
    · exact .pure none
  split
  · exact hreport.bind fun _ => blind_modifyMethod _ _
  · exact blind_modifyMethod _ _

/-- **A link run in draft does not look at the solutions.** -/
theorem blind_draftFacts (repo : RepositoryFact) : Blind (linker.draftFacts repo) := by
  refine (linker.blind_draftAll (sourceUnits repo)).bind fun fragments => ?_
  refine (Blind.forM fun fragment => linker.blind_draftNest fragment).bind fun _ => ?_
  refine (Blind.forM fun fragment => linker.blind_draftMembers fragment).bind fun _ => ?_
  intro s solutions
  exact Blind.forM (fun pending => linker.blind_draftCall pending) s solutions

end Linker

/-! ## Models apart from their solutions -/

namespace ReferenceModel

/-- The model without what says which solution lists which project: the solutions themselves, and
the lists of solutions of the repository and of the projects. -/
def withoutMembership (model : ReferenceModel) : ReferenceModel :=
  { model with
    repository := { model.repository with solutions := [] }
    solutions := #[]
    projects := model.projects.map fun node => { node with solutions := [] } }

theorem wire_withSolutions (model : ReferenceModel) (solutions : Array SolutionNode) :
    (model.withSolutions solutions).wire.withoutMembership = model.wire.withoutMembership := by
  have hprojects : (model.withSolutions solutions).wire.withoutMembership.projects =
      model.wire.withoutMembership.projects := by
    simp only [withoutMembership, wire, Array.map_map]
    rfl
  exact congrArg (fun projects =>
    ({ model.wire.withoutMembership with projects } : ReferenceModel)) hprojects

end ReferenceModel

section SameListings

variable {repo repo' : RepositoryFact} (hlistings : repo'.firstListings = repo.firstListings)

include hlistings

namespace Linker

/-- The outer nodes depend on the first listings, apart from the solutions. -/
theorem skeleton_of_firstListings (linker : Linker) (hpath : repo'.path = repo.path) :
    linker.skeleton repo' =
      (linker.skeleton repo).withSolutions (linker.skeleton repo').solutions := by
  have hunits : sourceUnits repo' = sourceUnits repo := by rw [sourceUnits, hlistings, sourceUnits]
  simp only [skeleton, ReferenceModel.withSolutions, hpath, hlistings, hunits]

/-- **Linking depends on the first listings**, apart from the solutions. -/
theorem link_of_firstListings (linker : Linker) (hpath : repo'.path = repo.path) :
    (linker.link repo').1.withoutMembership = (linker.link repo).1.withoutMembership ∧
      (linker.link repo').2 = (linker.link repo).2 := by
  have hunits : sourceUnits repo' = sourceUnits repo := by rw [sourceUnits, hlistings, sourceUnits]
  have hrun : linker.draftRun repo' =
      (linker.draftRun repo).map fun s => s.withSolutions (linker.skeleton repo').solutions := by
    have hsteps : linker.draftFacts repo' = linker.draftFacts repo := by
      rw [draftFacts, hunits, draftFacts]
    -- The same steps are made, from outer nodes with other solutions.
    have hblind := linker.blind_draftFacts repo { model := linker.skeleton repo }
      (linker.skeleton repo').solutions
    rw [draftRun, draftRun, hsteps, skeleton_of_firstListings hlistings linker hpath]
    refine (congrArg (Except.map Prod.snd) hblind).trans ?_
    cases (linker.draftFacts repo).run { model := linker.skeleton repo } <;> rfl
  obtain ⟨_, _, _, _, final, htrace⟩ := draftRun_trace linker repo
  rw [htrace.draftRun] at hrun
  rw [htrace.link, link_eq_of_draftRun hrun]
  exact ⟨final.model.wire_withSolutions _, rfl⟩

end Linker

/-- **The index depends on the first listings.** -/
theorem ScopeIndex.build_of_firstListings (sep : Separator) : build repo' sep = build repo sep := by
  rw [build, hlistings, build]

namespace Resolver

/-- What resolving finds depends on the first listings. -/
theorem resolveRepository_of_firstListings (resolver : Resolver) :
    (resolver.resolveRepository repo').2 = (resolver.resolveRepository repo).2 ∧
      (resolver.resolveRepository repo').1.firstListings =
        (resolver.resolveRepository repo).1.firstListings := by
  rw [firstListings_resolveRepository, firstListings_resolveRepository, hlistings]
  refine ⟨?_, rfl⟩
  simp only [resolveRepository, resolveListings, hlistings]

end Resolver

end SameListings

namespace LinkOutput

/-- The result of a run, apart from what says which solution lists which project. -/
def apartFromMembership (output : LinkOutput) : LinkOutput :=
  { output with model := output.model.withoutMembership }

end LinkOutput

namespace LinkConfig

variable {repo repo' : RepositoryFact}

theorem process_of_firstListings (hlistings : repo'.firstListings = repo.firstListings)
    (hpath : repo'.path = repo.path) (sep : Separator) (policy : FallbackPolicy) :
    (process sep policy repo').apartFromMembership =
      (process sep policy repo).apartFromMembership := by
  have hindex := ScopeIndex.build_of_firstListings hlistings sep
  obtain ⟨hfound, hresolved⟩ := Resolver.resolveRepository_of_firstListings hlistings
    ⟨(ScopeIndex.build repo sep).1, policy⟩
  obtain ⟨hmodel, hskipped⟩ := Linker.link_of_firstListings hresolved
    ⟨(ScopeIndex.build repo sep).1, policy⟩ hpath
  simp only [process, LinkOutput.apartFromMembership, hindex, hfound, hmodel, hskipped]

/-- The units that a configuration leaves out are left out of a new listing too. -/
theorem filterUnits_relists (config : LinkConfig) {extra : ProjectFact}
    (h : RepositoryFact.Relists extra repo repo') :
    RepositoryFact.Relists (config.filterProject extra) (config.filterUnits repo)
      (config.filterUnits repo') := by
  have hpaths (projects : List ProjectFact) :
      (projects.map config.filterProject).map ProjectFact.path =
        projects.map ProjectFact.path := by
    rw [List.map_map]
    rfl
  cases h with
  | @inside path before after solution front back listed =>
    have hlisted : (config.filterProject extra).path ∈
        ((before.map fun solution => { solution with
            projects := solution.projects.map config.filterProject }).flatMap
              SolutionFact.projects ++ front.map config.filterProject).map ProjectFact.path := by
      rw [List.flatMap_map, ← List.map_flatMap, ← List.map_append, hpaths]
      exact listed
    have hinside := @RepositoryFact.Relists.inside _ path _
      (after.map fun solution => { solution with
        projects := solution.projects.map config.filterProject }) solution _
      (back.map config.filterProject) hlisted
    simpa [filterUnits] using hinside
  | @appended _ path listed =>
    have hlisted : (config.filterProject extra).path ∈
        (config.filterUnits repo).projects.map ProjectFact.path := by
      rw [filterUnits, RepositoryFact.projects, List.flatMap_map, ← List.map_flatMap, hpaths]
      exact listed
    have happended := @RepositoryFact.Relists.appended _ _ path hlisted
    simpa [filterUnits] using happended

/-- **The first listing of a path wins everywhere.** -/
theorem run?_relisted (config : LinkConfig) {repo repo' : RepositoryFact} {extra : ProjectFact}
    (h : RepositoryFact.Relists extra repo repo')
    (hkept : (config.filterUnits repo).isEmpty = false) :
    ((config.run? repo).isSome ↔ config.separator ≠ "") ∧
      (config.run? repo').map LinkOutput.apartFromMembership =
        (config.run? repo).map LinkOutput.apartFromMembership := by
  have hfiltered := config.filterUnits_relists h
  have hkept' : (config.filterUnits repo').isEmpty = false := by
    obtain ⟨front, back, hold, hnew, -⟩ := hfiltered.exists_projects
    rw [RepositoryFact.isEmpty, hold, List.all_append] at hkept
    rw [RepositoryFact.isEmpty, hnew, List.all_append, List.all_cons]
    revert hkept
    cases front.all _ <;> cases back.all _ <;> simp
  constructor
  · rw [run?, Option.isSome_map, Separator.ofString?]
    split <;> simp_all
  · rw [run?, run?, Option.map_map, Option.map_map]
    refine congrArg (Option.map · _) (funext fun sep => ?_)
    simp only [Function.comp_apply, runWith, hkept, hkept', Bool.false_eq_true, if_false]
    exact process_of_firstListings hfiltered.firstListings_eq hfiltered.path_eq sep config.fallback

/-- A library with a class that refers to itself and a project that refers to the library, in one
solution; the project with the tests is in another one. -/
def workshop : RepositoryFact where
  solutions := [
    { path := "apps"
      projects := [
        { path := "core"
          units := [{ path := "core/Item", types := [{ name := "Item"
                                                       fields := [.of "next" "Item"] }] }] },
        { path := "desk", projectReferences := ["core"]
          units := [{ path := "desk/Bill", types := [{ name := "Bill"
                                                       fields := [.of "item" "Item"] }] }] }] },
    { path := "tests", projects := [{ path := "checks", projectReferences := ["desk"] }] }]

/-- The library once more: with a name, with references, one of which leads nowhere, and with a unit
of a path that it has already, in which an import, a namespace and a field are at fault. -/
def secondCore : ProjectFact where
  path := "core"
  name := "Core"
  projectReferences := ["desk", "attic"]
  units := [{ path := "core/Item", imports := [.plain ""]
              types := [{ name := "Item", namespaceName := "Shop..Old"
                          fields := [.of "" "Bill"] }] }]

/-- The solution with the tests lists the library as well. -/
def relistedWorkshop : RepositoryFact where
  solutions := [
    workshop.solutions[0],
    { path := "tests"
      projects := [{ path := "checks", projectReferences := ["desk"] }, secondCore] }]

theorem workshop_relisted :
    RepositoryFact.Relists secondCore workshop relistedWorkshop ∧
      (filterUnits {} workshop).isEmpty = false ∧
      (run? {} relistedWorkshop).map LinkOutput.apartFromMembership =
        (run? {} workshop).map LinkOutput.apartFromMembership := by
  have hrelists : RepositoryFact.Relists secondCore workshop relistedWorkshop :=
    @RepositoryFact.Relists.inside _ "" [workshop.solutions[0]] [] { path := "tests" }
      [{ path := "checks", projectReferences := ["desk"] }] [] (by decide)
  have hkept : (filterUnits {} workshop).isEmpty = false := by decide +kernel
  exact ⟨hrelists, hkept, (run?_relisted {} hrelists hkept).2⟩

end LinkConfig

end FactGraph
