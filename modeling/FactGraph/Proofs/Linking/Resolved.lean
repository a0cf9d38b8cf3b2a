import FactGraph.Proofs.Linking.CallSites
import FactGraph.Proofs.Resolution.Nonblank
import FactGraph.Proofs.Resolution.Transparency

/-!
# Calls before and after resolving

Every call of a repository is still there when the names are resolved, at the place that it had
before: declared names are left alone, and no type name becomes blank, so no method that was kept
gets lost on the way. A call that was written without an owner is given one. If some declaration of
the type around the call has a method of the name, that is the type itself, whatever the file
imports and whatever is remembered.

## Main definitions

* `CallFact.Attributed`: a call has the type around it as its owner, if that declares the method
* `NameAction.Attributes`: an action attributes the calls of a type
* `Declaration.Attributed`: so have been the calls of all methods that are kept

## Main results

* `TypeFact.attributed_kept`: replacing names attributes the calls of a declaration
* `attributed_keptFrom`: the same methods are kept after resolving
* `Resolver.attributed_declarations`: resolving attributes the calls of a repository
* `CallSite.exists_attributed`: every call is at its place after resolving
-/

namespace FactGraph

/-! ## Attributed calls -/

/-- **The call has been attributed**: it has kept its name, and if it was written without an owner
and the type around it declares a method of that name, the type is its owner. -/
structure CallFact.Attributed (declares : String → String → Bool) (current : String)
    (before after : CallFact) : Prop where
  name : after.name = before.name
  owner : Text.isBlank before.containingType → declares current before.name →
    after.containingType = current

/-- The calls of a method have been attributed. -/
structure KeptMethod.Attributed (declares : String → String → Bool) (current : String)
    (before after : KeptMethod) : Prop where
  kind : after.kind = before.kind
  name : after.head.name = before.head.name
  calls : List.Forall₂ (CallFact.Attributed declares current) before.head.calledMethods
    after.head.calledMethods

/-- **The calls of a declaration have been attributed**: the same methods are kept of it, and their
calls are attributed. -/
structure Declaration.Attributed (sep : Separator) (declares : String → String → Bool)
    (before after : Declaration) : Prop where
  project : after.project = before.project
  heading : after.fact.heading = before.fact.heading
  hasNamedDestructor : after.fact.hasNamedDestructor = before.fact.hasNamedDestructor
  kept : before.isNamed → ∀ hasDestructor,
    List.Forall₂ (KeptMethod.Attributed declares (before.fact.fullName sep))
      (before.fact.kept hasDestructor) (after.fact.kept hasDestructor)

namespace Declaration.Attributed

variable {sep : Separator} {declares : String → String → Bool} {before after : Declaration}

theorem isNamed (h : before.Attributed sep declares after) : after.isNamed = before.isNamed :=
  (congrArg TypeFact.isNamed h.heading :)

theorem fullName (h : before.Attributed sep declares after) :
    after.fact.fullName sep = before.fact.fullName sep :=
  (congrArg (TypeFact.fullName · sep) h.heading :)

theorem isPartial (h : before.Attributed sep declares after) :
    after.fact.isPartial = before.fact.isPartial :=
  (congrArg TypeFact.isPartial h.heading :)

theorem key (h : before.Attributed sep declares after) : after.key sep = before.key sep := by
  rw [Declaration.key, Declaration.key, h.project, h.fullName, h.isPartial]

end Declaration.Attributed

/-! ## Kept methods -/

section Forall₂

variable {α β : Type} {R : α → β → Prop}

/-- What a list has that corresponds to another one, the other has as well. -/
theorem any_eq_of_forall₂ {xs : List α} {ys : List β} {p : α → Bool} {q : β → Bool}
    (h : List.Forall₂ R xs ys) (hpq : ∀ x y, R x y → q y = p x) : ys.any q = xs.any p := by
  induction h with
  | nil => rfl
  | cons hxy _ ih => rw [List.any_cons, List.any_cons, hpq _ _ hxy, ih]

/-- The parts of one list, put together in two ways that correspond for each of them. -/
theorem forall₂_flatMap_same {γ : Type} {xs : List γ} {f : γ → List α} {g : γ → List β}
    (h : ∀ x ∈ xs, List.Forall₂ R (f x) (g x)) :
    List.Forall₂ R (xs.flatMap f) (xs.flatMap g) :=
  List.rel_flatten
    (List.forall₂_map_left_iff.2 (List.forall₂_map_right_iff.2 (List.forall₂_same.2 h)))

end Forall₂

/-- **The same methods are kept of declarations whose calls have been attributed**, behind others of
which this is so too. -/
theorem attributed_keptFrom {sep : Separator} {declares : String → String → Bool}
    {declarations resolved earlier earlier' : List Declaration}
    (h : List.Forall₂ (Declaration.Attributed sep declares) declarations resolved)
    (hearlier : List.Forall₂ (Declaration.Attributed sep declares) earlier earlier') :
    List.Forall₂ (fun before after => before.1.Attributed sep declares after.1 ∧
        before.2.Attributed declares (before.1.fact.fullName sep) after.2)
      (keptFrom sep earlier declarations) (keptFrom sep earlier' resolved) := by
  induction h generalizing earlier earlier' with
  | nil => exact .nil
  | @cons before after _ _ hfirst _ ih =>
    rw [keptFrom, keptFrom]
    refine List.rel_append ?_ (ih (List.rel_append hearlier (.cons hfirst .nil)))
    rw [List.forall₂_map_left_iff, List.forall₂_map_right_iff]
    -- A destructor is left out if a fragment before has one, which is so after resolving as well.
    have hdestructors : (earlier'.any fun other => other.isNamed && other.key sep = after.key sep &&
        other.fact.hasNamedDestructor) = earlier.any fun other =>
          other.isNamed && other.key sep = before.key sep && other.fact.hasNamedDestructor :=
      any_eq_of_forall₂ hearlier fun other other' hother => by
        rw [hother.isNamed, hother.key, hother.hasNamedDestructor, hfirst.key]
    rw [Declaration.kept, Declaration.kept, hfirst.isNamed, hdestructors]
    split
    next hnamed => exact (hfirst.kept hnamed _).imp fun _ _ hkept => ⟨hfirst, hkept⟩
    next => exact .nil

/-! ## Declarations with their names replaced -/

/-- **The action attributes calls**: a name is blank just if it was before, and what is put in for a
missing owner is the innermost type, if that declares the method. -/
structure NameAction.Attributes (action : NameAction Id) (declares : String → String → Bool) :
    Prop where
  isBlank : ∀ scope name, Text.isBlank (action.onName scope name).run = Text.isBlank name
  owner : ∀ scope current method, scope.currentType? = some current → declares current method →
    (action.onMissingOwner scope method).run = current

section Declarations

variable {action : NameAction Id} {declares : String → String → Bool}
  (h : action.Attributes declares) {scope : ResolutionScope} {current : String}

include h in
theorem TypeRef.isNamedRef_mapNames (ref : TypeRef) :
    Linker.isNamedRef (ref.mapNames (action.onName scope)).run = Linker.isNamedRef ref := by
  obtain ⟨name, args⟩ := ref
  simp only [TypeRef.mapNames, Id.run_bind, Id.run_pure, Linker.isNamedRef, h.isBlank]

include h in
theorem CallFact.attributed_mapNames (hscope : scope.currentType? = some current)
    (fact : CallFact) :
    fact.Attributed declares current (fact.mapNames action scope).run := by
  unfold mapNames
  split
  next hblank => exact ⟨rfl, fun _ => h.owner scope current fact.name hscope⟩
  next hnamed => exact ⟨rfl, fun hblank => absurd hblank hnamed⟩

include h in
theorem MethodHead.attributed_mapNames (hscope : scope.currentType? = some current)
    (head : MethodHead) :
    List.Forall₂ (CallFact.Attributed declares current) head.calledMethods
      (head.mapNames action scope).run.calledMethods := by
  simp only [mapNames, Id.run_bind, Id.run_pure, List.idRun_mapM, List.forall₂_map_right_iff]
  exact List.forall₂_same.2 fun call _ => call.attributed_mapNames h hscope

/-- Replacing names keeps the destructor. -/
theorem TypeFact.hasNamedDestructor_mapNames (fact : TypeFact) :
    (fact.mapNames action scope).run.hasNamedDestructor = fact.hasNamedDestructor := by
  simp only [mapNames, Id.run_bind, Id.run_pure, hasNamedDestructor]
  cases fact.destructor with
  | none => rfl
  | some destructor =>
    obtain ⟨head, localFunctions⟩ := destructor
    rfl

theorem MethodFact.mapNamesAll_eq_map (facts : List MethodFact) :
    (MethodFact.mapNamesAll action scope facts).run =
      facts.map fun fact => (fact.mapNames action scope).run := by
  induction facts with
  | nil => rfl
  | cons fact facts ih =>
    simp only [MethodFact.mapNamesAll, Id.run_bind, Id.run_pure, ih, List.map_cons]

mutual

theorem MethodFact.attributed_kept (h : action.Attributes declares) {scope : ResolutionScope}
    (hscope : scope.currentType? = some current) (kind : MethodKind) :
    (fact : MethodFact) → List.Forall₂ (KeptMethod.Attributed declares current) (fact.kept kind)
      ((fact.mapNames action scope).run.kept kind)
  | ⟨head, localFunctions⟩ => by
    simp only [MethodFact.mapNames, Id.run_bind, Id.run_pure, MethodFact.kept]
    have hinner : (scope.withTypeParameters head.genericParameters).currentType? = some current :=
      hscope
    have hname : (head.mapNames action
        (scope.withTypeParameters head.genericParameters)).run.name = head.name := rfl
    rw [hname]
    split
    · exact .nil
    · refine .cons ⟨rfl, hname, head.attributed_mapNames h hinner⟩ ?_
      exact MethodFact.attributed_keptAll h hinner .localFunction localFunctions

theorem MethodFact.attributed_keptAll (h : action.Attributes declares) {scope : ResolutionScope}
    (hscope : scope.currentType? = some current) (kind : MethodKind) :
    (facts : List MethodFact) → List.Forall₂ (KeptMethod.Attributed declares current)
      (MethodFact.keptAll kind facts)
      (MethodFact.keptAll kind (MethodFact.mapNamesAll action scope facts).run)
  | [] => .nil
  | fact :: facts => by
    simp only [MethodFact.mapNamesAll, Id.run_bind, Id.run_pure, MethodFact.keptAll]
    exact List.rel_append (MethodFact.attributed_kept h hscope kind fact)
      (MethodFact.attributed_keptAll h hscope kind facts)

end

include h

theorem MethodFact.attributed_mapM (hscope : scope.currentType? = some current)
    (kind : MethodKind) (facts : List MethodFact) :
    List.Forall₂ (KeptMethod.Attributed declares current) (MethodFact.keptAll kind facts)
      (MethodFact.keptAll kind (facts.mapM (MethodFact.mapNames action scope)).run) := by
  rw [List.idRun_mapM, ← MethodFact.mapNamesAll_eq_map]
  exact MethodFact.attributed_keptAll h hscope kind facts

theorem PropertyFact.attributed_kept (hscope : scope.currentType? = some current)
    (fact : PropertyFact) :
    List.Forall₂ (KeptMethod.Attributed declares current) fact.kept
      (fact.mapNames action scope).run.kept := by
  have hcomplete : (fact.mapNames action scope).run.isComplete = fact.isComplete := by
    simp only [mapNames, Id.run_bind, Id.run_pure, isComplete, TypeRef.isNamedRef_mapNames h]
  rw [kept, kept, hcomplete]
  split
  · exact MethodFact.attributed_mapM h hscope .accessor fact.accessors
  · exact .nil

/-- **Replacing names attributes the calls of a declaration.** The same methods are kept of it. -/
theorem TypeFact.attributed_kept (hscope : scope.currentType? = some current) (fact : TypeFact)
    (hasDestructor : Bool) :
    List.Forall₂ (KeptMethod.Attributed declares current) (fact.kept hasDestructor)
      ((fact.mapNames action scope).run.kept hasDestructor) := by
  have hmethods := MethodFact.attributed_mapM h hscope
  simp only [kept, mapNames, Id.run_bind, Id.run_pure]
  refine List.rel_append ?properties (List.rel_append (hmethods .method fact.methods)
    (List.rel_append (hmethods .constructor fact.constructors) ?destructor))
  case properties =>
    rw [List.idRun_mapM, List.flatMap_map]
    exact forall₂_flatMap_same fun property _ => property.attributed_kept h hscope
  case destructor =>
    split
    · exact .nil
    · cases fact.destructor with
      | none => exact .nil
      | some destructor => exact MethodFact.attributed_keptAll h hscope .destructor [destructor]

end Declarations

/-! ## Repositories -/

/-- The declarations of a project that has this position. -/
def ProjectFact.declarations (project : ProjectId) (fact : ProjectFact) : List Declaration :=
  fact.units.flatMap fun unit => unit.types.map (Declaration.mk project)

/-- The declarations of a repository are those of its first listings. -/
theorem Linker.declarations_eq (repo : RepositoryFact) :
    Linker.declarations repo = repo.firstListings.zipIdx.flatMap fun (project, position) =>
      project.declarations ⟨position⟩ :=
  flatMap_sourceUnits repo fun project unit => unit.types.map (Declaration.mk project)

namespace Resolver

variable {repo : RepositoryFact} {sep : Separator} {resolver : Resolver}

/-- A declaration is the innermost type in its scope. -/
theorem currentType?_scopeOf (resolver : Resolver) (project : Nat) (projectPath filePath : String)
    (fact : TypeFact) : (resolver.scopeOf project projectPath filePath fact).currentType? =
      some (fact.fullName resolver.separator) := by
  unfold ResolutionScope.currentType? scopeOf enclosingChain
  cases fact.outerName? <;> rfl

section Plain

variable (hindex : resolver.index = (ScopeIndex.build repo sep).1) (hplain : repo.IsPlain sep)
include hindex hplain

/-- Resolving every name on its own attributes calls. -/
theorem forgetful_attributes :
    resolver.forgetful.Attributes resolver.index.declaresMethod where
  isBlank := isBlank_resolveTypeName hindex hplain
  owner scope current method hcurrent hdeclares := by
    change ((resolver.resolveOwner scope method).run {}).1 = current
    rw [resolveOwner, hcurrent, Option.getD_some, if_pos hdeclares]
    rfl

theorem attributed_resolveProject {position : Nat} {fact : ProjectFact}
    (hfact : repo.firstListings[position]? = some fact) (project : ProjectId) :
    List.Forall₂ (Declaration.Attributed sep resolver.index.declaresMethod)
      (fact.declarations project) ((resolver.resolveProject fact).1.declarations project) := by
  have hsep : resolver.separator = sep := by rw [separator, hindex, ScopeIndex.build_separator]
  have hknown : resolver.index.projectIndex? fact.path = some position := by
    rw [hindex]
    exact ScopeIndex.projectIndex?_of_getElem? (by rw [List.getElem?_map, hfact, Option.map_some])
  have htell : ∀ unit ∈ fact.units, ∀ type ∈ unit.types, type.isNamed → type.IsPlain sep :=
    fun unit hunit type htype hnamed =>
      hplain.declaration (RepositoryFact.mem_named hfact hunit htype hnamed)
  rw [resolver.resolveProject_forgetful fact fun _ _ => placesTell_of_plain hindex htell,
    resolveForgetful, hknown]
  simp only [ProjectFact.declarations, ProjectFact.mapNames, UnitFact.mapNames, Id.run_bind,
    Id.run_pure, List.idRun_mapM, List.flatMap_map, List.map_map]
  refine forall₂_flatMap_same fun unit _ => ?_
  rw [List.forall₂_map_left_iff, List.forall₂_map_right_iff]
  refine List.forall₂_same.2 fun type _ => ?_
  dsimp only [Function.comp_apply]
  split
  next hnamed =>
    refine ⟨rfl, rfl, type.hasNamedDestructor_mapNames, fun _ hasDestructor => ?_⟩
    refine type.attributed_kept (forgetful_attributes hindex hplain) ?_ hasDestructor
    rw [currentType?_scopeOf, hsep]
  next hnameless => exact ⟨rfl, rfl, rfl, fun hnamed => absurd hnamed hnameless⟩

/-- **Resolving attributes the calls of a repository.** -/
theorem attributed_declarations :
    List.Forall₂ (Declaration.Attributed sep resolver.index.declaresMethod)
      (Linker.declarations repo)
      (Linker.declarations (resolver.resolveRepository repo).1) := by
  rw [Linker.declarations_eq, Linker.declarations_eq, firstListings_resolveRepository,
    List.zipIdx_map, List.flatMap_map]
  refine forall₂_flatMap_same fun entry hentry => ?_
  exact attributed_resolveProject hindex hplain (List.mem_zipIdx_iff_getElem?.1 hentry) _

end Plain

end Resolver

/-- **Every call is at its place after resolving**, and has been attributed. -/
theorem CallSite.exists_attributed {sep : Separator} {repo resolved : RepositoryFact}
    {declares : String → String → Bool}
    (h : List.Forall₂ (Declaration.Attributed sep declares) (Linker.declarations repo)
      (Linker.declarations resolved)) (site : CallSite sep repo) :
    ∃ after : CallSite sep resolved, after.method = site.method ∧ after.place = site.place ∧
      site.declaration.Attributed sep declares after.declaration ∧
      site.call.Attributed declares (site.declaration.fact.fullName sep) after.call := by
  obtain ⟨⟨declaration, kept⟩, hkept, hdeclaration, hcalls⟩ :=
    getElem?_of_forall₂_right (attributed_keptFrom h .nil).flip site.kept_mem
  have hnamed : List.Forall₂ (CallFact.Attributed declares (site.declaration.fact.fullName sep))
      (site.kept.head.calledMethods.filter CallFact.isNamed)
      (kept.head.calledMethods.filter CallFact.isNamed) :=
    List.rel_filter (fun _ _ hcall => by simp [CallFact.isNamed, hcall.name]) hcalls.calls
  obtain ⟨call, hcall, hattributed⟩ := getElem?_of_forall₂_right hnamed.flip site.call_mem
  exact ⟨⟨site.method, site.place, declaration, kept, call, hkept, hcall⟩, rfl, rfl, hdeclaration,
    hattributed⟩

end FactGraph
