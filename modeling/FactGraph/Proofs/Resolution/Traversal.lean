import FactGraph.Resolution.Traversal

/-!
# Going through a declaration with two actions

A declaration is gone through twice, with two actions that do the same to each of its names. Then
the two walks do the same. What it means that two computations do the same is left open: any
relation between them will do that holds of equal results at once and is kept when one step follows
another. The two may even be of different kinds, such as one with a memory and one without.

For the written names it is enough that the actions do the same to every name in a scope; the calls
that are written without an owner are named one by one, since what is done to them depends on the
called method.

## Main definitions

* `Comparison`: a relation between computations that can be followed step by step
* `TypeFact.ownerless`: the calls of a declaration that are written without an owner

## Main results

* `TypeFact.mapNames_alike`, `ProjectFact.mapNames_alike`: two walks do the same
-/

namespace FactGraph

/-! ## Two computations -/

/-- **A way to say that two computations do the same**, step by step. -/
structure Comparison (m m' : Type → Type) [Monad m] [Monad m'] [LawfulMonad m] [LawfulMonad m']
    where
  Same {α : Type} : m α → m' α → Prop
  same_pure {α : Type} (a : α) : Same (pure a) (pure a)
  same_bind {α β : Type} {step : m α} {step' : m' α} {next : α → m β} {next' : α → m' β} :
    Same step step' → (∀ a, Same (next a) (next' a)) → Same (step >>= next) (step' >>= next')

variable {m m' : Type → Type} [Monad m] [Monad m'] [LawfulMonad m] [LawfulMonad m']

namespace Comparison

variable (c : Comparison m m') {α β γ : Type}

theorem mapM {f : α → m β} {f' : α → m' β} {xs : List α} (h : ∀ x ∈ xs, c.Same (f x) (f' x)) :
    c.Same (xs.mapM f) (xs.mapM f') := by
  induction xs with
  | nil => exact c.same_pure []
  | cons x xs ih =>
    rw [List.mapM_cons, List.mapM_cons]
    refine c.same_bind (h x (by simp)) fun y => ?_
    exact c.same_bind (ih fun other hother => h other (by simp [hother])) fun _ => c.same_pure _

theorem optionMapM {f : α → m β} {f' : α → m' β} {x : Option α}
    (h : ∀ a ∈ x, c.Same (f a) (f' a)) : c.Same (x.mapM f) (x.mapM f') := by
  cases x with
  | none => exact c.same_pure none
  | some a =>
    rw [Option.mapM_some, Option.mapM_some, map_eq_pure_bind, map_eq_pure_bind]
    exact c.same_bind (h a rfl) fun _ => c.same_pure _

theorem foldlM {f : γ → α → m γ} {f' : γ → α → m' γ} {xs : List α}
    (h : ∀ state, ∀ x ∈ xs, c.Same (f state x) (f' state x)) (state : γ) :
    c.Same (xs.foldlM f state) (xs.foldlM f' state) := by
  induction xs generalizing state with
  | nil => exact c.same_pure state
  | cons x xs ih =>
    rw [List.foldlM_cons, List.foldlM_cons]
    refine c.same_bind (h state x (by simp)) fun next => ?_
    exact ih (fun state other hother => h state other (by simp [hother])) next

end Comparison

/-! ## Written names -/

section Names

variable (c : Comparison m m') {act : String → m String} {act' : String → m' String}

mutual

theorem TypeRef.mapNames_alike (h : ∀ name, c.Same (act name) (act' name)) :
    (ref : TypeRef) → c.Same (ref.mapNames act) (ref.mapNames act')
  | ⟨name, args⟩ => by
    unfold TypeRef.mapNames
    refine c.same_bind (h name) fun _ => ?_
    exact c.same_bind (TypeRef.mapNamesAll_alike h args) fun _ => c.same_pure _

theorem TypeRef.mapNamesAll_alike (h : ∀ name, c.Same (act name) (act' name)) :
    (refs : List TypeRef) →
      c.Same (TypeRef.mapNamesAll act refs) (TypeRef.mapNamesAll act' refs)
  | [] => by
    unfold TypeRef.mapNamesAll
    exact c.same_pure []
  | ref :: refs => by
    unfold TypeRef.mapNamesAll
    refine c.same_bind (TypeRef.mapNames_alike h ref) fun _ => ?_
    exact c.same_bind (TypeRef.mapNamesAll_alike h refs) fun _ => c.same_pure _

end

variable (h : ∀ name, c.Same (act name) (act' name))
include h

theorem AttributeFact.mapNames_alike (fact : AttributeFact) :
    c.Same (fact.mapNames act) (fact.mapNames act') :=
  c.same_bind (TypeRef.mapNames_alike c h fact.typeRef) fun _ => c.same_pure _

theorem ParameterFact.mapNames_alike (fact : ParameterFact) :
    c.Same (fact.mapNames act) (fact.mapNames act') := by
  refine c.same_bind (TypeRef.mapNames_alike c h fact.typeRef) fun _ => ?_
  exact c.same_bind (c.mapM fun fact _ => AttributeFact.mapNames_alike c h fact)
    fun _ => c.same_pure _

theorem LocalVariableFact.mapNames_alike (fact : LocalVariableFact) :
    c.Same (fact.mapNames act) (fact.mapNames act') :=
  c.same_bind (TypeRef.mapNames_alike c h fact.typeRef) fun _ => c.same_pure _

theorem FieldFact.mapNames_alike (fact : FieldFact) :
    c.Same (fact.mapNames act) (fact.mapNames act') := by
  refine c.same_bind (TypeRef.mapNames_alike c h fact.typeRef) fun _ => ?_
  exact c.same_bind (c.mapM fun fact _ => AttributeFact.mapNames_alike c h fact)
    fun _ => c.same_pure _

theorem MetricFact.mapNames_alike (fact : MetricFact) :
    c.Same (fact.mapNames act) (fact.mapNames act') := by
  refine c.same_bind (c.foldlM (fun counts entry _ => ?_) _) fun _ => c.same_pure _
  exact c.same_bind (h entry.1) fun _ => c.same_pure _

end Names

/-! ## Calls without an owner -/

/-- The scope and the name of the called method, if the call is written without an owner. -/
def CallFact.ownerless (scope : ResolutionScope) (fact : CallFact) :
    List (ResolutionScope × String) :=
  if Text.isBlank fact.containingType then [(scope, fact.name)] else []

namespace MethodFact

mutual

/-- The calls of a method and of its local functions that are written without an owner, each with
its scope. -/
def ownerless (scope : ResolutionScope) : MethodFact → List (ResolutionScope × String)
  | ⟨head, localFunctions⟩ =>
    let inner := scope.withTypeParameters head.genericParameters
    head.calledMethods.flatMap (CallFact.ownerless inner) ++ ownerlessAll inner localFunctions

/-- The calls of the methods of a list that are written without an owner. -/
def ownerlessAll (scope : ResolutionScope) : List MethodFact → List (ResolutionScope × String)
  | [] => []
  | method :: methods => ownerless scope method ++ ownerlessAll scope methods

end

end MethodFact

/-- **The calls of a declaration that are written without an owner**, each with its scope and the
name of the called method. -/
def TypeFact.ownerless (scope : ResolutionScope) (fact : TypeFact) :
    List (ResolutionScope × String) :=
  (fact.properties.flatMap PropertyFact.accessors ++ fact.methods ++ fact.constructors ++
    fact.destructor.toList).flatMap (MethodFact.ownerless scope)

theorem ResolutionScope.withTypeParameters_append (scope : ResolutionScope)
    (parameters more : List String) :
    (scope.withTypeParameters parameters).withTypeParameters more =
      scope.withTypeParameters (parameters ++ more) := by
  simp [withTypeParameters]

@[simp] theorem ResolutionScope.withTypeParameters_nil (scope : ResolutionScope) :
    scope.withTypeParameters [] = scope := by
  simp [withTypeParameters]

mutual

/-- A call in a method is in the scope of the method, with more generic parameters. -/
theorem MethodFact.scope_of_ownerless {scope : ResolutionScope} :
    (fact : MethodFact) → ∀ call ∈ fact.ownerless scope,
      ∃ parameters, call.1 = scope.withTypeParameters parameters
  | ⟨head, localFunctions⟩ => fun call hcall => by
    unfold MethodFact.ownerless at hcall
    rcases List.mem_append.1 hcall with hcall | hcall
    · obtain ⟨fact, -, hcall⟩ := List.mem_flatMap.1 hcall
      unfold CallFact.ownerless at hcall
      split at hcall
      · exact ⟨head.genericParameters, by rw [List.mem_singleton.1 hcall]⟩
      · cases hcall
    · obtain ⟨parameters, hscope⟩ := MethodFact.scope_of_ownerlessAll localFunctions call hcall
      exact ⟨_, hscope.trans (scope.withTypeParameters_append _ parameters)⟩

theorem MethodFact.scope_of_ownerlessAll {scope : ResolutionScope} :
    (facts : List MethodFact) → ∀ call ∈ MethodFact.ownerlessAll scope facts,
      ∃ parameters, call.1 = scope.withTypeParameters parameters
  | [] => fun call hcall => by
    unfold MethodFact.ownerlessAll at hcall
    cases hcall
  | fact :: facts => fun call hcall => by
    unfold MethodFact.ownerlessAll at hcall
    rcases List.mem_append.1 hcall with hcall | hcall
    · exact MethodFact.scope_of_ownerless fact call hcall
    · exact MethodFact.scope_of_ownerlessAll facts call hcall

end

theorem TypeFact.scope_of_ownerless {scope : ResolutionScope} {fact : TypeFact}
    {call : ResolutionScope × String} (h : call ∈ fact.ownerless scope) :
    ∃ parameters, call.1 = scope.withTypeParameters parameters := by
  obtain ⟨method, -, hcall⟩ := List.mem_flatMap.1 h
  exact method.scope_of_ownerless call hcall

/-! ## Declarations -/

section Declarations

variable {action : NameAction m} {action' : NameAction m'} {scope : ResolutionScope}

/-- The two actions do the same to every name of a scope. -/
def NameAction.NamesAlike (c : Comparison m m') (action : NameAction m) (action' : NameAction m')
    (scope : ResolutionScope) : Prop :=
  ∀ name, c.Same (action.onName scope name) (action'.onName scope name)

/-- The two actions do the same to the calls of a list. -/
def NameAction.OwnersAlike (c : Comparison m m') (action : NameAction m) (action' : NameAction m')
    (calls : List (ResolutionScope × String)) : Prop :=
  ∀ call ∈ calls,
    c.Same (action.onMissingOwner call.1 call.2) (action'.onMissingOwner call.1 call.2)

/-- The two actions do the same to every name in a scope and in the methods that it is around. -/
def NameAction.NamesAlikeWithin (c : Comparison m m') (action : NameAction m)
    (action' : NameAction m') (scope : ResolutionScope) : Prop :=
  ∀ parameters, NameAction.NamesAlike c action action' (scope.withTypeParameters parameters)

variable {c : Comparison m m'}

theorem NameAction.NamesAlikeWithin.inner
    (h : NameAction.NamesAlikeWithin c action action' scope) (parameters : List String) :
    NameAction.NamesAlikeWithin c action action' (scope.withTypeParameters parameters) := by
  intro more
  rw [scope.withTypeParameters_append]
  exact h (parameters ++ more)

theorem NameAction.NamesAlikeWithin.here
    (h : NameAction.NamesAlikeWithin c action action' scope) :
    NameAction.NamesAlike c action action' scope := by
  simpa using h []

theorem TypeRef.mapM_alike (refs : List TypeRef)
    (hnames : NameAction.NamesAlike c action action' scope) :
    c.Same (refs.mapM (TypeRef.mapNames (action.onName scope)))
      (refs.mapM (TypeRef.mapNames (action'.onName scope))) :=
  c.mapM fun ref _ => TypeRef.mapNames_alike c hnames ref

theorem AttributeFact.mapM_alike (facts : List AttributeFact)
    (hnames : NameAction.NamesAlike c action action' scope) :
    c.Same (facts.mapM (AttributeFact.mapNames (action.onName scope)))
      (facts.mapM (AttributeFact.mapNames (action'.onName scope))) :=
  c.mapM fun fact _ => AttributeFact.mapNames_alike c hnames fact

theorem CallFact.mapNames_alike (fact : CallFact)
    (hnames : NameAction.NamesAlike c action action' scope)
    (howners : NameAction.OwnersAlike c action action' (fact.ownerless scope)) :
    c.Same (fact.mapNames action scope) (fact.mapNames action' scope) := by
  unfold CallFact.mapNames
  dsimp only
  split
  next hblank =>
    refine c.same_bind (howners (scope, fact.name) (by simp [CallFact.ownerless, hblank]))
      fun _ => ?_
    exact c.same_bind (TypeRef.mapM_alike _ hnames) fun _ => c.same_pure _
  next =>
    refine c.same_bind (hnames fact.containingType) fun _ => ?_
    exact c.same_bind (TypeRef.mapM_alike _ hnames) fun _ => c.same_pure _

theorem MethodHead.mapNames_alike (head : MethodHead)
    (hnames : NameAction.NamesAlike c action action' scope)
    (howners : NameAction.OwnersAlike c action action'
      (head.calledMethods.flatMap (CallFact.ownerless scope))) :
    c.Same (head.mapNames action scope) (head.mapNames action' scope) := by
  unfold MethodHead.mapNames
  refine c.same_bind (c.optionMapM fun ref _ => TypeRef.mapNames_alike c hnames ref) fun _ => ?_
  refine c.same_bind (c.mapM fun fact _ => ParameterFact.mapNames_alike c hnames fact)
    fun _ => ?_
  refine c.same_bind (c.mapM fun fact _ => LocalVariableFact.mapNames_alike c hnames fact)
    fun _ => ?_
  refine c.same_bind (c.mapM fun fact hfact => ?_) fun _ => ?_
  · refine CallFact.mapNames_alike fact hnames fun call hcall => howners call ?_
    exact List.mem_flatMap.2 ⟨fact, hfact, hcall⟩
  · exact c.same_bind (AttributeFact.mapM_alike _ hnames) fun _ => c.same_pure _

mutual

theorem MethodFact.mapNames_alike {scope : ResolutionScope}
    (hnames : NameAction.NamesAlikeWithin c action action' scope) :
    (fact : MethodFact) →
      NameAction.OwnersAlike c action action' (fact.ownerless scope) →
      c.Same (fact.mapNames action scope) (fact.mapNames action' scope)
  | ⟨head, localFunctions⟩ => fun howners => by
    unfold MethodFact.mapNames
    unfold MethodFact.ownerless at howners
    have hinner := hnames.inner head.genericParameters
    refine c.same_bind (MethodHead.mapNames_alike head hinner.here
      fun call hcall => howners call (List.mem_append_left _ hcall)) fun _ => ?_
    exact c.same_bind (MethodFact.mapNamesAll_alike hinner localFunctions
      fun call hcall => howners call (List.mem_append_right _ hcall)) fun _ => c.same_pure _

theorem MethodFact.mapNamesAll_alike {scope : ResolutionScope}
    (hnames : NameAction.NamesAlikeWithin c action action' scope) :
    (facts : List MethodFact) →
      NameAction.OwnersAlike c action action' (MethodFact.ownerlessAll scope facts) →
      c.Same (MethodFact.mapNamesAll action scope facts)
        (MethodFact.mapNamesAll action' scope facts)
  | [] => fun _ => by
    unfold MethodFact.mapNamesAll
    exact c.same_pure []
  | fact :: facts => fun howners => by
    unfold MethodFact.mapNamesAll
    unfold MethodFact.ownerlessAll at howners
    refine c.same_bind (MethodFact.mapNames_alike hnames fact
      fun call hcall => howners call (List.mem_append_left _ hcall)) fun _ => ?_
    exact c.same_bind (MethodFact.mapNamesAll_alike hnames facts
      fun call hcall => howners call (List.mem_append_right _ hcall)) fun _ => c.same_pure _

end

theorem MethodFact.mapM_alike (hnames : NameAction.NamesAlikeWithin c action action' scope)
    {facts : List MethodFact}
    (howners : NameAction.OwnersAlike c action action'
      (facts.flatMap (MethodFact.ownerless scope))) :
    c.Same (facts.mapM (MethodFact.mapNames action scope))
      (facts.mapM (MethodFact.mapNames action' scope)) := by
  refine c.mapM fun fact hfact => MethodFact.mapNames_alike hnames fact fun call hcall => ?_
  exact howners call (List.mem_flatMap.2 ⟨fact, hfact, hcall⟩)

theorem PropertyFact.mapNames_alike (fact : PropertyFact)
    (hnames : NameAction.NamesAlikeWithin c action action' scope)
    (howners : NameAction.OwnersAlike c action action'
      (fact.accessors.flatMap (MethodFact.ownerless scope))) :
    c.Same (fact.mapNames action scope) (fact.mapNames action' scope) := by
  unfold PropertyFact.mapNames
  refine c.same_bind (TypeRef.mapNames_alike c hnames.here fact.typeRef) fun _ => ?_
  refine c.same_bind (MethodFact.mapM_alike hnames howners) fun _ => ?_
  exact c.same_bind (AttributeFact.mapM_alike _ hnames.here) fun _ => c.same_pure _

/-- **Two walks through a declaration do the same**, if the actions do the same to the names in its
scope, to those of its base types and to its calls without an owner. -/
theorem TypeFact.mapNames_alike (fact : TypeFact)
    (hnames : NameAction.NamesAlikeWithin c action action' scope)
    (hbases : NameAction.NamesAlike c action action' scope.outsideCurrentType)
    (howners : NameAction.OwnersAlike c action action' (fact.ownerless scope)) :
    c.Same (fact.mapNames action scope) (fact.mapNames action' scope) := by
  simp only [TypeFact.ownerless, List.flatMap_append, List.flatMap_assoc] at howners
  unfold TypeFact.mapNames
  -- Part by part, in the order of the traversal. Only base types are seen from outside of the type.
  refine c.same_bind (TypeRef.mapM_alike _ hbases) fun _ => ?_
  refine c.same_bind (AttributeFact.mapM_alike _ hnames.here) fun _ => ?_
  refine c.same_bind (c.mapM fun field _ => FieldFact.mapNames_alike c hnames.here field)
    fun _ => ?_
  refine c.same_bind (c.mapM fun property hproperty => ?_) fun _ => ?_
  · refine PropertyFact.mapNames_alike property hnames fun call hcall => howners call ?_
    simp only [List.mem_append]
    exact .inl (.inl (.inl (List.mem_flatMap.2 ⟨property, hproperty, hcall⟩)))
  refine c.same_bind (MethodFact.mapM_alike hnames fun call hcall => howners call ?_) fun _ => ?_
  · simp [hcall]
  refine c.same_bind (MethodFact.mapM_alike hnames fun call hcall => howners call ?_) fun _ => ?_
  · simp [hcall]
  refine c.same_bind (c.optionMapM fun method hmethod => ?_) fun _ => ?_
  · refine MethodFact.mapNames_alike hnames method fun call hcall => howners call ?_
    simp only [List.mem_append]
    exact .inr (List.mem_flatMap.2 ⟨method, by simpa using hmethod, hcall⟩)
  exact c.same_bind (c.mapM fun metric _ => MetricFact.mapNames_alike c hnames.here metric)
    fun _ => c.same_pure _

/-- Two walks through a unit do the same, if those through its named declarations do. -/
theorem UnitFact.mapNames_alike {scopeOf scopeOf' : TypeFact → ResolutionScope} (fact : UnitFact)
    (h : ∀ type ∈ fact.types, type.isNamed →
      c.Same (type.mapNames action (scopeOf type)) (type.mapNames action' (scopeOf' type))) :
    c.Same (fact.mapNames action scopeOf) (fact.mapNames action' scopeOf') := by
  unfold UnitFact.mapNames
  refine c.same_bind (c.mapM fun type htype => ?_) fun _ => c.same_pure _
  split
  next hnamed => exact h type htype hnamed
  next => exact c.same_pure type

/-- Two walks through a project do the same, if those through its named declarations do. -/
theorem ProjectFact.mapNames_alike {scopeOf scopeOf' : String → TypeFact → ResolutionScope}
    (fact : ProjectFact)
    (h : ∀ unit ∈ fact.units, ∀ type ∈ unit.types, type.isNamed →
      c.Same (type.mapNames action (scopeOf unit.path type))
        (type.mapNames action' (scopeOf' unit.path type))) :
    c.Same (fact.mapNames action scopeOf) (fact.mapNames action' scopeOf') := by
  unfold ProjectFact.mapNames
  refine c.same_bind (c.mapM fun unit hunit => ?_) fun _ => c.same_pure _
  exact unit.mapNames_alike (h unit hunit)

end Declarations

end FactGraph
