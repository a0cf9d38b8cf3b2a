import FactGraph.Proofs.Resolution.Surroundings

/-!
# Resolving without a memory

Every name of a project could be resolved on its own, starting without any memory in the scope of
its occurrence. What is remembered from one occurrence is used at another of the same file, place
and name, so both ways lead to the same project if the place tells what is around it: two scopes of
one file with the same place have the same surroundings. The place is one name, the surroundings are
a list that is made from a namespace and a path of enclosing types, so this is not so in general; it
is if the declarations are plain.

## Main definitions

* `Resolver.resolveForgetful`: a project with every name resolved on its own
* `Resolver.PlacesTell`: the place of a scope tells its surroundings

## Main results

* `placesTell_of_plain`: the place tells the surroundings among plain declarations
* `resolveProject_forgetful`: what is remembered changes no result
-/

namespace FactGraph

/-! ## With a memory and without -/

/-- **The computation has a fixed result**, from every memory with the property, which it keeps. -/
def ResolveM.Settles {α : Type} (holds : Memory → Prop) (step : ResolveM α) (result : Id α) :
    Prop :=
  ∀ memory, holds memory → (step.run memory).1 = result.run ∧ holds (step.run memory).2

/-- Having a fixed result, as a comparison with computations that have no memory. -/
def ResolveM.settles (holds : Memory → Prop) : Comparison ResolveM Id where
  Same := ResolveM.Settles holds
  same_pure _ := fun _ hmemory => ⟨rfl, hmemory⟩
  same_bind := by
    intro α β step result next next' hstep hnext memory hmemory
    obtain ⟨hresult, hkept⟩ := hstep memory hmemory
    have hrest := hnext result.run _ hkept
    rw [← hresult] at hrest
    exact ⟨hrest.1.trans (by rw [hresult]; rfl), hrest.2⟩

open ResolveM (Alike Settles settles)

/-- Two memories with a property. -/
def Memory.Both (holds : Memory → Prop) (memory memory' : Memory) : Prop :=
  holds memory ∧ holds memory'

/-- A computation that does the same from any two memories with a property has a fixed result: the
one that it has without a memory. -/
theorem ResolveM.Alike.settles {α : Type} {holds : Memory → Prop} {step : ResolveM α}
    (h : Alike (Memory.Both holds) step step) (hempty : holds {}) :
    Settles holds step (step.run {}).1 := by
  intro memory hmemory
  obtain ⟨hresult, hkept, -⟩ := h memory {} ⟨hmemory, hempty⟩
  exact ⟨hresult.symm, hkept⟩

namespace ResolveM.Settles

variable {α β : Type} {holds : Memory → Prop} {step : ResolveM α} {a : α}

/-- What comes next goes on from the fixed result. -/
theorem bind {next : α → ResolveM β} {b : β} (h : Settles holds step a)
    (hnext : Settles holds (next a) b) : Settles holds (step >>= next) b := by
  intro memory hmemory
  obtain ⟨hresult, hkept⟩ := h memory hmemory
  rw [StateT.run_bind]
  change ((next (step.run memory).1).run (step.run memory).2).1 = b ∧
    holds ((next (step.run memory).1).run (step.run memory).2).2
  rw [show (step.run memory).1 = a from hresult]
  exact hnext _ hkept

/-- A computation with a fixed result does the same from any two memories. -/
theorem alike (h : Settles holds step a) : Alike (Memory.Both holds) step step := by
  rintro memory memory' ⟨hmemory, hmemory'⟩
  obtain ⟨hresult, hkept⟩ := h memory hmemory
  obtain ⟨hresult', hkept'⟩ := h memory' hmemory'
  exact ⟨hresult'.trans hresult.symm, hkept, hkept'⟩

end ResolveM.Settles

namespace Resolver

-- How a tree is read from a text does not matter here.
attribute [local irreducible] TypeName.parse

variable (resolver : Resolver)

/-- Every name is resolved on its own. -/
def forgetful : NameAction Id where
  onName := resolver.resolveTypeName
  onMissingOwner scope method := ((resolver.resolveOwner scope method).run {}).1

/-- **A project with every name resolved on its own**, in the scope of its occurrence. -/
def resolveForgetful (fact : ProjectFact) : ProjectFact :=
  match resolver.index.projectIndex? fact.path with
  | none => fact
  | some project =>
    (fact.mapNames resolver.forgetful (resolver.scopeOf project fact.path)).run

/-- **The place tells what is around it**: the scopes of a project that are of one file and have the
same place have the same surroundings. -/
def PlacesTell (project : Nat) (fact : ProjectFact) : Prop :=
  ∀ scope scope', ScopeIn resolver project fact scope → ScopeIn resolver project fact scope' →
    scope'.filePath = scope.filePath → scope'.place = scope.place →
    resolver.surroundings scope' = resolver.surroundings scope

variable {resolver} {project : Nat} {fact : ProjectFact} {scope : ResolutionScope}

/-- **A base is looked up with the answer that it has without a memory**, if the look-ups that were
made from the same file and place have it too. -/
theorem lookupOnce_settles {scopes : ResolutionScope → Prop} (hscope : scopes scope) {base : String}
    (hlookup : ∀ scope', scopes scope' → scope'.filePath = scope.filePath →
      scope'.place = scope.place →
        (resolver.lookup scope' base).fullName? = (resolver.lookup scope base).fullName?) :
    ResolveM.Settles (Memory.Faithful resolver scopes) (resolver.lookupOnce scope base)
      (resolver.lookup scope base).fullName? := by
  intro memory hmemory
  have hkept : Alike (Memory.Shared (Memory.Faithful resolver scopes))
      (resolver.lookupOnce scope base) (resolver.lookupOnce scope base) :=
    lookupOnce_alike (.refl resolver scope)
      (fun base memory hmemory => hmemory.lookedUp hscope base) base
  exact ⟨lookupOnce_of_faithful hmemory hscope hlookup,
    (hkept memory memory ⟨rfl, hmemory⟩).2.2⟩

/-- A base is looked up alike from any two memories whose answers were given to look-ups of the
project: an answer for the same file and place was given with the same surroundings. -/
theorem lookupOnce_forgetful (htell : resolver.PlacesTell project fact)
    (hscope : ScopeIn resolver project fact scope) (base : String) :
    Alike (Memory.Both (Memory.Faithful resolver (ScopeIn resolver project fact)))
      (resolver.lookupOnce scope base) (resolver.lookupOnce scope base) := by
  refine (lookupOnce_settles hscope fun scope' hscope' hfile hplace => ?_).alike
  have hproject := hscope'.spec.1.trans hscope.spec.1.symm
  have hsees := SeesAlike.of_surroundings hproject hfile (htell _ _ hscope hscope' hfile hplace)
  rw [hsees.lookup]

/-- **What is remembered changes no result**, if the place of a scope tells its surroundings: every
name of the resolved project is what it is resolved to on its own. -/
theorem resolveProject_forgetful (resolver : Resolver) (fact : ProjectFact)
    (htell : ∀ project, resolver.index.projectIndex? fact.path = some project →
      resolver.PlacesTell project fact) :
    (resolver.resolveProject fact).1 = resolver.resolveForgetful fact := by
  unfold resolveProject resolveForgetful
  cases hproject : resolver.index.projectIndex? fact.path with
  | none => rfl
  | some project =>
    have hempty : Memory.Faithful resolver (ScopeIn resolver project fact) {} := by
      simp [Memory.Faithful]
    have hlookup (scope : ResolutionScope) (hscope : ScopeIn resolver project fact scope) :=
      lookupOnce_forgetful (htell project hproject) hscope
    have hname (scope : ResolutionScope) (hscope : ScopeIn resolver project fact scope)
        (name : String) := (resolveName_alike (hlookup scope hscope) name).settles hempty
    refine (ProjectFact.mapNames_alike (c := settles _) fact ?_ {} hempty).1
    intro unit hunit type htype hnamed
    refine type.mapNames_alike ?_ ?_ ?_
    · exact fun parameters => hname _ (.within hunit htype hnamed parameters)
    · exact hname _ (.outside hunit htype hnamed)
    · intro call hcall
      obtain ⟨parameters, heq⟩ := TypeFact.scope_of_ownerless hcall
      have hscope : ScopeIn resolver project fact call.1 := by
        rw [heq]
        exact .within hunit htype hnamed parameters
      exact (resolveOwner_alike (hlookup _ hscope) rfl rfl fun _ _ _ _ _ => rfl).settles hempty

/-! ## Declarations that share a place -/

/-- **Among plain declarations the place tells what is around it**: the names around the place. -/
theorem placesTell_of_plain {repo : RepositoryFact} {sep : Separator}
    (hindex : resolver.index = (ScopeIndex.build repo sep).1)
    (hplain : ∀ unit ∈ fact.units, ∀ type ∈ unit.types, type.isNamed → type.IsPlain sep) :
    resolver.PlacesTell project fact := by
  -- What is around an occurrence can be read off its place, because the place is a plain path.
  have haround (scope : ResolutionScope) (hscope : ScopeIn resolver project fact scope) :
      resolver.surroundings scope = sep.around scope.place := by
    cases hscope with
    | @within unit type hunit htype hnamed parameters =>
      have htype := hplain unit hunit type htype hnamed
      exact (surroundings_of_plain hindex htype project fact.path unit.path).1
    | @outside unit type hunit htype hnamed =>
      have htype := hplain unit hunit type htype hnamed
      exact (surroundings_of_plain hindex htype project fact.path unit.path).2
  intro scope scope' hscope hscope' _ hplace
  rw [haround scope hscope, haround scope' hscope', hplace]

/-- A shop whose cart is declared in two fragments, next to an item. There is another item in the
attic. -/
def carts (first second : TypeFact) : RepositoryFact where
  solutions := [{ path := "all", projects := [shop first second] }]
where
  shop (first second : TypeFact) : ProjectFact :=
    { path := "shop"
      units := [{
        path := "shop/cart"
        types := [{ name := "Item", namespaceName := "Attic" },
          { name := "Item", namespaceName := "Shop" }, first, second] }] }
  /-- A fragment of a type with a field. -/
  fragment (namespaceName name field : String) : TypeFact :=
    { name, namespaceName, isPartial := true
      fields := [{ name := field, typeRef := { name := "Item" } }] }

/-- The resolver of the carts. -/
def cartResolver (first second : TypeFact) : Resolver :=
  ⟨(ScopeIndex.build (carts first second) .dot).1, .referencesThenGlobal⟩

/-- The types of the fields of a project. -/
def fieldTypes (fact : ProjectFact) : List String :=
  fact.units.flatMap fun unit => unit.types.flatMap fun type =>
    type.fields.map fun field => field.typeRef.name

/-- **What is remembered can change a result**: a fragment with the namespace in its name is of the
same place as one in the namespace, but the namespace is not around it. -/
theorem carts_remembered :
    let first := carts.fragment "" "Shop.Cart" "first"
    let second := carts.fragment "Shop" "Cart" "second"
    let resolver := cartResolver first second
    fieldTypes (resolver.resolveProject (carts.shop first second)).1 =
        ["Attic.Item", "Attic.Item"] ∧
      fieldTypes (resolver.resolveForgetful (carts.shop first second)) =
        ["Attic.Item", "Shop.Item"] ∧
      (resolver.resolveProject (carts.shop first second)).1 ≠
        resolver.resolveForgetful (carts.shop first second) := by
  intro first second resolver
  have hresolved : fieldTypes (resolver.resolveProject (carts.shop first second)).1 =
      ["Attic.Item", "Attic.Item"] := by decide +kernel
  have hforgetful : fieldTypes (resolver.resolveForgetful (carts.shop first second)) =
      ["Attic.Item", "Shop.Item"] := by decide +kernel
  refine ⟨hresolved, hforgetful, fun hsame => ?_⟩
  rw [hsame, hforgetful] at hresolved
  exact absurd hresolved (by decide)

/-- Two fragments in the namespace, of which the second uses what the first has looked up. -/
theorem carts_forgetful :
    let first := carts.fragment "Shop" "Cart" "first"
    let second := carts.fragment "Shop" "Cart" "second"
    let resolver := cartResolver first second
    (resolver.resolveProject (carts.shop first second)).1 =
        resolver.resolveForgetful (carts.shop first second) ∧
      fieldTypes (resolver.resolveForgetful (carts.shop first second)) =
        ["Shop.Item", "Shop.Item"] := by
  intro first second resolver
  have hplain (namespaceName name : String) (fields : List FieldFact) (isPartial : Bool)
      (hnamespace : Separator.dot.IsSegment (Text.trim namespaceName))
      (hname : Separator.dot.IsSegment ({ name } : TypeFact).simpleName) :
      ({ name, namespaceName, fields, isPartial } : TypeFact).IsPlain .dot :=
    ⟨⟨[Text.trim namespaceName], by simpa using hnamespace, rfl⟩, by simp [TypeFact.outerName?],
      hname⟩
  refine ⟨resolver.resolveProject_forgetful _ fun project _ => placesTell_of_plain rfl ?_,
    by decide +kernel⟩
  intro unit hunit type htype _
  obtain rfl := List.mem_singleton.1 hunit
  simp only [List.mem_cons, List.not_mem_nil, or_false] at htype
  obtain rfl | rfl | rfl | rfl := htype
  all_goals exact hplain _ _ _ _ (by decide) (by decide)

end Resolver

end FactGraph
