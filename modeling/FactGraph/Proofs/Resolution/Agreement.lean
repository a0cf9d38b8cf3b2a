import FactGraph.Proofs.Resolution.Traversal
import FactGraph.Resolution.Repository

/-!
# Two resolvers that see the same

What a look-up asks for is seen from its scope: what is around it, what the own project declares,
which names are visible, the imports of the file, and the candidates of the last step. Two resolvers
that see the same from their scopes look names up there with the same outcome, and from one scope
with the same memory.
The owner of a call that is written without one takes more: which types declare the called method is
asked by full name.

## Main definitions

* `ResolveM.Alike`: two computations do the same and keep a relation between their memories
* `Resolver.SeesAlike`: two resolvers see the same from their scopes
* `Resolver.ScopeIn`: the scopes from which the names of a project are looked up
* `Memory.Faithful`: every answer was given to a look-up from one of the scopes

## Main results

* `SeesAlike.lookup`: a look-up has the same outcome
* `resolveName_alike`, `resolveOwner_alike`: names and owners are resolved alike
* `mapNames_action_alike`: two walks through a project do the same
* `resolveProject_reportsFor`: the findings of a project are made in it
-/

namespace FactGraph

/-! ## Two computations with a memory -/

/-- **The two computations do the same**: from related memories they have equal results, and the
memories are related afterwards. -/
def ResolveM.Alike {α : Type} (keeps : Memory → Memory → Prop) (step step' : ResolveM α) : Prop :=
  ∀ memory memory', keeps memory memory' →
    (step'.run memory').1 = (step.run memory).1 ∧ keeps (step.run memory).2 (step'.run memory').2

namespace ResolveM.Alike

variable {α β : Type} {keeps : Memory → Memory → Prop}

theorem pure (a : α) : Alike keeps (Pure.pure a) (Pure.pure a) :=
  fun _ _ hmemory => ⟨rfl, hmemory⟩

/-- What comes next need only do the same for the results that the first computation can have. -/
theorem bindResult {step step' : ResolveM α} {next next' : α → ResolveM β}
    (hstep : Alike keeps step step')
    (hnext : ∀ memory memory', keeps memory memory' →
      Alike keeps (next (step.run memory).1) (next' (step.run memory).1)) :
    Alike keeps (step >>= next) (step' >>= next') := by
  intro memory memory' hmemory
  obtain ⟨hsame, hkept⟩ := hstep memory memory' hmemory
  have hrest := hnext memory memory' hmemory _ _ hkept
  rw [StateT.run_bind, StateT.run_bind]
  show ((next' (step'.run memory').1).run (step'.run memory').2).1 = _ ∧
    keeps _ ((next' (step'.run memory').1).run (step'.run memory').2).2
  rw [hsame]
  exact hrest

theorem bind {step step' : ResolveM α} {next next' : α → ResolveM β}
    (hstep : Alike keeps step step') (hnext : ∀ a, Alike keeps (next a) (next' a)) :
    Alike keeps (step >>= next) (step' >>= next') :=
  hstep.bindResult fun _ _ _ => hnext _

end ResolveM.Alike

/-- Doing the same with related memories, as a comparison. -/
def ResolveM.alike (keeps : Memory → Memory → Prop) : Comparison ResolveM ResolveM where
  Same := ResolveM.Alike keeps
  same_pure := .pure
  same_bind := .bind

open ResolveM (Alike alike)

namespace Resolver

-- How a tree is read from a text does not matter here.
attribute [local irreducible] TypeName.parse

variable {resolver resolver' : Resolver} {scope : ResolutionScope}

/-! ## Look-ups -/

/-- **The two resolvers see the same from their scopes**: what a look-up from there asks for. -/
structure SeesAlike (resolver resolver' : Resolver) (scope scope' : ResolutionScope) : Prop where
  separator : resolver'.separator = resolver.separator
  surroundings : resolver'.surroundings scope' = resolver.surroundings scope
  isDeclaredIn : ∀ fullName, resolver'.index.isDeclaredIn fullName scope'.project =
    resolver.index.isDeclaredIn fullName scope.project
  isVisible : ∀ fullName, resolver'.isVisible scope' fullName = resolver.isVisible scope fullName
  importsOf? : resolver'.index.importsOf? scope'.filePath =
    resolver.index.importsOf? scope.filePath
  fallbackMatch : ∀ name, resolver'.fallbackMatch scope' name = resolver.fallbackMatch scope name

namespace SeesAlike

/-- All that a look-up asks of a scope is its project, its file and what is around it. -/
theorem of_surroundings {scope scope' : ResolutionScope} (hproject : scope'.project = scope.project)
    (hfile : scope'.filePath = scope.filePath)
    (hsurroundings : resolver.surroundings scope' = resolver.surroundings scope) :
    SeesAlike resolver resolver scope scope' := by
  refine ⟨rfl, hsurroundings, ?_, ?_, ?_, ?_⟩
  · intro fullName
    rw [hproject]
  · intro fullName
    rw [Resolver.isVisible, Resolver.isVisible, hproject]
  · rw [hfile]
  · intro name
    rw [Resolver.fallbackMatch, Resolver.fallbackMatch, searchOrder, searchOrder, hproject]

theorem refl (resolver : Resolver) (scope : ResolutionScope) :
    SeesAlike resolver resolver scope scope :=
  of_surroundings rfl rfl rfl

variable {scope' : ResolutionScope} (h : SeesAlike resolver resolver' scope scope')
include h

theorem importEntries (kind : ImportKind) :
    resolver'.importEntries scope' kind = resolver.importEntries scope kind := by
  rw [Resolver.importEntries, Resolver.importEntries, h.importsOf?]

theorem lookupWith {byAlias? byAlias?' : String → Option String}
    (halias : ∀ name, byAlias?' name = byAlias? name) (name : String) :
    resolver'.lookupWith scope' byAlias?' name = resolver.lookupWith scope byAlias? name := by
  have henclosing (name : String) :
      resolver'.enclosingMatch? scope' name = resolver.enclosingMatch? scope name := by
    simp only [enclosingMatch?, h.surroundings, h.separator, h.isDeclaredIn]
  have himports (name : String) :
      resolver'.importCandidates scope' name = resolver.importCandidates scope name := by
    simp only [importCandidates, h.importEntries, h.separator, h.isVisible]
  simp only [Resolver.lookupWith, h.separator, h.isVisible, henclosing, halias, himports,
    h.fallbackMatch]

theorem lookupWithoutAliases (name : String) :
    resolver'.lookupWithoutAliases scope' name = resolver.lookupWithoutAliases scope name :=
  h.lookupWith (fun _ => rfl) name

omit h in
mutual

theorem expand (h : SeesAlike resolver resolver' scope scope') :
    (tree : TypeName) → resolver'.expand scope' tree = resolver.expand scope tree
  | ⟨base, args, suffix⟩ => by
    rw [Resolver.expand, Resolver.expand, h.lookupWithoutAliases, expandAll h args]

theorem expandAll (h : SeesAlike resolver resolver' scope scope') :
    (trees : List TypeName) → resolver'.expandAll scope' trees = resolver.expandAll scope trees
  | [] => by rw [Resolver.expandAll, Resolver.expandAll]
  | tree :: trees => by
    rw [Resolver.expandAll, Resolver.expandAll, expand h tree, expandAll h trees]

end

theorem aliasMatch? (name : String) :
    resolver'.aliasMatch? scope' name = resolver.aliasMatch? scope name := by
  simp only [Resolver.aliasMatch?, aliasTarget, h.importsOf?, h.separator, h.expand]

/-- **A look-up has the same outcome.** -/
theorem lookup (name : String) : resolver'.lookup scope' name = resolver.lookup scope name :=
  h.lookupWith h.aliasMatch? name

omit h in
theorem lookupOnce (h : SeesAlike resolver resolver' scope scope) (base : String) :
    resolver'.lookupOnce scope base = resolver.lookupOnce scope base := by
  unfold Resolver.lookupOnce
  rw [h.lookup]

end SeesAlike

/-- A name with a separator that is visible stands for itself. -/
theorem lookup_of_isVisible {name : String} (htrim : Text.trim name = name)
    (hqualified : resolver.separator.occursIn name) (hvisible : resolver.isVisible scope name) :
    resolver.lookup scope name = .found name .qualified := by
  have hne : name ≠ "" := by
    rintro rfl
    cases hqualified
  simp [lookup, lookupWith, htrim, hne, hqualified, hvisible]

end Resolver

/-! ## Memories -/

/-- Every answer was given to a look-up from one of the scopes. -/
def Memory.Faithful (resolver : Resolver) (scopes : ResolutionScope → Prop) (memory : Memory) :
    Prop :=
  ∀ row ∈ memory.answers, ∃ scope base, scopes scope ∧
    row = ((scope.filePath, scope.place, base), (resolver.lookup scope base).fullName?)

/-- One memory, which has a property. -/
def Memory.Shared (holds : Memory → Prop) (memory memory' : Memory) : Prop :=
  memory' = memory ∧ holds memory

/-- Every finding was made in the project of that path. -/
def Memory.ReportsFor (path : String) (memory : Memory) : Prop :=
  ∀ diagnostic ∈ memory.diagnostics.entries, diagnostic.context.projectPath = some path

namespace Memory

variable {memory : Memory} {scope : ResolutionScope} {name : String} {outcome : Resolution}

@[simp] theorem reportAmbiguity_answers :
    (memory.reportAmbiguity scope name outcome).answers = memory.answers := by
  unfold reportAmbiguity
  split
  · split <;> rfl
  · rfl

theorem ReportsFor.reportAmbiguity (h : memory.ReportsFor scope.projectPath) :
    (memory.reportAmbiguity scope name outcome).ReportsFor scope.projectPath := by
  unfold Memory.reportAmbiguity
  split
  · split
    · exact h
    · intro diagnostic hdiagnostic
      rcases List.mem_append.1 hdiagnostic with hdiagnostic | hdiagnostic
      · exact h diagnostic hdiagnostic
      · rw [List.mem_singleton.1 hdiagnostic]
        rfl
  · exact h

theorem Faithful.remember {resolver : Resolver} {scopes : ResolutionScope → Prop}
    (h : memory.Faithful resolver scopes) (hscope : scopes scope) (base : String) :
    (memory.remember (scope.filePath, scope.place, base)
      (resolver.lookup scope base).fullName?).Faithful resolver scopes := by
  intro row hrow
  rcases List.mem_cons.1 hrow with rfl | hrow
  · exact ⟨scope, base, hscope, rfl⟩
  · exact h row hrow

/-- A look-up from one of the scopes leaves a faithful memory behind. -/
theorem Faithful.lookedUp {resolver : Resolver} {scopes : ResolutionScope → Prop}
    (h : memory.Faithful resolver scopes) (hscope : scopes scope) (base : String) :
    ((memory.reportAmbiguity scope base (resolver.lookup scope base)).remember
      (scope.filePath, scope.place, base)
      (resolver.lookup scope base).fullName?).Faithful resolver scopes := by
  refine Faithful.remember (fun row hrow => h row ?_) hscope base
  simpa using hrow

end Memory

namespace Resolver

attribute [local irreducible] TypeName.parse

variable {resolver resolver' : Resolver} {scope : ResolutionScope}

/-! ## Computations -/

section Computations

variable {keeps : Memory → Memory → Prop}
  (hlookup : ∀ base, Alike keeps (resolver.lookupOnce scope base) (resolver'.lookupOnce scope base))

/-- What is remembered, or else looked up, if a look-up has the same outcome from all scopes of the
same file and place. -/
theorem lookupOnce_of_faithful {scopes : ResolutionScope → Prop} {memory : Memory}
    (hmemory : memory.Faithful resolver scopes) (hscope : scopes scope) {base : String}
    {answer : Option String}
    (hlookup : ∀ scope', scopes scope' → scope'.filePath = scope.filePath →
      scope'.place = scope.place → (resolver.lookup scope' base).fullName? = answer) :
    ((resolver.lookupOnce scope base).run memory).1 = answer := by
  have hanswer := hlookup scope hscope rfl rfl
  rw [lookupOnce]
  generalize resolver.lookup scope base = outcome at hanswer ⊢
  simp only [StateT.run_bind, StateT.run_get, pure_bind]
  split
  -- The remembered answer was found in a scope of the same file and place.
  next known hknown =>
    obtain ⟨front, back, hanswers, -⟩ := List.lookup_eq_some_iff.1 hknown
    obtain ⟨other, name, hother, hrow⟩ :=
      hmemory ((scope.filePath, scope.place, base), known) (by simp [hanswers])
    obtain ⟨hkey, hknown⟩ := Prod.mk.inj hrow
    obtain ⟨hfile, hkey⟩ := Prod.mk.inj hkey
    obtain ⟨hplace, rfl⟩ := Prod.mk.inj hkey
    exact hknown.trans (hlookup other hother hfile.symm hplace.symm)
  next => exact hanswer

/-- A base is looked up alike from one memory, if the same is seen from its scope and a look-up
keeps the property of the memory. -/
theorem lookupOnce_alike (h : SeesAlike resolver resolver' scope scope) {holds : Memory → Prop}
    (hkept : ∀ base memory, holds memory →
      holds ((memory.reportAmbiguity scope base (resolver.lookup scope base)).remember
        (scope.filePath, scope.place, base) (resolver.lookup scope base).fullName?))
    (base : String) :
    Alike (Memory.Shared holds) (resolver.lookupOnce scope base)
      (resolver'.lookupOnce scope base) := by
  rw [h.lookupOnce]
  rintro _ memory ⟨rfl, hmemory⟩
  refine ⟨rfl, rfl, ?_⟩
  have hkept := hkept base memory hmemory
  rw [lookupOnce]
  generalize resolver.lookup scope base = outcome at hkept ⊢
  simp only [StateT.run_bind, StateT.run_get, pure_bind]
  split
  · exact hmemory
  · exact hkept

mutual

theorem resolveTree_alike
    (hlookup : ∀ base, Alike keeps (resolver.lookupOnce scope base)
      (resolver'.lookupOnce scope base)) :
    (tree : TypeName) →
      Alike keeps (resolver.resolveTree scope tree) (resolver'.resolveTree scope tree)
  | ⟨base, args, suffix⟩ => by
    unfold resolveTree
    refine (resolveTrees_alike hlookup args).bind fun resolved => ?_
    split
    · exact .pure _
    · refine (hlookup base).bind fun answer => ?_
      cases answer with
      | some fullName => exact .pure _
      | none => exact .pure _

theorem resolveTrees_alike
    (hlookup : ∀ base, Alike keeps (resolver.lookupOnce scope base)
      (resolver'.lookupOnce scope base)) :
    (trees : List TypeName) →
      Alike keeps (resolver.resolveTrees scope trees) (resolver'.resolveTrees scope trees)
  | [] => by
    unfold resolveTrees
    exact .pure []
  | tree :: trees => by
    unfold resolveTrees
    exact (resolveTree_alike hlookup tree).bind fun _ =>
      (resolveTrees_alike hlookup trees).bind fun _ => .pure _

end

include hlookup

/-- A written name is resolved alike, if its parts are looked up alike. -/
theorem resolveName_alike (name : String) :
    Alike keeps (resolver.resolveName scope name) (resolver'.resolveName scope name) := by
  unfold resolveName
  split
  · exact .pure _
  · exact (resolveTree_alike hlookup _).bind fun _ => .pure _

theorem firstDeclaring_alike {method : String} {sources : List String}
    (hdeclares : ∀ source ∈ sources, ∀ memory memory', keeps memory memory' →
      resolver'.index.declaresMethod ((resolver.resolveName scope source).run memory).1 method =
        resolver.index.declaresMethod ((resolver.resolveName scope source).run memory).1 method) :
    Alike keeps (resolver.firstDeclaring scope method sources)
      (resolver'.firstDeclaring scope method sources) := by
  -- The search goes on from the name that was resolved, so the two have to give the same one.
  induction sources with
  | nil => exact .pure none
  | cons source sources ih =>
    unfold firstDeclaring
    refine (resolveName_alike hlookup source).bindResult fun memory memory' hmemory => ?_
    rw [hdeclares source (by simp) memory memory' hmemory]
    split
    · exact .pure _
    · exact ih fun other hother => hdeclares other (by simp [hother])

/-- The owner of a call is found alike, if the types that are asked for the method are known to
declare it or not. -/
theorem resolveOwner_alike {method : String}
    (himports : resolver'.importEntries scope .staticMember =
      resolver.importEntries scope .staticMember)
    (hcurrent : resolver'.index.declaresMethod (scope.currentType?.getD "") method =
      resolver.index.declaresMethod (scope.currentType?.getD "") method)
    (hdeclares : ∀ entry ∈ resolver.importEntries scope .staticMember, ∀ memory memory',
      keeps memory memory' → resolver'.index.declaresMethod
          ((resolver.resolveName scope entry.sourceName).run memory).1 method =
        resolver.index.declaresMethod
          ((resolver.resolveName scope entry.sourceName).run memory).1 method) :
    Alike keeps (resolver.resolveOwner scope method) (resolver'.resolveOwner scope method) := by
  unfold resolveOwner
  dsimp only
  rw [hcurrent, himports]
  split
  · exact .pure _
  · refine (firstDeclaring_alike hlookup fun source hsource => ?_).bind fun _ => .pure _
    obtain ⟨entry, hentry, rfl⟩ := List.mem_map.1 hsource
    exact hdeclares entry hentry

end Computations

/-! ## One project -/

/-- The scopes from which the names in the declarations of a project are looked up: inside of a
declaration, in a method with generic parameters too, and outside of it for its base types. -/
inductive ScopeIn (resolver : Resolver) (project : Nat) (fact : ProjectFact) :
    ResolutionScope → Prop
  | within {unit : UnitFact} {type : TypeFact} (hunit : unit ∈ fact.units)
      (htype : type ∈ unit.types) (hnamed : type.isNamed) (parameters : List String) :
      ScopeIn resolver project fact
        ((resolver.scopeOf project fact.path unit.path type).withTypeParameters parameters)
  | outside {unit : UnitFact} {type : TypeFact} (hunit : unit ∈ fact.units)
      (htype : type ∈ unit.types) (hnamed : type.isNamed) :
      ScopeIn resolver project fact
        (resolver.scopeOf project fact.path unit.path type).outsideCurrentType

theorem ScopeIn.spec {project : Nat} {fact : ProjectFact}
    (h : ScopeIn resolver project fact scope) :
    scope.project = project ∧ scope.projectPath = fact.path ∧
      ∃ unit ∈ fact.units, ∃ type ∈ unit.types, type.isNamed ∧
        scope.filePath = unit.path ∧ scope.namespaceName = type.trimmedNamespace := by
  cases h with
  | within hunit htype hnamed => exact ⟨rfl, rfl, _, hunit, _, htype, hnamed, rfl, rfl⟩
  | outside hunit htype hnamed => exact ⟨rfl, rfl, _, hunit, _, htype, hnamed, rfl, rfl⟩

/-- **Two walks through a project do the same**, if the scopes of its declarations are the same, the
names are looked up alike from there, and the owners of its calls are found alike. -/
theorem mapNames_action_alike {keeps : Memory → Memory → Prop} {project : Nat} {fact : ProjectFact}
    (hscopes : ∀ unit ∈ fact.units, ∀ type ∈ unit.types, type.isNamed →
      resolver'.scopeOf project fact.path unit.path type =
        resolver.scopeOf project fact.path unit.path type)
    (hlookup : ∀ scope, ScopeIn resolver project fact scope → ∀ base,
      Alike keeps (resolver.lookupOnce scope base) (resolver'.lookupOnce scope base))
    (howners : ∀ unit ∈ fact.units, ∀ type ∈ unit.types, type.isNamed →
      ∀ call ∈ type.ownerless (resolver.scopeOf project fact.path unit.path type),
        ScopeIn resolver project fact call.1 →
          Alike keeps (resolver.resolveOwner call.1 call.2)
            (resolver'.resolveOwner call.1 call.2)) :
    Alike keeps (fact.mapNames resolver.action (resolver.scopeOf project fact.path))
      (fact.mapNames resolver'.action (resolver'.scopeOf project fact.path)) := by
  refine ProjectFact.mapNames_alike (c := alike keeps) fact fun unit hunit type htype hnamed => ?_
  rw [hscopes unit hunit type htype hnamed]
  refine type.mapNames_alike ?_ ?_ fun call hcall => ?_
  · exact fun parameters => resolveName_alike (hlookup _ (.within hunit htype hnamed parameters))
  · exact resolveName_alike (hlookup _ (.outside hunit htype hnamed))
  · refine howners unit hunit type htype hnamed call hcall ?_
    obtain ⟨parameters, heq⟩ := TypeFact.scope_of_ownerless hcall
    rw [heq]
    exact .within hunit htype hnamed parameters

/-- **The findings of a project are made in it.** -/
theorem resolveProject_reportsFor (resolver : Resolver) (fact : ProjectFact) :
    ∀ diagnostic ∈ (resolver.resolveProject fact).2.entries,
      diagnostic.context.projectPath = some fact.path := by
  unfold resolveProject
  split
  next => simp
  next project _ =>
    have hlookup (scope : ResolutionScope) (hscope : ScopeIn resolver project fact scope) :
        ∀ base, Alike (Memory.Shared (Memory.ReportsFor fact.path)) (resolver.lookupOnce scope base)
          (resolver.lookupOnce scope base) := by
      refine lookupOnce_alike (.refl resolver scope) fun base memory hmemory => ?_
      rw [← hscope.spec.2.1] at hmemory ⊢
      exact hmemory.reportAmbiguity
    have hwalk := mapNames_action_alike (fun _ _ _ _ _ => rfl) hlookup
      fun unit _ type _ _ call _ hscope =>
        resolveOwner_alike (hlookup call.1 hscope) rfl rfl fun _ _ _ _ _ => rfl
    exact (hwalk {} {} ⟨rfl, by simp [Memory.ReportsFor]⟩).2.2

end Resolver

end FactGraph
