import FactGraph.Proofs.Linking.CallEdges

/-!
# Calls by their places

The methods of a linked model that are not synthetic stand in the order of the kept methods of the
repository, and the edges of a method in the order of its calls with a name. So a call is found in
the model by the place that it has in the repository, and what a law says of edges holds of the edge
that is found there.

## Main definitions

* `CallSite`: a call with its place in a repository
* `CallSite.target?`, `CallSite.owner?`: what the call calls in a model, and whose method that is

## Main results

* `Trace.exists_edge`: every call has an edge, of which a law holds
-/

namespace FactGraph

/-- **A call in a repository**: one of the calls with a name of a kept method. -/
structure CallSite (sep : Separator) (repo : RepositoryFact) where
  /-- The place of the method among those that are kept. -/
  method : Nat
  /-- The place of the call among those of the method. -/
  place : Nat
  declaration : Declaration
  kept : KeptMethod
  call : CallFact
  kept_mem : (keptFrom sep [] (Linker.declarations repo))[method]? = some (declaration, kept)
  call_mem : (kept.head.calledMethods.filter CallFact.isNamed)[place]? = some call

namespace CallSite

variable {sep : Separator} {repo : RepositoryFact}

/-- The method that calls. -/
def caller? (site : CallSite sep repo) (model : ReferenceModel) : Option MethodNode :=
  (model.methods.toList.filter (!·.isSynthetic))[site.method]?

/-- The edge of the call. -/
def edge? (site : CallSite sep repo) (model : ReferenceModel) : Option CallEdge :=
  (site.caller? model).bind fun caller => caller.calls[site.place]?

/-- **The method that is called**, if the edge has a target. -/
def target? (site : CallSite sep repo) (model : ReferenceModel) : Option MethodId :=
  (site.edge? model).bind CallEdge.target

/-- **The type whose method is called.** -/
def owner? (site : CallSite sep repo) (linker : Linker) (model : ReferenceModel) : Option TypeId :=
  (site.caller? model).bind fun caller =>
    linker.ownerOf? model site.declaration.project caller.containingType site.call

end CallSite

/-- Lists that correspond do so at every place. -/
theorem getElem?_of_forall₂_right {α β : Type} {R : α → β → Prop} {xs : List α} {ys : List β}
    (h : List.Forall₂ R xs ys) {i : Nat} {y : β} (hy : ys[i]? = some y) :
    ∃ x, xs[i]? = some x ∧ R x y := by
  induction h generalizing i with
  | nil => simp at hy
  | cons hxy _ ih =>
    cases i with
    | zero =>
      obtain rfl := Option.some.inj hy
      exact ⟨_, rfl, hxy⟩
    | succ i => exact ih hy

namespace Linker

variable {linker : Linker} {repo : RepositoryFact} {fragments : List Fragment}
  {declared nested linked final : DraftState}

/-- The methods that are not synthetic stand on the roster before the stubs. -/
theorem rosterEntry_of_not_synthetic {model : ReferenceModel} {entries stubs : List RosterEntry}
    (hroster : model.methods.toList.map MethodNode.rosterEntry = entries ++ stubs)
    (hentries : ∀ entry ∈ entries, entry.isSynthetic = false)
    (hstubs : ∀ entry ∈ stubs, entry.isSynthetic = true) :
    (model.methods.toList.filter (!·.isSynthetic)).map MethodNode.rosterEntry = entries := by
  have hfilter : (model.methods.toList.filter (!·.isSynthetic)).map MethodNode.rosterEntry =
      (model.methods.toList.map MethodNode.rosterEntry).filter (!·.isSynthetic) := by
    rw [List.filter_map]
    rfl
  rw [hfilter, hroster, List.filter_append,
    List.filter_eq_self.2 fun entry hentry => by simp [hentries entry hentry],
    List.filter_eq_nil_iff.2 fun entry hentry => by simp [hstubs entry hentry],
    List.append_nil]

/-- The roster is the same in the model with all lists. -/
theorem rosterEntries_wire (s : DraftState) :
    s.model.wire.methods.toList.map MethodNode.rosterEntry = s.roster.methods := by
  simp [ReferenceModel.wire, DraftState.roster, Function.comp_def, MethodNode.rosterEntry,
    ReferenceModel.wireMethod]

/-- **Every call has an edge, of which a law holds.** The calling method is in the type that its
declaration makes up. -/
theorem Trace.exists_edge {tells : EdgeProperty} (law : linker.EdgeLaw tells)
    (h : linker.Trace repo fragments declared nested linked final)
    (site : CallSite linker.separator repo) :
    ∃ (caller : MethodNode) (edge : CallEdge), site.caller? final.model.wire = some caller ∧
      site.edge? final.model.wire = some edge ∧
      (∃ type, final.model.wire.type? caller.containingType = some type ∧
        site.declaration.isPartOf linker.separator type) ∧
      tells final.model.wire site.declaration.project caller.containingType edge site.call := by
  obtain ⟨callers, entries, stubs, hcallers, hentries, hstubs, hmethods, -⟩ := h.roster_by law
  rw [← rosterEntries_wire] at hmethods
  obtain ⟨_, hcaller, fragment, hfragment, hdeclaration, rfl⟩ :=
    getElem?_of_forall₂_right hcallers site.kept_mem
  obtain ⟨_, hentry, edges, rfl, hedges⟩ := getElem?_of_forall₂_right hentries hcaller
  obtain ⟨edge, hedge, htells⟩ := getElem?_of_forall₂_right hedges site.call_mem
  change fragment.declaration = site.declaration at hdeclaration
  have hproject : fragment.project = site.declaration.project :=
    congrArg Declaration.project hdeclaration
  have hplain : ∀ entry ∈ entries, entry.isSynthetic = false := by
    intro entry hmem
    obtain ⟨caller, -, edges, rfl, -⟩ := exists_of_forall₂_left hentries hmem
    rfl
  rw [← rosterEntry_of_not_synthetic hmethods hplain fun entry hmem => (hstubs entry hmem).1,
    List.getElem?_map] at hentry
  obtain ⟨caller, hget, heq⟩ := Option.map_eq_some_iff.1 hentry
  have htype : caller.containingType = fragment.type := congrArg RosterEntry.type heq
  have hcalls : caller.calls = edges := congrArg RosterEntry.calls heq
  refine ⟨caller, edge, hget, ?_, ?_, ?_⟩
  · rw [CallSite.edge?, CallSite.caller?, hget, Option.bind_some, hcalls]
    exact hedge
  · rw [htype, ← hdeclaration]
    exact h.isPartOf hfragment
  · rw [htype, ← hproject]
    exact htells

end Linker

end FactGraph
