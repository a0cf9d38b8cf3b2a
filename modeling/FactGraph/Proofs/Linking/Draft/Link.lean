import FactGraph.Linking.Link
import FactGraph.Proofs.Linking.Draft.Call
import FactGraph.Proofs.Linking.Draft.Declare
import FactGraph.Proofs.Linking.Draft.Member
import FactGraph.Proofs.Linking.Draft.Skeleton
import FactGraph.Proofs.Linking.Draft.Wiring
import FactGraph.Proofs.Linking.Trace

/-!
# A run and its draft

A link run makes the same nodes in the same order as the run in draft: phase by phase its state
realizes that of the draft. A draft gets to its end, so the run does as well, and when the lists of
the outer nodes have been filled in, its model is that of the draft with all lists of contents. What
is shown of drafts is shown of linked models by this.

## Main definitions

* `Linker.Phased`: the states of a link run between its phases

## Main results

* `Trace.phased`: the states of a run realize those of its draft
* `Trace.linkRun`, `Trace.link`: the model of a run is that of its draft, with all lists
-/

namespace FactGraph.Linker

open LinkM

variable {linker : Linker} {repo : RepositoryFact} {fragments : List Fragment}

/-- The phases of a link run up to the end of the calls, and the states between them. -/
structure Phased (linker : Linker) (repo : RepositoryFact) (fragments : List Fragment)
    (listed declared nested linked called : LinkState) : Prop where
  build : (linker.buildSkeleton repo).run { model := {} } = .ok (sourceUnits repo, listed)
  declare : (linker.declareAll (sourceUnits repo)).run listed = .ok (fragments, declared)
  nest : (linker.nestAll fragments).run declared = .ok ((), nested)
  members : (fragments.forM linker.linkMembers).run nested = .ok ((), linked)
  calls : linker.linkCalls.run linked = .ok ((), called)

/-- The types of these fragments are known to be there. -/
def typesOf (fragments : List Fragment) : List ModelNode :=
  fragments.map fun fragment => .of fragment.type

/-- The states of a link run realize those of a draft. -/
structure Phased.Realize {listed declared nested linked called : LinkState}
    (_ : linker.Phased repo fragments listed declared nested linked called)
    (declared' nested' linked' final' : DraftState) : Prop where
  listed : listed.Realizes [] [] { model := linker.skeleton repo }
  declared : declared.Realizes [] [] declared'
  nested : nested.Realizes [] (typesOf fragments) nested'
  linked : linked.Realizes [] [] linked'
  called : called.Realizes [] [] final'

section Trace

variable {declared nested linked final : DraftState}

/-- **The states of a run realize those of its draft.** -/
theorem Trace.phased (h : linker.Trace repo fragments declared nested linked final) :
    ∃ s₀ s₁ s₂ s₃ s₄, ∃ hphased : linker.Phased repo fragments s₀ s₁ s₂ s₃ s₄,
      hphased.Realize declared nested linked final := by
  obtain ⟨s₀, hbuild, h₀⟩ := run_buildSkeleton linker repo
  obtain ⟨_, s₁, hdeclare, hfragments, h₁⟩ := follows_declareAll h₀ _ _ _ h.declare
  rw [hfragments] at hdeclare
  obtain ⟨_, s₂, hnest, h₂⟩ := follows_nestAll h₁ fragments _ _ h.nest
  have hknown : ∀ node ∈ typesOf fragments, nested.model.contains node := by
    intro node hnode
    obtain ⟨fragment, hfragment, rfl⟩ := List.mem_map.1 hnode
    obtain ⟨_, htype, -⟩ := (h.placed_nested hfragment).type
    exact ReferenceModel.hasHandle_of_type htype
  have h₂' : s₂.Realizes [] (typesOf fragments) nested := { h₂ with known := hknown }
  obtain ⟨_, s₃, hmembers, h₃⟩ :=
    follows_forM_linkMembers h₂' (fun _ => List.mem_map_of_mem) _ _ h.members
  obtain ⟨_, s₄, hcalls, h₄⟩ := follows_linkCalls h₃ _ _ h.calls
  exact ⟨s₀, s₁, s₂, s₃, s₄, ⟨hbuild, hdeclare, hnest, hmembers, hcalls⟩, h₀, h₁, h₂',
    h₃.forget (by simp), h₄.forget (by simp)⟩

end Trace

section Phased

variable {listed declared nested linked called : LinkState}

/-- The last phase, behind the calls. -/
theorem Phased.linkRun (h : linker.Phased repo fragments listed declared nested linked called)
    {wired : LinkState} (hwire : wireContainment.run called = .ok ((), wired)) :
    linker.linkRun repo = .ok wired := by
  have hrun : (linker.linkFacts repo).run { model := {} } = .ok ((), wired) := by
    refine (run_bind h.build).trans ((run_bind h.declare).trans ((run_bind h.nest).trans ?_))
    exact (run_bind h.members).trans ((run_bind h.calls).trans hwire)
  rw [Linker.linkRun, hrun]
  rfl

end Phased

section Trace

variable {declared nested linked final : DraftState}

/-- **A run gets to its end**, and its model is that of the draft with all lists of contents. -/
theorem Trace.linkRun (h : linker.Trace repo fragments declared nested linked final) :
    ∃ state, linker.linkRun repo = .ok state ∧ state.model = final.model.wire ∧
      state.diagnostics = final.diagnostics ∧ state.tables.InStep final.model := by
  obtain ⟨_, _, _, _, called, hphased, hrealize⟩ := h.phased
  have hwire := run_wireContainment hrealize.called h.phases.sound.closed
  exact ⟨_, hphased.linkRun hwire, rfl, hrealize.called.diagnostics, hrealize.called.tables⟩

theorem Trace.link (h : linker.Trace repo fragments declared nested linked final) :
    linker.link repo = (final.model.wire, final.diagnostics) := by
  obtain ⟨state, hrun, hmodel, hdiagnostics, -⟩ := h.linkRun
  rw [Linker.link, hrun, ← hmodel, ← hdiagnostics]

end Trace

/-- **What a run makes is what its draft makes**, with all lists of contents. -/
theorem link_eq_of_draftRun {final : DraftState} (h : linker.draftRun repo = .ok final) :
    linker.link repo = (final.model.wire, final.diagnostics) := by
  obtain ⟨_, _, _, _, other, htrace⟩ := draftRun_trace linker repo
  obtain rfl := Except.ok.inj (htrace.draftRun.symm.trans h)
  exact htrace.link

/-- **A linked model is that of a draft**, which a run gets to through its phases. -/
theorem link_spec (linker : Linker) (repo : RepositoryFact) :
    ∃ declared nested final, linker.link repo = (final.model.wire, final.diagnostics) ∧
      linker.Phases repo declared nested final := by
  obtain ⟨_, declared, nested, _, final, htrace⟩ := draftRun_trace linker repo
  exact ⟨declared, nested, final, htrace.link, htrace.phases⟩

end FactGraph.Linker
