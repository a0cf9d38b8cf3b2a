import FactGraph.Proofs.Linking.CallSites

/-!
# One synthetic method for each signature

A call of an external type is linked to a method that the call itself may bring into the model. A
later call is linked to the same method just if it has the same signature. What is compared is the
canonical text of a parameter type with the text that a link has stored, which was read and written
once more; both are the same for every text, since canonical texts are stable.

So external types have synthetic methods only, declared types have none, and no two methods of one
external type have one signature. The target of a call of an external type is the method that has
the signature of the call, and there is just one.

## Main definitions

* `ReferenceModel.signature?`: the signature of a method of a model
* `Linker.EdgeFits`: the target of a call of an external type has the signature of the call

## Main results

* `edgeLaw_edgeFits`: all edges fit
* `Trace.isSynthetic_eq`: the synthetic methods are those of external types
* `Trace.eq_of_signature`: methods of external types are told apart by their signatures
* `link_synthetic`: one synthetic method for each signature
-/

namespace FactGraph

/-! ## Signatures -/

/-- **The signature of a method.** -/
def ReferenceModel.signature? (model : ReferenceModel) (id : MethodId) : Option Signature :=
  (model.method? id).map fun node =>
    { type := node.containingType, kind := node.kind, name := node.name
      parameterTypes := model.parameterTypes id }

theorem ReferenceModel.signature?_of_method {model : ReferenceModel} {id : MethodId}
    {node : MethodNode} (h : model.method? id = some node) :
    model.signature? id = some
      { type := node.containingType, kind := node.kind, name := node.name
        parameterTypes := model.parameterTypes id } :=
  congrArg (Option.map _) h

/-- The signature of a method was written down where its handle says. -/
theorem DraftState.signatures_getElem? {s : DraftState} (hs : s.model.Numbered) (id : MethodId) :
    s.ledger.signatures[id.idx]? = (s.model.method? id).map fun node =>
      { type := node.containingType, kind := node.kind, name := node.name
        parameterTypes := Linker.signatureOf s.model id } := by
  rw [DraftState.ledger_signatures, List.getElem?_map, Array.getElem?_toList]
  change (s.model.method? id).map _ = _
  cases hnode : s.model.method? id with
  | none => rfl
  | some node =>
    have hid : node.id = id := hs.method_id hnode
    simp [hid]

/-- The signatures of a model, once its contents are filled in, are those that were written
down. -/
theorem DraftState.signature?_wire {s : DraftState} (hs : s.model.Numbered) (id : MethodId) :
    s.model.wire.signature? id = s.ledger.signatures[id.idx]? := by
  rw [DraftState.signatures_getElem? hs, ReferenceModel.signature?, ReferenceModel.wire_method?]
  cases hnode : s.model.method? id with
  | none => rfl
  | some node =>
    have hid : node.id = id := hs.method_id hnode
    have hparameters := Linker.parameterTypes_wire hs (Array.mem_of_getElem? hnode)
    rw [hid] at hparameters
    simp [hparameters, ReferenceModel.wireMethod]

/-- The signature of a call of an external type. -/
def CallFact.signature (call : CallFact) (owner : TypeId) : Signature :=
  { type := owner, kind := .method, name := call.name
    parameterTypes := Linker.callSignature call }

/-! ## Targets -/

/-- **The target fits the call**: if the owner is external, it has the signature of the call. -/
def Linker.EdgeFits (linker : Linker) (model : ReferenceModel) (project : ProjectId)
    (callerType : TypeId) (edge : CallEdge) (call : CallFact) : Prop :=
  ∃ owner node, linker.ownerOf? model project callerType call = some owner ∧
    model.type? owner = some node ∧
    (node.isExternal = true → ∃ target ∈ edge.target,
      model.signature? target = some (call.signature owner))

namespace Linker

open DraftM

-- The owner of a call is looked up by what its name was read as; how it is read does not matter.
attribute [local irreducible] TypeName.parse

variable {linker : Linker} {s s' : DraftState}

/-- **The target of a call of an external type** has the signature of the call, whether it was
there or not. -/
theorem ends_draftTarget_signature (hs : s.model.Numbered) (hclosed : s.ledger.Closed 0 0)
    {owner : TypeNode} (hexternal : owner.isExternal = true) (pending : PendingCall) :
    Ends s (linker.draftTarget owner pending) fun target s' => ∃ method ∈ target,
      s'.ledger.signatures[method.idx]? = some (pending.call.signature owner.id) := by
  unfold draftTarget
  dsimp only
  rw [if_pos hexternal]
  suffices hensure : Ends s (linker.draftMatching owner.id pending.call.name
      (callSignature pending.call) pending.project) fun method s' =>
        s'.ledger.signatures[method.idx]? = some (pending.call.signature owner.id) from
    hensure.map fun method _ h => ⟨method, rfl, h⟩
  unfold draftMatching
  refine ends_model.bind ?_
  rintro _ _ ⟨rfl, rfl⟩
  split
  next method hmatch =>
    obtain ⟨node, hfound, rfl⟩ := Option.map_eq_some_iff.1 hmatch
    obtain ⟨hnode, hplace⟩ := List.mem_filter.1 (List.mem_of_find?_eq_some hfound)
    have hsignature := List.find?_some hfound
    simp only [Bool.and_eq_true, decide_eq_true_eq] at hplace hsignature
    refine .pure ?_
    rw [DraftState.signatures_getElem? hs, hs.method?_id (Array.mem_toList_iff.1 hnode)]
    simp [CallFact.signature, hplace, hsignature]
  next =>
    refine (ends_ledgerOfSynthetic _ _ _ _).mono ?_
    rintro _ s' ⟨rfl, -, hledger⟩
    -- What is stored is the canonical text of a canonical text, which is the same.
    rw [hledger, hclosed.signatures_synthetic, callSignature_canonical,
      ← Ledger.length_signatures, List.getElem?_concat_length]
    rfl

/-- That targets fit is a law. -/
theorem edgeLaw_edgeFits (linker : Linker) : linker.EdgeLaw linker.EdgeFits where
  made {s pending callerType owner node} hs hclosed howner hnode := by
    have hid : node.id = owner := hs.numbered.type_id hnode
    have hfits : Ends s (linker.draftTarget node pending) fun target s' =>
        node.isExternal = true → ∃ method ∈ target,
          s'.ledger.signatures[method.idx]? = some (pending.call.signature owner) := by
      by_cases hexternal : node.isExternal = true
      · rw [← hid]
        exact (ends_draftTarget_signature hs.numbered hclosed hexternal pending).mono
          fun _ _ h _ => h
      · exact fun _ _ _ h => absurd h hexternal
    refine hfits.mono fun target s' hfits hcalls hs' => ?_
    obtain ⟨howner', hnode'⟩ := hcalls.owner_wire howner hnode
    refine ⟨owner, _, howner', hnode', fun hexternal => ?_⟩
    obtain ⟨method, hmethod, hsignature⟩ := hfits hexternal
    exact ⟨method, hmethod, by rw [DraftState.signature?_wire hs'.numbered, hsignature]⟩
  keep {s s' project callerType edge call} h hcalls hs hs' hclosed := by
    obtain ⟨owner, node, howner, hnode, hfits⟩ := h
    rw [ownerOf?_wire] at howner
    rw [ReferenceModel.wire_type?] at hnode
    obtain ⟨old, hold, rfl⟩ := Option.map_eq_some_iff.1 hnode
    obtain ⟨howner', hnode'⟩ := hcalls.owner_wire howner hold
    refine ⟨owner, _, howner', hnode', fun hexternal => ?_⟩
    obtain ⟨target, htarget, hsignature⟩ := hfits hexternal
    obtain ⟨added, hadded, -⟩ := hcalls.apart hclosed
    rw [DraftState.signature?_wire hs] at hsignature
    refine ⟨target, htarget, ?_⟩
    rw [DraftState.signature?_wire hs', hadded,
      List.getElem?_append_left (List.getElem?_eq_some_iff.1 hsignature).1]
    exact hsignature

/-! ## The linked model -/

section Trace

variable {repo : RepositoryFact} {fragments : List Fragment}
  {declared nested linked final : DraftState}

/-- When all fragments are linked, there are as many methods as are kept. -/
theorem Trace.length_kept (h : linker.Trace repo fragments declared nested linked final) :
    (keptFrom linker.separator [] (Linker.declarations repo)).length =
      linked.model.methods.size := by
  obtain ⟨callers, hroster, hcallers⟩ := h.roster_linked
  rw [← hcallers.length_eq, ← DraftState.roster_methods_length, hroster]
  simp [Roster.enroll]

/-- **The synthetic methods are those of external types.** They were added when calls were
linked. -/
theorem Trace.isSynthetic_eq (h : linker.Trace repo fragments declared nested linked final)
    {id : MethodId} {node : MethodNode} (hnode : final.model.method? id = some node) :
    ∃ type, final.model.type? node.containingType = some type ∧
      node.isSynthetic = type.isExternal ∧
      (type.isExternal = true → linked.model.methods.size ≤ id.idx) := by
  obtain ⟨callers, entries, stubs, hcallers, hentries, hstubs, hmethods, -⟩ := h.roster_final
  have hlength : entries.length = linked.model.methods.size := by
    rw [hentries.length_eq, hcallers.length_eq, h.length_kept]
  have hread := DraftState.roster_methods_getElem? hnode
  rw [hmethods] at hread
  rcases Nat.lt_or_ge id.idx linked.model.methods.size with hlt | hle
  · -- One of the kept methods, which is in the type of its fragment.
    rw [List.getElem?_append_left (hlength ▸ hlt)] at hread
    obtain ⟨caller, hcaller, edges, hentry, -⟩ :=
      exists_of_forall₂_left hentries (List.mem_of_getElem? hread)
    obtain ⟨kept, -, fragment, hfragment, -, rfl⟩ := exists_of_forall₂_left hcallers hcaller
    obtain ⟨type, hget, hdeclared, -⟩ := (h.placed_final hfragment).type
    have htype : node.containingType = fragment.type := congrArg RosterEntry.type hentry
    have hplain : node.isSynthetic = false := congrArg RosterEntry.isSynthetic hentry
    refine ⟨type, htype ▸ hget, by rw [hplain, hdeclared], fun hexternal => ?_⟩
    rw [hdeclared] at hexternal
    cases hexternal
  · -- One of the methods that calls have brought.
    rw [List.getElem?_append_right (hlength ▸ hle)] at hread
    have hsynthetic : node.isSynthetic = true := (hstubs _ (List.mem_of_getElem? hread)).1
    obtain ⟨part, hledger, -, -, -, -, htypes⟩ := h.callsLinked.part
    have hentry : final.ledger.methods[id.idx]? = some node.entry := by
      rw [DraftState.ledger, List.getElem?_map, Array.getElem?_toList]
      exact congrArg (Option.map MethodNode.entry) hnode
    rw [hledger, Ledger.append_methods, List.getElem?_append_right] at hentry
    · obtain ⟨type, htype, hexternal, hid⟩ := htypes _ (List.mem_of_getElem? hentry)
      have hget := h.phases.sound.numbered.type?_id htype
      rw [hid] at hget
      exact ⟨type, hget, by rw [hsynthetic, hexternal], fun _ => hle⟩
    · rwa [DraftState.ledger_methods_length]

/-- **Methods of external types are told apart by their signatures**, which are those of methods
whatever they say. -/
theorem Trace.eq_of_signature (h : linker.Trace repo fragments declared nested linked final)
    {owner : TypeId} {type : TypeNode} (htype : final.model.wire.type? owner = some type)
    (hexternal : type.isExternal = true) {id id' : MethodId} {signature signature' : Signature}
    (hid : final.model.wire.signature? id = some signature)
    (hid' : final.model.wire.signature? id' = some signature')
    (howner : signature.type = owner) (howner' : signature'.type = owner)
    (hname : signature.name = signature'.name)
    (hparameters : signature.parameterTypes = signature'.parameterTypes) : id = id' := by
  have hnumbered := h.phases.sound.numbered
  obtain ⟨added, hadded, hnodup, hfresh⟩ := h.callsLinked.apart h.ready.closed
  have hlength : linked.ledger.signatures.length = linked.model.methods.size := by
    rw [Ledger.length_signatures, DraftState.ledger_methods_length]
  rw [ReferenceModel.wire_type?] at htype
  obtain ⟨old, hold, rfl⟩ := Option.map_eq_some_iff.1 htype
  have hread {id : MethodId} {signature : Signature}
      (hid : final.model.wire.signature? id = some signature) (howner : signature.type = owner) :
      linked.model.methods.size ≤ id.idx ∧ signature.kind = .method ∧
        added[id.idx - linked.model.methods.size]? = some signature := by
    rw [DraftState.signature?_wire hnumbered] at hid
    have hread := hid
    rw [DraftState.signatures_getElem? hnumbered] at hread
    obtain ⟨node, hnode, rfl⟩ := Option.map_eq_some_iff.1 hread
    obtain ⟨own, hown, -, hlater⟩ := h.isSynthetic_eq hnode
    obtain rfl : old = own := by
      rw [← howner] at hold
      exact Option.some.inj (hold.symm.trans hown)
    have hle := hlater hexternal
    rw [hadded, List.getElem?_append_right (hlength ▸ hle), hlength] at hid
    exact ⟨hle, (hfresh _ (List.mem_of_getElem? hid)).1, hid⟩
  obtain ⟨hle, hkind, hplace⟩ := hread hid howner
  obtain ⟨hle', hkind', hplace'⟩ := hread hid' howner'
  obtain rfl : signature = signature' :=
    Signature.ext (howner.trans howner'.symm) (hkind.trans hkind'.symm) hname hparameters
  have hsame := (List.getElem?_inj (List.getElem?_eq_some_iff.1 hplace).1 hnodup).1
    (hplace.trans hplace'.symm)
  have hidx : id.idx = id'.idx := by omega
  exact congrArg Handle.mk hidx

/-- **The target of a call of an external type has the signature of the call.** -/
theorem Trace.signature_target (h : linker.Trace repo fragments declared nested linked final)
    (site : CallSite linker.separator repo) :
    ∃ owner type, site.owner? linker final.model.wire = some owner ∧
      final.model.wire.type? owner = some type ∧
      (type.isExternal = true → ∃ target, site.target? final.model.wire = some target ∧
        final.model.wire.signature? target = some (site.call.signature owner)) := by
  obtain ⟨caller, edge, hcaller, hedge, -, owner, type, howner, htype, hfits⟩ :=
    h.exists_edge (edgeLaw_edgeFits linker) site
  refine ⟨owner, type, ?_, htype, fun hexternal => ?_⟩
  · rw [CallSite.owner?, hcaller, Option.bind_some, howner]
  · obtain ⟨target, htarget, hsignature⟩ := hfits hexternal
    refine ⟨target, ?_, hsignature⟩
    rw [CallSite.target?, hedge, Option.bind_some, htarget]

end Trace

/-- **There is one synthetic method for each signature of an external type.** With whatever index
and policy a repository is linked, a method is synthetic just if its type is external, and the
methods of an external type are told apart by their names and the names of their parameter types.
Every call has an owner; calls of one external type with equal names and parameter types of equal
canonical text, from wherever they are, have the same target, whose parameter types have just these
texts. -/
theorem link_synthetic (linker : Linker) (repo : RepositoryFact) :
    let model := (linker.link repo).1
    (∀ method ∈ model.methods, ∃ type, model.type? method.containingType = some type ∧
      method.isSynthetic = type.isExternal) ∧
    (∀ (owner : TypeId) (type : TypeNode), model.type? owner = some type →
      type.isExternal = true → ∀ (id id' : MethodId) (method method' : MethodNode),
        model.method? id = some method → model.method? id' = some method' →
        method.containingType = owner → method'.containingType = owner →
        method.name = method'.name → model.parameterTypes id = model.parameterTypes id' →
        id = id') ∧
    (∀ site : CallSite linker.separator repo, (site.owner? linker model).isSome) ∧
    ∀ (site site' : CallSite linker.separator repo) (owner : TypeId) (type : TypeNode),
      site.owner? linker model = some owner → site'.owner? linker model = some owner →
      model.type? owner = some type → type.isExternal = true →
      site.call.name = site'.call.name → callSignature site.call = callSignature site'.call →
      ∃ target method, site.target? model = some target ∧ site'.target? model = some target ∧
        model.method? target = some method ∧ method.containingType = owner ∧
        method.name = site.call.name ∧
        model.parameterTypes target = callSignature site.call := by
  obtain ⟨fragments, declared, nested, linked, final, htrace⟩ := draftRun_trace linker repo
  rw [htrace.link]
  intro model
  have hnumbered := htrace.phases.sound.numbered
  refine ⟨?synthetic, ?distinct, fun site => ?owned, ?shared⟩
  case synthetic =>
    intro method hmethod
    obtain ⟨old, hold, rfl⟩ := Array.mem_map.1 hmethod
    obtain ⟨type, htype, hsynthetic, -⟩ := htrace.isSynthetic_eq (hnumbered.method?_id hold)
    refine ⟨final.model.wireType type, ?_, hsynthetic⟩
    rw [ReferenceModel.wire_type?]
    exact congrArg (Option.map final.model.wireType) htype
  case distinct =>
    intro owner type htype hexternal id id' method method' hid hid' howner howner' hname hparameters
    exact htrace.eq_of_signature htype hexternal (ReferenceModel.signature?_of_method hid)
      (ReferenceModel.signature?_of_method hid') howner howner' hname hparameters
  case owned =>
    obtain ⟨owner, type, howner, -⟩ := htrace.signature_target site
    rw [howner]
    rfl
  case shared =>
    intro site site' owner type howner howner' htype hexternal hname hparameters
    have htarget (site : CallSite linker.separator repo)
        (howner : site.owner? linker model = some owner) : ∃ target,
          site.target? model = some target ∧
          model.signature? target = some (site.call.signature owner) := by
      obtain ⟨other, node, hother, hnode, htarget⟩ := htrace.signature_target site
      obtain rfl := Option.some.inj (hother.symm.trans howner)
      obtain rfl := Option.some.inj (hnode.symm.trans htype)
      exact htarget hexternal
    obtain ⟨target, hsite, hsignature⟩ := htarget site howner
    obtain ⟨target', hsite', hsignature'⟩ := htarget site' howner'
    obtain rfl := htrace.eq_of_signature htype hexternal hsignature hsignature' rfl rfl hname
      hparameters
    obtain ⟨method, hmethod, heq⟩ := Option.map_eq_some_iff.1 hsignature
    obtain ⟨hplace, -, hcalled, htypes⟩ := Signature.mk.inj heq
    exact ⟨target, method, hsite, hsite', hmethod, hplace, hcalled, htypes⟩

end Linker

end FactGraph
