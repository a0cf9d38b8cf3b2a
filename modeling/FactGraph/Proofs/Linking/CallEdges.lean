import FactGraph.Proofs.Linking.Call
import FactGraph.Proofs.Linking.Overload

/-!
# The edges of calls

The calls of a repository are linked in one row, and while they are, the model still grows: a call
may bring an external type, or a method of one. Every call nevertheless gets one edge, and the edge
says what the finished model says of the call: who owns the called method, and which overload is
the nearest one. For a call of a declared type that is because nothing that the search looks at
changes any more (`Overload`).

The calls were set aside method by method, so the edges of a method are made one after the other,
and the methods get theirs in the order in which they stand. What is known of an edge when it is
made, and not undone by further calls, is a law of the edges: it holds of all edges of the finished
model.

## Main definitions

* `Linker.EdgeOf`: an edge says what a call calls
* `Linker.EdgeLaw`: what is said of edges when they are made holds of them for good
* `DraftState.Ready`: a state in which calls can be linked
* `DraftState.Linked`: what the roster is after some calls
* `MethodNode.Depicts`: a node is that of a kept method, with an edge for each of its calls

## Main results

* `Linker.EdgeOf.keep`: what an edge says stays true while further calls are linked
* `ends_draftCall`, `ends_linkGroup`: the edges of one call and of all calls of a method
* `ends_linkCallers`: the edges of all methods, one after the other
* `Trace.roster_by`: a law holds of all edges of a linked repository
* `link_calls`: the edges of all methods of a model
-/

namespace FactGraph

open Relation (ReflTransGen)

/-! ## What an edge says -/

/-- **The edge says what the call calls**: if the owner is a declared type, the overload of the
nearest type that has one; if it is external, some method. -/
def Linker.EdgeOf (linker : Linker) (model : ReferenceModel) (project : ProjectId)
    (callerType : TypeId) (edge : CallEdge) (call : CallFact) : Prop :=
  ∃ owner node, linker.ownerOf? model project callerType call = some owner ∧
    model.type? owner = some node ∧
    (node.isExternal = false →
      model.Nearest call.name (Linker.callSignature call) owner edge.target) ∧
    (node.isExternal = true → edge.target.isSome)

/-- The nearest overload is the same in models with the same inheritance and the same overloads. -/
theorem ReferenceModel.Nearest.congr {model model' : ReferenceModel} {name : String}
    {parameterTypes : List String} {owner : TypeId} {target : Option MethodId}
    (h : model.Nearest name parameterTypes owner target)
    (hbases : Linker.declaredBases model' = Linker.declaredBases model)
    (hoverload : model'.overload? name parameterTypes = model.overload? name parameterTypes) :
    model'.Nearest name parameterTypes owner target := by
  obtain ⟨hsome, hfirst, hminimal⟩ := h
  constructor
  · simpa only [Inherits, hbases, hoverload] using hsome
  · simpa only [hbases, hoverload] using hfirst
  · simpa only [hbases, hoverload] using hminimal

/-- Who owns the called method is still known when further calls have been linked. -/
theorem CallsLinked.owner_wire {linker : Linker} {s s' : DraftState} (h : CallsLinked s s')
    {project : ProjectId} {callerType owner : TypeId} {node : TypeNode} {call : CallFact}
    (howner : linker.ownerOf? s.model project callerType call = some owner)
    (hnode : s.model.type? owner = some node) :
    linker.ownerOf? s'.model.wire project callerType call = some owner ∧
      s'.model.wire.type? owner = some (s'.model.wireType node) := by
  rw [Linker.ownerOf?_wire, ReferenceModel.wire_type?, h.type?_eq hnode]
  exact ⟨h.ownerOf?_keep howner, rfl⟩

/-- What an edge says stays true while further calls are linked. -/
theorem Linker.EdgeOf.keep {linker : Linker} {s s' : DraftState} {project : ProjectId}
    {callerType : TypeId} {edge : CallEdge} {call : CallFact}
    (h : linker.EdgeOf s.model.wire project callerType edge call) (hcalls : CallsLinked s s')
    (hs : s.model.Numbered) (hs' : s'.model.Numbered) (hclosed : s.ledger.Closed 0 0) :
    linker.EdgeOf s'.model.wire project callerType edge call := by
  obtain ⟨owner, node, howner, hnode, hdeclared, hexternal⟩ := h
  rw [Linker.ownerOf?_wire] at howner
  rw [ReferenceModel.wire_type?] at hnode
  obtain ⟨old, hold, rfl⟩ := Option.map_eq_some_iff.1 hnode
  obtain ⟨howner', hnode'⟩ := hcalls.owner_wire howner hold
  refine ⟨owner, _, howner', hnode', fun h => (hdeclared h).congr ?_ ?_, hexternal⟩
  · rw [Linker.declaredBases_wire, Linker.declaredBases_wire, hcalls.declaredBases_eq]
  · exact hcalls.overload?_eq hs hs' hclosed _ _

/-- Something that can be said of an edge and its call, seen from the project and the type of the
caller. -/
abbrev EdgeProperty := ReferenceModel → ProjectId → TypeId → CallEdge → CallFact → Prop

/-- **A law of the edges**: what it says of an edge and its call holds when the target of the call
is found, and stays true while further calls are linked. -/
structure Linker.EdgeLaw (linker : Linker) (tells : EdgeProperty) : Prop where
  made : ∀ {s : DraftState} {pending : PendingCall} {callerType owner : TypeId} {node : TypeNode},
    s.Sound → s.ledger.Closed 0 0 →
    linker.ownerOf? s.model pending.project callerType pending.call = some owner →
    s.model.type? owner = some node →
    DraftM.Ends s (linker.draftTarget node pending) fun target s' => CallsLinked s s' → s'.Sound →
      tells s'.model.wire pending.project callerType { target } pending.call
  keep : ∀ {s s' : DraftState} {project : ProjectId} {callerType : TypeId} {edge : CallEdge}
    {call : CallFact}, tells s.model.wire project callerType edge call → CallsLinked s s' →
    s.model.Numbered → s'.model.Numbered → s.ledger.Closed 0 0 →
    tells s'.model.wire project callerType edge call

/-! ## Edges on the roster -/

namespace RosterEntry

/-- The method with further edges. -/
def addCalls (entry : RosterEntry) (edges : List CallEdge) : RosterEntry :=
  { entry with calls := entry.calls ++ edges }

@[simp] theorem addCalls_nil (entry : RosterEntry) : entry.addCalls [] = entry := by
  simp [addCalls]

theorem addCalls_append (entry : RosterEntry) (edges others : List CallEdge) :
    entry.addCalls (edges ++ others) = (entry.addCalls edges).addCalls others := by
  simp [addCalls]

/-- The method is one that was made for a call. It calls nothing. -/
def IsStub (entry : RosterEntry) : Prop :=
  entry.isSynthetic = true ∧ entry.calls = []

end RosterEntry

/-- The number of edges without a target. -/
def CallEdge.unresolved (edges : List CallEdge) : Nat :=
  edges.countP fun edge => edge.target.isNone

theorem CallEdge.unresolved_append (edges others : List CallEdge) :
    unresolved (edges ++ others) = unresolved edges + unresolved others :=
  List.countP_append

namespace DraftM

variable {α : Type} {s : DraftState}

/-- A run that gets to its end by allowed moves has gone by them whenever it ends. -/
theorem Reaches.ends {move : DraftState → DraftState → Prop} {step : DraftM α}
    {post : α → DraftState → Prop} (h : Reaches move s step post) :
    Ends s step fun a s' => ReflTransGen move s s' ∧ post a s' := by
  obtain ⟨a, s₁, hrun, hpath, hpost⟩ := h
  intro b s' hrun'
  rw [hrun] at hrun'
  cases hrun'
  exact ⟨hpath, hpost⟩

end DraftM

/-- **Calls can be linked in the state**: it is in order, what is written down speaks of itself
only, and the calls that were set aside are those of declarations. -/
structure DraftState.Ready (source : Occurrences) (s : DraftState) : Prop where
  sound : s.Sound
  closed : s.ledger.Closed 0 0
  collected : ∀ pending ∈ s.pending, Linker.Collected source s.model pending

/-- **Calls have been linked**: the roster has these methods now, and behind them stubs that were
made for the calls, and further calls can be linked. The edges are those that were added. -/
structure DraftState.Linked (source : Occurrences) (s : DraftState) (methods : List RosterEntry)
    (edges : List CallEdge) (s' : DraftState) : Prop where
  roster : ∃ stubs : List RosterEntry, (∀ entry ∈ stubs, entry.IsStub) ∧ s'.roster =
    { methods := methods ++ stubs
      pending := s.roster.pending
      unresolved := s.roster.unresolved + CallEdge.unresolved edges }
  calls : CallsLinked s s'
  ready : s'.Ready source

namespace DraftState.Linked

variable {source : Occurrences} {s s₁ s₂ : DraftState} {methods methods' stubs : List RosterEntry}
  {edges edges' : List CallEdge}

theorem refl (hs : s.Ready source) : s.Linked source s.roster.methods [] s where
  roster := ⟨[], nofun, by ext1 <;> simp [CallEdge.unresolved]⟩
  calls := .refl s
  ready := hs

/-- The stubs of the first calls stay behind the methods. -/
theorem trans (h : s.Linked source methods edges s₁) (hstubs : ∀ entry ∈ stubs, entry.IsStub)
    (h' : s₁.Linked source (methods' ++ stubs) edges' s₂) :
    s.Linked source methods' (edges ++ edges') s₂ where
  roster := by
    obtain ⟨_, -, heq⟩ := h.roster
    obtain ⟨others, hothers, heq'⟩ := h'.roster
    refine ⟨stubs ++ others, List.forall_mem_append.2 ⟨hstubs, hothers⟩, ?_⟩
    rw [heq', heq, CallEdge.unresolved_append, List.append_assoc, Nat.add_assoc]
  calls := h.calls.trans h'.calls
  ready := h'.ready

/-- The calls that were set aside are still there. -/
theorem mem_pending (h : s.Linked source methods edges s₁) {pending : PendingCall}
    (hpending : pending ∈ s.pending) : pending ∈ s₁.pending := by
  obtain ⟨_, -, heq⟩ := h.roster
  have hsame : s₁.pending.toList = s.pending.toList := congrArg Roster.pending heq
  rwa [← Array.mem_toList_iff, hsame, Array.mem_toList_iff]

/-- What a law says of an edge stays true. -/
theorem tells (h : s.Linked source methods edges s₁) {linker : Linker}
    {tells : EdgeProperty}
    (law : linker.EdgeLaw tells) {project : ProjectId} {callerType : TypeId} {edge : CallEdge}
    {call : CallFact} (hs : s.Ready source)
    (hedge : tells s.model.wire project callerType edge call) :
    tells s₁.model.wire project callerType edge call :=
  law.keep hedge h.calls hs.sound.numbered h.ready.sound.numbered hs.closed

end DraftState.Linked

namespace Linker

open DraftM

variable {linker : Linker} {source : Occurrences} {s s' : DraftState}
  {tells : EdgeProperty}

/-! ## One call -/

/-- The type that is asked for is the one that its name refers to afterwards. -/
theorem ends_draftTypeFor_found (fullName : String) (project : ProjectId) :
    Ends s (linker.draftTypeFor fullName project) fun id s' =>
      (linker.lookupDeclared? s'.model fullName project).or (findExternal? s'.model fullName) =
        some id := by
  unfold draftTypeFor
  refine ends_require.bind ?_
  rintro _ _ rfl
  refine ends_model.bind ?_
  rintro _ _ ⟨rfl, rfl⟩
  split
  next id hdeclared => exact .pure (by rw [hdeclared, Option.some_or])
  next hunseen =>
    unfold draftExternal
    refine ends_model.bind ?_
    rintro _ _ ⟨rfl, rfl⟩
    split
    next id hfound => exact .pure (by rw [hunseen, hfound, Option.none_or])
    next hfresh =>
      refine ends_model.bind ?_
      rintro _ _ ⟨rfl, rfl⟩
      refine ends_modify_pure ?_
      let grown : ReferenceModel :=
        { s.model with types := s.model.types.push (linker.newExternal s.model fullName) }
      have hview : s.model.SameView grown := by
        refine ⟨?_, rfl⟩
        simp [ReferenceModel.declared, TypeNode.declaredEntry?, newExternal, grown]
      change (linker.lookupDeclared? grown fullName project).or (findExternal? grown fullName) = _
      rw [lookupDeclared?_congr hview, hunseen, Option.none_or, findExternal?,
        Array.findIdx?_push, Option.map_eq_none_iff.1 hfresh]
      simp [newExternal]

/-- **The owner of a call**, found from the calling method. -/
theorem ends_draftOwner (hs : s.Ready source) {pending : PendingCall}
    (hpending : pending ∈ s.pending) {caller : MethodNode}
    (hcaller : s.model.method? pending.caller = some caller) :
    Ends s (linker.draftOwner caller.containingType pending) fun owner s' =>
      SameMembers s s' ∧ CallsLinked s s' ∧ ReflTransGen (linker.MemberMove source) s s' ∧
        linker.ownerOf? s'.model pending.project caller.containingType pending.call =
          some owner := by
  obtain ⟨hcall, other, node, hother, hnode, hown⟩ := hs.collected pending hpending
  obtain rfl := Option.some.inj (hcaller.symm.trans hother)
  have hproject := (hs.sound.pending pending hpending).2
  have hreaches :=
    (@reaches_draftOwner linker source s hs.sound pending hproject hcall _ _ hnode hown).ends
  have hfound : Ends s (linker.draftOwner caller.containingType pending) fun owner s' =>
      SameMembers s s' ∧ linker.ownerOf? s'.model pending.project caller.containingType
        pending.call = some owner := by
    unfold draftOwner ownerOf?
    dsimp only
    split
    · exact .pure ⟨.refl s, rfl⟩
    · exact ((ends_draftTypeFor _ _).and (ends_draftTypeFor_found _ _)).mono fun _ _ h =>
        ⟨h.1.1, h.2⟩
  have hadds := @along_draftOwner linker caller.containingType pending s
  refine ((hreaches.and hadds).and hfound).mono ?_
  rintro owner s' ⟨⟨⟨hpath, -⟩, hadds⟩, hmembers, howner⟩
  exact ⟨hmembers, ⟨hadds, memberMoves_sameView hpath⟩, hpath, howner⟩

/-- A synthetic method is put on the roster as a stub. Its parameters leave the roster alone. -/
theorem ends_rosterOfStub (type : TypeId) (name : String) (parameterTypes : List String)
    (project : ProjectId) :
    Ends s (linker.draftSynthetic type name parameterTypes project) fun _ s' =>
      s'.roster = { s.roster with
        methods := s.roster.methods ++
          [{ name, kind := .method, type, isSynthetic := true }] } := by
  unfold draftSynthetic
  refine ends_require.bind ?_
  rintro _ _ rfl
  have hadd : Ends s (addMethod fun id =>
      { id, name, kind := .method, containingType := type, isSynthetic := true }) fun _ s' =>
        s'.roster = { s.roster with
          methods := s.roster.methods ++
          [{ name, kind := .method, type, isSynthetic := true }] } := by
    refine ends_model.bind ?_
    rintro _ _ ⟨rfl, rfl⟩
    refine ends_modify_pure ?_
    simp [DraftState.roster, MethodNode.rosterEntry]
  refine hadd.bind fun method s₁ heq₁ => ?_
  have hparameters : KeepsRoster (parameterTypes.forM fun parameterType => do
      let typeLink := linker.linkIn (← model) project (TypeName.parse parameterType)
      addParameter fun id => { id, name := "", typeLink, containingMethod := method }) :=
    .forM fun _ => along_model.bind fun _ => along_model.bind fun _ _ => ends_modify rfl
  exact (hparameters s₁).bind fun _ s₂ heq₂ => .pure (heq₂.trans heq₁)

/-- Only stubs are put on the roster for the target of a call. -/
theorem ends_rosterOfTarget (owner : TypeNode) (pending : PendingCall) :
    Ends s (linker.draftTarget owner pending) fun _ s' => ∃ stubs : List RosterEntry,
      s'.roster = { s.roster with methods := s.roster.methods ++ stubs } ∧
      ∀ entry ∈ stubs, entry.IsStub := by
  have hkept {s : DraftState} : ∃ stubs : List RosterEntry,
      s.roster = { s.roster with methods := s.roster.methods ++ stubs } ∧
      ∀ entry ∈ stubs, entry.IsStub := ⟨[], by simp, by simp⟩
  unfold draftTarget
  split
  · refine Ends.map ?_ fun _ _ h => h
    unfold draftMatching
    refine ends_model.bind ?_
    rintro _ _ ⟨rfl, rfl⟩
    split
    · exact .pure hkept
    · exact (ends_rosterOfStub _ _ _ _).mono fun _ s' heq =>
        ⟨_, heq, by simp [RosterEntry.IsStub]⟩
  · have hfind : KeepsRoster (draftFind owner.id pending.call.name
        (callSignature pending.call)) :=
      along_model.bind fun _ => (Along.mapM along_typeAt).bind fun _ => .pure _
    exact (hfind s).mono fun _ s' heq => heq ▸ hkept

/-- **What the target of a call is.** -/
theorem ends_draftTarget_found (hs : s.Sound) {id : TypeId} {owner : TypeNode}
    (howner : s.model.type? id = some owner) (pending : PendingCall) :
    Ends s (linker.draftTarget owner pending) fun target _ =>
      (owner.isExternal = false → s.model.wire.Nearest pending.call.name
        (callSignature pending.call) id target) ∧ (owner.isExternal = true → target.isSome) := by
  have hid : owner.id = id := hs.numbered.type_id howner
  unfold draftTarget
  split
  next hexternal =>
    have htrue : Ends s (linker.draftMatching owner.id pending.call.name
        (callSignature pending.call) pending.project) fun _ _ => True := fun _ _ _ => trivial
    exact htrue.map fun _ _ _ => ⟨fun hdeclared => by simp [hexternal] at hdeclared, fun _ => rfl⟩
  next hdeclared =>
    refine (ends_draftFind hs.numbered owner.id _ _).mono ?_
    rintro _ _ ⟨rfl, rfl⟩
    refine ⟨fun _ => ?_, fun hexternal => absurd hexternal hdeclared⟩
    have horder := isOrder_inheritanceOrder hs.closed id
    rw [← declaredBases_wire] at horder
    rw [hid]
    exact ReferenceModel.nearest_of_isOrder horder

/-- What an edge says is a law. -/
theorem edgeLaw_edgeOf (linker : Linker) : linker.EdgeLaw linker.EdgeOf where
  made {s pending callerType owner node} hs hclosed howner hnode := by
    obtain ⟨howner', hnode'⟩ := (CallsLinked.refl s).owner_wire howner hnode
    refine (ends_draftTarget_found hs hnode pending).mono fun target s' hfound hcalls hs' => ?_
    exact EdgeOf.keep ⟨owner, _, howner', hnode', hfound⟩ hcalls hs.numbered hs'.numbered hclosed
  keep h := h.keep

/-- What is read off every element, when one element is changed and the change can be read off as
well. -/
theorem map_toList_modify_of {α β : Type} {xs : Array α} {i : Nat} {f : α → α} {read : α → β}
    {g : β → β} (h : ∀ x, read (f x) = g (read x)) :
    (xs.modify i f).toList.map read = (xs.toList.map read).modify i g := by
  refine List.ext_getElem? fun j => ?_
  rw [Array.toList_modify, List.getElem?_map, List.getElem?_modify, List.getElem?_modify,
    List.getElem?_map]
  cases xs.toList[j]? with
  | none => simp
  | some x => by_cases hij : i = j <;> simp [hij, h]

/-- The calling method has the further edge on the roster. -/
theorem ends_rosterOfAddEdge (caller : MethodId) (edge : CallEdge) :
    Ends s (modifyMethod caller fun node => { node with calls := node.calls ++ [edge] })
      fun _ s' => s'.roster = { s.roster with
        methods := s.roster.methods.modify caller.idx (·.addCalls [edge]) } := by
  refine ends_require.bind ?_
  rintro _ _ rfl
  refine ends_modify ?_
  have hread := @map_toList_modify_of _ _ s.model.methods caller.idx
    (fun node => { node with calls := node.calls ++ [edge] }) MethodNode.rosterEntry
    (·.addCalls [edge]) fun _ => rfl
  simp only [DraftState.roster, hread]

/-- **The edge is put on the roster**, and is counted if it has no target. -/
theorem ends_rosterOfEdge (callerType : TypeId) (owner : TypeNode) (pending : PendingCall)
    (target : Option MethodId) :
    Ends s (do
      if target.isNone then linker.draftUnresolved callerType owner pending
      modifyMethod pending.caller fun node => { node with calls := node.calls ++ [{ target }] })
      fun _ s' => AddsSynthetic s s' ∧ s'.roster =
        { methods := s.roster.methods.modify pending.caller.idx (·.addCalls [{ target }])
          pending := s.roster.pending
          unresolved := s.roster.unresolved + CallEdge.unresolved [{ target }] } := by
  have hlast (s : DraftState) := (@along_addEdge pending.caller { target } s).and
    (ends_rosterOfAddEdge (s := s) pending.caller { target })
  dsimp only
  split
  next hnone =>
    refine ((ends_draftUnresolved callerType owner pending).and
      (along_draftUnresolved callerType owner pending s)).bind ?_
    rintro _ _ ⟨⟨finding, hkind, rfl⟩, hreport⟩
    refine (hlast _).mono ?_
    rintro _ s' ⟨hedge, heq⟩
    refine ⟨hreport.trans hedge, ?_⟩
    rw [heq]
    ext1 <;> simp [DraftState.roster, Diagnostics.ofKind, Diagnostics.push, hkind,
      CallEdge.unresolved, hnone]
  next hsome =>
    refine (hlast s).mono ?_
    rintro _ s' ⟨hedge, heq⟩
    refine ⟨hedge, ?_⟩
    rw [heq]
    ext1 <;> simp [CallEdge.unresolved, hsome]

/-- What is put on the roster for a call, and what is said of its edge. That is known in the state
in which the target has been found. -/
theorem ends_rosterOfCall (law : linker.EdgeLaw tells) (hs : s.Ready source)
    {pending : PendingCall} (hpending : pending ∈ s.pending) {done rest : List RosterEntry}
    {entry : RosterEntry} (hmethods : s.roster.methods = done ++ entry :: rest)
    (hcaller : pending.caller.idx = done.length) :
    Ends s (linker.draftCall pending) fun _ s' =>
      ∃ (s₂ : DraftState) (edge : CallEdge) (stubs : List RosterEntry),
        (∀ other ∈ stubs, other.IsStub) ∧ s'.roster =
          { methods := (done ++ entry.addCalls [edge] :: rest) ++ stubs
            pending := s.roster.pending
            unresolved := s.roster.unresolved + CallEdge.unresolved [edge] } ∧
        CallsLinked s s₂ ∧ s₂.Sound ∧ AddsSynthetic s₂ s' ∧
        tells s₂.model.wire pending.project entry.type edge pending.call := by
  unfold draftCall
  refine ends_methodAt.bind ?_
  rintro caller _ ⟨hget, rfl⟩
  have hentry : caller.rosterEntry = entry := by
    have hread := DraftState.roster_methods_getElem? hget
    rw [hmethods, hcaller, List.getElem?_append_right (Nat.le_refl _), Nat.sub_self] at hread
    exact (Option.some.inj hread).symm
  refine (ends_draftOwner hs hpending hget).bind ?_
  rintro owner s₁ ⟨hmembers, hlinked, hpath, howner⟩
  have hs₁ := memberMoves_sound hpath hs.sound
  have hproject := (memberMoves_extends hpath).hasHandle (hs.sound.pending pending hpending).2
  refine ends_typeAt.bind ?_
  rintro node _ ⟨hnode, rfl⟩
  have hreaches :=
    (@reaches_draftTarget linker source s₁ hs₁ owner node hnode pending hproject).ends
  have hadds := @ends_draftTarget linker s₁ node (ReferenceModel.mem_of_type hnode) pending
  have htarget := ((hreaches.and hadds).and (ends_rosterOfTarget node pending)).and
    (law.made hs₁ (hlinked.closed hs.closed) howner hnode)
  refine htarget.bind ?_
  rintro target s₂ ⟨⟨⟨⟨hpath₂, -⟩, hadds₂⟩, stubs, heq₂, hstubs⟩, htells⟩
  have hs₂ := memberMoves_sound hpath₂ hs₁
  have hlinked₂ : CallsLinked s₁ s₂ := ⟨hadds₂, memberMoves_sameView hpath₂⟩
  -- The law speaks of the state in which the target was found. The edge comes after that.
  refine (ends_rosterOfEdge caller.containingType node pending target).mono ?_
  rintro _ s' ⟨hadds', heq'⟩
  refine ⟨s₂, { target }, stubs, hstubs, ?_, hlinked.trans hlinked₂, hs₂, hadds', ?_⟩
  · rw [heq', heq₂, hmembers.roster, hmethods, hcaller, List.append_assoc, List.cons_append,
      modify_append_length, List.append_assoc, List.cons_append]
  · rw [← hentry]
    exact htells hlinked₂ hs₂

/-- Further calls can be linked when one has been. -/
theorem ends_draftCall_ready (hs : s.Ready source) {pending : PendingCall}
    (hpending : pending ∈ s.pending) :
    Ends s (linker.draftCall pending) fun _ s' =>
      ReflTransGen (linker.MemberMove source) s s' ∧ CallsLinked s s' ∧ s'.Ready source := by
  have hcollected := hs.collected pending hpending
  have hproject := (hs.sound.pending pending hpending).2
  have hreaches := (@reaches_draftCall linker source s hs.sound pending hproject hcollected).ends
  refine (hreaches.and (@along_draftCall linker pending s)).mono ?_
  rintro _ s' ⟨⟨hpath, -⟩, hadds⟩
  have hall : CallsLinked s s' := ⟨hadds, memberMoves_sameView hpath⟩
  exact ⟨hpath, hall, memberMoves_sound hpath hs.sound, hall.closed hs.closed,
    memberMoves_collected hpath hs.collected⟩

/-- **The edge of a call**: the calling method gets one more edge, and what the law says holds of
it. -/
theorem ends_draftCall (law : linker.EdgeLaw tells) (hs : s.Ready source) {pending : PendingCall}
    (hpending : pending ∈ s.pending) {done rest : List RosterEntry} {entry : RosterEntry}
    (hmethods : s.roster.methods = done ++ entry :: rest)
    (hcaller : pending.caller.idx = done.length) :
    Ends s (linker.draftCall pending) fun _ s' => ∃ edge : CallEdge,
      s.Linked source (done ++ entry.addCalls [edge] :: rest) [edge] s' ∧
      tells s'.model.wire pending.project entry.type edge pending.call := by
  have hroster := ends_rosterOfCall law hs hpending hmethods hcaller
  refine ((ends_draftCall_ready hs hpending).and hroster).mono ?_
  rintro _ s' ⟨⟨-, hall, hready⟩, s₂, edge, stubs, hstubs, heq, hlinked, hsound, hadds, hedge⟩
  have hafter : CallsLinked s₂ s' := ⟨hadds, hlinked.view.symm.trans hall.view⟩
  refine ⟨edge, ⟨⟨stubs, hstubs, heq⟩, hall, hready⟩, ?_⟩
  exact law.keep hedge hafter hsound.numbered hready.sound.numbered (hlinked.closed hs.closed)

/-! ## All calls -/

/-- **The edges of all calls of a method**, one for each call, in their order. -/
theorem ends_linkGroup (law : linker.EdgeLaw tells) {project : ProjectId} {calls : List CallFact}
    {done rest : List RosterEntry} {entry : RosterEntry} (hs : s.Ready source)
    (hpending : ∀ call ∈ calls,
      ({ caller := ⟨done.length⟩, project, call } : PendingCall) ∈ s.pending)
    (hmethods : s.roster.methods = done ++ entry :: rest) :
    Ends s ((calls.map fun call => { caller := ⟨done.length⟩, project, call }).forM
      linker.draftCall) fun _ s' => ∃ edges : List CallEdge,
        s.Linked source (done ++ entry.addCalls edges :: rest) edges s' ∧
        List.Forall₂ (tells s'.model.wire project entry.type) edges calls := by
  -- Each call adds its edge to the entry, and leaves its stubs behind the rest.
  induction calls generalizing s entry rest with
  | nil =>
    refine .pure ⟨[], ?_, .nil⟩
    rw [RosterEntry.addCalls_nil, ← hmethods]
    exact .refl hs
  | cons call calls ih =>
    refine (ends_draftCall law hs (hpending call (by simp)) hmethods rfl).bind
      fun _ s₁ ⟨edge, hlinked, hedge⟩ => ?_
    obtain ⟨stubs, hstubs, heq⟩ := hlinked.roster
    have hmethods₁ : s₁.roster.methods = done ++ entry.addCalls [edge] :: (rest ++ stubs) := by
      rw [heq, List.append_assoc, List.cons_append]
    have hpending₁ (other : CallFact) (hother : other ∈ calls) :=
      hlinked.mem_pending (hpending other (by simp [hother]))
    refine (ih hlinked.ready hpending₁ hmethods₁).mono fun _ s₂ ⟨edges, hlinked', hedges⟩ =>
      ⟨edge :: edges, hlinked.trans hstubs ?_, .cons ?_ hedges⟩
    · rw [← RosterEntry.addCalls_append, ← List.cons_append, ← List.append_assoc] at hlinked'
      exact hlinked'
    · exact hlinked'.tells law hlinked.ready hedge

/-- The method on the roster is that of the caller, with an edge for each of its calls that has a
name, of which this is said. -/
def EdgesBy (tells : EdgeProperty)
    (model : ReferenceModel) (entry : RosterEntry) (caller : Caller) : Prop :=
  ∃ edges : List CallEdge, entry = caller.entry.addCalls edges ∧
    List.Forall₂ (tells model caller.project caller.type) edges
      (caller.kept.head.calledMethods.filter CallFact.isNamed)

/-- The method on the roster is that of the caller, with an edge for each of its calls that has a
name. -/
def EdgesOf (linker : Linker) (model : ReferenceModel) (entry : RosterEntry) (caller : Caller) :
    Prop :=
  ∃ edges : List CallEdge, entry = caller.entry.addCalls edges ∧
    List.Forall₂ (linker.EdgeOf model caller.project caller.type) edges
      (caller.kept.head.calledMethods.filter CallFact.isNamed)

/-- **The edges of the callers that are left**, whose calls were set aside in their order. -/
theorem ends_linkCallers (law : linker.EdgeLaw tells) {callers : List Caller}
    {done rest : List RosterEntry} (hs : s.Ready source)
    (hpending : ∀ entry ∈ callers.zipIdx done.length, ∀ pending ∈ entry.1.calls ⟨entry.2⟩,
      pending ∈ s.pending)
    (hmethods : s.roster.methods = done ++ (callers.map Caller.entry ++ rest)) :
    Ends s (((callers.zipIdx done.length).flatMap fun entry => entry.1.calls ⟨entry.2⟩).forM
      linker.draftCall) fun _ s' => ∃ entries : List RosterEntry,
        s.Linked source (done ++ (entries ++ rest)) (entries.flatMap RosterEntry.calls) s' ∧
        List.Forall₂ (EdgesBy tells s'.model.wire) entries callers := by
  -- A caller that has its edges is done, so the next one has the number of those that are done. The
  -- stubs that were made for its calls stand behind the callers that are left.
  induction callers generalizing s done rest with
  | nil =>
    refine .pure ⟨[], ?_, .nil⟩
    have hkept := DraftState.Linked.refl hs
    rwa [hmethods] at hkept
  | cons caller callers ih =>
    rw [List.zipIdx_cons, List.flatMap_cons, List.forM_eq_forM, List.forM_append]
    have hgroup := @ends_linkGroup linker source s tells law caller.project
      (caller.kept.head.calledMethods.filter CallFact.isNamed) done
      (callers.map Caller.entry ++ rest) caller.entry hs
      (fun call hcall => hpending (caller, done.length) (by simp) _
        (List.mem_map.2 ⟨call, hcall, rfl⟩)) hmethods
    refine hgroup.bind fun _ s₁ ⟨edges, hlinked, hedges⟩ => ?_
    obtain ⟨stubs, hstubs, heq⟩ := hlinked.roster
    let first := caller.entry.addCalls edges
    have hmethods₁ : s₁.roster.methods =
        (done ++ [first]) ++ (callers.map Caller.entry ++ (rest ++ stubs)) := by
      rw [heq]
      simp [first]
    have hpending₁ : ∀ entry ∈ callers.zipIdx (done ++ [first]).length,
        ∀ pending ∈ entry.1.calls ⟨entry.2⟩, pending ∈ s₁.pending := by
      intro other hother pending hmem
      rw [List.length_append, List.length_singleton] at hother
      exact hlinked.mem_pending (hpending other (by simp [hother]) pending hmem)
    have hrest := ih hlinked.ready hpending₁ hmethods₁
    rw [List.length_append, List.length_singleton] at hrest
    refine hrest.mono fun _ s₂ ⟨entries, hlinked', hentries⟩ =>
      ⟨first :: entries, ?_, .cons ⟨edges, rfl, ?_⟩ hentries⟩
    · rw [List.flatMap_cons]
      refine hlinked.trans hstubs ?_
      simpa using hlinked'
    · exact hedges.imp fun _ _ => hlinked'.tells law hlinked.ready

end Linker

/-! ## The linked model -/

/-- **The node is that of a kept method**: it has its name and kind, it is in the type that its
declaration makes up, and for each of its calls with a name it has an edge that says what the call
calls, in their order. -/
structure MethodNode.Depicts (linker : Linker) (model : ReferenceModel) (node : MethodNode)
    (declaration : Declaration) (kept : KeptMethod) : Prop where
  name : node.name = kept.head.name
  kind : node.kind = kept.kind
  type : ∃ type, model.type? node.containingType = some type ∧
    declaration.isPartOf linker.separator type
  calls : List.Forall₂ (linker.EdgeOf model declaration.project node.containingType) node.calls
    (kept.head.calledMethods.filter CallFact.isNamed)

namespace Linker

open DraftM

section Trace

variable {linker : Linker} {repo : RepositoryFact} {fragments : List Fragment}
  {declared nested linked final : DraftState}

/-- When all fragments are linked, calls can be. -/
theorem Trace.ready (h : linker.Trace repo fragments declared nested linked final) :
    linked.Ready (linker.occurrences repo nested.model) where
  sound := memberMoves_sound h.moves h.phases.nested_sound
  closed := h.members_linked.1
  collected := by
    refine memberMoves_collected h.moves ?_
    rw [nestMoves_pending h.phases.nests, h.phases.declares.pending]
    simp

/-- Linking the calls adds methods of external types, and external types. -/
theorem Trace.callsLinked (h : linker.Trace repo fragments declared nested linked final) :
    CallsLinked linked final where
  toAddsSynthetic := along_draftCalls linked () final h.calls
  view := (memberMoves_sameView h.moves).symm.trans (memberMoves_sameView h.phases.links)

/-- **The roster when all calls are linked**: the callers with their edges, of which a law holds,
and behind them the stubs. -/
theorem Trace.roster_by {tells : EdgeProperty}
    (law : linker.EdgeLaw tells) (h : linker.Trace repo fragments declared nested linked final) :
    ∃ (callers : List Caller) (entries stubs : List RosterEntry),
      List.Forall₂ (fun caller entry => ∃ fragment ∈ fragments,
          fragment.declaration = entry.1 ∧ caller = fragment.caller entry.2) callers
        (keptFrom linker.separator [] (Linker.declarations repo)) ∧
      List.Forall₂ (EdgesBy tells final.model.wire) entries callers ∧
      (∀ entry ∈ stubs, entry.IsStub) ∧
      final.roster.methods = entries ++ stubs ∧
      final.roster.unresolved = CallEdge.unresolved (entries.flatMap RosterEntry.calls) := by
  obtain ⟨callers, hroster, hcallers⟩ := h.roster_linked
  have hpending := DraftState.pending_of_enroll hroster
  have hcalls := @ends_linkCallers linker _ linked tells law callers [] [] h.ready
    (fun entry hentry pending hmem => ?_) (by simp [hroster, Roster.enroll])
  · rw [List.length_nil, ← hpending] at hcalls
    obtain ⟨entries, hlinked, hentries⟩ := hcalls () final h.calls
    obtain ⟨stubs, hstubs, heq⟩ := hlinked.roster
    refine ⟨callers, entries, stubs, hcallers, hentries, hstubs, ?_, ?_⟩
    · simp [heq]
    · simp [heq, hroster, Roster.enroll]
  · rw [← Array.mem_toList_iff, hpending]
    exact List.mem_flatMap.2 ⟨entry, hentry, hmem⟩

/-- **The roster when all calls are linked**, with edges that say what the calls call. -/
theorem Trace.roster_final (h : linker.Trace repo fragments declared nested linked final) :
    ∃ (callers : List Caller) (entries stubs : List RosterEntry),
      List.Forall₂ (fun caller entry => ∃ fragment ∈ fragments,
          fragment.declaration = entry.1 ∧ caller = fragment.caller entry.2) callers
        (keptFrom linker.separator [] (Linker.declarations repo)) ∧
      List.Forall₂ (linker.EdgesOf final.model.wire) entries callers ∧
      (∀ entry ∈ stubs, entry.IsStub) ∧
      final.roster.methods = entries ++ stubs ∧
      final.roster.unresolved = CallEdge.unresolved (entries.flatMap RosterEntry.calls) :=
  h.roster_by (edgeLaw_edgeOf linker)

/-- The node of a caller is that of a kept method. -/
theorem Trace.depicts (h : linker.Trace repo fragments declared nested linked final)
    {node : MethodNode} {fragment : Fragment} {kept : KeptMethod} (hfragment : fragment ∈ fragments)
    (hedges : linker.EdgesOf final.model.wire node.rosterEntry (fragment.caller kept)) :
    node.Depicts linker final.model.wire fragment.declaration kept := by
  obtain ⟨edges, hentry, hcalls⟩ := hedges
  have htype : node.containingType = fragment.type := congrArg RosterEntry.type hentry
  have hedges : node.calls = edges := congrArg RosterEntry.calls hentry
  refine ⟨congrArg RosterEntry.name hentry, congrArg RosterEntry.kind hentry, ?_, ?_⟩
  · rw [htype]
    exact h.isPartOf hfragment
  · rw [htype, hedges]
    exact hcalls

end Trace

/-- **Calls are linked exactly, and to the nearest overload.** With whatever index and policy a
repository is linked, the methods that are not synthetic are the kept methods of the repository, in
their order, and each has an edge for each call with a name. The edge of a call of a declared type
leads to the overload of the nearest type that has one; inheritance may be cyclic. Synthetic methods
call nothing, and there are as many findings of an unresolved call as edges without a target. -/
theorem link_calls (linker : Linker) (repo : RepositoryFact) :
    List.Forall₂ (fun (node : MethodNode) (entry : Declaration × KeptMethod) =>
        node.Depicts linker (linker.link repo).1 entry.1 entry.2)
      ((linker.link repo).1.methods.toList.filter (!·.isSynthetic))
      (keptFrom linker.separator [] (Linker.declarations repo)) ∧
    (∀ node ∈ (linker.link repo).1.methods, node.isSynthetic → node.calls = []) ∧
    ((linker.link repo).2.ofKind .unresolvedCall).length =
      CallEdge.unresolved ((linker.link repo).1.methods.toList.flatMap MethodNode.calls) := by
  obtain ⟨fragments, declared, nested, linked, final, htrace⟩ := draftRun_trace linker repo
  rw [htrace.link]
  dsimp only
  obtain ⟨callers, entries, stubs, hcallers, hentries, hstubs, hmethods, hunresolved⟩ :=
    htrace.roster_final
  have hwire : final.model.wire.methods.toList.map MethodNode.rosterEntry = entries ++ stubs := by
    rw [← hmethods]
    simp [ReferenceModel.wire, DraftState.roster, Function.comp_def, MethodNode.rosterEntry,
      ReferenceModel.wireMethod]
  obtain ⟨made, added, hnodes, rfl, rfl⟩ := List.map_eq_append_iff.1 hwire
  have hmade : ∀ node ∈ made, node.isSynthetic = false := by
    intro node hnode
    obtain ⟨caller, -, edges, hentry, -⟩ :=
      exists_of_forall₂_left hentries (List.mem_map_of_mem hnode)
    exact congrArg RosterEntry.isSynthetic hentry
  have hadded : ∀ node ∈ added, node.isSynthetic = true ∧ node.calls = [] :=
    fun node hnode => hstubs _ (List.mem_map_of_mem hnode)
  refine ⟨?_, fun node hnode hsynthetic => ?_, ?_⟩
  · have hfilter : final.model.wire.methods.toList.filter (!·.isSynthetic) = made := by
      rw [hnodes, List.filter_append,
        List.filter_eq_self.2 fun node hnode => by simp [hmade node hnode],
        List.filter_eq_nil_iff.2 fun node hnode => by simp [(hadded node hnode).1],
        List.append_nil]
    rw [hfilter]
    refine forall₂_comp (List.forall₂_map_left_iff.1 hentries) hcallers ?_
    rintro node _ ⟨_, kept⟩ hedges ⟨fragment, hfragment, rfl, rfl⟩
    exact htrace.depicts hfragment hedges
  · rw [← Array.mem_toList_iff, hnodes] at hnode
    rcases List.mem_append.1 hnode with hnode | hnode
    · rw [hmade node hnode] at hsynthetic
      cases hsynthetic
    · exact (hadded node hnode).2
  · change final.roster.unresolved = _
    have hnone : added.flatMap MethodNode.calls = [] :=
      List.flatMap_eq_nil_iff.2 fun node hnode => (hadded node hnode).2
    rw [hunresolved, hnodes, List.flatMap_append, hnone, List.append_nil, List.flatMap_map]
    rfl

end Linker

end FactGraph
