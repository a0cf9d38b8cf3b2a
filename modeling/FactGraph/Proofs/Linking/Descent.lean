import FactGraph.Proofs.Linking.CallEdges
import FactGraph.Proofs.Linking.Draft.Link

/-!
# Containment descends

What a node is contained in is found in three ways. A type is put into the type that a declaration
names, which is looked up by its full name among declarations that may cut the same full name into
a namespace, enclosing types and a name at different places. A namespace and a local function get
their container when they are made. So nothing in the shape of a model keeps a node from being
contained in itself. But each way has a measure that gets smaller: the length of the full name for
types, the handle for namespaces and for methods.

This holds in every state of a link run, not only in the last one, and there it is needed: the
generic parameters in scope in a fragment are gathered by walking outwards from its type while
other fragments are still to be linked. The states of a run are described twice. Between two of
its steps they are what the first of these steps lead to (`Passes`). Between two changes of a single
node they are what a sequence of moves leads to, apart from the lists of what nodes contain
(`Reached`), and what every move keeps holds there.

## Main definitions

* `ReferenceModel.Descending`: the measures get smaller from a node to what it is contained in
* `ReferenceModel.bare`: a model without its lists of contents
* `Linker.Move`, `Linker.Reached`: a change of a single node, and what such changes lead to
* `Linker.Passes`: the states of a link run between its steps

## Main results

* `Move.descending`: every change keeps the measures
* `Reached.descending`, `Reached.typesAround_eq`: containment descends in every state, so a walk
  outwards comes to an end
* `Passes.reached`: a run goes through such states only
-/

namespace FactGraph

open Relation (ReflTransGen)

/-! ## Measures -/

/-- A namespace is made after the one that it is in. -/
def NamespaceNode.Descends (node : NamespaceNode) : Prop :=
  ∀ outer, node.parent = some outer → outer.idx < node.id.idx

/-- A local function is made after the method that it is in; no other method is in a method. -/
def MethodNode.Descends (node : MethodNode) : Prop :=
  (node.kind = .localFunction →
    ∃ outer, node.containingMethod = some outer ∧ outer.idx < node.id.idx) ∧
  (node.kind ≠ .localFunction → node.containingMethod = none)

theorem MethodNode.Descends.lt {node : MethodNode} (h : node.Descends) {outer : MethodId}
    (houter : node.containingMethod = some outer) : outer.idx < node.id.idx := by
  by_cases hkind : node.kind = .localFunction
  · obtain ⟨own, hown, hlt⟩ := h.1 hkind
    obtain rfl : own = outer := Option.some.inj (hown.symm.trans houter)
    exact hlt
  · rw [h.2 hkind] at houter
    cases houter

/-- A namespace without its lists of contents. -/
def NamespaceNode.bare (node : NamespaceNode) : NamespaceNode :=
  { node with children := [], types := [] }

/-- A type without its lists of contents. -/
def TypeNode.bare (node : TypeNode) : TypeNode :=
  { node with
    nestedTypes := [], fields := [], properties := [], methods := [], constructors := []
    destructor := none }

/-- A method without its lists of contents. -/
def MethodNode.bare (node : MethodNode) : MethodNode :=
  { node with parameters := [], localVariables := [], localFunctions := [] }

namespace ReferenceModel

variable {model model' : ReferenceModel}

/-- **Containment descends**: from a node to what it is contained in, full names of types get
shorter, and handles of namespaces and of methods get smaller. -/
structure Descending (model : ReferenceModel) : Prop where
  types : model.Outward
  namespaces : ∀ node ∈ model.namespaces, node.Descends
  methods : ∀ node ∈ model.methods, node.Descends

/-- Full names get shorter outwards in a larger model, if it puts no type into another one. -/
theorem Extends.outward (h : model.Extends model') (hmodel : model.Outward)
    (hnew : ∀ node ∈ model'.types, node.containingType = none ∨ ∃ old ∈ model.types,
      old.containingType = node.containingType ∧ old.fullName = node.fullName) :
    model'.Outward := by
  intro type outer node hnode houter
  rcases hnew node (mem_of_type hnode) with hnone | ⟨old, hold, hsame, hname⟩
  · rw [hnone] at houter
    cases houter
  · obtain ⟨position, hposition⟩ := Array.mem_iff_getElem?.1 hold
    obtain ⟨outerNode, houterNode, hlt⟩ :=
      hmodel ⟨position⟩ outer old hposition (hsame.trans houter)
    obtain ⟨outerNode', houterNode', hheader⟩ := h.type? outer outerNode houterNode
    refine ⟨outerNode', houterNode', ?_⟩
    rw [← outerNode'.header_fullName, hheader, ← hname]
    exact hlt

theorem Extends.outward_push (h : model.Extends model') (hmodel : model.Outward) {node : TypeNode}
    (htypes : model'.types = model.types.push node) (hnone : node.containingType = none) :
    model'.Outward := by
  apply h.outward hmodel
  intro other hother
  rw [htypes] at hother
  rcases Array.mem_push.1 hother with hother | rfl
  · exact .inr ⟨other, hother, rfl, rfl⟩
  · exact .inl hnone

theorem Extends.outward_modify (h : model.Extends model') (hmodel : model.Outward) {i : Nat}
    {change : TypeNode → TypeNode} (htypes : model'.types = model.types.modify i change)
    (hcontaining : ∀ node, (change node).containingType = node.containingType)
    (hname : ∀ node, (change node).fullName = node.fullName) : model'.Outward := by
  apply h.outward hmodel
  intro other hother
  rw [htypes] at hother
  rcases mem_modify hother with hother | ⟨old, hold, rfl⟩
  · exact .inr ⟨other, hother, rfl, rfl⟩
  · exact .inr ⟨old, Array.mem_of_getElem? hold, (hcontaining old).symm, (hname old).symm⟩

/-! ## Models without lists of contents -/

/-- **A model without its lists of contents.** What nodes say they are contained in is left. -/
def bare (model : ReferenceModel) : ReferenceModel :=
  { model with
    repository := { model.repository with solutions := [] }
    solutions := model.solutions.map fun node => { node with projects := [] }
    projects := model.projects.map fun node =>
      { node with solutions := [], files := [], namespaces := [] }
    namespaces := model.namespaces.map NamespaceNode.bare
    types := model.types.map TypeNode.bare
    methods := model.methods.map MethodNode.bare
    properties := model.properties.map fun node => { node with accessors := [] }
    createdClasses := [] }

theorem bare_type? (model : ReferenceModel) (id : TypeId) :
    model.bare.type? id = (model.type? id).map TypeNode.bare := by
  simp [type?, bare]

/-- Whether containment descends is not told by the lists. -/
theorem descending_bare : model.bare.Descending ↔ model.Descending := by
  constructor
  · refine fun h => ⟨fun type outer node hnode houter => ?_, fun node hnode => ?_,
      fun node hnode => ?_⟩
    · have hbare : model.bare.type? type = some node.bare := by rw [bare_type?, hnode]; rfl
      obtain ⟨outerNode, houterNode, hlt⟩ := h.types type outer node.bare hbare houter
      rw [bare_type?] at houterNode
      obtain ⟨old, hold, rfl⟩ := Option.map_eq_some_iff.1 houterNode
      exact ⟨old, hold, hlt⟩
    · exact h.namespaces node.bare (Array.mem_map_of_mem hnode)
    · exact h.methods node.bare (Array.mem_map_of_mem hnode)
  · refine fun h => ⟨fun type outer node hnode houter => ?_, fun node hnode => ?_,
      fun node hnode => ?_⟩
    · rw [bare_type?] at hnode
      obtain ⟨old, hold, rfl⟩ := Option.map_eq_some_iff.1 hnode
      obtain ⟨outerNode, houterNode, hlt⟩ := h.types type outer old hold houter
      exact ⟨outerNode.bare, by rw [bare_type?, houterNode]; rfl, hlt⟩
    · obtain ⟨old, hold, rfl⟩ := Array.mem_map.1 hnode
      exact h.namespaces old hold
    · obtain ⟨old, hold, rfl⟩ := Array.mem_map.1 hnode
      exact h.methods old hold

theorem bind_containingType_bare (model : ReferenceModel) (id : TypeId) :
    (model.bare.type? id).bind TypeNode.containingType =
      (model.type? id).bind TypeNode.containingType := by
  rw [bare_type?, Option.bind_map]
  rfl

/-- A state of a run has the nodes of its draft. -/
theorem bare_listed (model : ReferenceModel) (waiting : List MethodId) :
    (model.listed waiting).bare = model.bare := by
  simp only [bare, listed, Array.map_map]
  rfl

/-- So has the linked model. -/
theorem bare_wire (model : ReferenceModel) : model.wire.bare = model.bare := by
  simp only [bare, wire, Array.map_map]
  rfl

theorem Descending.wire (h : model.Descending) : model.wire.Descending :=
  descending_bare.1 (model.bare_wire ▸ descending_bare.2 h)

end ReferenceModel

namespace Linker

variable {linker : Linker} {source : Occurrences} {repo : RepositoryFact} {unit : SourceUnit}
  {s s' : DraftState}

/-! ## One move -/

/-- A namespace is made in one that is there already. -/
theorem NamespaceMove.descending {project : ProjectId} {fact : TypeFact}
    (h : linker.NamespaceMove project fact s s') (hs : s.model.Descending) :
    s'.model.Descending := by
  cases h with
  | addNamespace outer inner fullName parent hproject hnames hparent hfresh =>
    refine ⟨hs.types, ?_, hs.methods⟩
    intro node hnode
    rcases Array.mem_push.1 hnode with hnode | rfl
    · exact hs.namespaces node hnode
    · intro space hspace
      exact of_decide_eq_true (hasHandle_of_innermost hparent hspace)

theorem DeclareMove.descending (h : linker.DeclareMove unit s s') (hs : s.model.Descending) :
    s'.model.Descending := by
  have hextends := h.extends
  cases h with
  | report finding => exact hs
  | space fact hfact hnamed h => exact h.descending hs
  | addType => exact ⟨hextends.outward_push hs.types rfl rfl, hs.namespaces, hs.methods⟩
  | noteFile =>
    refine ⟨hextends.outward_modify hs.types (by dsimp only) ?_ ?_, hs.namespaces, hs.methods⟩
    all_goals exact fun _ => rfl
  | noteType => exact ⟨hs.types, hs.namespaces, hs.methods⟩

theorem NestMove.descending (h : linker.NestMove s s') (hs : s.model.Descending) :
    s'.model.Descending := by
  have htypes := h.outward hs.types
  cases h
  exact ⟨htypes, hs.namespaces, hs.methods⟩

/-- A method is made in one that is there already. -/
theorem MethodPlaced.descends {model : ReferenceModel} {node : MethodNode}
    (h : MethodPlaced model node.containingType node.owner)
    (hid : node.id = ⟨model.methods.size⟩) : node.Descends := by
  unfold MethodPlaced MethodNode.owner at h
  split at h
  next heq =>
    dsimp only at heq
    exact ⟨fun hlocal => absurd (heq.symm.trans hlocal) (by decide), fun _ => h.1⟩
  next heq =>
    dsimp only at heq
    obtain ⟨-, outer, outerNode, houter, houterNode, -⟩ := h
    refine ⟨fun _ => ⟨outer, houter, ?_⟩, fun hother => absurd heq hother⟩
    rw [hid]
    exact of_decide_eq_true (ReferenceModel.hasHandle_of_method houterNode)
  next heq =>
    dsimp only at heq
    exact ⟨fun hlocal => absurd (heq.symm.trans hlocal) (by decide), fun _ => h.1⟩
  next haccessor hlocal hdestructor =>
    exact ⟨fun heq => absurd heq hlocal, fun _ => h.1⟩

theorem MemberMove.descending (h : linker.MemberMove source s s') (hs : s.model.Descending) :
    s'.model.Descending := by
  have hextends := h.extends
  cases h with
  | report finding => exact hs
  | postpone call => exact hs
  | external h =>
    cases h
    exact ⟨hextends.outward_push hs.types rfl rfl, hs.namespaces, hs.methods⟩
  | addMethod method hid htype hplaced =>
    refine ⟨hs.types, hs.namespaces, ?_⟩
    intro node hnode
    rcases Array.mem_push.1 hnode with hnode | rfl
    · exact hs.methods node hnode
    · exact hplaced.descends hid
  | addField => exact ⟨hs.types, hs.namespaces, hs.methods⟩
  | addProperty => exact ⟨hs.types, hs.namespaces, hs.methods⟩
  | addParameter => exact ⟨hs.types, hs.namespaces, hs.methods⟩
  | addLocalVariable => exact ⟨hs.types, hs.namespaces, hs.methods⟩
  | addLinks id change links hid hdeclared houtline =>
    have hcontaining : ∀ node, (change node).containingType = node.containingType :=
      fun node => (congrArg TypeNode.containingType (houtline node) :)
    have hname : ∀ node, (change node).fullName = node.fullName :=
      fun node => (congrArg TypeNode.fullName (houtline node) :)
    have htypes := hextends.outward_modify hs.types rfl hcontaining hname
    exact ⟨htypes, hs.namespaces, hs.methods⟩
  | addRelation =>
    refine ⟨hextends.outward_modify hs.types (by dsimp only) ?_ ?_, hs.namespaces, hs.methods⟩
    all_goals exact fun _ => rfl
  | addCall =>
    refine ⟨hs.types, hs.namespaces, ?_⟩
    intro node hnode
    dsimp only at hnode
    rcases mem_modify hnode with hnode | ⟨old, hold, rfl⟩
    · exact hs.methods node hnode
    · exact hs.methods old (Array.mem_of_getElem? hold)

/-! ## All states -/

/-- A move of any phase: the smallest change that a link run makes. -/
inductive Move (linker : Linker) : DraftState → DraftState → Prop
  | declare {s s' : DraftState} {unit : SourceUnit} (h : linker.DeclareMove unit s s') :
      Move linker s s'
  | nest {s s' : DraftState} (h : linker.NestMove s s') : Move linker s s'
  | member {s s' : DraftState} {source : Occurrences} (h : linker.MemberMove source s s') :
      Move linker s s'

theorem Move.descending (h : linker.Move s s') (hs : s.model.Descending) :
    s'.model.Descending := by
  cases h with
  | declare h => exact h.descending hs
  | nest h => exact h.descending hs
  | member h => exact h.descending hs

theorem Move.sound (h : linker.Move s s') (hs : s.Sound) : s'.Sound := by
  cases h with
  | declare h => exact h.sound hs
  | nest h => exact h.sound hs
  | member h => exact h.sound hs

/-- **The drafts that a link run can get to**: moves lead there from the listings. -/
def Drafted (linker : Linker) (repo : RepositoryFact) (s : DraftState) : Prop :=
  ReflTransGen linker.Move { model := linker.skeleton repo } s

theorem skeleton_descending (linker : Linker) (repo : RepositoryFact) :
    (linker.skeleton repo).Descending where
  types := Unnested.outward (by simp [Unnested, skeleton])
  namespaces := by simp [skeleton]
  methods := by simp [skeleton]

theorem Drafted.sound (h : linker.Drafted repo s) : s.Sound :=
  DraftM.keep_of_moves h (skeleton_sound linker repo) fun _ _ => Move.sound

theorem Drafted.descending (h : linker.Drafted repo s) : s.model.Descending :=
  DraftM.keep_of_moves h (skeleton_descending linker repo) fun _ _ => Move.descending

/-- The walk outwards comes to an end in every draft. -/
theorem Drafted.typesAround_eq (h : linker.Drafted repo s) (fragment : Fragment) {steps : Nat}
    (hsteps : s.model.types.size ≤ steps) :
    enclosingTypes s.model steps ((s.model.type? fragment.type).bind TypeNode.containingType) =
      typesAround s.model fragment := by
  have hstart := @containing_hasHandle _ h.sound.closed fragment.type
  exact enclosingTypes_eq_size h.descending.types h.sound.closed hsteps hstart

/-- **The states that a link run can get to**: they have the nodes of a draft that moves lead to,
each with what it is contained in, and any lists of contents. -/
def Reached (linker : Linker) (repo : RepositoryFact) (full : LinkState) : Prop :=
  ∃ s, linker.Drafted repo s ∧ full.model.bare = s.model.bare

/-- A state that realizes a draft has its nodes. -/
theorem Drafted.reached (h : linker.Drafted repo s) {full : LinkState}
    {waiting : List WaitingMethod} {known : List ModelNode}
    (hfull : full.Realizes waiting known s) : linker.Reached repo full :=
  ⟨s, h, by rw [hfull.model, ReferenceModel.bare_listed]⟩

/-- **Containment descends in every state.** -/
theorem Reached.descending {full : LinkState} (h : linker.Reached repo full) :
    full.model.Descending := by
  obtain ⟨s, hs, hbare⟩ := h
  rw [← ReferenceModel.descending_bare, hbare, ReferenceModel.descending_bare]
  exact hs.descending

/-- **The walk outwards comes to an end in every state**: from the type of a fragment, more steps
than there are types lead no further. -/
theorem Reached.typesAround_eq {full : LinkState} (h : linker.Reached repo full)
    (fragment : Fragment) {steps : Nat} (hsteps : full.model.types.size ≤ steps) :
    enclosingTypes full.model steps
        ((full.model.type? fragment.type).bind TypeNode.containingType) =
      typesAround full.model fragment := by
  obtain ⟨s, hs, hbare⟩ := h
  have hcontaining (id : TypeId) : (full.model.type? id).bind TypeNode.containingType =
      (s.model.type? id).bind TypeNode.containingType := by
    rw [← ReferenceModel.bind_containingType_bare, hbare, ReferenceModel.bind_containingType_bare]
  have hsize : full.model.types.size = s.model.types.size := by
    have hmap := congrArg (fun model => model.types.size) hbare
    simpa only [ReferenceModel.bare, Array.size_map] using hmap
  rw [enclosingTypes_congr hcontaining, typesAround_congr hcontaining hsize, hcontaining]
  exact hs.typesAround_eq fragment (hsize ▸ hsteps)

/-! ## The states of a run -/

open DraftM

/-- **The states that a link run passes through** between two of its steps: the listings have been
entered, and some units have been declared; or all of them have, and some fragments have been
nested; or all of these have, and the members of some fragments have been linked; or all of these
have, and some calls have been linked; or all of these have, and the lists have been filled in. -/
inductive Passes (linker : Linker) (repo : RepositoryFact) (s : LinkState) : Prop
  | declaring (units rest : List SourceUnit) (fragments : List Fragment) (listed : LinkState)
      (hbuild : (linker.buildSkeleton repo).run { model := {} } = .ok (units ++ rest, listed))
      (hdeclare : (linker.declareAll units).run listed = .ok (fragments, s))
  | nesting (units : List SourceUnit) (fragments rest : List Fragment)
      (listed declared : LinkState)
      (hbuild : (linker.buildSkeleton repo).run { model := {} } = .ok (units, listed))
      (hdeclare : (linker.declareAll units).run listed = .ok (fragments ++ rest, declared))
      (hnest : (linker.nestAll fragments).run declared = .ok ((), s))
  | linking (units : List SourceUnit) (fragments rest : List Fragment)
      (listed declared nested : LinkState)
      (hbuild : (linker.buildSkeleton repo).run { model := {} } = .ok (units, listed))
      (hdeclare : (linker.declareAll units).run listed = .ok (fragments ++ rest, declared))
      (hnest : (linker.nestAll (fragments ++ rest)).run declared = .ok ((), nested))
      (hmembers : (fragments.forM linker.linkMembers).run nested = .ok ((), s))
  | calling (units : List SourceUnit) (fragments : List Fragment)
      (listed declared nested linked : LinkState) (calls rest : List PendingCall)
      (hbuild : (linker.buildSkeleton repo).run { model := {} } = .ok (units, listed))
      (hdeclare : (linker.declareAll units).run listed = .ok (fragments, declared))
      (hnest : (linker.nestAll fragments).run declared = .ok ((), nested))
      (hmembers : (fragments.forM linker.linkMembers).run nested = .ok ((), linked))
      (hpending : linked.pending.toList = calls ++ rest)
      (hcalls : (calls.forM linker.linkCall).run linked = .ok ((), s))
  | wiring (fragments : List Fragment) (listed declared nested linked called : LinkState)
      (h : linker.Phased repo fragments listed declared nested linked called)
      (hwire : wireContainment.run called = .ok ((), s))

theorem Declares.moves {units : List SourceUnit} (h : linker.Declares units s s') :
    ReflTransGen linker.Move s s' := by
  induction h with
  | nil => exact .refl
  | cons head _ ih => exact (ReflTransGen.mono (fun _ _ => Move.declare) _ _ head).trans ih

theorem Drafted.nests (h : linker.Drafted repo s) (hpath : ReflTransGen linker.NestMove s s') :
    linker.Drafted repo s' :=
  h.trans (ReflTransGen.mono (fun _ _ => Move.nest) _ _ hpath)

theorem Drafted.members (h : linker.Drafted repo s)
    (hpath : ReflTransGen (linker.MemberMove source) s s') : linker.Drafted repo s' :=
  h.trans (ReflTransGen.mono (fun _ _ => Move.member) _ _ hpath)

section Trace

variable {fragments : List Fragment} {declared nested linked final : DraftState}

theorem Trace.drafted_declared (h : linker.Trace repo fragments declared nested linked final) :
    linker.Drafted repo declared :=
  h.phases.declares.moves

theorem Trace.drafted_nested (h : linker.Trace repo fragments declared nested linked final) :
    linker.Drafted repo nested :=
  h.drafted_declared.nests h.phases.nests

theorem Trace.drafted_linked (h : linker.Trace repo fragments declared nested linked final) :
    linker.Drafted repo linked :=
  h.drafted_nested.members h.moves

theorem Trace.drafted_final (h : linker.Trace repo fragments declared nested linked final) :
    linker.Drafted repo final :=
  h.drafted_nested.members h.phases.links

end Trace

/-- A step has a single outcome. -/
theorem run_unique {α : Type} {step : LinkM α} {full full₁ full₂ : LinkState} {a₁ a₂ : α}
    (h₁ : step.run full = .ok (a₁, full₁)) (h₂ : step.run full = .ok (a₂, full₂)) :
    a₁ = a₂ ∧ full₁ = full₂ :=
  Prod.mk.inj (Except.ok.inj (h₁.symm.trans h₂))

/-- **A run goes through states that moves lead to.** -/
theorem Passes.reached {full : LinkState} (h : linker.Passes repo full) :
    linker.Reached repo full := by
  obtain ⟨others, declared', nested', linked', final, htrace⟩ := draftRun_trace linker repo
  obtain ⟨s₀, s₁, s₂, s₃, s₄, hphased, hrealize⟩ := htrace.phased
  -- The steps before the present one are those of the run, and those that led to the present state
  -- are some of the next ones; so the draft gets to its state as well.
  cases h with
  | declaring units rest fragments listed hbuild hdeclare =>
    obtain ⟨hunits, rfl⟩ := run_unique hphased.build hbuild
    have hhandles : ∀ unit ∈ units, (linker.skeleton repo).hasHandle unit.project ∧
        (linker.skeleton repo).hasHandle unit.file := by
      intro unit hunit
      apply hasHandle_of_sourceUnits linker
      rw [hunits]
      exact List.mem_append_left rest hunit
    obtain ⟨_, s, hrun, hdeclares, -⟩ :=
      draftAll_run linker (skeleton_sound linker repo) hhandles
    obtain ⟨_, full', hrun', -, hfull⟩ := follows_declareAll hrealize.listed units _ _ hrun
    obtain ⟨-, rfl⟩ := run_unique hrun' hdeclare
    exact Drafted.reached hdeclares.moves hfull
  | nesting units fragments rest listed declared hbuild hdeclare hnest =>
    obtain ⟨rfl, rfl⟩ := run_unique hphased.build hbuild
    obtain ⟨rfl, rfl⟩ := run_unique hphased.declare hdeclare
    have hnests : Reaches linker.NestMove declared' (linker.draftNestAll fragments)
        fun _ _ => True :=
      reaches_draftNestAll fun fragment hfragment =>
        htrace.placed fragment (List.mem_append_left rest hfragment)
    obtain ⟨_, s, hrun, hpath, -⟩ := hnests
    obtain ⟨_, full', hrun', hfull⟩ := follows_nestAll hrealize.declared fragments _ _ hrun
    obtain ⟨-, rfl⟩ := run_unique hrun' hnest
    exact (htrace.drafted_declared.nests hpath).reached hfull
  | linking units fragments rest listed declared nested hbuild hdeclare hnest hmembers =>
    obtain ⟨rfl, rfl⟩ := run_unique hphased.build hbuild
    obtain ⟨rfl, rfl⟩ := run_unique hphased.declare hdeclare
    obtain ⟨-, rfl⟩ := run_unique hphased.nest hnest
    have hlinks : Reaches (linker.MemberMove (linker.occurrences repo nested'.model)) nested'
        (fragments.forM linker.draftMembers) fun _ _ => True :=
      .forM fun fragment hfragment _ hpath =>
        htrace.reaches_draftMembers (List.mem_append_left rest hfragment) hpath
    obtain ⟨_, s, hrun, hpath, -⟩ := hlinks
    obtain ⟨_, full', hrun', hfull⟩ := follows_forM_linkMembers hrealize.nested
      (fun _ hfragment => List.mem_map_of_mem (List.mem_append_left rest hfragment)) _ _ hrun
    obtain ⟨-, rfl⟩ := run_unique hrun' hmembers
    exact (htrace.drafted_nested.members hpath).reached hfull
  | calling units fragments listed declared nested linked calls rest hbuild hdeclare hnest
      hmembers hpending hcalls =>
    obtain ⟨rfl, rfl⟩ := run_unique hphased.build hbuild
    obtain ⟨rfl, rfl⟩ := run_unique hphased.declare hdeclare
    obtain ⟨-, rfl⟩ := run_unique hphased.nest hnest
    obtain ⟨-, rfl⟩ := run_unique hphased.members hmembers
    have hready := htrace.ready
    have hmem : ∀ pending ∈ calls, pending ∈ linked'.pending := by
      intro pending hcall
      rw [← Array.mem_toList_iff, ← hrealize.linked.pending, hpending]
      exact List.mem_append_left rest hcall
    obtain ⟨_, s, hrun, hpath, -⟩ :=
      @reaches_forM_draftCall linker _ linked' hready.sound hready.collected calls hmem
    obtain ⟨_, full', hrun', hfull⟩ := follows_forM_linkCall hrealize.linked calls _ _ hrun
    obtain ⟨-, rfl⟩ := run_unique hrun' hcalls
    exact (htrace.drafted_linked.members hpath).reached hfull
  | wiring fragments listed declared nested linked called h hwire =>
    obtain ⟨-, rfl⟩ := run_unique hphased.build h.build
    obtain ⟨rfl, rfl⟩ := run_unique hphased.declare h.declare
    obtain ⟨-, rfl⟩ := run_unique hphased.nest h.nest
    obtain ⟨-, rfl⟩ := run_unique hphased.members h.members
    obtain ⟨-, rfl⟩ := run_unique hphased.calls h.calls
    have hrun := run_wireContainment hrealize.called htrace.phases.sound.closed
    obtain ⟨-, rfl⟩ := run_unique hrun hwire
    exact ⟨final, htrace.drafted_final, final.model.bare_wire⟩

end Linker

end FactGraph
