import FactGraph.Proofs.Linking.Fragments
import FactGraph.Proofs.Linking.Links

/-!
# Every node has an identity of its own

A project is known by its path, a namespace by its project and full name, a declared type by its
project, full name and partiality, and an external type by its full name alone. A node is made only
when none is found for its key, and no later move changes the key of a node; so the keys of a
linked model are distinct.

External types come last: they are made when members and calls are linked, and all declared types
are there by then. Of such a type nothing is ever known but its name. What says so is not that
nobody tries: every move that fills in a type, or makes a member other than a called method, is
made for a declared one.

## Main definitions

* `TypeNode.Bare`: nothing is known of the type but its name, and which methods of it are called
* `ReferenceModel.Identified`: the keys are distinct, and external types stand apart

## Main results

* `MemberMove.externalsApart`: every move keeps external types apart from declared ones
* `link_identified`: every linked model is identified
-/

namespace FactGraph

/-- **Nothing is known of the type but its name**, and which methods of it are called. -/
structure TypeNode.Bare (node : TypeNode) : Prop where
  project : node.project = none
  namespaceId : node.namespaceId = none
  files : node.files = []
  containingType : node.containingType = none
  nestedTypes : node.nestedTypes = []
  baseTypes : node.baseTypes = []
  fields : node.fields = []
  properties : node.properties = []
  constructors : node.constructors = []
  destructor : node.destructor = none
  attributes : node.attributes = []
  relations : node.relations = []

/-- What a namespace is known by. -/
def NamespaceNode.key (node : NamespaceNode) : ProjectId × String :=
  (node.project, node.fullName)

/-- What an external type is known by. A declared one is known by more than its name. -/
def TypeNode.externalName? (node : TypeNode) : Option String :=
  if node.isExternal then some node.fullName else none

theorem TypeNode.externalName?_of_header {node node' : TypeNode}
    (h : node'.header = node.header) : node'.externalName? = node.externalName? :=
  calc node'.externalName? = node'.header.externalName? := rfl
    _ = node.header.externalName? := by rw [h]
    _ = node.externalName? := rfl

namespace ReferenceModel

/-- **Every node of the model has an identity of its own**, and the external types stand apart from
the declared ones. -/
structure Identified (model : ReferenceModel) : Prop where
  /-- No two projects share a path. -/
  projects : (model.projects.toList.map ProjectNode.path).Nodup
  /-- No two namespaces share their project and full name. -/
  namespaces : (model.namespaces.toList.map NamespaceNode.key).Nodup
  /-- No two declared types share their project, full name and partiality. -/
  declared : ((model.types.toList.filter (!·.isExternal)).map fun node =>
    (node.project, node.fullName, node.isPartial)).Nodup
  /-- No two external types share a full name. -/
  external : ((model.types.toList.filter (·.isExternal)).map TypeNode.fullName).Nodup
  /-- The model lists its external types. -/
  created : model.createdClasses = (model.types.toList.filter (·.isExternal)).map TypeNode.id
  increasing : model.createdClasses.Pairwise fun id other => id.idx < other.idx
  /-- Every declared type comes before every external one. -/
  later : ∀ node ∈ model.types, ∀ other ∈ model.types, node.isExternal = false →
    other.isExternal = true → node.id.idx < other.id.idx
  bare : ∀ node ∈ model.types, node.isExternal = true → node.Bare

/-- No two namespaces have the same key. -/
def SpacesDistinct (model : ReferenceModel) : Prop :=
  (model.namespaces.toList.map NamespaceNode.key).Nodup

/-- **External types are apart from declared ones**, while members and calls are linked: they come
after them, each for a name of its own, and nothing is put into one but the methods that are called,
with their parameters. -/
structure ExternalsApart (model : ReferenceModel) : Prop where
  distinct : (model.types.toList.filterMap TypeNode.externalName?).Nodup
  last : model.types.toList.Pairwise fun node other => node.isExternal → other.isExternal
  bare : ∀ node ∈ model.types, node.isExternal = true → node.Bare
  nested : ∀ node ∈ model.types, ∀ outer, node.containingType = some outer → model.Declared outer
  fields : ∀ node ∈ model.fields, model.Declared node.containingType
  properties : ∀ node ∈ model.properties, model.Declared node.containingType
  methods : ∀ node ∈ model.methods, model.Declared node.containingType ∨ node.Bare
  localVariables : ∀ node ∈ model.localVariables, ∀ method,
    model.method? node.containingMethod = some method → model.Declared method.containingType

variable {model model' : ReferenceModel}

theorem Extends.declared (h : model.Extends model') {type : TypeId} (htype : model.Declared type) :
    model'.Declared type := by
  obtain ⟨node, own, hnode, hown⟩ := htype
  obtain ⟨node', hnode', hheader⟩ := h.type? type node hnode
  refine ⟨node', own, hnode', ?_⟩
  rw [← node'.header_project, hheader]
  exact hown

end ReferenceModel

namespace Linker

open Relation (ReflTransGen)

variable {linker : Linker} {source : Occurrences} {unit : SourceUnit} {s s' : DraftState}

/-! ## Namespaces -/

/-- A namespace is made only for a key that no namespace of the model has. -/
theorem NamespaceMove.spacesDistinct {project : ProjectId} {fact : TypeFact}
    (h : linker.NamespaceMove project fact s s') (hs : s.model.SpacesDistinct) :
    s'.model.SpacesDistinct := by
  cases h with
  | addNamespace outer inner fullName parent hproject hnames hparent hfresh =>
    have hnew : (project, fullName) ∉ s.model.namespaces.toList.map NamespaceNode.key := by
      intro hmem
      obtain ⟨node, hnode, heq⟩ := List.mem_map.1 hmem
      obtain ⟨hown, hname⟩ := Prod.mk.inj heq
      have hnone := Array.findIdx?_eq_none_iff.1 (Option.map_eq_none_iff.1 hfresh) node
        (Array.mem_toList_iff.1 hnode)
      simp [hown, hname] at hnone
    unfold ReferenceModel.SpacesDistinct at hs ⊢
    rw [Array.toList_push, List.map_append, List.map_singleton, ← List.concat_eq_append]
    exact hs.concat hnew

theorem DeclareMove.spacesDistinct (h : linker.DeclareMove unit s s')
    (hs : s.model.SpacesDistinct) : s'.model.SpacesDistinct := by
  cases h with
  | space fact hfact hnamed h => exact h.spacesDistinct hs
  | _ => exact hs

theorem Declares.spacesDistinct {units : List SourceUnit} (h : linker.Declares units s s')
    (hs : s.model.SpacesDistinct) : s'.model.SpacesDistinct := by
  induction h with
  | nil => exact hs
  | cons head _ ih =>
    exact ih (DraftM.keep_of_moves head hs fun _ _ => DeclareMove.spacesDistinct)

theorem NestMove.spacesDistinct (h : linker.NestMove s s') (hs : s.model.SpacesDistinct) :
    s'.model.SpacesDistinct := by
  cases h
  exact hs

theorem MemberMove.spacesDistinct (h : linker.MemberMove source s s')
    (hs : s.model.SpacesDistinct) : s'.model.SpacesDistinct := by
  cases h with
  | external h =>
    cases h
    exact hs
  | _ => exact hs

/-- **No two namespaces have the same key when a run is over.** Only the declarations make any. -/
theorem Phases.spacesDistinct {repo : RepositoryFact} {declared nested final : DraftState}
    (h : linker.Phases repo declared nested final) : final.model.SpacesDistinct := by
  have hstart : (linker.skeleton repo).SpacesDistinct := by
    simp [ReferenceModel.SpacesDistinct, skeleton]
  have hdeclared := h.declares.spacesDistinct hstart
  have hnested : nested.model.SpacesDistinct :=
    DraftM.keep_of_moves h.nests hdeclared fun _ _ => NestMove.spacesDistinct
  exact DraftM.keep_of_moves h.links hnested fun _ _ => MemberMove.spacesDistinct

/-! ## External types -/

/-- Before members are linked there are no external types, and no members. -/
theorem Unlinked.externalsApart (h : Unlinked s.model) (hs : s.Sound) :
    s.model.ExternalsApart where
  distinct := by
    have hnone : s.model.types.toList.filterMap TypeNode.externalName? = [] := by
      refine List.filterMap_eq_nil_iff.2 fun node hnode => ?_
      simp [TypeNode.externalName?, (h.types node (Array.mem_toList_iff.1 hnode)).2.2]
    rw [hnone]
    exact List.nodup_nil
  last := List.pairwise_of_forall_mem_list fun node hnode _ _ hexternal => by
    simp [(h.types node (Array.mem_toList_iff.1 hnode)).2.2] at hexternal
  bare node hnode hexternal := by simp [(h.types node hnode).2.2] at hexternal
  nested node hnode outer houter := by
    have hhandle : s.model.hasHandle outer := by
      refine hs.closed .type (.of outer)
        (List.mem_flatMap.2 ⟨node, Array.mem_toList_iff.2 hnode, ?_⟩)
      simp [TypeNode.handles, houter]
    obtain ⟨outerNode, houterNode⟩ := ReferenceModel.exists_type hhandle
    have hmem := ReferenceModel.mem_of_type houterNode
    have hproject := hs.external outerNode hmem
    rw [(h.types outerNode hmem).2.2] at hproject
    obtain ⟨own, hown⟩ := Option.isSome_iff_exists.1 (Option.isNone_eq_false_iff.1 hproject.symm)
    exact ⟨outerNode, own, houterNode, hown⟩
  fields := by simp [h.fields]
  properties := by simp [h.properties]
  methods := by simp [h.methods]
  localVariables := by simp [h.localVariables]

theorem newExternal_bare (linker : Linker) (model : ReferenceModel) (fullName : String) :
    (linker.newExternal model fullName).Bare := by
  constructor <;> rfl

/-- A declared type is no external one. -/
theorem not_external_of_declared (hs : s.Sound) {id : TypeId} (h : s.model.Declared id)
    {node : TypeNode} (hnode : s.model.type? id = some node) : node.isExternal = false := by
  obtain ⟨other, own, hother, hown⟩ := h
  obtain rfl := Option.some.inj (hnode.symm.trans hother)
  rw [hs.external node (ReferenceModel.mem_of_type hnode), hown]
  rfl

/-- **An external type is made, or is as it was**: no move changes one. -/
theorem MemberMove.external_eq (h : linker.MemberMove source s s') (hs : s.Sound)
    {node : TypeNode} (hnode : node ∈ s'.model.types) (hexternal : node.isExternal = true) :
    node ∈ s.model.types ∨ ∃ fullName, node = linker.newExternal s.model fullName := by
  cases h with
  | external h =>
    cases h with
    | addExternal fullName =>
      exact (Array.mem_push.1 hnode).imp id fun heq => ⟨fullName, heq⟩
  | addLinks id change links hid hdeclared houtline =>
    rcases mem_modify hnode with hnode | ⟨old, hget, rfl⟩
    · exact .inl hnode
    · have hheader := TypeNode.header_of_outline (houtline old)
      rw [← (change old).header_isExternal, hheader, old.header_isExternal,
        not_external_of_declared hs hdeclared hget] at hexternal
      cases hexternal
  | addRelation id relation target count hid hdeclared =>
    dsimp only at hnode
    rcases mem_modify hnode with hnode | ⟨old, hget, rfl⟩
    · exact .inl hnode
    · have hfalse : old.isExternal = false := not_external_of_declared hs hdeclared hget
      exact absurd hexternal (by simp [hfalse])
  | _ => exact .inl hnode

/-- Where a type is put is left alone while members are linked. -/
theorem MemberMove.containingType (h : linker.MemberMove source s s') {node : TypeNode}
    (hnode : node ∈ s'.model.types) : node.containingType = none ∨
      ∃ old ∈ s.model.types, node.containingType = old.containingType := by
  cases h with
  | external h =>
    cases h with
    | addExternal fullName =>
      rcases Array.mem_push.1 hnode with hnode | rfl
      · exact .inr ⟨node, hnode, rfl⟩
      · exact .inl rfl
  | addLinks id change links hid hdeclared houtline =>
    rcases mem_modify hnode with hnode | ⟨old, hget, rfl⟩
    · exact .inr ⟨node, hnode, rfl⟩
    · exact .inr ⟨old, Array.mem_of_getElem? hget,
        (congrArg TypeNode.containingType (houtline old) :)⟩
  | addRelation =>
    dsimp only at hnode
    rcases mem_modify hnode with hnode | ⟨old, hget, rfl⟩
    · exact .inr ⟨node, hnode, rfl⟩
    · exact .inr ⟨old, Array.mem_of_getElem? hget, rfl⟩
  | _ => exact .inr ⟨node, hnode, rfl⟩

/-- The names of external types, and which types are external, after a move: as before, or with a
new external type behind them whose name no external type has. -/
theorem MemberMove.externals (h : linker.MemberMove source s s') :
    (s'.model.types.toList.filterMap TypeNode.externalName? =
        s.model.types.toList.filterMap TypeNode.externalName? ∧
      s'.model.types.toList.map TypeNode.isExternal =
        s.model.types.toList.map TypeNode.isExternal) ∨
    ∃ fullName, findExternal? s.model fullName = none ∧
      s'.model.types.toList = s.model.types.toList ++ [linker.newExternal s.model fullName] := by
  cases h with
  | external h =>
    cases h with
    | addExternal fullName hfresh => exact .inr ⟨fullName, hfresh, Array.toList_push⟩
  | addLinks id change links hid hdeclared houtline =>
    have hheader (node : TypeNode) := TypeNode.header_of_outline (houtline node)
    refine .inl ⟨filterMap_toList_modify fun node =>
      TypeNode.externalName?_of_header (hheader node), map_toList_modify fun node => ?_⟩
    rw [← (change node).header_isExternal, hheader, node.header_isExternal]
  | addRelation =>
    exact .inl ⟨filterMap_toList_modify fun _ => rfl, map_toList_modify fun _ => rfl⟩
  | _ => exact .inl ⟨rfl, rfl⟩

/-- No external type has a name for which none is found. -/
theorem not_mem_externalNames {model : ReferenceModel} {fullName : String}
    (h : findExternal? model fullName = none) :
    fullName ∉ model.types.toList.filterMap TypeNode.externalName? := by
  intro hmem
  obtain ⟨node, hnode, heq⟩ := List.mem_filterMap.1 hmem
  have hnone := Array.findIdx?_eq_none_iff.1 (Option.map_eq_none_iff.1 h) node
    (Array.mem_toList_iff.1 hnode)
  unfold TypeNode.externalName? at heq
  split at heq
  next hexternal =>
    simp [hexternal, Option.some.inj heq] at hnone
  next => cases heq

/-- A field is made for a declared type. -/
theorem MemberMove.field_declared (h : linker.MemberMove source s s') {node : FieldNode}
    (hnode : node ∈ s'.model.fields) :
    node ∈ s.model.fields ∨ s.model.Declared node.containingType := by
  cases h with
  | addField added hid htype hlinks hwritten hdeclared =>
    rcases Array.mem_push.1 hnode with hnode | rfl
    · exact .inl hnode
    · exact .inr hdeclared
  | external h =>
    cases h
    exact .inl hnode
  | _ => exact .inl hnode

/-- A property is made for a declared type. -/
theorem MemberMove.property_declared (h : linker.MemberMove source s s') {node : PropertyNode}
    (hnode : node ∈ s'.model.properties) :
    node ∈ s.model.properties ∨ s.model.Declared node.containingType := by
  cases h with
  | addProperty added hid htype haccessors hlinks hwritten hdeclared =>
    rcases Array.mem_push.1 hnode with hnode | rfl
    · exact .inl hnode
    · exact .inr hdeclared
  | external h =>
    cases h
    exact .inl hnode
  | _ => exact .inl hnode

/-- A method is made for a declared type, or as one that is called. -/
theorem MemberMove.method_declared (h : linker.MemberMove source s s') {node : MethodNode}
    (hnode : node ∈ s'.model.methods) :
    (∃ old ∈ s.model.methods, old.containingType = node.containingType ∧
      (old.Bare → node.Bare)) ∨ s.model.Declared node.containingType ∨ node.Bare := by
  cases h with
  | addMethod added hid htype hplaced hparameters hvariables hfunctions hcalls hlinks outer houter
      hwritten hmember =>
    rcases Array.mem_push.1 hnode with hnode | rfl
    · exact .inl ⟨node, hnode, rfl, id⟩
    · exact .inr hmember
  | addCall =>
    dsimp only at hnode
    rcases mem_modify hnode with hnode | ⟨old, hget, rfl⟩
    · exact .inl ⟨node, hnode, rfl, id⟩
    · exact .inl ⟨old, Array.mem_of_getElem? hget, rfl, fun h => ⟨h.kind, h.isSynthetic, h.links⟩⟩
  | external h =>
    cases h
    exact .inl ⟨node, hnode, rfl, id⟩
  | _ => exact .inl ⟨node, hnode, rfl, id⟩

/-- A local variable is made for a method of a declared type. -/
theorem MemberMove.localVariable_declared (h : linker.MemberMove source s s') (hs : s.Sound)
    {node : LocalVariableNode} (hnode : node ∈ s'.model.localVariables) {method : MethodNode}
    (hmethod : s'.model.method? node.containingMethod = some method) :
    (node ∈ s.model.localVariables ∧ ∃ old, s.model.method? node.containingMethod = some old ∧
      old.containingType = method.containingType) ∨ s.model.Declared method.containingType := by
  cases h with
  | addLocalVariable added owner hid howner hlinks parameters hparameters hwritten hdeclared =>
    rcases Array.mem_push.1 hnode with hnode | rfl
    · exact .inl ⟨hnode, method, hmethod, rfl⟩
    · obtain rfl := Option.some.inj (howner.symm.trans hmethod)
      exact .inr hdeclared
  | addMethod =>
    exact .inl ⟨hnode, method, method?_of_push (lt_of_localVariable hs hnode) hmethod, rfl⟩
  | addCall =>
    obtain ⟨old, hget, htype⟩ := containingType_of_modify hmethod fun _ => rfl
    exact .inl ⟨hnode, old, hget, htype⟩
  | external h =>
    cases h
    exact .inl ⟨hnode, method, hmethod, rfl⟩
  | _ => exact .inl ⟨hnode, method, hmethod, rfl⟩

/-- **Every move keeps external types apart from declared ones.** -/
theorem MemberMove.externalsApart (h : linker.MemberMove source s s') (hs : s.Sound)
    (hapart : s.model.ExternalsApart) : s'.model.ExternalsApart := by
  have hkept {type : TypeId} (htype : s.model.Declared type) : s'.model.Declared type :=
    h.extends.declared htype
  constructor
  case distinct =>
    rcases h.externals with ⟨hnames, -⟩ | ⟨fullName, hfresh, htypes⟩
    · rw [hnames]
      exact hapart.distinct
    · have hname : (linker.newExternal s.model fullName).externalName? = some fullName := rfl
      rw [htypes, List.filterMap_append, List.filterMap_cons_some hname, List.filterMap_nil,
        ← List.concat_eq_append]
      exact hapart.distinct.concat (not_mem_externalNames hfresh)
  case last =>
    rcases h.externals with ⟨-, hflags⟩ | ⟨fullName, -, htypes⟩
    · have hlast : (s.model.types.toList.map TypeNode.isExternal).Pairwise
          fun flag other => flag = true → other = true := List.pairwise_map.2 hapart.last
      rw [← hflags] at hlast
      exact List.pairwise_map.1 hlast
    · rw [htypes]
      refine List.pairwise_append.2 ⟨hapart.last, List.pairwise_singleton _ _, ?_⟩
      intro _ _ node hnode _
      rw [List.mem_singleton.1 hnode]
      rfl
  case bare =>
    intro node hnode hexternal
    rcases h.external_eq hs hnode hexternal with hold | ⟨fullName, rfl⟩
    · exact hapart.bare node hold hexternal
    · exact newExternal_bare linker s.model fullName
  -- What belongs to a type belongs to a declared one: it did before, or it is made for one.
  case nested =>
    intro node hnode outer houter
    rcases h.containingType hnode with hnone | ⟨old, hold, heq⟩
    · rw [hnone] at houter
      cases houter
    · exact hkept (hapart.nested old hold outer (heq ▸ houter))
  case fields =>
    intro node hnode
    exact hkept ((h.field_declared hnode).elim (hapart.fields node) id)
  case properties =>
    intro node hnode
    exact hkept ((h.property_declared hnode).elim (hapart.properties node) id)
  case methods =>
    intro node hnode
    rcases h.method_declared hnode with ⟨old, hold, heq, hbare⟩ | hmade
    · exact (hapart.methods old hold).imp (fun hdeclared => hkept (heq ▸ hdeclared)) hbare
    · exact hmade.imp_left hkept
  case localVariables =>
    intro node hnode method hmethod
    rcases h.localVariable_declared hs hnode hmethod with ⟨hold, old, hget, heq⟩ | hdeclared
    · exact hkept (heq ▸ hapart.localVariables node hold old hget)
    · exact hkept hdeclared

/-- **External types are apart from declared ones when a run is over.** -/
theorem Phases.externalsApart {repo : RepositoryFact} {declared nested final : DraftState}
    (h : linker.Phases repo declared nested final) : final.model.ExternalsApart :=
  h.keeps (fun s => s.model.ExternalsApart) (h.nested_unlinked.externalsApart h.nested_sound)
    fun _ _ hs hmove => hmove.externalsApart hs

/-! ## The linked model -/

theorem Phases.paths_nodup {repo : RepositoryFact} {declared nested final : DraftState}
    (h : linker.Phases repo declared nested final) :
    (final.model.projects.toList.map ProjectNode.path).Nodup := by
  rw [(memberMoves_extends h.links).projects, (nestMoves_extends h.nests).projects,
    h.declares.extends.projects]
  have hpaths : (linker.skeleton repo).projects.toList.map ProjectNode.path =
      repo.firstListings.map ProjectFact.path := by
    conv_rhs => rw [← List.zipIdx_map_fst 0 repo.firstListings, List.map_map]
    simp only [skeleton, projectNodes, Array.toList_map, List.map_map]
    rfl
  rw [hpaths]
  exact repo.nodup_firstListings

end Linker

namespace ReferenceModel

variable {model : ReferenceModel}

/-- Nothing is nested in a type that is not declared, and it has no members but methods. -/
theorem ExternalsApart.wire_bare (h : model.ExternalsApart) (hnumbered : model.Numbered)
    {node : TypeNode} (hnode : node ∈ model.types) (hexternal : node.isExternal = true) :
    (model.wireType node).Bare := by
  have hbare := h.bare node hnode hexternal
  have hundeclared : ¬model.Declared node.id := by
    rintro ⟨other, own, hother, hown⟩
    obtain rfl := Option.some.inj ((hnumbered.type?_id hnode).symm.trans hother)
    rw [hbare.project] at hown
    cases hown
  -- The lists of a type have the nodes that name it, and only declared types are named.
  have hnone {α : Type} {kind : NodeKind} {nodes : Array α} {condition : α → Bool}
      {id : α → Handle kind} (hall : ∀ x ∈ nodes, condition x = true → model.Declared node.id) :
      handlesWhere nodes condition id = [] := by
    refine List.map_eq_nil_iff.2 (List.filter_eq_nil_iff.2 fun x hx hcondition => ?_)
    exact hundeclared (hall x (Array.mem_toList_iff.1 hx) hcondition)
  have hmethods {kind : MethodKind} (hkind : kind ≠ .method) :
      model.methodsIn node.id kind = [] := by
    refine hnone fun method hmethod hcondition => ?_
    obtain ⟨htype, rfl⟩ : method.containingType = node.id ∧ method.kind = kind := by
      simpa using hcondition
    exact htype ▸ (h.methods method hmethod).resolve_right fun hbare => hkind hbare.kind
  exact { hbare with
    nestedTypes := hnone fun type htype hcondition =>
      h.nested type htype _ (by simpa using hcondition)
    fields := hnone fun field hfield hcondition => by
      have htype : field.containingType = node.id := by simpa using hcondition
      exact htype ▸ h.fields field hfield
    properties := hnone fun property hproperty hcondition => by
      have htype : property.containingType = node.id := by simpa using hcondition
      exact htype ▸ h.properties property hproperty
    constructors := hmethods (by decide)
    destructor := by
      change (model.methodsIn node.id .destructor).head? = none
      rw [hmethods (by decide)]
      rfl }

/-- No two declared types share their key: a key is all that declared types are told apart by. -/
theorem KeysDistinct.declared (h : model.KeysDistinct)
    (hexternal : ∀ node ∈ model.types, node.isExternal = node.project.isNone) :
    ((model.types.toList.filter (!·.isExternal)).map fun node =>
      (node.project, node.fullName, node.isPartial)).Nodup := by
  rw [List.Nodup, List.pairwise_map, List.pairwise_filter]
  refine (List.pairwise_filterMap.1 h).imp_of_mem ?_
  intro node other hnode _ hkeys hdeclared _ heq
  rw [hexternal node (Array.mem_toList_iff.1 hnode)] at hdeclared
  obtain ⟨own, hown⟩ := Option.isSome_iff_exists.1 (by simpa using hdeclared)
  obtain ⟨hproject, hname, hpartial⟩ : node.project = other.project ∧
      node.fullName = other.fullName ∧ node.isPartial = other.isPartial := by simpa using heq
  refine hkeys (own, node.fullName, node.isPartial) (by simp [TypeNode.key?, hown]) _ ?_ rfl
  simp [TypeNode.key?, ← hproject, hown, hname, hpartial]

/-- No two external types share a name. -/
theorem ExternalsApart.external (h : model.ExternalsApart) :
    ((model.types.toList.filter (·.isExternal)).map TypeNode.fullName).Nodup := by
  have hnames : model.types.toList.filterMap TypeNode.externalName? =
      (model.types.toList.filter (·.isExternal)).map TypeNode.fullName := by
    induction model.types.toList with
    | nil => rfl
    | cons node nodes ih =>
      cases hnode : node.isExternal <;> simp [TypeNode.externalName?, hnode, ih]
  rw [← hnames]
  exact h.distinct

/-- A declared type comes before an external one. -/
theorem ExternalsApart.idx_lt (h : model.ExternalsApart) (hnumbered : model.Numbered)
    {node other : TypeNode} (hnode : node ∈ model.types) (hother : other ∈ model.types)
    (hdeclared : node.isExternal = false) (hexternal : other.isExternal = true) :
    node.id.idx < other.id.idx := by
  have hget := hnumbered.type?_id hnode
  have hget' := hnumbered.type?_id hother
  by_contra hle
  rcases Nat.lt_or_eq_of_le (Nat.le_of_not_lt hle) with hlt | heq
  · -- All types behind an external one are external.
    obtain ⟨hi, hnode⟩ := Array.getElem?_eq_some_iff.1 hget
    obtain ⟨hj, hother⟩ := Array.getElem?_eq_some_iff.1 hget'
    have hlast := List.pairwise_iff_getElem.1 h.last other.id.idx node.id.idx (by simpa using hj)
      (by simpa using hi) hlt
    simp [hnode, hother, hdeclared, hexternal] at hlast
  · have hsame : node = other := by
      rw [type?, heq] at hget'
      exact Option.some.inj (hget.symm.trans hget')
    rw [hsame, hexternal] at hdeclared
    cases hdeclared

/-- The handles of the nodes that satisfy a condition are in increasing order. -/
theorem Numbered.increasing (h : model.Numbered) (condition : TypeNode → Bool) :
    (handlesWhere model.types condition TypeNode.id).Pairwise
      fun id other => id.idx < other.idx := by
  have hall : (model.types.toList.map TypeNode.id).Pairwise fun id other => id.idx < other.idx := by
    have hids : model.types.toList.map TypeNode.id =
        (List.range (model.count .type)).map Handle.mk := h .type
    rw [hids, List.pairwise_map]
    exact List.pairwise_lt_range
  exact hall.sublist (List.filter_sublist.map _)

/-- **A model is identified once it has all lists**, if its keys are distinct and external types are
apart from declared ones. -/
theorem ExternalsApart.identified (h : model.ExternalsApart) (hnumbered : model.Numbered)
    (hexternal : ∀ node ∈ model.types, node.isExternal = node.project.isNone)
    (hpaths : (model.projects.toList.map ProjectNode.path).Nodup) (hspaces : model.SpacesDistinct)
    (hkeys : model.KeysDistinct) : model.wire.Identified where
  projects := by simpa [wire, wireProject, Function.comp_def] using hpaths
  namespaces := by
    have hkept : NamespaceNode.key ∘ model.wireNamespace = NamespaceNode.key := rfl
    rw [SpacesDistinct] at hspaces
    simpa [wire, hkept] using hspaces
  declared := by
    simpa [wire, wireType, List.filter_map, Function.comp_def] using hkeys.declared hexternal
  external := by
    simpa [wire, wireType, List.filter_map, Function.comp_def] using h.external
  created := by simp [wire, wireType, handlesWhere, List.filter_map, Function.comp_def]
  increasing := hnumbered.increasing _
  later node hnode other hother := by
    obtain ⟨node, hold, rfl⟩ := Array.mem_map.1 hnode
    obtain ⟨other, hold', rfl⟩ := Array.mem_map.1 hother
    have hlt := h.idx_lt hnumbered hold hold'
    exact hlt
  bare node hnode hflag := by
    obtain ⟨node, hold, rfl⟩ := Array.mem_map.1 hnode
    exact h.wire_bare hnumbered hold hflag

end ReferenceModel

namespace Linker

/-- **Every linked model is identified**, with whatever index and policy a repository is linked. -/
theorem link_identified (linker : Linker) (repo : RepositoryFact) :
    (linker.link repo).1.Identified := by
  obtain ⟨declared, nested, final, hlink, hphases⟩ := link_spec linker repo
  have hs := hphases.sound
  rw [hlink]
  exact hphases.externalsApart.identified hs.numbered hs.external hphases.paths_nodup
    hphases.spacesDistinct hphases.keysDistinct

end Linker

end FactGraph
