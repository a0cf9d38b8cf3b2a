import FactGraph.Proofs.Linking.Integrity

/-!
# Where links come from

Every link of a linked model is one of a written type name, and leads to what the base of that name
refers to, seen from the project of the type that contains the link. This is known when the link is
made; afterwards no look-up changes its answer any more, so it stays true to the end.

## Main definitions

* `ReferenceModel.HasLinks`: the type contains the links, directly or in one of its members
* `ReferenceModel.LinksAt`: the same, with the method that the links are in
* `Linker.LinksMade`: all that a move can do to the links of a type
* `Linker.Attributed`: all links are to what they name, seen from the project of their type

## Main results

* `MemberMove.linksMade`: no move does anything else to links
* `MemberMove.attributed`: every move keeps all links attributed
* `Phases.linksFrom`: all links of a linked model are to what they name
-/

namespace FactGraph

/-- **The type contains the links**: they are its own, or those of a method, a field or a property
of it, or of a parameter or a local variable of one of its methods. -/
inductive ReferenceModel.HasLinks (model : ReferenceModel) : TypeId → List TypeLink → Prop
  | type {node : TypeNode} (h : node ∈ model.types) : HasLinks model node.id node.links
  | method {node : MethodNode} (h : node ∈ model.methods) :
      HasLinks model node.containingType node.links
  | field {node : FieldNode} (h : node ∈ model.fields) :
      HasLinks model node.containingType node.links
  | property {node : PropertyNode} (h : node ∈ model.properties) :
      HasLinks model node.containingType node.links
  | parameter {node : ParameterNode} {method : MethodNode} (h : node ∈ model.parameters)
      (hmethod : model.method? node.containingMethod = some method) :
      HasLinks model method.containingType node.links
  | localVariable {node : LocalVariableNode} {method : MethodNode}
      (h : node ∈ model.localVariables)
      (hmethod : model.method? node.containingMethod = some method) :
      HasLinks model method.containingType node.links

namespace ReferenceModel

/-- **The type contains the links at a place**: in one of its methods, or outside of all of
them. -/
inductive LinksAt (model : ReferenceModel) : TypeId → Option MethodId → List TypeLink → Prop
  | type {node : TypeNode} (h : node ∈ model.types) : LinksAt model node.id none node.links
  | method {node : MethodNode} (h : node ∈ model.methods) :
      LinksAt model node.containingType (some node.id) node.links
  | field {node : FieldNode} (h : node ∈ model.fields) :
      LinksAt model node.containingType none node.links
  | property {node : PropertyNode} (h : node ∈ model.properties) :
      LinksAt model node.containingType none node.links
  | parameter {node : ParameterNode} {method : MethodNode} (h : node ∈ model.parameters)
      (hmethod : model.method? node.containingMethod = some method) :
      LinksAt model method.containingType (some node.containingMethod) node.links
  | localVariable {node : LocalVariableNode} {method : MethodNode}
      (h : node ∈ model.localVariables)
      (hmethod : model.method? node.containingMethod = some method) :
      LinksAt model method.containingType (some node.containingMethod) node.links

theorem HasLinks.linksAt {model : ReferenceModel} {type : TypeId} {links : List TypeLink}
    (h : model.HasLinks type links) : ∃ place, model.LinksAt type place links := by
  cases h with
  | type hnode => exact ⟨none, .type hnode⟩
  | method hnode => exact ⟨_, .method hnode⟩
  | field hnode => exact ⟨none, .field hnode⟩
  | property hnode => exact ⟨none, .property hnode⟩
  | parameter hnode hmethod => exact ⟨_, .parameter hnode hmethod⟩
  | localVariable hnode hmethod => exact ⟨_, .localVariable hnode hmethod⟩

theorem LinksAt.hasLinks {model : ReferenceModel} {type : TypeId} {place : Option MethodId}
    {links : List TypeLink} (h : model.LinksAt type place links) : model.HasLinks type links := by
  cases h with
  | type hnode => exact .type hnode
  | method hnode => exact .method hnode
  | field hnode => exact .field hnode
  | property hnode => exact .property hnode
  | parameter hnode hmethod => exact .parameter hnode hmethod
  | localVariable hnode hmethod => exact .localVariable hnode hmethod

end ReferenceModel

namespace Linker

open Relation (ReflTransGen)

variable {linker : Linker} {source : Occurrences} {model model' : ReferenceModel}
  {unit : SourceUnit} {s s' : DraftState}

/-- **All links of a model are to what they name**, seen from the project of the type that contains
them. -/
def Attributed (linker : Linker) (model : ReferenceModel) : Prop :=
  ∀ type place links, model.LinksAt type place links → linker.LinksFrom model type links

/-! ## Before anything is linked -/

/-- There are no links and no external types yet. -/
structure Unlinked (model : ReferenceModel) : Prop where
  types : ∀ node ∈ model.types, node.links = [] ∧ node.relations = [] ∧ node.isExternal = false
  methods : model.methods = #[]
  fields : model.fields = #[]
  properties : model.properties = #[]
  parameters : model.parameters = #[]
  localVariables : model.localVariables = #[]

theorem DeclareMove.unlinked (h : linker.DeclareMove unit s s') (hs : Unlinked s.model) :
    Unlinked s'.model := by
  cases h with
  | report finding => exact hs
  | space fact hfact hnamed h =>
    cases h
    exact { hs with }
  | addType fact =>
    refine { hs with types := fun node hnode => ?_ }
    rcases Array.mem_push.1 hnode with hnode | rfl
    · exact hs.types node hnode
    · exact ⟨rfl, rfl, rfl⟩
  | noteFile id =>
    refine { hs with types := fun node hnode => ?_ }
    dsimp only at hnode
    rcases mem_modify hnode with hnode | ⟨old, hold, rfl⟩
    · exact hs.types node hnode
    · exact hs.types old (Array.mem_of_getElem? hold)
  | noteType => exact { hs with }

theorem NestMove.unlinked (h : linker.NestMove s s') (hs : Unlinked s.model) :
    Unlinked s'.model := by
  cases h with
  | nest fragment hplaced =>
    refine { hs with types := fun node hnode => ?_ }
    dsimp only at hnode
    rcases mem_modify hnode with hnode | ⟨old, hold, rfl⟩
    · exact hs.types node hnode
    · exact hs.types old (Array.mem_of_getElem? hold)

theorem Declares.unlinked {units : List SourceUnit} (h : linker.Declares units s s')
    (hs : Unlinked s.model) : Unlinked s'.model := by
  induction h with
  | nil => exact hs
  | cons head _ ih => exact ih (DraftM.keep_of_moves head hs fun _ _ => DeclareMove.unlinked)

theorem skeleton_unlinked (linker : Linker) (repo : RepositoryFact) :
    Unlinked (linker.skeleton repo) := by
  constructor <;> simp [skeleton]

/-- A type without links, in whatever project. -/
theorem linksFrom_nil {type : TypeId} {node : TypeNode} (h : model.type? type = some node) :
    linker.LinksFrom model type [] := by
  have hnone (project : ProjectId) : linker.LinkedAll model project [] := by
    simp [LinkedAll, TypeLink.partsAll]
  cases hproject : node.project with
  | none => exact ⟨node, ⟨0⟩, h, by simp [hproject], hnone _⟩
  | some own => exact ⟨node, own, h, by simp [hproject, eq_comm], hnone _⟩

/-- There is no place with links in a model without any. -/
theorem Unlinked.linksAt (h : Unlinked model) {type : TypeId} {place : Option MethodId}
    {links : List TypeLink} (hlinks : model.LinksAt type place links) :
    links = [] ∧ place = none ∧ ∃ node ∈ model.types, node.id = type := by
  cases hlinks with
  | type hnode => exact ⟨(h.types _ hnode).1, rfl, _, hnode, rfl⟩
  | method hnode => simp [h.methods] at hnode
  | field hnode => simp [h.fields] at hnode
  | property hnode => simp [h.properties] at hnode
  | parameter hnode => simp [h.parameters] at hnode
  | localVariable hnode => simp [h.localVariables] at hnode

theorem Unlinked.attributed (h : Unlinked model) (hnumbered : model.Numbered) :
    linker.Attributed model := by
  intro type place links hlinks
  obtain ⟨rfl, -, node, hnode, rfl⟩ := h.linksAt hlinks
  exact linksFrom_nil (hnumbered.type?_id hnode)

/-! ## While links are made -/

/-- What is linked stays linked. -/
theorem LinksFrom.after {type : TypeId} {links : List TypeLink}
    (h : linker.LinksFrom s.model type links) (hmove : linker.MemberMove source s s') :
    linker.LinksFrom s'.model type links :=
  h.keep hmove.extends fun _ hlinked => hlinked.keep hmove.sameView hmove.extends

/-- Further links of a declared type, and those that it has. -/
theorem LinksFrom.add {type : TypeId} {links others all : List TypeLink}
    (h : linker.LinksFrom model type links) (h' : linker.LinksFrom model type others)
    (hdeclared : model.Declared type) (hall : ∀ link ∈ all, link ∈ links ∨ link ∈ others) :
    linker.LinksFrom model type all := by
  obtain ⟨node, project, hnode, hown, hlinked⟩ := h
  obtain ⟨node', project', hnode', hown', hlinked'⟩ := h'
  obtain ⟨_, own, hnode'', hproject⟩ := hdeclared
  obtain rfl : node = node' := Option.some.inj (hnode.symm.trans hnode')
  obtain rfl := Option.some.inj (hnode.symm.trans hnode'')
  obtain rfl := hown own hproject
  obtain rfl := hown' own hproject
  refine ⟨node, own, hnode, hown, fun part hpart => ?_⟩
  obtain ⟨link, hlink, hpart⟩ := TypeLink.mem_partsAll.1 hpart
  rcases hall link hlink with hlink | hlink
  · exact hlinked part (TypeLink.mem_partsAll.2 ⟨link, hlink, hpart⟩)
  · exact hlinked' part (TypeLink.mem_partsAll.2 ⟨link, hlink, hpart⟩)

/-- The method of a member is found among all methods but the last one, if the member was there
before that one was added. -/
theorem method?_of_push {methods : Array MethodNode} {added method : MethodNode} {id : MethodId}
    (hid : id.idx < methods.size) (h : (methods.push added)[id.idx]? = some method) :
    methods[id.idx]? = some method := by
  rwa [Array.getElem?_push_lt hid, ← Array.getElem?_eq_getElem] at h

/-- The method of a member has its type, also when a call is added to a method. -/
theorem containingType_of_modify {methods : Array MethodNode} {change : MethodNode → MethodNode}
    {i : Nat} {id : MethodId} {method : MethodNode}
    (h : (methods.modify i change)[id.idx]? = some method)
    (hchange : ∀ node, (change node).containingType = node.containingType) :
    ∃ old, methods[id.idx]? = some old ∧ old.containingType = method.containingType := by
  rw [Array.getElem?_modify] at h
  split at h
  · obtain ⟨old, hold, rfl⟩ := Option.map_eq_some_iff.1 h
    exact ⟨old, hold, (hchange old).symm⟩
  · exact ⟨method, h, rfl⟩

theorem lt_of_parameter (hs : s.Sound) {node : ParameterNode}
    (h : node ∈ s.model.parameters) : node.containingMethod.idx < s.model.methods.size := by
  have hhandle := hs.closed .parameter (.of node.containingMethod)
    (List.mem_flatMap.2 ⟨node, Array.mem_toList_iff.2 h, by simp [ParameterNode.handles]⟩)
  exact of_decide_eq_true hhandle

theorem lt_of_localVariable (hs : s.Sound) {node : LocalVariableNode}
    (h : node ∈ s.model.localVariables) : node.containingMethod.idx < s.model.methods.size := by
  have hhandle := hs.closed .localVariable (.of node.containingMethod)
    (List.mem_flatMap.2 ⟨node, Array.mem_toList_iff.2 h, by simp [LocalVariableNode.handles]⟩)
  exact of_decide_eq_true hhandle

/-- A type that was there before a move is a declared one only if it was one then. -/
theorem declared_of_extends (hextends : model.Extends model') {type : TypeId}
    (htype : model.hasHandle type) (h : model'.Declared type) : model.Declared type := by
  obtain ⟨node, hnode⟩ := ReferenceModel.exists_type htype
  obtain ⟨node', hnode', hheader⟩ := hextends.type? type node hnode
  obtain ⟨other, own, hother, hown⟩ := h
  obtain rfl := Option.some.inj (hnode'.symm.trans hother)
  refine ⟨node, own, hnode, ?_⟩
  rw [← node.header_project, ← hheader]
  exact hown

/-- The links are made by a move: they are to what they name, and if the type is a declared one,
they are written in it. -/
structure LinksNew (linker : Linker) (source : Occurrences) (model : ReferenceModel)
    (type : TypeId) (place : Option MethodId) (links : List TypeLink) : Prop where
  linked : linker.LinksFrom model type links
  written : model.Declared type → ∃ parameters, model.MethodParameters place parameters ∧
    source.Written type parameters links

/-- **What a move can do to the links of a type**: they are as before, or they are new, or a
declared type has got further ones. -/
inductive LinksMade (linker : Linker) (source : Occurrences) (model model' : ReferenceModel)
    (type : TypeId) (place : Option MethodId) (links : List TypeLink) : Prop
  | kept (h : model.LinksAt type place links)
  | new (h : linker.LinksNew source model' type place links)
  | extended (old added : List TypeLink) (hplace : place = none)
      (hold : model.LinksAt type none old) (hdeclared : model.Declared type)
      (hlinked : linker.LinksFrom model type added) (hwritten : source.Written type [] added)
      (hall : ∀ link ∈ links, link ∈ old ∨ link ∈ added)

/-- **What a move can do to the links of all types**, kind of node by kind of node. A kind that
nothing is said of has the nodes that it had, and their methods have the types that they had. -/
structure MakesLinks (linker : Linker) (source : Occurrences) (model model' : ReferenceModel) :
    Prop where
  types : ∀ node ∈ model'.types,
    linker.LinksMade source model model' node.id none node.links := by
      exact fun _ hnode => .kept (.type hnode)
  methods : ∀ node ∈ model'.methods,
    linker.LinksMade source model model' node.containingType (some node.id) node.links := by
      exact fun _ hnode => .kept (.method hnode)
  fields : ∀ node ∈ model'.fields,
    linker.LinksMade source model model' node.containingType none node.links := by
      exact fun _ hnode => .kept (.field hnode)
  properties : ∀ node ∈ model'.properties,
    linker.LinksMade source model model' node.containingType none node.links := by
      exact fun _ hnode => .kept (.property hnode)
  parameters : ∀ node ∈ model'.parameters, ∀ method,
    model'.method? node.containingMethod = some method →
    linker.LinksMade source model model' method.containingType (some node.containingMethod)
      node.links := by
      exact fun _ hnode _ hmethod => .kept (.parameter hnode hmethod)
  localVariables : ∀ node ∈ model'.localVariables, ∀ method,
    model'.method? node.containingMethod = some method →
    linker.LinksMade source model model' method.containingType (some node.containingMethod)
      node.links := by
      exact fun _ hnode _ hmethod => .kept (.localVariable hnode hmethod)

theorem MakesLinks.linksMade (h : linker.MakesLinks source model model') {type : TypeId}
    {place : Option MethodId} {links : List TypeLink} (hlinks : model'.LinksAt type place links) :
    linker.LinksMade source model model' type place links := by
  cases hlinks with
  | type hnode => exact h.types _ hnode
  | method hnode => exact h.methods _ hnode
  | field hnode => exact h.fields _ hnode
  | property hnode => exact h.properties _ hnode
  | parameter hnode hmethod => exact h.parameters _ hnode _ hmethod
  | localVariable hnode hmethod => exact h.localVariables _ hnode _ hmethod

/-- Every move says something of the kind of node that it adds or changes. One that changes the
methods also has to find the types of the parameters and local variables again. -/
theorem MemberMove.makesLinks (h : linker.MemberMove source s s') (hs : s.Sound) :
    linker.MakesLinks source s.model s'.model := by
  have hextends := h.extends
  have hsound := h.sound hs
  have hafter {type : TypeId} {links : List TypeLink}
      (hnew : linker.LinksFrom s.model type links) : linker.LinksFrom s'.model type links :=
    hnew.after h
  cases h with
  | report finding => exact {}
  | postpone call => exact {}
  | external h =>
    cases h
    refine { types := fun node hnode => ?_ }
    rcases Array.mem_push.1 hnode with hmem | rfl
    · exact .kept (.type hmem)
    · have htype := hsound.numbered.type?_id hnode
      exact .new ⟨linksFrom_nil htype, fun _ => ⟨[], .outside, Occurrences.written_nil⟩⟩
  | addMethod added hid htype hplaced hparameters hvariables hfunctions hcalls hnew outer houter
      hwritten =>
    refine { methods := fun node hnode => ?new, parameters := fun node hnode method hmethod => ?_
             localVariables := fun node hnode method hmethod => ?_ }
    case new =>
      rcases Array.mem_push.1 hnode with hmem | rfl
      · exact .kept (.method hmem)
      · refine .new ⟨hafter hnew, fun hdeclared => ⟨_, ?_, hwritten
          (declared_of_extends hextends htype hdeclared)⟩⟩
        exact .inside (hsound.numbered.method?_id hnode) (methodParameters_keep houter hextends)
    · exact .kept (.parameter hnode (method?_of_push (lt_of_parameter hs hnode) hmethod))
    · exact .kept (.localVariable hnode (method?_of_push (lt_of_localVariable hs hnode) hmethod))
  | addField added hid htype hnew hwritten =>
    refine { fields := fun node hnode => ?_ }
    rcases Array.mem_push.1 hnode with hmem | rfl
    · exact .kept (.field hmem)
    · exact .new ⟨hafter hnew, fun hdeclared => ⟨[], .outside,
        hwritten (declared_of_extends hextends htype hdeclared)⟩⟩
  | addProperty added hid htype haccessors hnew hwritten =>
    refine { properties := fun node hnode => ?_ }
    rcases Array.mem_push.1 hnode with hmem | rfl
    · exact .kept (.property hmem)
    · exact .new ⟨hafter hnew, fun hdeclared => ⟨[], .outside,
        hwritten (declared_of_extends hextends htype hdeclared)⟩⟩
  | addParameter added owner hid howner hnew parameters hparameters hwritten =>
    refine { parameters := fun node hnode method hmethod => ?_ }
    rcases Array.mem_push.1 hnode with hmem | rfl
    · exact .kept (.parameter hmem hmethod)
    · obtain rfl := Option.some.inj (howner.symm.trans hmethod)
      exact .new ⟨hafter hnew, fun hdeclared =>
        ⟨parameters, methodParameters_keep hparameters hextends, hwritten hdeclared⟩⟩
  | addLocalVariable added owner hid howner hnew parameters hparameters hwritten =>
    refine { localVariables := fun node hnode method hmethod => ?_ }
    rcases Array.mem_push.1 hnode with hmem | rfl
    · exact .kept (.localVariable hmem hmethod)
    · obtain rfl := Option.some.inj (howner.symm.trans hmethod)
      exact .new ⟨hafter hnew, fun hdeclared =>
        ⟨parameters, methodParameters_keep hparameters hextends, hwritten hdeclared⟩⟩
  | addLinks id change added hid hdeclared houtline hrelations hadded hnew hwritten =>
    refine { types := fun node hnode => ?_ }
    rcases mem_modify hnode with hmem | ⟨old, hget, rfl⟩
    · exact .kept (.type hmem)
    · have hsame : (change old).id = id := by
        calc (change old).id = (change old).outline.id := rfl
          _ = old.outline.id := by rw [houtline]
          _ = old.id := rfl
          _ = id := hs.numbered.type_id hget
      have hold := ReferenceModel.LinksAt.type (Array.mem_of_getElem? hget)
      rw [hs.numbered.type_id hget] at hold
      rw [hsame]
      exact .extended old.links added rfl hold hdeclared hnew hwritten (hadded old)
  | addRelation id =>
    refine { types := fun node hnode => ?_ }
    dsimp only at hnode
    rcases mem_modify hnode with hmem | ⟨old, hget, rfl⟩
    · exact .kept (.type hmem)
    · have hold := ReferenceModel.LinksAt.type (Array.mem_of_getElem? hget)
      exact .kept hold
  | addCall id target =>
    refine { methods := fun node hnode => ?called
             parameters := fun node hnode method hmethod => ?_
             localVariables := fun node hnode method hmethod => ?_ }
    case called =>
      dsimp only at hnode
      rcases mem_modify hnode with hmem | ⟨old, hget, rfl⟩
      · exact .kept (.method hmem)
      · have hold := ReferenceModel.LinksAt.method (Array.mem_of_getElem? hget)
        exact .kept hold
    -- The method around the member may have got a call, but it has its type.
    · obtain ⟨old, hget, htype⟩ := containingType_of_modify hmethod fun _ => rfl
      rw [← htype]
      exact .kept (.parameter hnode hget)
    · obtain ⟨old, hget, htype⟩ := containingType_of_modify hmethod fun _ => rfl
      rw [← htype]
      exact .kept (.localVariable hnode hget)

/-- **No move does anything else to links.** -/
theorem MemberMove.linksMade (h : linker.MemberMove source s s') (hs : s.Sound) {type : TypeId}
    {place : Option MethodId} {links : List TypeLink}
    (hlinks : s'.model.LinksAt type place links) :
    linker.LinksMade source s.model s'.model type place links :=
  (h.makesLinks hs).linksMade hlinks

/-- **Every move keeps all links attributed.** -/
theorem MemberMove.attributed (h : linker.MemberMove source s s') (hs : s.Sound)
    (hlinks : linker.Attributed s.model) : linker.Attributed s'.model := by
  intro type place links hat
  cases h.linksMade hs hat with
  | kept hkept => exact (hlinks _ _ _ hkept).after h
  | new hnew => exact hnew.linked
  | extended old added hplace hold hdeclared hlinked hwritten hall =>
    exact ((hlinks _ _ _ hold).add hlinked hdeclared hall).after h

/-- There are no links before members are linked. -/
theorem Phases.nested_unlinked {repo : RepositoryFact} {declared nested final : DraftState}
    (h : linker.Phases repo declared nested final) : Unlinked nested.model :=
  DraftM.keep_of_moves h.nests (h.declares.unlinked (skeleton_unlinked linker repo))
    fun _ _ => NestMove.unlinked

/-- **All links are to what they name when a run is over.** -/
theorem Phases.attributed {repo : RepositoryFact} {declared nested final : DraftState}
    (h : linker.Phases repo declared nested final) :
    linker.Attributed final.model := by
  have hstart : linker.Attributed nested.model :=
    h.nested_unlinked.attributed h.nested_sound.numbered
  exact h.keeps (fun s => linker.Attributed s.model) hstart
    fun _ _ hs hmove hlinks => hmove.attributed hs hlinks

/-! ## Relations -/

/-- The type counts a relation to the target: a declaration of it has a metric for a name that is no
generic parameter there, and the base of the name refers to the target. -/
def CountedFrom (linker : Linker) (source : Occurrences) (model : ReferenceModel)
    (type target : TypeId) : Prop :=
  FromProject model type fun project => ∃ outer name, source.names type outer [] name ∧
    ¬(TypeName.parse name).IsParameter outer ∧
      linker.Refers model project (TypeName.parse name).base target

/-- **All relations of a model are counted** by a declaration of their type. -/
def Counted (linker : Linker) (source : Occurrences) (model : ReferenceModel) : Prop :=
  ∀ node ∈ model.types, ∀ edge ∈ node.relations,
    linker.CountedFrom source model node.id edge.target

theorem CountedFrom.after {type target : TypeId}
    (h : linker.CountedFrom source s.model type target) (hmove : linker.MemberMove source s s') :
    linker.CountedFrom source s'.model type target := by
  refine h.keep hmove.extends ?_
  rintro project ⟨outer, name, hname, hfree, hrefers⟩
  exact ⟨outer, name, hname, hfree, hrefers.keep hmove.sameView hmove.extends⟩

/-- **Every move keeps all relations counted.** -/
theorem MemberMove.counted (h : linker.MemberMove source s s') (hs : s.Sound)
    (hcounted : linker.Counted source s.model) : linker.Counted source s'.model := by
  have hold : ∀ node ∈ s.model.types, ∀ edge ∈ node.relations,
      linker.CountedFrom source s'.model node.id edge.target :=
    fun node hnode edge hedge => (hcounted node hnode edge hedge).after h
  have hnew {type target : TypeId} (hfrom : linker.CountedFrom source s.model type target) :
      linker.CountedFrom source s'.model type target := hfrom.after h
  intro node hnode edge hedge
  cases h with
  | external h =>
    cases h
    rcases Array.mem_push.1 hnode with hnode | rfl
    · exact hold node hnode edge hedge
    · cases hedge
  | addLinks id change links hid hdeclared houtline hrelations =>
    rcases mem_modify hnode with hnode | ⟨old, hget, rfl⟩
    · exact hold node hnode edge hedge
    · have hsame : (change old).id = old.id := by
        calc (change old).id = (change old).outline.id := rfl
          _ = old.outline.id := by rw [houtline]
      rw [hrelations] at hedge
      rw [hsame]
      exact hold old (Array.mem_of_getElem? hget) edge hedge
  | addRelation id relation target count hid hdeclared htarget =>
    dsimp only at hnode
    rcases mem_modify hnode with hnode | ⟨old, hget, rfl⟩
    · exact hold node hnode edge hedge
    · have hid : old.id = id := hs.numbered.type_id hget
      rcases target_of_mem_add (List.mem_map_of_mem hedge) with hmem | heq
      · obtain ⟨other, hother, heq⟩ := List.mem_map.1 hmem
        rw [← heq]
        exact hold old (Array.mem_of_getElem? hget) other hother
      · rw [heq]
        exact hnew (hid ▸ htarget)
  | _ => exact hold node hnode edge hedge

/-- **All relations are counted when a run is over.** -/
theorem Phases.counted {repo : RepositoryFact} {declared nested final : DraftState}
    (h : linker.Phases repo declared nested final) :
    linker.Counted (linker.occurrences repo nested.model) final.model := by
  have hstart : linker.Counted (linker.occurrences repo nested.model) nested.model := by
    intro node hnode edge hedge
    rw [(h.nested_unlinked.types node hnode).2.1] at hedge
    cases hedge
  exact h.keeps (fun s => linker.Counted _ s.model) hstart
    fun _ _ hs hmove hcounted => hmove.counted hs hcounted

/-! ## The model with all lists -/

/-- A look-up sees no difference in the model with all lists. -/
theorem wire_sameView (model : ReferenceModel) : model.SameView model.wire where
  declared := by
    rw [ReferenceModel.declared, ReferenceModel.wire, Array.toList_map, List.filterMap_map]
    rfl
  paths := by
    rw [ReferenceModel.paths, ReferenceModel.wire, Array.toList_map, List.map_map]
    rfl

theorem Refers.wire {project : ProjectId} {fullName : String} {id : TypeId}
    (h : linker.Refers model project fullName id) :
    linker.Refers model.wire project fullName id := by
  obtain ⟨node, hnode, hname, hrefers⟩ := h
  refine ⟨model.wireType node, by rw [ReferenceModel.wire_type?, hnode]; rfl, hname, ?_⟩
  rw [lookupDeclared?_congr (wire_sameView model)]
  exact hrefers

theorem LinkedAll.wire {project : ProjectId} {links : List TypeLink}
    (h : linker.LinkedAll model project links) : linker.LinkedAll model.wire project links := by
  intro part hpart
  obtain ⟨tree, hparsed, hname, htarget⟩ := h part hpart
  exact ⟨tree, hparsed, hname, fun id hid => (htarget id hid).wire⟩

theorem LinksFrom.wire {type : TypeId} {links : List TypeLink}
    (h : linker.LinksFrom model type links) : linker.LinksFrom model.wire type links := by
  obtain ⟨node, project, hnode, hown, hlinked⟩ := h
  exact ⟨model.wireType node, project, by rw [ReferenceModel.wire_type?, hnode]; rfl, hown,
    hlinked.wire⟩

/-- The links that a type contains are the same in the model with all lists. -/
theorem linksAt_of_wire {type : TypeId} {place : Option MethodId} {links : List TypeLink}
    (h : model.wire.LinksAt type place links) : model.LinksAt type place links := by
  cases h with
  | type hnode =>
    obtain ⟨old, hold, rfl⟩ := Array.mem_map.1 hnode
    have hlinks := ReferenceModel.LinksAt.type hold
    exact hlinks
  | method hnode =>
    obtain ⟨old, hold, rfl⟩ := Array.mem_map.1 hnode
    have hlinks := ReferenceModel.LinksAt.method hold
    exact hlinks
  | field hnode => exact .field hnode
  | property hnode =>
    obtain ⟨old, hold, rfl⟩ := Array.mem_map.1 hnode
    have hlinks := ReferenceModel.LinksAt.property hold
    exact hlinks
  | parameter hnode hmethod =>
    rw [ReferenceModel.wire_method?] at hmethod
    obtain ⟨old, hold, rfl⟩ := Option.map_eq_some_iff.1 hmethod
    have hlinks := @ReferenceModel.LinksAt.parameter model _ old hnode hold
    exact hlinks
  | localVariable hnode hmethod =>
    rw [ReferenceModel.wire_method?] at hmethod
    obtain ⟨old, hold, rfl⟩ := Option.map_eq_some_iff.1 hmethod
    have hlinks := @ReferenceModel.LinksAt.localVariable model _ old hnode hold
    exact hlinks

/-- **All links of a linked model are to what they name**, seen from the project of the type that
contains them. -/
theorem Phases.linksFrom {repo : RepositoryFact} {declared nested final : DraftState}
    (h : linker.Phases repo declared nested final) {type : TypeId} {links : List TypeLink}
    (hlinks : final.model.wire.HasLinks type links) :
    linker.LinksFrom final.model.wire type links := by
  obtain ⟨place, hat⟩ := hlinks.linksAt
  exact (h.attributed type place links (linksAt_of_wire hat)).wire

end Linker

end FactGraph
