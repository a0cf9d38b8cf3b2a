import FactGraph.Proofs.Linking.Draft.Steps
import FactGraph.Proofs.Linking.Occurrence
import FactGraph.Proofs.Linking.Run
import FactGraph.Proofs.Name.TypeName

/-!
# The moves of a link run

All that a link run ever does to its state, as three kinds of moves, one for each phase: types and
namespaces are declared for the units in turn (`DeclareMove`), types are put into their enclosing
types (`NestMove`), members, external types and calls are linked (`MemberMove`). A move carries
what is known when it is made: the handles in it lead to nodes, a new node has the next handle, a
link was looked up from the project of the type that holds it, and is one of a name that a
declaration of the type has there.

Whatever is said of all states of a run follows from here by looking at the moves. Two such facts
are proved right away, since everything else rests on them: nodes are kept
(`ReferenceModel.Extends`), and the model stays in order (`DraftState.Sound`).

## Main definitions

* `ReferenceModel.Extends`: every node of the one model is one of the other, up to what a run may
  still change of it
* `DeclareMove`, `NestMove`, `MemberMove`: the moves of the three phases
* `DraftState.Sound`: handles are positions, and none is stray

## Main results

* `DeclareMove.extends`, `NestMove.extends`, `MemberMove.extends`: nodes are kept
* `DeclareMove.sound`, `NestMove.sound`, `MemberMove.sound`: no move makes a handle stray
-/

namespace FactGraph

/-! ## What is kept of a node -/

/-- A type without what its links say: this is what is left alone once all types are declared and
nested. -/
def TypeNode.outline (node : TypeNode) : TypeNode :=
  { node with baseTypes := [], attributes := [], relations := [] }

/-- A method without its calls, which are linked at the very end. -/
def MethodNode.outline (node : MethodNode) : MethodNode :=
  { node with calls := [] }

theorem TypeNode.header_of_outline {node node' : TypeNode} (h : node'.outline = node.outline) :
    node'.header = node.header :=
  calc node'.header = node'.outline.header := rfl
    _ = node.outline.header := by rw [h]
    _ = node.header := rfl

/-- The handles of a type are those of its outline and those of its links. -/
theorem TypeNode.handles_eq (node : TypeNode) :
    node.handles = (node.outline.memberHandles ++ nodesOf node.outline.files ++
      nodesOf node.outline.containingType.toList) ++ nodesOf node.linkTargets := rfl

namespace ReferenceModel

/-- **The larger model has every node of the smaller one**, at the same position and as it was,
up to what a run may still find out about it. -/
structure Extends (model model' : ReferenceModel) : Prop where
  count_le : ∀ kind, model.count kind ≤ model'.count kind
  projects : model'.projects = model.projects
  space? : ∀ id node, model.namespace? id = some node → model'.namespace? id = some node
  type? : ∀ id node, model.type? id = some node →
    ∃ node', model'.type? id = some node' ∧ node'.header = node.header
  method? : ∀ id node, model.method? id = some node →
    ∃ node', model'.method? id = some node' ∧ node'.outline = node.outline
  property? : ∀ id node, model.property? id = some node → model'.property? id = some node

variable {model model' model'' : ReferenceModel}

theorem Extends.refl (model : ReferenceModel) : model.Extends model where
  count_le _ := Nat.le_refl _
  projects := rfl
  space? _ _ h := h
  type? _ node h := ⟨node, h, rfl⟩
  method? _ node h := ⟨node, h, rfl⟩
  property? _ _ h := h

theorem Extends.trans (h : model.Extends model') (h' : model'.Extends model'') :
    model.Extends model'' where
  count_le kind := Nat.le_trans (h.count_le kind) (h'.count_le kind)
  projects := h'.projects.trans h.projects
  space? id node hnode := h'.space? id node (h.space? id node hnode)
  type? id node hnode := by
    obtain ⟨node₁, hnode₁, heq₁⟩ := h.type? id node hnode
    obtain ⟨node₂, hnode₂, heq₂⟩ := h'.type? id node₁ hnode₁
    exact ⟨node₂, hnode₂, heq₂.trans heq₁⟩
  method? id node hnode := by
    obtain ⟨node₁, hnode₁, heq₁⟩ := h.method? id node hnode
    obtain ⟨node₂, hnode₂, heq₂⟩ := h'.method? id node₁ hnode₁
    exact ⟨node₂, hnode₂, heq₂.trans heq₁⟩
  property? id node hnode := h'.property? id node (h.property? id node hnode)

theorem Extends.hasHandle (h : model.Extends model') {kind : NodeKind} {id : Handle kind}
    (hid : model.hasHandle id) : model'.hasHandle id :=
  hasHandle_mono h.count_le hid

end ReferenceModel

/-- An element of a list stays where it is when another one is added behind. -/
theorem getElem?_push_of_some {α : Type} {xs : Array α} {i : Nat} {x y : α}
    (h : xs[i]? = some x) : (xs.push y)[i]? = some x := by
  have hlt := (Array.getElem?_eq_some_iff.1 h).1
  rw [Array.getElem?_push_lt hlt, ← h, Array.getElem?_eq_getElem hlt]

/-- An element of a list after a change of one of its elements. -/
theorem getElem?_modify_of_some {α : Type} {xs : Array α} {i j : Nat} {f : α → α} {x : α}
    (h : xs[j]? = some x) : (xs.modify i f)[j]? = some (if i = j then f x else x) := by
  rw [Array.getElem?_modify, h]
  split <;> rfl

/-- The elements of a list after a change of one of them. -/
theorem mem_modify {α : Type} {xs : Array α} {i : Nat} {f : α → α} {y : α}
    (h : y ∈ xs.modify i f) : y ∈ xs ∨ ∃ x, xs[i]? = some x ∧ y = f x := by
  obtain ⟨j, hj⟩ := Array.mem_iff_getElem?.1 h
  rw [Array.getElem?_modify] at hj
  split at hj
  next heq =>
    obtain ⟨x, hx, rfl⟩ := Option.map_eq_some_iff.1 hj
    exact .inr ⟨x, heq ▸ hx, rfl⟩
  next => exact .inl (Array.mem_of_getElem? hj)

/-! ## The moves -/

/-- The namespace with the innermost of these full names is the given one; there is none if there
are no names. -/
def ReferenceModel.Innermost (model : ReferenceModel) (project : ProjectId) (names : List String)
    (id : Option NamespaceId) : Prop :=
  match names.getLast? with
  | none => id = none
  | some fullName => ∃ space node, id = some space ∧ model.namespace? space = some node ∧
      node.project = project ∧ node.fullName = fullName

/-- The type belongs to a project. -/
def ReferenceModel.Declared (model : ReferenceModel) (type : TypeId) : Prop :=
  ∃ node own, model.type? type = some node ∧ node.project = some own

/-- The method is one of a type of the project. -/
def ReferenceModel.MethodFrom (model : ReferenceModel) (method : MethodId) (project : ProjectId) :
    Prop :=
  ∃ node type, model.method? method = some node ∧ model.type? node.containingType = some type ∧
    type.project = some project

/-- A method stays in the project. -/
theorem ReferenceModel.MethodFrom.keep {model model' : ReferenceModel} {method : MethodId}
    {project : ProjectId} (h : model.MethodFrom method project) (hextends : model.Extends model') :
    model'.MethodFrom method project := by
  obtain ⟨node, type, hnode, htype, hproject⟩ := h
  obtain ⟨node', hnode', houtline⟩ := hextends.method? method node hnode
  obtain ⟨type', htype', hheader⟩ := hextends.type? _ type htype
  have hsame : node'.containingType = node.containingType :=
    (congrArg MethodNode.containingType houtline :)
  refine ⟨node', type', hnode', by rw [hsame]; exact htype', ?_⟩
  rw [← type'.header_project, hheader]
  exact hproject

/-- Nothing is known of the method but what it is called by. -/
structure MethodNode.Bare (node : MethodNode) : Prop where
  kind : node.kind = .method
  isSynthetic : node.isSynthetic = true
  links : node.links = []

namespace Linker

variable (linker : Linker)

/-- The node that is made for a namespace. -/
def newNamespace (model : ReferenceModel) (project : ProjectId) (fullName : String)
    (parent : Option NamespaceId) : NamespaceNode :=
  { id := ⟨model.namespaces.size⟩, name := linker.namespaceName fullName, fullName, project
    parent }

/-- The node that is made for the first declaration of a type. -/
def newType (model : ReferenceModel) (project : ProjectId) (namespaceId : Option NamespaceId)
    (fact : TypeFact) : TypeNode :=
  { id := ⟨model.types.size⟩
    name := linker.separator.lastSegment (fact.relativeName linker.separator)
    fullName := fact.fullName linker.separator
    kind := fact.kind
    project := some project
    namespaceId
    isPartial := fact.isPartial
    accessModifier := fact.accessModifier
    modifier := fact.modifier
    genericParameters := fact.genericParameters }

/-- The node that is made for an external type. -/
def newExternal (model : ReferenceModel) (fullName : String) : TypeNode :=
  { id := ⟨model.types.size⟩, name := linker.separator.lastSegment fullName, fullName
    isExternal := true }

/-- **The move by which a namespace around a declaration is made**, in the one before it. -/
inductive NamespaceMove (project : ProjectId) (fact : TypeFact) : DraftState → DraftState → Prop
  | addNamespace (s : DraftState) (outer inner : List String) (fullName : String)
      (parent : Option NamespaceId) (hproject : s.model.hasHandle project)
      (hnames : linker.namespaceNames fact = outer ++ fullName :: inner)
      (hparent : s.model.Innermost project outer parent)
      (hfresh : findNamespace? s.model project fullName = none) :
      NamespaceMove project fact s { s with model := { s.model with
        namespaces := s.model.namespaces.push
          (linker.newNamespace s.model project fullName parent) } }

/-- **The moves by which the types of a compilation unit are declared.** -/
inductive DeclareMove (unit : SourceUnit) : DraftState → DraftState → Prop
  | report (s : DraftState) (finding : Diagnostic) :
      DeclareMove unit s { s with diagnostics := s.diagnostics.push finding }
  /-- A namespace around a named declaration. -/
  | space {s s' : DraftState} (fact : TypeFact) (hfact : fact ∈ unit.fact.types)
      (hnamed : fact.isNamed) (h : linker.NamespaceMove unit.project fact s s') :
      DeclareMove unit s s'
  /-- The type of a declaration that is the first one of its fragments. -/
  | addType (s : DraftState) (fact : TypeFact) (namespaceId : Option NamespaceId)
      (hfact : fact ∈ unit.fact.types) (hnamed : fact.isNamed)
      (hproject : s.model.hasHandle unit.project)
      (hspace : s.model.Innermost unit.project (linker.namespaceNames fact) namespaceId)
      (hfresh : findFragments? s.model unit.project (fact.fullName linker.separator)
        fact.isPartial = none) :
      DeclareMove unit s { s with model := { s.model with
        types := s.model.types.push (linker.newType s.model unit.project namespaceId fact) } }
  /-- The type gets to know the file. -/
  | noteFile (s : DraftState) (id : TypeId) (hid : s.model.hasHandle id)
      (hfile : s.model.hasHandle unit.file) :
      DeclareMove unit s { s with model := { s.model with
        types := s.model.types.modify id.idx (withFile unit.file) } }
  /-- The file gets to know the type. -/
  | noteType (s : DraftState) (id : TypeId) (hid : s.model.hasHandle id)
      (hfile : s.model.hasHandle unit.file) :
      DeclareMove unit s { s with model := { s.model with
        files := s.model.files.modify unit.file.idx fun node =>
          { node with types := node.types ++ [id] } } }

/-- The fragment belongs to its type: they agree in the project, the full name and in being partial
or not. -/
structure Placed (model : ReferenceModel) (fragment : Fragment) : Prop where
  project : model.hasHandle fragment.project
  type : ∃ node, model.type? fragment.type = some node ∧ node.isExternal = false ∧
    node.project = some fragment.project ∧
    node.fullName = fragment.fact.fullName linker.separator ∧
    node.isPartial = fragment.fact.isPartial

/-- **The move by which a type is put into its enclosing type.** -/
inductive NestMove : DraftState → DraftState → Prop
  | nest (s : DraftState) (fragment : Fragment) (hplaced : linker.Placed s.model fragment) :
      NestMove s { s with model := { s.model with
        types := s.model.types.modify fragment.type.idx fun node =>
          { node with
            containingType := node.containingType.or (linker.outerType? s.model fragment) } } }

/-- Seen from a project, the full name refers to the type: either by a declaration, or because
there is no declaration that the project sees and the type is external. -/
def Refers (model : ReferenceModel) (project : ProjectId) (fullName : String) (id : TypeId) :
    Prop :=
  ∃ node, model.type? id = some node ∧ node.fullName = fullName ∧
    (node.isExternal = false ∧ linker.lookupDeclared? model fullName project = some id ∨
      node.isExternal = true ∧ linker.lookupDeclared? model fullName project = none)

/-- Seen from a project, the link is one of a written type name, to what its base refers to. -/
def Linked (model : ReferenceModel) (project : ProjectId) (link : TypeLink) : Prop :=
  ∃ tree : TypeName, tree.Parsed ∧ link.name = tree.render ∧
    ∀ id, link.target = some id → linker.Refers model project tree.base id

/-- Seen from a project, all parts of the links are to what they name. -/
def LinkedAll (model : ReferenceModel) (project : ProjectId) (links : List TypeLink) : Prop :=
  ∀ part ∈ TypeLink.partsAll links, linker.Linked model project part

/-- What is inside of a type is looked up from the project of the type. An external type has no
project; its synthetic methods are linked from the project of the first call. -/
def FromProject (model : ReferenceModel) (type : TypeId) (holds : ProjectId → Prop) : Prop :=
  ∃ node project, model.type? type = some node ∧
    (∀ own, node.project = some own → own = project) ∧ holds project

/-- The links inside of a type are to what they name, seen from its project. -/
def LinksFrom (model : ReferenceModel) (type : TypeId) (links : List TypeLink) : Prop :=
  FromProject model type fun project => linker.LinkedAll model project links

/-- A method of a type is where its kind says: an accessor in a property and a local function in a
method, both of the same type, and any other one directly in the type. A type has one destructor. -/
def MethodPlaced (model : ReferenceModel) (type : TypeId) (owner : MethodOwner) : Prop :=
  match owner.kind with
  | .accessor => owner.containingMethod = none ∧ ∃ property node,
      owner.containingProperty = some property ∧ model.property? property = some node ∧
      node.containingType = type
  | .localFunction => owner.containingProperty = none ∧ ∃ method node,
      owner.containingMethod = some method ∧ model.method? method = some node ∧
      node.containingType = type
  | .destructor => owner.containingMethod = none ∧ owner.containingProperty = none ∧
      hasDestructor model type = false
  | _ => owner.containingMethod = none ∧ owner.containingProperty = none

/-- The call is one of a declaration, set aside for a method of a declared type, with the project
of the type. -/
def Collected (source : Occurrences) (model : ReferenceModel) (pending : PendingCall) : Prop :=
  source.calls pending.call ∧ model.MethodFrom pending.caller pending.project

/-- **A call in the one type can be of a method of the other one**: the owner of the call is the
calling type itself, or one that is referred to from its project, and the method is one of the
owner or of a type that the owner inherits from. -/
def Callable (model : ReferenceModel) (caller callee : TypeId) : Prop :=
  ∃ owner, (owner = caller ∨ FromProject model caller fun project =>
      ∃ fullName, linker.Refers model project fullName owner) ∧
    Relation.ReflTransGen (fun type base => base ∈ declaredBases model type) owner callee

/-- **The move by which an external type is made**, for a full name that is introduced. -/
inductive ExternalMove (source : Occurrences) : DraftState → DraftState → Prop
  | addExternal (s : DraftState) (fullName : String)
      (hfresh : findExternal? s.model fullName = none)
      (hintroduced : source.Introduces fullName) :
      ExternalMove source s { s with model := { s.model with
        types := s.model.types.push (linker.newExternal s.model fullName) } }

/-- **The moves by which members, external types and calls are linked.** -/
inductive MemberMove (source : Occurrences) : DraftState → DraftState → Prop
  | report (s : DraftState) (finding : Diagnostic) :
      MemberMove source s { s with diagnostics := s.diagnostics.push finding }
  | postpone (s : DraftState) (call : PendingCall) (hcaller : s.model.hasHandle call.caller)
      (hproject : s.model.hasHandle call.project)
      (hcollected : Collected source s.model call) :
      MemberMove source s { s with pending := s.pending.push call }
  | external {s s' : DraftState} (h : linker.ExternalMove source s s') :
      MemberMove source s s'
  | addMethod (s : DraftState) (node : MethodNode) (hid : node.id = ⟨s.model.methods.size⟩)
      (htype : s.model.hasHandle node.containingType)
      (hplaced : MethodPlaced s.model node.containingType node.owner)
      (hparameters : node.parameters = []) (hvariables : node.localVariables = [])
      (hfunctions : node.localFunctions = []) (hcalls : node.calls = [])
      (hlinks : linker.LinksFrom s.model node.containingType node.links)
      (outer : List String) (houter : s.model.MethodParameters node.containingMethod outer)
      (hwritten : s.model.Declared node.containingType →
        source.Written node.containingType (outer ++ node.genericParameters) node.links)
      (hmember : s.model.Declared node.containingType ∨ node.Bare) :
      MemberMove source s { s with model := { s.model with
        methods := s.model.methods.push node } }
  | addField (s : DraftState) (node : FieldNode) (hid : node.id = ⟨s.model.fields.size⟩)
      (htype : s.model.hasHandle node.containingType)
      (hlinks : linker.LinksFrom s.model node.containingType node.links)
      (hwritten : s.model.Declared node.containingType →
        source.Written node.containingType [] node.links)
      (hdeclared : s.model.Declared node.containingType) :
      MemberMove source s { s with model := { s.model with fields := s.model.fields.push node } }
  | addProperty (s : DraftState) (node : PropertyNode)
      (hid : node.id = ⟨s.model.properties.size⟩)
      (htype : s.model.hasHandle node.containingType) (haccessors : node.accessors = [])
      (hlinks : linker.LinksFrom s.model node.containingType node.links)
      (hwritten : s.model.Declared node.containingType →
        source.Written node.containingType [] node.links)
      (hdeclared : s.model.Declared node.containingType) :
      MemberMove source s { s with model := { s.model with
        properties := s.model.properties.push node } }
  | addParameter (s : DraftState) (node : ParameterNode) (method : MethodNode)
      (hid : node.id = ⟨s.model.parameters.size⟩)
      (hmethod : s.model.method? node.containingMethod = some method)
      (hlinks : linker.LinksFrom s.model method.containingType node.links)
      (parameters : List String)
      (hparameters : s.model.MethodParameters (some node.containingMethod) parameters)
      (hwritten : s.model.Declared method.containingType →
        source.Written method.containingType parameters node.links) :
      MemberMove source s { s with model := { s.model with
        parameters := s.model.parameters.push node } }
  | addLocalVariable (s : DraftState) (node : LocalVariableNode) (method : MethodNode)
      (hid : node.id = ⟨s.model.localVariables.size⟩)
      (hmethod : s.model.method? node.containingMethod = some method)
      (hlinks : linker.LinksFrom s.model method.containingType node.links)
      (parameters : List String)
      (hparameters : s.model.MethodParameters (some node.containingMethod) parameters)
      (hwritten : s.model.Declared method.containingType →
        source.Written method.containingType parameters node.links)
      (hdeclared : s.model.Declared method.containingType) :
      MemberMove source s { s with model := { s.model with
        localVariables := s.model.localVariables.push node } }
  /-- A type gets further links, by base types or attributes. -/
  | addLinks (s : DraftState) (id : TypeId) (change : TypeNode → TypeNode) (links : List TypeLink)
      (hid : s.model.hasHandle id) (hdeclared : s.model.Declared id)
      (houtline : ∀ node, (change node).outline = node.outline)
      (hrelations : ∀ node, (change node).relations = node.relations)
      (hadded : ∀ node, ∀ link ∈ (change node).links, link ∈ node.links ∨ link ∈ links)
      (hlinks : linker.LinksFrom s.model id links) (hwritten : source.Written id [] links) :
      MemberMove source s { s with model := { s.model with
        types := s.model.types.modify id.idx change } }
  /-- A relation of a type to another one is counted. -/
  | addRelation (s : DraftState) (id : TypeId) (relation : RelationKind) (target : TypeId)
      (count : Nat) (hid : s.model.hasHandle id) (hdeclared : s.model.Declared id)
      (htarget : FromProject s.model id fun project => ∃ outer name,
        source.names id outer [] name ∧ ¬(TypeName.parse name).IsParameter outer ∧
          linker.Refers s.model project (TypeName.parse name).base target) :
      MemberMove source s { s with model := { s.model with
        types := s.model.types.modify id.idx fun node =>
          { node with relations := RelationEdge.add relation target count node.relations } } }
  | addCall (s : DraftState) (id : MethodId) (target : Option MethodId)
      (hid : s.model.hasHandle id) (htarget : ∀ method ∈ target, s.model.hasHandle method)
      (hcallable : ∀ method ∈ target, ∃ caller callee, s.model.method? id = some caller ∧
        s.model.method? method = some callee ∧
        linker.Callable s.model caller.containingType callee.containingType) :
      MemberMove source s { s with model := { s.model with
        methods := s.model.methods.modify id.idx fun node =>
          { node with calls := node.calls ++ [{ target }] } } }

/-! ## Nodes are kept -/

section Kept

variable {linker} {source : Occurrences} {unit : SourceUnit} {s s' : DraftState}

theorem NamespaceMove.grows {project : ProjectId} {fact : TypeFact}
    (h : linker.NamespaceMove project fact s s') : s.model.Grows s'.model := by
  cases h
  exact ReferenceModel.grows_pushNamespace rfl

theorem DeclareMove.grows (h : linker.DeclareMove unit s s') : s.model.Grows s'.model := by
  cases h with
  | report finding => exact fun _ => .inl rfl
  | space fact hfact hnamed h => exact h.grows
  | addType => exact ReferenceModel.grows_pushType rfl
  | noteFile => exact ReferenceModel.grows_modifyType _ fun _ => rfl
  | noteType => exact ReferenceModel.grows_modifyFile _ fun _ => rfl

theorem NestMove.grows (h : linker.NestMove s s') : s.model.Grows s'.model := by
  cases h
  exact ReferenceModel.grows_modifyType _ fun _ => rfl

theorem ExternalMove.grows (h : linker.ExternalMove source s s') : s.model.Grows s'.model := by
  cases h
  exact ReferenceModel.grows_pushType rfl

theorem MemberMove.grows (h : linker.MemberMove source s s') : s.model.Grows s'.model := by
  -- A new node has the next number of its kind, and a node that is changed keeps its number.
  cases h with
  | report finding => exact fun _ => .inl rfl
  | postpone call => exact fun _ => .inl rfl
  | external h => exact h.grows
  | addMethod node hid => exact ReferenceModel.grows_pushMethod hid
  | addField node hid => exact ReferenceModel.grows_pushField hid
  | addProperty node hid => exact ReferenceModel.grows_pushProperty hid
  | addParameter node method hid => exact ReferenceModel.grows_pushParameter hid
  | addLocalVariable node method hid => exact ReferenceModel.grows_pushLocalVariable hid
  | addLinks id change links hid hdeclared houtline =>
    refine ReferenceModel.grows_modifyType _ fun node => ?_
    calc (change node).id = (change node).outline.id := rfl
      _ = node.outline.id := by rw [houtline]
  | addRelation => exact ReferenceModel.grows_modifyType _ fun _ => rfl
  | addCall => exact ReferenceModel.grows_modifyMethod _ fun _ => rfl

theorem NamespaceMove.extends {project : ProjectId} {fact : TypeFact}
    (h : linker.NamespaceMove project fact s s') : s.model.Extends s'.model := by
  have hcount := h.grows.count_le
  cases h
  exact { ReferenceModel.Extends.refl s.model with
    count_le := hcount
    space? := fun _ _ hnode => getElem?_push_of_some hnode }

theorem DeclareMove.extends (h : linker.DeclareMove unit s s') : s.model.Extends s'.model := by
  have hcount := h.grows.count_le
  cases h with
  | report finding => exact .refl _
  | space fact hfact hnamed h => exact h.extends
  | addType =>
    exact { ReferenceModel.Extends.refl s.model with
      count_le := hcount
      type? := fun _ node hnode => ⟨node, getElem?_push_of_some hnode, rfl⟩ }
  | noteFile =>
    exact { ReferenceModel.Extends.refl s.model with
      count_le := hcount
      type? := fun _ _ hnode => ⟨_, getElem?_modify_of_some hnode, by split <;> rfl⟩ }
  | noteType =>
    exact { ReferenceModel.Extends.refl s.model with count_le := hcount }

theorem NestMove.extends (h : linker.NestMove s s') : s.model.Extends s'.model := by
  have hcount := h.grows.count_le
  cases h
  exact { ReferenceModel.Extends.refl s.model with
    count_le := hcount
    type? := fun _ _ hnode => ⟨_, getElem?_modify_of_some hnode, by split <;> rfl⟩ }

theorem ExternalMove.extends (h : linker.ExternalMove source s s') : s.model.Extends s'.model := by
  have hcount := h.grows.count_le
  cases h
  exact { ReferenceModel.Extends.refl s.model with
    count_le := hcount
    type? := fun _ node hnode => ⟨node, getElem?_push_of_some hnode, rfl⟩ }

theorem MemberMove.extends (h : linker.MemberMove source s s') : s.model.Extends s'.model := by
  have hcount := h.grows.count_le
  cases h with
  | report finding => exact .refl _
  | postpone call => exact .refl _
  | external h => exact h.extends
  | addMethod =>
    exact { ReferenceModel.Extends.refl s.model with
      count_le := hcount
      method? := fun _ node hnode => ⟨node, getElem?_push_of_some hnode, rfl⟩ }
  | addField => exact { ReferenceModel.Extends.refl s.model with count_le := hcount }
  | addProperty =>
    exact { ReferenceModel.Extends.refl s.model with
      count_le := hcount
      property? := fun _ _ hnode => getElem?_push_of_some hnode }
  | addParameter => exact { ReferenceModel.Extends.refl s.model with count_le := hcount }
  | addLocalVariable => exact { ReferenceModel.Extends.refl s.model with count_le := hcount }
  | addLinks id change links hid hdeclared houtline =>
    exact { ReferenceModel.Extends.refl s.model with
      count_le := hcount
      type? := fun _ node hnode => ⟨_, getElem?_modify_of_some hnode, by
        split
        · exact TypeNode.header_of_outline (houtline node)
        · rfl⟩ }
  | addRelation =>
    exact { ReferenceModel.Extends.refl s.model with
      count_le := hcount
      type? := fun _ _ hnode => ⟨_, getElem?_modify_of_some hnode, by split <;> rfl⟩ }
  | addCall =>
    exact { ReferenceModel.Extends.refl s.model with
      count_le := hcount
      method? := fun _ _ hnode => ⟨_, getElem?_modify_of_some hnode, by split <;> rfl⟩ }

end Kept

/-! ## No handle is stray -/

end Linker

/-- **The state is in order**: every node stands where its handle says, every handle that a node
stores leads to a node, and so do the handles of the calls set aside. -/
structure DraftState.Sound (s : DraftState) : Prop where
  numbered : s.model.Numbered
  closed : s.model.Closed
  /-- The types without a project are the external ones. -/
  external : ∀ node ∈ s.model.types, node.isExternal = node.project.isNone
  pending : ∀ call ∈ s.pending, s.model.hasHandle call.caller ∧ s.model.hasHandle call.project

namespace Linker

section Sound

variable {linker : Linker} {source : Occurrences} {unit : SourceUnit} {s s' : DraftState}

/-- A type that a project refers to is there. -/
theorem Refers.hasHandle {model : ReferenceModel} {project : ProjectId} {fullName : String}
    {id : TypeId} (h : linker.Refers model project fullName id) : model.hasHandle id := by
  obtain ⟨node, hnode, -⟩ := h
  exact ReferenceModel.hasHandle_of_type hnode

theorem LinksFrom.hasHandle {model : ReferenceModel} {type : TypeId} {links : List TypeLink}
    (h : linker.LinksFrom model type links) {id : TypeId} (hid : id ∈ TypeLink.targetsAll links) :
    model.hasHandle id := by
  obtain ⟨_, project, -, -, hlinked⟩ := h
  obtain ⟨part, hpart, htarget⟩ := TypeLink.exists_part_of_all hid
  obtain ⟨tree, -, -, hrefers⟩ := hlinked part hpart
  exact (hrefers id htarget).hasHandle

/-- The handles of a new member lead to nodes: it is in a node that is there, and so are the types
that it refers to. -/
theorem LinksFrom.contains_member {model : ReferenceModel} {type : TypeId}
    {links : List TypeLink} {kind : NodeKind} {owner : Handle kind}
    (h : linker.LinksFrom model type links) (howner : model.hasHandle owner)
    {node : ModelNode} (hnode : node ∈ nodesOf [owner] ++ nodesOf (TypeLink.targetsAll links)) :
    model.contains node := by
  rcases List.mem_append.1 hnode with hnode | hnode
  · obtain ⟨id, hid, rfl⟩ := mem_nodesOf.1 hnode
    obtain rfl := List.mem_singleton.1 hid
    exact howner
  · obtain ⟨id, hid, rfl⟩ := mem_nodesOf.1 hnode
    exact h.hasHandle hid

/-- The innermost of the namespaces of a declaration is there. -/
theorem hasHandle_of_innermost {model : ReferenceModel} {project : ProjectId}
    {names : List String} {id : Option NamespaceId} (h : model.Innermost project names id)
    {space : NamespaceId} (hid : id = some space) : model.hasHandle space := by
  subst hid
  unfold ReferenceModel.Innermost at h
  split at h
  · cases h
  · obtain ⟨_, node, heq, hnode, -⟩ := h
    cases heq
    exact ReferenceModel.hasHandle_of_namespace hnode

/-- The handles in a list of nodes with one more node. -/
theorem mem_flatMap_push {α : Type} {xs : Array α} {x : α} {handles : α → List ModelNode}
    {node : ModelNode} (h : node ∈ (xs.push x).toList.flatMap handles) :
    node ∈ xs.toList.flatMap handles ∨ node ∈ handles x := by
  simpa [Array.toList_push] using h

/-- The handles of a node of a list. -/
theorem mem_flatMap_of_getElem? {α : Type} {xs : Array α} {i : Nat} {x : α}
    {handles : α → List ModelNode} {node : ModelNode} (hx : xs[i]? = some x)
    (h : node ∈ handles x) : node ∈ xs.toList.flatMap handles :=
  List.mem_flatMap.2 ⟨x, Array.mem_toList_iff.2 (Array.mem_of_getElem? hx), h⟩

/-- The handles in a list of nodes one of which is changed: those that were there, and what the
change brings in. -/
theorem mem_flatMap_modify {α : Type} {xs : Array α} {i : Nat} {f : α → α}
    {handles : α → List ModelNode} {node : ModelNode} {new : Prop}
    (h : node ∈ (xs.modify i f).toList.flatMap handles)
    (hchange : ∀ x, node ∈ handles (f x) → node ∈ handles x ∨ new) :
    node ∈ xs.toList.flatMap handles ∨ new := by
  obtain ⟨y, hy, hnode⟩ := List.mem_flatMap.1 h
  rcases mem_modify (Array.mem_toList_iff.1 hy) with hy | ⟨x, hx, rfl⟩
  · exact .inl (List.mem_flatMap.2 ⟨y, Array.mem_toList_iff.2 hy, hnode⟩)
  · exact (hchange x hnode).imp_left (mem_flatMap_of_getElem? hx)

/-- The handles of a type that got to know a file. -/
theorem mem_handles_withFile {type : TypeNode} {file : FileId} {node : ModelNode}
    (h : node ∈ (withFile file type).handles) : node ∈ type.handles ∨ node = .of file := by
  simp only [withFile, TypeNode.handles, List.mem_append] at h ⊢
  rcases h with ((h | h) | h) | h
  · exact .inl (.inl (.inl (.inl h)))
  · split at h
    · exact .inl (.inl (.inl (.inr h)))
    · rw [nodesOf_append, List.mem_append] at h
      exact h.imp (fun hold => .inl (.inl (.inr hold))) (by simp [eq_comm])
  · exact .inl (.inl (.inr h))
  · exact .inl (.inr h)

/-- The handles that a declaring move stores lead to nodes. -/
theorem DeclareMove.stores (h : linker.DeclareMove unit s s') (kind : NodeKind) :
    ∀ node ∈ s'.model.handlesIn kind, node ∈ s.model.handlesIn kind ∨ s.model.contains node := by
  intro node hnode
  cases h with
  | report finding => exact .inl hnode
  | space fact hfact hnamed h =>
    obtain ⟨outer, inner, fullName, parent, hproject, hnames, hparent, hfresh⟩ := h
    cases kind
    case space =>
      refine (mem_flatMap_push hnode).imp_right fun hnew => ?_
      simp only [NamespaceNode.handles, newNamespace, nodesOf_nil, List.append_nil,
        List.mem_append, mem_nodesOf, List.mem_singleton, Option.mem_toList] at hnew
      rcases hnew with ⟨_, rfl, rfl⟩ | ⟨space, hspace, rfl⟩
      · exact hproject
      · exact hasHandle_of_innermost hparent hspace
    all_goals exact .inl hnode
  | addType fact namespaceId hfact hnamed hproject hspace hfresh =>
    cases kind
    case type =>
      refine (mem_flatMap_push hnode).imp_right fun hnew => ?_
      simp only [TypeNode.handles, TypeNode.memberHandles, TypeNode.linkTargets, TypeNode.links,
        TypeLink.targetsAll, newType, Option.toList_none, Option.toList_some,
        List.map_nil, nodesOf_nil, List.append_nil, List.mem_append, mem_nodesOf,
        List.mem_singleton, Option.mem_toList] at hnew
      rcases hnew with ⟨_, rfl, rfl⟩ | ⟨space, heq, rfl⟩
      · exact hproject
      · exact hasHandle_of_innermost hspace heq
    all_goals exact .inl hnode
  | noteFile id hid hfile =>
    cases kind
    case type =>
      refine mem_flatMap_modify hnode fun type hnew => ?_
      rcases mem_handles_withFile hnew with hold | rfl
      · exact .inl hold
      · exact .inr hfile
    all_goals exact .inl hnode
  | noteType id hid hfile =>
    cases kind
    case file =>
      refine mem_flatMap_modify hnode fun file hnew => ?_
      rw [FileNode.handles, nodesOf_append, ← List.append_assoc, List.mem_append] at hnew
      refine hnew.imp_right fun hnew => ?_
      obtain ⟨_, hmem, rfl⟩ := mem_nodesOf.1 hnew
      obtain rfl := List.mem_singleton.1 hmem
      exact hid
    all_goals exact .inl hnode

/-- A type that is found by its position is there. -/
theorem hasHandle_of_findIdx? {model : ReferenceModel} {matches? : TypeNode → Bool} {id : TypeId}
    (h : (model.types.findIdx? matches?).map Handle.mk = some id) : model.hasHandle id := by
  obtain ⟨i, hi, rfl⟩ := Option.map_eq_some_iff.1 h
  exact decide_eq_true (Array.findIdx?_eq_some_iff_getElem.1 hi).1

/-- The type that a fragment says it is nested in is there. -/
theorem hasHandle_of_outerType? {model : ReferenceModel} {fragment : Fragment} {id : TypeId}
    (h : linker.outerType? model fragment = some id) : model.hasHandle id := by
  unfold outerType? at h
  split at h
  · exact hasHandle_of_findIdx? h
  · cases h

/-- The handles that a nesting move stores lead to nodes. -/
theorem NestMove.stores (h : linker.NestMove s s') (kind : NodeKind) :
    ∀ node ∈ s'.model.handlesIn kind, node ∈ s.model.handlesIn kind ∨ s.model.contains node := by
  intro node hnode
  cases h with
  | nest fragment hplaced =>
    cases kind
    case type =>
      refine mem_flatMap_modify hnode fun type hnew => ?_
      simp only [TypeNode.handles, List.mem_append] at hnew ⊢
      rcases hnew with ((hnew | hnew) | hnew) | hnew
      · exact .inl (.inl (.inl (.inl hnew)))
      · exact .inl (.inl (.inl (.inr hnew)))
      · -- An enclosing type that is known already is kept.
        simp only [mem_nodesOf, Option.mem_toList] at hnew ⊢
        obtain ⟨id, hid, rfl⟩ := hnew
        rcases Option.or_eq_some_iff.1 hid with hid | ⟨-, hid⟩
        · exact .inl (.inl (.inr ⟨id, hid, rfl⟩))
        · exact .inr (hasHandle_of_outerType? hid)
      · exact .inl (.inr hnew)
    all_goals exact .inl hnode

/-- The targets of relations after the count of one was raised. -/
theorem target_of_mem_add {relation : RelationKind} {target : TypeId} {count : Nat}
    {edges : List RelationEdge} {id : TypeId}
    (h : id ∈ (RelationEdge.add relation target count edges).map RelationEdge.target) :
    id ∈ edges.map RelationEdge.target ∨ id = target := by
  induction edges with
  | nil => simpa [RelationEdge.add] using h
  | cons edge edges ih =>
    unfold RelationEdge.add at h
    split at h
    · exact .inl h
    · rcases List.mem_cons.1 h with rfl | h
      · exact .inl (by simp)
      · exact (ih h).imp_left (List.mem_cons_of_mem _)

/-- The method and the property that a method is in are there. -/
theorem MethodPlaced.contains {model : ReferenceModel} {type : TypeId} {owner : MethodOwner}
    (h : MethodPlaced model type owner) {other : ModelNode}
    (hother : other ∈ nodesOf owner.containingMethod.toList ++
      nodesOf owner.containingProperty.toList) : model.contains other := by
  simp only [List.mem_append, mem_nodesOf, Option.mem_toList] at hother
  unfold MethodPlaced at h
  split at h
  · obtain ⟨hmethod, property, node, hproperty, hnode, -⟩ := h
    rcases hother with ⟨id, hid, rfl⟩ | ⟨id, hid, rfl⟩
    · simp [hmethod] at hid
    · obtain rfl : property = id := by simpa [hproperty] using hid
      exact ReferenceModel.hasHandle_of_property hnode
  · obtain ⟨hproperty, method, node, hmethod, hnode, -⟩ := h
    rcases hother with ⟨id, hid, rfl⟩ | ⟨id, hid, rfl⟩
    · obtain rfl : method = id := by simpa [hmethod] using hid
      exact ReferenceModel.hasHandle_of_method hnode
    · simp [hproperty] at hid
  · simp [h.1, h.2.1] at hother
  · simp [h.1, h.2] at hother

/-- The handles of a type that got further links. -/
theorem mem_handles_addLinks {type changed : TypeNode} {links : List TypeLink} {node : ModelNode}
    (houtline : changed.outline = type.outline) (hrelations : changed.relations = type.relations)
    (hadded : ∀ link ∈ changed.links, link ∈ type.links ∨ link ∈ links)
    (h : node ∈ changed.handles) :
    node ∈ type.handles ∨ node ∈ nodesOf (TypeLink.targetsAll links) := by
  rw [TypeNode.handles_eq, houtline, List.mem_append] at h
  rw [TypeNode.handles_eq, List.mem_append]
  rcases h with hold | hnew
  · exact .inl (.inl hold)
  · obtain ⟨target, hmem, rfl⟩ := mem_nodesOf.1 hnew
    rw [TypeNode.linkTargets, hrelations, List.mem_append] at hmem
    simp only [TypeNode.linkTargets, mem_nodesOf, List.mem_append]
    rcases hmem with hmem | hmem
    · -- A target of a link: of one that was there, or of a new one.
      obtain ⟨link, hlink, htarget⟩ := TypeLink.mem_targetsAll.1 hmem
      rcases hadded link hlink with hlink | hlink
      · exact .inl (.inr ⟨target, .inl (TypeLink.mem_targetsAll.2 ⟨link, hlink, htarget⟩), rfl⟩)
      · exact .inr ⟨target, TypeLink.mem_targetsAll.2 ⟨link, hlink, htarget⟩, rfl⟩
    · exact .inl (.inr ⟨target, .inr hmem, rfl⟩)

/-- The handles of a type with one more relation. -/
theorem mem_handles_addRelation {type : TypeNode} {relation : RelationKind} {target : TypeId}
    {count : Nat} {node : ModelNode}
    (h : node ∈ TypeNode.handles { type with
      relations := RelationEdge.add relation target count type.relations }) :
    node ∈ type.handles ∨ node = .of target := by
  simp only [TypeNode.handles, TypeNode.linkTargets, nodesOf_append, List.mem_append] at h ⊢
  rcases h with hold | hold | hnew
  · exact .inl (.inl hold)
  · exact .inl (.inr (.inl hold))
  · obtain ⟨other, hmem, rfl⟩ := mem_nodesOf.1 hnew
    rcases target_of_mem_add hmem with hold | rfl
    · exact .inl (.inr (.inr (mem_nodesOf.2 ⟨other, hold, rfl⟩)))
    · exact .inr rfl

/-- The handles of a method that is being made: it is empty, so they lead to where it stands and
to what its links refer to. -/
theorem mem_handles_made {method : MethodNode} {node : ModelNode}
    (hparameters : method.parameters = []) (hvariables : method.localVariables = [])
    (hfunctions : method.localFunctions = []) (hcalls : method.calls = [])
    (h : node ∈ method.handles) :
    node = .of method.containingType ∨
      node ∈ nodesOf method.owner.containingMethod.toList ++
        nodesOf method.owner.containingProperty.toList ∨
      node ∈ nodesOf (TypeLink.targetsAll method.links) := by
  simp only [MethodNode.handles, MethodNode.memberHandles, MethodNode.callTargets, hparameters,
    hvariables, hfunctions, hcalls, List.filterMap_nil, nodesOf_nil, List.append_nil] at h
  rw [List.append_assoc (nodesOf _), List.mem_append, List.mem_append] at h
  rcases h with (htype | howner) | hlink
  · obtain ⟨id, hmem, rfl⟩ := mem_nodesOf.1 htype
    obtain rfl := List.mem_singleton.1 hmem
    exact .inl rfl
  · exact .inr (.inl howner)
  · exact .inr (.inr hlink)

/-- The handles of a method with one more call. -/
theorem mem_handles_addCall {method : MethodNode} {target : Option MethodId} {node : ModelNode}
    (h : node ∈ MethodNode.handles { method with calls := method.calls ++ [{ target }] }) :
    node ∈ method.handles ∨ ∃ callee, target = some callee ∧ node = .of callee := by
  rw [MethodNode.handles, MethodNode.callTargets, List.filterMap_append, nodesOf_append,
    ← List.append_assoc, List.mem_append] at h
  refine h.imp_right fun hnew => ?_
  obtain ⟨callee, hmem, rfl⟩ := mem_nodesOf.1 hnew
  exact ⟨callee, by simpa using hmem, rfl⟩

/-- The handles that a linking move stores lead to nodes. -/
theorem MemberMove.stores (h : linker.MemberMove source s s') (kind : NodeKind) :
    ∀ node ∈ s'.model.handlesIn kind, node ∈ s.model.handlesIn kind ∨ s.model.contains node := by
  intro node hnode
  -- Each move changes the nodes of one kind, so the handles of the other kinds are the old ones.
  cases h with
  | report finding => exact .inl hnode
  | postpone call => exact .inl hnode
  | external h =>
    cases h
    cases kind
    case type =>
      refine (mem_flatMap_push hnode).imp_right fun hnew => ?_
      simp [TypeNode.handles, TypeNode.memberHandles, TypeNode.linkTargets, TypeNode.links,
        TypeLink.targetsAll, newExternal] at hnew
    all_goals exact .inl hnode
  | addMethod method hid htype hplaced hparameters hvariables hfunctions hcalls hlinks =>
    cases kind
    case method =>
      refine (mem_flatMap_push hnode).imp_right fun hnew => ?_
      rcases mem_handles_made hparameters hvariables hfunctions hcalls hnew with
        rfl | howner | hlink
      · exact htype
      · exact hplaced.contains howner
      · obtain ⟨id, hmem, rfl⟩ := mem_nodesOf.1 hlink
        exact hlinks.hasHandle hmem
    all_goals exact .inl hnode
  | addField field hid htype hlinks =>
    cases kind
    case field =>
      refine (mem_flatMap_push hnode).imp_right fun hnew => ?_
      exact hlinks.contains_member htype hnew
    all_goals exact .inl hnode
  | addProperty property hid htype haccessors hlinks =>
    cases kind
    case property =>
      refine (mem_flatMap_push hnode).imp_right fun hnew => ?_
      rw [PropertyNode.handles, haccessors, nodesOf_nil, List.append_nil] at hnew
      exact hlinks.contains_member htype hnew
    all_goals exact .inl hnode
  | addParameter parameter method hid hmethod hlinks =>
    cases kind
    case parameter =>
      refine (mem_flatMap_push hnode).imp_right fun hnew => ?_
      exact hlinks.contains_member
        (ReferenceModel.hasHandle_of_method hmethod) hnew
    all_goals exact .inl hnode
  | addLocalVariable declared method hid hmethod hlinks =>
    cases kind
    case localVariable =>
      refine (mem_flatMap_push hnode).imp_right fun hnew => ?_
      exact hlinks.contains_member
        (ReferenceModel.hasHandle_of_method hmethod) hnew
    all_goals exact .inl hnode
  | addLinks id change links hid hdeclared houtline hrelations hadded hlinks =>
    cases kind
    case type =>
      refine mem_flatMap_modify hnode fun type hnew => ?_
      refine (mem_handles_addLinks (houtline type) (hrelations type) (hadded type)
        hnew).imp_right fun hnew => ?_
      obtain ⟨target, hmem, rfl⟩ := mem_nodesOf.1 hnew
      exact hlinks.hasHandle hmem
    all_goals exact .inl hnode
  | addRelation id relation target count hid hdeclared htarget =>
    cases kind
    case type =>
      refine mem_flatMap_modify hnode fun type hnew => ?_
      rcases mem_handles_addRelation hnew with hold | rfl
      · exact .inl hold
      · obtain ⟨_, project, -, -, _, _, -, -, hrefers⟩ := htarget
        exact .inr hrefers.hasHandle
    all_goals exact .inl hnode
  | addCall id target hid htarget =>
    cases kind
    case method =>
      refine mem_flatMap_modify hnode fun method hnew => ?_
      refine (mem_handles_addCall hnew).imp_right ?_
      rintro ⟨callee, hcallee, rfl⟩
      exact htarget callee hcallee
    all_goals exact .inl hnode

/-! ### The state stays in order -/

/-- A state stays in order when its model grows, if the new handles lead to nodes. -/
theorem sound_of_grows (hs : s.Sound) (hgrows : s.model.Grows s'.model)
    (hstores : ∀ kind, ∀ node ∈ s'.model.handlesIn kind,
      node ∈ s.model.handlesIn kind ∨ s.model.contains node)
    (hexternal : ∀ node ∈ s'.model.types, node.isExternal = node.project.isNone)
    (hpending : ∀ call ∈ s'.pending, call ∈ s.pending ∨
      s.model.hasHandle call.caller ∧ s.model.hasHandle call.project) : s'.Sound where
  numbered := hgrows.numbered hs.numbered
  closed := hgrows.closed hs.closed hstores
  external := hexternal
  pending call hcall := by
    have ⟨hcaller, hproject⟩ := (hpending call hcall).elim (hs.pending call) id
    exact ⟨ReferenceModel.hasHandle_mono hgrows.count_le hcaller,
      ReferenceModel.hasHandle_mono hgrows.count_le hproject⟩

/-- A type that is changed behind its header is external or not, as before. -/
theorem external_modify {types : Array TypeNode} {i : Nat} {change : TypeNode → TypeNode}
    {node : TypeNode} (hnode : node ∈ types ∨ ∃ old, types[i]? = some old ∧ node = change old)
    (h : ∀ node ∈ types, node.isExternal = node.project.isNone)
    (hchange : ∀ node, (change node).header = node.header) :
    node.isExternal = node.project.isNone := by
  rcases hnode with hnode | ⟨old, hold, rfl⟩
  · exact h node hnode
  · calc (change old).isExternal = (change old).header.isExternal := rfl
      _ = old.header.isExternal := by rw [hchange]
      _ = old.header.project.isNone := h old (Array.mem_of_getElem? hold)
      _ = (change old).header.project.isNone := by rw [hchange]

theorem DeclareMove.sound (h : linker.DeclareMove unit s s') (hs : s.Sound) : s'.Sound := by
  refine sound_of_grows hs h.grows h.stores ?_ fun call hcall => .inl ?_
  · cases h with
    | addType =>
      intro node hnode
      rcases Array.mem_push.1 hnode with hnode | rfl
      · exact hs.external node hnode
      · rfl
    | noteFile =>
      intro node hnode
      dsimp only at hnode
      exact external_modify (mem_modify hnode) hs.external fun _ => rfl
    | space fact hfact hnamed h =>
      cases h
      exact hs.external
    | _ => exact hs.external
  · cases h with
    | space fact hfact hnamed h =>
      cases h
      exact hcall
    | _ => exact hcall

theorem NestMove.sound (h : linker.NestMove s s') (hs : s.Sound) : s'.Sound := by
  refine sound_of_grows hs h.grows h.stores ?_ fun call hcall => .inl ?_
  · cases h
    intro node hnode
    dsimp only at hnode
    exact external_modify (mem_modify hnode) hs.external fun _ => rfl
  · cases h
    exact hcall

theorem MemberMove.sound (h : linker.MemberMove source s s') (hs : s.Sound) : s'.Sound := by
  refine sound_of_grows hs h.grows h.stores ?_ fun call hcall => ?_
  · cases h with
    | external h =>
      cases h
      intro node hnode
      rcases Array.mem_push.1 hnode with hnode | rfl
      · exact hs.external node hnode
      · rfl
    | addLinks id change links hid hdeclared houtline =>
      intro node hnode
      exact external_modify (mem_modify hnode) hs.external fun node =>
        TypeNode.header_of_outline (houtline node)
    | addRelation =>
      intro node hnode
      dsimp only at hnode
      exact external_modify (mem_modify hnode) hs.external fun _ => rfl
    | _ => exact hs.external
  · cases h with
    | postpone late hcaller hproject =>
      rcases Array.mem_push.1 hcall with hcall | rfl
      · exact .inl hcall
      · exact .inr ⟨hcaller, hproject⟩
    | external h =>
      cases h
      exact .inl hcall
    | _ => exact .inl hcall

/-! ### Many moves -/

open Relation (ReflTransGen)

/-- A run keeps nodes if its moves do. -/
theorem extends_of_moves {move : DraftState → DraftState → Prop}
    (hmove : ∀ s s', move s s' → s.model.Extends s'.model) (h : ReflTransGen move s s') :
    s.model.Extends s'.model := by
  induction h with
  | refl => exact .refl _
  | tail _ hlast ih => exact ih.trans (hmove _ _ hlast)

theorem declareMoves_extends (h : ReflTransGen (linker.DeclareMove unit) s s') :
    s.model.Extends s'.model :=
  extends_of_moves (fun _ _ => DeclareMove.extends) h

theorem declareMoves_sound (h : ReflTransGen (linker.DeclareMove unit) s s') (hs : s.Sound) :
    s'.Sound :=
  DraftM.keep_of_moves h hs fun _ _ => DeclareMove.sound

theorem nestMoves_extends (h : ReflTransGen linker.NestMove s s') : s.model.Extends s'.model :=
  extends_of_moves (fun _ _ => NestMove.extends) h

theorem nestMoves_sound (h : ReflTransGen linker.NestMove s s') (hs : s.Sound) : s'.Sound :=
  DraftM.keep_of_moves h hs fun _ _ => NestMove.sound

theorem memberMoves_extends (h : ReflTransGen (linker.MemberMove source) s s') :
    s.model.Extends s'.model :=
  extends_of_moves (fun _ _ => MemberMove.extends) h

theorem memberMoves_sound (h : ReflTransGen (linker.MemberMove source) s s') (hs : s.Sound) :
    s'.Sound :=
  DraftM.keep_of_moves h hs fun _ _ => MemberMove.sound

end Sound

end Linker

end FactGraph
