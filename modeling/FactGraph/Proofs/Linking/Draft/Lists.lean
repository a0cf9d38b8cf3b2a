import FactGraph.Proofs.Linking.Draft.Contents
import FactGraph.Proofs.Model.Handles

/-!
# The lists in the middle of a link run

While a repository is linked, the lists of members grow along with the nodes: a field is entered in
its type when it is made, a parameter in its method, and a method in what it belongs to as soon as
all that is in it has been linked. The lists of the outer nodes are still empty. So at every moment
the lists are what can be read off the nodes, but for the methods that wait to be entered. Here is
what the model looks like then, and how it changes with each node that is added or entered.

A list is in the order of the nodes, and a waiting method is entered at the end of a list. That the
two agree is because the methods made after a waiting one are in none of the lists that it will be
in.

## Main definitions

* `ReferenceModel.listed`: the model with its lists of members, without the waiting methods

## Main results

* `listed_pushField` and its like: what a new node adds to the lists
* `listed_pushMethod`, `listed_enter`: a method waits first, and is entered later
* `listed_modifyType`, `listed_modifyMethod`: changes of nodes that leave the lists alone
-/

namespace FactGraph

/-- Two ways to change all nodes of a list, if they are different for the node of one handle. -/
theorem map_eq_modify {α β : Type} {kind : NodeKind} {nodes : Array α} {nodeId : α → Handle kind}
    (hids : ∀ (id : Handle kind) node, nodes[id.idx]? = some node → nodeId node = id)
    {f g : α → β} {change : β → β} (id : Handle kind)
    (hat : ∀ node, nodeId node = id → f node = change (g node))
    (helse : ∀ node, nodeId node ≠ id → f node = g node) :
    nodes.map f = (nodes.map g).modify id.idx change := by
  refine Array.ext_getElem? fun i => ?_
  rw [Array.getElem?_map, Array.getElem?_modify, Array.getElem?_map]
  cases hnode : nodes[i]? with
  | none => simp
  | some node =>
    have hi : nodeId node = ⟨i⟩ := hids ⟨i⟩ node hnode
    by_cases heq : id.idx = i
    · subst heq
      simp [hat node hi]
    · have hne : nodeId node ≠ id := by
        rw [hi]
        rintro rfl
        exact heq rfl
      simp [heq, helse node hne]

/-- A node is changed before or after all nodes are. -/
theorem map_modify {α β : Type} {nodes : Array α} {f : α → β} {before : α → α} {after : β → β}
    (i : Nat) (h : ∀ node, f (before node) = after (f node)) :
    (nodes.modify i before).map f = (nodes.map f).modify i after := by
  refine Array.ext_getElem? fun j => ?_
  rw [Array.getElem?_map, Array.getElem?_modify, Array.getElem?_modify, Array.getElem?_map]
  cases nodes[j]? with
  | none => simp
  | some node => by_cases hj : i = j <;> simp [hj, h]

namespace ReferenceModel

variable (model : ReferenceModel) (waiting : List MethodId)

/-! ## The model with its lists -/

/-- The methods that satisfy a condition and do not wait any more. -/
def enteredWhere (condition : MethodNode → Bool) : List MethodId :=
  handlesWhere model.methods (fun node => condition node && !waiting.contains node.id)
    MethodNode.id

/-- A project that knows which solutions list it. What is in it comes at the end of a run. -/
def listProject (node : ProjectNode) : ProjectNode :=
  { node with solutions := model.solutionsListing node.id, files := [], namespaces := [] }

/-- A type with its members. The types in it come at the end of a run. -/
def listType (node : TypeNode) : TypeNode :=
  { node with
    nestedTypes := []
    fields := model.fieldsIn node.id
    properties := model.propertiesIn node.id
    methods := model.enteredWhere waiting fun method =>
      method.containingType = node.id && method.kind = .method
    constructors := model.enteredWhere waiting fun method =>
      method.containingType = node.id && method.kind = .constructor
    destructor := (model.enteredWhere waiting fun method =>
      method.containingType = node.id && method.kind = .destructor).head? }

/-- A method with its parameters, its local variables and its local functions. -/
def listMethod (node : MethodNode) : MethodNode :=
  { node with
    parameters := model.parametersIn node.id
    localVariables := model.localVariablesIn node.id
    localFunctions := model.enteredWhere waiting fun method =>
      method.containingMethod = some node.id }

/-- A property with its accessors. -/
def listProperty (node : PropertyNode) : PropertyNode :=
  { node with
    accessors := model.enteredWhere waiting fun method =>
      method.containingProperty = some node.id }

/-- **The model with its lists of members**, without the methods that wait to be entered. -/
def listed : ReferenceModel :=
  { model with
    solutions := model.solutions.map fun node => { node with projects := [] }
    projects := model.projects.map model.listProject
    namespaces := model.namespaces.map fun node => { node with children := [], types := [] }
    types := model.types.map (model.listType waiting)
    methods := model.methods.map (model.listMethod waiting)
    properties := model.properties.map (model.listProperty waiting)
    createdClasses := handlesWhere model.types TypeNode.isExternal TypeNode.id }

variable {model waiting}

@[simp] theorem listed_count (kind : NodeKind) :
    (model.listed waiting).count kind = model.count kind := by
  cases kind <;> simp [count, listed]

@[simp] theorem listed_hasHandle {kind : NodeKind} (id : Handle kind) :
    (model.listed waiting).hasHandle id = model.hasHandle id := by
  simp [hasHandle]

theorem listed_project? (id : ProjectId) :
    (model.listed waiting).project? id = (model.project? id).map model.listProject := by
  simp [project?, listed]

theorem listed_type? (id : TypeId) :
    (model.listed waiting).type? id = (model.type? id).map (model.listType waiting) := by
  simp [type?, listed]

theorem listed_method? (id : MethodId) :
    (model.listed waiting).method? id = (model.method? id).map (model.listMethod waiting) := by
  simp [method?, listed]

theorem listed_parameter? (id : ParameterId) :
    (model.listed waiting).parameter? id = model.parameter? id := rfl

/-! ## Nodes that are picked -/

section Picked

variable {α : Type} {kind : NodeKind} {nodes : Array α} {condition : α → Bool}
  {id : α → Handle kind}

theorem handlesWhere_push (node : α) :
    handlesWhere (nodes.push node) condition id =
      handlesWhere nodes condition id ++ if condition node then [id node] else [] := by
  cases h : condition node <;> simp [handlesWhere, h]

theorem handlesWhere_eq_nil (h : ∀ node ∈ nodes, condition node = false) :
    handlesWhere nodes condition id = [] := by
  rw [handlesWhere, List.filter_eq_nil_iff.2 fun node hnode => ?_, List.map_nil]
  simp [h node (Array.mem_toList_iff.1 hnode)]

theorem handlesWhere_eq_filterMap :
    handlesWhere nodes condition id =
      nodes.toList.filterMap fun node => if condition node then some (id node) else none := by
  rw [handlesWhere, ← List.filterMap_eq_map, List.filterMap_filter]
  rfl

/-- The same nodes are picked if the change of one of them does not show. -/
theorem handlesWhere_modify {change : α → α} (i : Nat)
    (hcondition : ∀ node, condition (change node) = condition node)
    (hid : ∀ node, id (change node) = id node) :
    handlesWhere (nodes.modify i change) condition id = handlesWhere nodes condition id := by
  rw [handlesWhere_eq_filterMap, handlesWhere_eq_filterMap]
  exact filterMap_toList_modify fun node => by rw [hcondition, hid]

end Picked

/-! ## New types and namespaces -/

/-- What the nodes of the one model are contained in is there in the other one. -/
structure HousedIn (nodes model : ReferenceModel) : Prop where
  fields : ∀ node ∈ nodes.fields, model.hasHandle node.containingType
  properties : ∀ node ∈ nodes.properties, model.hasHandle node.containingType
  methods : ∀ node ∈ nodes.methods, model.hasHandle node.containingType
  localFunctions : ∀ node ∈ nodes.methods, ∀ id, node.containingMethod = some id →
    model.hasHandle id
  accessors : ∀ node ∈ nodes.methods, ∀ id, node.containingProperty = some id →
    model.hasHandle id
  parameters : ∀ node ∈ nodes.parameters, model.hasHandle node.containingMethod
  localVariables : ∀ node ∈ nodes.localVariables, model.hasHandle node.containingMethod

/-- What a node is contained in is there. -/
abbrev Housed (model : ReferenceModel) : Prop :=
  model.HousedIn model

theorem HousedIn.mono {nodes larger : ReferenceModel} (h : nodes.HousedIn model)
    (hcount : ∀ kind, model.count kind ≤ larger.count kind) : nodes.HousedIn larger where
  fields node hnode := hasHandle_mono hcount (h.fields node hnode)
  properties node hnode := hasHandle_mono hcount (h.properties node hnode)
  methods node hnode := hasHandle_mono hcount (h.methods node hnode)
  localFunctions node hnode id hid := hasHandle_mono hcount (h.localFunctions node hnode id hid)
  accessors node hnode id hid := hasHandle_mono hcount (h.accessors node hnode id hid)
  parameters node hnode := hasHandle_mono hcount (h.parameters node hnode)
  localVariables node hnode := hasHandle_mono hcount (h.localVariables node hnode)

/-- A handle that leads to a node is not the next one. -/
theorem ne_next {kind : NodeKind} {id : Handle kind} (h : model.hasHandle id) :
    id ≠ ⟨model.count kind⟩ := by
  rintro rfl
  simp [hasHandle] at h

/-- **A new type** is added without members. -/
theorem listed_pushType (h : model.Housed) {node : TypeNode}
    (hid : node.id = ⟨model.count .type⟩)
    (hnew : { node with
      nestedTypes := [], fields := [], properties := [], methods := [], constructors := []
      destructor := none } = node) :
    { model with types := model.types.push node }.listed waiting =
      { model.listed waiting with
        types := (model.listed waiting).types.push node
        createdClasses := (model.listed waiting).createdClasses ++
          if node.isExternal then [node.id] else [] } := by
  have hmethods (kind : MethodKind) : model.enteredWhere waiting (fun method =>
      method.containingType = node.id && method.kind = kind) = [] :=
    handlesWhere_eq_nil fun method hmethod => by
      simpa [hid] using fun heq => absurd heq (ne_next (h.methods method hmethod))
  have hfields : model.fieldsIn node.id = [] :=
    handlesWhere_eq_nil fun field hfield => by
      simpa [hid] using ne_next (h.fields field hfield)
  have hproperties : model.propertiesIn node.id = [] :=
    handlesWhere_eq_nil fun property hproperty => by
      simpa [hid] using ne_next (h.properties property hproperty)
  have hnode : model.listType waiting node = node := by
    rw [listType, hmethods, hmethods, hmethods, hfields, hproperties]
    exact hnew
  have htypes : (model.types.push node).map (model.listType waiting) =
      (model.listed waiting).types.push node := by
    rw [Array.map_push, hnode]
    rfl
  have hcreated : handlesWhere (model.types.push node) TypeNode.isExternal TypeNode.id =
      (model.listed waiting).createdClasses ++ if node.isExternal then [node.id] else [] :=
    handlesWhere_push node
  calc { model with types := model.types.push node }.listed waiting
      = { model.listed waiting with
          types := (model.types.push node).map (model.listType waiting)
          createdClasses :=
            handlesWhere (model.types.push node) TypeNode.isExternal TypeNode.id } := rfl
    _ = _ := by rw [htypes, hcreated]

/-- **A new namespace** is added with nothing in it. -/
theorem listed_pushNamespace {node : NamespaceNode}
    (hnew : { node with children := [], types := [] } = node) :
    { model with namespaces := model.namespaces.push node }.listed waiting =
      { model.listed waiting with
        namespaces := (model.listed waiting).namespaces.push node } := by
  have hall : (model.namespaces.push node).map (fun space =>
      { space with children := [], types := [] }) =
        (model.listed waiting).namespaces.push node := by
    rw [Array.map_push, hnew]
    rfl
  exact congrArg (fun namespaces => { model.listed waiting with namespaces }) hall

/-! ## Members that are entered when they are made -/

/-- **A new field** is entered in its type. -/
theorem listed_pushField (h : model.Numbered) (node : FieldNode) :
    { model with fields := model.fields.push node }.listed waiting =
      { model.listed waiting with
        fields := model.fields.push node
        types := (model.listed waiting).types.modify node.containingType.idx fun type =>
          { type with fields := type.fields ++ [node.id] } } := by
  have hfields (id : TypeId) : { model with fields := model.fields.push node }.fieldsIn id =
      model.fieldsIn id ++ if decide (node.containingType = id) then [node.id] else [] :=
    handlesWhere_push node
  have htypes : model.types.map
        ({ model with fields := model.fields.push node }.listType waiting) =
      (model.types.map (model.listType waiting)).modify node.containingType.idx fun type =>
        { type with fields := type.fields ++ [node.id] } := by
    refine map_eq_modify (fun _ _ => h.type_id) _ (fun type hid => ?_) fun type hid => ?_
    · rw [listType, hfields, if_pos (decide_eq_true hid.symm)]
      rfl
    · rw [listType, hfields, if_neg (by simpa using Ne.symm hid), List.append_nil]
      rfl
  exact congrArg (fun types => { model.listed waiting with
    fields := model.fields.push node, types }) htypes

/-- **A new property** is entered in its type, and has no accessors. -/
theorem listed_pushProperty (h : model.Numbered) (hhoused : model.Housed) {node : PropertyNode}
    (hid : node.id = ⟨model.count .property⟩) (hnew : { node with accessors := [] } = node) :
    { model with properties := model.properties.push node }.listed waiting =
      { model.listed waiting with
        properties := (model.listed waiting).properties.push node
        types := (model.listed waiting).types.modify node.containingType.idx fun type =>
          { type with properties := type.properties ++ [node.id] } } := by
  have hproperties (id : TypeId) :
      { model with properties := model.properties.push node }.propertiesIn id =
        model.propertiesIn id ++ if decide (node.containingType = id) then [node.id] else [] :=
    handlesWhere_push node
  have htypes : model.types.map
        ({ model with properties := model.properties.push node }.listType waiting) =
      (model.types.map (model.listType waiting)).modify node.containingType.idx fun type =>
        { type with properties := type.properties ++ [node.id] } := by
    refine map_eq_modify (fun _ _ => h.type_id) _ (fun type hid => ?_) fun type hid => ?_
    · rw [listType, hproperties, if_pos (decide_eq_true hid.symm)]
      rfl
    · rw [listType, hproperties, if_neg (by simpa using Ne.symm hid), List.append_nil]
      rfl
  have haccessors : model.enteredWhere waiting
      (fun method => method.containingProperty = some node.id) = [] :=
    handlesWhere_eq_nil fun method hmethod => by
      simpa [hid] using fun heq => absurd rfl (ne_next (hhoused.accessors method hmethod _ heq))
  have hnode : model.listProperty waiting node = node := by
    rw [listProperty, haccessors]
    exact hnew
  have hall : (model.properties.push node).map (model.listProperty waiting) =
      (model.listed waiting).properties.push node := by
    rw [Array.map_push, hnode]
    rfl
  calc { model with properties := model.properties.push node }.listed waiting
      = { model.listed waiting with
          properties := (model.properties.push node).map (model.listProperty waiting)
          types := model.types.map
            ({ model with properties := model.properties.push node }.listType waiting) } := rfl
    _ = _ := by
      rw [hall, htypes]
      rfl

/-- **A new parameter** is entered in its method. -/
theorem listed_pushParameter (h : model.Numbered) (node : ParameterNode) :
    { model with parameters := model.parameters.push node }.listed waiting =
      { model.listed waiting with
        parameters := model.parameters.push node
        methods := (model.listed waiting).methods.modify node.containingMethod.idx fun method =>
          { method with parameters := method.parameters ++ [node.id] } } := by
  have hparameters (id : MethodId) :
      { model with parameters := model.parameters.push node }.parametersIn id =
        model.parametersIn id ++ if decide (node.containingMethod = id) then [node.id] else [] :=
    handlesWhere_push node
  have hmethods : model.methods.map
        ({ model with parameters := model.parameters.push node }.listMethod waiting) =
      (model.methods.map (model.listMethod waiting)).modify node.containingMethod.idx
        fun method => { method with parameters := method.parameters ++ [node.id] } := by
    refine map_eq_modify (fun _ _ => h.method_id) _ (fun method hid => ?_) fun method hid => ?_
    · rw [listMethod, hparameters, if_pos (decide_eq_true hid.symm)]
      rfl
    · rw [listMethod, hparameters, if_neg (by simpa using Ne.symm hid), List.append_nil]
      rfl
  exact congrArg (fun methods => { model.listed waiting with
    parameters := model.parameters.push node, methods }) hmethods

/-- **A new local variable** is entered in its method. -/
theorem listed_pushLocalVariable (h : model.Numbered) (node : LocalVariableNode) :
    { model with localVariables := model.localVariables.push node }.listed waiting =
      { model.listed waiting with
        localVariables := model.localVariables.push node
        methods := (model.listed waiting).methods.modify node.containingMethod.idx fun method =>
          { method with localVariables := method.localVariables ++ [node.id] } } := by
  have hvariables (id : MethodId) :
      { model with localVariables := model.localVariables.push node }.localVariablesIn id =
        model.localVariablesIn id ++
          if decide (node.containingMethod = id) then [node.id] else [] :=
    handlesWhere_push node
  have hmethods : model.methods.map
        ({ model with localVariables := model.localVariables.push node }.listMethod waiting) =
      (model.methods.map (model.listMethod waiting)).modify node.containingMethod.idx
        fun method => { method with localVariables := method.localVariables ++ [node.id] } := by
    refine map_eq_modify (fun _ _ => h.method_id) _ (fun method hid => ?_) fun method hid => ?_
    · rw [listMethod, hvariables, if_pos (decide_eq_true hid.symm)]
      rfl
    · rw [listMethod, hvariables, if_neg (by simpa using Ne.symm hid), List.append_nil]
      rfl
  exact congrArg (fun methods => { model.listed waiting with
    localVariables := model.localVariables.push node, methods }) hmethods

/-! ## Methods that wait -/

/-- A method that is new waits, and is in no list. -/
theorem enteredWhere_push (h : model.Numbered) {node : MethodNode}
    (hid : node.id = ⟨model.count .method⟩) (condition : MethodNode → Bool) :
    { model with methods := model.methods.push node }.enteredWhere (node.id :: waiting) condition =
      model.enteredWhere waiting condition := by
  rw [enteredWhere, handlesWhere_push, if_neg (by simp), List.append_nil]
  refine handlesWhere_congr fun method hmethod => ?_
  have hne : method.id ≠ node.id := by
    rw [hid]
    exact ne_next (hasHandle_of_method (h.method?_id hmethod))
  simp [hne]

/-- **A new method** waits to be entered. It has no members yet. -/
theorem listed_pushMethod (h : model.Numbered) (hhoused : model.Housed) {node : MethodNode}
    (hid : node.id = ⟨model.count .method⟩)
    (hnew : { node with parameters := [], localVariables := [], localFunctions := [] } = node) :
    { model with methods := model.methods.push node }.listed (node.id :: waiting) =
      { model.listed waiting with methods := (model.listed waiting).methods.push node } := by
  have hentered := @enteredWhere_push model waiting h node hid
  have htype : { model with methods := model.methods.push node }.listType (node.id :: waiting) =
      model.listType waiting := by
    funext type
    rw [listType, hentered, hentered, hentered]
    rfl
  have hmethod : { model with methods := model.methods.push node }.listMethod
      (node.id :: waiting) = model.listMethod waiting := by
    funext method
    rw [listMethod, hentered]
    rfl
  have hproperty : { model with methods := model.methods.push node }.listProperty
      (node.id :: waiting) = model.listProperty waiting := by
    funext property
    rw [listProperty, hentered]
    rfl
  have hnode : model.listMethod waiting node = node := by
    have hparameters : model.parametersIn node.id = [] :=
      handlesWhere_eq_nil fun parameter hparameter => by
        simpa [hid] using ne_next (hhoused.parameters parameter hparameter)
    have hvariables : model.localVariablesIn node.id = [] :=
      handlesWhere_eq_nil fun declared hdeclared => by
        simpa [hid] using ne_next (hhoused.localVariables declared hdeclared)
    have hfunctions : model.enteredWhere waiting
        (fun method => method.containingMethod = some node.id) = [] :=
      handlesWhere_eq_nil fun method hmethod => by
        simpa [hid] using
          fun heq => absurd rfl (ne_next (hhoused.localFunctions method hmethod _ heq))
    rw [listMethod, hparameters, hvariables, hfunctions]
    exact hnew
  have hall : (model.methods.push node).map (model.listMethod waiting) =
      (model.listed waiting).methods.push node := by
    rw [Array.map_push, hnode]
    rfl
  calc { model with methods := model.methods.push node }.listed (node.id :: waiting)
      = { model.listed waiting with
          types := model.types.map
            ({ model with methods := model.methods.push node }.listType (node.id :: waiting))
          methods := (model.methods.push node).map
            ({ model with methods := model.methods.push node }.listMethod (node.id :: waiting))
          properties := model.properties.map
            ({ model with methods := model.methods.push node }.listProperty
              (node.id :: waiting)) } := rfl
    _ = _ := by
      rw [htype, hmethod, hproperty, hall]
      rfl

/-- **A method that has waited is entered** at the end of a list, if no later method is in it. -/
theorem enteredWhere_enter (h : model.Numbered) {id : MethodId} {node : MethodNode}
    (hnode : model.method? id = some node) (hfree : id ∉ waiting) {condition : MethodNode → Bool}
    (hlast : condition node → ∀ i other, model.methods[i]? = some other → id.idx < i →
      condition other = false) :
    model.enteredWhere waiting condition =
      model.enteredWhere (id :: waiting) condition ++ if condition node then [id] else [] := by
  have hid : node.id = id := h.method_id hnode
  have hat (i : Nat) (other : MethodNode) (hother : model.methods[i]? = some other) :
      other.id = ⟨i⟩ := @Numbered.method_id _ h ⟨i⟩ other hother
  cases hcondition : condition node with
  | false =>
    rw [if_neg (by simp), List.append_nil]
    refine handlesWhere_congr fun other hother => ?_
    by_cases heq : other.id = id
    · have hsame : other = node := by
        have hget := h.method?_id hother
        rw [heq, hnode] at hget
        exact (Option.some.inj hget).symm
      simp [hsame, hcondition]
    · simp [heq]
  | true =>
    -- Before the method the ids differ from its own, and behind it nothing is picked.
    obtain ⟨hlt, hget⟩ := Array.getElem?_eq_some_iff.1 hnode
    have hsplit : model.methods.toList =
        model.methods.toList.take id.idx ++ node :: model.methods.toList.drop (id.idx + 1) := by
      conv_lhs => rw [← List.take_append_drop id.idx model.methods.toList,
        List.drop_eq_getElem_cons (by simpa using hlt)]
      simp [hget]
    have hfront : ∀ other ∈ model.methods.toList.take id.idx, other.id ≠ id := by
      intro other hother heq
      obtain ⟨i, hi⟩ := List.mem_iff_getElem?.1 hother
      rw [List.getElem?_take] at hi
      split at hi
      next hlt =>
        rw [Array.getElem?_toList] at hi
        rw [hat i other hi] at heq
        exact absurd (congrArg Handle.idx heq) (Nat.ne_of_lt hlt)
      next => cases hi
    have hback : ∀ other ∈ model.methods.toList.drop (id.idx + 1), condition other = false := by
      intro other hother
      obtain ⟨i, hi⟩ := List.mem_iff_getElem?.1 hother
      rw [List.getElem?_drop, Array.getElem?_toList] at hi
      exact hlast hcondition _ other hi (by omega)
    have hnone (others : List MethodId) :
        ((model.methods.toList.drop (id.idx + 1)).filter fun other =>
          condition other && !others.contains other.id) = [] := by
      refine List.filter_eq_nil_iff.2 fun other hother => ?_
      simp [hback other hother]
    have hsame : ((model.methods.toList.take id.idx).filter fun other =>
          condition other && !waiting.contains other.id) =
        (model.methods.toList.take id.idx).filter fun other =>
          condition other && !(id :: waiting).contains other.id :=
      List.filter_congr fun other hother => by simp [hfront other hother]
    have hpicked (others : List MethodId) : handlesWhere model.methods (fun other =>
          condition other && !others.contains other.id) MethodNode.id =
        ((model.methods.toList.take id.idx).filter fun other =>
          condition other && !others.contains other.id).map MethodNode.id ++
          if others.contains id then [] else [id] := by
      rw [handlesWhere, hsplit, List.filter_append, List.filter_cons, ← hsplit, hnone, hcondition,
        hid]
      cases others.contains id <;> simp [hid]
    rw [enteredWhere, enteredWhere, hpicked, hpicked, hsame]
    simp [hfree]

/-- Only the lists of types, methods and properties depend on which methods wait. -/
theorem listed_eq (waiting others : List MethodId) :
    model.listed waiting = { model.listed others with
      types := model.types.map (model.listType waiting)
      methods := model.methods.map (model.listMethod waiting)
      properties := model.properties.map (model.listProperty waiting) } := rfl

section Enter

variable {id : MethodId} {node : MethodNode} (h : model.Numbered)
  (hnode : model.method? id = some node) (hfree : id ∉ waiting)

include h hnode hfree

/-- A list that a method is not in is the same when the method is entered. -/
theorem enteredWhere_of_not {condition : MethodNode → Bool} (hcondition : condition node = false) :
    model.enteredWhere waiting condition = model.enteredWhere (id :: waiting) condition := by
  rw [enteredWhere_enter h hnode hfree fun htrue => absurd htrue (by simp [hcondition]),
    hcondition]
  simp

/-- The lists of types are the same when a method is entered that is not directly in its type. -/
theorem listType_enter (hmethod : node.kind ≠ .method) (hconstructor : node.kind ≠ .constructor)
    (hdestructor : node.kind ≠ .destructor) :
    model.listType waiting = model.listType (id :: waiting) := by
  funext type
  have hsame (kind : MethodKind) (hkind : node.kind ≠ kind) :
      model.enteredWhere waiting (fun method =>
          method.containingType = type.id && method.kind = kind) =
        model.enteredWhere (id :: waiting) fun method =>
          method.containingType = type.id && method.kind = kind :=
    enteredWhere_of_not h hnode hfree (by simp [hkind])
  rw [listType, listType, hsame _ hmethod, hsame _ hconstructor, hsame _ hdestructor]

/-- The lists of methods are the same when a method is entered that is in no other one. -/
theorem listMethod_enter (houter : node.containingMethod = none) :
    model.listMethod waiting = model.listMethod (id :: waiting) := by
  funext method
  rw [listMethod, listMethod, enteredWhere_of_not h hnode hfree (by simp [houter])]

/-- The lists of properties are the same when a method is entered that is in no property. -/
theorem listProperty_enter (houter : node.containingProperty = none) :
    model.listProperty waiting = model.listProperty (id :: waiting) := by
  funext property
  rw [listProperty, listProperty, enteredWhere_of_not h hnode hfree (by simp [houter])]

/-- **An accessor is entered** in its property. -/
theorem listed_enterAccessor {property : PropertyId} (hkind : node.kind = .accessor)
    (houter : node.containingMethod = none) (hproperty : node.containingProperty = some property)
    (hlast : ∀ i other, model.methods[i]? = some other → id.idx < i →
      other.containingProperty = none) :
    model.listed waiting =
      { model.listed (id :: waiting) with
        properties := (model.listed (id :: waiting)).properties.modify property.idx fun node =>
          { node with accessors := node.accessors ++ [id] } } := by
  have hproperties : model.properties.map (model.listProperty waiting) =
      (model.properties.map (model.listProperty (id :: waiting))).modify property.idx
        fun node => { node with accessors := node.accessors ++ [id] } := by
    refine map_eq_modify (fun _ _ => h.property_id) _ (fun holder hid => ?_) fun holder hid => ?_
    · rw [listProperty, enteredWhere_enter h hnode hfree fun _ i other hother hlt => by
        simp [hlast i other hother hlt], if_pos (by simp [hproperty, hid])]
      rfl
    · rw [listProperty, enteredWhere_of_not h hnode hfree
        (by simpa [hproperty] using Ne.symm hid)]
      rfl
  rw [listed_eq waiting (id :: waiting), hproperties, listMethod_enter h hnode hfree houter,
    listType_enter h hnode hfree (by simp [hkind]) (by simp [hkind]) (by simp [hkind])]
  rfl

/-- **A local function is entered** in the method around it. -/
theorem listed_enterLocalFunction {outer : MethodId} (hkind : node.kind = .localFunction)
    (hproperty : node.containingProperty = none) (houter : node.containingMethod = some outer)
    (hlast : ∀ i other, model.methods[i]? = some other → id.idx < i →
      other.containingMethod ≠ some outer) :
    model.listed waiting =
      { model.listed (id :: waiting) with
        methods := (model.listed (id :: waiting)).methods.modify outer.idx fun node =>
          { node with localFunctions := node.localFunctions ++ [id] } } := by
  have hmethods : model.methods.map (model.listMethod waiting) =
      (model.methods.map (model.listMethod (id :: waiting))).modify outer.idx
        fun node => { node with localFunctions := node.localFunctions ++ [id] } := by
    refine map_eq_modify (fun _ _ => h.method_id) _ (fun holder hid => ?_) fun holder hid => ?_
    · rw [listMethod, enteredWhere_enter h hnode hfree fun _ i other hother hlt => by
        simpa [hid] using hlast i other hother hlt, if_pos (by simp [houter, hid])]
      rfl
    · rw [listMethod, enteredWhere_of_not h hnode hfree (by simpa [houter] using Ne.symm hid)]
      rfl
  rw [listed_eq waiting (id :: waiting), hmethods, listProperty_enter h hnode hfree hproperty,
    listType_enter h hnode hfree (by simp [hkind]) (by simp [hkind]) (by simp [hkind])]
  rfl

/-- **A method is entered** directly in its type. -/
theorem listed_enterMember {change : TypeNode → TypeNode}
    (houter : node.containingMethod = none) (hproperty : node.containingProperty = none)
    (hat : ∀ type : TypeNode, type.id = node.containingType →
      model.listType waiting type = change (model.listType (id :: waiting) type)) :
    model.listed waiting =
      { model.listed (id :: waiting) with
        types := (model.listed (id :: waiting)).types.modify node.containingType.idx change } := by
  have htypes : model.types.map (model.listType waiting) =
      (model.types.map (model.listType (id :: waiting))).modify node.containingType.idx change := by
    refine map_eq_modify (fun _ _ => h.type_id) _ hat fun holder hid => ?_
    have hsame (kind : MethodKind) :
        model.enteredWhere waiting (fun method =>
            method.containingType = holder.id && method.kind = kind) =
          model.enteredWhere (id :: waiting) fun method =>
            method.containingType = holder.id && method.kind = kind :=
      enteredWhere_of_not h hnode hfree (by simp [Ne.symm hid])
    rw [listType, listType, hsame, hsame, hsame]
  rw [listed_eq waiting (id :: waiting), htypes, listMethod_enter h hnode hfree houter,
    listProperty_enter h hnode hfree hproperty]
  rfl

/-- The methods of a kind of a type, when the one that has waited is entered. -/
theorem enteredWhere_member (hlast : ∀ i other, model.methods[i]? = some other → id.idx < i →
    other.kind ≠ node.kind) {type : TypeNode} (htype : type.id = node.containingType)
    (kind : MethodKind) :
    model.enteredWhere waiting (fun method =>
        method.containingType = type.id && method.kind = kind) =
      model.enteredWhere (id :: waiting) (fun method =>
        method.containingType = type.id && method.kind = kind) ++
          if node.kind = kind then [id] else [] := by
  by_cases hkind : node.kind = kind
  · rw [enteredWhere_enter h hnode hfree fun _ i other hother hlt => ?_]
    · simp [hkind, htype]
    · have hne := hlast i other hother hlt
      rw [hkind] at hne
      simp [hne]
  · rw [if_neg hkind, List.append_nil]
    exact enteredWhere_of_not h hnode hfree (by simp [hkind])

end Enter

/-! ## Changes that leave the lists alone -/

/-- A type is changed apart from its members. -/
theorem listed_modifyType {change : TypeNode → TypeNode} (id : TypeId)
    (hexternal : ∀ node, (change node).isExternal = node.isExternal)
    (hid : ∀ node, (change node).id = node.id)
    (hlists : ∀ node, model.listType waiting (change node) =
      change (model.listType waiting node)) :
    { model with types := model.types.modify id.idx change }.listed waiting =
      { model.listed waiting with
        types := (model.listed waiting).types.modify id.idx change } := by
  have htypes : (model.types.modify id.idx change).map (model.listType waiting) =
      (model.types.map (model.listType waiting)).modify id.idx change :=
    map_modify id.idx hlists
  have hcreated : handlesWhere (model.types.modify id.idx change) TypeNode.isExternal TypeNode.id =
      handlesWhere model.types TypeNode.isExternal TypeNode.id :=
    handlesWhere_modify id.idx hexternal hid
  calc { model with types := model.types.modify id.idx change }.listed waiting
      = { model.listed waiting with
          types := (model.types.modify id.idx change).map (model.listType waiting)
          createdClasses := handlesWhere (model.types.modify id.idx change) TypeNode.isExternal
            TypeNode.id } := rfl
    _ = _ := by
      rw [htypes, hcreated]
      rfl

/-- A method gets a further call. -/
theorem listed_addCall (id : MethodId) (edge : CallEdge) :
    { model with methods := model.methods.modify id.idx fun node =>
        { node with calls := node.calls ++ [edge] } }.listed waiting =
      { model.listed waiting with
        methods := (model.listed waiting).methods.modify id.idx fun node =>
          { node with calls := node.calls ++ [edge] } } := by
  have hentered (condition : MethodNode → Bool)
      (hcondition : ∀ node : MethodNode,
        condition { node with calls := node.calls ++ [edge] } = condition node) :
      { model with methods := model.methods.modify id.idx fun node =>
          { node with calls := node.calls ++ [edge] } }.enteredWhere waiting condition =
        model.enteredWhere waiting condition :=
    handlesWhere_modify id.idx (fun node => by rw [hcondition]) fun _ => rfl
  have htype : { model with methods := model.methods.modify id.idx fun node =>
        { node with calls := node.calls ++ [edge] } }.listType waiting =
      model.listType waiting := by
    funext type
    rw [listType, hentered _ fun _ => rfl, hentered _ fun _ => rfl, hentered _ fun _ => rfl]
    rfl
  have hproperty : { model with methods := model.methods.modify id.idx fun node =>
        { node with calls := node.calls ++ [edge] } }.listProperty waiting =
      model.listProperty waiting := by
    funext property
    rw [listProperty, hentered _ fun _ => rfl]
    rfl
  have hmethod : { model with methods := model.methods.modify id.idx fun node =>
        { node with calls := node.calls ++ [edge] } }.listMethod waiting =
      model.listMethod waiting := by
    funext method
    rw [listMethod, hentered _ fun _ => rfl]
    rfl
  have hmethods : (model.methods.modify id.idx fun node =>
        { node with calls := node.calls ++ [edge] }).map (model.listMethod waiting) =
      (model.methods.map (model.listMethod waiting)).modify id.idx fun node =>
        { node with calls := node.calls ++ [edge] } :=
    map_modify id.idx fun _ => rfl
  calc { model with methods := model.methods.modify id.idx fun node =>
        { node with calls := node.calls ++ [edge] } }.listed waiting
      = { model.listed waiting with
          types := model.types.map ({ model with methods := model.methods.modify id.idx fun node =>
            { node with calls := node.calls ++ [edge] } }.listType waiting)
          methods := (model.methods.modify id.idx fun node =>
            { node with calls := node.calls ++ [edge] }).map
              ({ model with methods := model.methods.modify id.idx fun node =>
                { node with calls := node.calls ++ [edge] } }.listMethod waiting)
          properties := model.properties.map
            ({ model with methods := model.methods.modify id.idx fun node =>
              { node with calls := node.calls ++ [edge] } }.listProperty waiting) } := rfl
    _ = _ := by
      rw [htype, hproperty, hmethod, hmethods]
      rfl

end ReferenceModel

end FactGraph
