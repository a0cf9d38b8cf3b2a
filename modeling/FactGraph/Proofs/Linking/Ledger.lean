import FactGraph.Proofs.Linking.Represent

/-!
# What a link run writes down

A ledger is what is left of a model when its links are forgotten: which members there are, how
they read and where they belong, and how much was skipped. Linking only ever adds to a ledger,
so a run is described by the parts that its steps add.

A part is *closed* if the methods and properties in it are numbered from where the ledger ended,
and all that it says of what contains what stays inside of it. A model that agrees with a ledger
then agrees with each of its closed parts, and what a part shows of the facts that it was written
for can be read off the model at the end, whatever is written before or after it.

## Main definitions

* `Ledger`: the members of a model, with where they belong
* `ReferenceModel.Spans`: a model agrees with a ledger on what its methods and properties contain
* `Ledger.Closed`: a part of a ledger that speaks of itself only
* `Ledger.signatures`: the methods with what a call tells them apart by
* `Ledger.Records`: a part that is written for a list of methods in one place
* `Ledger.Presents`: what a ledger shows of the members of every type

## Main results

* `ReferenceModel.Spans.left`, `ReferenceModel.Spans.right`: the parts of a ledger
* `Ledger.Records.method`, `Ledger.Records.append`: methods with their local functions
* `Ledger.Presents.append`: what parts show, their ledger shows
-/

namespace FactGraph

/-! ## Ledgers -/

/-- A method that was written down. -/
structure MethodEntry where
  id : MethodId
  name : String
  type : TypeId
  owner : MethodOwner

/-- A property that was written down. -/
structure PropertyEntry where
  id : PropertyId
  type : TypeId
  label : Label

/-- **The members of a model**, with what contains them, and how much was skipped. -/
@[ext]
structure Ledger where
  fields : List (TypeId × Label) := []
  properties : List PropertyEntry := []
  methods : List MethodEntry := []
  parameters : List (MethodId × Label) := []
  localVariables : List (MethodId × Label) := []
  skipped : Nat := 0

/-- The labels of the members that a node contains. -/
def labelsAt {kind : NodeKind} (entries : List (Handle kind × Label)) (holder : Handle kind) :
    List Label :=
  (entries.filter fun entry => entry.1 = holder).map Prod.snd

@[simp] theorem labelsAt_append {kind : NodeKind} (entries others : List (Handle kind × Label))
    (holder : Handle kind) :
    labelsAt (entries ++ others) holder = labelsAt entries holder ++ labelsAt others holder := by
  simp [labelsAt]

/-- Nothing is in a node that no entry names. -/
theorem labelsAt_eq_nil {kind : NodeKind} {entries : List (Handle kind × Label)}
    {holder : Handle kind} (h : holder ∉ entries.map Prod.fst) : labelsAt entries holder = [] := by
  simp only [labelsAt, List.map_eq_nil_iff, List.filter_eq_nil_iff, decide_eq_true_eq]
  intro entry hentry heq
  exact h (List.mem_map.2 ⟨entry, hentry, heq⟩)

/-- **What a call tells methods apart by**: the type that they are in, what they were declared as,
their names and the names of their parameter types. -/
@[ext]
structure Signature where
  type : TypeId
  kind : MethodKind
  name : String
  parameterTypes : List String

/-- A place where methods are, by the type and by what else owns them. -/
abbrev MethodSlot := TypeId → MethodOwner → Bool

namespace MethodSlot

/-- The methods of a type that were declared as the given kind. -/
def ofType (type : TypeId) (kind : MethodKind) : MethodSlot :=
  fun other owner => other = type && owner.kind = kind

/-- The accessors of a property. -/
def ofProperty (property : PropertyId) : MethodSlot :=
  fun _ owner => owner.containingProperty = some property

/-- The local functions of a method. -/
def ofMethod (method : MethodId) : MethodSlot :=
  fun _ owner => owner.containingMethod = some method

end MethodSlot

/-- The owner of the local functions of a method. -/
def MethodOwner.functionOf (method : MethodId) : MethodOwner :=
  { kind := .localFunction, containingMethod := some method }

/-- The owner of the accessors of a property. -/
def MethodOwner.accessorOf (property : PropertyId) : MethodOwner :=
  { kind := .accessor, containingProperty := some property }

namespace Ledger

instance : Append Ledger where
  append part next :=
    { fields := part.fields ++ next.fields
      properties := part.properties ++ next.properties
      methods := part.methods ++ next.methods
      parameters := part.parameters ++ next.parameters
      localVariables := part.localVariables ++ next.localVariables
      skipped := part.skipped + next.skipped }

section Append

variable (part next : Ledger)

@[simp] theorem append_fields : (part ++ next).fields = part.fields ++ next.fields := rfl

@[simp] theorem append_properties :
    (part ++ next).properties = part.properties ++ next.properties := rfl

@[simp] theorem append_methods : (part ++ next).methods = part.methods ++ next.methods := rfl

@[simp] theorem append_parameters :
    (part ++ next).parameters = part.parameters ++ next.parameters := rfl

@[simp] theorem append_localVariables :
    (part ++ next).localVariables = part.localVariables ++ next.localVariables := rfl

@[simp] theorem append_skipped : (part ++ next).skipped = part.skipped + next.skipped := rfl

@[simp] theorem append_empty : part ++ ({} : Ledger) = part := by
  ext1 <;> simp

theorem append_assoc (last : Ledger) : part ++ next ++ last = part ++ (next ++ last) := by
  ext1 <;> simp [Nat.add_assoc]

end Append

variable (ledger : Ledger)

/-- The methods in a place, in their order. -/
def methodsAt (slot : MethodSlot) : List MethodId :=
  (ledger.methods.filter fun entry => slot entry.type entry.owner).map MethodEntry.id

/-- The properties of a type, in their order. -/
def propertiesAt (type : TypeId) : List PropertyId :=
  (ledger.properties.filter fun entry => entry.type = type).map PropertyEntry.id

/-- The methods that parameters and local variables are written down for. -/
def holders : List MethodId :=
  ledger.parameters.map Prod.fst ++ ledger.localVariables.map Prod.fst

variable {ledger} {part next : Ledger}

@[simp] theorem methodsAt_append (slot : MethodSlot) :
    (part ++ next).methodsAt slot = part.methodsAt slot ++ next.methodsAt slot := by
  simp [methodsAt]

@[simp] theorem propertiesAt_append (type : TypeId) :
    (part ++ next).propertiesAt type = part.propertiesAt type ++ next.propertiesAt type := by
  simp [propertiesAt]

theorem mem_holders_append {id : MethodId} :
    id ∈ (part ++ next).holders ↔ id ∈ part.holders ∨ id ∈ next.holders := by
  simp only [holders, append_parameters, append_localVariables, List.map_append, List.mem_append]
  tauto

/-- No method is in a place that no owner is at. -/
theorem methodsAt_eq_nil {slot : MethodSlot}
    (h : ∀ entry ∈ ledger.methods, slot entry.type entry.owner = false) :
    ledger.methodsAt slot = [] := by
  simp only [methodsAt, List.map_eq_nil_iff, List.filter_eq_nil_iff, Bool.not_eq_true]
  exact h

/-! ## Parts -/

/-- **The ledger says nothing of what the method contains.** -/
structure Silent (ledger : Ledger) (id : MethodId) : Prop where
  holders : id ∉ ledger.holders
  functions : ∀ entry ∈ ledger.methods, entry.owner.containingMethod ≠ some id

theorem Silent.parameters {id : MethodId} (h : ledger.Silent id) :
    labelsAt ledger.parameters id = [] :=
  labelsAt_eq_nil fun hmem => h.holders (List.mem_append_left _ hmem)

theorem Silent.localVariables {id : MethodId} (h : ledger.Silent id) :
    labelsAt ledger.localVariables id = [] :=
  labelsAt_eq_nil fun hmem => h.holders (List.mem_append_right _ hmem)

theorem Silent.localFunctions {id : MethodId} (h : ledger.Silent id) :
    ledger.methodsAt (.ofMethod id) = [] :=
  methodsAt_eq_nil fun entry hentry => decide_eq_false (h.functions entry hentry)

/-- The ledger names no method as an accessor of the property. -/
def SilentProperty (ledger : Ledger) (id : PropertyId) : Prop :=
  ∀ entry ∈ ledger.methods, entry.owner.containingProperty ≠ some id

theorem SilentProperty.accessors {id : PropertyId} (h : ledger.SilentProperty id) :
    ledger.methodsAt (.ofProperty id) = [] :=
  methodsAt_eq_nil fun entry hentry => decide_eq_false (h entry hentry)

end Ledger

/-- **The model agrees with the ledger** on its methods and properties: each of them is there and
contains what the ledger says, in the same order. -/
structure ReferenceModel.Spans (model : ReferenceModel) (ledger : Ledger) : Prop where
  methods : ∀ entry ∈ ledger.methods, ∃ node, model.method? entry.id = some node ∧
    node.name = entry.name ∧
    node.parameters.map model.parameterLabel? =
      (labelsAt ledger.parameters entry.id).map some ∧
    node.localVariables.map model.localVariableLabel? =
      (labelsAt ledger.localVariables entry.id).map some ∧
    node.localFunctions = ledger.methodsAt (.ofMethod entry.id)
  properties : ∀ entry ∈ ledger.properties, ∃ node, model.property? entry.id = some node ∧
    node.label = entry.label ∧ node.accessors = ledger.methodsAt (.ofProperty entry.id)

namespace ReferenceModel.Spans

variable {model : ReferenceModel} {part next : Ledger}

/-- A model agrees with a part if what is written after it does not speak of it. -/
theorem left (h : model.Spans (part ++ next))
    (hmethods : ∀ entry ∈ part.methods, next.Silent entry.id)
    (hproperties : ∀ entry ∈ part.properties, next.SilentProperty entry.id) :
    model.Spans part where
  methods entry hentry := by
    have hsilent := hmethods entry hentry
    simpa [hsilent.parameters, hsilent.localVariables, hsilent.localFunctions] using
      h.methods entry (List.mem_append_left _ hentry)
  properties entry hentry := by
    simpa [(hproperties entry hentry).accessors] using
      h.properties entry (List.mem_append_left _ hentry)

/-- A model agrees with a part if what is written before it does not speak of it. -/
theorem right (h : model.Spans (part ++ next))
    (hmethods : ∀ entry ∈ next.methods, part.Silent entry.id)
    (hproperties : ∀ entry ∈ next.properties, part.SilentProperty entry.id) :
    model.Spans next where
  methods entry hentry := by
    have hsilent := hmethods entry hentry
    simpa [hsilent.parameters, hsilent.localVariables, hsilent.localFunctions] using
      h.methods entry (List.mem_append_right _ hentry)
  properties entry hentry := by
    simpa [(hproperties entry hentry).accessors] using
      h.properties entry (List.mem_append_right _ hentry)

end ReferenceModel.Spans

/-- The handle is one of the given number of handles from a first one on. -/
def Handle.Within {kind : NodeKind} (id : Handle kind) (first count : Nat) : Prop :=
  first ≤ id.idx ∧ id.idx < first + count

namespace Handle.Within

variable {kind : NodeKind} {id : Handle kind} {first count more : Nat}

theorem left (h : id.Within first count) : id.Within first (count + more) := by
  obtain ⟨hle, hlt⟩ := h
  constructor <;> omega

theorem right (h : id.Within (first + count) more) : id.Within first (count + more) := by
  obtain ⟨hle, hlt⟩ := h
  constructor <;> omega

/-- Handles of a part are not handles of the part behind it. -/
theorem not_right (h : id.Within first count) : ¬id.Within (first + count) more := by
  intro hright
  exact absurd h.2 (Nat.not_lt.2 hright.1)

theorem not_left (h : id.Within (first + count) more) : ¬id.Within first count :=
  fun hleft => not_right hleft h

end Handle.Within

namespace Ledger

variable {ledger part next : Ledger} {m p : Nat}

/-- **The part speaks of itself only.** Its methods and properties are numbered from the given
positions on, and whatever it says that a method or a property contains is of one of them. -/
structure Closed (ledger : Ledger) (m p : Nat) : Prop where
  methods : ∀ entry ∈ ledger.methods, entry.id.Within m ledger.methods.length
  properties : ∀ entry ∈ ledger.properties, entry.id.Within p ledger.properties.length
  holders : ∀ id ∈ ledger.holders, id.Within m ledger.methods.length
  functions : ∀ entry ∈ ledger.methods, ∀ id, entry.owner.containingMethod = some id →
    id.Within m ledger.methods.length
  accessors : ∀ entry ∈ ledger.methods, ∀ id, entry.owner.containingProperty = some id →
    id.Within p ledger.properties.length

theorem Closed.silent (h : ledger.Closed m p) {id : MethodId}
    (hid : ¬id.Within m ledger.methods.length) : ledger.Silent id where
  holders hmem := hid (h.holders id hmem)
  functions entry hentry heq := hid (h.functions entry hentry id heq)

theorem Closed.silentProperty (h : ledger.Closed m p) {id : PropertyId}
    (hid : ¬id.Within p ledger.properties.length) : ledger.SilentProperty id :=
  fun entry hentry heq => hid (h.accessors entry hentry id heq)

theorem Closed.of_skipped (m p count : Nat) : ({ skipped := count } : Ledger).Closed m p := by
  constructor <;> simp [Ledger.holders]

/-- Parts that are written one after the other are one part. -/
theorem Closed.append (hpart : part.Closed m p)
    (hnext : next.Closed (m + part.methods.length) (p + part.properties.length)) :
    (part ++ next).Closed m p := by
  constructor
  · intro entry hentry
    rw [append_methods, List.length_append]
    rcases List.mem_append.1 hentry with h | h
    · exact (hpart.methods entry h).left
    · exact (hnext.methods entry h).right
  · intro entry hentry
    rw [append_properties, List.length_append]
    rcases List.mem_append.1 hentry with h | h
    · exact (hpart.properties entry h).left
    · exact (hnext.properties entry h).right
  · intro id hid
    rw [append_methods, List.length_append]
    rcases mem_holders_append.1 hid with h | h
    · exact (hpart.holders id h).left
    · exact (hnext.holders id h).right
  · intro entry hentry id hid
    rw [append_methods, List.length_append]
    rcases List.mem_append.1 hentry with h | h
    · exact (hpart.functions entry h id hid).left
    · exact (hnext.functions entry h id hid).right
  · intro entry hentry id hid
    rw [append_properties, List.length_append]
    rcases List.mem_append.1 hentry with h | h
    · exact (hpart.accessors entry h id hid).left
    · exact (hnext.accessors entry h id hid).right

/-! ### Signatures -/

/-- **The methods with what a call tells them apart by**, in their order. -/
def signatures (ledger : Ledger) : List Signature :=
  ledger.methods.map fun entry =>
    { type := entry.type, kind := entry.owner.kind, name := entry.name
      parameterTypes := (labelsAt ledger.parameters entry.id).map Label.typeName }

@[simp] theorem length_signatures : ledger.signatures.length = ledger.methods.length :=
  List.length_map _

/-- Closed parts have no say in each other's signatures. -/
theorem Closed.signatures_append (hpart : part.Closed m p)
    (hnext : next.Closed (m + part.methods.length) (p + part.properties.length)) :
    (part ++ next).signatures = part.signatures ++ next.signatures := by
  rw [signatures, append_methods, List.map_append]
  refine congrArg₂ (· ++ ·) ?_ ?_
  all_goals refine List.map_congr_left fun entry hentry => ?_
  · have hsilent := hnext.silent (hpart.methods entry hentry).not_right
    rw [append_parameters, labelsAt_append, hsilent.parameters, List.append_nil]
  · have hsilent := hpart.silent (hnext.methods entry hentry).not_left
    rw [append_parameters, labelsAt_append, hsilent.parameters, List.nil_append]

/-! ### Agreement -/

/-- **A model that agrees with two closed parts, one after the other, agrees with each.** -/
theorem Closed.spans {model : ReferenceModel} (hpart : part.Closed m p)
    (hnext : next.Closed (m + part.methods.length) (p + part.properties.length))
    (h : model.Spans (part ++ next)) : model.Spans part ∧ model.Spans next := by
  constructor
  · apply h.left
    · intro entry hentry
      exact hnext.silent (hpart.methods entry hentry).not_right
    · intro entry hentry
      exact hnext.silentProperty (hpart.properties entry hentry).not_right
  · apply h.right
    · intro entry hentry
      exact hpart.silent (hnext.methods entry hentry).not_left
    · intro entry hentry
      exact hpart.silentProperty (hnext.properties entry hentry).not_left

/-! ## Methods -/

/-- The handles are those of method nodes that stand for the facts, in every model that agrees
with the ledger. -/
structure Shows (ledger : Ledger) (ids : List MethodId) (facts : List MethodFact) : Prop where
  length : ids.length = facts.length
  represents : ∀ model : ReferenceModel, model.Spans ledger →
    List.Forall₂ model.Represents ids facts

/-- The part has methods of one type only. Those that do not have the given owner are local
functions of methods of the part. -/
structure OwnedBy (ledger : Ledger) (type : TypeId) (owner : MethodOwner) (m : Nat) : Prop where
  fields : ledger.fields = []
  properties : ledger.properties = []
  methods : ∀ entry ∈ ledger.methods, entry.id.Within m ledger.methods.length
  holders : ∀ id ∈ ledger.holders, id.Within m ledger.methods.length
  types : ∀ entry ∈ ledger.methods, entry.type = type
  owners : ∀ entry ∈ ledger.methods, entry.owner = owner ∨
    ∃ id : MethodId, id.Within m ledger.methods.length ∧ entry.owner = .functionOf id

/-- The place takes the owner's own methods, and no local function of a method from the position
on. -/
structure Takes (slot : MethodSlot) (type : TypeId) (owner : MethodOwner) (m : Nat) : Prop where
  own : slot type owner = true
  deep : ∀ id : MethodId, m ≤ id.idx → slot type (.functionOf id) = false

/-- **The part is written for the methods** of a list that have one owner: it has their kept ones
where the owner's methods are, with all that is kept inside of them, and counts all that is
skipped. -/
structure Records (ledger : Ledger) (type : TypeId) (owner : MethodOwner) (m : Nat)
    (facts : List MethodFact) : Prop extends ledger.OwnedBy type owner m where
  shows : ∀ slot, Takes slot type owner m →
    ledger.Shows (ledger.methodsAt slot) (facts.filter MethodFact.isNamed)
  skipped : ledger.skipped = MethodFact.skipsAll facts

section Methods

variable {type : TypeId} {owner : MethodOwner}

theorem OwnedBy.silent (h : ledger.OwnedBy type owner m) {id : MethodId}
    (howner : owner.containingMethod ≠ some id) (hid : ¬id.Within m ledger.methods.length) :
    ledger.Silent id where
  holders hmem := hid (h.holders id hmem)
  functions entry hentry heq := by
    obtain hown | ⟨other, hother, hfunction⟩ := h.owners entry hentry
    · exact howner (hown ▸ heq)
    · rw [hfunction] at heq
      cases heq
      exact hid hother

/-- A part does not speak of methods that are written behind it, if its owner is not one of
them. -/
theorem OwnedBy.silent_behind (h : ledger.OwnedBy type owner m)
    (howner : ∀ id, owner.containingMethod = some id → id.idx < m) {id : MethodId} {count : Nat}
    (hid : id.Within (m + ledger.methods.length) count) : ledger.Silent id := by
  refine h.silent (fun heq => ?_) hid.not_left
  have hlt := howner id heq
  have hle := hid.1
  omega

/-- Parts that are written one after the other, if the owner of the second one is that of the
first one, or a method of the first one. -/
theorem OwnedBy.append {inner : MethodOwner} (hpart : part.OwnedBy type owner m)
    (hnext : next.OwnedBy type inner (m + part.methods.length))
    (hinner : inner = owner ∨
      ∃ id : MethodId, id.Within m part.methods.length ∧ inner = .functionOf id) :
    (part ++ next).OwnedBy type owner m := by
  constructor
  · rw [append_fields, hpart.fields, hnext.fields, List.append_nil]
  · rw [append_properties, hpart.properties, hnext.properties, List.append_nil]
  · intro entry hentry
    rw [append_methods, List.length_append]
    rcases List.mem_append.1 hentry with h | h
    · exact (hpart.methods entry h).left
    · exact (hnext.methods entry h).right
  · intro id hid
    rw [append_methods, List.length_append]
    rcases mem_holders_append.1 hid with h | h
    · exact (hpart.holders id h).left
    · exact (hnext.holders id h).right
  · intro entry hentry
    rcases List.mem_append.1 hentry with h | h
    · exact hpart.types entry h
    · exact hnext.types entry h
  · intro entry hentry
    rw [append_methods, List.length_append]
    rcases List.mem_append.1 hentry with h | h
    · exact (hpart.owners entry h).imp_right fun ⟨id, hid, hfunction⟩ => ⟨id, hid.left, hfunction⟩
    · obtain hown | ⟨id, hid, hfunction⟩ := hnext.owners entry h
      · rw [hown]
        exact hinner.imp_right fun ⟨id, hid, hfunction⟩ => ⟨id, hid.left, hfunction⟩
      · exact .inr ⟨id, hid.right, hfunction⟩

/-- Nothing is written for no methods, or for one without a name but that it is skipped. -/
theorem Records.skipped_only {facts : List MethodFact} {count : Nat}
    (hfacts : facts.filter MethodFact.isNamed = []) (hcount : count = MethodFact.skipsAll facts) :
    ({ skipped := count } : Ledger).Records type owner m facts where
  fields := rfl
  properties := rfl
  methods := by simp
  holders := by simp [Ledger.holders]
  types := by simp
  owners := by simp
  shows slot _ := by
    rw [hfacts]
    exact ⟨rfl, fun _ _ => .nil⟩
  skipped := hcount

/-- What is written for a method without its local functions. -/
def ofHead (id : MethodId) (type : TypeId) (owner : MethodOwner) (head : MethodHead) : Ledger where
  methods := [{ id, name := head.name, type, owner }]
  parameters := (head.parameters.filter ParameterFact.isTyped).map fun fact => (id, fact.label)
  localVariables :=
    (head.localVariables.filter LocalVariableFact.isTyped).map fun fact => (id, fact.label)
  skipped := head.skips

theorem eq_of_mem_holders_ofHead {id other : MethodId} {head : MethodHead}
    (h : other ∈ (ofHead id type owner head).holders) : other = id := by
  simp only [Ledger.holders, ofHead, List.map_map, List.mem_append, List.mem_map,
    Function.comp_apply] at h
  obtain ⟨_, _, rfl⟩ | ⟨_, _, rfl⟩ := h <;> rfl

theorem ownedBy_head (m : Nat) (type : TypeId) (owner : MethodOwner) (head : MethodHead) :
    (ofHead ⟨m⟩ type owner head).OwnedBy type owner m := by
  have hhere : Handle.Within (⟨m⟩ : MethodId) m 1 := ⟨Nat.le_refl m, Nat.lt_succ_self m⟩
  constructor
  · rfl
  · rfl
  · intro entry hentry
    obtain rfl := List.mem_singleton.1 hentry
    exact hhere
  · intro id hid
    rw [eq_of_mem_holders_ofHead hid]
    exact hhere
  · intro entry hentry
    obtain rfl := List.mem_singleton.1 hentry
    rfl
  · intro entry hentry
    obtain rfl := List.mem_singleton.1 hentry
    exact .inl rfl

/-- **A method stands for what was written down for it**, if nodes that stand for its local
functions are what was written behind it. -/
theorem represents_head {model : ReferenceModel} {head : MethodHead}
    {localFunctions : List MethodFact} {inner : Ledger}
    (hspans : model.Spans (ofHead ⟨m⟩ type owner head ++ inner))
    (howner : owner.containingMethod ≠ some ⟨m⟩) (hsilent : ⟨m⟩ ∉ inner.holders)
    (hinner : List.Forall₂ model.Represents (inner.methodsAt (.ofMethod ⟨m⟩))
      (localFunctions.filter MethodFact.isNamed)) :
    model.Represents ⟨m⟩ ⟨head, localFunctions⟩ := by
  obtain ⟨node, hnode, hname, hparameters, hvariables, hfunctions⟩ :=
    hspans.methods { id := ⟨m⟩, name := head.name, type, owner } (by simp [ofHead])
  refine .intro node hnode hname ?_ ?_ ?_
  · have hnone : labelsAt inner.parameters ⟨m⟩ = [] :=
      labelsAt_eq_nil fun hmem => hsilent (List.mem_append_left _ hmem)
    rw [hparameters, append_parameters, labelsAt_append, hnone]
    simp [ofHead, labelsAt, List.filter_map, Function.comp_def]
  · have hnone : labelsAt inner.localVariables ⟨m⟩ = [] :=
      labelsAt_eq_nil fun hmem => hsilent (List.mem_append_right _ hmem)
    rw [hvariables, append_localVariables, labelsAt_append, hnone]
    simp [ofHead, labelsAt, List.filter_map, Function.comp_def]
  · have hhead : (ofHead ⟨m⟩ type owner head).methodsAt (.ofMethod ⟨m⟩) = [] := by
      refine methodsAt_eq_nil fun entry hentry => decide_eq_false fun heq => ?_
      obtain rfl := List.mem_singleton.1 hentry
      exact howner heq
    rw [hfunctions, methodsAt_append, hhead]
    exact hinner

/-- **What is written for a method with its local functions**: the method, then its local
functions. -/
theorem Records.method {head : MethodHead} {localFunctions : List MethodFact} {inner : Ledger}
    (hnamed : Text.isBlank head.name = false)
    (howner : ∀ id, owner.containingMethod = some id → id.idx < m)
    (hinner : inner.Records type (.functionOf ⟨m⟩) (m + 1) localFunctions) :
    (ofHead ⟨m⟩ type owner head ++ inner).Records type owner m [⟨head, localFunctions⟩] := by
  have hhead := ownedBy_head m type owner head
  have hbehind {id : MethodId} (h : id.Within (m + 1) inner.methods.length) : m < id.idx := h.1
  constructor
  · exact hhead.append hinner.toOwnedBy (.inr ⟨⟨m⟩, ⟨Nat.le_refl m, Nat.lt_succ_self m⟩, rfl⟩)
  · intro slot hslot
    -- In a place of the owner is the method alone: the others say that they are in methods.
    have hfirst : (ofHead ⟨m⟩ type owner head).methodsAt slot = [⟨m⟩] := by
      simp [methodsAt, ofHead, hslot.own]
    have hothers : inner.methodsAt slot = [] := by
      refine methodsAt_eq_nil fun entry hentry => ?_
      rw [hinner.types entry hentry]
      obtain hown | ⟨id, hid, hfunction⟩ := hinner.owners entry hentry
      · exact hown ▸ hslot.deep ⟨m⟩ (Nat.le_refl m)
      · exact hfunction ▸ hslot.deep id (Nat.le_of_lt (hbehind hid))
    have hkept : [(⟨head, localFunctions⟩ : MethodFact)].filter MethodFact.isNamed =
        [⟨head, localFunctions⟩] := by
      simp [MethodFact.isNamed, hnamed]
    rw [methodsAt_append, hothers, hfirst, hkept]
    refine ⟨rfl, fun model hspans => .cons ?_ .nil⟩
    have hspans' : model.Spans inner := by
      refine hspans.right (fun entry hentry => ?_) (by simp [hinner.properties])
      exact hhead.silent_behind howner (hinner.methods entry hentry)
    refine represents_head hspans (fun heq => Nat.lt_irrefl m (howner _ heq))
      (fun hmem => Nat.lt_irrefl m (hbehind (hinner.holders _ hmem))) ?_
    refine (hinner.shows (.ofMethod ⟨m⟩) ⟨by simp [MethodSlot.ofMethod, MethodOwner.functionOf],
      fun id hid => decide_eq_false fun heq => ?_⟩).represents model hspans'
    cases heq
    exact absurd hid (by simp)
  · simp only [append_skipped, ofHead, hinner.skipped, MethodFact.skipsAll, MethodFact.skips,
      hnamed]
    simp

/-- **Parts for methods of one owner**, one after the other. -/
theorem Records.append {facts others : List MethodFact}
    (howner : ∀ id, owner.containingMethod = some id → id.idx < m)
    (hpart : part.Records type owner m facts)
    (hnext : next.Records type owner (m + part.methods.length) others) :
    (part ++ next).Records type owner m (facts ++ others) := by
  constructor
  · exact hpart.toOwnedBy.append hnext.toOwnedBy (.inl rfl)
  · intro slot hslot
    have hfirst := hpart.shows slot hslot
    have hsecond := hnext.shows slot ⟨hslot.own, fun id hid => hslot.deep id (by omega)⟩
    rw [methodsAt_append, List.filter_append]
    refine ⟨by simp [hfirst.length, hsecond.length], fun model hspans => ?_⟩
    have hleft : model.Spans part := by
      refine hspans.left (fun entry hentry => ?_) (by simp [hpart.properties])
      have hin := hpart.methods entry hentry
      exact hnext.silent (fun heq => absurd (howner _ heq) (Nat.not_lt.2 hin.1)) hin.not_right
    have hright : model.Spans next := by
      refine hspans.right (fun entry hentry => ?_) (by simp [hnext.properties])
      exact hpart.silent_behind howner (hnext.methods entry hentry)
    exact List.rel_append (hfirst.represents model hleft) (hsecond.represents model hright)
  · rw [append_skipped, hpart.skipped, hnext.skipped, MethodFact.skipsAll_append]

/-- What is written for methods that are in no other method speaks of itself only, if what they
are the accessors of does. -/
theorem OwnedBy.closed (h : ledger.OwnedBy type owner m)
    (howner : owner.containingMethod = none) (hproperty : owner.containingProperty = none) :
    ledger.Closed m p where
  methods := h.methods
  properties := by simp [h.properties]
  holders := h.holders
  functions entry hentry id hid := by
    obtain hown | ⟨other, hother, hfunction⟩ := h.owners entry hentry
    · rw [hown, howner] at hid
      cases hid
    · rw [hfunction] at hid
      cases hid
      exact hother
  accessors entry hentry id hid := by
    obtain hown | ⟨other, hother, hfunction⟩ := h.owners entry hentry
    · rw [hown, hproperty] at hid
      cases hid
    · rw [hfunction] at hid
      cases hid

end Methods

end Ledger

/-! ## The members of all types -/

/-- Members that are kept: fields and properties, and the methods of every kind. -/
@[ext]
structure Members where
  fields : List FieldFact := []
  properties : List PropertyFact := []
  methods : MethodKind → List MethodFact := fun _ => []

namespace Members

instance : Append Members where
  append members others :=
    { fields := members.fields ++ others.fields
      properties := members.properties ++ others.properties
      methods := fun kind => members.methods kind ++ others.methods kind }

section Append

variable (members others : Members)

@[simp] theorem append_fields : (members ++ others).fields = members.fields ++ others.fields := rfl

@[simp] theorem append_properties :
    (members ++ others).properties = members.properties ++ others.properties := rfl

@[simp] theorem append_methods (kind : MethodKind) :
    (members ++ others).methods kind = members.methods kind ++ others.methods kind := rfl

@[simp] theorem append_empty : members ++ ({} : Members) = members := by
  ext1
  · simp
  · simp
  · funext kind
    simp

end Append

/-- Members of one type, and none of any other. -/
def within (type : TypeId) (members : Members) : TypeId → Members :=
  fun other => if other = type then members else {}

theorem within_append (type other : TypeId) (members others : Members) :
    within type members other ++ within type others other =
      within type (members ++ others) other := by
  unfold within
  split <;> rfl

/-- Methods of one kind. -/
def ofKind (kind : MethodKind) (methods : List MethodFact) : Members where
  methods := fun other => if other = kind then methods else []

end Members

/-- The kind of the methods that stand directly in their type. -/
def MethodKind.isDirect : MethodKind → Bool
  | .method | .constructor | .destructor => true
  | .accessor | .localFunction => false

/-- Local functions do not stand directly in their type. -/
theorem MethodSlot.ofType_functionOf {kind : MethodKind} (hkind : kind.isDirect)
    (type other : TypeId) (id : MethodId) : ofType type kind other (.functionOf id) = false := by
  cases kind <;> simp_all [ofType, MethodOwner.functionOf, MethodKind.isDirect]

/-- Accessors do not stand directly in their type. -/
theorem MethodSlot.ofType_accessorOf {kind : MethodKind} (hkind : kind.isDirect)
    (type other : TypeId) (id : PropertyId) : ofType type kind other (.accessorOf id) = false := by
  cases kind <;> simp_all [ofType, MethodOwner.accessorOf, MethodKind.isDirect]

namespace Ledger

variable {ledger part next : Ledger} {m p : Nat} {members others : TypeId → Members}

/-- **What the ledger shows of every type**: the labels of its fields, and nodes that stand for
its properties and its methods, in every model that agrees with the ledger. -/
structure Presents (ledger : Ledger) (members : TypeId → Members) : Prop where
  fields : ∀ type, labelsAt ledger.fields type = (members type).fields.map FieldFact.label
  properties : ∀ type (model : ReferenceModel), model.Spans ledger →
    List.Forall₂ model.RepresentsProperty (ledger.propertiesAt type) (members type).properties
  methods : ∀ type kind, kind.isDirect →
    ledger.Shows (ledger.methodsAt (.ofType type kind)) ((members type).methods kind)

/-- What is written for fields. -/
theorem Presents.of_fields (type : TypeId) (facts : List FieldFact) (count : Nat) :
    ({ fields := facts.map fun fact => (type, fact.label), skipped := count } : Ledger).Presents
      (Members.within type { fields := facts }) where
  fields other := by
    by_cases h : other = type
    · simp [h, labelsAt, Members.within, List.filter_map, Function.comp_def]
    · simp [h, Ne.symm h, labelsAt, Members.within, List.filter_map, Function.comp_def]
  properties other _ _ := by
    by_cases h : other = type <;> simp [h, Members.within, propertiesAt]
  methods other _ _ := by
    by_cases h : other = type
    all_goals
      simp only [h, Members.within, methodsAt]
      exact ⟨rfl, fun _ _ => .nil⟩

/-- **What closed parts show, the ledger shows that they make up.** -/
theorem Presents.append (hpart : part.Presents members) (hclosed : part.Closed m p)
    (hnext : next.Presents others)
    (hclosed' : next.Closed (m + part.methods.length) (p + part.properties.length)) :
    (part ++ next).Presents fun type => members type ++ others type where
  fields type := by
    rw [append_fields, labelsAt_append, hpart.fields, hnext.fields]
    exact List.map_append.symm
  properties type model hspans := by
    obtain ⟨hleft, hright⟩ := hclosed.spans hclosed' hspans
    rw [propertiesAt_append]
    exact List.rel_append (hpart.properties type model hleft) (hnext.properties type model hright)
  methods type kind hkind := by
    have hfirst := hpart.methods type kind hkind
    have hsecond := hnext.methods type kind hkind
    rw [methodsAt_append]
    refine ⟨?_, fun model hspans => ?_⟩
    · rw [List.length_append, hfirst.length, hsecond.length]
      exact List.length_append.symm
    · obtain ⟨hleft, hright⟩ := hclosed.spans hclosed' hspans
      exact List.rel_append (hfirst.represents model hleft) (hsecond.represents model hright)

/-- What is written for methods that stand directly in their type. -/
theorem Records.presents {type : TypeId} {kind : MethodKind} {facts : List MethodFact}
    (hkind : kind.isDirect) (h : ledger.Records type { kind } m facts) :
    ledger.Presents (Members.within type (.ofKind kind (facts.filter MethodFact.isNamed))) where
  fields other := by
    simp only [h.fields]
    by_cases hother : other = type <;> simp [hother, Members.within, Members.ofKind, labelsAt]
  properties other _ _ := by
    simp only [propertiesAt, h.properties]
    by_cases hother : other = type <;> simp [hother, Members.within, Members.ofKind]
  methods other kind' hkind' := by
    by_cases hsame : other = type ∧ kind' = kind
    · obtain ⟨rfl, rfl⟩ := hsame
      have hshows := h.shows (.ofType other kind') ⟨by simp [MethodSlot.ofType],
        fun id _ => MethodSlot.ofType_functionOf hkind other other id⟩
      simpa [Members.within, Members.ofKind] using hshows
    · have hnone : ledger.methodsAt (.ofType other kind') = [] := by
        refine methodsAt_eq_nil fun entry hentry => ?_
        rw [h.types entry hentry]
        obtain hown | ⟨_, -, hfunction⟩ := h.owners entry hentry
        · rw [hown]
          simp only [MethodSlot.ofType, Bool.and_eq_false_iff, decide_eq_false_iff_not]
          tauto
        · rw [hfunction]
          exact MethodSlot.ofType_functionOf hkind' other type _
      have hmembers : (Members.within type
          (.ofKind kind (facts.filter MethodFact.isNamed)) other).methods kind' = [] := by
        by_cases hother : other = type
        · have hne : kind' ≠ kind := fun heq => hsame ⟨hother, heq⟩
          simp [Members.within, Members.ofKind, hother, hne]
        · simp [Members.within, hother]
      rw [hnone, hmembers]
      exact ⟨rfl, fun _ _ => .nil⟩

/-- What is written for a property: the property, then its accessors. -/
def ofProperty (id : PropertyId) (type : TypeId) (label : Label) : Ledger where
  properties := [{ id, type, label }]

section Property

variable {type : TypeId} {fact : PropertyFact}

theorem closed_property
    (h : ledger.Records type (.accessorOf ⟨p⟩) m fact.accessors) :
    (ofProperty ⟨p⟩ type fact.label ++ ledger).Closed m p := by
  have hproperties : (ofProperty ⟨p⟩ type fact.label ++ ledger).properties =
      [{ id := ⟨p⟩, type, label := fact.label }] := by
    simp [ofProperty, h.properties]
  constructor
  · exact h.methods
  · intro entry hentry
    rw [hproperties] at hentry ⊢
    obtain rfl := List.mem_singleton.1 hentry
    exact ⟨Nat.le_refl p, Nat.lt_succ_self p⟩
  · exact h.holders
  · intro entry hentry id hid
    obtain hown | ⟨other, hother, hfunction⟩ := h.owners entry hentry
    · rw [hown] at hid
      cases hid
    · rw [hfunction] at hid
      cases hid
      exact hother
  · intro entry hentry id hid
    rw [hproperties]
    obtain hown | ⟨_, -, hfunction⟩ := h.owners entry hentry
    · rw [hown] at hid
      cases hid
      exact ⟨Nat.le_refl p, Nat.lt_succ_self p⟩
    · rw [hfunction] at hid
      cases hid

theorem presents_property
    (h : ledger.Records type (.accessorOf ⟨p⟩) m fact.accessors) :
    (ofProperty ⟨p⟩ type fact.label ++ ledger).Presents
      (Members.within type { properties := [fact] }) where
  fields other := by
    by_cases hother : other = type <;>
      simp [hother, Members.within, labelsAt, ofProperty, h.fields]
  properties other model hspans := by
    have hids : (ofProperty ⟨p⟩ type fact.label ++ ledger).propertiesAt other =
        if other = type then [⟨p⟩] else [] := by
      by_cases hother : other = type
      · simp [propertiesAt, ofProperty, h.properties, hother]
      · simp [propertiesAt, ofProperty, h.properties, hother, Ne.symm hother]
    rw [hids]
    unfold Members.within
    split
    · refine .cons ?_ .nil
      obtain ⟨node, hnode, hlabel, haccessors⟩ :=
        hspans.properties { id := ⟨p⟩, type, label := fact.label } (by simp [ofProperty])
      have hspans' : model.Spans ledger :=
        hspans.right (fun entry _ => ⟨by simp [Ledger.holders, ofProperty], by simp [ofProperty]⟩)
          (by simp [h.properties])
      refine ⟨node, hnode, hlabel, haccessors ▸ ?_⟩
      have hshows := h.shows (.ofProperty ⟨p⟩)
        ⟨by simp [MethodSlot.ofProperty, MethodOwner.accessorOf],
          by simp [MethodSlot.ofProperty, MethodOwner.functionOf]⟩
      exact hshows.represents model hspans'
    · exact .nil
  methods other kind hkind := by
    have hnone : (ofProperty ⟨p⟩ type fact.label ++ ledger).methodsAt (.ofType other kind) =
        [] := by
      refine methodsAt_eq_nil fun entry hentry => ?_
      obtain hown | ⟨id, -, hfunction⟩ := h.owners entry hentry
      · rw [hown]
        exact MethodSlot.ofType_accessorOf hkind other entry.type ⟨p⟩
      · rw [hfunction]
        exact MethodSlot.ofType_functionOf hkind other entry.type id
    rw [hnone]
    by_cases hother : other = type
    all_goals
      simp only [hother, Members.within]
      exact ⟨rfl, fun _ _ => .nil⟩

end Property

end Ledger

end FactGraph
