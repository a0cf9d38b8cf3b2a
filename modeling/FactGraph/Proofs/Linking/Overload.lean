import FactGraph.Proofs.Graph.Distance
import FactGraph.Proofs.Linking.Links
import FactGraph.Proofs.Linking.Roster
import Mathlib.Data.List.Find

/-!
# The nearest overload

A call of a declared type is looked for in the type itself and then in the types that it inherits
from, breadth first. Inheritance may be cyclic, and it is followed through declared types only. The
search is done while calls are linked, in a model whose outer lists are still empty, and other calls
may already have brought external types with their methods. What it finds is nevertheless
what can be read off the finished model, since nothing that it looks at is changed by calls any
more: which bases a declared type has, which methods stand in it, and which parameters these have.

## Main definitions

* `ReferenceModel.overload?`: the method of a declared type that has a signature
* `ReferenceModel.Nearest`: the overload of the nearest type that has one
* `Linker.ownerOf?`: the type whose method is called
* `CallsLinked`: what linking calls adds to a state

## Main results

* `isOrder_inheritanceOrder`: the search goes through all that is inherited from, nearest first
* `ends_draftFind`: what the search finds, read off the model with all lists
* `CallsLinked.overload?_eq`, `CallsLinked.declaredBases_eq`: linking calls changes neither
-/

namespace FactGraph

open BreadthFirst (IsDistance IsOrder)
open Relation (ReflTransGen)

/-! ## Overloads -/

namespace ReferenceModel

variable (model : ReferenceModel) (name : String) (parameterTypes : List String)

/-- The method has that name and exactly these parameter types. -/
def hasSignature (method : MethodId) : Bool :=
  (model.method? method).any (fun node => node.name = name) &&
    model.parameterTypes method = parameterTypes

/-- **The method of a declared type that has the signature**: the first of its methods, or else of
its constructors. An external type has none. -/
def overload? (type : TypeId) : Option MethodId :=
  match model.type? type with
  | some node =>
    if node.isExternal then none
    else (node.methods ++ node.constructors).find? (model.hasSignature name parameterTypes)
  | none => none

/-- The one type inherits from the other, over any number of declared types. -/
def Inherits : TypeId → TypeId → Prop :=
  ReflTransGen fun type base => base ∈ Linker.declaredBases model type

/-- **The target is the overload of the nearest type that has one**, among the owner and the types
that it inherits from. -/
structure Nearest (owner : TypeId) (target : Option MethodId) : Prop where
  /-- There is a target just if one of the types has an overload. -/
  isSome_iff : target.isSome ↔ ∃ type, model.Inherits owner type ∧
    (model.overload? name parameterTypes type).isSome
  /-- The target is in the first of the types that has an overload, in breadth-first order. -/
  first : ∃ order, IsOrder (Linker.declaredBases model) owner order ∧
    target = order.findSome? (model.overload? name parameterTypes)
  /-- No type that has an overload is nearer. -/
  minimal : ∀ method ∈ target, ∃ type n, IsDistance (Linker.declaredBases model) owner type n ∧
    model.overload? name parameterTypes type = some method ∧
    ∀ other m, IsDistance (Linker.declaredBases model) owner other m →
      (model.overload? name parameterTypes other).isSome → n ≤ m

variable {model name parameterTypes}

/-- **The first overload in breadth-first order is the nearest one.** -/
theorem nearest_of_isOrder {owner : TypeId} {order : List TypeId}
    (h : IsOrder (Linker.declaredBases model) owner order) :
    model.Nearest name parameterTypes owner
      (order.findSome? (model.overload? name parameterTypes)) where
  isSome_iff := by
    rw [List.findSome?_isSome_iff]
    exact exists_congr fun type => and_congr_left' (h.mem_iff type)
  first := ⟨order, h, rfl⟩
  minimal method hmethod := by
    obtain ⟨before, type, after, rfl, hoverload, hbefore⟩ := List.findSome?_eq_some_iff.1 hmethod
    obtain ⟨n, hwalk⟩ := BreadthFirst.reflTransGen_iff.1 ((h.mem_iff type).1 (by simp))
    obtain ⟨k, -, hdistance⟩ := BreadthFirst.exists_isDistance hwalk
    refine ⟨type, k, hdistance, hoverload, fun other m hother hsome => ?_⟩
    have hmem := (h.mem_iff other).2 (BreadthFirst.reflTransGen_iff.2 ⟨m, hother.walk⟩)
    rcases List.mem_append.1 hmem with hmem | hmem
    · -- What comes before the type has no overload.
      rw [hbefore other hmem] at hsome
      cases hsome
    · rcases List.mem_cons.1 hmem with rfl | hmem
      · exact Nat.le_of_eq (hdistance.unique hother)
      · have hnearer := (List.pairwise_append.1 h.nearer).2.1
        exact (List.pairwise_cons.1 hnearer).1 other hmem k m hdistance hother

/-! ## Signatures and ledgers -/

/-- The parameter types of a method whose parameters have these labels. -/
theorem parameterTypes_eq {method : MethodId} {node : MethodNode}
    (hnode : model.method? method = some node) {labels : List Label}
    (h : node.parameters.map model.parameterLabel? = labels.map some) :
    model.parameterTypes method = labels.map Label.typeName := by
  have hlabels : node.parameters.filterMap model.parameterLabel? = labels := by
    simpa [List.filterMap_map, Function.comp_def] using congrArg (List.filterMap id) h
  rw [parameterTypes, hnode, ← hlabels]
  dsimp only
  rw [List.map_filterMap, List.map_filterMap]
  refine List.filterMap_congr fun parameter _ => ?_
  rw [parameterLabel?, Option.map_map]
  rfl

/-- Models that agree with one ledger agree on the signatures of its methods. -/
theorem Spans.hasSignature_eq {model' : ReferenceModel} {ledger : Ledger}
    (h : model.Spans ledger) (h' : model'.Spans ledger) {entry : MethodEntry}
    (hentry : entry ∈ ledger.methods) :
    model'.hasSignature name parameterTypes entry.id =
      model.hasSignature name parameterTypes entry.id := by
  obtain ⟨node, hnode, hname, hparameters, -⟩ := h.methods entry hentry
  obtain ⟨node', hnode', hname', hparameters', -⟩ := h'.methods entry hentry
  rw [hasSignature, hasSignature, parameterTypes_eq hnode hparameters,
    parameterTypes_eq hnode' hparameters', hnode, hnode']
  simp [hname, hname']

end ReferenceModel

namespace Linker

open DraftM

variable {linker : Linker} {model : ReferenceModel} {s s' : DraftState}

/-! ## The search -/

/-- **A search goes through the owner and all that it inherits from**, the nearest types first. -/
theorem isOrder_inheritanceOrder (hclosed : model.Closed) (owner : TypeId) :
    IsOrder (declaredBases model) owner (inheritanceOrder model owner) := by
  refine BreadthFirst.isOrder_search fun type n hdistance => ?_
  -- All bases are types of the model, so nothing is further away than there are types.
  have hle := hdistance.le_length ((List.range model.types.size).map Handle.mk)
    fun other base hbase => ?_
  · simpa using hle
  · have hhandle := hasHandle_of_declaredBases hclosed hbase
    exact List.mem_map.2 ⟨base.idx, List.mem_range.2 (of_decide_eq_true hhandle), rfl⟩

/-- The parameter types of a method are the same in the model with all lists. -/
theorem parameterTypes_wire (hmodel : model.Numbered) {node : MethodNode}
    (hnode : node ∈ model.methods) :
    model.wire.parameterTypes node.id = signatureOf model node.id := by
  have hwire : model.wire.method? node.id = some (model.wireMethod node) := by
    rw [ReferenceModel.wire_method?, hmodel.method?_id hnode]
    rfl
  rw [ReferenceModel.parameterTypes, hwire, signatureOf]
  dsimp only [ReferenceModel.wireMethod, ReferenceModel.parametersIn]
  rw [ReferenceModel.handlesWhere, List.filterMap_map]
  refine congrArg (List.map _) ((List.filterMap_congr fun parameter hparameter => ?_).trans
    List.filterMap_some)
  have hmem := Array.mem_toList_iff.1 (List.mem_of_mem_filter hparameter)
  exact ReferenceModel.getElem?_of_numbered (hmodel .parameter) hmem

/-- **The method of a type that a call matches** is its overload once the contents are filled
in. -/
theorem ownMethod?_eq (hmodel : model.Numbered) {type : TypeId} {node : TypeNode}
    (hnode : model.type? type = some node) (name : String) (parameterTypes : List String) :
    ownMethod? model name parameterTypes node =
      model.wire.overload? name parameterTypes type := by
  have hwire : model.wire.type? type = some (model.wireType node) := by
    rw [ReferenceModel.wire_type?, hnode]
    rfl
  have hcontents : (model.wireType node).methods ++ (model.wireType node).constructors =
      (methodsOfKind model node.id .method ++ methodsOfKind model node.id .constructor).map
        MethodNode.id :=
    List.map_append.symm
  rw [ownMethod?, ReferenceModel.overload?, hwire]
  change _ = if node.isExternal then none else _
  split
  · rfl
  · rw [hcontents, List.find?_map, matching?]
    refine congrArg (Option.map _) (List.find?_congr fun method hmethod => ?_)
    have hmem : method ∈ model.methods := Array.mem_toList_iff.1 <| by
      rcases List.mem_append.1 hmethod with h | h <;> exact (mem_of_methodsOfKind h).1
    have hget : model.wire.method? method.id = some (model.wireMethod method) := by
      rw [ReferenceModel.wire_method?, hmodel.method?_id hmem]
      rfl
    rw [Function.comp_apply, ReferenceModel.hasSignature, parameterTypes_wire hmodel hmem, hget]
    rfl

/-- **What a search for a method finds**: the first overload in breadth-first order, read off the
model once its contents are filled in. -/
theorem ends_draftFind (hs : s.model.Numbered) (owner : TypeId) (name : String)
    (parameterTypes : List String) :
    Ends s (draftFind owner name parameterTypes) fun target s' => s = s' ∧
      target = (inheritanceOrder s.model owner).findSome?
        (s.model.wire.overload? name parameterTypes) := by
  unfold draftFind
  refine ends_model.bind ?_
  rintro _ _ ⟨rfl, rfl⟩
  refine (ends_typesAt _).bind ?_
  rintro nodes _ ⟨hnodes, rfl⟩
  refine .pure ⟨rfl, ?_⟩
  generalize inheritanceOrder s.model owner = order at hnodes
  induction hnodes with
  | nil => rfl
  | cons hnode _ ih =>
    rw [List.findSome?_cons, List.findSome?_cons, ownMethod?_eq hs hnode, ih]

/-! ## What linking calls leaves alone -/

/-- The bases of a type are the same when the contents are filled in. -/
theorem declaredBases_wire (model : ReferenceModel) :
    declaredBases model.wire = declaredBases model := by
  funext type
  rw [declaredBases, declaredBases, ReferenceModel.wire_type?]
  cases model.type? type <;> rfl

/-- **The type whose method is called**: the calling type if the call names no owner, and otherwise
the type that the base of the owner's name refers to, seen from the project of the call. -/
def ownerOf? (linker : Linker) (model : ReferenceModel) (project : ProjectId)
    (callerType : TypeId) (call : CallFact) : Option TypeId :=
  let owner := TypeName.parse call.containingType
  if owner.base = "" then some callerType
  else (linker.lookupDeclared? model owner.base project).or (findExternal? model owner.base)

/-- The owner of a call is the same when the contents are filled in. -/
theorem ownerOf?_wire (linker : Linker) (model : ReferenceModel) (project : ProjectId)
    (callerType : TypeId) (call : CallFact) :
    linker.ownerOf? model.wire project callerType call =
      linker.ownerOf? model project callerType call := by
  have hexternal (fullName : String) :
      findExternal? model.wire fullName = findExternal? model fullName := by
    rw [findExternal?, ReferenceModel.wire, Array.findIdx?_map]
    rfl
  simp only [ownerOf?, lookupDeclared?_congr (wire_sameView model), hexternal]

end Linker

/-- **Calls are linked** on the way from the one state to the other: methods of external types are
added, and external types, of which look-ups see nothing. -/
structure CallsLinked (s s' : DraftState) : Prop extends AddsSynthetic s s' where
  view : s.model.SameView s'.model

namespace CallsLinked

open Linker

variable {s s' : DraftState} {linker : Linker}

/-- A type stays as it is. -/
theorem type?_eq (h : CallsLinked s s') {type : TypeId} {node : TypeNode}
    (hnode : s.model.type? type = some node) : s'.model.type? type = some node := by
  obtain ⟨added, hadded⟩ := h.types
  rw [ReferenceModel.type?, ← Array.getElem?_toList] at hnode ⊢
  rw [← hadded, List.getElem?_append_left (List.getElem?_eq_some_iff.1 hnode).1]
  exact hnode

/-- A type that was not there before is external. -/
theorem isExternal_of_new (h : CallsLinked s s') {type : TypeId} {node : TypeNode}
    (hnone : s.model.type? type = none) (hnode : s'.model.type? type = some node) :
    node.isExternal = true := by
  obtain ⟨added, hadded⟩ := h.types
  have hmem : node ∈ added := by
    rw [ReferenceModel.type?, ← Array.getElem?_toList] at hnone hnode
    rw [← hadded, List.getElem?_append_right (List.getElem?_eq_none_iff.1 hnone)] at hnode
    exact List.mem_of_getElem? hnode
  -- No look-up sees a difference, so no declared type is among those that were added.
  have hview := h.view.declared
  rw [ReferenceModel.declared, ReferenceModel.declared, ← hadded, List.filterMap_append,
    List.append_right_eq_self, List.filterMap_eq_nil_iff] at hview
  have hentry := hview node hmem
  unfold TypeNode.declaredEntry? at hentry
  split at hentry
  next hexternal => exact hexternal
  next => cases hentry

/-- **Linking calls leaves inheritance alone.** -/
theorem declaredBases_eq (h : CallsLinked s s') :
    declaredBases s'.model = declaredBases s.model := by
  funext type
  unfold declaredBases
  cases hnode : s.model.type? type with
  | some node => rw [h.type?_eq hnode]
  | none =>
    cases hnode' : s'.model.type? type with
    | none => rfl
    | some node => simp [h.isExternal_of_new hnode hnode']

/-- The methods of a declared type are those that were written down before. -/
theorem methodsIn_eq (h : CallsLinked s s') (hs' : s'.model.Numbered) {node : TypeNode}
    (hnode : node ∈ s'.model.types) (hdeclared : node.isExternal = false) (kind : MethodKind) :
    s'.model.methodsIn node.id kind = s.ledger.methodsAt (.ofType node.id kind) :=
  methodsIn_of_calls hs' h.toAddsSynthetic hnode hdeclared kind

theorem refl (s : DraftState) : CallsLinked s s where
  toAddsSynthetic := Std.Refl.refl s
  view := .refl s.model

theorem trans {s'' : DraftState} (h : CallsLinked s s') (h' : CallsLinked s' s'') :
    CallsLinked s s'' where
  toAddsSynthetic := h.toAddsSynthetic.trans h'.toAddsSynthetic
  view := h.view.trans h'.view

/-- **Linking calls leaves overloads alone.** -/
theorem overload?_eq (h : CallsLinked s s') (hs : s.model.Numbered) (hs' : s'.model.Numbered)
    (hclosed : s.ledger.Closed 0 0) (name : String) (parameterTypes : List String) :
    s'.model.wire.overload? name parameterTypes = s.model.wire.overload? name parameterTypes := by
  have hspans := spans_of_calls hs hclosed (CallsLinked.refl s).toAddsSynthetic
  have hspans' := spans_of_calls hs' hclosed h.toAddsSynthetic
  funext type
  unfold ReferenceModel.overload?
  rw [ReferenceModel.wire_type?, ReferenceModel.wire_type?]
  cases hnode : s.model.type? type with
  | none =>
    cases hnode' : s'.model.type? type with
    | none => rfl
    | some node =>
      change (if node.isExternal then none else _) = none
      rw [if_pos (h.isExternal_of_new hnode hnode')]
  | some node =>
    rw [h.type?_eq hnode]
    change (if node.isExternal then none else _) = if node.isExternal then none else _
    split
    · rfl
    next hexternal =>
      have hdeclared := Bool.eq_false_iff.2 hexternal
      have hmem := ReferenceModel.mem_of_type hnode
      have hmem' := ReferenceModel.mem_of_type (h.type?_eq hnode)
      dsimp only [ReferenceModel.wireType]
      rw [h.methodsIn_eq hs' hmem' hdeclared, h.methodsIn_eq hs' hmem' hdeclared,
        (refl s).methodsIn_eq hs hmem hdeclared, (refl s).methodsIn_eq hs hmem hdeclared]
      refine List.find?_congr fun method hmethod => ?_
      rw [Ledger.methodsAt, Ledger.methodsAt, ← List.map_append] at hmethod
      obtain ⟨entry, hentry, rfl⟩ := List.mem_map.1 hmethod
      refine hspans.hasSignature_eq hspans' ?_
      rcases List.mem_append.1 hentry with hentry | hentry
      all_goals exact List.mem_of_mem_filter hentry

/-- **Linking calls leaves the owner of a call alone**, once it is there. -/
theorem ownerOf?_keep (h : CallsLinked s s') {project : ProjectId} {callerType owner : TypeId}
    {call : CallFact} (howner : linker.ownerOf? s.model project callerType call = some owner) :
    linker.ownerOf? s'.model project callerType call = some owner := by
  have hexternal {fullName : String} (hfound : findExternal? s.model fullName = some owner) :
      findExternal? s'.model fullName = some owner := by
    obtain ⟨added, hadded⟩ := h.types
    have htypes : s'.model.types = s.model.types ++ added.toArray :=
      Array.toList_inj.1 (by rw [← hadded, Array.toList_append])
    obtain ⟨i, hi, rfl⟩ := Option.map_eq_some_iff.1 hfound
    rw [findExternal?, htypes, Array.findIdx?_append, hi]
    rfl
  unfold ownerOf? at howner ⊢
  dsimp only at howner ⊢
  split
  next hbase =>
    rw [if_pos hbase] at howner
    exact howner
  next hbase =>
    rw [if_neg hbase] at howner
    rw [lookupDeclared?_congr h.view]
    rcases Option.or_eq_some_iff.1 howner with hdeclared | ⟨hunseen, hfound⟩
    · rw [hdeclared, Option.some_or]
    · rw [hunseen, Option.none_or, hexternal hfound]

end CallsLinked

end FactGraph
