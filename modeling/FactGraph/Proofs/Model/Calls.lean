import FactGraph.Model.Traversal
import FactGraph.Proofs.Graph.Way
import FactGraph.Proofs.Model.Handles

/-!
# The call graph

The methods of a model call each other, directly or over others, possibly in circles. Three
questions are asked of these calls: what a method calls, what it is called by, and how one method
gets to call another one. The first two are answered up to a depth, from the calls of the methods
and from the same calls turned around; the third one by a way.

All three are about the same distances, the lengths of shortest chains of calls. A model may be read
from a file, so two things have to be said of it: that the targets of its calls are methods, so that
no chain is longer than there are methods, and that methods stand where their handles say, since the
callers of a method are given by the handles that they have.

## Main definitions

* `ReferenceModel.CallsClosed`: the targets of calls are methods
* `ReferenceModel.MethodsNumbered`: methods stand where their handles say
* `ReferenceModel.Calls`: a method has a call of another one

## Main results

* `mem_callees_iff`, `mem_callers_iff`: what is found, and at which depth
* `callees_shortest`: the callees up to a depth are the nearest ones, each once
* `callGraph_agrees`: callees, callers and ways agree
-/

namespace FactGraph

open BreadthFirst

namespace ReferenceModel

/-- The targets of calls are methods of the model. -/
def CallsClosed (model : ReferenceModel) : Prop :=
  ∀ node ∈ model.methods, ∀ target ∈ node.callTargets, model.hasHandle target

instance (model : ReferenceModel) : Decidable model.CallsClosed :=
  inferInstanceAs (Decidable (∀ node ∈ model.methods, ∀ target ∈ node.callTargets,
    model.hasHandle target = true))

/-- The method at a position has the position as its handle. -/
def MethodsNumbered (model : ReferenceModel) : Prop :=
  ∀ i, ∀ h : i < model.methods.size, model.methods[i].id = ⟨i⟩

instance (model : ReferenceModel) : Decidable model.MethodsNumbered :=
  Nat.decidableBallLT _ _

/-- A method has a call whose target is the other one. -/
def Calls (model : ReferenceModel) (caller callee : MethodId) : Prop :=
  ∃ node, model.method? caller = some node ∧ { target := some callee } ∈ node.calls

variable {model : ReferenceModel} {caller callee start target : MethodId} {maxDepth n : Nat}

/-! ## Calls -/

theorem MethodNode.mem_callTargets {node : MethodNode} :
    callee ∈ node.callTargets ↔ { target := some callee } ∈ node.calls := by
  rw [MethodNode.callTargets, List.mem_filterMap]
  constructor
  · rintro ⟨⟨found⟩, hcall, htarget⟩
    obtain rfl : found = some callee := htarget
    exact hcall
  · intro hcall
    exact ⟨_, hcall, rfl⟩

theorem mem_calleesOf : callee ∈ model.calleesOf caller ↔ model.Calls caller callee := by
  unfold calleesOf Calls
  cases model.method? caller with
  | none => simp
  | some node => simp [MethodNode.mem_callTargets]

theorem MethodsNumbered.id_eq (h : model.MethodsNumbered) {id : MethodId} {node : MethodNode}
    (hnode : model.method? id = some node) : node.id = id := by
  obtain ⟨hlt, rfl⟩ := Array.getElem?_eq_some_iff.1 hnode
  exact h id.idx hlt

/-- The calls of a method are found with the method that is called. -/
theorem mem_callersOf (hids : model.MethodsNumbered) :
    caller ∈ model.callersOf callee ↔ model.Calls caller callee := by
  unfold callersOf Calls
  rw [List.mem_map]
  constructor
  · rintro ⟨node, hnode, rfl⟩
    obtain ⟨hmem, hcalls⟩ := List.mem_filter.1 hnode
    obtain ⟨i, hi⟩ := Array.mem_iff_getElem?.1 (Array.mem_toList_iff.1 hmem)
    have hmethod : model.method? ⟨i⟩ = some node := hi
    rw [hids.id_eq hmethod]
    exact ⟨node, hmethod, MethodNode.mem_callTargets.1 (by simpa using hcalls)⟩
  · rintro ⟨node, hnode, hcall⟩
    refine ⟨node, List.mem_filter.2 ⟨?_, ?_⟩, hids.id_eq hnode⟩
    · exact Array.mem_toList_iff.2 (Array.mem_of_getElem? hnode)
    · simpa using MethodNode.mem_callTargets.2 hcall

theorem hasHandle_of_mem_calleesOf (hcalls : model.CallsClosed)
    (h : callee ∈ model.calleesOf caller) : model.hasHandle callee := by
  obtain ⟨node, hnode, hcall⟩ := mem_calleesOf.1 h
  exact hcalls node (Array.mem_of_getElem? hnode) callee (MethodNode.mem_callTargets.2 hcall)

theorem hasHandle_of_mem_callersOf (hids : model.MethodsNumbered)
    (h : caller ∈ model.callersOf callee) : model.hasHandle caller := by
  obtain ⟨node, hnode, -⟩ := (mem_callersOf hids).1 h
  exact hasHandle_of_method hnode

/-! ## Depths -/

/-- A distance over methods is no larger than their number. -/
theorem distance_le_size {next : MethodId → List MethodId}
    (hnext : ∀ c, ∀ d ∈ next c, model.hasHandle d) (h : IsDistance next start target n) :
    n ≤ model.methods.size := by
  have hle := h.le_length ((List.range model.methods.size).map Handle.mk) ?_
  · simpa using hle
  · intro c d hd
    exact List.mem_map.2 ⟨d.idx, List.mem_range.2 (of_decide_eq_true (hnext c d hd)), rfl⟩

theorem mem_withDistance {kind : NodeKind} {visits : List (Visit (Handle kind))}
    {id : Handle kind} : (id, n) ∈ withDistance visits ↔
      ∃ visit ∈ visits, visit.node = id ∧ visit.distance = n := by
  simp [withDistance]

/-- What a search over methods finds within a depth. That it stops after as many rounds as there are
methods leaves nothing out. -/
theorem mem_search_methods {next : MethodId → List MethodId}
    (hnext : ∀ c, ∀ d ∈ next c, model.hasHandle d) :
    (target, n) ∈ withDistance (search next (min maxDepth model.methods.size) start) ↔
      1 ≤ n ∧ n ≤ maxDepth ∧ IsDistance next start target n := by
  rw [mem_withDistance, mem_search_iff]
  constructor
  · rintro ⟨hdistance, hpos, hle⟩
    exact ⟨hpos, by omega, hdistance⟩
  · rintro ⟨hpos, hle, hdistance⟩
    have hsize := distance_le_size hnext hdistance
    exact ⟨hdistance, hpos, by omega⟩

/-- **What a method calls**: the depth is the length of a shortest chain of calls. -/
theorem mem_callees_iff (hcalls : model.CallsClosed) :
    (target, n) ∈ model.callees start maxDepth ↔
      1 ≤ n ∧ n ≤ maxDepth ∧ IsDistance model.calleesOf start target n :=
  mem_search_methods fun _ _ => hasHandle_of_mem_calleesOf hcalls

/-- **What calls a method**: the depth is the length of a shortest chain of calls turned around. -/
theorem mem_callers_iff (hids : model.MethodsNumbered) :
    (start, n) ∈ model.callers target maxDepth ↔
      1 ≤ n ∧ n ≤ maxDepth ∧ IsDistance model.callersOf target start n :=
  mem_search_methods fun _ _ => hasHandle_of_mem_callersOf hids

/-- The callees up to a depth come first among those up to a larger one; the others are deeper. -/
theorem exists_callees_append (model : ReferenceModel) (id : MethodId) {deeper : Nat}
    (hle : maxDepth ≤ deeper) : ∃ later,
    model.callees id deeper = model.callees id maxDepth ++ later ∧
      ∀ entry ∈ later, maxDepth < entry.2 := by
  obtain ⟨more, hmore⟩ : ∃ more, min deeper model.methods.size =
      min maxDepth model.methods.size + more :=
    ⟨min deeper model.methods.size - min maxDepth model.methods.size, by omega⟩
  obtain ⟨later, hlater, hfar⟩ :=
    exists_search_add model.calleesOf id (min maxDepth model.methods.size) more
  by_cases hdepth : maxDepth ≤ model.methods.size
  · refine ⟨withDistance later, ?_, ?_⟩
    · rw [callees, hmore, hlater]
      exact List.map_append
    · intro entry hentry
      obtain ⟨visit, hvisit, rfl⟩ := List.mem_map.1 hentry
      have hlt := hfar visit hvisit
      change maxDepth < visit.distance
      omega
  · -- Both searches have as many rounds as there are methods.
    have hsame : min deeper model.methods.size = min maxDepth model.methods.size := by omega
    refine ⟨[], ?_, by simp⟩
    rw [callees, callees, hsame, List.append_nil]

/-- **The callees of a method up to a depth are the nearest ones.** Each method is listed once, the
method itself never, the nearer ones first, and with the length of a shortest chain of calls; with
a larger depth the list only goes on, with what is further away. -/
theorem callees_shortest (hcalls : model.CallsClosed) (id : MethodId) (maxDepth : Nat) :
    (id :: (model.callees id maxDepth).map Prod.fst).Nodup ∧
    (model.callees id maxDepth).Pairwise (fun entry later => entry.2 ≤ later.2) ∧
    (∀ other n, (other, n) ∈ model.callees id maxDepth ↔
      1 ≤ n ∧ n ≤ maxDepth ∧ IsDistance model.calleesOf id other n) ∧
    (∀ entry ∈ model.callees id maxDepth, model.hasHandle entry.1) ∧
    ∀ deeper, maxDepth ≤ deeper →
      model.callees id maxDepth <+: model.callees id deeper ∧
      model.callees id maxDepth =
        (model.callees id deeper).filter fun entry => entry.2 ≤ maxDepth := by
  have hmem : ∀ other n, (other, n) ∈ model.callees id maxDepth ↔
      1 ≤ n ∧ n ≤ maxDepth ∧ IsDistance model.calleesOf id other n :=
    fun other n => mem_callees_iff hcalls
  refine ⟨?_, ?_, hmem, ?_, ?_⟩
  · have hnodes : (model.callees id maxDepth).map Prod.fst =
        (search model.calleesOf (min maxDepth model.methods.size) id).map Visit.node :=
      List.map_map
    rw [hnodes]
    exact nodup_search
  · exact List.pairwise_map.2 pairwise_search
  · rintro ⟨other, n⟩ hentry
    obtain ⟨hpos, -, hdistance⟩ := (hmem other n).1 hentry
    obtain ⟨before, rfl⟩ := Nat.exists_eq_succ_of_ne_zero (Nat.pos_iff_ne_zero.1 hpos)
    obtain ⟨caller, -, hcall⟩ := hdistance.exists_pred
    exact hasHandle_of_mem_calleesOf hcalls hcall
  · intro deeper hle
    obtain ⟨later, hlater, hfar⟩ := exists_callees_append model id hle
    refine ⟨⟨later, hlater.symm⟩, ?_⟩
    have hkept : (model.callees id maxDepth).filter (fun entry => entry.2 ≤ maxDepth) =
        model.callees id maxDepth := by
      rw [List.filter_eq_self]
      rintro ⟨other, n⟩ hentry
      exact decide_eq_true ((hmem other n).1 hentry).2.1
    have hdropped : later.filter (fun entry => entry.2 ≤ maxDepth) = [] := by
      rw [List.filter_eq_nil_iff]
      intro entry hentry
      have hlt := hfar entry hentry
      simp only [decide_eq_true_eq]
      omega
    rw [hlater, List.filter_append, hkept, hdropped, List.append_nil]

/-- Three methods that call each other in a circle, the first one also the last one and something
unknown, and a fourth one that calls into the circle. -/
def circle : ReferenceModel where
  methods := #[method 0 [some 1, none, some 1], method 1 [some 2, some 1], method 2 [some 0],
    method 3 [some 1, some 2]]
where
  method (i : Nat) (targets : List (Option Nat)) : MethodNode :=
    { id := ⟨i⟩, name := "step", kind := .method, containingType := ⟨0⟩
      calls := targets.map fun target => { target := target.map Handle.mk } }

/-- Around the circle each of its methods is met once, and the search does not go on. -/
theorem circle_shortest :
    circle.CallsClosed ∧
    IsDistance circle.calleesOf ⟨3⟩ ⟨0⟩ 2 ∧
    (¬ ∃ n, 1 ≤ n ∧ n ≤ 9 ∧ IsDistance circle.calleesOf ⟨3⟩ ⟨3⟩ n) ∧
    circle.callees ⟨3⟩ 1 = (circle.callees ⟨3⟩ 9).filter fun entry => entry.2 ≤ 1 := by
  have hcalls : circle.CallsClosed := by decide
  obtain ⟨-, -, hmem, -, -⟩ := callees_shortest hcalls ⟨3⟩ 9
  obtain ⟨-, -, -, -, hdeeper⟩ := callees_shortest hcalls ⟨3⟩ 1
  refine ⟨hcalls, ((hmem ⟨0⟩ 2).1 (by decide)).2.2, ?_, (hdeeper 9 (by decide)).2⟩
  rintro ⟨n, h⟩
  have hlisted : (⟨3⟩ : MethodId) ∈ (circle.callees ⟨3⟩ 9).map Prod.fst :=
    List.mem_map_of_mem ((hmem ⟨3⟩ n).2 h)
  exact absurd hlisted (by decide)

/-! ## Agreement -/

/-- **Callees, callers and ways agree.** One method is among the callees of another one at a depth
just if that one is among its callers at the same depth. A way is found just if it is a callee at
all, and is then a shortest chain of calls from the one to the other. -/
theorem callGraph_agrees (hcalls : model.CallsClosed) (hids : model.MethodsNumbered)
    (start target : MethodId) (hne : start ≠ target) :
    (∀ maxDepth n, (target, n) ∈ model.callees start maxDepth ↔
      (start, n) ∈ model.callers target maxDepth) ∧
    ∀ unlimited, model.methods.size ≤ unlimited →
      ((∃ way, model.callPath? start target = some way) ↔
        ∃ n, (target, n) ∈ model.callees start unlimited) ∧
      ∀ way, model.callPath? start target = some way →
        way.head? = some start ∧ way.getLast? = some target ∧ way.Nodup ∧
        way.IsChain model.Calls ∧
        ∀ n, (target, n) ∈ model.callees start unlimited → way.length = n + 1 := by
  have hbound : ∀ id n, IsDistance model.calleesOf start id n → n ≤ model.methods.size :=
    fun id n => distance_le_size fun _ _ => hasHandle_of_mem_calleesOf hcalls
  have hturned : ∀ n, IsDistance model.calleesOf start target n ↔
      IsDistance model.callersOf target start n :=
    fun n => isDistance_reverse fun _ _ => mem_calleesOf.trans (mem_callersOf hids).symm
  refine ⟨fun maxDepth n => ?_, fun unlimited hunlimited => ⟨?_, fun way hway => ?_⟩⟩
  · rw [mem_callees_iff hcalls, mem_callers_iff hids, hturned]
  · rw [callPath?, exists_path_iff hbound hne]
    constructor
    · rintro ⟨n, hdistance⟩
      have hle := hbound target n hdistance
      refine ⟨n, (mem_callees_iff hcalls).2 ⟨?_, by omega, hdistance⟩⟩
      rw [Nat.one_le_iff_ne_zero]
      rintro rfl
      exact hne (IsDistance.start_iff.1 hdistance)
    · rintro ⟨n, hlisted⟩
      exact ⟨n, ((mem_callees_iff hcalls).1 hlisted).2.2⟩
  · obtain ⟨n, hdistance, hshortest⟩ := path?_spec hne hway
    refine ⟨hshortest.head, hshortest.last, hshortest.nodup, ?_, ?_⟩
    · exact hshortest.steps.imp fun _ _ => mem_calleesOf.1
    · intro m hlisted
      have hsame := ((mem_callees_iff hcalls).1 hlisted).2.2.unique hdistance
      rw [hsame]
      exact hshortest.length

/-- From outside the circle its first method is reached over the last one, and from there nothing
leads back. -/
theorem circle_agrees :
    circle.CallsClosed ∧ circle.MethodsNumbered ∧ (⟨3⟩ : MethodId) ≠ ⟨0⟩ ∧
    (⟨3⟩, 2) ∈ circle.callers ⟨0⟩ 5 ∧
    (∀ way, circle.callPath? ⟨3⟩ ⟨0⟩ = some way → way.IsChain circle.Calls ∧ way.length = 3) ∧
    ¬ ∃ way, circle.callPath? ⟨0⟩ ⟨3⟩ = some way := by
  have hcalls : circle.CallsClosed := by decide
  have hids : circle.MethodsNumbered := by decide
  obtain ⟨hboth, hways⟩ := callGraph_agrees hcalls hids ⟨3⟩ ⟨0⟩ (by decide)
  obtain ⟨-, hback⟩ := callGraph_agrees hcalls hids ⟨0⟩ ⟨3⟩ (by decide)
  refine ⟨hcalls, hids, by decide, (hboth 5 2).1 (by decide), fun way hway => ?_, ?_⟩
  · obtain ⟨-, -, -, hsteps, hlength⟩ := (hways 4 (by decide)).2 way hway
    exact ⟨hsteps, hlength 2 (by decide)⟩
  · rw [(hback 4 (by decide)).1]
    rintro ⟨n, hlisted⟩
    have hmethod : (⟨3⟩ : MethodId) ∈ (circle.callees ⟨0⟩ 4).map Prod.fst :=
      List.mem_map_of_mem hlisted
    exact absurd hmethod (by decide)

end ReferenceModel

end FactGraph
