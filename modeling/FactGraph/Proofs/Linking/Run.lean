import FactGraph.Proofs.Linking.Draft.State
import FactGraph.Proofs.Model.Handles
import Mathlib.Logic.Relation

/-!
# Runs of the linker

A step of a link run changes the state by small moves: a node is added, a node is changed, a
finding is reported. `Reaches move s step post` says three things at once: started in `s`, the step
runs to its end and does not stop at a missing node; it gets there by moves that `move` allows; and
its result and final state are as `post` says.

What a kind of move can do is said once, by the relation `move`. Whatever such a move keeps, a
whole run keeps (`Relation.ReflTransGen` is closed under induction), so an invariant is proved by
looking at the moves and never at the code again.

## Main definitions

* `DraftM.Reaches`: a step runs to its end, by allowed moves, with the stated outcome

## Main results

* `Reaches.bind`, `Reaches.forM`, `Reaches.mapM`: runs one after the other
* `reaches_modify`: a change of the state is one move
* `reaches_typeAt` and its like: following a handle that leads to a node
-/

namespace FactGraph

section Forall₂

variable {α β : Type} {R : α → β → Prop} {xs : List α} {ys : List β}

theorem exists_of_forall₂_left (h : List.Forall₂ R xs ys) {x : α} (hx : x ∈ xs) :
    ∃ y ∈ ys, R x y := by
  induction h with
  | nil => cases hx
  | cons hxy _ ih =>
    rcases List.mem_cons.1 hx with rfl | hx
    · exact ⟨_, by simp, hxy⟩
    · obtain ⟨y, hy, hxy⟩ := ih hx
      exact ⟨y, by simp [hy], hxy⟩

theorem exists_of_forall₂_right (h : List.Forall₂ R xs ys) {y : β} (hy : y ∈ ys) :
    ∃ x ∈ xs, R x y := by
  obtain ⟨x, hx, hxy⟩ := exists_of_forall₂_left h.flip hy
  exact ⟨x, hx, hxy⟩

theorem forall₂_comp {γ : Type} {S : β → γ → Prop} {T : α → γ → Prop} {zs : List γ}
    (h : List.Forall₂ R xs ys) (h' : List.Forall₂ S ys zs)
    (hT : ∀ x y z, R x y → S y z → T x z) : List.Forall₂ T xs zs := by
  induction h generalizing zs with
  | nil => cases h'; exact .nil
  | cons hxy _ ih =>
    cases h' with
    | cons hyz h' => exact .cons (hT _ _ _ hxy hyz) (ih h')

end Forall₂

namespace DraftM

open Relation (ReflTransGen)

variable {α β : Type} {move : DraftState → DraftState → Prop} {s : DraftState}

/-- **The step runs to its end** from `s`, by moves of the given kind, and its result and the
state it ends in are as `post` says. -/
def Reaches (move : DraftState → DraftState → Prop) (s : DraftState) (step : DraftM α)
    (post : α → DraftState → Prop) : Prop :=
  ∃ a s', step.run s = .ok (a, s') ∧ ReflTransGen move s s' ∧ post a s'

/-- Whatever every move keeps, a run by such moves keeps. -/
theorem keep_of_moves {holds : DraftState → Prop} {s' : DraftState} (h : ReflTransGen move s s')
    (hs : holds s) (hmove : ∀ s s', move s s' → holds s → holds s') : holds s' := by
  induction h with
  | refl => exact hs
  | tail _ hlast ih => exact hmove _ _ hlast ih

namespace Reaches

variable {step : DraftM α} {post : α → DraftState → Prop}

theorem pure {a : α} (h : post a s) : Reaches move s (Pure.pure a) post :=
  ⟨a, s, rfl, .refl, h⟩

theorem bind {next : α → DraftM β} {goal : β → DraftState → Prop} (h : Reaches move s step post)
    (hnext : ∀ a s', ReflTransGen move s s' → post a s' → Reaches move s' (next a) goal) :
    Reaches move s (step >>= next) goal := by
  obtain ⟨a, s₁, hrun, hpath, ha⟩ := h
  obtain ⟨b, s₂, hrun', hpath', hb⟩ := hnext a s₁ hpath ha
  refine ⟨b, s₂, ?_, hpath.trans hpath', hb⟩
  rw [StateT.run_bind, hrun]
  exact hrun'

theorem mono {goal : α → DraftState → Prop} (h : Reaches move s step post)
    (hgoal : ∀ a s', ReflTransGen move s s' → post a s' → goal a s') :
    Reaches move s step goal := by
  obtain ⟨a, s₁, hrun, hpath, ha⟩ := h
  exact ⟨a, s₁, hrun, hpath, hgoal a s₁ hpath ha⟩

theorem map {f : α → β} {goal : β → DraftState → Prop} (h : Reaches move s step post)
    (hgoal : ∀ a s', ReflTransGen move s s' → post a s' → goal (f a) s') :
    Reaches move s (f <$> step) goal := by
  rw [map_eq_pure_bind]
  exact h.bind fun a s' hpath ha => .pure (hgoal a s' hpath ha)

/-- A run by moves of one kind is a run by moves of a wider kind. -/
theorem widen {wider : DraftState → DraftState → Prop} (h : Reaches move s step post)
    (hmove : ∀ s₁ s₂, move s₁ s₂ → wider s₁ s₂) : Reaches wider s step post := by
  obtain ⟨a, s₁, hrun, hpath, ha⟩ := h
  exact ⟨a, s₁, hrun, ReflTransGen.mono hmove _ _ hpath, ha⟩

/-- Steps one after the other, each of which can be made wherever the ones before it have led. -/
theorem forM {f : α → DraftM Unit} {xs : List α}
    (h : ∀ x ∈ xs, ∀ s', ReflTransGen move s s' → Reaches move s' (f x) fun _ _ => True) :
    Reaches move s (xs.forM f) fun _ _ => True := by
  induction xs generalizing s with
  | nil => exact .pure trivial
  | cons x xs ih =>
    show Reaches move s (f x >>= fun _ => xs.forM f) _
    refine (h x (by simp) s .refl).bind fun _ s₁ hpath _ => ih fun y hy s₂ hpath' => ?_
    exact h y (by simp [hy]) s₂ (hpath.trans hpath')

/-- The same with results. What holds of a result is kept by the later moves. -/
theorem mapM {f : α → DraftM β} {xs : List α} {holds : α → β → DraftState → Prop}
    (hkept : ∀ x b s₁ s₂, holds x b s₁ → ReflTransGen move s₁ s₂ → holds x b s₂)
    (h : ∀ x ∈ xs, ∀ s', ReflTransGen move s s' → Reaches move s' (f x) (holds x)) :
    Reaches move s (xs.mapM f) fun bs s' => List.Forall₂ (fun x b => holds x b s') xs bs := by
  induction xs generalizing s with
  | nil => exact .pure .nil
  | cons x xs ih =>
    rw [List.mapM_cons]
    refine (h x (by simp) s .refl).bind fun b s₁ hpath hb => ?_
    refine (ih fun y hy s₂ hpath' => h y (by simp [hy]) s₂ (hpath.trans hpath')).bind
      fun bs s₂ hpath' hbs => .pure (.cons (hkept x b s₁ s₂ hb hpath') hbs)

end Reaches

/-! ## Single steps -/

/-- A change of the state is one move. -/
theorem reaches_modify {f : DraftState → DraftState} {post : Unit → DraftState → Prop}
    (hmove : move s (f s)) (h : post () (f s)) : Reaches move s (modify f) post :=
  ⟨(), f s, rfl, .single hmove, h⟩

/-- Looking at the model changes nothing. -/
theorem reaches_model : Reaches move s model fun m s' => m = s.model ∧ s = s' :=
  ⟨s.model, s, rfl, .refl, rfl, rfl⟩

theorem reaches_require {kind : NodeKind} {id : Handle kind} (h : s.model.hasHandle id) :
    Reaches move s (require id) fun _ s' => s = s' := by
  refine ⟨(), s, ?_, .refl, rfl⟩
  simp [require, model, h]
  rfl

/-- Following a handle that leads to a node gives the node, and changes nothing. -/
theorem reaches_lookUp {kind : NodeKind} {id : Handle kind} {look : ReferenceModel → Option α}
    {node : α} (h : look s.model = some node) :
    Reaches move s (do orMissing id (look (← model)))
      fun a s' => look s.model = some a ∧ s = s' := by
  refine reaches_model.bind ?_
  rintro _ _ - ⟨rfl, rfl⟩
  rw [h]
  exact .pure ⟨rfl, rfl⟩

theorem reaches_typeAt {id : TypeId} (h : s.model.hasHandle id) :
    Reaches move s (typeAt id) fun node s' => s.model.type? id = some node ∧ s = s' :=
  have ⟨_, hnode⟩ := ReferenceModel.exists_type h
  reaches_lookUp hnode

/-- Following the handles of a list, one after the other. -/
theorem reaches_typesAt {ids : List TypeId} (h : ∀ id ∈ ids, s.model.hasHandle id) :
    Reaches move s (ids.mapM typeAt) fun nodes s' =>
      List.Forall₂ (fun id node => s.model.type? id = some node) ids nodes ∧ s = s' := by
  induction ids with
  | nil => exact .pure ⟨.nil, rfl⟩
  | cons id ids ih =>
    rw [List.mapM_cons]
    refine (reaches_typeAt (h id (by simp))).bind ?_
    rintro node _ - ⟨hnode, rfl⟩
    refine (ih fun other hother => h other (by simp [hother])).bind ?_
    rintro nodes _ - ⟨hnodes, rfl⟩
    exact .pure ⟨.cons hnode hnodes, rfl⟩

theorem reaches_methodAt {id : MethodId} (h : s.model.hasHandle id) :
    Reaches move s (methodAt id) fun node s' => s.model.method? id = some node ∧ s = s' :=
  have ⟨_, hnode⟩ := ReferenceModel.exists_method h
  reaches_lookUp hnode

theorem reaches_projectAt {id : ProjectId} (h : s.model.hasHandle id) :
    Reaches move s (projectAt id) fun node s' => s.model.project? id = some node ∧ s = s' :=
  have ⟨_, hnode⟩ := ReferenceModel.exists_project h
  reaches_lookUp hnode

theorem reaches_fileAt {id : FileId} (h : s.model.hasHandle id) :
    Reaches move s (fileAt id) fun node s' => s.model.file? id = some node ∧ s = s' :=
  have ⟨_, hnode⟩ := ReferenceModel.exists_file h
  reaches_lookUp hnode

/-! ## Nodes that are added and changed

Each of these is a single move: the one that `hmove` allows. A new node is found at its handle. -/

section Moves

theorem reaches_report {finding : Diagnostic}
    (hmove : move s { s with diagnostics := s.diagnostics.push finding }) :
    Reaches move s (report finding) fun _ _ => True :=
  reaches_modify hmove trivial

theorem reaches_addNamespace {node : NamespaceId → NamespaceNode}
    (hmove : move s { s with model := { s.model with
      namespaces := s.model.namespaces.push (node ⟨s.model.namespaces.size⟩) } }) :
    Reaches move s (addNamespace node) fun id s' => s'.model.namespace? id = some (node id) :=
  ⟨_, _, rfl, .single hmove, Array.getElem?_push_size⟩

theorem reaches_addType {node : TypeId → TypeNode}
    (hmove : move s { s with model := { s.model with
      types := s.model.types.push (node ⟨s.model.types.size⟩) } }) :
    Reaches move s (addType node) fun id s' => s'.model.type? id = some (node id) :=
  ⟨_, _, rfl, .single hmove, Array.getElem?_push_size⟩

theorem reaches_addMethod {node : MethodId → MethodNode}
    (hmove : move s { s with model := { s.model with
      methods := s.model.methods.push (node ⟨s.model.methods.size⟩) } }) :
    Reaches move s (addMethod node) fun id s' => s'.model.method? id = some (node id) :=
  ⟨_, _, rfl, .single hmove, Array.getElem?_push_size⟩

theorem reaches_addField {node : FieldId → FieldNode}
    (hmove : move s { s with model := { s.model with
      fields := s.model.fields.push (node ⟨s.model.fields.size⟩) } }) :
    Reaches move s (addField node) fun _ _ => True :=
  ⟨_, _, rfl, .single hmove, trivial⟩

theorem reaches_addProperty {node : PropertyId → PropertyNode}
    (hmove : move s { s with model := { s.model with
      properties := s.model.properties.push (node ⟨s.model.properties.size⟩) } }) :
    Reaches move s (addProperty node) fun id s' => s'.model.property? id = some (node id) :=
  ⟨_, _, rfl, .single hmove, Array.getElem?_push_size⟩

theorem reaches_addParameter {node : ParameterId → ParameterNode}
    (hmove : move s { s with model := { s.model with
      parameters := s.model.parameters.push (node ⟨s.model.parameters.size⟩) } }) :
    Reaches move s (addParameter node) fun _ _ => True :=
  ⟨_, _, rfl, .single hmove, trivial⟩

theorem reaches_addLocalVariable {node : LocalVariableId → LocalVariableNode}
    (hmove : move s { s with model := { s.model with
      localVariables := s.model.localVariables.push (node ⟨s.model.localVariables.size⟩) } }) :
    Reaches move s (addLocalVariable node) fun _ _ => True :=
  ⟨_, _, rfl, .single hmove, trivial⟩

theorem reaches_modifyType {id : TypeId} {change : TypeNode → TypeNode}
    (hid : s.model.hasHandle id)
    (hmove : move s { s with model := { s.model with
      types := s.model.types.modify id.idx change } }) :
    Reaches move s (modifyType id change) fun _ _ => True := by
  refine (reaches_require hid).bind ?_
  rintro _ _ - rfl
  exact reaches_modify hmove trivial

theorem reaches_modifyMethod {id : MethodId} {change : MethodNode → MethodNode}
    (hid : s.model.hasHandle id)
    (hmove : move s { s with model := { s.model with
      methods := s.model.methods.modify id.idx change } }) :
    Reaches move s (modifyMethod id change) fun _ _ => True := by
  refine (reaches_require hid).bind ?_
  rintro _ _ - rfl
  exact reaches_modify hmove trivial

theorem reaches_modifyFile {id : FileId} {change : FileNode → FileNode}
    (hid : s.model.hasHandle id)
    (hmove : move s { s with model := { s.model with
      files := s.model.files.modify id.idx change } }) :
    Reaches move s (modifyFile id change) fun _ _ => True := by
  refine (reaches_require hid).bind ?_
  rintro _ _ - rfl
  exact reaches_modify hmove trivial

end Moves

end DraftM

end FactGraph
