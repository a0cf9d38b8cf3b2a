import FactGraph.Proofs.Linking.Draft.State
import Mathlib.Data.List.Forall2
import Mathlib.Order.Defs.Unbundled

/-!
# What holds whenever a step ends

That a link run gets to its end, and by which moves, is one thing (`DraftM.Reaches`); what exactly
it has done by then is another one. `Ends s step post` says no more than the second: if the step
ends, started in `s`, its result and final state are as `post` says. Nothing needs to be known of
handles for that, since a step that stops at a missing node has not ended.

A step that leads along a preorder of states, such as one that keeps some part of the state, is
put together from such steps.

## Main definitions

* `DraftM.Ends`: what holds whenever a step ends
* `DraftM.Along`: whenever the step ends, it has gone along a relation of states

## Main results

* `Ends.bind`, `Ends.mono`: steps one after the other
* `Ends.and`: two things that hold of one step
* `Along.bind`, `Along.mapM`, `Along.forM`: steps along a preorder
-/

namespace FactGraph.DraftM

variable {α β : Type} {s : DraftState}

/-! ## Runs that end -/

/-- **Whenever the step ends**, started in `s`, its result and the state it ends in are as `post`
says. -/
def Ends (s : DraftState) (step : DraftM α) (post : α → DraftState → Prop) : Prop :=
  ∀ a s', step.run s = .ok (a, s') → post a s'

namespace Ends

variable {step : DraftM α} {post : α → DraftState → Prop}

theorem pure {a : α} (h : post a s) : Ends s (Pure.pure a) post := by
  rintro _ _ hrun
  cases hrun
  exact h

theorem bind {next : α → DraftM β} {goal : β → DraftState → Prop} (h : Ends s step post)
    (hnext : ∀ a s', post a s' → Ends s' (next a) goal) : Ends s (step >>= next) goal := by
  intro b s' hrun
  rw [StateT.run_bind] at hrun
  cases hstep : step.run s with
  | error => rw [hstep] at hrun; cases hrun
  | ok result =>
    rw [hstep] at hrun
    exact hnext result.1 result.2 (h _ _ hstep) b s' hrun

theorem mono {goal : α → DraftState → Prop} (h : Ends s step post)
    (hgoal : ∀ a s', post a s' → goal a s') : Ends s step goal :=
  fun a s' hrun => hgoal a s' (h a s' hrun)

theorem and {post' : α → DraftState → Prop} (h : Ends s step post) (h' : Ends s step post') :
    Ends s step fun a s' => post a s' ∧ post' a s' :=
  fun a s' hrun => ⟨h a s' hrun, h' a s' hrun⟩

theorem map {f : α → β} {goal : β → DraftState → Prop} (h : Ends s step post)
    (hgoal : ∀ a s', post a s' → goal (f a) s') : Ends s (f <$> step) goal := by
  rw [map_eq_pure_bind]
  exact h.bind fun a s' ha => .pure (hgoal a s' ha)

end Ends

theorem ends_model : Ends s model fun m s' => m = s.model ∧ s = s' := by
  rintro _ _ hrun
  cases hrun
  exact ⟨rfl, rfl⟩

theorem ends_modify {f : DraftState → DraftState} {post : Unit → DraftState → Prop}
    (h : post () (f s)) : Ends s (modify f) post := by
  rintro _ _ hrun
  cases hrun
  exact h

/-- A change of the state with a result. -/
theorem ends_modify_pure {f : DraftState → DraftState} {a : α} {post : α → DraftState → Prop}
    (h : post a (f s)) : Ends s (modify f >>= fun _ => pure a) post := by
  rintro _ _ hrun
  cases hrun
  exact h

/-- A run that goes on has found the node. -/
theorem ends_require_hasHandle {kind : NodeKind} {id : Handle kind} :
    Ends s (require id) fun _ s' => s.model.hasHandle id ∧ s = s' := by
  unfold require
  refine ends_model.bind ?_
  rintro _ _ ⟨rfl, rfl⟩
  split
  next h => exact .pure ⟨h, rfl⟩
  next =>
    rintro _ _ hrun
    cases hrun

theorem ends_require {kind : NodeKind} {id : Handle kind} :
    Ends s (require id) fun _ s' => s = s' :=
  ends_require_hasHandle.mono fun _ _ h => h.2

theorem ends_orMissing {kind : NodeKind} {id : Handle kind} {node : Option α} :
    Ends s (orMissing id node) fun a s' => node = some a ∧ s = s' := by
  cases node with
  | none => rintro _ _ hrun; cases hrun
  | some a => exact .pure ⟨rfl, rfl⟩

theorem ends_typeAt {id : TypeId} :
    Ends s (typeAt id) fun node s' => s.model.type? id = some node ∧ s = s' := by
  refine ends_model.bind ?_
  rintro _ _ ⟨rfl, rfl⟩
  exact ends_orMissing

theorem ends_methodAt {id : MethodId} :
    Ends s (methodAt id) fun node s' => s.model.method? id = some node ∧ s = s' := by
  refine ends_model.bind ?_
  rintro _ _ ⟨rfl, rfl⟩
  exact ends_orMissing

theorem ends_projectAt {id : ProjectId} :
    Ends s (projectAt id) fun node s' => s.model.project? id = some node ∧ s = s' := by
  refine ends_model.bind ?_
  rintro _ _ ⟨rfl, rfl⟩
  exact ends_orMissing

theorem ends_fileAt {id : FileId} :
    Ends s (fileAt id) fun node s' => s.model.file? id = some node ∧ s = s' := by
  refine ends_model.bind ?_
  rintro _ _ ⟨rfl, rfl⟩
  exact ends_orMissing

/-- Following the handles of a list, one after the other. -/
theorem ends_typesAt (ids : List TypeId) :
    Ends s (ids.mapM typeAt) fun nodes s' =>
      List.Forall₂ (fun id node => s.model.type? id = some node) ids nodes ∧ s = s' := by
  induction ids with
  | nil => exact .pure ⟨.nil, rfl⟩
  | cons id ids ih =>
    rw [List.mapM_cons]
    refine ends_typeAt.bind ?_
    rintro node _ ⟨hnode, rfl⟩
    refine ih.bind ?_
    rintro nodes _ ⟨hnodes, rfl⟩
    exact .pure ⟨.cons hnode hnodes, rfl⟩

/-! ## Steps along a preorder -/

/-- **However the step ends**, it has led from the one state to the other along the relation. -/
def Along (r : DraftState → DraftState → Prop) (step : DraftM α) : Prop :=
  ∀ s, Ends s step fun _ s' => r s s'

namespace Along

variable {r : DraftState → DraftState → Prop} [IsPreorder DraftState r]

theorem pure (a : α) : Along r (Pure.pure a) :=
  fun s => .pure (Std.Refl.refl s)

theorem bind {step : DraftM α} {next : α → DraftM β} (h : Along r step)
    (hnext : ∀ a, Along r (next a)) : Along r (step >>= next) :=
  fun s => (h s).bind fun a s' hstep => (hnext a s').mono fun _ s'' hrest =>
    IsTrans.trans s s' s'' hstep hrest

omit [IsPreorder DraftState r] in
theorem map {step : DraftM α} {f : α → β} (h : Along r step) : Along r (f <$> step) :=
  fun s => (h s).map fun _ _ hstep => hstep

omit [IsPreorder DraftState r] in
/-- What leads along a relation leads along a wider one. -/
theorem mono {wider : DraftState → DraftState → Prop} {step : DraftM α} (h : Along r step)
    (hwider : ∀ s s', r s s' → wider s s') : Along wider step :=
  fun s => (h s).mono fun _ s' => hwider s s'

theorem mapM {f : α → DraftM β} {xs : List α} (h : ∀ x, Along r (f x)) :
    Along r (xs.mapM f) := by
  induction xs with
  | nil => exact .pure []
  | cons x xs ih =>
    rw [List.mapM_cons]
    exact (h x).bind fun _ => ih.bind fun _ => .pure _

theorem forM {f : α → DraftM Unit} {xs : List α} (h : ∀ x, Along r (f x)) :
    Along r (xs.forM f) := by
  induction xs with
  | nil => exact .pure ()
  | cons x xs ih => exact (h x).bind fun _ => ih

end Along

theorem along_model {r : DraftState → DraftState → Prop} [IsPreorder DraftState r] :
    Along r model :=
  fun s => ends_model.mono fun _ _ h => h.2 ▸ Std.Refl.refl s

theorem along_require {r : DraftState → DraftState → Prop} [IsPreorder DraftState r]
    {kind : NodeKind} (id : Handle kind) : Along r (require id) :=
  fun s => ends_require.mono fun _ _ h => h ▸ Std.Refl.refl s

theorem along_typeAt {r : DraftState → DraftState → Prop} [IsPreorder DraftState r] (id : TypeId) :
    Along r (typeAt id) :=
  fun s => ends_typeAt.mono fun _ _ h => h.2 ▸ Std.Refl.refl s

end FactGraph.DraftM
