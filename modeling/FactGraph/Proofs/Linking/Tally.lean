import FactGraph.Metrics.Relations
import FactGraph.Proofs.Linking.Draft.Steps
import FactGraph.Proofs.Linking.Ends
import FactGraph.Proofs.Linking.Occurrence
import FactGraph.Proofs.Resolution.Settled
import Mathlib.Algebra.BigOperators.Pi
import Mathlib.Algebra.Group.Pi.Lemmas
import Mathlib.Algebra.GroupWithZero.Nat

/-!
# Counting relations

The tally of a state says how often each type refers to others so far, by the kind of the relation.
Names are linked, members are written down and calls are set aside without any effect on it. Only
the metrics of a declaration count, and one count of a metric is added to the tally of its type as a
whole, wherever its name leads to, unless the name leads to no type.

## Main definitions

* `RelationEdge.total`: the sum of the counts of a kind
* `DraftState.tally`: the totals of all types of a state
* `DraftM.KeepsTally`, `DraftM.Tallies`: a step leaves the tally as it is, or adds to it
* `MetricFact.linkedCount`: what a metric counts of types

## Main results

* `keepsTally_draftMethod` and its like: members count nothing
* `tallies_draftMetric`: what a metric adds
-/

namespace FactGraph

/-! ## Totals -/

namespace RelationEdge

/-- **The sum of the counts of one kind.** -/
def total (edges : List RelationEdge) (kind : RelationKind) : Nat :=
  ((edges.filter fun edge => edge.relation = kind).map count).sum

@[simp] theorem total_nil : total [] = 0 := rfl

theorem total_cons (edge : RelationEdge) (edges : List RelationEdge) :
    total (edge :: edges) = Pi.single edge.relation edge.count + total edges := by
  funext kind
  by_cases hkind : edge.relation = kind
  · subst hkind
    simp [total]
  · simp [total, hkind]

/-- A count that is raised or new is counted as a whole. -/
theorem total_add (relation : RelationKind) (target : TypeId) (count : Nat)
    (edges : List RelationEdge) :
    total (add relation target count edges) = total edges + Pi.single relation count := by
  induction edges with
  | nil => simp [add, total_cons]
  | cons edge edges ih =>
    unfold add
    split
    next hsame =>
      rw [total_cons, total_cons, hsame.1, Pi.single_add]
      exact add_right_comm _ _ _
    next => rw [total_cons, total_cons, ih, add_assoc]

end RelationEdge

/-- Counts by type and kind. -/
abbrev Tally := TypeId → RelationKind → Nat

/-- **How often each type refers to others so far**, by the kind of the relation. -/
def DraftState.tally (s : DraftState) : Tally :=
  fun id => (s.model.type? id).elim 0 fun node => RelationEdge.total node.relations

namespace DraftState

variable {s : DraftState}

/-- A new type refers to nothing. -/
theorem tally_push {node : TypeNode} (h : node.relations = []) :
    DraftState.tally { s with model := { s.model with types := s.model.types.push node } } =
      s.tally := by
  funext id
  change (s.model.types.push node)[id.idx]?.elim 0 _ = (s.model.types[id.idx]?).elim 0 _
  rw [Array.getElem?_push]
  split
  next heq => simp [heq, h]
  next => rfl

/-- The tally after one type was changed. -/
theorem tally_modify {id : TypeId} (hid : s.model.hasHandle id) {change : TypeNode → TypeNode}
    {part : RelationKind → Nat}
    (h : ∀ node, RelationEdge.total (change node).relations =
      RelationEdge.total node.relations + part) :
    DraftState.tally { s with model := { s.model with
      types := s.model.types.modify id.idx change } } = s.tally + (Pi.single id part : Tally) := by
  funext other
  change (s.model.types.modify id.idx change)[other.idx]?.elim 0 _ =
    (s.model.types[other.idx]?).elim 0 _ + (Pi.single id part : Tally) other
  rw [Array.getElem?_modify]
  by_cases hother : id = other
  · subst hother
    obtain ⟨node, hnode⟩ := ReferenceModel.exists_type hid
    change s.model.types[id.idx]? = some node at hnode
    simp [hnode, h]
  · have hne : ¬id.idx = other.idx := fun heq => hother (congrArg Handle.mk heq)
    simp [hne, Pi.single_eq_of_ne' hother]

end DraftState

namespace DraftM

variable {α : Type} {s : DraftState}

/-! ## Steps that count -/

/-- However the step ends, the tally is as it was. -/
abbrev KeepsTally (step : DraftM α) : Prop :=
  Along (fun s s' => s'.tally = s.tally) step

instance : IsPreorder DraftState fun s s' => s'.tally = s.tally where
  refl _ := rfl
  trans _ _ _ h h' := h'.trans h

/-- **However the step ends, it has added the part to the tally.** -/
def Tallies (step : DraftM Unit) (part : Tally) : Prop :=
  ∀ s, Ends s step fun _ s' => s'.tally = s.tally + part

namespace Tallies

variable {step : DraftM Unit} {part : Tally}

theorem of_keepsTally (h : KeepsTally step) : Tallies step 0 :=
  fun s => (h s).mono fun _ _ heq => by rw [heq, add_zero]

theorem forM {f : α → DraftM Unit} {part : α → Tally} (h : ∀ x, Tallies (f x) (part x))
    (xs : List α) : Tallies (xs.forM f) (xs.map part).sum := by
  induction xs with
  | nil => exact of_keepsTally (.pure ())
  | cons x xs ih =>
    refine fun s => (h x s).bind fun _ s₁ heq₁ => (ih s₁).mono fun _ _ heq₂ => ?_
    rw [heq₂, heq₁, List.map_cons, List.sum_cons, add_assoc]

end Tallies

theorem keepsTally_report (finding : Diagnostic) : KeepsTally (report finding) :=
  fun _ => ends_modify rfl

theorem tallies_modifyType (id : TypeId) {change : TypeNode → TypeNode}
    {part : RelationKind → Nat}
    (h : ∀ node, RelationEdge.total (change node).relations =
      RelationEdge.total node.relations + part) :
    Tallies (modifyType id change) (Pi.single id part) := by
  intro s
  refine ends_require_hasHandle.bind ?_
  rintro _ _ ⟨hid, rfl⟩
  exact ends_modify (s.tally_modify hid h)

theorem keepsTally_modifyType (id : TypeId) {change : TypeNode → TypeNode}
    (h : ∀ node, (change node).relations = node.relations) :
    KeepsTally (modifyType id change) := by
  have hnone : Tallies (modifyType id change) (Pi.single id 0) :=
    tallies_modifyType id fun node => by rw [h, add_zero]
  rw [Pi.single_zero] at hnone
  exact fun s => (hnone s).mono fun _ _ heq => heq.trans (add_zero s.tally)

end DraftM

namespace Linker

open DraftM

variable {linker : Linker} {project : ProjectId} {typeParameters : List String}

/-! ## Names -/

/-- Asking for a type adds at most one that refers to nothing. -/
theorem keepsTally_draftTypeFor (fullName : String) (project : ProjectId) :
    KeepsTally (linker.draftTypeFor fullName project) := by
  refine (along_require project).bind fun _ => along_model.bind fun m => ?_
  split
  · exact .pure _
  · refine along_model.bind fun m => ?_
    split
    · exact .pure _
    · exact along_model.bind fun _ s => ends_modify_pure (s.tally_push rfl)

mutual

theorem keepsTally_draftTree (project : ProjectId) (typeParameters : List String) :
    ∀ tree : TypeName, KeepsTally (linker.draftTree project typeParameters tree)
  | ⟨base, args, suffix⟩ => by
    unfold draftTree
    refine (keepsTally_draftTrees project typeParameters args).bind fun links => ?_
    dsimp only
    split
    · exact .pure _
    · exact (keepsTally_draftTypeFor base project).map.bind fun _ => .pure _

theorem keepsTally_draftTrees (project : ProjectId) (typeParameters : List String) :
    ∀ trees : List TypeName, KeepsTally (linker.draftTrees project typeParameters trees)
  | [] => by
    unfold draftTrees
    exact .pure []
  | tree :: trees => by
    unfold draftTrees
    exact (keepsTally_draftTree project typeParameters tree).bind fun _ =>
      (keepsTally_draftTrees project typeParameters trees).bind fun _ => .pure _

end

theorem keepsTally_draftName (name : String) :
    KeepsTally (linker.draftName project typeParameters name) := by
  unfold draftName
  exact keepsTally_draftTree project typeParameters (TypeName.parse name)

theorem keepsTally_draftTypeRef (ref : TypeRef) :
    KeepsTally (linker.draftTypeRef project typeParameters ref) := by
  unfold draftTypeRef
  exact keepsTally_draftName ref.fullName

theorem keepsTally_draftAttributes (attributes : List AttributeFact) :
    KeepsTally (linker.draftAttributes project typeParameters attributes) :=
  .mapM fun fact => (keepsTally_draftTypeRef fact.typeRef).bind fun _ => .pure _

/-! ## Members -/

section Members

variable {scope : MemberScope} {method : MethodId}

theorem keepsTally_draftParameter (fact : ParameterFact) :
    KeepsTally (linker.draftParameter scope method fact) := by
  unfold draftParameter
  split
  · refine (keepsTally_draftTypeRef fact.typeRef).bind fun typeLink => ?_
    refine (keepsTally_draftAttributes fact.attributes).bind fun attributes => ?_
    exact along_model.bind fun _ _ => ends_modify rfl
  · exact keepsTally_report _

theorem keepsTally_draftLocalVariable (fact : LocalVariableFact) :
    KeepsTally (linker.draftLocalVariable scope method fact) := by
  unfold draftLocalVariable
  split
  · refine (keepsTally_draftTypeRef fact.typeRef).bind fun typeLink => ?_
    exact along_model.bind fun _ _ => ends_modify rfl
  · exact keepsTally_report _

theorem keepsTally_draftCollect (methodName : String) (fact : CallFact) :
    KeepsTally (draftCollect scope method methodName fact) := by
  unfold draftCollect
  split
  · exact keepsTally_report _
  · exact fun _ => ends_modify rfl

theorem keepsTally_draftMethodHead (owner : MethodOwner) (head : MethodHead) :
    KeepsTally (linker.draftMethodHead scope owner head) := by
  have hreturn : KeepsTally (linker.draftReturnType scope head.returnType) := by
    unfold draftReturnType
    split
    · exact (keepsTally_draftTypeRef _).map
    · exact .pure none
  unfold draftMethodHead
  refine hreturn.bind fun returnType => ?_
  refine (keepsTally_draftAttributes head.attributes).bind fun attributes => ?_
  have hadd : KeepsTally (addMethod fun id =>
      { id, name := head.name, kind := owner.kind, containingType := scope.type
        containingMethod := owner.containingMethod
        containingProperty := owner.containingProperty
        accessModifier := head.accessModifier, modifier := head.modifier
        genericParameters := head.genericParameters, returnType, attributes
        cyclomaticComplexity := head.cyclomaticComplexity }) :=
    along_model.bind fun _ _ => ends_modify_pure rfl
  refine hadd.bind fun method => ?_
  refine (Along.forM keepsTally_draftParameter).bind fun _ => ?_
  refine (Along.forM keepsTally_draftLocalVariable).bind fun _ => ?_
  exact (Along.forM (keepsTally_draftCollect head.name)).bind fun _ => .pure _

mutual

theorem keepsTally_draftMethod (scope : MemberScope) (owner : MethodOwner) :
    ∀ fact : MethodFact, KeepsTally (linker.draftMethod scope owner fact)
  | ⟨head, localFunctions⟩ => by
    unfold draftMethod
    split
    · exact keepsTally_report _
    · exact (keepsTally_draftMethodHead owner head).bind fun method =>
        keepsTally_draftMethods _ _ localFunctions

/-- **Methods count nothing**, with their local functions. -/
theorem keepsTally_draftMethods (scope : MemberScope) (owner : MethodOwner) :
    ∀ facts : List MethodFact, KeepsTally (linker.draftMethods scope owner facts)
  | [] => by
    unfold draftMethods
    exact .pure ()
  | fact :: facts => by
    unfold draftMethods
    exact (keepsTally_draftMethod scope owner fact).bind fun _ =>
      keepsTally_draftMethods scope owner facts

end

theorem keepsTally_draftDestructor (fact : MethodFact) :
    KeepsTally (linker.draftDestructor scope fact) := by
  refine along_model.bind fun m => ?_
  split
  · exact keepsTally_report _
  · exact keepsTally_draftMethod scope _ fact

theorem keepsTally_linkDestructors (destructor : Option MethodFact) :
    KeepsTally (destructor.forM (linker.draftDestructor scope)) := by
  cases destructor with
  | none => exact .pure ()
  | some fact => exact keepsTally_draftDestructor fact

theorem keepsTally_draftField (fact : FieldFact) : KeepsTally (linker.draftField scope fact) := by
  unfold draftField
  split
  · refine (keepsTally_draftTypeRef fact.typeRef).bind fun typeLink => ?_
    refine (keepsTally_draftAttributes fact.attributes).bind fun attributes => ?_
    exact along_model.bind fun _ _ => ends_modify rfl
  · exact keepsTally_report _

theorem keepsTally_draftProperty (fact : PropertyFact) :
    KeepsTally (linker.draftProperty scope fact) := by
  unfold draftProperty
  split
  · refine (keepsTally_draftTypeRef fact.typeRef).bind fun typeLink => ?_
    refine (keepsTally_draftAttributes fact.attributes).bind fun attributes => ?_
    have hadd : KeepsTally (addProperty fun id =>
        { id, name := fact.name, typeLink, containingType := scope.type
          accessModifier := fact.accessModifier, modifier := fact.modifier, attributes }) :=
      along_model.bind fun _ _ => ends_modify_pure rfl
    exact hadd.bind fun property => keepsTally_draftMethods scope _ fact.accessors
  · exact keepsTally_report _

/-- A base type is a link, and is not counted. -/
theorem keepsTally_draftBaseType (typeName : String) (ref : TypeRef) :
    KeepsTally (linker.draftBaseType scope typeName ref) := by
  unfold draftBaseType
  split
  · refine (keepsTally_draftTypeRef ref).bind fun link => keepsTally_modifyType _ fun node => ?_
    split <;> rfl
  · exact keepsTally_report _

end Members

end Linker

/-! ## Metrics -/

namespace TypeName

/-- **The name is one of a type**: it has a base, and is no generic parameter in scope. -/
def NamesType (parameters : List String) (name : TypeName) : Prop :=
  name.base ≠ "" ∧ ¬name.IsParameter parameters

instance (parameters : List String) (name : TypeName) :
    Decidable (name.IsParameter parameters) :=
  decidable_of_iff (name.args.isEmpty ∧ name.base ∈ parameters) (by simp [IsParameter])

instance (parameters : List String) (name : TypeName) : Decidable (name.NamesType parameters) :=
  inferInstanceAs (Decidable (_ ∧ _))

/-- Only what is in scope matters, not how often or in which order. -/
theorem namesType_congr {parameters others : List String} {name : TypeName}
    (h : ∀ parameter, parameter ∈ others ↔ parameter ∈ parameters) :
    name.NamesType others ↔ name.NamesType parameters := by
  rw [NamesType, NamesType, IsParameter, IsParameter, h]

end TypeName

/-- **What a metric counts of types**: the counts of its names of types. -/
def MetricFact.linkedCount (parameters : List String) (fact : MetricFact) : Nat :=
  ((fact.counts.entries.filter fun entry =>
    (TypeName.parse entry.1).NamesType parameters).map Prod.snd).sum

/-- **What the metrics of a declaration count of types**, by kind. -/
def TypeFact.linkedCounts (parameters : List String) (fact : TypeFact) (kind : RelationKind) :
    Nat :=
  ((fact.metrics.filter fun metric => metric.relation = kind).map
    (MetricFact.linkedCount parameters)).sum

/-- What is added for some elements only. -/
theorem sum_map_filter {α M : Type} [AddMonoid M] (p : α → Prop) [DecidablePred p] (f : α → M)
    (xs : List α) :
    ((xs.filter fun x => p x).map f).sum = (xs.map fun x => if p x then f x else 0).sum := by
  induction xs with
  | nil => rfl
  | cons x xs ih => by_cases hx : p x <;> simp [hx, ih]

namespace Linker

open DraftM

variable {linker : Linker} {scope : MemberScope} {s : DraftState}

/-- A link has a target if its name is one of a type. -/
theorem ends_draftName_target (project : ProjectId) (parameters : List String) (name : String) :
    Ends s (linker.draftName project parameters name) fun link _ =>
      link.target.isSome ↔ (TypeName.parse name).NamesType parameters := by
  unfold draftName
  generalize TypeName.parse name = tree
  obtain ⟨base, args, suffix⟩ := tree
  have hany {α : Type} {s : DraftState} {step : DraftM α} : Ends s step fun _ _ => True :=
    fun _ _ _ => trivial
  unfold draftTree
  refine hany.bind fun links s₁ _ => ?_
  dsimp only
  split
  next hnone =>
    refine .pure ?_
    simp [TypeName.NamesType, TypeName.IsParameter] at hnone ⊢
    tauto
  next hsome =>
    have htarget : Ends s₁ (some <$> linker.draftTypeFor base project)
        fun target _ => target.isSome :=
      Ends.map hany fun _ _ _ => rfl
    refine htarget.bind fun target s₂ htarget => .pure ?_
    simp [TypeName.NamesType, TypeName.IsParameter, htarget] at hsome ⊢
    tauto

/-- **One count of a metric is counted as a whole**, if its name is one of a type. -/
theorem tallies_draftCount (linker : Linker) (scope : MemberScope) (relation : RelationKind)
    (name : String) (count : Nat) :
    Tallies (linker.draftCount scope relation name count) (Pi.single scope.type (Pi.single relation
      (if (TypeName.parse name).NamesType scope.typeParameters then count else 0))) := by
  have hnothing {step : DraftM Unit} (hstep : KeepsTally step)
      (hfree : ¬(TypeName.parse name).NamesType scope.typeParameters) :
      Tallies step (Pi.single scope.type (Pi.single relation
        (if (TypeName.parse name).NamesType scope.typeParameters then count else 0))) := by
    rw [if_neg hfree, Pi.single_zero, Pi.single_zero]
    exact .of_keepsTally hstep
  unfold draftCount
  split
  next =>
    intro s
    refine ((keepsTally_draftName name s).and (ends_draftName_target _ _ name)).bind
      fun link s₁ ⟨heq, htarget⟩ => ?_
    rw [← heq]
    split
    next target hsome =>
      rw [if_pos (htarget.1 (by rw [hsome]; rfl))]
      exact tallies_modifyType scope.type (fun node => RelationEdge.total_add _ _ _ _) s₁
    next hnone =>
      refine hnothing (.pure ()) (fun hnames => ?_) s₁
      rw [← htarget, hnone] at hnames
      cases hnames
  next hblank =>
    refine hnothing (.pure ()) fun hnames => hnames.1 (Resolver.parse_base_of_isBlank ?_)
    simpa using hblank

/-- The parts of one type are parts of that type. -/
theorem sum_map_single {α ι M : Type} [DecidableEq ι] [AddCommMonoid M] (i : ι) (f : α → M)
    (xs : List α) :
    (xs.map fun x => (Pi.single i (f x) : ι → M)).sum = Pi.single i (xs.map f).sum := by
  induction xs with
  | nil => simp
  | cons x xs ih =>
    rw [List.map_cons, List.sum_cons, ih, List.map_cons, List.sum_cons, Pi.single_add]

theorem tallies_draftMetric (linker : Linker) (scope : MemberScope) (fact : MetricFact) :
    Tallies (linker.draftMetric scope fact) (Pi.single scope.type (Pi.single fact.relation
      (fact.linkedCount scope.typeParameters))) := by
  have hall := Tallies.forM (fun entry : String × Nat =>
    tallies_draftCount linker scope fact.relation entry.1 entry.2)
    fact.counts.entries
  rw [sum_map_single, sum_map_single, ← sum_map_filter] at hall
  exact hall

/-- **What the metrics of a declaration add to the tally.** -/
theorem tallies_linkMetrics (fact : TypeFact) :
    Tallies (fact.metrics.forM (linker.draftMetric scope))
      (Pi.single scope.type (fact.linkedCounts scope.typeParameters)) := by
  have hall := Tallies.forM (tallies_draftMetric linker scope) fact.metrics
  rw [sum_map_single] at hall
  have hcounts : fact.linkedCounts scope.typeParameters = (fact.metrics.map fun metric =>
      Pi.single metric.relation (metric.linkedCount scope.typeParameters)).sum := by
    funext kind
    rw [TypeFact.linkedCounts, sum_map_filter, Pi.list_sum_apply, List.map_map]
    refine congrArg List.sum (List.map_congr_left fun metric _ => ?_)
    rw [Function.comp_apply, Pi.single_apply]
    exact if_congr eq_comm rfl rfl
  rw [hcounts]
  exact hall

end Linker

end FactGraph
