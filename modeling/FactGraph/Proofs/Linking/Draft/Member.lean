import FactGraph.Proofs.Linking.Draft.TypeLink
import FactGraph.Proofs.Linking.Record

/-!
# Members are linked as in draft

A member gets its handle before its links are made, and is added after that. In draft it gets the
handle when it is added. Both are the same handle, since making links adds no members
(`SameMembers.count`). A method is added before what is in it, and is entered behind all of that, so
there is a stack of methods that wait, each of them inside of the one below it.

## Main definitions

* `MethodOwner.Open`: methods can be added in this place while others wait

## Main results

* `follows_linkTyped`: the links of a member, which bring no member
* `follows_linkMethod`, `follows_linkMethods`: methods with their local functions
* `follows_linkMembers`: all that a fragment adds to its type
-/

namespace FactGraph

/-- **Methods can be added in this place** while others wait: what they will be in is known to be
there, and they are inside of all methods that wait. -/
structure MethodOwner.Open (owner : MethodOwner) (type : TypeId) (waiting : List WaitingMethod)
    (known : List ModelNode) : Prop where
  fits : owner.Fits
  type : .of type ∈ known
  property : ∀ id, owner.containingProperty = some id → .of id ∈ known
  method : ∀ id, owner.containingMethod = some id → .of id ∈ known
  inside : ∀ method ∈ waiting, owner.IsInside method.id

namespace Linker

open LinkM

variable {linker : Linker} {full : LinkState} {s : DraftState} {waiting : List WaitingMethod}
  {known : List ModelNode} {scope : MemberScope}

/-! ## Members with a type -/

/-- **A type reference and attributes are linked**, and no member has come meanwhile: a handle that
was taken before is still the next one. -/
theorem follows_linkTyped {γ δ : Type} {next : TypeLink → List AttributeLink → LinkM γ}
    {next' : TypeLink → List AttributeLink → DraftM δ}
    {goal : γ → δ → LinkState → DraftState → Prop} (h : full.Realizes waiting known s)
    (ref : TypeRef) (facts : List AttributeFact)
    (hnext : ∀ link links full' s', full'.Realizes waiting known s' → SameMembers s s' →
      Follows full' s' (next link links) (next' link links) goal) :
    Follows full s
      (linker.linkTypeRef scope.project scope.typeParameters ref >>= fun link =>
        linker.linkAttributes scope.project scope.typeParameters facts >>= next link)
      (linker.draftTypeRef scope.project scope.typeParameters ref >>= fun link =>
        linker.draftAttributes scope.project scope.typeParameters facts >>= next' link) goal := by
  refine ((follows_linkTypeRef h ref).under (keeps_draftTypeRef ref s)).bind ?_
  rintro link _ full₁ s₁ ⟨⟨rfl, h₁⟩, hkept₁⟩
  refine ((follows_linkAttributes h₁ facts).under (keeps_draftAttributes facts s₁)).bind ?_
  rintro links _ full₂ s₂ ⟨⟨rfl, h₂⟩, hkept₂⟩
  exact hnext link links full₂ s₂ h₂ (hkept₁.trans hkept₂)

/-! ## Parts of methods -/

theorem follows_linkParameter (h : full.Realizes waiting known s) {method : MethodId}
    (hmethod : .of method ∈ known) (fact : ParameterFact) :
    Follows full s (linker.linkParameter scope method fact)
      (linker.draftParameter scope method fact) fun _ _ full' s' =>
        full'.Realizes waiting known s' := by
  unfold linkParameter draftParameter
  split
  next =>
    refine Follows.first (run_nextHandle h .parameter) ?_
    refine follows_linkTyped h _ _ fun typeLink attributes full₁ s₁ h₁ hkept => ?_
    rw [hkept.count (by decide)]
    exact follows_addParameter h₁ (by rfl) (by rfl) (h₁.known _ hmethod)
  next => exact follows_report h _

theorem follows_linkLocalVariable (h : full.Realizes waiting known s) {method : MethodId}
    (hmethod : .of method ∈ known) (fact : LocalVariableFact) :
    Follows full s (linker.linkLocalVariable scope method fact)
      (linker.draftLocalVariable scope method fact) fun _ _ full' s' =>
        full'.Realizes waiting known s' := by
  unfold linkLocalVariable draftLocalVariable
  split
  next =>
    refine Follows.first (run_nextHandle h .localVariable) ?_
    refine ((follows_linkTypeRef h fact.typeRef).under (keeps_draftTypeRef fact.typeRef s)).bind ?_
    rintro typeLink _ full₁ s₁ ⟨⟨rfl, h₁⟩, hkept₁⟩
    rw [hkept₁.count (by decide)]
    exact follows_addLocalVariable h₁ (by rfl) (by rfl) (h₁.known _ hmethod)
  next => exact follows_report h _

theorem follows_collectCall (h : full.Realizes waiting known s) (method : MethodId)
    (methodName : String) (fact : CallFact) :
    Follows full s (collectCall scope method methodName fact)
      (draftCollect scope method methodName fact) fun _ _ full' s' =>
        full'.Realizes waiting known s' := by
  unfold collectCall draftCollect
  split
  next => exact follows_report h _
  next => exact follows_postpone h _

theorem follows_linkReturnType (h : full.Realizes waiting known s) (returnType : Option TypeRef) :
    Follows full s (linker.linkReturnType scope returnType)
      (linker.draftReturnType scope returnType) (Agrees waiting known) := by
  unfold linkReturnType draftReturnType
  cases returnType.filter isNamedRef with
  | some ref => exact (follows_linkTypeRef h ref).map some
  | none => exact .pure ⟨rfl, h⟩

/-! ## Methods -/

theorem hasDestructor_of_methods {model model' : ReferenceModel}
    (h : model'.methods = model.methods) (type : TypeId) :
    hasDestructor model' type = hasDestructor model type := by
  rw [hasDestructor, hasDestructor, h]

/-- The method waits from then on. -/
theorem follows_linkMethodHead {owner : MethodOwner} (h : full.Realizes waiting known s)
    (hopen : owner.Open scope.type waiting known)
    (honly : owner.kind = .destructor → hasDestructor s.model scope.type = false)
    (head : MethodHead) :
    Follows full s (linker.linkMethodHead scope owner head)
      (linker.draftMethodHead scope owner head) fun a b full' s' =>
        Agrees (⟨a, scope.type, owner⟩ :: waiting) (.of a :: known) a b full' s' := by
  refine Follows.first (run_nextHandle h .method) ?_
  refine ((follows_linkReturnType h head.returnType).under
    (keeps_draftReturnType head.returnType s)).bind ?_
  rintro returnType _ full₁ s₁ ⟨⟨rfl, h₁⟩, hkept₁⟩
  refine ((follows_linkAttributes h₁ head.attributes).under
    (keeps_draftAttributes head.attributes s₁)).bind ?_
  rintro attributes _ full₂ s₂ ⟨⟨rfl, h₂⟩, hkept₂⟩
  have hkept := hkept₁.trans hkept₂
  have honly₂ : owner.kind = .destructor → hasDestructor s₂.model scope.type = false := by
    rwa [hasDestructor_of_methods hkept.methods]
  rw [hkept.count (by decide)]
  refine Follows.bind (follows_addMethod h₂ (by rfl) (by rfl) (by rfl) hopen.fits
    (h₂.known _ hopen.type) (fun id hid => h₂.known _ (hopen.property id hid))
    (fun id hid => h₂.known _ (hopen.method id hid)) hopen.inside honly₂) ?_
  rintro _ method full₃ s₃ ⟨rfl, h₃⟩
  refine (Follows.forM h₃ fun fact _ _ _ h' =>
    follows_linkParameter h' (List.mem_cons_self ..) fact).bind ?_
  intro _ _ full₄ s₄ h₄
  refine (Follows.forM h₄ fun fact _ _ _ h' =>
    follows_linkLocalVariable h' (List.mem_cons_self ..) fact).bind ?_
  intro _ _ full₅ s₅ h₅
  refine (Follows.forM h₅ fun fact _ _ _ h' => follows_collectCall h' _ head.name fact).bind ?_
  intro _ _ full₆ s₆ h₆
  exact .pure ⟨rfl, h₆⟩

/-- A method that was made and waits is entered. -/
theorem run_enterLinked {type : TypeId} {owner : MethodOwner} (method : Option MethodId)
    (h : full.Realizes ((method.map fun id => ⟨id, type, owner⟩).toList ++ waiting) known s) :
    ∃ full', (method.forM (enterMethod type owner)).run full = .ok ((), full') ∧
      full'.Realizes waiting known s := by
  cases method with
  | none => exact ⟨full, rfl, h⟩
  | some id => exact run_enterMethod h

mutual

/-- **A method follows the draft**, with its local functions. It waits to be entered. -/
theorem follows_linkMethod :
    ∀ (fact : MethodFact) {scope : MemberScope} {owner : MethodOwner}
      {waiting : List WaitingMethod} {known : List ModelNode} {full : LinkState} {s : DraftState},
      full.Realizes waiting known s → owner.Open scope.type waiting known →
      (owner.kind = .destructor → hasDestructor s.model scope.type = false) →
      Follows full s (linker.linkMethod scope owner fact) (linker.draftMethod scope owner fact)
        fun a _ full' s' => full'.Realizes
          ((a.map fun id => ⟨id, scope.type, owner⟩).toList ++ waiting) known s'
  | ⟨head, localFunctions⟩, scope, owner, waiting, known, full, s, h, hopen, honly => by
    unfold linkMethod draftMethod
    split
    next =>
      refine (follows_report h _).last ?_
      exact fun _ _ full₁ s₁ h₁ => ⟨none, full₁, rfl, h₁⟩
    next =>
      refine Follows.bind (follows_linkMethodHead h (by exact hopen) (by exact honly) head) ?_
      rintro method _ full₁ s₁ ⟨rfl, h₁⟩
      have hinner : MethodOwner.Open { kind := .localFunction, containingMethod := some method }
          scope.type (⟨method, scope.type, owner⟩ :: waiting) (.of method :: known) := by
        refine ⟨⟨rfl, rfl⟩, List.mem_cons_of_mem _ hopen.type, nofun, fun id hid => ?_, ?_⟩
        · obtain rfl := Option.some.inj hid
          exact List.mem_cons_self ..
        · refine List.forall_mem_cons.2 ⟨⟨rfl, rfl, method, rfl, Nat.le_refl _⟩, ?_⟩
          intro other hother
          exact ⟨rfl, rfl, method, rfl, Nat.le_of_lt (List.rel_of_pairwise_cons h₁.ordered hother)⟩
      refine Follows.last (follows_linkMethods localFunctions h₁ (by exact hinner) nofun) ?_
      intro _ _ full₂ s₂ h₂
      exact ⟨some method, full₂, rfl, h₂.forget (List.subset_cons_self ..)⟩

/-- **The methods of a list follow the draft**, and each of them is entered. -/
theorem follows_linkMethods :
    ∀ (facts : List MethodFact) {scope : MemberScope} {owner : MethodOwner}
      {waiting : List WaitingMethod} {known : List ModelNode} {full : LinkState} {s : DraftState},
      full.Realizes waiting known s → owner.Open scope.type waiting known →
      owner.kind ≠ .destructor →
      Follows full s (linker.linkMethods scope owner facts)
        (linker.draftMethods scope owner facts) fun _ _ full' s' =>
          full'.Realizes waiting known s'
  | [], scope, owner, waiting, known, full, s, h, _, _ => by
    unfold linkMethods draftMethods
    exact .pure h
  | fact :: facts, scope, owner, waiting, known, full, s, h, hopen, hkind => by
    unfold linkMethods draftMethods
    refine (follows_linkMethod fact h hopen fun heq => absurd heq hkind).bind ?_
    intro method _ full₁ s₁ h₁
    obtain ⟨full₂, hrun, h₂⟩ := run_enterLinked method h₁
    exact Follows.first hrun (follows_linkMethods facts h₂ hopen hkind)

end

/-! ## Destructors -/

/-- A type has its destructor in its list if a destructor says that it is in the type. -/
theorem isSome_destructor (model : ReferenceModel) (node : TypeNode) :
    (model.listType [] node).destructor.isSome = hasDestructor model node.id := by
  rw [Bool.eq_iff_iff, hasDestructor, Array.any_eq_true']
  simp [ReferenceModel.listType, ReferenceModel.enteredWhere, ReferenceModel.handlesWhere, and_comm]

theorem follows_linkDestructor (h : full.Realizes [] known s) (htype : .of scope.type ∈ known)
    (fact : MethodFact) :
    Follows full s (linker.linkDestructor scope fact) (linker.draftDestructor scope fact)
      fun _ _ full' s' => full'.Realizes [] known s' := by
  obtain ⟨node, hnode⟩ := ReferenceModel.exists_type (h.known _ htype)
  refine Follows.first (run_typeAt_listed h hnode) ?_
  refine Follows.after DraftM.ends_model ?_
  rintro _ _ ⟨rfl, rfl⟩
  rw [isSome_destructor, h.numbered.type_id hnode]
  split
  next => exact follows_report h _
  next hnone =>
    have hopen : MethodOwner.Open { kind := .destructor } scope.type [] known :=
      ⟨⟨rfl, rfl⟩, htype, nofun, nofun, by simp⟩
    unfold linkMethods
    refine (follows_linkMethod fact h hopen fun _ => Bool.eq_false_iff.2 hnone).last ?_
    intro method _ full₁ s₁ h₁
    obtain ⟨full₂, hrun, h₂⟩ := run_enterLinked method h₁
    unfold linkMethods
    exact ⟨(), full₂, (run_bind hrun).trans rfl, h₂⟩

/-! ## Fields and properties -/

theorem follows_linkField (h : full.Realizes [] known s) (htype : .of scope.type ∈ known)
    (fact : FieldFact) :
    Follows full s (linker.linkField scope fact) (linker.draftField scope fact)
      fun _ _ full' s' => full'.Realizes [] known s' := by
  unfold linkField draftField
  split
  next =>
    refine Follows.first (run_nextHandle h .field) ?_
    refine follows_linkTyped h _ _ fun typeLink attributes full₁ s₁ h₁ hkept => ?_
    rw [hkept.count (by decide)]
    exact follows_addField h₁ (by rfl) (by rfl) (h₁.known _ htype)
  next => exact follows_report h _

theorem follows_linkProperty (h : full.Realizes [] known s) (htype : .of scope.type ∈ known)
    (fact : PropertyFact) :
    Follows full s (linker.linkProperty scope fact) (linker.draftProperty scope fact)
      fun _ _ full' s' => full'.Realizes [] known s' := by
  unfold linkProperty draftProperty
  split
  next =>
    refine Follows.first (run_nextHandle h .property) ?_
    refine follows_linkTyped h _ _ fun typeLink attributes full₁ s₁ h₁ hkept => ?_
    rw [hkept.count (by decide)]
    refine Follows.bind
      (follows_addProperty h₁ (by rfl) (by rfl) (by rfl) (h₁.known _ htype)) ?_
    rintro _ _ full₂ s₂ ⟨rfl, h₂⟩
    have hopen : MethodOwner.Open
        { kind := .accessor, containingProperty := some ⟨s₁.model.count .property⟩ } scope.type []
        (.of (⟨s₁.model.count .property⟩ : PropertyId) :: known) := by
      refine ⟨⟨rfl, rfl⟩, List.mem_cons_of_mem _ htype, fun id hid => ?_, nofun, by simp⟩
      obtain rfl := Option.some.inj hid
      exact List.mem_cons_self ..
    refine (follows_linkMethods fact.accessors h₂ hopen nofun).mono ?_
    exact fun _ _ full₃ s₃ h₃ => h₃.forget (List.subset_cons_self ..)
  next => exact follows_report h _

/-! ## Base types, attributes and metrics -/

theorem follows_linkBaseType (h : full.Realizes [] known s) (typeName : String) (base : TypeRef) :
    Follows full s (linker.linkBaseType scope typeName base)
      (linker.draftBaseType scope typeName base)
      fun _ _ full' s' => full'.Realizes [] known s' := by
  unfold linkBaseType draftBaseType
  split
  next =>
    refine (follows_linkTypeRef h base).bind ?_
    rintro link _ full₁ s₁ ⟨rfl, h₁⟩
    refine (follows_modifyType h₁ scope.type (fun node => ?_) fun node => ?_).mono
      fun _ _ _ _ h₂ => h₂.1
    · split <;> rfl
    · exact apply_ite (s₁.model.listType []) ..
  next => exact follows_report h _

theorem follows_linkCount (h : full.Realizes [] known s) (relation : RelationKind) (name : String)
    (count : Nat) :
    Follows full s (linker.linkCount scope relation name count)
      (linker.draftCount scope relation name count)
      fun _ _ full' s' => full'.Realizes [] known s' := by
  unfold linkCount draftCount
  split
  next =>
    refine (follows_linkName h name).bind ?_
    rintro link _ full₁ s₁ ⟨rfl, h₁⟩
    cases link.target with
    | some target =>
      refine (follows_modifyType h₁ scope.type (fun _ => by rfl) fun _ => by rfl).mono ?_
      exact fun _ _ _ _ h₂ => h₂.1
    | none => exact .pure h₁
  next => exact .pure h

theorem follows_linkMetric (h : full.Realizes [] known s) (fact : MetricFact) :
    Follows full s (linker.linkMetric scope fact) (linker.draftMetric scope fact)
      fun _ _ full' s' => full'.Realizes [] known s' :=
  .forM h fun entry _ _ _ h₁ => follows_linkCount h₁ fact.relation entry.1 entry.2

/-! ## Fragments -/

/-- The types around a type are read off what types say they are in. -/
theorem enclosingTypes_congr {model model' : ReferenceModel}
    (h : ∀ id, (model'.type? id).bind TypeNode.containingType =
      (model.type? id).bind TypeNode.containingType) (steps : Nat) (start : Option TypeId) :
    enclosingTypes model' steps start = enclosingTypes model steps start := by
  induction steps generalizing start with
  | zero => rfl
  | succ steps ih =>
    cases start with
    | none => rfl
    | some type => rw [enclosingTypes, enclosingTypes, ih, h]

theorem typesAround_congr {model model' : ReferenceModel}
    (h : ∀ id, (model'.type? id).bind TypeNode.containingType =
      (model.type? id).bind TypeNode.containingType)
    (hcount : model'.types.size = model.types.size) (fragment : Fragment) :
    typesAround model' fragment = typesAround model fragment := by
  rw [typesAround, typesAround, enclosingTypes_congr h, h, hcount]

theorem typesAround_listed (model : ReferenceModel) (waiting : List MethodId)
    (fragment : Fragment) :
    typesAround (model.listed waiting) fragment = typesAround model fragment := by
  refine typesAround_congr (fun id => ?_) (by simp [ReferenceModel.listed]) fragment
  rw [ReferenceModel.listed_type?, Option.bind_map]
  rfl

theorem follows_typesAt (h : full.Realizes waiting known s) (ids : List TypeId) :
    Follows full s (ids.mapM typeAt) (ids.mapM DraftM.typeAt) fun a b full' s' =>
      a = b.map (s.model.listType (waiting.map WaitingMethod.id)) ∧ full' = full ∧ s' = s := by
  induction ids with
  | nil => exact .pure ⟨rfl, rfl, rfl⟩
  | cons id ids ih =>
    rw [List.mapM_cons, List.mapM_cons]
    refine (follows_typeAt h id).bind ?_
    rintro _ node _ _ ⟨rfl, -, rfl, rfl⟩
    refine ih.bind ?_
    rintro _ nodes _ _ ⟨rfl, rfl, rfl⟩
    exact .pure ⟨rfl, rfl, rfl⟩

theorem follows_parametersInScope (h : full.Realizes [] known s) {fragment : Fragment}
    (htype : .of fragment.type ∈ known) :
    Follows full s (parametersInScope fragment) (draftParametersInScope fragment)
      (Agrees [] known) := by
  refine Follows.first (run_require ((h.hasHandle _).trans (h.known _ htype))) ?_
  refine Follows.first (rfl : model.run full = .ok (full.model, full)) ?_
  refine Follows.after DraftM.ends_model ?_
  rintro _ _ ⟨rfl, rfl⟩
  rw [h.model, typesAround_listed]
  refine (follows_typesAt h _).bind ?_
  rintro _ nodes _ _ ⟨rfl, rfl, rfl⟩
  refine .pure ⟨?_, h⟩
  rw [List.flatMap_map]
  rfl

/-- **The members of a fragment follow the draft.** -/
theorem follows_linkMembers (h : full.Realizes [] known s) {fragment : Fragment}
    (htype : .of fragment.type ∈ known) :
    Follows full s (linker.linkMembers fragment) (linker.draftMembers fragment)
      fun _ _ full' s' => full'.Realizes [] known s' := by
  unfold linkMembers draftMembers
  refine (follows_parametersInScope h htype).bind ?_
  rintro typeParameters _ full₁ s₁ ⟨rfl, h₁⟩
  extract_lets scope
  have hdirect (kind : MethodKind) (hfits : MethodOwner.Fits { kind }) :
      MethodOwner.Open { kind } scope.type [] known :=
    ⟨hfits, htype, nofun, nofun, by simp⟩
  refine (Follows.forM h₁ fun base _ _ _ h' => follows_linkBaseType h' _ base).bind ?_
  intro _ _ full₂ s₂ h₂
  refine (follows_linkAttributes h₂ fragment.fact.attributes).bind ?_
  rintro attributes _ full₃ s₃ ⟨rfl, h₃⟩
  refine (follows_modifyType h₃ scope.type (fun _ => by rfl) fun _ => by rfl).bind ?_
  rintro _ _ full₄ s₄ ⟨h₄, -⟩
  refine (Follows.forM h₄ fun field _ _ _ h' => follows_linkField h' htype field).bind ?_
  intro _ _ full₅ s₅ h₅
  refine (Follows.forM h₅ fun property _ _ _ h' => follows_linkProperty h' htype property).bind ?_
  intro _ _ full₆ s₆ h₆
  refine (follows_linkMethods fragment.fact.methods h₆ (hdirect .method ⟨rfl, rfl⟩) nofun).bind ?_
  intro _ _ full₇ s₇ h₇
  refine (follows_linkMethods fragment.fact.constructors h₇ (hdirect .constructor ⟨rfl, rfl⟩)
    nofun).bind ?_
  intro _ _ full₈ s₈ h₈
  have hdestructor : Follows full₈ s₈ (fragment.fact.destructor.forM (linker.linkDestructor scope))
      (fragment.fact.destructor.forM (linker.draftDestructor scope))
      fun _ _ full' s' => full'.Realizes [] known s' := by
    cases fragment.fact.destructor with
    | none => exact .pure h₈
    | some fact => exact follows_linkDestructor h₈ htype fact
  refine hdestructor.bind ?_
  intro _ _ full₉ s₉ h₉
  exact .forM h₉ fun metric _ _ _ h' => follows_linkMetric h' metric

/-- **The members of all fragments follow the draft.** -/
theorem follows_forM_linkMembers (h : full.Realizes [] known s) {fragments : List Fragment}
    (htypes : ∀ fragment ∈ fragments, .of fragment.type ∈ known) :
    Follows full s (fragments.forM linker.linkMembers) (fragments.forM linker.draftMembers)
      fun _ _ full' s' => full'.Realizes [] known s' :=
  .forM h fun fragment hfragment _ _ h' => follows_linkMembers h' (htypes fragment hfragment)

end Linker

end FactGraph
