import FactGraph.Proofs.Linking.Ends
import FactGraph.Proofs.Linking.Ledger
import FactGraph.Proofs.Linking.Moves
import FactGraph.Proofs.Name.Canonical

/-!
# What linking members writes down

The ledger of a state is what a link run has written down so far. Looking names up, making
external types and setting calls aside leaves it as it is. A fragment adds exactly its kept
members, in their order, and counts everything that it skips; a second destructor of a type is
skipped as a whole.

That a run gets to its end is known already, so all that is said here is about runs that do.

## Main definitions

* `DraftState.ledger`: what a run has written down so far
* `DraftM.Keeps`: a step leaves members, findings and calls as they are
* `DraftM.Enters`: a step adds a part to the ledger that shows some members of a type
* `Members.ofFact`: what a declaration adds to its type

## Main results

* `ends_draftMethods`: what is written for methods with their local functions
* `enters_draftMembers`: what is written for a fragment
-/

namespace FactGraph

/-! ## The ledger of a state -/

/-- A method node without its links. -/
def MethodNode.entry (node : MethodNode) : MethodEntry :=
  { id := node.id, name := node.name, type := node.containingType, owner := node.owner }

/-- A property node without its links. -/
def PropertyNode.entry (node : PropertyNode) : PropertyEntry :=
  { id := node.id, type := node.containingType, label := node.label }

/-- **What a run has written down so far.** -/
def DraftState.ledger (s : DraftState) : Ledger where
  fields := s.model.fields.toList.map fun node => (node.containingType, node.label)
  properties := s.model.properties.toList.map PropertyNode.entry
  methods := s.model.methods.toList.map MethodNode.entry
  parameters := s.model.parameters.toList.map fun node => (node.containingMethod, node.label)
  localVariables :=
    s.model.localVariables.toList.map fun node => (node.containingMethod, node.label)
  skipped := (s.diagnostics.ofKind .malformedFact).length

theorem DraftState.ledger_methods_length (s : DraftState) :
    s.ledger.methods.length = s.model.methods.size := by
  simp [ledger]

theorem DraftState.ledger_properties_length (s : DraftState) :
    s.ledger.properties.length = s.model.properties.size := by
  simp [ledger]

/-- **Both states have the same members, findings and calls that were set aside.** Types,
namespaces and files may differ. -/
structure SameMembers (s s' : DraftState) : Prop where
  fields : s'.model.fields = s.model.fields
  properties : s'.model.properties = s.model.properties
  methods : s'.model.methods = s.model.methods
  parameters : s'.model.parameters = s.model.parameters
  localVariables : s'.model.localVariables = s.model.localVariables
  diagnostics : s'.diagnostics = s.diagnostics
  pending : s'.pending = s.pending

namespace SameMembers

variable {s s' s'' : DraftState}

theorem refl (s : DraftState) : SameMembers s s := by
  constructor <;> rfl

theorem trans (h : SameMembers s s') (h' : SameMembers s' s'') : SameMembers s s'' where
  fields := h'.fields.trans h.fields
  properties := h'.properties.trans h.properties
  methods := h'.methods.trans h.methods
  parameters := h'.parameters.trans h.parameters
  localVariables := h'.localVariables.trans h.localVariables
  diagnostics := h'.diagnostics.trans h.diagnostics
  pending := h'.pending.trans h.pending

instance : IsPreorder DraftState SameMembers where
  refl := refl
  trans _ _ _ := trans

theorem ledger (h : SameMembers s s') : s'.ledger = s.ledger := by
  unfold DraftState.ledger
  rw [h.fields, h.properties, h.methods, h.parameters, h.localVariables, h.diagnostics]

/-- The next handle of a kind of members is the same in both states. -/
theorem count (h : SameMembers s s') {kind : NodeKind}
    (hkind : kind ∈ [.field, .property, .method, .parameter, .localVariable]) :
    s.model.count kind = s'.model.count kind := by
  unfold ReferenceModel.count
  rw [h.fields, h.properties, h.methods, h.parameters, h.localVariables]
  cases kind <;> first | rfl | exact absurd hkind (by decide)

end SameMembers

namespace DraftM

variable {α β : Type} {s : DraftState}

/-! ## Steps that write nothing -/

/-- However the step ends, the members, the findings and the calls are as they were. -/
abbrev Keeps (step : DraftM α) : Prop :=
  Along SameMembers step

theorem keeps_modifyType (id : TypeId) (change : TypeNode → TypeNode) :
    Keeps (modifyType id change) :=
  (along_require id).bind fun _ _ => ends_modify (by constructor <;> rfl)

/-! ## Steps that write one part -/

/-- However the step ends, it has added the part to the ledger. -/
def Writes (step : DraftM Unit) (part : Ledger) : Prop :=
  ∀ s, Ends s step fun _ s' => s'.ledger = s.ledger ++ part

namespace Writes

theorem bind {step next : DraftM Unit} {part part' : Ledger} (h : Writes step part)
    (hnext : Writes next part') : Writes (step >>= fun _ => next) (part ++ part') :=
  fun s => (h s).bind fun _ s' heq => (hnext s').mono fun _ _ heq' => by
    rw [heq', heq, Ledger.append_assoc]

/-- What the steps of a list write, written one after the other. -/
theorem forM {f : α → DraftM Unit} {part : List α → Ledger} (hnil : part [] = {})
    (hcons : ∀ x xs, part (x :: xs) = part [x] ++ part xs) (h : ∀ x, Writes (f x) (part [x]))
    (xs : List α) : Writes (xs.forM f) (part xs) := by
  induction xs with
  | nil =>
    rw [hnil]
    exact fun s => .pure s.ledger.append_empty.symm
  | cons x xs ih =>
    rw [hcons]
    exact (h x).bind ih

end Writes

/-- A skipped member is counted. -/
theorem writes_skippedMember (context : DiagnosticContext) (what name : String) :
    Writes (report (.skippedMember context what name)) { skipped := 1 } := by
  refine fun s => ends_modify ?_
  ext1 <;> simp [DraftState.ledger, Diagnostics.ofKind, Diagnostics.push, Diagnostic.skippedMember]

end DraftM

namespace Linker

open DraftM

variable {linker : Linker} {s : DraftState}

/-! ## Names -/

/-- Asking for a type adds at most a type. -/
theorem ends_draftTypeFor (fullName : String) (project : ProjectId) :
    Ends s (linker.draftTypeFor fullName project) fun _ s' =>
      SameMembers s s' ∧ s.model.types.toList <+: s'.model.types.toList := by
  unfold draftTypeFor
  refine ends_require.bind ?_
  rintro _ _ rfl
  refine ends_model.bind ?_
  rintro _ _ ⟨rfl, rfl⟩
  split
  · exact .pure ⟨.refl s, List.prefix_rfl⟩
  · unfold draftExternal
    refine ends_model.bind ?_
    rintro _ _ ⟨rfl, rfl⟩
    split
    · exact .pure ⟨.refl s, List.prefix_rfl⟩
    · refine ends_model.bind ?_
      rintro _ _ ⟨rfl, rfl⟩
      exact ends_modify_pure ⟨by constructor <;> rfl, by simp⟩

variable {project : ProjectId} {typeParameters : List String}

mutual

/-- A link has the name of its tree, and making it writes nothing. -/
theorem ends_draftTree (project : ProjectId) (typeParameters : List String) :
    ∀ (tree : TypeName) (s : DraftState),
      Ends s (linker.draftTree project typeParameters tree) fun link s' =>
        link.name = tree.render ∧ SameMembers s s'
  | ⟨base, args, suffix⟩, s => by
    unfold draftTree
    refine (keeps_draftTrees project typeParameters args s).bind fun links s₁ heq => ?_
    dsimp only
    split
    · exact .pure ⟨rfl, heq⟩
    · have htarget : Ends s₁ (some <$> linker.draftTypeFor base project) fun _ s' =>
          SameMembers s s' := (ends_draftTypeFor base project).map fun _ _ h => heq.trans h.1
      exact htarget.bind fun _ _ heq' => .pure ⟨rfl, heq'⟩

theorem keeps_draftTrees (project : ProjectId) (typeParameters : List String) :
    ∀ trees : List TypeName, Keeps (linker.draftTrees project typeParameters trees)
  | [] => by
    unfold draftTrees
    exact .pure []
  | tree :: trees => by
    unfold draftTrees
    have hfirst : Keeps (linker.draftTree project typeParameters tree) :=
      fun s => (ends_draftTree project typeParameters tree s).mono fun _ _ h => h.2
    exact hfirst.bind fun _ => (keeps_draftTrees project typeParameters trees).bind fun _ => .pure _

end

/-- The link of a reference has its canonical name. -/
theorem ends_draftTypeRef (ref : TypeRef) :
    Ends s (linker.draftTypeRef project typeParameters ref) fun link s' =>
      link.name = ref.canonicalName ∧ SameMembers s s' := by
  unfold draftTypeRef draftName TypeRef.canonicalName
  exact ends_draftTree project typeParameters (TypeName.parse ref.fullName) s

theorem keeps_draftName (name : String) : Keeps (linker.draftName project typeParameters name) :=
  fun s => (ends_draftTree project typeParameters (TypeName.parse name) s).mono fun _ _ h => h.2

theorem keeps_draftTypeRef (ref : TypeRef) :
    Keeps (linker.draftTypeRef project typeParameters ref) :=
  keeps_draftName ref.fullName

theorem keeps_draftAttributes (attributes : List AttributeFact) :
    Keeps (linker.draftAttributes project typeParameters attributes) :=
  .mapM fun fact => (keeps_draftTypeRef fact.typeRef).bind fun _ => .pure _

/-! ## Methods -/

section Methods

variable {scope : MemberScope} {method : MethodId}

theorem keeps_draftReturnType (returnType : Option TypeRef) :
    Keeps (linker.draftReturnType scope returnType) := by
  unfold draftReturnType
  split
  · exact (keeps_draftTypeRef _).map
  · exact .pure none

/-- What is written for the parameters of a method. -/
def partOfParameters (method : MethodId) (facts : List ParameterFact) : Ledger where
  parameters := (facts.filter ParameterFact.isTyped).map fun fact => (method, fact.label)
  skipped := facts.countP (!·.isTyped)

theorem writes_linkParameters (facts : List ParameterFact) :
    Writes (facts.forM (linker.draftParameter scope method)) (partOfParameters method facts) := by
  refine .forM rfl (fun fact facts => ?_) (fun fact => ?_) facts
  · ext1 <;> cases h : fact.isTyped <;> simp [partOfParameters, h, Nat.add_comm]
  · unfold draftParameter
    split
    next h =>
      refine fun s => (ends_draftTypeRef fact.typeRef).bind fun link s₁ ⟨hname, heq⟩ => ?_
      refine (keeps_draftAttributes fact.attributes s₁).bind fun attributes s₂ heq₂ => ?_
      refine ends_model.bind ?_
      rintro _ _ ⟨rfl, rfl⟩
      refine ends_modify ?_
      rw [← heq.ledger, ← heq₂.ledger]
      ext1 <;> simp [DraftState.ledger, partOfParameters, ParameterFact.isTyped, h,
        ParameterNode.label, ParameterFact.label, hname]
    next h =>
      have hpart : partOfParameters method [fact] = { skipped := 1 } := by
        simp [partOfParameters, ParameterFact.isTyped, h]
      rw [hpart]
      exact writes_skippedMember _ _ _

/-- What is written for the local variables of a method. -/
def partOfLocalVariables (method : MethodId) (facts : List LocalVariableFact) : Ledger where
  localVariables :=
    (facts.filter LocalVariableFact.isTyped).map fun fact => (method, fact.label)
  skipped := facts.countP (!·.isTyped)

theorem writes_linkLocalVariables (facts : List LocalVariableFact) :
    Writes (facts.forM (linker.draftLocalVariable scope method))
      (partOfLocalVariables method facts) := by
  refine .forM rfl (fun fact facts => ?_) (fun fact => ?_) facts
  · ext1 <;> cases h : fact.isTyped <;> simp [partOfLocalVariables, h, Nat.add_comm]
  · unfold draftLocalVariable
    split
    next h =>
      refine fun s => (ends_draftTypeRef fact.typeRef).bind fun link s₁ ⟨hname, heq⟩ => ?_
      refine ends_model.bind ?_
      rintro _ _ ⟨rfl, rfl⟩
      refine ends_modify ?_
      rw [← heq.ledger]
      ext1 <;> simp [DraftState.ledger, partOfLocalVariables, LocalVariableFact.isTyped, h,
        LocalVariableNode.label, LocalVariableFact.label, hname]
    next h =>
      have hpart : partOfLocalVariables method [fact] = { skipped := 1 } := by
        simp [partOfLocalVariables, LocalVariableFact.isTyped, h]
      rw [hpart]
      exact writes_skippedMember _ _ _

/-- What is written for the calls of a method: only those without a name are counted. -/
def partOfCalls (facts : List CallFact) : Ledger where
  skipped := facts.countP fun fact => Text.isBlank fact.name

theorem writes_collectCalls (methodName : String) (facts : List CallFact) :
    Writes (facts.forM (draftCollect scope method methodName)) (partOfCalls facts) := by
  refine .forM rfl (fun fact facts => ?_) (fun fact => ?_) facts
  · ext1 <;> cases h : Text.isBlank fact.name <;> simp [partOfCalls, h, Nat.add_comm]
  · unfold draftCollect
    split
    next h =>
      have hpart : partOfCalls [fact] = { skipped := 1 } := by simp [partOfCalls, h]
      rw [hpart]
      exact writes_skippedMember _ _ _
    next h =>
      refine fun s => ends_modify ?_
      ext1 <;> simp [DraftState.ledger, partOfCalls, h]

theorem ends_draftMethodHead (owner : MethodOwner) (head : MethodHead) :
    Ends s (linker.draftMethodHead scope owner head) fun method s' =>
      method = ⟨s.ledger.methods.length⟩ ∧
        s'.ledger = s.ledger ++ .ofHead method scope.type owner head := by
  unfold draftMethodHead
  refine (keeps_draftReturnType head.returnType s).bind fun returnType s₁ heq₁ => ?_
  refine (keeps_draftAttributes head.attributes s₁).bind fun attributes s₂ heq₂ => ?_
  have hadd : Ends s₂ (addMethod fun id =>
      { id, name := head.name, kind := owner.kind, containingType := scope.type
        containingMethod := owner.containingMethod
        containingProperty := owner.containingProperty
        accessModifier := head.accessModifier, modifier := head.modifier
        genericParameters := head.genericParameters, returnType, attributes
        cyclomaticComplexity := head.cyclomaticComplexity }) fun method s' =>
      method = ⟨s.ledger.methods.length⟩ ∧ s'.ledger = s.ledger ++
        { methods := [{ id := method, name := head.name, type := scope.type, owner }] } := by
    refine ends_model.bind ?_
    rintro _ _ ⟨rfl, rfl⟩
    rw [← heq₁.ledger, ← heq₂.ledger, DraftState.ledger_methods_length]
    refine ends_modify_pure ⟨rfl, ?_⟩
    ext1 <;> simp [DraftState.ledger, MethodNode.entry, MethodNode.owner]
  refine hadd.bind fun method s₃ ⟨hmethod, heq₃⟩ => ?_
  refine (writes_linkParameters head.parameters s₃).bind fun _ s₄ heq₄ => ?_
  refine (writes_linkLocalVariables head.localVariables s₄).bind fun _ s₅ heq₅ => ?_
  refine (writes_collectCalls head.name head.calledMethods s₅).bind fun _ s₆ heq₆ =>
    .pure ⟨hmethod, ?_⟩
  rw [heq₆, heq₅, heq₄, heq₃]
  ext1 <;> simp [Ledger.ofHead, partOfParameters, partOfLocalVariables, partOfCalls,
    MethodHead.skips, Nat.add_assoc]

mutual

/-- What is written for a method: the place that it is in was there before it. -/
theorem ends_draftMethod {s : DraftState} {scope : MemberScope} {owner : MethodOwner}
    (howner : ∀ id, owner.containingMethod = some id → id.idx < s.ledger.methods.length) :
    ∀ fact : MethodFact, Ends s (linker.draftMethod scope owner fact) fun _ s' =>
      ∃ part : Ledger, s'.ledger = s.ledger ++ part ∧
        part.Records scope.type owner s.ledger.methods.length [fact]
  | ⟨head, localFunctions⟩ => by
    unfold draftMethod
    split
    next hblank =>
      refine (writes_skippedMember _ _ _ s).mono fun _ s₁ heq => ⟨_, heq, ?_⟩
      exact .skipped_only (by simp [MethodFact.isNamed, hblank])
        (by simp [MethodFact.skipsAll, MethodFact.skips, hblank])
    next hnamed =>
      refine (ends_draftMethodHead owner head).bind fun method s₁ ⟨hmethod, heq₁⟩ => ?_
      subst hmethod
      -- The method has been written, so its local functions are numbered from behind it.
      have hlength : s₁.ledger.methods.length = s.ledger.methods.length + 1 := by
        simp [heq₁, Ledger.ofHead]
      refine (ends_draftMethods (fun id hid => ?_) localFunctions).mono fun _ s₂ hinner => ?_
      · cases hid
        rw [hlength]
        exact Nat.lt_succ_self _
      · obtain ⟨part, heq₂, hpart⟩ := hinner
        rw [hlength] at hpart
        refine ⟨_, ?_, .method (Bool.eq_false_iff.2 hnamed) howner hpart⟩
        rw [heq₂, heq₁, Ledger.append_assoc]

/-- **What is written for the methods of a list** that have one owner. -/
theorem ends_draftMethods {s : DraftState} {scope : MemberScope} {owner : MethodOwner}
    (howner : ∀ id, owner.containingMethod = some id → id.idx < s.ledger.methods.length) :
    ∀ facts : List MethodFact, Ends s (linker.draftMethods scope owner facts) fun _ s' =>
      ∃ part : Ledger, s'.ledger = s.ledger ++ part ∧
        part.Records scope.type owner s.ledger.methods.length facts
  | [] => by
    unfold draftMethods
    exact .pure ⟨{}, s.ledger.append_empty.symm, .skipped_only rfl rfl⟩
  | fact :: facts => by
    unfold draftMethods
    refine (ends_draftMethod howner fact).bind fun _ s₁ ⟨part, heq₁, hpart⟩ => ?_
    have hlength : s₁.ledger.methods.length =
        s.ledger.methods.length + part.methods.length := by
      simp [heq₁]
    refine (ends_draftMethods (fun id hid => ?_) facts).mono fun _ s₂ ⟨others, heq₂, hothers⟩ =>
      ⟨part ++ others, ?_, ?_⟩
    · exact Nat.lt_of_lt_of_le (howner id hid) (by omega)
    · rw [heq₂, heq₁, Ledger.append_assoc]
    · exact .append howner hpart (hlength ▸ hothers)

end

end Methods

/-! ## Members -/

/-- Whether a type has a destructor can be read off the ledger. -/
theorem hasDestructor_eq_false {type : TypeId} : hasDestructor s.model type = false ↔
    s.ledger.methodsAt (.ofType type .destructor) = [] := by
  simp only [hasDestructor, Array.any_eq_false', DraftState.ledger, Ledger.methodsAt,
    MethodSlot.ofType, List.map_eq_nil_iff, List.filter_eq_nil_iff, List.mem_map,
    Array.mem_toList_iff, forall_exists_index, and_imp, forall_apply_eq_imp_iff₂,
    MethodNode.entry, MethodNode.owner, Bool.and_eq_true, decide_eq_true_eq]
  exact forall₂_congr fun node _ => not_congr and_comm

/-- States with the same destructors written down agree on whether there is one. -/
theorem hasDestructor_congr {s s' : DraftState} {type : TypeId}
    (h : s'.ledger.methodsAt (.ofType type .destructor) =
      s.ledger.methodsAt (.ofType type .destructor)) :
    hasDestructor s'.model type = hasDestructor s.model type := by
  rw [Bool.eq_iff_iff, ← not_iff_not, Bool.not_eq_true, Bool.not_eq_true, hasDestructor_eq_false,
    hasDestructor_eq_false, h]

/-- **The step adds a part to the ledger that speaks of itself only**, shows these members of the
type and none of any other, and counts so many skips. -/
def Enters (s : DraftState) (step : DraftM Unit) (type : TypeId) (members : Members)
    (skipped : Nat) : Prop :=
  Ends s step fun _ s' => ∃ part : Ledger, s'.ledger = s.ledger ++ part ∧
    part.Closed s.ledger.methods.length s.ledger.properties.length ∧
    part.Presents (.within type members) ∧ part.skipped = skipped

namespace Enters

variable {type : TypeId} {members others : Members} {count more : Nat} {step next : DraftM Unit}

theorem of_writes {part : Ledger} (h : Writes step part) (hclosed : ∀ m p, part.Closed m p)
    (hpresents : part.Presents (.within type members)) :
    Enters s step type members part.skipped :=
  (h s).mono fun _ _ heq => ⟨part, heq, hclosed _ _, hpresents, rfl⟩

/-- A part without a destructor leaves the type without one. -/
theorem hasDestructor_eq {s' : DraftState} {part : Ledger} (heq : s'.ledger = s.ledger ++ part)
    (hpart : part.Presents (.within type members)) (hnone : members.methods .destructor = []) :
    hasDestructor s'.model type = hasDestructor s.model type := by
  have hempty : part.methodsAt (.ofType type .destructor) = [] := by
    have hlength := (hpart.methods type .destructor rfl).length
    simpa [Members.within, hnone] using hlength
  apply hasDestructor_congr
  rw [heq, Ledger.methodsAt_append, hempty, List.append_nil]

theorem bind (h : Enters s step type members count)
    (hnext : ∀ s', (members.methods .destructor = [] →
      hasDestructor s'.model type = hasDestructor s.model type) →
      Enters s' next type others more) :
    Enters s (step >>= fun _ => next) type (members ++ others) (count + more) := by
  refine Ends.bind h fun _ s₁ ⟨part, heq₁, hclosed, hpresents, hcount⟩ => ?_
  refine (hnext s₁ fun hnone => hasDestructor_eq heq₁ hpresents hnone).mono
    fun _ s₂ ⟨part', heq₂, hclosed', hpresents', hmore⟩ => ⟨part ++ part', ?_, ?_, ?_, ?_⟩
  · rw [heq₂, heq₁, Ledger.append_assoc]
  · refine hclosed.append ?_
    simpa [heq₁] using hclosed'
  · have happend := hpresents.append hclosed hpresents' (by simpa [heq₁] using hclosed')
    simpa only [Members.within_append] using happend
  · rw [Ledger.append_skipped, hcount, hmore]

theorem afterKeeps {α : Type} {step : DraftM α} {next : α → DraftM Unit} (h : Keeps step)
    (hnext : ∀ a s', hasDestructor s'.model type = hasDestructor s.model type →
      Enters s' (next a) type members count) :
    Enters s (step >>= next) type members count := by
  refine Ends.bind (h s) fun a s₁ heq₁ => (hnext a s₁ ?_).mono fun _ s₂ hpart => ?_
  · apply hasDestructor_congr
    rw [heq₁.ledger]
  · rwa [heq₁.ledger] at hpart

theorem of_keeps (h : Keeps step) : Enters s step type {} 0 :=
  (h s).mono fun _ _ heq => ⟨{}, by rw [heq.ledger, Ledger.append_empty], .of_skipped _ _ 0,
    .of_fields type [] 0, rfl⟩

/-- A skipped member is counted and shows nothing. -/
theorem of_skippedMember (context : DiagnosticContext) (what name : String) :
    Enters s (report (.skippedMember context what name)) type {} 1 :=
  of_writes (writes_skippedMember context what name) (fun m p => .of_skipped m p 1)
    (.of_fields type [] 1)

/-- What the steps of a list show, one after the other. -/
theorem forM {α : Type} {f : α → DraftM Unit} (collect : List α → Members) (count : List α → Nat)
    (hnil : collect [] = {} ∧ count [] = 0)
    (hcons : ∀ x xs, collect (x :: xs) = collect [x] ++ collect xs ∧
      count (x :: xs) = count [x] + count xs)
    (h : ∀ x s, Enters s (f x) type (collect [x]) (count [x])) (xs : List α) (s : DraftState) :
    Enters s (xs.forM f) type (collect xs) (count xs) := by
  induction xs generalizing s with
  | nil =>
    rw [hnil.1, hnil.2]
    exact of_keeps (.pure ())
  | cons x xs ih =>
    rw [(hcons x xs).1, (hcons x xs).2]
    exact (h x s).bind fun s' _ => ih s'

end Enters

section Members

variable {scope : MemberScope}

theorem enters_draftMethods {kind : MethodKind} (hkind : kind.isDirect) (facts : List MethodFact) :
    Enters s (linker.draftMethods scope { kind } facts) scope.type
      (.ofKind kind (facts.filter MethodFact.isNamed)) (MethodFact.skipsAll facts) := by
  refine (ends_draftMethods (fun id hid => ?_) facts).mono
    fun _ s₁ ⟨part, heq, hpart⟩ => ⟨part, heq, ?_, hpart.presents hkind, hpart.skipped⟩
  · cases hid
  · exact hpart.closed rfl rfl

/-- **The destructor of a fragment** is written down unless the type has one already. -/
theorem enters_draftDestructor (fact : MethodFact) :
    Enters s (linker.draftDestructor scope fact) scope.type
      (.ofKind .destructor (if hasDestructor s.model scope.type then []
        else [fact].filter MethodFact.isNamed))
      (if hasDestructor s.model scope.type then 1 else fact.skips) := by
  unfold draftDestructor
  refine Ends.bind ends_model ?_
  rintro _ _ ⟨rfl, rfl⟩
  change Enters s (if hasDestructor s.model scope.type then _ else _) _ _ _
  split
  · have hnone : Members.ofKind .destructor [] = {} := by
      ext1 <;> simp [Members.ofKind]
    rw [hnone]
    exact .of_skippedMember _ _ _
  · have hone : Enters s (linker.draftMethods scope { kind := .destructor } [fact]) _ _ _ :=
      enters_draftMethods rfl [fact]
    unfold draftMethods draftMethods at hone
    simpa [MethodFact.skipsAll] using hone

/-! ### Fields, properties and base types -/

/-- Base types are links; only those without a name are counted. -/
theorem enters_linkBaseTypes (typeName : String) (facts : List TypeRef) :
    Enters s (facts.forM (linker.draftBaseType scope typeName)) scope.type {}
      (facts.countP (!isNamedRef ·)) := by
  refine .forM (fun _ => {}) (fun facts => facts.countP (!isNamedRef ·)) ⟨rfl, rfl⟩
    (fun ref refs => ⟨rfl, ?_⟩) (fun ref s => ?_) facts s
  · cases h : isNamedRef ref <;> simp [h, Nat.add_comm]
  · unfold draftBaseType
    split
    next h =>
      have hcount : [ref].countP (!isNamedRef ·) = 0 := by simp [h]
      rw [hcount]
      exact .of_keeps ((keeps_draftTypeRef ref).bind fun _ => keeps_modifyType _ _)
    next h =>
      have hcount : [ref].countP (!isNamedRef ·) = 1 := by simp [h]
      rw [hcount]
      exact .of_skippedMember _ _ _

/-- What is written for fields. -/
def partOfFields (type : TypeId) (facts : List FieldFact) : Ledger where
  fields := (facts.filter FieldFact.isComplete).map fun fact => (type, fact.label)
  skipped := facts.countP (!·.isComplete)

theorem writes_linkFields (facts : List FieldFact) :
    Writes (facts.forM (linker.draftField scope)) (partOfFields scope.type facts) := by
  refine .forM rfl (fun fact facts => ?_) (fun fact => ?_) facts
  · ext1 <;> cases h : fact.isComplete <;> simp [partOfFields, h, Nat.add_comm]
  · unfold draftField
    split
    next h =>
      refine fun s => (ends_draftTypeRef fact.typeRef).bind fun link s₁ ⟨hname, heq⟩ => ?_
      refine (keeps_draftAttributes fact.attributes s₁).bind fun attributes s₂ heq₂ => ?_
      refine ends_model.bind ?_
      rintro _ _ ⟨rfl, rfl⟩
      refine ends_modify ?_
      have hcomplete : fact.isComplete = true := h
      rw [← heq.ledger, ← heq₂.ledger]
      ext1 <;> simp [DraftState.ledger, partOfFields, hcomplete, FieldNode.label, FieldFact.label,
        hname]
    next h =>
      have hincomplete : fact.isComplete = false := Bool.eq_false_iff.2 h
      have hpart : partOfFields scope.type [fact] = { skipped := 1 } := by
        simp [partOfFields, hincomplete]
      rw [hpart]
      exact writes_skippedMember _ _ _

theorem enters_linkFields (facts : List FieldFact) :
    Enters s (facts.forM (linker.draftField scope)) scope.type
      { fields := facts.filter FieldFact.isComplete } (facts.countP (!·.isComplete)) :=
  .of_writes (writes_linkFields facts) (fun m p => by constructor <;>
    simp [partOfFields, Ledger.holders]) (.of_fields scope.type _ _)

/-- **A property with its accessors**: the accessors are in the property that was just made. -/
theorem enters_draftProperty (fact : PropertyFact) :
    Enters s (linker.draftProperty scope fact) scope.type
      { properties := [fact].filter PropertyFact.isComplete } fact.skips := by
  unfold draftProperty
  split
  next h =>
    have hcomplete : fact.isComplete = true := h
    refine Ends.bind (ends_draftTypeRef fact.typeRef) ?_
    rintro link s₁ ⟨hname, heq₁⟩
    refine (keeps_draftAttributes fact.attributes s₁).bind fun attributes s₂ heq₂ => ?_
    have hadd : Ends s₂ (addProperty fun id =>
        { id, name := fact.name, typeLink := link, containingType := scope.type
          accessModifier := fact.accessModifier, modifier := fact.modifier, attributes })
        fun property s' => property = ⟨s.ledger.properties.length⟩ ∧
          s'.ledger = s.ledger ++ .ofProperty property scope.type fact.label := by
      refine ends_model.bind ?_
      rintro _ _ ⟨rfl, rfl⟩
      rw [← heq₁.ledger, ← heq₂.ledger, DraftState.ledger_properties_length]
      refine ends_modify_pure ⟨rfl, ?_⟩
      ext1 <;> simp [DraftState.ledger, Ledger.ofProperty, PropertyNode.entry, PropertyNode.label,
        PropertyFact.label, hname]
    refine hadd.bind ?_
    rintro _ s₃ ⟨rfl, heq₃⟩
    have hlength : s₃.ledger.methods.length = s.ledger.methods.length := by
      simp [heq₃, Ledger.ofProperty]
    refine (ends_draftMethods (fun id hid => by cases hid) fact.accessors).mono ?_
    rintro _ s₄ ⟨part, heq₄, hpart⟩
    refine ⟨.ofProperty ⟨s.ledger.properties.length⟩ scope.type fact.label ++ part,
      ?_, ?_, ?_, ?_⟩
    · rw [heq₄, heq₃, Ledger.append_assoc]
    · rw [hlength] at hpart
      exact Ledger.closed_property hpart
    · simpa [hcomplete] using Ledger.presents_property hpart
    · simp [PropertyFact.skips, hcomplete, Ledger.ofProperty, hpart.skipped]
  next h =>
    have hincomplete : fact.isComplete = false := Bool.eq_false_iff.2 h
    have hskips : fact.skips = 1 := by simp [PropertyFact.skips, hincomplete]
    have hnone : [fact].filter PropertyFact.isComplete = [] := by simp [hincomplete]
    rw [hskips, hnone]
    exact .of_skippedMember _ _ _

theorem enters_linkProperties (facts : List PropertyFact) :
    Enters s (facts.forM (linker.draftProperty scope)) scope.type
      { properties := facts.filter PropertyFact.isComplete } (PropertyFact.skipsAll facts) := by
  refine .forM (fun facts => { properties := facts.filter PropertyFact.isComplete })
    PropertyFact.skipsAll ⟨rfl, rfl⟩
    (fun fact facts => ⟨?_, by simp [PropertyFact.skipsAll]⟩) (fun fact s => ?_) facts s
  · ext1
    · rfl
    · exact List.filter_append [fact] facts
    · rfl
  · exact enters_draftProperty fact

end Members

/-! ### Fragments -/

end Linker

/-- **What a declaration adds to its type**, which may have a destructor already. -/
def Members.ofFact (fact : TypeFact) (hasDestructor : Bool) : Members where
  fields := fact.fields.filter FieldFact.isComplete
  properties := fact.properties.filter PropertyFact.isComplete
  methods
    | .method => fact.methods.filter MethodFact.isNamed
    | .constructor => fact.constructors.filter MethodFact.isNamed
    | .destructor =>
      if hasDestructor then [] else fact.destructor.toList.filter MethodFact.isNamed
    | .accessor | .localFunction => []

namespace Linker

open DraftM

variable {linker : Linker} {s : DraftState}

theorem keeps_draftParametersInScope (fragment : Fragment) :
    Keeps (draftParametersInScope fragment) :=
  along_model.bind fun _ => (Along.mapM along_typeAt).bind fun _ => .pure _

/-- A relation is counted with its type, not written down as a member. -/
theorem keeps_draftCount {scope : MemberScope} (relation : RelationKind) (name : String)
    (count : Nat) : Keeps (linker.draftCount scope relation name count) := by
  unfold draftCount
  split
  · refine (keeps_draftName name).bind fun link => ?_
    split
    · exact keeps_modifyType _ _
    · exact .pure ()
  · exact .pure ()

theorem keeps_draftMetric {scope : MemberScope} (fact : MetricFact) :
    Keeps (linker.draftMetric scope fact) :=
  .forM fun entry => keeps_draftCount fact.relation entry.1 entry.2

/-- The destructor that a declaration has, if it has one. -/
theorem enters_linkDestructors {scope : MemberScope} (fact : TypeFact) :
    Enters s (fact.destructor.forM (linker.draftDestructor scope)) scope.type
      (.ofKind .destructor (if hasDestructor s.model scope.type then []
        else fact.destructor.toList.filter MethodFact.isNamed))
      (fact.destructorSkips (hasDestructor s.model scope.type)) := by
  unfold TypeFact.destructorSkips
  cases fact.destructor with
  | none =>
    have hnone : Members.ofKind .destructor [] = {} := by
      ext1 <;> simp [Members.ofKind]
    simpa [hnone] using (Enters.of_keeps (.pure ()) : Enters s (pure ()) scope.type {} 0)
  | some destructor => exact enters_draftDestructor destructor

/-- **What is written for a fragment**: exactly its kept members, in their order. -/
theorem enters_draftMembers (fragment : Fragment) :
    Enters s (linker.draftMembers fragment) fragment.type
      (.ofFact fragment.fact (hasDestructor s.model fragment.type))
      (fragment.fact.skips (hasDestructor s.model fragment.type)) := by
  have hmembers : Members.ofFact fragment.fact (hasDestructor s.model fragment.type) =
      {} ++ ({ fields := fragment.fact.fields.filter FieldFact.isComplete } ++
        ({ properties := fragment.fact.properties.filter PropertyFact.isComplete } ++
          (.ofKind .method (fragment.fact.methods.filter MethodFact.isNamed) ++
            (.ofKind .constructor (fragment.fact.constructors.filter MethodFact.isNamed) ++
              (.ofKind .destructor (if hasDestructor s.model fragment.type then []
                else fragment.fact.destructor.toList.filter MethodFact.isNamed) ++ {}))))) := by
    ext1
    · simp [Members.ofFact, Members.ofKind]
    · simp [Members.ofFact, Members.ofKind]
    · funext kind
      cases kind <;> simp [Members.ofFact, Members.ofKind]
  have hskips : fragment.fact.skips (hasDestructor s.model fragment.type) =
      fragment.fact.baseTypes.countP (!isNamedRef ·) +
        (fragment.fact.fields.countP (!·.isComplete) +
          (PropertyFact.skipsAll fragment.fact.properties +
            (MethodFact.skipsAll fragment.fact.methods +
              (MethodFact.skipsAll fragment.fact.constructors +
                (fragment.fact.destructorSkips (hasDestructor s.model fragment.type) + 0))))) := by
    unfold TypeFact.skips
    omega
  rw [hmembers, hskips]
  unfold draftMembers
  refine .afterKeeps (keeps_draftParametersInScope fragment) fun typeParameters s₁ h₁ => ?_
  dsimp only
  refine (enters_linkBaseTypes fragment.fact.name fragment.fact.baseTypes).bind fun s₂ h₂ => ?_
  refine .afterKeeps (keeps_draftAttributes fragment.fact.attributes) fun attributes s₃ h₃ => ?_
  refine .afterKeeps (keeps_modifyType _ _) fun _ s₄ h₄ => ?_
  refine (enters_linkFields fragment.fact.fields).bind fun s₅ h₅ => ?_
  refine (enters_linkProperties fragment.fact.properties).bind fun s₆ h₆ => ?_
  refine (enters_draftMethods rfl fragment.fact.methods).bind fun s₇ h₇ => ?_
  refine (enters_draftMethods rfl fragment.fact.constructors).bind fun s₈ h₈ => ?_
  have hsame : hasDestructor s₈.model fragment.type = hasDestructor s.model fragment.type := by
    rw [h₈ rfl, h₇ rfl, h₆ rfl, h₅ rfl, h₄, h₃, h₂ rfl, h₁]
  rw [← hsame]
  exact (enters_linkDestructors fragment.fact).bind fun s₉ _ =>
    .of_keeps (.forM keeps_draftMetric)

/-! ## Calls -/

end Linker

/-- **Only methods of external types are added** on the way from the one state to the other, and
nothing is skipped. What is added has signatures of its own. -/
structure AddsSynthetic (s s' : DraftState) : Prop where
  part : ∃ part : Ledger, s'.ledger = s.ledger ++ part ∧
    part.Closed s.ledger.methods.length s.ledger.properties.length ∧
    part.fields = [] ∧ part.properties = [] ∧ part.skipped = 0 ∧
    ∀ entry ∈ part.methods, ∃ node ∈ s'.model.types, node.isExternal ∧ node.id = entry.type
  types : s.model.types.toList <+: s'.model.types.toList
  apart : s.ledger.Closed 0 0 → ∃ added : List Signature,
    s'.ledger.signatures = s.ledger.signatures ++ added ∧ added.Nodup ∧
    ∀ signature ∈ added, signature.kind = .method ∧ signature ∉ s.ledger.signatures

namespace AddsSynthetic

variable {s s' s'' : DraftState}

theorem of_ledger (hledger : s'.ledger = s.ledger)
    (htypes : s.model.types.toList <+: s'.model.types.toList) : AddsSynthetic s s' where
  part := ⟨{}, by rw [hledger, Ledger.append_empty], .of_skipped _ _ 0, rfl, rfl, rfl, by simp⟩
  types := htypes
  apart _ := ⟨[], by rw [hledger, List.append_nil], .nil, by simp⟩

/-- What is written down speaks of itself only, as before. -/
theorem closed (h : AddsSynthetic s s') (hs : s.ledger.Closed 0 0) : s'.ledger.Closed 0 0 := by
  obtain ⟨part, hledger, hpart, -⟩ := h.part
  rw [hledger]
  refine hs.append ?_
  rwa [Nat.zero_add, Nat.zero_add]

theorem trans (h : AddsSynthetic s s') (h' : AddsSynthetic s' s'') : AddsSynthetic s s'' where
  part := by
    obtain ⟨part, heq, hclosed, hfields, hproperties, hskipped, htypes⟩ := h.part
    obtain ⟨part', heq', hclosed', hfields', hproperties', hskipped', htypes'⟩ := h'.part
    refine ⟨part ++ part', ?_, ?_, ?_, ?_, ?_, fun entry hentry => ?_⟩
    · rw [heq', heq, Ledger.append_assoc]
    · refine hclosed.append ?_
      simpa [heq] using hclosed'
    · rw [Ledger.append_fields, hfields, hfields', List.append_nil]
    · rw [Ledger.append_properties, hproperties, hproperties', List.append_nil]
    · rw [Ledger.append_skipped, hskipped, hskipped']
    · rcases List.mem_append.1 hentry with hentry | hentry
      · obtain ⟨node, hnode, hexternal⟩ := htypes entry hentry
        have hmem := h'.types.subset (Array.mem_toList_iff.2 hnode)
        exact ⟨node, Array.mem_toList_iff.1 hmem, hexternal⟩
      · exact htypes' entry hentry
  types := h.types.trans h'.types
  apart hs := by
    obtain ⟨added, heq, hnodup, hadded⟩ := h.apart hs
    obtain ⟨added', heq', hnodup', hadded'⟩ := h'.apart (h.closed hs)
    simp only [heq, List.mem_append, not_or] at hadded'
    refine ⟨added ++ added', ?_, List.nodup_append.2 ⟨hnodup, hnodup', ?_⟩, ?_⟩
    · rw [heq', heq, List.append_assoc]
    · rintro signature hmem _ hmem' rfl
      exact (hadded' signature hmem').2.2 hmem
    · exact List.forall_mem_append.2
        ⟨hadded, fun signature hmem => (hadded' signature hmem).imp_right And.left⟩

instance : IsPreorder DraftState AddsSynthetic where
  refl _ := of_ledger rfl List.prefix_rfl
  trans _ _ _ := trans

end AddsSynthetic

/-! ### Synthetic methods -/

/-- The signatures of a run can be read off its model. -/
theorem DraftState.ledger_signatures (s : DraftState) :
    s.ledger.signatures = s.model.methods.toList.map fun node =>
      { type := node.containingType, kind := node.kind, name := node.name
        parameterTypes := Linker.signatureOf s.model node.id } := by
  rw [Ledger.signatures, ledger, List.map_map]
  refine List.map_congr_left fun node _ => ?_
  simp only [Function.comp_apply, MethodNode.entry, MethodNode.owner, Linker.signatureOf, labelsAt,
    List.filter_map, List.map_map]
  rfl

namespace Ledger

/-- What is written down for a synthetic method. Its parameters have canonical types and no
names. -/
def ofSynthetic (id : MethodId) (type : TypeId) (name : String) (parameterTypes : List String) :
    Ledger where
  methods := [{ id, name, type, owner := { kind := .method } }]
  parameters := parameterTypes.map fun parameterType =>
    (id, { name := "", typeName := (TypeName.parse parameterType).render })

variable {type : TypeId} {name : String} {parameterTypes : List String} {m p : Nat}

theorem closed_ofSynthetic : (ofSynthetic ⟨m⟩ type name parameterTypes).Closed m p := by
  constructor <;> simp [Handle.Within, holders, ofSynthetic]

theorem signatures_ofSynthetic {id : MethodId} :
    (ofSynthetic id type name parameterTypes).signatures =
      [{ type, kind := .method, name, parameterTypes := (parameterTypes.map fun parameterType =>
        (TypeName.parse parameterType).render) }] := by
  simp [signatures, ofSynthetic, labelsAt, List.filter_map, Function.comp_def]

/-- A synthetic method adds its signature behind those that are there. -/
theorem Closed.signatures_synthetic {ledger : Ledger} (h : ledger.Closed 0 0) :
    (ledger ++ ofSynthetic ⟨ledger.methods.length⟩ type name parameterTypes).signatures =
      ledger.signatures ++ [{ type, kind := .method, name, parameterTypes :=
        (parameterTypes.map fun parameterType => (TypeName.parse parameterType).render) }] := by
  have hnext : (ofSynthetic ⟨ledger.methods.length⟩ type name parameterTypes).Closed
      (0 + ledger.methods.length) (0 + ledger.properties.length) := by
    rw [Nat.zero_add]
    exact closed_ofSynthetic
  rw [h.signatures_append hnext, signatures_ofSynthetic]

end Ledger

namespace Linker

open DraftM

variable {linker : Linker} {s : DraftState}

/-- A link to what is there already has the canonical text of its name. -/
theorem name_linkIn (model : ReferenceModel) (project : ProjectId) (tree : TypeName) :
    (linker.linkIn model project tree).name = tree.render := by
  cases tree
  rfl

/-- The parameters of a synthetic method belong to it, whatever they are linked to. -/
theorem ends_syntheticParameters (method : MethodId) (project : ProjectId) (types : List String) :
    Ends s (types.forM fun parameterType => do
      let typeLink := linker.linkIn (← model) project (TypeName.parse parameterType)
      addParameter fun id => { id, name := "", typeLink, containingMethod := method })
      fun _ s' => s'.model.types = s.model.types ∧ s'.ledger = s.ledger ++
        { parameters := types.map fun parameterType =>
            (method, { name := "", typeName := (TypeName.parse parameterType).render }) } := by
  induction types generalizing s with
  | nil => exact .pure ⟨rfl, s.ledger.append_empty.symm⟩
  | cons parameterType types ih =>
    have hone : Ends s (do
        let typeLink := linker.linkIn (← model) project (TypeName.parse parameterType)
        addParameter fun id => { id, name := "", typeLink, containingMethod := method })
        fun _ s' => s'.model.types = s.model.types ∧ s'.ledger = s.ledger ++ { parameters :=
          [(method, { name := "", typeName := (TypeName.parse parameterType).render })] } := by
      refine ends_model.bind ?_
      rintro _ _ ⟨rfl, rfl⟩
      refine ends_model.bind ?_
      rintro _ _ ⟨rfl, rfl⟩
      refine ends_modify ⟨rfl, ?_⟩
      ext1 <;> simp [DraftState.ledger, ParameterNode.label, name_linkIn]
    refine hone.bind fun _ s₁ ⟨htypes₁, heq₁⟩ => ?_
    refine ih.mono fun _ s₂ ⟨htypes₂, heq₂⟩ => ⟨htypes₂.trans htypes₁, ?_⟩
    rw [heq₂, heq₁, Ledger.append_assoc]
    rfl

/-- **What is written down for a synthetic method.** -/
theorem ends_ledgerOfSynthetic (owner : TypeId) (name : String) (parameterTypes : List String)
    (project : ProjectId) :
    Ends s (linker.draftSynthetic owner name parameterTypes project) fun method s' =>
      method = ⟨s.ledger.methods.length⟩ ∧ s'.model.types = s.model.types ∧
        s'.ledger = s.ledger ++ .ofSynthetic method owner name parameterTypes := by
  unfold draftSynthetic
  refine ends_require.bind ?_
  rintro _ _ rfl
  have hadd : Ends s (addMethod fun id =>
      { id, name, kind := .method, containingType := owner, isSynthetic := true })
      fun method s' => method = ⟨s.ledger.methods.length⟩ ∧ s'.model.types = s.model.types ∧
        s'.ledger = s.ledger ++
          { methods := [{ id := method, name, type := owner, owner := { kind := .method } }] } := by
    refine ends_model.bind ?_
    rintro _ _ ⟨rfl, rfl⟩
    rw [DraftState.ledger_methods_length]
    refine ends_modify_pure ⟨rfl, rfl, ?_⟩
    ext1 <;> simp [DraftState.ledger, MethodNode.entry, MethodNode.owner]
  refine hadd.bind fun method s₁ ⟨hmethod, htypes₁, heq₁⟩ => ?_
  refine (ends_syntheticParameters method project parameterTypes).bind
    fun _ s₂ ⟨htypes₂, heq₂⟩ => .pure ⟨hmethod, htypes₂.trans htypes₁, ?_⟩
  rw [heq₂, heq₁, Ledger.append_assoc]
  rfl

/-- The parameter types of a call are canonical. -/
theorem callSignature_canonical (call : CallFact) :
    ((callSignature call).map fun parameterType => (TypeName.parse parameterType).render) =
      callSignature call := by
  unfold callSignature
  rw [List.map_map]
  refine List.map_congr_left fun ref _ => ?_
  rw [Function.comp_apply, (TypeName.parse_stable ref.fullName).2.1]

/-- A method of an external type that no call has matched yet has a new signature. -/
theorem not_mem_signatures {owner : TypeId} {name : String} {parameterTypes : List String}
    (h : matching? s.model (methodsOfKind s.model owner .method) name parameterTypes = none) :
    ({ type := owner, kind := .method, name, parameterTypes } : Signature) ∉
      s.ledger.signatures := by
  rw [DraftState.ledger_signatures]
  intro hmem
  obtain ⟨node, hnode, heq⟩ := List.mem_map.1 hmem
  obtain ⟨htype, hkind, hname, hparameters⟩ := Signature.mk.inj heq
  have hfree := List.find?_eq_none.1 (Option.map_eq_none_iff.1 h) node
    (List.mem_filter.2 ⟨hnode, by simp [htype, hkind]⟩)
  simp [hname, hparameters] at hfree

/-- **A synthetic method is one of the external type that is called.** -/
theorem ends_draftSynthetic {owner : TypeNode} (howner : owner ∈ s.model.types)
    (hexternal : owner.isExternal) (name : String) (parameterTypes : List String)
    (project : ProjectId) (hfresh : ({ type := owner.id, kind := .method, name, parameterTypes :=
      (parameterTypes.map fun parameterType => (TypeName.parse parameterType).render) } :
        Signature) ∉ s.ledger.signatures) :
    Ends s (linker.draftSynthetic owner.id name parameterTypes project) fun _ s' =>
      AddsSynthetic s s' := by
  refine (ends_ledgerOfSynthetic owner.id name parameterTypes project).mono ?_
  rintro _ s' ⟨rfl, htypes, hledger⟩
  refine ⟨⟨_, hledger, Ledger.closed_ofSynthetic, rfl, rfl, rfl, ?_⟩, htypes ▸ List.prefix_rfl,
    fun hs => ?_⟩
  · intro entry hentry
    obtain rfl := List.mem_singleton.1 hentry
    exact ⟨owner, htypes ▸ howner, hexternal, rfl⟩
  · refine ⟨_, hledger ▸ hs.signatures_synthetic, List.nodup_singleton _,
      fun signature hsignature => ?_⟩
    obtain rfl := List.mem_singleton.1 hsignature
    exact ⟨rfl, hfresh⟩

theorem ends_draftTarget {owner : TypeNode} (howner : owner ∈ s.model.types)
    (pending : PendingCall) :
    Ends s (linker.draftTarget owner pending) fun _ s' => AddsSynthetic s s' := by
  unfold draftTarget
  split
  next hexternal =>
    refine Ends.map ?_ fun _ _ h => h
    unfold draftMatching
    refine ends_model.bind ?_
    rintro _ _ ⟨rfl, rfl⟩
    split
    · exact .pure (Std.Refl.refl s)
    next hnone =>
      refine ends_draftSynthetic howner hexternal _ _ _ ?_
      rw [callSignature_canonical]
      exact not_mem_signatures hnone
  next =>
    have hfind : Along AddsSynthetic (draftFind owner.id pending.call.name
        (callSignature pending.call)) :=
      along_model.bind fun _ => (Along.mapM along_typeAt).bind fun _ => .pure _
    exact hfind s

/-- Reporting a call adds one finding, and changes nothing else. -/
theorem ends_draftUnresolved (callerType : TypeId) (owner : TypeNode) (pending : PendingCall) :
    Ends s (linker.draftUnresolved callerType owner pending) fun _ s' =>
      ∃ finding : Diagnostic, finding.kind = .unresolvedCall ∧
        s' = { s with diagnostics := s.diagnostics.push finding } := by
  unfold draftUnresolved
  refine ends_projectAt.bind ?_
  rintro project _ ⟨-, rfl⟩
  refine ends_typeAt.bind ?_
  rintro type _ ⟨-, rfl⟩
  have hpath : Ends s (draftFilePath type) fun _ s' => s = s' := by
    unfold draftFilePath
    split
    · refine ends_fileAt.bind ?_
      rintro _ _ ⟨-, rfl⟩
      exact .pure rfl
    · exact .pure rfl
  refine hpath.bind ?_
  rintro path _ rfl
  exact ends_modify ⟨_, rfl, rfl⟩

theorem along_draftUnresolved (callerType : TypeId) (owner : TypeNode) (pending : PendingCall) :
    Along AddsSynthetic (linker.draftUnresolved callerType owner pending) := by
  refine fun s => (ends_draftUnresolved callerType owner pending).mono ?_
  rintro _ _ ⟨finding, hkind, rfl⟩
  refine .of_ledger ?_ List.prefix_rfl
  ext1 <;> simp [DraftState.ledger, Diagnostics.ofKind, Diagnostics.push, hkind]

theorem along_draftOwner (callerType : TypeId) (pending : PendingCall) :
    Along AddsSynthetic (linker.draftOwner callerType pending) := by
  unfold draftOwner
  dsimp only
  split
  · exact .pure _
  · exact fun s => (ends_draftTypeFor _ _).mono fun _ _ h => .of_ledger h.1.ledger h.2

/-- The edge that a caller gets is a link, and the ledger has none. -/
theorem along_addEdge (caller : MethodId) (edge : CallEdge) :
    Along AddsSynthetic (modifyMethod caller fun node =>
      { node with calls := node.calls ++ [edge] }) := by
  refine (along_require _).bind fun _ s => ends_modify (.of_ledger ?_ List.prefix_rfl)
  have hread := @map_toList_modify _ _ s.model.methods caller.idx
    (fun node => { node with calls := node.calls ++ [edge] }) MethodNode.entry fun _ => rfl
  unfold DraftState.ledger
  rw [hread]

/-- **Linking a call adds at most a method of an external type.** -/
theorem along_draftCall (pending : PendingCall) :
    Along AddsSynthetic (linker.draftCall pending) := by
  unfold draftCall
  refine fun s => ends_methodAt.bind ?_
  rintro caller _ ⟨-, rfl⟩
  refine (along_draftOwner caller.containingType pending s).bind fun id s₁ h₁ => ?_
  refine ends_typeAt.bind ?_
  rintro owner _ ⟨hget, rfl⟩
  refine (ends_draftTarget (ReferenceModel.mem_of_type hget) pending).bind fun target s₂ h₂ => ?_
  have hrest : Along AddsSynthetic (do
      if target.isNone then linker.draftUnresolved caller.containingType owner pending
      modifyMethod pending.caller fun node =>
        { node with calls := node.calls ++ [{ target }] }) := by
    dsimp only
    split
    · exact (along_draftUnresolved _ _ _).bind fun _ => along_addEdge _ _
    · exact along_addEdge _ _
  exact (hrest s₂).mono fun _ _ h₃ => (h₁.trans h₂).trans h₃

/-- **Linking the calls adds methods of external types only.** -/
theorem along_draftCalls : Along AddsSynthetic linker.draftCalls :=
  fun s => Along.forM along_draftCall s

end Linker

end FactGraph
