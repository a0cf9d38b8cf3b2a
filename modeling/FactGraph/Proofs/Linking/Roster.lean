import FactGraph.Proofs.Linking.Merge

/-!
# Methods and the calls that wait for them

Every method that is kept becomes a node, and its calls that have a name are set aside. This module
says in which order. The kept methods of a repository stand in one row that is read off the facts:
declaration after declaration, in each the accessors of its properties, its methods, its
constructors and its destructor, and behind every method its local functions. The nodes stand in
the same order, and so do the calls.

What a run has set down of methods and calls is its roster. Everything else that a run does leaves
the roster as it is, so a step is described by the methods that it puts on it.

## Main definitions

* `MethodFact.kept`, `keptFrom`: the kept methods of a fact, and of all declarations
* `DraftState.roster`: the methods of a state, with the calls that were set aside
* `Roster.enroll`: the roster with further methods
* `DraftM.Enrolls`: a step puts these methods on the roster

## Main results

* `enrolls_draftMethods`: methods with their local functions
* `ends_rosterOfMembers`: a fragment
* `Trace.roster_linked`: all fragments of a repository
-/

namespace FactGraph

/-! ## The methods that are kept -/

/-- The call has a name. -/
def CallFact.isNamed (fact : CallFact) : Bool := !Text.isBlank fact.name

/-- A method that is kept, apart from its local functions: what it was declared as, and what it
says. -/
structure KeptMethod where
  kind : MethodKind
  head : MethodHead

mutual

/-- **What is kept of a method**: the method and behind it its local functions, or nothing if it has
no name. -/
def MethodFact.kept (kind : MethodKind) : MethodFact → List KeptMethod
  | ⟨head, localFunctions⟩ =>
    if Text.isBlank head.name then []
    else { kind, head } :: MethodFact.keptAll .localFunction localFunctions

/-- What is kept of the methods of a list. -/
def MethodFact.keptAll (kind : MethodKind) : List MethodFact → List KeptMethod
  | [] => []
  | method :: methods => MethodFact.kept kind method ++ MethodFact.keptAll kind methods

end

/-- What is kept of the accessors of a property. -/
def PropertyFact.kept (fact : PropertyFact) : List KeptMethod :=
  if fact.isComplete then MethodFact.keptAll .accessor fact.accessors else []

/-- **What is kept of the methods of a declaration**, whose type may have a destructor already. -/
def TypeFact.kept (fact : TypeFact) (hasDestructor : Bool) : List KeptMethod :=
  fact.properties.flatMap PropertyFact.kept ++
    (MethodFact.keptAll .method fact.methods ++
      (MethodFact.keptAll .constructor fact.constructors ++
        if hasDestructor then [] else MethodFact.keptAll .destructor fact.destructor.toList))

/-- **What is kept of the methods of a declaration**, which comes after others: nothing if it has no
name. Its destructor is one too many if one of the others makes up the same type and has one. -/
def Declaration.kept (sep : Separator) (earlier : List Declaration) (declaration : Declaration) :
    List KeptMethod :=
  if declaration.isNamed then
    declaration.fact.kept (earlier.any fun other =>
      other.isNamed && other.key sep = declaration.key sep && other.fact.hasNamedDestructor)
  else []

/-- **The methods that are kept of declarations**, which come after others, each with its
declaration. -/
def keptFrom (sep : Separator) (earlier : List Declaration) :
    List Declaration → List (Declaration × KeptMethod)
  | [] => []
  | declaration :: declarations =>
    (declaration.kept sep earlier).map (declaration, ·) ++
      keptFrom sep (earlier ++ [declaration]) declarations

/-- Only what has a name makes a difference for what comes after it. -/
theorem kept_filter (sep : Separator) (earlier : List Declaration) (declaration : Declaration) :
    declaration.kept sep (earlier.filter Declaration.isNamed) = declaration.kept sep earlier := by
  unfold Declaration.kept
  rw [List.any_filter]
  congr 2
  refine congrArg (List.any earlier) (funext fun other => ?_)
  cases other.isNamed <;> simp

/-- The declarations without a name can be left out. -/
theorem keptFrom_eq (sep : Separator) (earlier declarations : List Declaration) :
    keptFrom sep earlier declarations =
      keptFrom sep (earlier.filter Declaration.isNamed)
        (declarations.filter Declaration.isNamed) := by
  induction declarations generalizing earlier with
  | nil => rfl
  | cons declaration declarations ih =>
    rw [keptFrom, ih (earlier ++ [declaration]), List.filter_append]
    cases h : declaration.isNamed with
    | true => simp [h, keptFrom, kept_filter]
    | false => simp [h, Declaration.kept]

mutual

/-- Apart from local functions, what is kept of a method is of its kind. -/
theorem MethodFact.kind_of_kept {kind : MethodKind} {kept : KeptMethod} :
    ∀ fact : MethodFact, kept ∈ fact.kept kind → kept.kind = kind ∨ kept.kind = .localFunction
  | ⟨head, localFunctions⟩, h => by
    unfold MethodFact.kept at h
    split at h
    · cases h
    · rcases List.mem_cons.1 h with rfl | h
      · exact .inl rfl
      · exact .inr ((MethodFact.kind_of_keptAll localFunctions h).elim id id)

theorem MethodFact.kind_of_keptAll {kind : MethodKind} {kept : KeptMethod} :
    ∀ facts : List MethodFact, kept ∈ MethodFact.keptAll kind facts →
      kept.kind = kind ∨ kept.kind = .localFunction
  | [], h => by cases h
  | fact :: facts, h => by
    unfold MethodFact.keptAll at h
    rcases List.mem_append.1 h with h | h
    · exact MethodFact.kind_of_kept fact h
    · exact MethodFact.kind_of_keptAll facts h

end

/-! ## Rosters -/

/-- A method as calls see it: its name, where it is, and what it calls so far. -/
structure RosterEntry where
  name : String
  kind : MethodKind
  type : TypeId
  isSynthetic : Bool := false
  calls : List CallEdge := []

/-- **The methods of a run**, the calls that it has set aside, and the number of calls that were
found to have no target. -/
@[ext]
structure Roster where
  methods : List RosterEntry := []
  pending : List PendingCall := []
  unresolved : Nat := 0

/-- A kept method with its place. -/
structure Caller where
  project : ProjectId
  type : TypeId
  kept : KeptMethod

/-- A method that is kept in a scope. -/
def MemberScope.caller (scope : MemberScope) (kept : KeptMethod) : Caller :=
  { project := scope.project, type := scope.type, kept }

/-- A method that is kept of a fragment. -/
def Fragment.caller (fragment : Fragment) (kept : KeptMethod) : Caller :=
  { project := fragment.project, type := fragment.type, kept }

namespace Caller

/-- What is put on the roster for the method. -/
def entry (caller : Caller) : RosterEntry :=
  { name := caller.kept.head.name, kind := caller.kept.kind, type := caller.type }

/-- The calls of the method, set aside for the node that it gets. -/
def calls (caller : Caller) (id : MethodId) : List PendingCall :=
  (caller.kept.head.calledMethods.filter CallFact.isNamed).map fun call =>
    { caller := id, project := caller.project, call }

end Caller

namespace Roster

/-- **The roster with further methods**, whose calls are set aside for the nodes that they get. -/
def enroll (roster : Roster) (callers : List Caller) : Roster where
  methods := roster.methods ++ callers.map Caller.entry
  pending := roster.pending ++
    (callers.zipIdx roster.methods.length).flatMap fun entry => entry.1.calls ⟨entry.2⟩
  unresolved := roster.unresolved

variable (roster : Roster) (callers others : List Caller)

@[simp] theorem enroll_nil : roster.enroll [] = roster := by
  ext1 <;> simp [enroll]

theorem enroll_append :
    roster.enroll (callers ++ others) = (roster.enroll callers).enroll others := by
  ext1 <;> simp [enroll, List.zipIdx_append]

end Roster

/-- A method node as calls see it. -/
def MethodNode.rosterEntry (node : MethodNode) : RosterEntry :=
  { name := node.name, kind := node.kind, type := node.containingType
    isSynthetic := node.isSynthetic, calls := node.calls }

/-- The roster of a state. -/
def DraftState.roster (s : DraftState) : Roster where
  methods := s.model.methods.toList.map MethodNode.rosterEntry
  pending := s.pending.toList
  unresolved := (s.diagnostics.ofKind .unresolvedCall).length

/-- The calls that were set aside for the methods of a first roster. -/
theorem DraftState.pending_of_enroll {s : DraftState} {callers : List Caller}
    (h : s.roster = Roster.enroll {} callers) :
    s.pending.toList = callers.zipIdx.flatMap fun entry => entry.1.calls ⟨entry.2⟩ := by
  change s.roster.pending = _
  simp [h, Roster.enroll]

theorem DraftState.roster_methods_length (s : DraftState) :
    s.roster.methods.length = s.model.methods.size := by
  simp [roster]

/-- A method stands on the roster where its handle says. -/
theorem DraftState.roster_methods_getElem? {s : DraftState} {id : MethodId} {node : MethodNode}
    (h : s.model.method? id = some node) :
    s.roster.methods[id.idx]? = some node.rosterEntry := by
  rw [roster, List.getElem?_map, Array.getElem?_toList]
  exact congrArg (Option.map MethodNode.rosterEntry) h

theorem SameMembers.roster {s s' : DraftState} (h : SameMembers s s') : s'.roster = s.roster := by
  unfold DraftState.roster
  rw [h.methods, h.diagnostics, h.pending]

namespace DraftM

variable {α : Type} {s : DraftState}

/-! ## Steps that put methods on the roster -/

/-- However the step ends, the roster is as it was. -/
abbrev KeepsRoster (step : DraftM α) : Prop :=
  Along (fun s s' => s'.roster = s.roster) step

instance : IsPreorder DraftState fun s s' => s'.roster = s.roster where
  refl _ := rfl
  trans _ _ _ h h' := h'.trans h

theorem keepsRoster_of_keeps {step : DraftM α} (h : Keeps step) : KeepsRoster step :=
  h.mono fun _ _ => SameMembers.roster

/-- A skipped member is no call without a target. -/
theorem keepsRoster_skippedMember (context : DiagnosticContext) (what name : String) :
    KeepsRoster (report (.skippedMember context what name)) := by
  refine fun s => ends_modify ?_
  ext1 <;> simp [DraftState.roster, Diagnostics.ofKind, Diagnostics.push, Diagnostic.skippedMember]

/-- **However the step ends, it has put these methods on the roster.** -/
def Enrolls (step : DraftM Unit) (callers : List Caller) : Prop :=
  ∀ s, Ends s step fun _ s' => s'.roster = s.roster.enroll callers

namespace Enrolls

variable {step next : DraftM Unit} {callers others : List Caller}

theorem of_keepsRoster (h : KeepsRoster step) : Enrolls step [] :=
  fun s => (h s).mono fun _ _ heq => by rw [heq, Roster.enroll_nil]

theorem bind (h : Enrolls step callers) (hnext : Enrolls next others) :
    Enrolls (step >>= fun _ => next) (callers ++ others) :=
  fun s => (h s).bind fun _ s₁ heq₁ => (hnext s₁).mono fun _ _ heq₂ => by
    rw [heq₂, heq₁, Roster.enroll_append]

theorem after {first : DraftM α} {next : α → DraftM Unit} (h : KeepsRoster first)
    (hnext : ∀ a, Enrolls (next a) callers) : Enrolls (first >>= next) callers :=
  fun s => (h s).bind fun a s₁ heq₁ => (hnext a s₁).mono fun _ _ heq₂ => by rw [heq₂, heq₁]

theorem forM {f : α → DraftM Unit} {collect : α → List Caller} (h : ∀ x, Enrolls (f x) (collect x))
    (xs : List α) : Enrolls (xs.forM f) (xs.flatMap collect) := by
  induction xs with
  | nil => exact of_keepsRoster (.pure ())
  | cons x xs ih => exact (h x).bind ih

end Enrolls

end DraftM

namespace Linker

open DraftM

variable {linker : Linker} {s : DraftState}

/-! ## Methods -/

section Methods

variable {scope : MemberScope} {method : MethodId}

theorem keepsRoster_draftParameter (fact : ParameterFact) :
    KeepsRoster (linker.draftParameter scope method fact) := by
  unfold draftParameter
  split
  · refine (keepsRoster_of_keeps (keeps_draftTypeRef fact.typeRef)).bind fun typeLink => ?_
    refine (keepsRoster_of_keeps (keeps_draftAttributes fact.attributes)).bind fun attributes => ?_
    exact along_model.bind fun _ _ => ends_modify rfl
  · exact keepsRoster_skippedMember _ _ _

theorem keepsRoster_draftLocalVariable (fact : LocalVariableFact) :
    KeepsRoster (linker.draftLocalVariable scope method fact) := by
  unfold draftLocalVariable
  split
  · refine (keepsRoster_of_keeps (keeps_draftTypeRef fact.typeRef)).bind fun typeLink => ?_
    exact along_model.bind fun _ _ => ends_modify rfl
  · exact keepsRoster_skippedMember _ _ _

/-- **The calls of a method are set aside**, apart from those without a name. -/
theorem ends_collectCalls (methodName : String) (facts : List CallFact) :
    Ends s (facts.forM (draftCollect scope method methodName)) fun _ s' =>
      s'.roster = { s.roster with pending := s.roster.pending ++
        (facts.filter CallFact.isNamed).map fun call =>
          { caller := method, project := scope.project, call } } := by
  induction facts generalizing s with
  | nil => exact .pure (by simp)
  | cons fact facts ih =>
    have hone : Ends s (draftCollect scope method methodName fact) fun _ s' =>
        s'.roster = { s.roster with pending := s.roster.pending ++
          ([fact].filter CallFact.isNamed).map fun call =>
            { caller := method, project := scope.project, call } } := by
      unfold draftCollect
      split
      next h =>
        refine (keepsRoster_skippedMember _ _ _ s).mono fun _ _ heq => ?_
        simpa [CallFact.isNamed, h] using heq
      next h =>
        refine ends_modify ?_
        simp [DraftState.roster, CallFact.isNamed, h]
    refine hone.bind fun _ s₁ heq₁ => ih.mono fun _ s₂ heq₂ => ?_
    rw [heq₂, heq₁]
    cases h : fact.isNamed <;> simp [h]

/-- **A method is put on the roster**, and its calls are set aside for its node. -/
theorem ends_rosterOfHead (owner : MethodOwner) (head : MethodHead) :
    Ends s (linker.draftMethodHead scope owner head) fun _ s' =>
      s'.roster = s.roster.enroll [scope.caller { kind := owner.kind, head }] := by
  unfold draftMethodHead
  refine (keepsRoster_of_keeps (keeps_draftReturnType head.returnType) s).bind
    fun returnType s₁ heq₁ => ?_
  refine (keepsRoster_of_keeps (keeps_draftAttributes head.attributes) s₁).bind
    fun attributes s₂ heq₂ => ?_
  have hadd : Ends s₂ (addMethod fun id =>
      { id, name := head.name, kind := owner.kind, containingType := scope.type
        containingMethod := owner.containingMethod
        containingProperty := owner.containingProperty
        accessModifier := head.accessModifier, modifier := head.modifier
        genericParameters := head.genericParameters, returnType, attributes
        cyclomaticComplexity := head.cyclomaticComplexity }) fun method s' =>
      method = ⟨s.roster.methods.length⟩ ∧ s'.roster = { s.roster with
        methods := s.roster.methods ++
          [{ name := head.name, kind := owner.kind, type := scope.type }] } := by
    refine ends_model.bind ?_
    rintro _ _ ⟨rfl, rfl⟩
    rw [← heq₁, ← heq₂, DraftState.roster_methods_length]
    refine ends_modify_pure ⟨rfl, ?_⟩
    simp [DraftState.roster, MethodNode.rosterEntry]
  refine hadd.bind fun method s₃ ⟨hmethod, heq₃⟩ => ?_
  refine (Along.forM keepsRoster_draftParameter s₃).bind fun _ s₄ heq₄ => ?_
  refine (Along.forM keepsRoster_draftLocalVariable s₄).bind fun _ s₅ heq₅ => ?_
  refine (ends_collectCalls head.name head.calledMethods).bind fun _ s₆ heq₆ => .pure ?_
  rw [heq₆, heq₅, heq₄, heq₃, hmethod]
  ext1 <;> simp [Roster.enroll, MemberScope.caller, Caller.entry, Caller.calls]

mutual

/-- What is put on the roster for a method. -/
theorem enrolls_draftMethod (scope : MemberScope) (owner : MethodOwner) :
    ∀ fact : MethodFact, Enrolls (linker.draftMethod scope owner fact)
      ((fact.kept owner.kind).map scope.caller)
  | ⟨head, localFunctions⟩ => by
    unfold draftMethod MethodFact.kept
    split
    · exact .of_keepsRoster (keepsRoster_skippedMember _ _ _)
    · -- In the method there are further generic parameters, which callers do not show.
      refine fun s => (ends_rosterOfHead owner head).bind fun method s₁ heq₁ => ?_
      refine (enrolls_draftMethods _ _ localFunctions s₁).mono fun _ s₂ heq₂ => ?_
      rw [heq₂, heq₁, ← Roster.enroll_append]
      rfl

/-- **What is put on the roster for the methods of a list** that have one owner. -/
theorem enrolls_draftMethods (scope : MemberScope) (owner : MethodOwner) :
    ∀ facts : List MethodFact, Enrolls (linker.draftMethods scope owner facts)
      ((MethodFact.keptAll owner.kind facts).map scope.caller)
  | [] => by
    unfold draftMethods MethodFact.keptAll
    exact .of_keepsRoster (.pure ())
  | fact :: facts => by
    unfold draftMethods MethodFact.keptAll
    rw [List.map_append]
    exact (enrolls_draftMethod scope owner fact).bind (enrolls_draftMethods scope owner facts)

end

end Methods

/-! ## Members -/

/-- Whether a type has a destructor can be read off the roster. -/
theorem hasDestructor_eq_any (type : TypeId) : hasDestructor s.model type =
    s.roster.methods.any fun entry => entry.kind = .destructor && entry.type = type := by
  rw [hasDestructor, DraftState.roster, List.any_map, ← Array.any_toList]
  rfl

/-- A type has a destructor if it had one already, or if one was put on the roster. -/
theorem hasDestructor_enroll {s' : DraftState} {callers : List Caller}
    (heq : s'.roster = s.roster.enroll callers) (type : TypeId) :
    hasDestructor s'.model type = (hasDestructor s.model type ||
      callers.any fun caller => caller.kept.kind = .destructor && caller.type = type) := by
  rw [hasDestructor_eq_any, hasDestructor_eq_any, heq, Roster.enroll, List.any_append,
    List.any_map]
  rfl

section Members

variable {scope : MemberScope}

theorem keepsRoster_draftField (fact : FieldFact) :
    KeepsRoster (linker.draftField scope fact) := by
  unfold draftField
  split
  · refine (keepsRoster_of_keeps (keeps_draftTypeRef fact.typeRef)).bind fun typeLink => ?_
    refine (keepsRoster_of_keeps (keeps_draftAttributes fact.attributes)).bind fun attributes => ?_
    exact along_model.bind fun _ _ => ends_modify rfl
  · exact keepsRoster_skippedMember _ _ _

theorem keepsRoster_draftBaseType (typeName : String) (ref : TypeRef) :
    KeepsRoster (linker.draftBaseType scope typeName ref) := by
  unfold draftBaseType
  split
  · refine (keepsRoster_of_keeps (keeps_draftTypeRef ref)).bind fun link => ?_
    exact keepsRoster_of_keeps (keeps_modifyType _ _)
  · exact keepsRoster_skippedMember _ _ _

theorem enrolls_draftProperty (fact : PropertyFact) :
    Enrolls (linker.draftProperty scope fact)
      (fact.kept.map scope.caller) := by
  unfold draftProperty PropertyFact.kept
  split
  next h =>
    have hcomplete : fact.isComplete = true := h
    rw [if_pos hcomplete]
    refine .after (keepsRoster_of_keeps (keeps_draftTypeRef fact.typeRef)) fun typeLink => ?_
    refine .after (keepsRoster_of_keeps (keeps_draftAttributes fact.attributes))
      fun attributes => ?_
    have hadd : KeepsRoster (addProperty fun id =>
        { id, name := fact.name, typeLink, containingType := scope.type
          accessModifier := fact.accessModifier, modifier := fact.modifier, attributes }) :=
      along_model.bind fun _ _ => ends_modify_pure rfl
    exact .after hadd fun property => enrolls_draftMethods scope _ fact.accessors
  next h =>
    have hincomplete : ¬fact.isComplete = true := h
    rw [if_neg hincomplete]
    exact .of_keepsRoster (keepsRoster_skippedMember _ _ _)

/-- A destructor is put on the roster unless the type has one already. -/
theorem ends_rosterOfDestructor (destructor : Option MethodFact) :
    Ends s (destructor.forM (linker.draftDestructor scope)) fun _ s' =>
      s'.roster = s.roster.enroll ((if hasDestructor s.model scope.type then []
        else MethodFact.keptAll .destructor destructor.toList).map scope.caller) := by
  cases destructor with
  | none =>
    refine .pure ?_
    simp [MethodFact.keptAll]
  | some fact =>
    change Ends s (linker.draftDestructor scope fact) _
    unfold draftDestructor
    refine ends_model.bind ?_
    rintro _ _ ⟨rfl, rfl⟩
    split
    · exact Enrolls.of_keepsRoster (keepsRoster_skippedMember _ _ _) s
    · have hone := @enrolls_draftMethod linker scope { kind := .destructor } fact s
      simpa [MethodFact.keptAll] using hone

/-- The destructor comes last. -/
theorem kept_eq (fact : TypeFact) (hasDestructor : Bool) :
    fact.kept hasDestructor = fact.kept true ++
      if hasDestructor then [] else MethodFact.keptAll .destructor fact.destructor.toList := by
  simp [TypeFact.kept]

/-- A destructor is kept if it has a name, unless the type has one already. -/
theorem any_kept_destructor (fact : TypeFact) (hasDestructor : Bool) :
    ((fact.kept hasDestructor).any fun kept => kept.kind = .destructor) =
      (!hasDestructor && fact.hasNamedDestructor) := by
  have hbefore : ((fact.kept true).any fun kept => kept.kind = .destructor) = false := by
    refine List.any_eq_false.2 fun kept hkept => ?_
    simp only [TypeFact.kept, if_true, List.append_nil, List.mem_append, List.mem_flatMap,
      PropertyFact.kept] at hkept
    rw [decide_eq_true_eq]
    rcases hkept with ⟨property, -, hkept⟩ | hkept | hkept
    · split at hkept
      · rcases MethodFact.kind_of_keptAll _ hkept with heq | heq <;> simp [heq]
      · cases hkept
    · rcases MethodFact.kind_of_keptAll _ hkept with heq | heq <;> simp [heq]
    · rcases MethodFact.kind_of_keptAll _ hkept with heq | heq <;> simp [heq]
  rw [kept_eq, List.any_append, hbefore, Bool.false_or]
  cases hasDestructor with
  | true => rfl
  | false =>
    unfold TypeFact.hasNamedDestructor
    cases fact.destructor with
    | none => rfl
    | some destructor =>
      obtain ⟨head, localFunctions⟩ := destructor
      cases hblank : Text.isBlank head.name <;>
        simp [MethodFact.keptAll, MethodFact.kept, MethodFact.isNamed, hblank]

/-- The destructors of a type after one more fragment. -/
theorem any_caller_destructor (fragment : Fragment) (hasDestructor : Bool) (type : TypeId) :
    (((fragment.fact.kept hasDestructor).map fragment.caller).any fun caller =>
      caller.kept.kind = .destructor && caller.type = type) =
      (decide (fragment.type = type) && (!hasDestructor && fragment.fact.hasNamedDestructor)) := by
  rw [← any_kept_destructor, List.any_map]
  by_cases htype : fragment.type = type <;> simp [Function.comp_def, Fragment.caller, htype]

/-- **What is put on the roster for a fragment.** -/
theorem ends_rosterOfMembers (fragment : Fragment) :
    Ends s (linker.draftMembers fragment) fun _ s' =>
      s'.roster = s.roster.enroll
        ((fragment.fact.kept (hasDestructor s.model fragment.type)).map
          fragment.caller) := by
  unfold draftMembers
  refine (keepsRoster_of_keeps (keeps_draftParametersInScope fragment) s).bind
    fun typeParameters s₁ heq₁ => ?_
  dsimp only
  refine (Along.forM (keepsRoster_draftBaseType _) s₁).bind fun _ s₂ heq₂ => ?_
  refine (keepsRoster_of_keeps (keeps_draftAttributes _) s₂).bind fun attributes s₃ heq₃ => ?_
  refine (keepsRoster_of_keeps (keeps_modifyType _ _) s₃).bind fun _ s₄ heq₄ => ?_
  refine (Along.forM keepsRoster_draftField s₄).bind fun _ s₅ heq₅ => ?_
  refine (Enrolls.forM enrolls_draftProperty _ s₅).bind fun _ s₆ heq₆ => ?_
  refine (enrolls_draftMethods _ _ _ s₆).bind fun _ s₇ heq₇ => ?_
  refine (enrolls_draftMethods _ _ _ s₇).bind fun _ s₈ heq₈ => ?_
  refine (ends_rosterOfDestructor _).bind fun _ s₉ heq₉ => ?_
  refine (Along.forM (fun fact => keepsRoster_of_keeps (keeps_draftMetric fact)) s₉).mono
    fun _ s₁₀ heq₁₀ => ?_
  have hbefore : s₈.roster = s.roster.enroll
      ((fragment.fact.kept true).map fragment.caller) := by
    rw [heq₈, heq₇, heq₆, heq₅, heq₄, heq₃, heq₂, heq₁, ← Roster.enroll_append,
      ← Roster.enroll_append, TypeFact.kept, if_pos rfl, List.append_nil, List.map_append,
      List.map_append, List.map_flatMap]
    rfl
  have hsame : hasDestructor s₈.model fragment.type = hasDestructor s.model fragment.type := by
    rw [hasDestructor_enroll hbefore, any_caller_destructor]
    simp
  rw [heq₁₀, heq₉, hbefore, ← Roster.enroll_append,
    kept_eq fragment.fact (hasDestructor s.model fragment.type), List.map_append, ← hsame]
  rfl

end Members

/-! ## The whole repository -/

/-- **What is put on the roster for the fragments that are left**: the methods that are kept of
their declarations. -/
theorem ends_rosterOfFragments {sep : Separator} {done fragments : List Fragment}
    (hnamed : ∀ fragment ∈ done ++ fragments, fragment.declaration.isNamed)
    (hkeys : ∀ fragment ∈ done ++ fragments, ∀ other ∈ done ++ fragments,
      other.type = fragment.type ↔ other.declaration.key sep = fragment.declaration.key sep)
    (hdestructors : ∀ type, hasDestructor s.model type = ((done.filter fun fragment =>
      fragment.type = type).map Fragment.fact).any TypeFact.hasNamedDestructor) :
    Ends s (fragments.forM linker.draftMembers) fun _ s' => ∃ callers,
      s'.roster = s.roster.enroll callers ∧
      List.Forall₂ (fun caller entry => ∃ fragment ∈ fragments,
          fragment.declaration = entry.1 ∧ caller = fragment.caller entry.2) callers
        (keptFrom sep (done.map Fragment.declaration) (fragments.map Fragment.declaration)) := by
  -- The types that have a destructor are those of the fragments that are done and have one.
  induction fragments generalizing s done with
  | nil => exact .pure ⟨[], s.roster.enroll_nil.symm, .nil⟩
  | cons fragment fragments ih =>
    have hmem : fragment ∈ done ++ fragment :: fragments := by simp
    have hkept : fragment.fact.kept (hasDestructor s.model fragment.type) =
        fragment.declaration.kept sep (done.map Fragment.declaration) := by
      rw [Declaration.kept, if_pos (hnamed fragment hmem), hdestructors fragment.type,
        any_hasNamedDestructor fun other hother => ?_]
      · rfl
      · have hother := List.mem_append_left (fragment :: fragments) hother
        exact ⟨hnamed other hother, hkeys fragment hmem other hother⟩
    refine (ends_rosterOfMembers fragment).bind fun _ s₁ heq₁ => ?_
    have hdestructors' (type : TypeId) : hasDestructor s₁.model type =
        (((done ++ [fragment]).filter fun other => other.type = type).map Fragment.fact).any
          TypeFact.hasNamedDestructor := by
      rw [hasDestructor_enroll heq₁, any_caller_destructor, List.filter_append, List.map_append,
        List.any_append, ← hdestructors]
      by_cases htype : fragment.type = type
      · subst htype
        cases hasDestructor s.model fragment.type <;> simp
      · simp [htype]
    have happend : done ++ fragment :: fragments = (done ++ [fragment]) ++ fragments := by simp
    rw [happend] at hnamed hkeys
    refine (ih hnamed hkeys hdestructors').mono fun _ s₂ ⟨callers, heq₂, hcallers⟩ =>
      ⟨(fragment.fact.kept (hasDestructor s.model fragment.type)).map fragment.caller ++ callers,
        ?_, ?_⟩
    · rw [heq₂, heq₁, ← Roster.enroll_append]
    · rw [List.map_cons, keptFrom, hkept]
      refine List.rel_append ?_ ?_
      · refine List.forall₂_map_left_iff.2 (List.forall₂_map_right_iff.2 (List.forall₂_same.2 ?_))
        exact fun kept _ => ⟨fragment, by simp, rfl, rfl⟩
      · rw [List.map_append] at hcallers
        refine hcallers.imp fun caller entry hcaller => ?_
        obtain ⟨other, hother, hrest⟩ := hcaller
        exact ⟨other, by simp [hother], hrest⟩

/-- Declaring types puts nothing on the roster. -/
theorem keepsRoster_declare (unit : SourceUnit) (fact : TypeFact) :
    KeepsRoster (linker.draftDeclaration unit fact) := by
  unfold draftDeclaration
  split
  · have htype : KeepsRoster (linker.draftType unit.project fact) :=
      (keepsFiles_draftType unit.project fact).mono fun _ _ h => h.2.roster
    refine htype.bind fun type => ?_
    refine (keepsRoster_of_keeps (keeps_modifyType _ _)).bind fun _ => ?_
    have hfile : KeepsRoster (modifyFile unit.file fun node =>
        { node with types := node.types ++ [type] }) :=
      (along_require unit.file).bind fun _ _ => ends_modify rfl
    exact hfile.bind fun _ => .pure _
  · have hreport : KeepsRoster (report (.namelessType unit.context fact.namespaceName)) := by
      refine fun s => ends_modify ?_
      simp [DraftState.roster, Diagnostics.ofKind, Diagnostics.push, Diagnostic.namelessType]
    exact hreport.bind fun _ => .pure _

variable {repo : RepositoryFact} {fragments : List Fragment}
  {declared nested linked final : DraftState}

/-- **The roster when all fragments are linked**: the methods that are kept of the repository, with
the types of their declarations. -/
theorem Trace.roster_linked (h : linker.Trace repo fragments declared nested linked final) :
    ∃ callers, linked.roster = Roster.enroll {} callers ∧
      List.Forall₂ (fun caller entry => ∃ fragment ∈ fragments,
          fragment.declaration = entry.1 ∧ caller = fragment.caller entry.2) callers
        (keptFrom linker.separator [] (Linker.declarations repo)) := by
  have hdeclare : KeepsRoster (linker.draftAll (sourceUnits repo)) := by
    refine Along.bind (.mapM fun unit => ?_) fun _ => .pure _
    exact (Along.mapM (keepsRoster_declare unit)).bind fun _ => .pure _
  have hnest (fragment : Fragment) : KeepsRoster (linker.draftNest fragment) :=
    along_model.bind fun _ => keepsRoster_of_keeps (keeps_modifyType _ _)
  have hnested : nested.roster = {} := by
    have hstart : DraftState.roster { model := linker.skeleton repo } = {} := by
      simp [DraftState.roster, skeleton, Diagnostics.ofKind]
    have hdeclared : declared.roster = DraftState.roster { model := linker.skeleton repo } :=
      hdeclare _ _ _ h.declare
    exact (Along.forM hnest declared () nested h.nest).trans (hdeclared.trans hstart)
  have hnone (type : TypeId) : hasDestructor nested.model type = false := by
    rw [hasDestructor_eq_any, hnested]
    rfl
  have hall := @ends_rosterOfFragments linker nested linker.separator [] fragments
    (fun _ => h.isNamed) (fun _ hfragment _ hother => h.keys hfragment hother) hnone () linked
    h.members
  rw [h.declarations.1] at hall
  rw [keptFrom_eq, ← hnested]
  exact hall

end Linker

end FactGraph
