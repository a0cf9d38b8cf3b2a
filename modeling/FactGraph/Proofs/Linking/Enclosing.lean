import FactGraph.Proofs.Linking.Call
import FactGraph.Proofs.Linking.Declare
import FactGraph.Proofs.Name.Path
import Mathlib.Data.List.Perm.Subperm

/-!
# The types around a type

A type is put into its enclosing type once all types are declared. The full name of the enclosing
type is shorter than its own, so no type is around itself, and a walk outwards with as many steps as
there are types leaves no type out (`mem_enclosingTypes_size`). From then on no move changes what a
type is in, so the generic parameters that are in scope in a fragment are the same whenever it is
linked.

This is what is needed to say where the names of a repository stand (`occurrences`): each fragment
is accounted for, with the generic parameters of its own and of all types around it.

## Main definitions

* `ReferenceModel.DirectlyIn`: the type is put into the other one
* `ReferenceModel.OuterParameter`: the generic parameter is one of a type around the type
* `ReferenceModel.Outward`: full names get shorter from a type to its enclosing type
* `Linker.occurrences`: what is named where in a repository

## Main results

* `Declares.outward`, `NestMove.outward`: full names get shorter outwards
* `mem_typesAround`: the walk outwards meets the types around the type
* `HasParameters.mem_iff`: the generic parameters in scope are the same whenever a fragment is
  linked
* `accounted_of_fragment`: all that a fragment names is accounted for
-/

namespace FactGraph

open Relation (ReflTransGen TransGen)

namespace ReferenceModel

/-- The type is put into the other one. -/
def DirectlyIn (model : ReferenceModel) (type outer : TypeId) : Prop :=
  ∃ node, model.type? type = some node ∧ node.containingType = some outer

/-- The full name of an enclosing type is shorter. -/
def Outward (model : ReferenceModel) : Prop :=
  ∀ type outer node, model.type? type = some node → node.containingType = some outer →
    ∃ outerNode, model.type? outer = some outerNode ∧
      outerNode.fullName.length < node.fullName.length

/-- The generic parameter is one of a type around the type. -/
def OuterParameter (model : ReferenceModel) (type : TypeId) (parameter : String) : Prop :=
  ∃ around node, TransGen model.DirectlyIn type around ∧ model.type? around = some node ∧
    parameter ∈ node.genericParameters

end ReferenceModel

namespace Linker

variable {linker : Linker} {source : Occurrences} {model model' : ReferenceModel}
  {unit : SourceUnit} {s s' : DraftState}

/-! ## Shorter names -/

/-- No type is put into another one yet. -/
def Unnested (model : ReferenceModel) : Prop :=
  ∀ node ∈ model.types, node.containingType = none

theorem DeclareMove.unnested (h : linker.DeclareMove unit s s') (hs : Unnested s.model) :
    Unnested s'.model := by
  intro node hnode
  cases h with
  | report finding => exact hs node hnode
  | space fact hfact hnamed h =>
    cases h
    exact hs node hnode
  | addType fact =>
    rcases Array.mem_push.1 hnode with hnode | rfl
    · exact hs node hnode
    · rfl
  | noteFile id =>
    dsimp only at hnode
    rcases mem_modify hnode with hnode | ⟨old, hold, rfl⟩
    · exact hs node hnode
    · exact hs old (Array.mem_of_getElem? hold)
  | noteType => exact hs node hnode

theorem Declares.unnested {units : List SourceUnit} (h : linker.Declares units s s')
    (hs : Unnested s.model) : Unnested s'.model := by
  induction h with
  | nil => exact hs
  | cons head _ ih => exact ih (DraftM.keep_of_moves head hs fun _ _ => DeclareMove.unnested)

theorem Unnested.outward (h : Unnested model) : model.Outward := by
  intro type outer node hnode houter
  rw [h node (ReferenceModel.mem_of_type hnode)] at houter
  cases houter

/-- The full name of a nested declaration is longer than that of the type it says it is in. -/
theorem length_fullName_of_outer (sep : Separator) {fact : TypeFact} {outer : String}
    (houter : fact.containingType = some outer) (hblank : Text.isBlank outer = false) :
    (sep.join fact.trimmedNamespace outer).length < (fact.fullName sep).length := by
  have hne : outer ≠ "" := by
    rintro rfl
    simp [Text.isBlank] at hblank
  have hname : fact.outerName? = some outer := by
    rw [TypeFact.outerName?, houter, Option.filter_some, if_pos (by simpa using hne)]
  have hpositive : 0 < sep.text.length := by
    simpa [Nat.pos_iff_ne_zero] using sep.text_ne
  rw [TypeFact.fullName_of_outer hname]
  simp only [String.length_append]
  omega

/-- The type that a fragment says it is in has a shorter full name. -/
theorem outerType?_shorter {fragment : Fragment} {id : TypeId}
    (h : linker.outerType? model fragment = some id) :
    ∃ node, model.type? id = some node ∧
      node.fullName.length < (fragment.fact.fullName linker.separator).length := by
  unfold outerType? at h
  split at h
  next outer heq =>
    obtain ⟨houter, hblank⟩ := Option.filter_eq_some_iff.1 heq
    obtain ⟨i, hi, rfl⟩ := Option.map_eq_some_iff.1 h
    obtain ⟨hlt, hnode, -⟩ := Array.findIdx?_eq_some_iff_getElem.1 hi
    simp only [Bool.and_eq_true, decide_eq_true_eq] at hnode
    refine ⟨_, Array.getElem?_eq_getElem hlt, ?_⟩
    rw [hnode.2]
    exact length_fullName_of_outer _ houter (by simpa using hblank)
  · cases h

theorem NestMove.outward (h : linker.NestMove s s') (hs : s.model.Outward) :
    s'.model.Outward := by
  have hextends := h.extends
  intro type outer node hnode houter
  have hkept (old : TypeNode) (hlonger : ∃ outerNode, s.model.type? outer = some outerNode ∧
      outerNode.fullName.length < old.fullName.length) (hname : node.fullName = old.fullName) :
      ∃ outerNode, s'.model.type? outer = some outerNode ∧
        outerNode.fullName.length < node.fullName.length := by
    obtain ⟨outerNode, houterNode, hlt⟩ := hlonger
    obtain ⟨outerNode', houterNode', hheader⟩ := hextends.type? outer outerNode houterNode
    refine ⟨outerNode', houterNode', ?_⟩
    rw [← outerNode'.header_fullName, hheader, hname]
    exact hlt
  cases h with
  | nest fragment hplaced =>
    obtain ⟨old, hold, -, -, hname, -⟩ := hplaced.type
    change (s.model.types.modify _ _)[type.idx]? = some node at hnode
    rw [Array.getElem?_modify] at hnode
    split at hnode
    next heq =>
      obtain ⟨other, hother, rfl⟩ := Option.map_eq_some_iff.1 hnode
      obtain rfl : old = other := by
        have hsame : s.model.types[fragment.type.idx]? = some old := hold
        rw [heq] at hsame
        exact Option.some.inj (hsame.symm.trans hother)
      refine hkept old ?_ rfl
      rcases Option.or_eq_some_iff.1 houter with hknown | ⟨-, hnew⟩
      · exact hs type outer old hother hknown
      · rw [hname]
        exact outerType?_shorter hnew
    next => exact hkept node (hs type outer node hnode houter) rfl

/-! ## The walk outwards -/

/-- The length of the full name of a type. -/
def nameLength (model : ReferenceModel) (type : TypeId) : Nat :=
  (model.type? type).elim 0 fun node => node.fullName.length

theorem nameLength_lt (h : model.Outward) {type outer : TypeId}
    (houter : (model.type? type).bind TypeNode.containingType = some outer) :
    nameLength model outer < nameLength model type := by
  obtain ⟨node, hnode, hcontaining⟩ := Option.bind_eq_some_iff.1 houter
  obtain ⟨outerNode, houterNode, hlt⟩ := h type outer node hnode hcontaining
  simpa [nameLength, hnode, houterNode] using hlt

/-- A walk with fewer steps is the beginning of a walk with more. -/
theorem enclosingTypes_take (steps more : Nat) (start : Option TypeId) :
    enclosingTypes model steps start = (enclosingTypes model (steps + more) start).take steps := by
  induction steps generalizing start with
  | zero => simp [enclosingTypes]
  | succ steps ih =>
    rw [Nat.succ_add]
    cases start with
    | none => simp [enclosingTypes]
    | some type =>
      rw [enclosingTypes, enclosingTypes, List.take_succ_cons]
      exact congrArg (type :: ·) (ih _)

theorem enclosingTypes_subset {steps more : Nat} (hle : steps ≤ more) (start : Option TypeId) :
    enclosingTypes model steps start ⊆ enclosingTypes model more start := by
  obtain ⟨k, rfl⟩ := Nat.exists_eq_add_of_le hle
  rw [enclosingTypes_take steps k]
  exact List.take_subset _ _

/-- Full names get shorter along the walk. -/
theorem nameLength_enclosingTypes (h : model.Outward) (steps : Nat) (type : TypeId) :
    ∀ outer ∈ enclosingTypes model steps ((model.type? type).bind TypeNode.containingType),
      nameLength model outer < nameLength model type := by
  induction steps generalizing type with
  | zero => simp [enclosingTypes]
  | succ steps ih =>
    intro outer houter
    cases hstart : (model.type? type).bind TypeNode.containingType with
    | none => simp [hstart, enclosingTypes] at houter
    | some next =>
      rw [hstart, enclosingTypes] at houter
      have hnext := nameLength_lt h hstart
      rcases List.mem_cons.1 houter with rfl | houter
      · exact hnext
      · exact (ih next outer houter).trans hnext

/-- The walk passes no type twice. -/
theorem nodup_enclosingTypes (h : model.Outward) (steps : Nat) (start : Option TypeId) :
    (enclosingTypes model steps start).Nodup := by
  induction steps generalizing start with
  | zero => simp [enclosingTypes]
  | succ steps ih =>
    cases start with
    | none => simp [enclosingTypes]
    | some type =>
      rw [enclosingTypes, List.nodup_cons]
      refine ⟨fun hmem => ?_, ih _⟩
      exact absurd (nameLength_enclosingTypes h steps type type hmem) (Nat.lt_irrefl _)

/-- The walk has no more types than there are, since it passes none twice. -/
theorem length_enclosingTypes_le (h : model.Outward) (hclosed : model.Closed) (steps : Nat)
    {start : Option TypeId} (hstart : ∀ id ∈ start, model.hasHandle id) :
    (enclosingTypes model steps start).length ≤ model.types.size := by
  have hbound : enclosingTypes model steps start ⊆
      (List.range model.types.size).map Handle.mk := by
    intro id hid
    have hhandle := hasHandle_of_mem_enclosingTypes hclosed hstart id hid
    exact List.mem_map.2 ⟨id.idx, List.mem_range.2 (of_decide_eq_true hhandle), rfl⟩
  have hnodup := nodup_enclosingTypes h steps start
  simpa using (hnodup.subperm hbound).length_le

/-- **The walk comes to an end**: more steps than there are types lead no further. -/
theorem enclosingTypes_eq_size (h : model.Outward) (hclosed : model.Closed) {steps : Nat}
    (hsteps : model.types.size ≤ steps) {start : Option TypeId}
    (hstart : ∀ id ∈ start, model.hasHandle id) :
    enclosingTypes model steps start = enclosingTypes model model.types.size start := by
  obtain ⟨more, rfl⟩ := Nat.exists_eq_add_of_le hsteps
  have hlength := length_enclosingTypes_le h hclosed (model.types.size + more) hstart
  rw [enclosingTypes_take model.types.size more start, List.take_of_length_le hlength]

/-- **The walk outwards leaves no type out**: with as many steps as there are types it gets as far
as with any number of steps. -/
theorem enclosingTypes_subset_size (h : model.Outward) (hclosed : model.Closed) (steps : Nat)
    {start : Option TypeId} (hstart : ∀ id ∈ start, model.hasHandle id) :
    enclosingTypes model steps start ⊆ enclosingTypes model model.types.size start := by
  rcases Nat.le_total steps model.types.size with hle | hle
  · exact enclosingTypes_subset hle start
  · rw [enclosingTypes_eq_size h hclosed hle hstart]
    exact List.Subset.refl _

/-- **Every type around a type is met on the walk outwards.** -/
theorem mem_enclosingTypes_size (h : model.Outward) (hclosed : model.Closed)
    {type outer : TypeId} (hin : TransGen model.DirectlyIn type outer) :
    outer ∈ enclosingTypes model model.types.size
      ((model.type? type).bind TypeNode.containingType) := by
  have hsteps : ∃ steps, outer ∈ enclosingTypes model steps
      ((model.type? type).bind TypeNode.containingType) := by
    induction hin using TransGen.head_induction_on with
    | single hfirst =>
      obtain ⟨node, hnode, hcontaining⟩ := hfirst
      exact ⟨1, by simp [hnode, hcontaining, enclosingTypes]⟩
    | @head _ next hfirst _ ih =>
      obtain ⟨node, hnode, hcontaining⟩ := hfirst
      obtain ⟨steps, hmem⟩ := ih
      refine ⟨steps + 1, ?_⟩
      rw [hnode, Option.bind_some, hcontaining, enclosingTypes]
      exact List.mem_cons_of_mem _ hmem
  obtain ⟨steps, hmem⟩ := hsteps
  exact enclosingTypes_subset_size h hclosed steps (containing_hasHandle hclosed) hmem

/-- A type that is met on the walk outwards is around the type. -/
theorem transGen_of_mem_enclosingTypes (steps : Nat) {type outer : TypeId}
    (h : outer ∈ enclosingTypes model steps ((model.type? type).bind TypeNode.containingType)) :
    TransGen model.DirectlyIn type outer := by
  induction steps generalizing type with
  | zero => simp [enclosingTypes] at h
  | succ steps ih =>
    cases hstart : (model.type? type).bind TypeNode.containingType with
    | none => simp [hstart, enclosingTypes] at h
    | some next =>
      rw [hstart, enclosingTypes] at h
      have hfirst : model.DirectlyIn type next := Option.bind_eq_some_iff.1 hstart
      rcases List.mem_cons.1 h with rfl | h
      · exact .single hfirst
      · exact (ih h).head hfirst

/-! ## Nothing changes around a type -/

theorem MemberMove.outline (h : linker.MemberMove source s s') {id : TypeId} {node : TypeNode}
    (hnode : s.model.type? id = some node) :
    ∃ node', s'.model.type? id = some node' ∧ node'.outline = node.outline := by
  cases h with
  | external h =>
    cases h
    exact ⟨node, getElem?_push_of_some hnode, rfl⟩
  | addLinks type change links hid hdeclared houtline =>
    refine ⟨_, getElem?_modify_of_some hnode, ?_⟩
    split
    · exact houtline node
    · rfl
  | addRelation =>
    refine ⟨_, getElem?_modify_of_some hnode, ?_⟩
    split <;> rfl
  | _ => exact ⟨node, hnode, rfl⟩

theorem memberMoves_outline (h : ReflTransGen (linker.MemberMove source) s s') {id : TypeId}
    {node : TypeNode} (hnode : s.model.type? id = some node) :
    ∃ node', s'.model.type? id = some node' ∧ node'.outline = node.outline := by
  induction h with
  | refl => exact ⟨node, hnode, rfl⟩
  | tail _ hlast ih =>
    obtain ⟨node₁, hnode₁, heq₁⟩ := ih
    obtain ⟨node₂, hnode₂, heq₂⟩ := hlast.outline hnode₁
    exact ⟨node₂, hnode₂, heq₂.trans heq₁⟩

theorem genericParameters_after (h : ReflTransGen (linker.MemberMove source) s s') {id : TypeId}
    {node node' : TypeNode} (hnode : s.model.type? id = some node)
    (hnode' : s'.model.type? id = some node') :
    node'.genericParameters = node.genericParameters := by
  obtain ⟨same, hsame, houtline⟩ := memberMoves_outline h hnode
  obtain rfl := Option.some.inj (hnode'.symm.trans hsame)
  exact (congrArg TypeNode.genericParameters houtline :)

theorem enclosingTypes_after (h : ReflTransGen (linker.MemberMove source) s s')
    (hclosed : s.model.Closed) (steps : Nat) {start : Option TypeId}
    (hstart : ∀ id ∈ start, s.model.hasHandle id) :
    enclosingTypes s'.model steps start = enclosingTypes s.model steps start := by
  induction steps generalizing start with
  | zero => rfl
  | succ steps ih =>
    cases start with
    | none => rfl
    | some type =>
      obtain ⟨node, hnode⟩ := ReferenceModel.exists_type (hstart type rfl)
      obtain ⟨node', hnode', houtline⟩ := memberMoves_outline h hnode
      have hsame := congrArg TypeNode.containingType houtline
      change node'.containingType = node.containingType at hsame
      rw [enclosingTypes, enclosingTypes, hnode, hnode', Option.bind_some, Option.bind_some, hsame]
      refine congrArg (type :: ·) (ih fun id hid => ?_)
      have hhandles := @containing_hasHandle _ hclosed type
      rw [hnode] at hhandles
      exact hhandles id hid

/-! ## Fragments -/

/-- **The walk outwards meets the types that were around the type before any member was linked.** -/
theorem mem_typesAround {nested : DraftState} (hs : nested.Sound) (houtward : nested.model.Outward)
    (hpath : ReflTransGen (linker.MemberMove source) nested s) {fragment : Fragment}
    (htype : nested.model.hasHandle fragment.type) {around : TypeId} :
    around ∈ typesAround s.model fragment ↔
      TransGen nested.model.DirectlyIn fragment.type around := by
  -- The walk starts at the same type, and has no fewer steps.
  obtain ⟨own, hown⟩ := ReferenceModel.exists_type htype
  obtain ⟨own', hown', houtline⟩ := memberMoves_outline hpath hown
  have hstart := congrArg TypeNode.containingType houtline
  change own'.containingType = own.containingType at hstart
  have hhandles := @containing_hasHandle _ hs.closed fragment.type
  have hwalk : typesAround s.model fragment = enclosingTypes nested.model s.model.types.size
      ((nested.model.type? fragment.type).bind TypeNode.containingType) := by
    rw [hown, Option.bind_some] at hhandles ⊢
    rw [typesAround, hown', Option.bind_some, hstart,
      enclosingTypes_after hpath hs.closed _ hhandles]
  rw [hwalk]
  constructor
  · exact transGen_of_mem_enclosingTypes _
  · intro hin
    exact enclosingTypes_subset ((memberMoves_extends hpath).count_le .type) _
      (mem_enclosingTypes_size houtward hs.closed hin)

/-- A type around another one is there. -/
theorem hasHandle_of_around (hclosed : model.Closed) {type outer : TypeId}
    (h : TransGen model.DirectlyIn type outer) : model.hasHandle outer := by
  obtain ⟨inner, -, hlast⟩ := TransGen.tail'_iff.1 h
  exact @containing_hasHandle _ hclosed inner outer (Option.bind_eq_some_iff.2 hlast)

/-- **What is named where in a repository**: a declaration of a type names another one, where the
generic parameters of types are those of the declaration itself and of all types around its type. -/
def occurrences (linker : Linker) (repo : RepositoryFact) (model : ReferenceModel) :
    Occurrences where
  names type outer parameters name := ∃ unit ∈ sourceUnits repo, ∃ fact ∈ unit.fact.types,
    fact.isNamed ∧ linker.FragmentOf model unit.project fact type ∧
    fact.Mentions parameters name ∧
    ∀ parameter, parameter ∈ outer ↔
      parameter ∈ fact.genericParameters ∨ model.OuterParameter type parameter
  calls call := ∃ unit ∈ sourceUnits repo, ∃ fact ∈ unit.fact.types, fact.isNamed ∧ fact.Calls call

/-- **The generic parameters in scope in a fragment** are the same whenever its members are linked:
no node changes its own, and none is put into another type. -/
theorem HasParameters.mem_iff {nested : DraftState} (hs : nested.Sound)
    (houtward : nested.model.Outward)
    (hpath : ReflTransGen (linker.MemberMove source) nested s) {fragment : Fragment}
    (hplaced : linker.Placed nested.model fragment) {outer : List String}
    (houter : HasParameters s.model fragment outer) (parameter : String) :
    parameter ∈ outer ↔ parameter ∈ fragment.fact.genericParameters ∨
      nested.model.OuterParameter fragment.type parameter := by
  rw [houter parameter]
  refine or_congr_right (exists_congr fun around => ?_)
  obtain ⟨own, hown, -⟩ := hplaced.type
  rw [mem_typesAround hs houtward hpath (ReferenceModel.hasHandle_of_type hown)]
  constructor
  · rintro ⟨hin, node', hnode', hparameter⟩
    obtain ⟨node, hnode⟩ := ReferenceModel.exists_type (hasHandle_of_around hs.closed hin)
    rw [genericParameters_after hpath hnode hnode'] at hparameter
    exact ⟨node, hin, hnode, hparameter⟩
  · rintro ⟨node, hin, hnode, hparameter⟩
    obtain ⟨node', hnode', -⟩ := memberMoves_outline hpath hnode
    rw [← genericParameters_after hpath hnode hnode'] at hparameter
    exact ⟨hin, node', hnode', hparameter⟩

/-- **All that a fragment names is accounted for**, whenever its members are linked. -/
theorem accounted_of_fragment {repo : RepositoryFact} {nested : DraftState} (hs : nested.Sound)
    (houtward : nested.model.Outward)
    (hpath : ReflTransGen (linker.MemberMove source) nested s) {fragment : Fragment}
    (hfrom : FragmentFrom (sourceUnits repo) fragment)
    (hplaced : linker.Placed nested.model fragment) :
    Accounted (linker.occurrences repo nested.model) s.model fragment := by
  obtain ⟨unit, hunit, hproject, hfact⟩ := hfrom.origin
  constructor
  · intro outer houter parameters name hmentions
    refine ⟨unit, hunit, fragment.fact, hfact, hfrom.named, ?_, hmentions, ?_⟩
    · rw [← hproject]
      exact hplaced.type
    · exact houter.mem_iff hs houtward hpath hplaced
  · rintro call hcall
    exact ⟨unit, hunit, fragment.fact, hfact, hfrom.named, hcall⟩

end Linker

end FactGraph
