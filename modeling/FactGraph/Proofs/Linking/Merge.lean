import FactGraph.Proofs.Linking.Confinement
import FactGraph.Proofs.Linking.Containment
import FactGraph.Proofs.Linking.Fragments

/-!
# Merging declarations

A type has exactly the members of its declarations. Whatever the facts are, the fields, properties,
methods and constructors of a declared type are the kept ones of its declarations, one declaration
after the other in the order of the units and none twice, and its destructor is the first one with
a name. The declarations of other types, found in between and in other files and projects, make no
difference, and neither do the methods of external types that calls bring in later. What is not
kept is counted: there is one finding for every member that is skipped, and no other one of that
kind.

## Main definitions

* `Declaration.skips`, `skipsFrom`: how much is skipped of a declaration, and of all of them
* `TypeNode.Unites`: a type has the kept members of the declarations
* `ReferenceModel.Merges`: so has every declared type of a model

## Main results

* `link_merges`: the model of a repository merges its declarations, and counts what is skipped
-/

namespace FactGraph

/-! ## The members of declarations -/

/-- The declaration has a destructor that is kept. -/
def TypeFact.hasNamedDestructor (fact : TypeFact) : Bool :=
  fact.destructor.any MethodFact.isNamed

/-- **What declarations add to their type together**: their kept members, and the first destructor
with a name. -/
def Members.ofFacts (facts : List TypeFact) : Members where
  fields := (facts.flatMap TypeFact.fields).filter FieldFact.isComplete
  properties := (facts.flatMap TypeFact.properties).filter PropertyFact.isComplete
  methods
    | .method => (facts.flatMap TypeFact.methods).filter MethodFact.isNamed
    | .constructor => (facts.flatMap TypeFact.constructors).filter MethodFact.isNamed
    | .destructor => ((facts.filterMap TypeFact.destructor).find? MethodFact.isNamed).toList
    | .accessor | .localFunction => []

namespace Members

/-- There is no destructor if no declaration has one with a name. -/
theorem ofFacts_destructor_eq_nil {facts : List TypeFact} :
    (ofFacts facts).methods .destructor = [] ↔ facts.any TypeFact.hasNamedDestructor = false := by
  have hany : facts.any TypeFact.hasNamedDestructor =
      (facts.filterMap TypeFact.destructor).any MethodFact.isNamed := by
    induction facts with
    | nil => rfl
    | cons fact facts ih =>
      cases h : fact.destructor <;> simp [TypeFact.hasNamedDestructor, h, ← ih]
  rw [hany, List.any_eq_false, ofFacts]
  simp only [Option.toList_eq_nil_iff, List.find?_eq_none]

theorem ofFacts_nil : ofFacts [] = {} := by
  ext1
  · rfl
  · rfl
  · funext kind
    cases kind <;> rfl

/-- One more declaration adds its members behind those of the others. -/
theorem ofFacts_concat (facts : List TypeFact) (fact : TypeFact) :
    ofFacts (facts ++ [fact]) =
      ofFacts facts ++ ofFact fact (facts.any TypeFact.hasNamedDestructor) := by
  ext1
  · simp [ofFacts, ofFact]
  · simp [ofFacts, ofFact]
  · funext kind
    cases kind with
    | destructor =>
      have hnew : [fact].filterMap TypeFact.destructor = fact.destructor.toList := by
        cases h : fact.destructor <;> simp [h]
      have hfirst := @ofFacts_destructor_eq_nil facts
      simp only [ofFacts, Option.toList_eq_nil_iff] at hfirst
      simp only [append_methods, ofFacts, ofFact, List.filterMap_append, hnew, List.find?_append]
      cases h : facts.any TypeFact.hasNamedDestructor with
      | false =>
        rw [hfirst.2 h]
        cases fact.destructor with
        | none => rfl
        | some destructor => cases hnamed : destructor.isNamed <;> simp [hnamed]
      | true =>
        have hsome := mt hfirst.1 (by simp [h])
        obtain ⟨found, hfound⟩ := Option.ne_none_iff_exists'.1 hsome
        simp [hfound]
    | _ => simp [ofFacts, ofFact]

end Members

/-! ## What is skipped -/

/-- **What is skipped of a declaration**, which comes after others: the declaration itself if it
has no name, and otherwise what is skipped inside of it. Its destructor is one too many if one of
the others makes up the same type and has one. -/
def Declaration.skips (sep : Separator) (earlier : List Declaration) (declaration : Declaration) :
    Nat :=
  if declaration.isNamed then
    declaration.fact.skips (earlier.any fun other =>
      other.isNamed && other.key sep = declaration.key sep && other.fact.hasNamedDestructor)
  else 1

/-- **What is skipped of declarations**, which come after others. -/
def skipsFrom (sep : Separator) (earlier : List Declaration) : List Declaration → Nat
  | [] => 0
  | declaration :: declarations =>
    declaration.skips sep earlier + skipsFrom sep (earlier ++ [declaration]) declarations

/-- Only what has a name makes a difference for what comes after it. -/
theorem skips_filter (sep : Separator) (earlier : List Declaration) (declaration : Declaration) :
    declaration.skips sep (earlier.filter Declaration.isNamed) =
      declaration.skips sep earlier := by
  unfold Declaration.skips
  rw [List.any_filter]
  congr 2
  refine congrArg (List.any earlier) (funext fun other => ?_)
  cases other.isNamed <;> simp

/-- The declarations without a name can be counted apart from the others. -/
theorem skipsFrom_eq (sep : Separator) (earlier declarations : List Declaration) :
    skipsFrom sep earlier declarations = declarations.countP (!·.isNamed) +
      skipsFrom sep (earlier.filter Declaration.isNamed)
        (declarations.filter Declaration.isNamed) := by
  induction declarations generalizing earlier with
  | nil => rfl
  | cons declaration declarations ih =>
    rw [skipsFrom, ih (earlier ++ [declaration]), List.filter_append]
    cases h : declaration.isNamed with
    | true =>
      simp only [h, List.filter_cons_of_pos, List.filter_nil, skipsFrom, skips_filter,
        List.countP_cons]
      simp
      omega
    | false =>
      simp [h, Declaration.skips]
      omega

namespace Linker

open DraftM
open Relation (ReflTransGen)

variable {linker : Linker} {repo : RepositoryFact} {s : DraftState}

/-! ## The members of all fragments -/

/-- The members of every type that fragments make up. -/
def membersOf (fragments : List Fragment) (type : TypeId) : Members :=
  .ofFacts ((fragments.filter fun fragment => fragment.type = type).map Fragment.fact)

/-- One more fragment adds the members of its declaration to its type, and none to any other. -/
theorem membersOf_concat (fragments : List Fragment) (fragment : Fragment) (type : TypeId) :
    membersOf (fragments ++ [fragment]) type = membersOf fragments type ++
      Members.within fragment.type (.ofFact fragment.fact (((fragments.filter fun other =>
        other.type = fragment.type).map Fragment.fact).any TypeFact.hasNamedDestructor)) type := by
  unfold membersOf Members.within
  rw [List.filter_append, List.map_append]
  by_cases h : type = fragment.type
  · subst h
    simp [Members.ofFacts_concat]
  · have hnone : [fragment].filter (fun other => decide (other.type = type)) = [] := by
      simp [Ne.symm h]
    simp [hnone, h]

/-- A type has a destructor as soon as a fragment of it has one with a name. -/
theorem hasDestructor_of_presents {fragments : List Fragment}
    (h : s.ledger.Presents (membersOf fragments)) (type : TypeId) :
    hasDestructor s.model type = ((fragments.filter fun fragment =>
      fragment.type = type).map Fragment.fact).any TypeFact.hasNamedDestructor := by
  have hlength := (h.methods type .destructor rfl).length
  rw [Bool.eq_iff_iff, ← not_iff_not, Bool.not_eq_true, Bool.not_eq_true,
    hasDestructor_eq_false, ← Members.ofFacts_destructor_eq_nil, ← List.length_eq_zero_iff,
    hlength, List.length_eq_zero_iff]
  rfl

/-- Whether the type of a fragment has a destructor, read off the declarations: which fragments are
of its type is told by their keys. -/
theorem any_hasNamedDestructor {sep : Separator} {done : List Fragment} {fragment : Fragment}
    (hdone : ∀ other ∈ done, other.declaration.isNamed ∧
      (other.type = fragment.type ↔ other.declaration.key sep = fragment.declaration.key sep)) :
    ((done.filter fun other => other.type = fragment.type).map Fragment.fact).any
      TypeFact.hasNamedDestructor =
      (done.map Fragment.declaration).any fun other => other.isNamed &&
        other.key sep = fragment.declaration.key sep && other.fact.hasNamedDestructor := by
  rw [Bool.eq_iff_iff, List.any_map, List.any_map, List.any_filter, List.any_eq_true,
    List.any_eq_true]
  refine exists_congr fun other => and_congr_right fun hother => ?_
  obtain ⟨hname, hsame⟩ := hdone other hother
  have hfact : other.declaration.fact = other.fact := rfl
  simp [hsame, hname, hfact]

/-- What is skipped of a fragment, read off the declarations. -/
theorem skips_fragment {sep : Separator} {done : List Fragment} {fragment : Fragment}
    (hnamed : fragment.declaration.isNamed)
    (hdone : ∀ other ∈ done, other.declaration.isNamed ∧
      (other.type = fragment.type ↔ other.declaration.key sep = fragment.declaration.key sep)) :
    fragment.fact.skips (((done.filter fun other =>
      other.type = fragment.type).map Fragment.fact).any TypeFact.hasNamedDestructor) =
      fragment.declaration.skips sep (done.map Fragment.declaration) := by
  rw [Declaration.skips, if_pos hnamed, any_hasNamedDestructor hdone]
  rfl

/-- **The fragments that are left add their members** behind those of the fragments that are
done. -/
theorem ends_linkFragments {sep : Separator} {done fragments : List Fragment}
    (hnamed : ∀ fragment ∈ done ++ fragments, fragment.declaration.isNamed)
    (hkeys : ∀ fragment ∈ done ++ fragments, ∀ other ∈ done ++ fragments,
      other.type = fragment.type ↔ other.declaration.key sep = fragment.declaration.key sep)
    (hclosed : s.ledger.Closed 0 0) (hpresents : s.ledger.Presents (membersOf done)) :
    Ends s (fragments.forM linker.draftMembers) fun _ s' =>
      s'.ledger.Closed 0 0 ∧ s'.ledger.Presents (membersOf (done ++ fragments)) ∧
      s'.ledger.skipped = s.ledger.skipped + skipsFrom sep (done.map Fragment.declaration)
        (fragments.map Fragment.declaration) := by
  -- The ledger is closed, and it shows the members of the fragments that are done.
  induction fragments generalizing s done with
  | nil => exact .pure ⟨hclosed, by rwa [List.append_nil], rfl⟩
  | cons fragment fragments ih =>
    have hmem : fragment ∈ done ++ fragment :: fragments := by simp
    have hhas := hasDestructor_of_presents hpresents fragment.type
    have hskips : fragment.fact.skips (hasDestructor s.model fragment.type) =
        fragment.declaration.skips sep (done.map Fragment.declaration) := by
      rw [hhas]
      refine skips_fragment (hnamed fragment hmem) fun other hother => ?_
      have hother := List.mem_append_left (fragment :: fragments) hother
      exact ⟨hnamed other hother, hkeys fragment hmem other hother⟩
    refine Ends.bind (enters_draftMembers fragment)
      fun _ s₁ ⟨part, heq, hpart, hshows, hskipped⟩ => ?_
    have hclosed' : part.Closed (0 + s.ledger.methods.length)
        (0 + s.ledger.properties.length) := by
      rwa [Nat.zero_add, Nat.zero_add]
    have hpresents' : s₁.ledger.Presents (membersOf (done ++ [fragment])) := by
      have hboth := hpresents.append hclosed hshows hclosed'
      rw [heq]
      convert hboth using 1
      funext type
      rw [membersOf_concat, hhas]
    have happend : done ++ fragment :: fragments = (done ++ [fragment]) ++ fragments := by simp
    rw [happend] at hnamed hkeys ⊢
    refine (ih hnamed hkeys (heq ▸ hclosed.append hclosed') hpresents').mono
      fun _ s₂ ⟨hclosed₂, hpresents₂, hskipped₂⟩ => ⟨hclosed₂, hpresents₂, ?_⟩
    rw [hskipped₂, heq, Ledger.append_skipped, hskipped, hskips, List.map_append, List.map_cons,
      List.map_nil, List.map_cons, skipsFrom, Nat.add_assoc]

/-! ## The members of a model -/

end Linker

/-- The declaration is one of those that make up the type. -/
def Declaration.isPartOf (sep : Separator) (node : TypeNode) (declaration : Declaration) : Bool :=
  declaration.isNamed && node.key? = some (declaration.key sep)

/-- **The type has the kept members of the declarations**, one declaration after the other, and no
others. -/
structure TypeNode.Unites (model : ReferenceModel) (node : TypeNode) (facts : List TypeFact) :
    Prop where
  fields : node.fields.map model.fieldLabel? =
    ((facts.flatMap TypeFact.fields).filter FieldFact.isComplete).map (some ·.label)
  properties : List.Forall₂ model.RepresentsProperty node.properties
    ((facts.flatMap TypeFact.properties).filter PropertyFact.isComplete)
  methods : List.Forall₂ model.Represents node.methods
    ((facts.flatMap TypeFact.methods).filter MethodFact.isNamed)
  constructors : List.Forall₂ model.Represents node.constructors
    ((facts.flatMap TypeFact.constructors).filter MethodFact.isNamed)
  /-- The first destructor with a name. -/
  destructor : List.Forall₂ model.Represents node.destructor.toList
    ((facts.filterMap TypeFact.destructor).find? MethodFact.isNamed).toList

/-- **The model merges the declarations of the repository.** Its projects are the first listings;
every declared type has the members of the declarations that make it up; every file lists the types
of its named declarations. -/
structure ReferenceModel.Merges (sep : Separator) (repo : RepositoryFact)
    (model : ReferenceModel) : Prop where
  projects : model.paths = repo.firstListings.map ProjectFact.path
  types : ∀ node ∈ model.types, node.isExternal = false →
    node.Unites model (((Linker.declarations repo).filter (·.isPartOf sep node)).map
      Declaration.fact)
  files : List.Forall₂ (fun unit file =>
      file.path = unit.fact.path ∧ file.project = unit.project ∧
        List.Forall₂ (fun (declaration : Declaration) type => ∃ node,
            model.type? type = some node ∧ declaration.isPartOf sep node)
          (unit.declarations.filter Declaration.isNamed) file.types)
    (Linker.sourceUnits repo) model.files.toList

namespace ReferenceModel

/-- The node of a handle that one of the nodes has. -/
theorem getElem?_of_numbered {β : Type} {kind : NodeKind} {nodes : Array β}
    {nodeId : β → Handle kind}
    (hnodes : nodes.toList.map nodeId = (List.range nodes.size).map Handle.mk) {node : β}
    (hnode : node ∈ nodes) : nodes[(nodeId node).idx]? = some node := by
  obtain ⟨i, hi⟩ := Array.mem_iff_getElem?.1 hnode
  rw [idx_of_numbered hnodes hi]
  exact hi

/-- How the members read that are in a node, by what the nodes say that they are in. -/
theorem map_label_handlesWhere {β : Type} {kind holderKind : NodeKind} {nodes : Array β}
    {nodeId : β → Handle kind} {holder : β → Handle holderKind} {label : β → Label}
    (hnodes : nodes.toList.map nodeId = (List.range nodes.size).map Handle.mk)
    (id : Handle holderKind) :
    (handlesWhere nodes (fun node => holder node = id) nodeId).map
        (fun handle => (nodes[handle.idx]?).map label) =
      (labelsAt (nodes.toList.map fun node => (holder node, label node)) id).map some := by
  rw [handlesWhere, labelsAt, List.map_map, List.filter_map, List.map_map, List.map_map]
  refine List.map_congr_left fun node hnode => ?_
  have hmem := Array.mem_toList_iff.1 (List.mem_of_mem_filter hnode)
  simp [getElem?_of_numbered hnodes hmem]

end ReferenceModel

namespace Linker

open DraftM
open Relation (ReflTransGen)

variable {linker : Linker} {repo : RepositoryFact} {s s' : DraftState}

/-- The methods in a place are those that say that they are there. -/
theorem handlesWhere_eq_methodsAt (slot : MethodSlot) :
    ReferenceModel.handlesWhere s.model.methods (fun node => slot node.containingType node.owner)
      MethodNode.id = s.ledger.methodsAt slot := by
  simp [ReferenceModel.handlesWhere, Ledger.methodsAt, DraftState.ledger, List.filter_map,
    Function.comp_def, MethodNode.entry]

theorem propertiesIn_eq (type : TypeId) :
    s.model.propertiesIn type = s.ledger.propertiesAt type := by
  rw [ReferenceModel.propertiesIn, ReferenceModel.handlesWhere, Ledger.propertiesAt,
    DraftState.ledger, List.filter_map, List.map_map]
  rfl

/-- **A model agrees with what was written down for it**, once it is filled in. -/
theorem spans_wire (h : s.model.Numbered) : s.model.wire.Spans s.ledger where
  methods entry hentry := by
    obtain ⟨node, hnode, rfl⟩ := List.mem_map.1 hentry
    have hget := h.method?_id (Array.mem_toList_iff.1 hnode)
    refine ⟨s.model.wireMethod node, ?_, rfl, ?_, ?_, ?_⟩
    · rw [ReferenceModel.wire_method?]
      exact congrArg (Option.map s.model.wireMethod) hget
    · exact ReferenceModel.map_label_handlesWhere (h .parameter) node.id
    · exact ReferenceModel.map_label_handlesWhere (h .localVariable) node.id
    · exact handlesWhere_eq_methodsAt (.ofMethod node.id)
  properties entry hentry := by
    obtain ⟨node, hnode, rfl⟩ := List.mem_map.1 hentry
    have hget : s.model.property? node.id = some node :=
      ReferenceModel.getElem?_of_numbered (h .property) (Array.mem_toList_iff.1 hnode)
    refine ⟨s.model.wireProperty node, ?_, rfl, handlesWhere_eq_methodsAt (.ofProperty node.id)⟩
    rw [ReferenceModel.wire_property?]
    exact congrArg (Option.map s.model.wireProperty) hget

section Calls

variable {linked final : DraftState}

/-- A model agrees with what was written down before its calls were linked. -/
theorem spans_of_calls (hnumbered : final.model.Numbered) (hclosed : linked.ledger.Closed 0 0)
    (hcalls : AddsSynthetic linked final) : final.model.wire.Spans linked.ledger := by
  obtain ⟨part, hledger, hpart, -⟩ := hcalls.part
  have hboth : final.model.wire.Spans (linked.ledger ++ part) := hledger ▸ spans_wire hnumbered
  refine (hclosed.spans ?_ hboth).1
  rwa [Nat.zero_add, Nat.zero_add]

/-- Calls bring no method into a declared type: what they add is in external types. -/
theorem methodsIn_of_calls (hnumbered : final.model.Numbered)
    (hcalls : AddsSynthetic linked final) {node : TypeNode} (hnode : node ∈ final.model.types)
    (hdeclared : node.isExternal = false) (kind : MethodKind) :
    final.model.methodsIn node.id kind = linked.ledger.methodsAt (.ofType node.id kind) := by
  obtain ⟨part, hledger, -, -, -, -, htypes⟩ := hcalls.part
  have hnone : part.methodsAt (.ofType node.id kind) = [] := by
    refine Ledger.methodsAt_eq_nil fun entry hentry => ?_
    obtain ⟨owner, howner, hexternal, hid⟩ := htypes entry hentry
    have hne : entry.type ≠ node.id := by
      intro heq
      have hget := hnumbered.type?_id howner
      rw [hid, heq, hnumbered.type?_id hnode] at hget
      obtain rfl := Option.some.inj hget
      rw [hdeclared] at hexternal
      cases hexternal
    simp [MethodSlot.ofType, hne]
  have hall := handlesWhere_eq_methodsAt (s := final) (.ofType node.id kind)
  rw [hledger, Ledger.methodsAt_append, hnone, List.append_nil] at hall
  exact hall

/-- **A type has the members that were written down for it.** -/
theorem unites_of_presents {members : TypeId → Members} (hnumbered : final.model.Numbered)
    (hclosed : linked.ledger.Closed 0 0) (hpresents : linked.ledger.Presents members)
    (hcalls : AddsSynthetic linked final) {node : TypeNode} (hnode : node ∈ final.model.types)
    (hdeclared : node.isExternal = false) {facts : List TypeFact}
    (hfacts : members node.id = .ofFacts facts) :
    (final.model.wireType node).Unites final.model.wire facts := by
  have hspans := spans_of_calls hnumbered hclosed hcalls
  have hshows (kind : MethodKind) (hkind : kind.isDirect) :
      (final.model.methodsIn node.id kind).length =
        ((Members.ofFacts facts).methods kind).length ∧
      List.Forall₂ final.model.wire.Represents (final.model.methodsIn node.id kind)
        ((Members.ofFacts facts).methods kind) := by
    have hkind := hpresents.methods node.id kind hkind
    rw [methodsIn_of_calls hnumbered hcalls hnode hdeclared, ← hfacts]
    exact ⟨hkind.length, hkind.represents _ hspans⟩
  obtain ⟨part, hledger, -, hfields, hproperties, -⟩ := hcalls.part
  constructor
  · have hlabels : (final.model.fieldsIn node.id).map final.model.fieldLabel? =
        (labelsAt final.ledger.fields node.id).map some :=
      ReferenceModel.map_label_handlesWhere (hnumbered .field) node.id
    have hlinked : labelsAt final.ledger.fields node.id =
        (Members.ofFacts facts).fields.map FieldFact.label := by
      rw [hledger, Ledger.append_fields, hfields, List.append_nil, hpresents.fields, hfacts]
    refine hlabels.trans ?_
    rw [hlinked, List.map_map]
    rfl
  · have hlinked : final.model.propertiesIn node.id = linked.ledger.propertiesAt node.id := by
      rw [propertiesIn_eq, hledger]
      simp [Ledger.propertiesAt, hproperties]
    have hall := hpresents.properties node.id _ hspans
    rw [hfacts, ← hlinked] at hall
    exact hall
  · exact (hshows .method rfl).2
  · exact (hshows .constructor rfl).2
  · -- There is at most one destructor, so the first one is all of them.
    obtain ⟨hlength, hall⟩ := hshows .destructor rfl
    have hle : (final.model.methodsIn node.id .destructor).length ≤ 1 := by
      rw [hlength, Members.ofFacts]
      exact Option.length_toList_le
    rw [← ReferenceModel.toList_head?_of_length_le hle] at hall
    exact hall

end Calls

/-! ## The whole run -/

/-- Nesting types leaves the files alone. -/
theorem nestMoves_files (h : ReflTransGen linker.NestMove s s') :
    s'.model.files = s.model.files := by
  induction h with
  | refl => rfl
  | tail _ hlast ih =>
    cases hlast
    exact ih

/-- Linking members leaves the files alone. -/
theorem memberMoves_files {source : Occurrences}
    (h : ReflTransGen (linker.MemberMove source) s s') : s'.model.files = s.model.files := by
  induction h with
  | refl => rfl
  | tail _ hlast ih =>
    cases hlast with
    | external h =>
      cases h
      exact ih
    | _ => exact ih

section Trace

variable {fragments : List Fragment} {declared nested linked final : DraftState}

/-- A fragment is one of a type if its declaration has the key of the type. -/
theorem type_eq_iff {model : ReferenceModel} (hnumbered : model.Numbered)
    (hkeys : model.KeysDistinct) {fragment : Fragment} (hplaced : linker.Placed model fragment)
    {node : TypeNode} (hnode : node ∈ model.types) : fragment.type = node.id ↔
      node.key? = some (fragment.declaration.key linker.separator) := by
  obtain ⟨own, hown, -, hproject, hname, hpartial⟩ := hplaced.type
  have hkey : own.key? = some (fragment.declaration.key linker.separator) := by
    rw [TypeNode.key?, hproject, hname, hpartial]
    rfl
  constructor
  · intro heq
    rw [heq, hnumbered.type?_id hnode] at hown
    rwa [Option.some.inj hown]
  · intro heq
    rw [hkeys.eq hnode (ReferenceModel.mem_of_type hown) heq hkey]
    exact (hnumbered.type_id hown).symm

theorem Trace.placed_final (h : linker.Trace repo fragments declared nested linked final)
    {fragment : Fragment} (hfragment : fragment ∈ fragments) :
    linker.Placed final.model fragment :=
  placed_keep (h.placed fragment hfragment)
    ((nestMoves_extends h.phases.nests).trans (memberMoves_extends h.phases.links))

/-- Fragments are of one type if their declarations have one key. -/
theorem Trace.keys (h : linker.Trace repo fragments declared nested linked final)
    {fragment other : Fragment} (hfragment : fragment ∈ fragments) (hother : other ∈ fragments) :
    other.type = fragment.type ↔ other.declaration.key linker.separator =
      fragment.declaration.key linker.separator := by
  have hnumbered := h.phases.sound.numbered
  have hplaced := h.placed_final hfragment
  obtain ⟨node, hnode, -⟩ := hplaced.type
  have hmem := ReferenceModel.mem_of_type hnode
  have hid := hnumbered.type_id hnode
  have hkey := (type_eq_iff hnumbered h.phases.keysDistinct hplaced hmem).1 hid.symm
  rw [← hid, type_eq_iff hnumbered h.phases.keysDistinct (h.placed_final hother) hmem, hkey,
    Option.some.injEq, eq_comm]

/-- **The fragments of a run** are the named declarations, and the files list their types. -/
theorem Trace.declarations (h : linker.Trace repo fragments declared nested linked final) :
    fragments.map Fragment.declaration =
      (Linker.declarations repo).filter Declaration.isNamed ∧
    declared.ledger = { skipped := (Linker.declarations repo).countP (!·.isNamed) } ∧
    List.Forall₂ (Filed fragments) (sourceUnits repo) declared.model.files.toList := by
  have hstart : (linker.skeleton repo).files.toList =
      [] ++ (sourceUnits repo).map SourceUnit.fileNode := rfl
  obtain ⟨hfragments, hledger, files, hfiles, hfiled⟩ :=
    ends_draftAll (sourceUnits_files repo) hstart _ _ h.declare
  refine ⟨hfragments, hledger.trans ?_, ?_⟩
  · ext1 <;> simp [DraftState.ledger, skeleton, Diagnostics.ofKind, Linker.declarations]
  · rwa [hfiles]

theorem Trace.isNamed (h : linker.Trace repo fragments declared nested linked final)
    {fragment : Fragment} (hfragment : fragment ∈ fragments) : fragment.declaration.isNamed := by
  have hmem := List.mem_map_of_mem (f := Fragment.declaration) hfragment
  rw [h.declarations.1] at hmem
  exact (List.mem_filter.1 hmem).2

/-- The files list what they listed when all units were declared. -/
theorem Trace.files (h : linker.Trace repo fragments declared nested linked final) :
    final.model.files = declared.model.files :=
  (memberMoves_files h.phases.links).trans (nestMoves_files h.phases.nests)

/-- **The members of every type when all fragments are linked.** -/
theorem Trace.members_linked (h : linker.Trace repo fragments declared nested linked final) :
    linked.ledger.Closed 0 0 ∧ linked.ledger.Presents (membersOf fragments) ∧
      linked.ledger.skipped = skipsFrom linker.separator [] (Linker.declarations repo) := by
  obtain ⟨hfragments, hdeclared, -⟩ := h.declarations
  have hnest (fragment : Fragment) : Keeps (linker.draftNest fragment) :=
    along_model.bind fun _ => keeps_modifyType _ _
  have hnested : nested.ledger = { skipped := (Linker.declarations repo).countP (!·.isNamed) } :=
    (Along.forM hnest declared () nested h.nest).ledger.trans hdeclared
  have hempty : nested.ledger.Presents (membersOf []) := by
    have hnone : membersOf [] = Members.within ⟨0⟩ {} := by
      funext type
      rw [Members.within, ite_self]
      exact Members.ofFacts_nil
    rw [hnested, hnone]
    exact .of_fields ⟨0⟩ [] _
  have hclosed : nested.ledger.Closed 0 0 := by
    rw [hnested]
    exact .of_skipped 0 0 _
  have hall : Ends nested (fragments.forM linker.draftMembers) fun _ s' =>
      s'.ledger.Closed 0 0 ∧ s'.ledger.Presents (membersOf ([] ++ fragments)) ∧
        s'.ledger.skipped = nested.ledger.skipped +
          skipsFrom linker.separator [] (fragments.map Fragment.declaration) :=
    ends_linkFragments (fun _ => h.isNamed)
      (fun _ hfragment _ hother => h.keys hfragment hother) hclosed hempty
  obtain ⟨hclosed', hpresents, hskipped⟩ := hall () linked h.members
  refine ⟨hclosed', hpresents, ?_⟩
  rw [hskipped, hnested, hfragments, skipsFrom_eq _ _ (Linker.declarations repo)]
  rfl

/-- **The fragments of a type** are the declarations that make it up. -/
theorem Trace.declarationsOf (h : linker.Trace repo fragments declared nested linked final)
    {node : TypeNode} (hnode : node ∈ final.model.types) :
    (fragments.filter fun fragment => fragment.type = node.id).map Fragment.declaration =
      (Linker.declarations repo).filter (·.isPartOf linker.separator node) := by
  have hown : (fragments.filter fun fragment => fragment.type = node.id) =
      fragments.filter fun fragment =>
        decide (node.key? = some (fragment.declaration.key linker.separator)) :=
    List.filter_congr fun fragment hfragment => decide_eq_decide.2
      (type_eq_iff h.phases.sound.numbered h.phases.keysDistinct (h.placed_final hfragment) hnode)
  calc (fragments.filter fun fragment => fragment.type = node.id).map Fragment.declaration
      = (fragments.map Fragment.declaration).filter fun declaration =>
          decide (node.key? = some (declaration.key linker.separator)) := by
        rw [hown, List.filter_map]
        rfl
    _ = _ := by
        rw [h.declarations.1, List.filter_filter]
        refine List.filter_congr fun declaration _ => ?_
        exact Bool.and_comm _ _

/-- **Every declared type has the members of its declarations.** -/
theorem Trace.types (h : linker.Trace repo fragments declared nested linked final)
    {node : TypeNode} (hnode : node ∈ final.model.types) (hdeclared : node.isExternal = false) :
    (final.model.wireType node).Unites final.model.wire
      (((Linker.declarations repo).filter (·.isPartOf linker.separator node)).map
        Declaration.fact) := by
  have hnumbered := h.phases.sound.numbered
  obtain ⟨hclosed, hpresents, -⟩ := h.members_linked
  have hcalls : AddsSynthetic linked final := along_draftCalls linked () final h.calls
  refine unites_of_presents hnumbered hclosed hpresents hcalls hnode hdeclared ?_
  refine congrArg Members.ofFacts ?_
  rw [← h.declarationsOf hnode, List.map_map]
  rfl

/-- The declaration of a fragment is one of those that make up its type. -/
theorem Trace.isPartOf (h : linker.Trace repo fragments declared nested linked final)
    {fragment : Fragment} (hfragment : fragment ∈ fragments) :
    ∃ node, final.model.wire.type? fragment.type = some node ∧
      fragment.declaration.isPartOf linker.separator node := by
  have hplaced := h.placed_final hfragment
  obtain ⟨node, hnode, -⟩ := hplaced.type
  have hnumbered := h.phases.sound.numbered
  have hkey := (type_eq_iff hnumbered h.phases.keysDistinct hplaced
    (ReferenceModel.mem_of_type hnode)).1 (hnumbered.type_id hnode).symm
  refine ⟨final.model.wireType node, ?_, ?_⟩
  · rw [ReferenceModel.wire_type?]
    exact congrArg (Option.map final.model.wireType) hnode
  · rw [Declaration.isPartOf, h.isNamed hfragment, Bool.true_and]
    exact decide_eq_true hkey

/-- **Every file lists the types of its named declarations.** -/
theorem Trace.filed (h : linker.Trace repo fragments declared nested linked final)
    {unit : SourceUnit} {file : FileNode} (hfile : Filed fragments unit file) :
    file.path = unit.fact.path ∧ file.project = unit.project ∧
      List.Forall₂ (fun (declaration : Declaration) type => ∃ node,
          final.model.wire.type? type = some node ∧
            declaration.isPartOf linker.separator node)
        (unit.declarations.filter Declaration.isNamed) file.types := by
  obtain ⟨own, hown, rfl, hdeclarations⟩ := hfile
  refine ⟨rfl, rfl, ?_⟩
  rw [← hdeclarations]
  refine List.forall₂_map_left_iff.2 (List.forall₂_map_right_iff.2 (List.forall₂_same.2 ?_))
  exact fun fragment hfragment => h.isPartOf (hown hfragment)

end Trace

/-- **Merging loses, repeats and reorders nothing, and every skip is reported.** With whatever
index and policy a repository is linked, every declared type has exactly the kept members of its
declarations, in the order of the units: fields and properties with their labels, methods and
constructors with their parameters, local variables and local functions at every depth, and the
first destructor with a name. Every file lists the types of its named declarations in their order.
There are as many findings of a malformed fact as declarations and members that were skipped. -/
theorem link_merges (linker : Linker) (repo : RepositoryFact) :
    (linker.link repo).1.Merges linker.separator repo ∧
      ((linker.link repo).2.ofKind .malformedFact).length =
        skipsFrom linker.separator [] (declarations repo) := by
  obtain ⟨fragments, declared, nested, linked, final, htrace⟩ := draftRun_trace linker repo
  have hnumbered := htrace.phases.sound.numbered
  rw [htrace.link]
  refine ⟨⟨?_, fun node hnode hdeclared => ?_, ?_⟩, ?_⟩
  · rw [(wire_sameView final.model).paths, ReferenceModel.paths, htrace.phases.projects.2,
      htrace.phases.projects.1]
    exact skeleton_paths linker repo
  · obtain ⟨old, hold, rfl⟩ := Array.mem_map.1 hnode
    exact htrace.types hold hdeclared
  · change List.Forall₂ _ _ final.model.files.toList
    rw [htrace.files]
    exact htrace.declarations.2.2.imp fun _ _ => htrace.filed
  · obtain ⟨part, hledger, -, -, -, hnone, -⟩ :=
      (along_draftCalls linked () final htrace.calls : AddsSynthetic linked final).part
    change final.ledger.skipped = _
    rw [hledger, Ledger.append_skipped, hnone, htrace.members_linked.2.2, Nat.add_zero]

end Linker

end FactGraph
