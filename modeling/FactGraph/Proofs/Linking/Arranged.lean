import FactGraph.Proofs.Linking.Integrity
import FactGraph.Proofs.Scope.Index

/-!
# What nodes are contained in

The upward links of a model say where each node belongs. They are set in three phases: a namespace
stands in the one before it when it is made, a type is put into its enclosing type when all types
are there, and a method says where it belongs when it is added. In every state of a run they fit
together: the namespace around a namespace gives it its full name, the type around a type is of the
same project, an accessor is in a property of its own type and a local function in a method of its
own type, and no type has two destructors.

## Main definitions

* `NamespaceNode.Joined`, `TypeNode.Nested`, `MethodNode.Located`: the upward links of a node fit
* `ReferenceModel.Arranged`: the upward links of all nodes fit

## Main results

* `namespaceNames_chain`: the namespaces around a declaration, each joined to the one before it
* `DeclareMove.arranged`, `NestMove.arranged`, `MemberMove.arranged`: the moves keep them fitting
* `Phases.arranged`: they fit when a run is over
-/

namespace FactGraph

/-- The full name of the namespace is that of the one around it, joined with its own last segment;
both are in one project. -/
def NamespaceNode.Joined (sep : Separator) (model : ReferenceModel) (node : NamespaceNode) :
    Prop :=
  match node.parent with
  | none => node.fullName = sep.join "" node.name
  | some id => ∃ outer, model.namespace? id = some outer ∧ outer.project = node.project ∧
      node.fullName = sep.join outer.fullName node.name

/-- The type around the type is there, in the same project. -/
def TypeNode.Nested (model : ReferenceModel) (node : TypeNode) : Prop :=
  ∀ id, node.containingType = some id →
    ∃ outer, model.type? id = some outer ∧ outer.project = node.project

/-- The method is where its kind says: an accessor in a property and a local function in a method,
both of the same type, and any other one directly in the type. -/
def MethodNode.Located (model : ReferenceModel) (node : MethodNode) : Prop :=
  match node.kind with
  | .accessor => node.containingMethod = none ∧ ∃ id property,
      node.containingProperty = some id ∧ model.property? id = some property ∧
      property.containingType = node.containingType
  | .localFunction => node.containingProperty = none ∧ ∃ id method,
      node.containingMethod = some id ∧ model.method? id = some method ∧
      method.containingType = node.containingType
  | _ => node.containingMethod = none ∧ node.containingProperty = none

/-- The type whose destructor the method is, if it is one. -/
def MethodNode.destroys? (node : MethodNode) : Option TypeId :=
  if node.kind = .destructor then some node.containingType else none

namespace ReferenceModel

/-- **The upward links of all nodes fit together.** -/
structure Arranged (sep : Separator) (model : ReferenceModel) : Prop where
  namespaces : ∀ node ∈ model.namespaces, node.Joined sep model
  types : ∀ node ∈ model.types, node.Nested model
  methods : ∀ node ∈ model.methods, node.Located model
  /-- No type has two destructors. -/
  destructors : (model.methods.toList.filterMap MethodNode.destroys?).Nodup

variable {model model' : ReferenceModel} {sep : Separator}

theorem Extends.joined (h : model.Extends model') {node : NamespaceNode}
    (hnode : node.Joined sep model) : node.Joined sep model' := by
  unfold NamespaceNode.Joined at hnode ⊢
  split
  next hparent =>
    rw [hparent] at hnode
    exact hnode
  next id hparent =>
    rw [hparent] at hnode
    obtain ⟨outer, houter, hjoined⟩ := hnode
    exact ⟨outer, h.space? id outer houter, hjoined⟩

theorem Extends.nested (h : model.Extends model') {node : TypeNode} (hnode : node.Nested model) :
    node.Nested model' := by
  intro id hid
  obtain ⟨outer, houter, hproject⟩ := hnode id hid
  obtain ⟨outer', houter', hheader⟩ := h.type? id outer houter
  refine ⟨outer', houter', ?_⟩
  rw [← outer'.header_project, hheader]
  exact hproject

theorem Extends.located (h : model.Extends model') {node : MethodNode}
    (hnode : node.Located model) : node.Located model' := by
  unfold MethodNode.Located at hnode ⊢
  split
  next heq =>
    rw [heq] at hnode
    obtain ⟨hnone, id, property, hid, hproperty, htype⟩ := hnode
    exact ⟨hnone, id, property, hid, h.property? id property hproperty, htype⟩
  next heq =>
    rw [heq] at hnode
    obtain ⟨hnone, id, method, hid, hmethod⟩ := hnode
    obtain ⟨method', hmethod'⟩ := Linker.MethodIn.keep ⟨method, hmethod⟩ h
    exact ⟨hnone, id, method', hid, hmethod'⟩
  next haccessor hlocal =>
    split at hnode
    next heq => exact absurd heq haccessor
    next heq => exact absurd heq hlocal
    next => exact hnode

end ReferenceModel

namespace Linker

open Relation (ReflTransGen)

variable {linker : Linker} {source : Occurrences} {s s' : DraftState} {unit : SourceUnit}

/-! ## Namespaces -/

/-- Each of the names is the one before it, joined with its own last segment. -/
def Joins (linker : Linker) (outer inner : String) : Prop :=
  inner = linker.separator.join outer (linker.namespaceName inner)

/-- **The namespaces around a declaration**, each joined to the one before it, if the index was
built from the repository of the declaration. -/
theorem namespaceNames_chain {repo : RepositoryFact} {sep : Separator}
    (hindex : linker.index = (ScopeIndex.build repo sep).1)
    (hbare : linker.index.namespaces.Bare) {entry : Nat × String × TypeFact}
    (hentry : entry ∈ repo.named) :
    List.IsChain linker.Joins ("" :: linker.namespaceNames entry.2.2) := by
  have htree : linker.index.namespaces.WellFormed := hindex ▸ ScopeIndex.build_wellFormed repo sep
  have hsep : linker.index.namespaces.separator = linker.separator := by
    rw [separator, hindex, ScopeIndex.build_separator, ScopeIndex.build_namespaces_separator]
  obtain ⟨key, hkey⟩ := ScopeIndex.build_found repo sep hentry
  rw [← hindex] at hkey
  obtain ⟨names, hnames, hne, hchain⟩ := NamespaceTree.chain_of_found htree hkey
  unfold namespaceNames
  split
  · simp
  · have hfilter : (("" :: names).filter fun name => decide (name ≠ "")) = names := by
      rw [List.filter_cons, if_neg (by simp), List.filter_eq_self]
      exact fun name hname => decide_eq_true fun heq => hne (heq ▸ hname)
    rw [hnames, hfilter]
    refine hchain.imp ?_
    rintro outer _ ⟨key, heading, hheading, rfl, -, hjoin⟩
    obtain ⟨full, hfull, hname⟩ := NamespaceTree.entry?_fullName htree hbare hheading
    unfold Joins namespaceName
    rw [hsep, ← hname] at hjoin
    rw [hfull]
    exact hjoin

/-- The namespace that is made around a declaration fits below the one before it. -/
theorem NamespaceMove.arranged {project : ProjectId} {fact : TypeFact} {sep : Separator}
    (hsep : linker.separator = sep) (h : linker.NamespaceMove project fact s s')
    (hchain : List.IsChain linker.Joins ("" :: linker.namespaceNames fact))
    (hs : s.model.Arranged sep) : s'.model.Arranged sep := by
  have hextends := h.extends
  cases h with
  | addNamespace outer inner fullName parent hproject hnames hparent hfresh =>
    refine ⟨?_, hs.types, hs.methods, hs.destructors⟩
    intro node hnode
    rcases Array.mem_push.1 hnode with hnode | rfl
    · exact hextends.joined (hs.namespaces node hnode)
    · rw [hnames, ← List.cons_append, List.isChain_append] at hchain
      have hjoins := hchain.2.2
      unfold ReferenceModel.Innermost at hparent
      split at hparent
      next hlast =>
        rw [List.getLast?_eq_none_iff] at hlast
        subst hlast hparent hsep
        exact hjoins "" rfl fullName rfl
      next last hlast =>
        obtain ⟨space, node, rfl, hnode, hplace, hname⟩ := hparent
        refine ⟨node, hextends.space? space node hnode, hplace, ?_⟩
        rw [hname, ← hsep]
        refine hjoins last ?_ fullName rfl
        rw [List.getLast?_cons, hlast]
        rfl

/-! ## Types and methods -/

theorem DeclareMove.arranged {sep : Separator} (hsep : linker.separator = sep)
    (h : linker.DeclareMove unit s s')
    (hchain : ∀ fact ∈ unit.fact.types, fact.isNamed →
      List.IsChain linker.Joins ("" :: linker.namespaceNames fact))
    (hs : s.model.Arranged sep) : s'.model.Arranged sep := by
  have hextends := h.extends
  cases h with
  | report finding => exact hs
  | space fact hfact hnamed h => exact h.arranged hsep (hchain fact hfact hnamed) hs
  | addType fact =>
    refine ⟨hs.namespaces, ?_, hs.methods, hs.destructors⟩
    intro node hnode
    rcases Array.mem_push.1 hnode with hnode | rfl
    · exact hextends.nested (hs.types node hnode)
    · intro id hid
      cases hid
  | noteFile id =>
    refine ⟨hs.namespaces, ?_, hs.methods, hs.destructors⟩
    intro node hnode
    dsimp only at hnode
    rcases mem_modify hnode with hnode | ⟨old, hold, rfl⟩
    · exact hextends.nested (hs.types node hnode)
    · exact hextends.nested (hs.types old (Array.mem_of_getElem? hold))
  | noteType => exact ⟨hs.namespaces, hs.types, hs.methods, hs.destructors⟩

/-- The type that a fragment says it is nested in is of its project. -/
theorem outerType?_project {model : ReferenceModel} {fragment : Fragment} {id : TypeId}
    (h : linker.outerType? model fragment = some id) :
    ∃ outer, model.type? id = some outer ∧ outer.project = some fragment.project := by
  unfold outerType? at h
  split at h
  · obtain ⟨i, hi, rfl⟩ := Option.map_eq_some_iff.1 h
    obtain ⟨hlt, hnode, -⟩ := Array.findIdx?_eq_some_iff_getElem.1 hi
    simp only [Bool.and_eq_true, decide_eq_true_eq] at hnode
    exact ⟨_, Array.getElem?_eq_getElem hlt, hnode.1⟩
  · cases h

theorem NestMove.arranged {sep : Separator} (h : linker.NestMove s s')
    (hs : s.model.Arranged sep) : s'.model.Arranged sep := by
  have hextends := h.extends
  cases h with
  | nest fragment hplaced =>
    refine ⟨hs.namespaces, ?_, hs.methods, hs.destructors⟩
    intro node hnode
    dsimp only at hnode
    rcases mem_modify hnode with hnode | ⟨old, hold, rfl⟩
    · exact hextends.nested (hs.types node hnode)
    · refine hextends.nested fun id hid => ?_
      rcases Option.or_eq_some_iff.1 hid with hkept | ⟨-, hnew⟩
      · exact hs.types old (Array.mem_of_getElem? hold) id hkept
      · obtain ⟨own, hown, -, hproject, -⟩ := hplaced.type
        obtain rfl : own = old := Option.some.inj (hown.symm.trans hold)
        obtain ⟨outer, houter, hsame⟩ := outerType?_project hnew
        exact ⟨outer, houter, hsame.trans hproject.symm⟩

theorem MethodPlaced.located {model : ReferenceModel} {node : MethodNode}
    (h : MethodPlaced model node.containingType node.owner) : node.Located model := by
  unfold MethodPlaced MethodNode.owner at h
  unfold MethodNode.Located
  split at h
  next heq =>
    dsimp only at heq
    rw [heq]
    exact h
  next heq =>
    dsimp only at heq
    rw [heq]
    exact h
  next heq =>
    dsimp only at heq
    rw [heq]
    exact ⟨h.1, h.2.1⟩
  next haccessor hlocal hdestructor =>
    split
    next heq => exact absurd heq haccessor
    next heq => exact absurd heq hlocal
    next => exact h

/-- A destructor is only added to a type that has none. -/
theorem MethodPlaced.destructors {model : ReferenceModel} {node : MethodNode}
    (h : MethodPlaced model node.containingType node.owner)
    (hmodel : (model.methods.toList.filterMap MethodNode.destroys?).Nodup) :
    ((model.methods.push node).toList.filterMap MethodNode.destroys?).Nodup := by
  rw [Array.toList_push, List.filterMap_append]
  by_cases hkind : node.kind = .destructor
  · have hnew : [node].filterMap MethodNode.destroys? = [node.containingType] := by
      simp [MethodNode.destroys?, hkind]
    rw [hnew, ← List.concat_eq_append]
    refine hmodel.concat fun hmem => ?_
    have hnone : hasDestructor model node.containingType = false := by
      unfold MethodPlaced MethodNode.owner at h
      rw [hkind] at h
      exact h.2.2
    obtain ⟨other, hother, hdestroys⟩ := List.mem_filterMap.1 hmem
    unfold MethodNode.destroys? at hdestroys
    split at hdestroys
    next hkind' =>
      rw [hasDestructor, Array.any_eq_false'] at hnone
      have hnot := hnone other (Array.mem_toList_iff.1 hother)
      simp [hkind', Option.some.inj hdestroys] at hnot
    next => cases hdestroys
  · have hnew : [node].filterMap MethodNode.destroys? = [] := by
      simp [MethodNode.destroys?, hkind]
    rw [hnew, List.append_nil]
    exact hmodel

theorem MemberMove.arranged {sep : Separator} (h : linker.MemberMove source s s')
    (hs : s.model.Arranged sep) : s'.model.Arranged sep := by
  have hextends := h.extends
  cases h with
  | report finding => exact hs
  | postpone call => exact hs
  | external h =>
    cases h
    refine ⟨hs.namespaces, ?_, hs.methods, hs.destructors⟩
    intro node hnode
    rcases Array.mem_push.1 hnode with hnode | rfl
    · exact hextends.nested (hs.types node hnode)
    · intro id hid
      cases hid
  | addMethod method hid htype hplaced =>
    refine ⟨hs.namespaces, hs.types, ?_, ?_⟩
    · intro node hnode
      rcases Array.mem_push.1 hnode with hnode | rfl
      · exact hextends.located (hs.methods node hnode)
      · exact hextends.located hplaced.located
    · exact hplaced.destructors hs.destructors
  | addField => exact ⟨hs.namespaces, hs.types, hs.methods, hs.destructors⟩
  | addProperty =>
    exact ⟨hs.namespaces, hs.types, fun node hnode => hextends.located (hs.methods node hnode),
      hs.destructors⟩
  | addParameter => exact ⟨hs.namespaces, hs.types, hs.methods, hs.destructors⟩
  | addLocalVariable => exact ⟨hs.namespaces, hs.types, hs.methods, hs.destructors⟩
  | addLinks id change links hid hdeclared houtline =>
    refine ⟨hs.namespaces, ?_, hs.methods, hs.destructors⟩
    intro node hnode
    rcases mem_modify hnode with hnode | ⟨old, hold, rfl⟩
    · exact hextends.nested (hs.types node hnode)
    · refine hextends.nested ?_
      change (change old).outline.Nested s.model
      rw [houtline]
      exact hs.types old (Array.mem_of_getElem? hold)
  | addRelation =>
    refine ⟨hs.namespaces, ?_, hs.methods, hs.destructors⟩
    intro node hnode
    dsimp only at hnode
    rcases mem_modify hnode with hnode | ⟨old, hold, rfl⟩
    · exact hextends.nested (hs.types node hnode)
    · exact hextends.nested (hs.types old (Array.mem_of_getElem? hold))
  | addCall id target =>
    refine ⟨hs.namespaces, hs.types, ?_, ?_⟩
    · intro node hnode
      dsimp only at hnode
      rcases mem_modify hnode with hnode | ⟨old, hold, rfl⟩
      · exact hextends.located (hs.methods node hnode)
      · exact hextends.located (hs.methods old (Array.mem_of_getElem? hold))
    · have hread := @filterMap_toList_modify _ _ s.model.methods id.idx
        (fun node => { node with calls := node.calls ++ [{ target }] }) MethodNode.destroys?
        fun _ => rfl
      rw [hread]
      exact hs.destructors

/-! ## The whole run -/

/-- The named declarations of a repository are those of its units. -/
theorem named_eq (repo : RepositoryFact) :
    repo.named = (sourceUnits repo).flatMap fun unit =>
      ScopeIndex.namedIn unit.project.idx unit.fact :=
  (flatMap_sourceUnits repo fun project unit => ScopeIndex.namedIn project.idx unit).symm

theorem mem_named {repo : RepositoryFact} {unit : SourceUnit} (hunit : unit ∈ sourceUnits repo)
    {fact : TypeFact} (hfact : fact ∈ unit.fact.types) (hnamed : fact.isNamed) :
    (unit.project.idx, unit.fact.path, fact) ∈ repo.named := by
  rw [named_eq]
  exact List.mem_flatMap.2 ⟨unit, hunit, List.mem_map_of_mem (List.mem_filter.2 ⟨hfact, hnamed⟩)⟩

theorem skeleton_arranged (linker : Linker) (repo : RepositoryFact) (sep : Separator) :
    (linker.skeleton repo).Arranged sep := by
  constructor <;> simp [skeleton]

theorem Declares.arranged {sep : Separator} (hsep : linker.separator = sep)
    {units : List SourceUnit} (h : linker.Declares units s s')
    (hchain : ∀ unit ∈ units, ∀ fact ∈ unit.fact.types, fact.isNamed →
      List.IsChain linker.Joins ("" :: linker.namespaceNames fact))
    (hs : s.model.Arranged sep) : s'.model.Arranged sep := by
  induction h with
  | nil => exact hs
  | cons head _ ih =>
    refine ih (fun unit hunit => hchain unit (List.mem_cons_of_mem _ hunit)) ?_
    exact DraftM.keep_of_moves head hs fun _ _ hmove =>
      hmove.arranged hsep (hchain _ List.mem_cons_self)

/-- **The upward links fit together when a run is over**, if the index was built from the
repository and no segment of a namespace has blanks at its ends. -/
theorem Phases.arranged {repo : RepositoryFact} {sep : Separator}
    (hindex : linker.index = (ScopeIndex.build repo sep).1) {declared nested final : DraftState}
    (h : linker.Phases repo declared nested final)
    (hbare : ∀ entry ∈ repo.named, ∀ segment ∈ sep.segments entry.2.2.trimmedNamespace,
      Text.trim segment = segment) : final.model.Arranged sep := by
  have hsep : linker.separator = sep := by rw [separator, hindex, ScopeIndex.build_separator]
  have hnames : linker.index.namespaces.Bare := hindex ▸ ScopeIndex.build_bare repo sep hbare
  have hdeclared : declared.model.Arranged sep := by
    refine h.declares.arranged hsep ?_ (skeleton_arranged _ _ _)
    intro unit hunit fact hfact hnamed
    have hchain := namespaceNames_chain hindex hnames (mem_named hunit hfact hnamed)
    exact hchain
  have hnested : nested.model.Arranged sep :=
    DraftM.keep_of_moves h.nests hdeclared fun _ _ => NestMove.arranged
  exact DraftM.keep_of_moves h.links hnested fun _ _ => MemberMove.arranged

end Linker

end FactGraph
