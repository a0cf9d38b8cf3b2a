import FactGraph.Model.Traversal
import FactGraph.Proofs.Linking.Descent
import Mathlib.Data.List.Chain
import Mathlib.Data.Prod.Lex

/-!
# The way to the root

From a node of a linked model one gets to the repository by going on to what a node is contained in.
With each step the kind of the node changes to one that stands further up, or it stays the same, and
then the measure of that kind gets smaller. So the rank of a node, its level and then its measure,
gets smaller in the lexicographic order: no node is met twice, and since there are finitely many
nodes the way comes to an end. It can only end at the repository, the single node that is in
nothing.

## Main definitions

* `ModelNode.level`: how far down nodes of a kind stand
* `ReferenceModel.rank`: the level of a node, and its measure among the nodes of its kind
* `ReferenceModel.IsRootPath`: a way from a node to the repository

## Main results

* `parent?_cases`: a node is in one that stands further up, or in one of its own kind
* `rank_lt_of_parent`: what a node is contained in has a smaller rank
* `isRootPath_pathToRoot`: the way to the root is found, if containment descends
* `link_grounded`: containment descends in every state of a link run, and from every node of the
  linked model one gets to the repository
-/

namespace FactGraph

/-- How far down nodes of a kind stand. Files and namespaces are on one level, as are fields and
properties, and as are parameters and local variables: none of the one kind is in one of the
other. -/
@[simp]
def ModelNode.level : ModelNode → Nat
  | .repository => 0
  | .node .solution _ => 1
  | .node .project _ => 2
  | .node .file _ => 3
  | .node .space _ => 3
  | .node .type _ => 4
  | .node .field _ => 5
  | .node .property _ => 5
  | .node .method _ => 6
  | .node .parameter _ => 7
  | .node .localVariable _ => 7

namespace ReferenceModel

open Linker (mem_flatMap_of_getElem? nameLength)

variable {model : ReferenceModel} {node outer : ModelNode} {steps : Nat}

/-! ## One step -/

/-- The node is in another one of its own kind. -/
inductive Nests (model : ReferenceModel) : ModelNode → ModelNode → Prop
  | space {id outer : NamespaceId} {node : NamespaceNode} (hnode : model.namespace? id = some node)
      (houter : node.parent = some outer) : Nests model (.of id) (.of outer)
  | type {id outer : TypeId} {node : TypeNode} (hnode : model.type? id = some node)
      (houter : node.containingType = some outer) : Nests model (.of id) (.of outer)
  | method {id outer : MethodId} {node : MethodNode} (hnode : model.method? id = some node)
      (houter : node.containingMethod = some outer) : Nests model (.of id) (.of outer)

/-- **What a node is contained in** is the repository, or a node that some node refers to. It stands
further up, or it is of the same kind. -/
theorem parent?_cases (hparent : model.parent? node = some outer) :
    (outer = .repository ∨ ∃ kind, outer ∈ model.handlesIn kind) ∧
      (outer.level < node.level ∨ model.Nests node outer) := by
  cases node with
  | repository => cases hparent
  | node kind id =>
    cases kind
    case solution =>
      cases hparent
      exact ⟨.inl rfl, .inl (by simp)⟩
    case project =>
      obtain ⟨project, hproject, heq⟩ := Option.map_eq_some_iff.1 hparent
      split at heq
      next =>
        subst heq
        exact ⟨.inl rfl, .inl (by simp)⟩
      next solution others hsolutions =>
        subst heq
        refine ⟨.inr ⟨.project, mem_flatMap_of_getElem? hproject ?_⟩, .inl (by simp)⟩
        simp [ProjectNode.handles, hsolutions]
    case file =>
      obtain ⟨file, hfile, rfl⟩ := Option.map_eq_some_iff.1 hparent
      refine ⟨.inr ⟨.file, mem_flatMap_of_getElem? hfile ?_⟩, .inl (by simp)⟩
      simp [FileNode.handles]
    case space =>
      obtain ⟨space, hspace, heq⟩ := Option.map_eq_some_iff.1 hparent
      split at heq
      next around haround =>
        subst heq
        refine ⟨.inr ⟨.space, mem_flatMap_of_getElem? hspace ?_⟩, .inr (.space hspace haround)⟩
        simp [NamespaceNode.handles, haround]
      next =>
        subst heq
        refine ⟨.inr ⟨.space, mem_flatMap_of_getElem? hspace ?_⟩, .inl (by simp)⟩
        simp [NamespaceNode.handles]
    case type =>
      obtain ⟨type, htype, heq⟩ := Option.map_eq_some_iff.1 hparent
      split at heq
      next around haround =>
        subst heq
        refine ⟨.inr ⟨.type, mem_flatMap_of_getElem? htype ?_⟩, .inr (.type htype haround)⟩
        simp [TypeNode.handles, haround]
      next hspace =>
        subst heq
        refine ⟨.inr ⟨.type, mem_flatMap_of_getElem? htype ?_⟩, .inl (by simp)⟩
        simp [TypeNode.handles, TypeNode.memberHandles, hspace]
      next hproject =>
        subst heq
        refine ⟨.inr ⟨.type, mem_flatMap_of_getElem? htype ?_⟩, .inl (by simp)⟩
        simp [TypeNode.handles, TypeNode.memberHandles, hproject]
      next =>
        subst heq
        exact ⟨.inl rfl, .inl (by simp)⟩
    case method =>
      obtain ⟨method, hmethod, heq⟩ := Option.map_eq_some_iff.1 hparent
      split at heq
      next around haround =>
        subst heq
        refine ⟨.inr ⟨.method, mem_flatMap_of_getElem? hmethod ?_⟩, .inr (.method hmethod haround)⟩
        simp [MethodNode.handles, MethodNode.memberHandles, haround]
      next hproperty =>
        subst heq
        refine ⟨.inr ⟨.method, mem_flatMap_of_getElem? hmethod ?_⟩, .inl (by simp)⟩
        simp [MethodNode.handles, MethodNode.memberHandles, hproperty]
      next =>
        subst heq
        refine ⟨.inr ⟨.method, mem_flatMap_of_getElem? hmethod ?_⟩, .inl (by simp)⟩
        simp [MethodNode.handles, MethodNode.memberHandles]
    case field =>
      obtain ⟨field, hfield, rfl⟩ := Option.map_eq_some_iff.1 hparent
      refine ⟨.inr ⟨.field, mem_flatMap_of_getElem? hfield ?_⟩, .inl (by simp)⟩
      simp [FieldNode.handles]
    case property =>
      obtain ⟨property, hproperty, rfl⟩ := Option.map_eq_some_iff.1 hparent
      refine ⟨.inr ⟨.property, mem_flatMap_of_getElem? hproperty ?_⟩, .inl (by simp)⟩
      simp [PropertyNode.handles]
    case parameter =>
      obtain ⟨parameter, hparameter, rfl⟩ := Option.map_eq_some_iff.1 hparent
      refine ⟨.inr ⟨.parameter, mem_flatMap_of_getElem? hparameter ?_⟩, .inl (by simp)⟩
      simp [ParameterNode.handles]
    case localVariable =>
      obtain ⟨declared, hdeclared, rfl⟩ := Option.map_eq_some_iff.1 hparent
      refine ⟨.inr ⟨.localVariable, mem_flatMap_of_getElem? hdeclared ?_⟩, .inl (by simp)⟩
      simp [LocalVariableNode.handles]

/-- What a node is contained in is there, if every handle in a node leads to a node. -/
theorem contains_of_parent (hclosed : model.Closed) (hparent : model.parent? node = some outer) :
    model.contains outer := by
  obtain ⟨rfl | ⟨kind, houter⟩, -⟩ := parent?_cases hparent
  · rfl
  · exact hclosed kind outer houter

/-- The repository is the single node that is in nothing. -/
theorem eq_repository_of_parent (hnode : model.contains node)
    (hparent : model.parent? node = none) : node = .repository := by
  cases node with
  | repository => rfl
  | node kind id =>
    have hlt : id.idx < model.count kind := of_decide_eq_true hnode
    cases kind
    case solution => cases hparent
    all_goals
      have hmissing := Option.map_eq_none_iff.1 hparent
      have hle := Array.getElem?_eq_none_iff.1 hmissing
      exact absurd hlt (Nat.not_lt.2 hle)

/-! ## Ranks -/

/-- The measure of a node among those of its kind: the length of the full name of a type, and the
handle of any other node. -/
def measure (model : ReferenceModel) : ModelNode → Nat
  | .repository => 0
  | .node .type id => nameLength model id
  | .node _ id => id.idx

/-- **The rank of a node**: its level, and among nodes of one level its measure. -/
def rank (model : ReferenceModel) (node : ModelNode) : Nat ×ₗ Nat :=
  toLex (node.level, model.measure node)

/-- Among nodes of one kind the measure gets smaller. -/
theorem Nests.measure_lt (h : model.Nests node outer) (hmodel : model.Descending)
    (hnumbered : model.Numbered) : model.measure outer < model.measure node := by
  cases h with
  | space hnode houter =>
    have hlt := hmodel.namespaces _ (Array.mem_of_getElem? hnode) _ houter
    rwa [hnumbered.namespace_id hnode] at hlt
  | type hnode houter =>
    apply Linker.nameLength_lt hmodel.types
    rw [hnode]
    exact houter
  | method hnode houter =>
    have hlt := (hmodel.methods _ (Array.mem_of_getElem? hnode)).lt houter
    rwa [hnumbered.method_id hnode] at hlt

theorem Nests.level_eq (h : model.Nests node outer) : outer.level = node.level := by
  cases h <;> rfl

/-- **What a node is contained in has a smaller rank.** -/
theorem rank_lt_of_parent (h : model.Descending) (hnumbered : model.Numbered)
    (hparent : model.parent? node = some outer) : model.rank outer < model.rank node := by
  rw [rank, rank, Prod.Lex.toLex_lt_toLex]
  obtain ⟨-, hlevel | hnests⟩ := parent?_cases hparent
  · exact .inl hlevel
  · exact .inr ⟨hnests.level_eq, hnests.measure_lt h hnumbered⟩

/-! ## The whole way -/

/-- The way starts at the node. -/
theorem head?_pathWithin : (model.pathWithin steps node).head? = some node := by
  cases steps with
  | zero => rfl
  | succ steps =>
    rw [pathWithin]
    split <;> rfl

/-- The way goes from each node to what it is contained in. -/
theorem isChain_pathWithin :
    (model.pathWithin steps node).IsChain fun inner outer => model.parent? inner = some outer := by
  induction steps generalizing node with
  | zero => exact .singleton node
  | succ steps ih =>
    rw [pathWithin]
    split
    next outer hparent =>
      rw [List.isChain_cons]
      refine ⟨?_, ih⟩
      intro other hother
      rw [head?_pathWithin] at hother
      obtain rfl := Option.some.inj hother
      exact hparent
    next => exact .singleton node

theorem contains_of_mem_pathWithin (hclosed : model.Closed) (hnode : model.contains node) :
    ∀ other ∈ model.pathWithin steps node, model.contains other := by
  induction steps generalizing node with
  | zero =>
    intro other hother
    obtain rfl := List.mem_singleton.1 hother
    exact hnode
  | succ steps ih =>
    intro other hother
    rw [pathWithin] at hother
    split at hother
    next outer hparent =>
      rcases List.mem_cons.1 hother with rfl | hother
      · exact hnode
      · exact ih (contains_of_parent hclosed hparent) other hother
    next =>
      obtain rfl := List.mem_singleton.1 hother
      exact hnode

/-- Ranks get smaller on the way, so it meets no node twice. -/
theorem nodup_pathWithin (h : model.Descending) (hnumbered : model.Numbered) :
    (model.pathWithin steps node).Nodup := by
  have hchain : ((model.pathWithin steps node).map model.rank).IsChain (· > ·) := by
    rw [List.isChain_map]
    exact isChain_pathWithin.imp fun inner outer => rank_lt_of_parent h hnumbered
  have hranks : ((model.pathWithin steps node).map model.rank).Nodup :=
    (List.isChain_iff_pairwise.1 hchain).imp fun hlt => ne_of_gt hlt
  exact hranks.of_map

/-- Either all the steps were made, or the way has come to a node that is in nothing. -/
theorem length_pathWithin_or_ends (model : ReferenceModel) (steps : Nat) (node : ModelNode) :
    (model.pathWithin steps node).length = steps + 1 ∨
      ∃ last, (model.pathWithin steps node).getLast? = some last ∧ model.parent? last = none := by
  induction steps generalizing node with
  | zero => exact .inl rfl
  | succ steps ih =>
    rw [pathWithin]
    split
    next outer hparent =>
      rcases ih outer with hlength | ⟨last, hlast, hends⟩
      · exact .inl (congrArg (· + 1) hlength)
      · refine .inr ⟨last, ?_, hends⟩
        rw [List.getLast?_cons, hlast]
        rfl
    next hends => exact .inr ⟨node, rfl, hends⟩

/-- All nodes, the repository first. -/
def nodes (model : ReferenceModel) : List ModelNode :=
  .repository :: NodeKind.all.flatMap fun kind =>
    (List.range (model.count kind)).map fun idx => .node kind ⟨idx⟩

theorem length_nodes (model : ReferenceModel) : model.nodes.length = model.nodeCount := by
  simp only [nodes, nodeCount, NodeKind.all, List.length_cons, List.length_flatMap,
    List.length_map, List.length_range, List.map_cons, List.map_nil, List.sum_cons, List.sum_nil,
    List.foldr_cons, List.foldr_nil]
  omega

theorem mem_nodes (hnode : model.contains node) : node ∈ model.nodes := by
  cases node with
  | repository => exact List.mem_cons_self
  | node kind id =>
    have hlt : id.idx < model.count kind := of_decide_eq_true hnode
    have hkind : kind ∈ NodeKind.all := by cases kind <;> decide
    apply List.mem_cons_of_mem
    exact List.mem_flatMap.2 ⟨kind, hkind, List.mem_map.2 ⟨id.idx, List.mem_range.2 hlt, rfl⟩⟩

/-- **A way from a node to the repository**: from each node to what it is contained in, as far as
it goes, and without meeting a node twice. -/
structure IsRootPath (model : ReferenceModel) (node : ModelNode) (path : List ModelNode) :
    Prop where
  head : path.head? = some node
  last : path.getLast? = some .repository
  steps : path.IsChain fun inner outer => model.parent? inner = some outer
  nodup : path.Nodup

/-- **The way to the root is found**, if containment descends. -/
theorem isRootPath_pathToRoot (h : model.Descending) (hnumbered : model.Numbered)
    (hclosed : model.Closed) (hnode : model.contains node) :
    model.IsRootPath node (model.pathToRoot node) where
  head := head?_pathWithin
  last := by
    have hcontains := @contains_of_mem_pathWithin _ _ model.nodeCount hclosed hnode
    have hnodup := @nodup_pathWithin _ node model.nodeCount h hnumbered
    have hlength : (model.pathWithin model.nodeCount node).length ≤ model.nodeCount := by
      refine Nat.le_trans ?_ (Nat.le_of_eq (length_nodes model))
      exact (hnodup.subperm fun other hother => mem_nodes (hcontains other hother)).length_le
    -- So the number of steps is not what ends the way.
    rcases length_pathWithin_or_ends model model.nodeCount node with hall | ⟨last, hlast, hends⟩
    · omega
    · have hmem := List.mem_of_getLast? hlast
      rw [pathToRoot, hlast, eq_repository_of_parent (hcontains last hmem) hends]
  steps := isChain_pathWithin
  nodup := nodup_pathWithin h hnumbered

end ReferenceModel

namespace Linker

/-- **The containment of a linked model is grounded.** Whatever the facts, the index and the policy
are: a run ends in the last of the states that it passes through, and all of these are states that
moves lead to. In each of those, containment descends: the full name of an enclosing type is
shorter, and a namespace and a local function are in one with a smaller handle; so when generic
parameters are gathered, the walk outwards comes to an end. It descends in the linked model as well,
and from each of its nodes one gets to the repository by going on to what a node is contained in,
and meets no node twice. -/
theorem link_grounded (linker : Linker) (repo : RepositoryFact) :
    (∃ final, linker.linkRun repo = .ok final ∧
      linker.link repo = (final.model, final.diagnostics) ∧ linker.Passes repo final) ∧
    (∀ s, linker.Passes repo s → linker.Reached repo s) ∧
    (∀ s, linker.Reached repo s → s.model.Descending ∧
      ∀ fragment steps, s.model.types.size ≤ steps →
        enclosingTypes s.model steps
            ((s.model.type? fragment.type).bind TypeNode.containingType) =
          typesAround s.model fragment) ∧
    (linker.link repo).1.Descending ∧
    ∀ node, (linker.link repo).1.contains node →
      (linker.link repo).1.IsRootPath node ((linker.link repo).1.pathToRoot node) := by
  obtain ⟨_, _, _, _, _, htrace⟩ := draftRun_trace linker repo
  have hs := htrace.phases.sound
  have hdescending := htrace.drafted_final.descending.wire
  refine ⟨?_, fun s => Passes.reached, ?_, ?_, ?_⟩
  · obtain ⟨_, _, _, _, _, hphased, hrealize⟩ := htrace.phased
    have hwire := run_wireContainment hrealize.called hs.closed
    have hrun := hphased.linkRun hwire
    exact ⟨_, hrun, by rw [link, hrun], .wiring _ _ _ _ _ _ hphased hwire⟩
  · intro s hreached
    exact ⟨hreached.descending, fun fragment steps => hreached.typesAround_eq fragment⟩
  · rw [htrace.link]
    exact hdescending
  · intro node hnode
    rw [htrace.link] at hnode ⊢
    exact ReferenceModel.isRootPath_pathToRoot hdescending
      (ReferenceModel.wire_numbered hs.numbered)
      (ReferenceModel.wire_closed hs.numbered hs.closed) hnode

end Linker

end FactGraph
