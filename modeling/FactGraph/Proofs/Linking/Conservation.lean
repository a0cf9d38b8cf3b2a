import FactGraph.Proofs.Linking.CallEdges
import FactGraph.Proofs.Linking.Tally
import FactGraph.Proofs.Resolution.Shape

/-!
# No count is lost

A metric counts by name. When names are resolved, several of them may become one; when they are
linked, several may lead to one type; and a type may be declared in many fragments, each with any
number of metrics of one kind. At none of these places is a count overwritten: what the declarations
of a type count of types is what the type counts in the linked model.

While the fragments are linked one after the other, the generic parameters in scope are read off the
model as it is then. They are the same whenever that is, so they may as well be read off the
finished model.

## Main definitions

* `ReferenceModel.parametersAround`: the generic parameters of the types around a type
* `Linker.RelationsDistinct`: every type has one edge for each relation and target

## Main results

* `Trace.tally_linked`: the tally when all fragments are linked
* `link_counts`: what the declarations count is what their type counts
-/

namespace FactGraph

open Relation (ReflTransGen)

/-! ## One edge for each relation -/

namespace RelationEdge

/-- What no two edges of a type agree in. -/
def key (edge : RelationEdge) : RelationKind × TypeId :=
  (edge.relation, edge.target)

/-- An edge is only new if there was none for the relation and target. -/
theorem keys_add (relation : RelationKind) (target : TypeId) (count : Nat)
    (edges : List RelationEdge) : (add relation target count edges).map key =
      if (relation, target) ∈ edges.map key then edges.map key
      else edges.map key ++ [(relation, target)] := by
  induction edges with
  | nil => rfl
  | cons edge edges ih =>
    unfold add
    by_cases hsame : edge.relation = relation ∧ edge.target = target
    · rw [if_pos hsame]
      simp [key, hsame]
    · have hkey : ¬(relation, target) = edge.key := by
        rintro ⟨⟩
        exact hsame ⟨rfl, rfl⟩
      rw [if_neg hsame, List.map_cons, ih]
      simp only [List.map_cons, List.mem_cons, hkey, false_or]
      split <;> rfl

theorem nodup_keys_add {relation : RelationKind} {target : TypeId} {count : Nat}
    {edges : List RelationEdge} (h : (edges.map key).Nodup) :
    ((add relation target count edges).map key).Nodup := by
  rw [keys_add]
  split
  · exact h
  next hfresh =>
    rw [← List.concat_eq_append]
    exact h.concat hfresh

end RelationEdge

namespace Linker

open DraftM

variable {linker : Linker} {source : Occurrences} {model : ReferenceModel} {s s' : DraftState}

/-- **Every type has one edge for each relation and target.** -/
def RelationsDistinct (model : ReferenceModel) : Prop :=
  ∀ node ∈ model.types, (node.relations.map RelationEdge.key).Nodup

/-- **Every move keeps the edges apart.** -/
theorem MemberMove.relationsDistinct (h : linker.MemberMove source s s')
    (hs : RelationsDistinct s.model) : RelationsDistinct s'.model := by
  intro node hnode
  cases h with
  | external h =>
    cases h
    rcases Array.mem_push.1 hnode with hnode | rfl
    · exact hs node hnode
    · exact List.nodup_nil
  | addLinks id change links hid hdeclared houtline hrelations =>
    rcases mem_modify hnode with hnode | ⟨old, hget, rfl⟩
    · exact hs node hnode
    · rw [hrelations]
      exact hs old (Array.mem_of_getElem? hget)
  | addRelation id relation target count =>
    dsimp only at hnode
    rcases mem_modify hnode with hnode | ⟨old, hget, rfl⟩
    · exact hs node hnode
    · exact RelationEdge.nodup_keys_add (hs old (Array.mem_of_getElem? hget))
  | _ => exact hs node hnode

/-- **All edges are apart when a run is over.** -/
theorem Phases.relationsDistinct {repo : RepositoryFact} {declared nested final : DraftState}
    (h : linker.Phases repo declared nested final) : RelationsDistinct final.model := by
  have hstart : RelationsDistinct nested.model := by
    intro node hnode
    rw [(h.nested_unlinked.types node hnode).2.1]
    exact List.nodup_nil
  exact DraftM.keep_of_moves h.links hstart fun _ _ => MemberMove.relationsDistinct

end Linker

/-! ## Generic parameters in scope -/

/-- **The generic parameters of the types around a type.** -/
def ReferenceModel.parametersAround (model : ReferenceModel) (type : TypeId) : List String :=
  (Linker.enclosingTypes model model.types.size
    ((model.type? type).bind TypeNode.containingType)).flatMap fun around =>
      (model.type? around).elim [] TypeNode.genericParameters

/-- Only what is in scope matters for what a declaration counts. -/
theorem TypeFact.linkedCounts_congr {fact : TypeFact} {parameters others : List String}
    (h : ∀ parameter, parameter ∈ others ↔ parameter ∈ parameters) :
    fact.linkedCounts others = fact.linkedCounts parameters := by
  have hcount : MetricFact.linkedCount others = MetricFact.linkedCount parameters := by
    funext metric
    simp only [MetricFact.linkedCount, TypeName.namesType_congr h]
  funext kind
  rw [linkedCounts, linkedCounts, hcount]

namespace Linker

open DraftM

variable {linker : Linker} {source : Occurrences} {model : ReferenceModel} {s s' : DraftState}

theorem hasParameters_parametersAround (model : ReferenceModel) (fragment : Fragment) :
    HasParameters model fragment
      (fragment.fact.genericParameters ++ model.parametersAround fragment.type) := by
  intro parameter
  rw [List.mem_append, ReferenceModel.parametersAround, List.mem_flatMap]
  refine or_congr_right (exists_congr fun around => and_congr_right fun _ => ?_)
  cases model.type? around <;> simp

/-- The types around a type are the same when the contents are filled in. -/
theorem enclosingTypes_wire (model : ReferenceModel) (steps : Nat) (start : Option TypeId) :
    enclosingTypes model.wire steps start = enclosingTypes model steps start := by
  induction steps generalizing start with
  | zero => rfl
  | succ steps ih =>
    cases start with
    | none => rfl
    | some type =>
      rw [enclosingTypes, enclosingTypes, ih, ReferenceModel.wire_type?]
      cases model.type? type <;> rfl

theorem parametersAround_wire (model : ReferenceModel) (type : TypeId) :
    model.wire.parametersAround type = model.parametersAround type := by
  have hsize : model.wire.types.size = model.types.size := Array.size_map
  have hstart : (model.wire.type? type).bind TypeNode.containingType =
      (model.type? type).bind TypeNode.containingType := by
    rw [ReferenceModel.wire_type?]
    cases model.type? type <;> rfl
  rw [ReferenceModel.parametersAround, ReferenceModel.parametersAround, hsize, hstart,
    enclosingTypes_wire]
  refine List.flatMap_congr fun around _ => ?_
  rw [ReferenceModel.wire_type?]
  cases model.type? around <;> rfl

/-! ## Fragments -/

/-- **What the members of a fragment add to the tally**: what its metrics count of types. -/
theorem ends_tallyOfMembers (fragment : Fragment) :
    Ends s (linker.draftMembers fragment) fun _ s' => ∃ outer,
      HasParameters s.model fragment outer ∧
      s'.tally =
        s.tally + (Pi.single fragment.type (fragment.fact.linkedCounts outer) : Tally) := by
  have hparameters : Ends s (draftParametersInScope fragment) fun outer s' =>
      HasParameters s.model fragment outer ∧ s = s' := by
    refine ends_model.bind ?_
    rintro _ _ ⟨rfl, rfl⟩
    refine (ends_typesAt _).bind ?_
    rintro nodes _ ⟨hnodes, rfl⟩
    exact .pure ⟨.of_nodes hnodes, rfl⟩
  unfold draftMembers
  refine hparameters.bind ?_
  rintro outer _ ⟨houter, rfl⟩
  dsimp only
  refine (Along.forM (keepsTally_draftBaseType _) s).bind fun _ s₂ heq₂ => ?_
  refine (keepsTally_draftAttributes _ s₂).bind fun attributes s₃ heq₃ => ?_
  have hattributes : KeepsTally (modifyType fragment.type fun node =>
      { node with attributes := node.attributes ++ attributes }) :=
    keepsTally_modifyType _ fun _ => rfl
  refine (hattributes s₃).bind fun _ s₄ heq₄ => ?_
  refine (Along.forM keepsTally_draftField s₄).bind fun _ s₅ heq₅ => ?_
  refine (Along.forM keepsTally_draftProperty s₅).bind fun _ s₆ heq₆ => ?_
  refine (keepsTally_draftMethods _ _ _ s₆).bind fun _ s₇ heq₇ => ?_
  refine (keepsTally_draftMethods _ _ _ s₇).bind fun _ s₈ heq₈ => ?_
  refine (keepsTally_linkDestructors _ s₈).bind fun _ s₉ heq₉ => ?_
  refine (tallies_linkMetrics fragment.fact s₉).mono fun _ s₁₀ heq₁₀ => ⟨outer, houter, ?_⟩
  rw [heq₁₀, heq₉, heq₈, heq₇, heq₆, heq₅, heq₄, heq₃, heq₂]

/-- What the steps of a list add, when each of them is made where the moves of those before it have
led. -/
theorem ends_tallyOfAll {α : Type} (move : DraftState → DraftState → Prop) {f : α → DraftM Unit}
    {part : α → Tally} {xs : List α}
    (h : ∀ x ∈ xs, ∀ s', ReflTransGen move s s' →
      Ends s' (f x) fun _ s'' => ReflTransGen move s' s'' ∧ s''.tally = s'.tally + part x) :
    Ends s (xs.forM f) fun _ s' => s'.tally = s.tally + (xs.map part).sum := by
  induction xs generalizing s with
  | nil => exact .pure (add_zero s.tally).symm
  | cons x xs ih =>
    refine (h x (by simp) s .refl).bind fun _ s₁ ⟨hpath, heq₁⟩ => ?_
    refine (ih fun other hother s₂ hpath' => h other (by simp [hother]) s₂
      (hpath.trans hpath')).mono fun _ s₂ heq₂ => ?_
    rw [heq₂, heq₁, List.map_cons, List.sum_cons, add_assoc]

section Trace

variable {repo : RepositoryFact} {fragments : List Fragment}
  {declared nested linked final : DraftState}

/-- **The tally when all fragments are linked**: what they count of types, each in the scope that
the finished model says it is in. -/
theorem Trace.tally_linked (h : linker.Trace repo fragments declared nested linked final) :
    linked.tally = (fragments.map fun fragment => (Pi.single fragment.type
      (fragment.fact.linkedCounts (fragment.fact.genericParameters ++
        final.model.parametersAround fragment.type)) : Tally)).sum := by
  have hs := h.phases.nested_sound
  have houtward := outward_of_nests h.phases.declares h.phases.nests
  have hnested : nested.tally = 0 := by
    funext id
    unfold DraftState.tally
    cases hnode : nested.model.type? id with
    | none => rfl
    | some node =>
      have hnone := (h.phases.nested_unlinked.types node (ReferenceModel.mem_of_type hnode)).2.1
      rw [Option.elim_some, hnone]
      rfl
  have hall : Ends nested (fragments.forM linker.draftMembers) fun _ s =>
      s.tally = nested.tally + (fragments.map fun fragment => (Pi.single fragment.type
        (fragment.fact.linkedCounts (fragment.fact.genericParameters ++
          final.model.parametersAround fragment.type)) : Tally)).sum := by
    refine ends_tallyOfAll (linker.MemberMove (linker.occurrences repo nested.model))
      fun fragment hfragment s hpath => ?_
    have hplaced := h.placed_nested hfragment
    have hmoves := (h.reaches_draftMembers hfragment hpath).ends
    refine (hmoves.and (ends_tallyOfMembers fragment)).mono
      fun _ s' ⟨⟨hpath', _⟩, outer, houter, heq⟩ => ⟨hpath', ?_⟩
    have hscope := hasParameters_parametersAround final.model fragment
    rw [heq, TypeFact.linkedCounts_congr fun parameter => ?_]
    rw [houter.mem_iff hs houtward hpath hplaced,
      hscope.mem_iff hs houtward h.phases.links hplaced]
  rw [← zero_add (List.sum _), ← hnested]
  exact hall () linked h.members

/-- **The tally of a declared type when a run is over**: what its declarations count of types. -/
theorem Trace.tally_final (h : linker.Trace repo fragments declared nested linked final)
    {node : TypeNode} (hnode : node ∈ final.model.types) (hdeclared : node.isExternal = false) :
    RelationEdge.total node.relations =
      (((Linker.declarations repo).filter (·.isPartOf linker.separator node)).map
        fun declaration => declaration.fact.linkedCounts
          (declaration.fact.genericParameters ++ final.model.parametersAround node.id)).sum := by
  have hget := h.phases.sound.numbered.type?_id hnode
  have hlinked : linked.model.type? node.id = some node := by
    cases hold : linked.model.type? node.id with
    | none =>
      -- Types that are new since then are those that calls have brought.
      have hexternal := h.callsLinked.isExternal_of_new hold hget
      rw [hdeclared] at hexternal
      cases hexternal
    | some old => rw [← h.callsLinked.type?_eq hold, hget]
  have htotal : RelationEdge.total node.relations = linked.tally node.id := by
    rw [DraftState.tally, hlinked]
    rfl
  rw [htotal, h.tally_linked, Pi.list_sum_apply, List.map_map, ← h.declarationsOf hnode,
    List.map_map, sum_map_filter]
  refine congrArg List.sum (List.map_congr_left fun fragment _ => ?_)
  rw [Function.comp_apply]
  split
  next htype =>
    rw [htype, Pi.single_eq_same]
    rfl
  next htype => exact Pi.single_eq_of_ne' htype _

end Trace

/-- **No count is lost.** With whatever index and policy names are resolved, a metric has the total
that it had, though names that become equal are counted as one. With whatever index and policy a
repository is linked, the edges of a declared type have the total, for every kind of relation, of
what its declarations count of types, that is of names that are neither blank nor generic parameters
in scope; and there is one edge for each relation and target. -/
theorem link_counts (linker : Linker) (repo : RepositoryFact) :
    (∀ (resolver : Resolver) (scope : ResolutionScope) (metric : MetricFact) (memory : Memory),
      ((metric.mapNames (resolver.resolveName scope)).run memory).1.counts.total =
        metric.counts.total) ∧
    ∀ node ∈ (linker.link repo).1.types, node.isExternal = false →
      (∀ kind, RelationEdge.total node.relations kind =
        (((declarations repo).filter (·.isPartOf linker.separator node)).map fun declaration =>
          declaration.fact.linkedCounts (declaration.fact.genericParameters ++
            (linker.link repo).1.parametersAround node.id) kind).sum) ∧
      (node.relations.map RelationEdge.key).Nodup := by
  refine ⟨fun resolver scope metric => metric.total_mapNames (resolver.resolveName scope), ?_⟩
  obtain ⟨fragments, declared, nested, linked, final, htrace⟩ := draftRun_trace linker repo
  rw [htrace.link]
  intro node hnode hdeclared
  obtain ⟨old, hold, rfl⟩ := Array.mem_map.1 hnode
  refine ⟨fun kind => ?_, htrace.phases.relationsDistinct old hold⟩
  dsimp only
  rw [parametersAround_wire]
  refine (congrFun (htrace.tally_final hold hdeclared) kind).trans ?_
  rw [Pi.list_sum_apply, List.map_map]
  rfl

end Linker

end FactGraph
