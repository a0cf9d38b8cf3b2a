import FactGraph.Graph.BreadthFirst

/-!
# What a search reaches

A search only ever goes from a node to one of its successors. So what holds of the start and passes
from a node to its successors holds of every node that is visited.

## Main results

* `forall_visits`: a property that successors inherit holds of every visited node
* `exists_of_visit`: every visited node is a successor
* `search_of_isEmpty`: a search from a node without successors finds nothing
-/

namespace FactGraph.BreadthFirst

variable {α : Type} [DecidableEq α] {next : α → List α} {holds : α → Prop}

theorem mem_of_discover {distance : Nat} {parent : α} {seen nodes : List α} {visit : Visit α}
    (h : visit ∈ discover distance parent seen nodes) : visit.node ∈ nodes := by
  induction nodes generalizing seen with
  | nil => cases h
  | cons node nodes ih =>
    unfold discover at h
    split at h
    · exact List.mem_cons_of_mem _ (ih h)
    · rcases List.mem_cons.1 h with rfl | h
      · exact List.mem_cons_self
      · exact List.mem_cons_of_mem _ (ih h)

theorem parent_of_discover {distance : Nat} {parent : α} {seen nodes : List α} {visit : Visit α}
    (h : visit ∈ discover distance parent seen nodes) : visit.parent = parent := by
  induction nodes generalizing seen with
  | nil => cases h
  | cons node nodes ih =>
    unfold discover at h
    split at h
    · exact ih h
    · rcases List.mem_cons.1 h with rfl | h
      · rfl
      · exact ih h

/-- A visit of the next level is to a successor of its parent, which is in the level. -/
theorem parent_of_nextLevel {distance : Nat} {seen level : List α} {visit : Visit α}
    (h : visit ∈ nextLevel next distance seen level) :
    visit.parent ∈ level ∧ visit.node ∈ next visit.parent := by
  induction level generalizing seen with
  | nil => cases h
  | cons node nodes ih =>
    rcases List.mem_append.1 h with h | h
    · rw [parent_of_discover h]
      exact ⟨List.mem_cons_self, mem_of_discover h⟩
    · obtain ⟨hparent, hnode⟩ := ih h
      exact ⟨List.mem_cons_of_mem _ hparent, hnode⟩

theorem forall_nextLevel (hnext : ∀ a, holds a → ∀ b ∈ next a, holds b) {distance : Nat}
    {seen level : List α} (hlevel : ∀ a ∈ level, holds a) :
    ∀ visit ∈ nextLevel next distance seen level, holds visit.node := by
  intro visit hvisit
  obtain ⟨hparent, hnode⟩ := parent_of_nextLevel hvisit
  exact hnext visit.parent (hlevel visit.parent hparent) visit.node hnode

theorem forall_levels (hnext : ∀ a, holds a → ∀ b ∈ next a, holds b) {rounds distance : Nat}
    {seen level : List α} (hlevel : ∀ a ∈ level, holds a) :
    ∀ visit ∈ levels next rounds distance seen level, holds visit.node := by
  induction rounds generalizing distance seen level with
  | zero => simp [levels]
  | succ rounds ih =>
    have hfound : ∀ visit ∈ nextLevel next (distance + 1) seen level, holds visit.node :=
      forall_nextLevel hnext hlevel
    intro visit hvisit
    rcases List.mem_append.1 hvisit with hvisit | hvisit
    · exact hfound visit hvisit
    · refine ih ?_ visit hvisit
      intro a ha
      obtain ⟨found, hmem, rfl⟩ := List.mem_map.1 ha
      exact hfound found hmem

/-- **A property that successors inherit holds of every visited node**, if it holds of the
start. -/
theorem forall_visits (hnext : ∀ a, holds a → ∀ b ∈ next a, holds b) {start : α}
    (hstart : holds start) (rounds : Nat) :
    ∀ visit ∈ search next rounds start, holds visit.node :=
  forall_levels hnext (by simpa using hstart)

/-- Every visited node is a successor of some node. -/
theorem exists_of_visit {start : α} {rounds : Nat} {visit : Visit α}
    (h : visit ∈ search next rounds start) : ∃ node, visit.node ∈ next node := by
  have hlevels (rounds distance : Nat) (seen level : List α) :
      ∀ visit ∈ levels next rounds distance seen level, ∃ node, visit.node ∈ next node := by
    induction rounds generalizing distance seen level with
    | zero => simp [levels]
    | succ rounds ih =>
      intro visit hvisit
      rcases List.mem_append.1 hvisit with hvisit | hvisit
      · exact ⟨visit.parent, (parent_of_nextLevel hvisit).2⟩
      · exact ih _ _ _ visit hvisit
  exact hlevels _ _ _ _ visit h

/-- A search from a node without successors finds nothing. -/
theorem search_of_isEmpty {start : α} (h : next start = []) (rounds : Nat) :
    search next rounds start = [] := by
  have hnone (rounds distance : Nat) (seen : List α) :
      levels next rounds distance seen [] = [] := by
    induction rounds generalizing distance seen with
    | zero => rfl
    | succ rounds ih => simp [levels, nextLevel, ih]
  cases rounds with
  | zero => rfl
  | succ rounds => simp [search, levels, nextLevel, h, discover, hnone]

end FactGraph.BreadthFirst
