import FactGraph.Proofs.Fact.Listing
import FactGraph.Proofs.Graph.BreadthFirst
import Mathlib.Data.List.Perm.Subperm
import Mathlib.Data.Nat.Find
import Mathlib.Logic.Relation

/-!
# How far a search goes

The levels of a search are the nodes at distance 1, 2 and so on from the start, where the distance
is the number of steps of a shortest walk. Each level is found from the one before it: a successor
of a node at distance `n` that has not been seen is at distance `n + 1`, and each node at that
distance is such a successor.

So a search finds the nodes up to a distance, each once and the nearer ones first. A shortest walk
repeats no node, so in a finite graph every distance is bounded by the number of nodes, and a search
with that many rounds finds all that can be reached.

## Main definitions

* `Walk`, `IsDistance`: walks of a length, and the length of a shortest one
* `Frontier`: what is seen is near, and the level is at the distance
* `IsOrder`: the order in which the nodes around a start are met

## Main results

* `mem_search_iff`: what a search finds, and with which distance
* `IsDistance.le_length`: distances are bounded by the number of nodes
* `isOrder_search`: a search with enough rounds finds what can be reached, in order
-/

namespace FactGraph.BreadthFirst

open Relation (ReflTransGen)

variable {α : Type} {next : α → List α} {start a b : α} {n m : Nat}

/-! ## Walks -/

/-- **A walk of a length** from one node to another, over successors. -/
def Walk (next : α → List α) : Nat → α → α → Prop
  | 0, a, b => a = b
  | n + 1, a, b => ∃ c, Walk next n a c ∧ b ∈ next c

/-- **The distance** of a node from the start: the length of a shortest walk. -/
structure IsDistance (next : α → List α) (start a : α) (n : Nat) : Prop where
  walk : Walk next n start a
  le : ∀ m, Walk next m start a → n ≤ m

theorem reflTransGen_iff : ReflTransGen (fun a b => b ∈ next a) a b ↔ ∃ n, Walk next n a b := by
  constructor
  · intro h
    induction h with
    | refl => exact ⟨0, rfl⟩
    | tail _ hstep ih =>
      obtain ⟨n, hwalk⟩ := ih
      exact ⟨n + 1, _, hwalk, hstep⟩
  · rintro ⟨n, hwalk⟩
    induction n generalizing b with
    | zero =>
      obtain rfl : a = b := hwalk
      exact .refl
    | succ n ih =>
      obtain ⟨c, hwalk, hstep⟩ := hwalk
      exact (ih hwalk).tail hstep

/-- What can be reached has a distance. -/
theorem exists_isDistance (h : Walk next n start a) : ∃ m ≤ n, IsDistance next start a m := by
  classical
  have hexists : ∃ m, Walk next m start a := ⟨n, h⟩
  exact ⟨Nat.find hexists, Nat.find_min' hexists h, Nat.find_spec hexists,
    fun m hm => Nat.find_min' hexists hm⟩

namespace IsDistance

theorem unique (h : IsDistance next start a n) (h' : IsDistance next start a m) : n = m :=
  Nat.le_antisymm (h.le m h'.walk) (h'.le n h.walk)

theorem start_iff : IsDistance next start a 0 ↔ start = a :=
  ⟨fun h => h.walk, fun h => ⟨h, fun _ _ => Nat.zero_le _⟩⟩

/-- **The node before the last one** of a shortest walk is one step nearer. -/
theorem exists_pred (h : IsDistance next start a (n + 1)) :
    ∃ c, IsDistance next start c n ∧ a ∈ next c := by
  obtain ⟨c, hwalk, hstep⟩ := h.walk
  refine ⟨c, ⟨hwalk, fun m hm => ?_⟩, hstep⟩
  have hle := h.le (m + 1) ⟨c, hm, hstep⟩
  omega

/-- A shortest walk repeats no node. -/
theorem exists_nodup (h : IsDistance next start a n) :
    ∃ nodes : List α, nodes.length = n ∧ nodes.Nodup ∧
      ∀ c ∈ nodes, (∃ d, c ∈ next d) ∧ ∃ m ≤ n, IsDistance next start c m := by
  induction n generalizing a with
  | zero => exact ⟨[], rfl, .nil, nofun⟩
  | succ n ih =>
    obtain ⟨c, hc, hstep⟩ := h.exists_pred
    obtain ⟨nodes, hlength, hnodup, hnodes⟩ := ih hc
    refine ⟨a :: nodes, by simp [hlength], List.nodup_cons.2 ⟨fun hmem => ?_, hnodup⟩, ?_⟩
    · obtain ⟨-, m, hm, hdistance⟩ := hnodes a hmem
      have hsame := h.unique hdistance
      omega
    · intro d hd
      rcases List.mem_cons.1 hd with rfl | hd
      · exact ⟨⟨c, hstep⟩, n + 1, Nat.le_refl _, h⟩
      · obtain ⟨hsuccessor, m, hm, hdistance⟩ := hnodes d hd
        exact ⟨hsuccessor, m, by omega, hdistance⟩

/-- **Distances are bounded by the number of nodes.** -/
theorem le_length (h : IsDistance next start a n) (nodes : List α)
    (hnodes : ∀ c, ∀ d ∈ next c, d ∈ nodes) : n ≤ nodes.length := by
  obtain ⟨walked, rfl, hnodup, hwalked⟩ := h.exists_nodup
  refine (List.subperm_of_subset hnodup fun c hc => ?_).length_le
  obtain ⟨⟨d, hd⟩, -⟩ := hwalked c hc
  exact hnodes d c hd

end IsDistance

/-! ## Levels -/

/-- **The frontier of a search**: what is seen is what is not further away than the distance, and
the level is what is at the distance. -/
structure Frontier (next : α → List α) (start : α) (n : Nat) (seen level : List α) : Prop where
  mem_seen : ∀ a, a ∈ seen ↔ ∃ m ≤ n, Walk next m start a
  mem_level : ∀ a, a ∈ level ↔ IsDistance next start a n

theorem frontier_start : Frontier next start 0 [start] [start] where
  mem_seen a := by
    rw [List.mem_singleton]
    constructor
    · rintro rfl
      exact ⟨0, Nat.le_refl 0, rfl⟩
    · rintro ⟨m, hm, hwalk⟩
      obtain rfl := Nat.le_zero.1 hm
      exact hwalk.symm
  mem_level a := by rw [List.mem_singleton, IsDistance.start_iff, eq_comm]

variable [DecidableEq α] {seen level nodes : List α} {parent node : α} {visit : Visit α}

theorem mem_map_discover : node ∈ (discover n parent seen nodes).map Visit.node ↔
    node ∈ nodes ∧ node ∉ seen := by
  induction nodes generalizing seen with
  | nil => simp [discover]
  | cons first nodes ih =>
    unfold discover
    by_cases hseen : first ∈ seen
    · rw [if_pos hseen, ih, List.mem_cons]
      constructor
      · rintro ⟨hmem, hfresh⟩
        exact ⟨.inr hmem, hfresh⟩
      · rintro ⟨rfl | hmem, hfresh⟩
        · exact absurd hseen hfresh
        · exact ⟨hmem, hfresh⟩
    · rw [if_neg hseen, List.map_cons, List.mem_cons, List.mem_cons, ih, List.mem_cons]
      by_cases hsame : node = first
      · simp [hsame, hseen]
      · simp [hsame]

/-- The next level is what follows the level and has not been seen. -/
theorem mem_map_nextLevel : node ∈ (nextLevel next n seen level).map Visit.node ↔
    (∃ a ∈ level, node ∈ next a) ∧ node ∉ seen := by
  induction level generalizing seen with
  | nil => simp [nextLevel]
  | cons first level ih =>
    unfold nextLevel
    rw [List.map_append, List.mem_append, ih, mem_map_discover, List.mem_append, mem_map_discover]
    by_cases hseen : node ∈ seen
    · simp [hseen]
    · by_cases hfirst : node ∈ next first
      · simp [hseen, hfirst]
      · simp [hseen, hfirst]

theorem nodup_map_discover : ((discover n parent seen nodes).map Visit.node).Nodup := by
  induction nodes generalizing seen with
  | nil => exact .nil
  | cons first nodes ih =>
    unfold discover
    split
    · exact ih
    · refine List.nodup_cons.2 ⟨fun hmem => ?_, ih⟩
      exact (mem_map_discover.1 hmem).2 List.mem_cons_self

theorem nodup_map_nextLevel : ((nextLevel next n seen level).map Visit.node).Nodup := by
  induction level generalizing seen with
  | nil => exact .nil
  | cons first level ih =>
    unfold nextLevel
    rw [List.map_append]
    refine nodup_map_discover.append ih fun node hfound hlater => ?_
    exact (mem_map_nextLevel.1 hlater).2 (List.mem_append_left _ hfound)

theorem distance_of_discover (h : visit ∈ discover n parent seen nodes) : visit.distance = n := by
  induction nodes generalizing seen with
  | nil => cases h
  | cons first nodes ih =>
    unfold discover at h
    split at h
    · exact ih h
    · rcases List.mem_cons.1 h with rfl | h
      · rfl
      · exact ih h

theorem distance_of_nextLevel (h : visit ∈ nextLevel next n seen level) : visit.distance = n := by
  induction level generalizing seen with
  | nil => cases h
  | cons first level ih =>
    rcases List.mem_append.1 h with h | h
    · exact distance_of_discover h
    · exact ih h

namespace Frontier

/-- **The next level is one step further away.** -/
theorem mem_nextLevel (h : Frontier next start n seen level) :
    node ∈ (nextLevel next (n + 1) seen level).map Visit.node ↔
      IsDistance next start node (n + 1) := by
  rw [mem_map_nextLevel]
  constructor
  · rintro ⟨⟨a, ha, hstep⟩, hfresh⟩
    have hdistance := (h.mem_level a).1 ha
    refine ⟨⟨a, hdistance.walk, hstep⟩, fun m hm => ?_⟩
    by_contra hnear
    exact hfresh ((h.mem_seen node).2 ⟨m, by omega, hm⟩)
  · intro hdistance
    obtain ⟨a, ha, hstep⟩ := hdistance.exists_pred
    refine ⟨⟨a, (h.mem_level a).2 ha, hstep⟩, fun hseen => ?_⟩
    obtain ⟨m, hm, hwalk⟩ := (h.mem_seen node).1 hseen
    have hle := hdistance.le m hwalk
    omega

/-- The frontier after one more round. -/
theorem step (h : Frontier next start n seen level) :
    Frontier next start (n + 1) ((nextLevel next (n + 1) seen level).map Visit.node ++ seen)
      ((nextLevel next (n + 1) seen level).map Visit.node) where
  mem_seen a := by
    rw [List.mem_append, h.mem_nextLevel, h.mem_seen]
    constructor
    · rintro (hdistance | ⟨m, hm, hwalk⟩)
      · exact ⟨n + 1, Nat.le_refl _, hdistance.walk⟩
      · exact ⟨m, by omega, hwalk⟩
    · rintro ⟨m, hm, hwalk⟩
      obtain ⟨k, hk, hdistance⟩ := exists_isDistance hwalk
      by_cases hlast : k = n + 1
      · exact .inl (hlast ▸ hdistance)
      · exact .inr ⟨k, by omega, hdistance.walk⟩
  mem_level _ := h.mem_nextLevel

end Frontier

variable {rounds : Nat}

/-- **The levels that a search goes through**: each visit is at its distance, and each distance
within the rounds is gone through. -/
theorem mem_levels (h : Frontier next start n seen level) :
    (∃ visit ∈ levels next rounds n seen level, visit.node = a ∧ visit.distance = m) ↔
      IsDistance next start a m ∧ n < m ∧ m ≤ n + rounds := by
  induction rounds generalizing n seen level with
  | zero => simp only [levels, List.not_mem_nil, false_and, exists_false, false_iff]; omega
  | succ rounds ih =>
    simp only [levels, List.mem_append, or_and_right, exists_or, ih h.step]
    have hfirst : (∃ visit ∈ nextLevel next (n + 1) seen level,
        visit.node = a ∧ visit.distance = m) ↔ IsDistance next start a (n + 1) ∧ m = n + 1 := by
      rw [← h.mem_nextLevel, List.mem_map]
      constructor
      · rintro ⟨visit, hvisit, rfl, rfl⟩
        exact ⟨⟨visit, hvisit, rfl⟩, distance_of_nextLevel hvisit⟩
      · rintro ⟨⟨visit, hvisit, rfl⟩, rfl⟩
        exact ⟨visit, hvisit, rfl, distance_of_nextLevel hvisit⟩
    rw [hfirst]
    constructor
    · rintro (⟨hdistance, rfl⟩ | ⟨hdistance, hlt, hle⟩)
      · exact ⟨hdistance, by omega, by omega⟩
      · exact ⟨hdistance, by omega, by omega⟩
    · rintro ⟨hdistance, hlt, hle⟩
      by_cases hlast : m = n + 1
      · exact .inl ⟨hlast ▸ hdistance, hlast⟩
      · exact .inr ⟨hdistance, by omega, by omega⟩

/-- What is visited is at its distance. -/
theorem isDistance_of_levels (h : Frontier next start n seen level)
    (hvisit : visit ∈ levels next rounds n seen level) :
    IsDistance next start visit.node visit.distance ∧ n < visit.distance := by
  obtain ⟨hdistance, hlt, -⟩ := (mem_levels h).1 ⟨visit, hvisit, rfl, rfl⟩
  exact ⟨hdistance, hlt⟩

theorem nodup_map_levels (h : Frontier next start n seen level) :
    ((levels next rounds n seen level).map Visit.node).Nodup := by
  induction rounds generalizing n seen level with
  | zero => exact .nil
  | succ rounds ih =>
    simp only [levels, List.map_append]
    refine nodup_map_nextLevel.append (ih h.step) fun node hfound hlater => ?_
    obtain ⟨visit, hvisit, rfl⟩ := List.mem_map.1 hlater
    obtain ⟨hdistance, hlt⟩ := isDistance_of_levels h.step hvisit
    have hsame := hdistance.unique (h.mem_nextLevel.1 hfound)
    omega

theorem pairwise_levels (h : Frontier next start n seen level) :
    (levels next rounds n seen level).Pairwise fun visit later =>
      visit.distance ≤ later.distance := by
  induction rounds generalizing n seen level with
  | zero => exact .nil
  | succ rounds ih =>
    simp only [levels]
    refine List.pairwise_append.2 ⟨?_, ih h.step, ?_⟩
    · refine List.pairwise_of_forall_mem_list fun visit hvisit later hlater => ?_
      have hfirst := distance_of_nextLevel hvisit
      have hsecond := distance_of_nextLevel hlater
      omega
    · intro visit hvisit later hlater
      rw [distance_of_nextLevel hvisit]
      exact Nat.le_of_lt (isDistance_of_levels h.step hlater).2

/-! ## Searches -/

/-- **What a search finds**: the nodes at a distance within the rounds, apart from the start. -/
theorem mem_search_iff :
    (∃ visit ∈ search next rounds start, visit.node = a ∧ visit.distance = n) ↔
      IsDistance next start a n ∧ 0 < n ∧ n ≤ rounds := by
  have hlevels := @mem_levels _ next start a 0 n _ [start] [start] rounds frontier_start
  rwa [Nat.zero_add] at hlevels

/-- A search finds each node once, and not the start. -/
theorem nodup_search : (start :: (search next rounds start).map Visit.node).Nodup := by
  refine List.nodup_cons.2 ⟨fun hmem => ?_, nodup_map_levels frontier_start⟩
  obtain ⟨visit, hvisit, hstart⟩ := List.mem_map.1 hmem
  obtain ⟨hdistance, hlt⟩ := isDistance_of_levels frontier_start hvisit
  have hzero := hdistance.unique (IsDistance.start_iff.2 hstart.symm)
  omega

/-- The nearer nodes are found first. -/
theorem pairwise_search : (search next rounds start).Pairwise fun visit later =>
    visit.distance ≤ later.distance :=
  pairwise_levels frontier_start

/-! ## The order of a search -/

/-- The values after those that are kept already. -/
theorem append_discover (kept : List α) (hkept : ∀ a, a ∈ kept ↔ a ∈ seen) :
    kept ++ (discover n parent seen nodes).map Visit.node =
      nodes.foldl (fun kept value => if value ∈ kept then kept else kept ++ [value]) kept := by
  induction nodes generalizing seen kept with
  | nil => rw [discover, List.map_nil, List.append_nil, List.foldl_nil]
  | cons first nodes ih =>
    rw [discover, List.foldl_cons]
    by_cases hseen : first ∈ seen
    · rw [if_pos hseen, if_pos ((hkept first).2 hseen), ih kept hkept]
    · have hlonger : ∀ a, a ∈ kept ++ [first] ↔ a ∈ first :: seen := by simp [hkept, or_comm]
      rw [if_neg hseen, if_neg (mt (hkept first).1 hseen), List.map_cons,
        ← ih (kept ++ [first]) hlonger, List.append_assoc, List.singleton_append]

theorem append_nextLevel (next : α → List α) (n : Nat) (level kept : List α)
    (hkept : ∀ a, a ∈ kept ↔ a ∈ seen) :
    kept ++ (nextLevel next n seen level).map Visit.node =
      (level.flatMap next).foldl
        (fun kept value => if value ∈ kept then kept else kept ++ [value]) kept := by
  induction level generalizing seen kept with
  | nil => rw [nextLevel, List.map_nil, List.append_nil, List.flatMap_nil, List.foldl_nil]
  | cons first level ih =>
    rw [nextLevel, List.map_append, ← List.append_assoc, List.flatMap_cons, List.foldl_append,
      ← append_discover kept hkept]
    exact ih _ fun a => by simp [hkept, or_comm]

/-- **Level by level, the successors of what is met are met**, if there are rounds enough to meet
everything. -/
theorem append_levels (rounds : Nat) (h : Frontier next start n seen level)
    (hrounds : ∀ a m, IsDistance next start a m → m ≤ n + rounds) (kept : List α)
    (hkept : ∀ a, a ∈ kept ↔ a ∈ seen) :
    kept ++ (levels next rounds n seen level).map Visit.node =
      (level.flatMap next ++
        ((levels next rounds n seen level).map Visit.node).flatMap next).foldl
          (fun kept value => if value ∈ kept then kept else kept ++ [value]) kept := by
  induction rounds generalizing n seen level kept with
  | zero =>
    -- There is no further level, since it would be too far away.
    have hnone : (nextLevel next (n + 1) seen level).map Visit.node = [] := by
      refine List.eq_nil_iff_forall_not_mem.2 fun a ha => ?_
      have hle := hrounds a (n + 1) (h.mem_nextLevel.1 ha)
      omega
    have hlevel := append_nextLevel next (n + 1) level kept hkept
    rw [hnone] at hlevel
    rw [levels, List.map_nil, List.flatMap_nil, List.append_nil, List.append_nil, ← hlevel,
      List.append_nil]
  | succ rounds ih =>
    have hlevel := append_nextLevel next (n + 1) level kept hkept
    rw [levels, List.map_append, ← List.append_assoc, List.foldl_append, ← hlevel,
      List.flatMap_append]
    refine ih h.step (fun a m hm => ?_) _ fun a => by simp [hkept, or_comm]
    have hle := hrounds a m hm
    omega

/-- **A breadth-first order** of the nodes around a start: it has each of them once and the nearer
ones first, and after the start it has the successors of its nodes, in their order. -/
structure IsOrder (next : α → List α) (start : α) (order : List α) : Prop where
  nodup : order.Nodup
  mem_iff : ∀ a, a ∈ order ↔ ReflTransGen (fun a b => b ∈ next a) start a
  expands : order = keepFirst (start :: order.flatMap next)
  nearer : order.Pairwise fun a b => ∀ n m,
    IsDistance next start a n → IsDistance next start b m → n ≤ m

/-- **A search with enough rounds finds all that can be reached**, in breadth-first order. -/
theorem isOrder_search (hrounds : ∀ a n, IsDistance next start a n → n ≤ rounds) :
    IsOrder next start (start :: (search next rounds start).map Visit.node) where
  nodup := nodup_search
  mem_iff a := by
    rw [reflTransGen_iff, List.mem_cons, List.mem_map]
    constructor
    · rintro (rfl | ⟨visit, hvisit, rfl⟩)
      · exact ⟨0, rfl⟩
      · exact ⟨_, (isDistance_of_levels frontier_start hvisit).1.walk⟩
    · rintro ⟨n, hwalk⟩
      obtain ⟨m, -, hdistance⟩ := exists_isDistance hwalk
      by_cases hstart : m = 0
      · subst hstart
        exact .inl (IsDistance.start_iff.1 hdistance).symm
      · obtain ⟨visit, hvisit, rfl, -⟩ :=
          mem_search_iff.2 ⟨hdistance, Nat.pos_of_ne_zero hstart, hrounds a m hdistance⟩
        exact .inr ⟨visit, hvisit, rfl⟩
  -- The start is expanded first, and then the levels follow one another.
  expands := by
    rw [keepFirst, List.foldl_cons, if_neg List.not_mem_nil, List.nil_append, List.flatMap_cons]
    have hlevels := append_levels rounds frontier_start
      (fun a n hn => by rw [Nat.zero_add]; exact hrounds a n hn) [start] fun a => Iff.rfl
    rwa [List.flatMap_singleton] at hlevels
  nearer := by
    refine List.pairwise_cons.2 ⟨fun b _ n m hn _ => ?_, ?_⟩
    · obtain rfl := hn.unique (IsDistance.start_iff.2 rfl)
      exact Nat.zero_le m
    · refine List.pairwise_map.2 (pairwise_search.imp_of_mem ?_)
      intro visit later hvisit hlater hle n m hn hm
      rw [hn.unique (isDistance_of_levels frontier_start hvisit).1,
        hm.unique (isDistance_of_levels frontier_start hlater).1]
      exact hle

end FactGraph.BreadthFirst
