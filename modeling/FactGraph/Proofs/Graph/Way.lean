import FactGraph.Proofs.Graph.Distance
import Mathlib.Data.List.Chain

/-!
# The way to a node

A search notes for every node which node it was first reached from. That one is a step nearer to
the start, so going back from node to node gives a shortest way: it starts at the start, each node
is a successor of the one before it, and no node is met twice, since each is at a distance of its
own.

A search with more rounds begins like one with fewer, and only goes on behind it with nodes that are
further away. And a graph can be walked backwards: if one function gives the successors of a node
and another one its predecessors, the distances in both directions are the same.

## Main definitions

* `IsWay`: a shortest way to a node at a distance

## Main results

* `parent_of_search`: a node is first reached from one that is a step nearer
* `isWay_wayTo`: going back from node to node gives a shortest way
* `exists_path_iff`, `path?_spec`: a way is found to what can be reached, and it is a shortest one
* `exists_search_add`: a search with more rounds goes on behind one with fewer
* `isDistance_reverse`: distances are the same in both directions
-/

namespace FactGraph.BreadthFirst

variable {α : Type} {next previous : α → List α} {start target a b : α} {n m rounds : Nat}
  {way : List α}

/-! ## Both directions -/

/-- A walk with one more step in front. -/
theorem Walk.prepend (hstep : a ∈ next start) (h : Walk next n a b) :
    Walk next (n + 1) start b := by
  induction n generalizing b with
  | zero =>
    obtain rfl : a = b := h
    exact ⟨start, rfl, hstep⟩
  | succ n ih =>
    obtain ⟨c, hwalk, hlast⟩ := h
    exact ⟨c, ih hwalk, hlast⟩

/-- A walk, walked backwards. -/
theorem Walk.reverse (hprevious : ∀ a b, b ∈ next a → a ∈ previous b) (h : Walk next n a b) :
    Walk previous n b a := by
  induction n generalizing b with
  | zero => exact Eq.symm h
  | succ n ih =>
    obtain ⟨c, hwalk, hstep⟩ := h
    exact (ih hwalk).prepend (hprevious c b hstep)

/-- **Distances are the same in both directions.** -/
theorem isDistance_reverse (hprevious : ∀ a b, b ∈ next a ↔ a ∈ previous b) :
    IsDistance next a b n ↔ IsDistance previous b a n := by
  have hforth : ∀ m, Walk next m a b → Walk previous m b a :=
    fun m => Walk.reverse fun c d => (hprevious c d).1
  have hback : ∀ m, Walk previous m b a → Walk next m a b :=
    fun m => Walk.reverse fun c d => (hprevious d c).2
  constructor
  · intro h
    exact ⟨hforth n h.walk, fun m hm => h.le m (hback m hm)⟩
  · intro h
    exact ⟨hback n h.walk, fun m hm => h.le m (hforth m hm)⟩

/-! ## Shortest ways -/

/-- **A shortest way** to a node at a distance: it goes from the start to the node, from each node
to a successor, with as many steps as the distance, and it meets no node twice. -/
structure IsWay (next : α → List α) (start target : α) (n : Nat) (way : List α) : Prop where
  head : way.head? = some start
  last : way.getLast? = some target
  steps : way.IsChain fun a b => b ∈ next a
  nodup : way.Nodup
  length : way.length = n + 1
  /-- What is met on the way is not further away than its end. -/
  near : ∀ a ∈ way, ∃ m ≤ n, IsDistance next start a m

theorem isWay_start : IsWay next start start 0 [start] where
  head := rfl
  last := rfl
  steps := .singleton start
  nodup := List.nodup_singleton start
  length := rfl
  near a ha := by
    rw [List.mem_singleton] at ha
    exact ⟨0, Nat.le_refl 0, IsDistance.start_iff.2 ha.symm⟩

/-- A shortest way, gone on with a step to a node that is further away. -/
theorem IsWay.concat (h : IsWay next start b n way) (hstep : a ∈ next b)
    (ha : IsDistance next start a (n + 1)) : IsWay next start a (n + 1) (way ++ [a]) where
  head := by rw [List.head?_append, h.head, Option.some_or]
  last := List.getLast?_concat
  steps := by
    rw [List.isChain_append]
    refine ⟨h.steps, .singleton a, ?_⟩
    intro c hc d hd
    rw [h.last] at hc
    obtain rfl := Option.some.inj hc
    obtain rfl := Option.some.inj hd
    exact hstep
  nodup := by
    rw [← List.concat_eq_append]
    apply h.nodup.concat
    -- The new node is further away than all that is on the way.
    intro hmem
    obtain ⟨m, hm, hdistance⟩ := h.near a hmem
    have hsame := ha.unique hdistance
    omega
  length := by rw [List.length_append, h.length, List.length_singleton]
  near c hc := by
    rcases List.mem_append.1 hc with hc | hc
    · obtain ⟨m, hm, hdistance⟩ := h.near c hc
      exact ⟨m, by omega, hdistance⟩
    · rw [List.mem_singleton] at hc
      exact ⟨n + 1, Nat.le_refl _, hc ▸ ha⟩

/-! ## Parents -/

variable [DecidableEq α] {seen level : List α} {visit : Visit α}

theorem parent_of_levels (h : Frontier next start n seen level)
    (hvisit : visit ∈ levels next rounds n seen level) :
    ∃ m, visit.distance = m + 1 ∧ IsDistance next start visit.parent m ∧
      visit.node ∈ next visit.parent := by
  induction rounds generalizing n seen level with
  | zero => cases hvisit
  | succ rounds ih =>
    rcases List.mem_append.1 hvisit with hvisit | hvisit
    · obtain ⟨hparent, hnode⟩ := parent_of_nextLevel hvisit
      exact ⟨n, distance_of_nextLevel hvisit, (h.mem_level _).1 hparent, hnode⟩
    · exact ih h.step hvisit

/-- **A node is first reached from one that is a step nearer** to the start. -/
theorem parent_of_search (hvisit : visit ∈ search next rounds start) :
    ∃ m, visit.distance = m + 1 ∧ IsDistance next start visit.parent m ∧
      visit.node ∈ next visit.parent :=
  parent_of_levels frontier_start hvisit

/-- What a search looks up for a node: the visit of the node at its distance, if it has one within
the rounds. -/
theorem find?_search (h : IsDistance next start a n) (hpos : 0 < n) (hrounds : n ≤ rounds) :
    ∃ visit, (search next rounds start).find? (fun visit => visit.node = a) = some visit ∧
      visit.node = a ∧ visit.distance = n ∧ visit ∈ search next rounds start := by
  obtain ⟨found, hfound, hnode, -⟩ := mem_search_iff.2 ⟨h, hpos, hrounds⟩
  cases hfind : (search next rounds start).find? fun visit => visit.node = a with
  | none =>
    have hnot := List.find?_eq_none.1 hfind found hfound
    simp [hnode] at hnot
  | some visit =>
    have hmem := List.mem_of_find?_eq_some hfind
    have hsame : visit.node = a := by simpa using List.find?_some hfind
    obtain ⟨hdistance, -, -⟩ := mem_search_iff.1 ⟨visit, hmem, hsame, rfl⟩
    exact ⟨visit, rfl, hsame, hdistance.unique h, hmem⟩

/-- **Going back from node to node gives a shortest way.** -/
theorem isWay_wayTo (h : IsDistance next start a n) (hrounds : n ≤ rounds) :
    IsWay next start a n (wayTo (search next rounds start) n a) := by
  induction n generalizing a with
  | zero =>
    obtain rfl := IsDistance.start_iff.1 h
    exact isWay_start
  | succ n ih =>
    obtain ⟨visit, hfind, rfl, hdistance, hvisit⟩ := find?_search h (Nat.succ_pos n) hrounds
    obtain ⟨m, hm, hparent, hstep⟩ := parent_of_search hvisit
    obtain rfl : n = m := by omega
    rw [wayTo, hfind]
    exact (ih hparent (by omega)).concat hstep h

/-- **A way is found to just what can be reached**, if there are rounds enough. -/
theorem exists_path_iff (hrounds : ∀ a n, IsDistance next start a n → n ≤ rounds)
    (hne : start ≠ target) :
    (∃ way, path? (search next rounds start) start target = some way) ↔
      ∃ n, IsDistance next start target n := by
  rw [path?, if_neg hne]
  constructor
  · rintro ⟨way, hway⟩
    obtain ⟨visit, hfind, -⟩ := Option.map_eq_some_iff.1 hway
    have hnode : visit.node = target := by simpa using List.find?_some hfind
    obtain ⟨hdistance, -, -⟩ :=
      mem_search_iff.1 ⟨visit, List.mem_of_find?_eq_some hfind, hnode, rfl⟩
    exact ⟨visit.distance, hdistance⟩
  · rintro ⟨n, h⟩
    have hpos : 0 < n := by
      rw [Nat.pos_iff_ne_zero]
      rintro rfl
      exact hne (IsDistance.start_iff.1 h)
    obtain ⟨visit, hfind, -⟩ := find?_search h hpos (hrounds target n h)
    exact ⟨_, by rw [hfind]; rfl⟩

/-- **The way that is found is a shortest one.** -/
theorem path?_spec (hne : start ≠ target)
    (hway : path? (search next rounds start) start target = some way) :
    ∃ n, IsDistance next start target n ∧ IsWay next start target n way := by
  rw [path?, if_neg hne] at hway
  obtain ⟨visit, hfind, rfl⟩ := Option.map_eq_some_iff.1 hway
  have hnode : visit.node = target := by simpa using List.find?_some hfind
  obtain ⟨hdistance, -, hle⟩ :=
    mem_search_iff.1 ⟨visit, List.mem_of_find?_eq_some hfind, hnode, rfl⟩
  exact ⟨visit.distance, hdistance, isWay_wayTo hdistance hle⟩

/-! ## More rounds -/

theorem exists_levels_add (h : Frontier next start n seen level) (rounds more : Nat) :
    ∃ later, levels next (rounds + more) n seen level = levels next rounds n seen level ++ later ∧
      ∀ visit ∈ later, n + rounds < visit.distance := by
  induction rounds generalizing n seen level with
  | zero =>
    refine ⟨levels next more n seen level, by rw [Nat.zero_add]; rfl, ?_⟩
    intro visit hvisit
    exact (isDistance_of_levels h hvisit).2
  | succ rounds ih =>
    obtain ⟨later, hlater, hfar⟩ := ih h.step
    refine ⟨later, ?_, ?_⟩
    · rw [Nat.succ_add, levels, levels, hlater, List.append_assoc]
    · intro visit hvisit
      have hlt := hfar visit hvisit
      omega

/-- **A search with more rounds goes on** behind one with fewer, with what is further away. -/
theorem exists_search_add (next : α → List α) (start : α) (rounds more : Nat) :
    ∃ later, search next (rounds + more) start = search next rounds start ++ later ∧
      ∀ visit ∈ later, rounds < visit.distance := by
  obtain ⟨later, hlater, hfar⟩ := exists_levels_add (@frontier_start _ next start) rounds more
  refine ⟨later, hlater, fun visit hvisit => ?_⟩
  have hlt := hfar visit hvisit
  omega

end FactGraph.BreadthFirst
