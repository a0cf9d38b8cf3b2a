/-!
# Breadth-first search

The project graph, the call graph and the inheritance graph are all searched in the same way:
from a start, level by level, the successors of a node in their given order, each node once. A
graph is given by the successors of a node; nothing is assumed of it, cycles and repeated
successors included.

A level is computed from the one before it, so the number of rounds bounds the distance from the
start. A search with as many rounds as there are nodes leaves nothing out, since a level that is
not empty holds a node that no other level holds.

## Main definitions

* `Visit`: a node with its distance from the start and the node it was first reached from
* `search next rounds start`: the visits, in the order of discovery, without the start
* `path?`: a shortest way to a node, read off the visits
-/

namespace FactGraph.BreadthFirst

variable {α : Type} [DecidableEq α]

/-- A node that a search has reached. -/
structure Visit (α : Type) where
  node : α
  /-- The number of steps from the start. -/
  distance : Nat
  /-- The node that it was first reached from. -/
  parent : α

/-- The visits of the nodes in a list that have not been seen, each once, in order. -/
def discover (distance : Nat) (parent : α) (seen : List α) : List α → List (Visit α)
  | [] => []
  | node :: nodes =>
    if node ∈ seen then discover distance parent seen nodes
    else ⟨node, distance, parent⟩ :: discover distance parent (node :: seen) nodes

/-- The visits of the next level: the unseen successors of the nodes of a level. -/
def nextLevel (next : α → List α) (distance : Nat) (seen : List α) : List α → List (Visit α)
  | [] => []
  | node :: nodes =>
    let found := discover distance node seen (next node)
    found ++ nextLevel next distance (found.map Visit.node ++ seen) nodes

/-- The visits of the next levels, as many as there are rounds. -/
def levels (next : α → List α) : Nat → Nat → List α → List α → List (Visit α)
  | 0, _, _, _ => []
  | rounds + 1, distance, seen, level =>
    let found := nextLevel next (distance + 1) seen level
    let nodes := found.map Visit.node
    found ++ levels next rounds (distance + 1) (nodes ++ seen) nodes

/-- **The search**: every node within the given number of steps from the start, the start itself
left out, in the order of discovery. -/
def search (next : α → List α) (rounds : Nat) (start : α) : List (Visit α) :=
  levels next rounds 0 [start] [start]

/-- The way to a node at a distance from the start, by going back from node to parent. -/
def wayTo (visits : List (Visit α)) : Nat → α → List α
  | 0, node => [node]
  | distance + 1, node =>
    match visits.find? fun visit => visit.node = node with
    | some visit => wayTo visits distance visit.parent ++ [node]
    | none => [node]

/-- A shortest way from the start to a node, both included, if the search has reached it. -/
def path? (visits : List (Visit α)) (start target : α) : Option (List α) :=
  if start = target then some [start]
  else
    (visits.find? fun visit => visit.node = target).map fun visit =>
      wayTo visits visit.distance target

end FactGraph.BreadthFirst
