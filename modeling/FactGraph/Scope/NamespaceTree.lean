import FactGraph.Name.Separator
import FactGraph.Text.Blank

/-!
# The namespace tree

The namespaces of a repository and how they contain each other. The root is the global namespace,
which has the empty name; inserting `A.B.C` adds `A`, `A.B` and `A.B.C` as far as they are
missing, each below the one before it. A name with an empty segment is malformed: it is kept as
one segment directly below the root.

A namespace is named by its key, the position of its entry. A parent is always inserted before
its children, so it has the smaller key.

## Main definitions

* `NamespaceEntry`: last segment, full name, parent and children of a namespace
* `NamespaceTree.insert`: adds a namespace and what it is contained in
* `NamespaceTree.find?`: the key of a full name
* `NamespaceTree.chain`: the full names from a namespace up to the global one
-/

namespace FactGraph

/-- A namespace in the tree. -/
structure NamespaceEntry where
  /-- The last segment of the full name. -/
  name : String
  fullName : String
  /-- The key of the namespace around it; the root has none. -/
  parent : Option Nat
  /-- The keys of the namespaces in it, in the order of insertion. -/
  children : List Nat := []
  deriving Inhabited

/-- The namespaces of a repository. -/
structure NamespaceTree where
  separator : Separator
  /-- The namespaces in the order of insertion; a key is a position in it. -/
  entries : Array NamespaceEntry

namespace NamespaceTree

/-- The tree with nothing but the global namespace. -/
def empty (separator : Separator) : NamespaceTree :=
  { separator, entries := #[{ name := "", fullName := "", parent := none }] }

/-- The key of the global namespace. -/
def rootKey : Nat := 0

/-- The number of namespaces, the global one included. -/
def size (tree : NamespaceTree) : Nat :=
  tree.entries.size

/-- There is no namespace but the global one. -/
def isEmpty (tree : NamespaceTree) : Bool :=
  tree.size ≤ 1

/-- Every segment of the name holds more than blanks; the empty name is well-formed. -/
def isWellFormed (tree : NamespaceTree) (name : String) : Bool :=
  name = "" || (tree.separator.segments name).all fun segment => !Text.isBlank segment

/-! ## Insertion -/

/-- The key of the namespace of that full name. -/
def keyOf? (tree : NamespaceTree) (fullName : String) : Option Nat :=
  tree.entries.findIdx? fun entry => entry.fullName = fullName

/-- The tree with a new namespace below a parent. Its key is the size of the old tree. -/
def attach (tree : NamespaceTree) (parent : Nat) (name fullName : String) : NamespaceTree :=
  { tree with
    entries :=
      (tree.entries.modify parent fun entry =>
        { entry with children := entry.children ++ [tree.size] }).push
          { name, fullName, parent := some parent } }

/-- The tree with a namespace below a parent, and its key. Nothing is added if the full name is
in the tree already, wherever that is. -/
def ensure (tree : NamespaceTree) (parent : Nat) (name fullName : String) :
    NamespaceTree × Nat :=
  match tree.keyOf? fullName with
  | some key => (tree, key)
  | none => (tree.attach parent name fullName, tree.size)

/-- Adds one namespace for each of the segments, one below the other, starting below `key`, the
namespace with the full name `fullName`. -/
def insertSegments (tree : NamespaceTree) (key : Nat) (fullName : String) :
    List String → NamespaceTree × Nat
  | [] => (tree, key)
  | segment :: segments =>
    let inner := tree.separator.join fullName segment
    let (tree', key') := tree.ensure key segment inner
    tree'.insertSegments key' inner segments

/-- **Insertion** of a name, without the blanks at its ends: the tree with the namespace in it,
its key, and whether the name is well-formed. -/
def insert (tree : NamespaceTree) (name : String) : NamespaceTree × Nat × Bool :=
  let fullName := Text.trim name
  match tree.keyOf? fullName with
  | some key => (tree, key, tree.isWellFormed fullName)
  | none =>
    if tree.isWellFormed fullName then
      let grown := tree.insertSegments rootKey "" (tree.separator.segments fullName)
      (grown.1, grown.2, true)
    else
      -- Taken apart, the name would lose its empty segments.
      (tree.attach rootKey fullName fullName, tree.size, false)

/-! ## Look-up -/

/-- The key of a name, without the blanks at its ends. -/
def find? (tree : NamespaceTree) (name : String) : Option Nat :=
  tree.keyOf? (Text.trim name)

/-- The entry of a name, without the blanks at its ends. -/
def entry? (tree : NamespaceTree) (name : String) : Option NamespaceEntry :=
  (tree.find? name).bind fun key => tree.entries[key]?

/-- The full names from a key upwards, at most `steps` of them. -/
def upwards (tree : NamespaceTree) : Nat → Nat → List String
  | 0, _ => []
  | steps + 1, key =>
    match tree.entries[key]? with
    | none => []
    | some entry =>
      match entry.parent with
      | none => [entry.fullName]
      | some parent => entry.fullName :: tree.upwards steps parent

/-- **The chain of a name**: the full names from the namespace up to the global one, innermost
first. A name that is not in the tree is taken apart at its separators. -/
def chain (tree : NamespaceTree) (name : String) : List String :=
  match tree.find? name with
  | some key => tree.upwards tree.size key
  | none => (tree.separator.outward (Text.trim name)).takeWhile (· ≠ "") ++ [""]

end NamespaceTree

end FactGraph
