import FactGraph.Files.Basic
import FactGraph.Text.Search

/-!
# Trees of files

A directory with everything in it, as a value. A file or directory is named by its place, the
names that lead to it from the root; a directory is there if it was made or if something is in it.
What lies outside of the root is taken not to be there.

A path is followed name by name, and every name but the last has to lead to a directory, so
`a/../b` leads nowhere if there is no `a`.

## Main definitions

* `FileTree`: the files and directories below a root
* `FileTree.walk`: the place that a path leads to
* `FileTree.read`, `FileTree.createDirectories?`, `FileTree.write?`, `FileTree.move?`: the
  operations
* an instance of `FileStore` for computations on a tree
-/

namespace FactGraph

/-- The files and directories below a root, which is the working directory. -/
structure FileTree where
  /-- The absolute path of the root. -/
  root : String
  files : List (List String × String) := []
  directories : List (List String) := []
  deriving Inhabited

namespace FileTree

variable (tree : FileTree)

/-! ## Contents -/

/-- The text of a file. -/
def file? (place : List String) : Option String :=
  tree.files.lookup place

/-- The places of all files and of the directories that were made. -/
def places : List (List String) :=
  tree.files.map Prod.fst ++ tree.directories

/-- Something is inside of the place. -/
def holds (place : List String) : Bool :=
  tree.places.any fun other => place.isPrefixOf other && decide (place.length < other.length)

/-- The place is a directory. -/
def isDirectory (place : List String) : Bool :=
  place.isEmpty || tree.directories.contains place || tree.holds place

/-- The names of what is directly inside of a directory, each once. -/
def namesIn (place : List String) : List String :=
  tree.places.foldl
    (fun names other =>
      match place.isPrefixOf? other with
      | some (name :: _) => if name ∈ names then names else names ++ [name]
      | _ => names) []

/-! ## Paths -/

/-- The names that a path is made of. There may be empty ones among them, which stay where they
are, as `.` does. -/
def components (path : List Char) : List String :=
  (Text.splitAll ['/'] path).map String.ofList

/-- The components of a path, if it can lead inside of the root. -/
def componentsBelow? (path : String) : Option (List String) :=
  if path = tree.root then some []
  else
    match (tree.root ++ "/").toList.isPrefixOf? path.toList with
    | some rest => some (components rest)
    | none => if isAbsolutePath path then none else some (components path.toList)

/-- The place that the components of a path lead to. The place itself need not be there, but it
has to be in a directory. There is nothing above the root. -/
def walk (place : List String) : List String → Option (List String)
  | [] => some place
  | component :: components =>
    if tree.isDirectory place then
      if component = "" || component = "." then walk place components
      else if component = ".." then
        if place.isEmpty then none else walk place.dropLast components
      else walk (place ++ [component]) components
    else none

/-- The place that a path leads to. -/
def locate? (path : String) : Option (List String) :=
  (tree.componentsBelow? path).bind (tree.walk [])

/-! ## Operations -/

/-- What is found at a path. -/
def read (path : String) : FileContents :=
  match tree.locate? path with
  | none => .absent
  | some place =>
    match tree.file? place with
    | some text => .text text
    | none => if tree.isDirectory place then .unreadable else .absent

/-- The tree with a directory at a place, unless a file is there. -/
def addDirectory? (place : List String) : Option FileTree :=
  if (tree.file? place).isSome then none
  else if tree.isDirectory place then some tree
  else some { tree with directories := tree.directories ++ [place] }

/-- The tree with a directory at every place that the components of a path pass. -/
def addDirectories? (tree : FileTree) (place : List String) : List String → Option FileTree
  | [] => some tree
  | component :: components =>
    if component = "" || component = "." then addDirectories? tree place components
    else if component = ".." then
      if place.isEmpty then none else addDirectories? tree place.dropLast components
    else
      match tree.addDirectory? (place ++ [component]) with
      | some tree => addDirectories? tree (place ++ [component]) components
      | none => none

/-- The tree with a directory at a path, and those on the way to it, unless a file is in the
way. -/
def createDirectories? (path : String) : Option FileTree :=
  (tree.componentsBelow? path).bind (tree.addDirectories? [])

/-- The files with a text at a place, which is added at the end or replaced. -/
def putFile (place : List String) (contents : String) :
    List (List String × String) → List (List String × String)
  | [] => [(place, contents)]
  | file :: files =>
    if file.1 = place then (place, contents) :: files else file :: putFile place contents files

/-- The tree with a text written to a file. -/
def write? (path contents : String) : Option FileTree := do
  let place ← tree.locate? path
  if tree.isDirectory place then none
  else some { tree with files := putFile place contents tree.files }

/-- The tree with a file moved, replacing the file at its new place. -/
def move? (source target : String) : Option FileTree := do
  let oldPlace ← tree.locate? source
  let newPlace ← tree.locate? target
  let contents ← tree.file? oldPlace
  if tree.isDirectory newPlace then none
  else
    let others := tree.files.filter fun file => file.1 ≠ oldPlace
    some { tree with files := putFile newPlace contents others }

end FileTree

/-- Changes the tree if that is possible, and says whether it was. -/
def attempt (change : FileTree → Option FileTree) : StateM FileTree Bool := do
  match change (← get) with
  | some tree =>
    set tree
    return true
  | none => return false

instance : FileStore (StateM FileTree) where
  workingDirectory := return (← get).root
  read path := return (← get).read path
  createDirectories path := attempt (·.createDirectories? path)
  write path contents := attempt (·.write? path contents)
  move source target := attempt (·.move? source target)

end FactGraph
