/-!
# File access

The few operations on files that the configuration and the command line need. They are left
abstract, so that the same code runs on the files of the machine and on a tree of files that is a
plain value.

A path is a text with slashes, absolute or relative to the working directory.

## Main definitions

* `FileContents`: what is found at a path
* `FileStore`: the operations
* `joinPath`: a path inside of another one
-/

namespace FactGraph

/-- What is found at a path. -/
inductive FileContents where
  /-- Nothing is there. -/
  | absent
  /-- Something is there, but no text can be read from it. -/
  | unreadable
  | text (contents : String)
  deriving DecidableEq, Inhabited

/-- Access to files. An operation that changes something says whether it succeeded. -/
class FileStore (m : Type → Type) where
  /-- The working directory. -/
  workingDirectory : m String
  /-- What is found at a path. -/
  read : String → m FileContents
  /-- Makes a directory and those around it, as far as they are missing. -/
  createDirectories : String → m Bool
  /-- Writes a text to a file, which is made or replaced. -/
  write : (path contents : String) → m Bool
  /-- Moves a file to another path, replacing the file there. -/
  move : (source target : String) → m Bool

/-- The path is absolute. -/
def isAbsolutePath (path : String) : Bool :=
  path.toList.head? = some '/'

/-- A path inside of another one. An absolute path stays as it is. -/
def joinPath (outer path : String) : String :=
  if isAbsolutePath path || outer = "" then path
  else if outer.toList.getLast? = some '/' then outer ++ path
  else outer ++ "/" ++ path

end FactGraph
