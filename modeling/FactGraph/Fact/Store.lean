import FactGraph.Fact.Codec
import FactGraph.Failure
import FactGraph.Files.Basic

/-!
# Stored fact models

## Main definitions

* `loadFacts`: the fact model in a file
-/

namespace FactGraph

/-- The fact model of what is found at a path. -/
def RepositoryFact.ofContents (path : String) : FileContents → Except Failure RepositoryFact
  | .text text =>
    match Decoder.decodeText decode text with
    | some repo => .ok repo
    | none => .error (.factsInvalid path)
  | _ => .error (.factsUnreadable path)

/-- **The fact model in a file.** -/
def loadFacts {m : Type → Type} [Monad m] [FileStore m] (path : String) :
    m (Except Failure RepositoryFact) := do
  return RepositoryFact.ofContents path (← FileStore.read path)

end FactGraph
