import FactGraph.Config.Codec
import FactGraph.Failure
import FactGraph.Files.Basic
import FactGraph.Json.Printer

/-!
# The stored configuration

The configuration of a project is kept in a file in a hidden directory below the root of the
project. If there is no such file, the default configuration is in effect. It is written to a
temporary file first, which then takes the place of the old one.

## Main definitions

* `configPath root`: the file
* `loadConfig`, `saveConfig`: reading and writing it
-/

namespace FactGraph

/-- The hidden directory of a project. -/
def configDirectory (root : String) : String :=
  joinPath root ".codelink"

/-- The file with the configuration of a project. -/
def configPath (root : String) : String :=
  joinPath (configDirectory root) "config.json"

/-- The file that a new configuration is written to first. -/
def temporaryConfigPath (root : String) : String :=
  joinPath (configDirectory root) "config.tmp"

namespace LinkConfig

/-- The configuration of a text. A run needs a separator, so an empty one is refused. -/
def ofText (path text : String) : Except Failure LinkConfig :=
  match Decoder.decodeText decode text with
  | none => .error (.configInvalid path)
  | some config =>
    if config.separator = "" then .error (.separatorEmpty path) else .ok config

/-- The configuration of what is found at the path of its file. -/
def ofContents (path : String) : FileContents → Except Failure LinkConfig
  | .absent => .ok {}
  | .unreadable => .error (.configUnreadable path)
  | .text text => ofText path text

end LinkConfig

variable {m : Type → Type} [Monad m] [FileStore m]

/-- **The configuration of a project.** -/
def loadConfig (root : String) : m (Except Failure LinkConfig) := do
  let path := configPath root
  return LinkConfig.ofContents path (← FileStore.read path)

/-- **Stores the configuration of a project.** -/
def saveConfig (root : String) (config : LinkConfig) : m (Except Failure Unit) := do
  if ← FileStore.createDirectories (configDirectory root) then
    if ← FileStore.write (temporaryConfigPath root) config.encode.pretty then
      if ← FileStore.move (temporaryConfigPath root) (configPath root) then return .ok ()
      else return .error (.configNotReplaced (configPath root))
    else return .error (.temporaryNotWritten (temporaryConfigPath root))
  else return .error (.directoryNotMade (configDirectory root))

end FactGraph
