import FactGraph.CommandLine.Arguments
import FactGraph.CommandLine.Report
import FactGraph.Config.Store
import FactGraph.Fact.Store

/-!
# Carrying out commands

## Main definitions

* `Command.execute`: does what a command asks for, and gives what is to be printed
* `execute`: the same for a whole command line
-/

namespace FactGraph

variable {m : Type → Type} [Monad m] [FileStore m]

/-- The root of the project that an option names; without it, the working directory. -/
def projectRoot (path : Option String) : m String := do
  let directory ← FileStore.workingDirectory
  match path with
  | some path => return joinPath directory path
  | none => return directory

/-- What a run on the facts of a file prints. -/
def LinkOptions.report (options : LinkOptions) (output : LinkOutput) : String :=
  if options.json then unlines [output.encode.pretty]
  else
    unlines (output.summary options.facts ++
      if options.diagnostics then output.findings else [])

/-- Links the fact model of a file. The configuration is read before the facts. -/
def LinkOptions.execute (options : LinkOptions) : m (Except Failure String) := do
  let root ← projectRoot options.path
  match ← loadConfig root with
  | .error failure => return .error failure
  | .ok config =>
    match ← loadFacts options.facts with
    | .error failure => return .error failure
    | .ok repo =>
      match config.run? repo with
      | some output => return .ok (options.report output)
      | none => return .error (.separatorEmpty (configPath root))

/-- **Carries a command out**, and gives what is to be printed. -/
def Command.execute : Command → m (Except Failure String)
  | .init path => do
    let root ← projectRoot path
    match ← saveConfig root {} with
    | .ok () => return .ok (unlines ["Wrote default configuration to " ++ configPath root])
    | .error failure => return .error failure
  | .link options => options.execute

/-- The text printed for a request for help. -/
def helpText : String :=
  unlines [
    "Resolve and link references in a fact model",
    "",
    "Usage: codelink <COMMAND>",
    "",
    "Commands:",
    "  init [PATH]   Write a default configuration",
    "  link <FACTS>  Link a fact model and report the result",
    "",
    "Options of link:",
    "  -p, --path <PATH>  Project path holding the configuration (default: current directory)",
    "  -j, --json         Print the linked model as JSON",
    "  -d, --diagnostics  Print every diagnostic",
    "  -v, --verbose      Log progress to stderr"]

/-- How a command line ends. -/
inductive Outcome where
  /-- All went well; the text is to be printed. -/
  | printed (text : String)
  | failed (failure : Failure)
  /-- The arguments do not follow the rules. -/
  | misused
  deriving DecidableEq, Inhabited

/-- The exit code of an outcome. -/
def Outcome.exitCode : Outcome → Nat
  | .printed _ => 0
  | .failed _ => 1
  | .misused => 2

/-- **Carries a command line out.** -/
def execute (arguments : List String) : m Outcome :=
  match Invocation.parse? arguments with
  | none => return .misused
  | some .help => return .printed helpText
  | some (.run command) => do
    match ← command.execute with
    | .ok text => return .printed text
    | .error failure => return .failed failure

end FactGraph
