/-!
# Arguments of the command line

There are two commands. `init [PATH]` writes a default configuration; `link FACTS` links a fact
model and reports the result. Options come in any order, before and behind the arguments. A short
option stands behind one dash, and several may share it; a long option stands behind two. The value
of `--path` follows as the next argument, behind an equals sign, or, for `-p`, directly. Behind a
lone `--` there are arguments only. No option may be given twice.

## Main definitions

* `Command`, `LinkOptions`: what is asked for
* `Invocation.parse?`: the command of a list of arguments
-/

namespace FactGraph

/-- What to link, and what to report. -/
structure LinkOptions where
  /-- The file with the fact model. -/
  facts : String
  /-- The project whose configuration is used. -/
  path : Option String := none
  /-- Print the model instead of a summary. -/
  json : Bool := false
  /-- Print every finding behind the summary. -/
  diagnostics : Bool := false
  /-- Log what is done. -/
  verbose : Bool := false
  deriving DecidableEq, Inhabited

/-- What a command line asks for. -/
inductive Command where
  | init (path : Option String)
  | link (options : LinkOptions)
  deriving DecidableEq, Inhabited

/-- A command, or a request for help. -/
inductive Invocation where
  | run (command : Command)
  | help
  deriving DecidableEq, Inhabited

namespace Arguments

/-! ## Items -/

/-- An argument of a command, as it is spelled. -/
inductive Item where
  /-- An argument that is no option. -/
  | positional (value : String)
  /-- A long option, with the value behind an equals sign. -/
  | long (name : String) (value : Option String)
  /-- Short options that share a dash. -/
  | cluster (letters : List Char)
  deriving DecidableEq

/-- How an argument is spelled. A lone dash is no option. -/
def Item.ofString (argument : String) : Item :=
  match argument.toList with
  | '-' :: '-' :: name =>
    match name.dropWhile (· != '=') with
    | [] => .long (String.ofList name) none
    | _ :: value => .long (String.ofList (name.takeWhile (· != '='))) (some (String.ofList value))
  | '-' :: letter :: letters => .cluster (letter :: letters)
  | _ => .positional argument

/-- The argument may be the value of the option before it. -/
def isValue (argument : String) : Bool :=
  match Item.ofString argument with
  | .positional _ => true
  | _ => false

/-! ## Options -/

/-- The options and arguments that have been read. -/
structure Given where
  positional : Option String := none
  path : Option String := none
  json : Bool := false
  diagnostics : Bool := false
  verbose : Bool := false

/-- How reading goes on after an argument. -/
inductive Step where
  | next (given : Given)
  /-- The next argument is the value of the path option. -/
  | wantsPath (given : Given)
  | help
  | refuse

namespace Given

/-- Takes the path of the fact model. It is not empty, and there is only one. -/
def takeFacts (given : Given) (value : String) : Step :=
  if given.positional.isSome || value = "" then .refuse
  else .next { given with positional := some value }

/-- Takes the value of the path option. -/
def takePath (given : Given) (value : String) : Step :=
  if given.path.isSome then .refuse else .next { given with path := some value }

/-- Asks for the value of the path option. -/
def askPath (given : Given) : Step :=
  if given.path.isSome then .refuse else .wantsPath given

/-- Takes an option without a value, by its letter. -/
def takeSwitch (given : Given) : Char → Step
  | 'j' => if given.json then .refuse else .next { given with json := true }
  | 'd' => if given.diagnostics then .refuse else .next { given with diagnostics := true }
  | 'v' => if given.verbose then .refuse else .next { given with verbose := true }
  | 'h' => .help
  | _ => .refuse

/-- Takes a long option. Only the path option has a value. -/
def takeLong (given : Given) (name : String) (value : Option String) : Step :=
  match name, value with
  | "path", some value => given.takePath value
  | "path", none => given.askPath
  | "json", none => given.takeSwitch 'j'
  | "diagnostics", none => given.takeSwitch 'd'
  | "verbose", none => given.takeSwitch 'v'
  | "help", none => .help
  | _, _ => .refuse

/-- Takes the short options behind a dash. What follows the letter of the path option is its
value, with or without an equals sign between them. -/
def takeCluster : List Char → Given → Step
  | [], given => .next given
  | ['p'], given => given.askPath
  | 'p' :: '=' :: value, given => given.takePath (String.ofList value)
  | 'p' :: value, given => given.takePath (String.ofList value)
  | letter :: letters, given =>
    match given.takeSwitch letter with
    | .next given => takeCluster letters given
    | step => step

/-- Takes an argument of the link command. -/
def take (given : Given) (argument : String) : Step :=
  match Item.ofString argument with
  | .positional value => given.takeFacts value
  | .long name value => given.takeLong name value
  | .cluster letters => takeCluster letters given

end Given

/-! ## Commands -/

/-- Takes the arguments behind a lone `--`, none of which is an option. -/
def readPlain (given : Given) : List String → Step
  | [] => .next given
  | argument :: arguments =>
    match given.takeFacts argument with
    | .next given => readPlain given arguments
    | step => step

/-- Takes the arguments of the link command. -/
def readLink (given : Given) : List String → Step
  | [] => .next given
  | argument :: arguments =>
    if argument = "--" then readPlain given arguments
    else
      match given.take argument with
      | .next given => readLink given arguments
      | .wantsPath given =>
        match arguments with
        | value :: arguments =>
          if isValue value then readLink { given with path := some value } arguments else .refuse
        | [] => .refuse
      | step => step

/-- The link command of a list of arguments. -/
def link? (arguments : List String) : Option Invocation :=
  match readLink {} arguments with
  | .next given =>
    given.positional.map fun facts =>
      .run (.link {
        facts, path := given.path, json := given.json, diagnostics := given.diagnostics
        verbose := given.verbose })
  | .help => some .help
  | _ => none

/-- The init command of a list of arguments, where `path` has been read. -/
def readInit (path : Option String) : List String → Option Invocation
  | [] => some (.run (.init path))
  | argument :: arguments =>
    if argument = "--" then
      match path, arguments with
      | _, [] => some (.run (.init path))
      | none, [value] => some (.run (.init (some value)))
      | _, _ => none
    else
      match Item.ofString argument with
      | .positional value => if path.isSome then none else readInit (some value) arguments
      | .long "help" none => some .help
      | .cluster ('h' :: _) => some .help
      | _ => none

end Arguments

/-- **The command of a list of arguments**, if they follow the rules. -/
def Invocation.parse? : List String → Option Invocation
  | "init" :: arguments => Arguments.readInit none arguments
  | "link" :: arguments => Arguments.link? arguments
  | argument :: arguments =>
    match Arguments.Item.ofString argument with
    | .long "help" none => some .help
    | .cluster ('h' :: _) => some .help
    | .positional "help" =>
      match arguments with
      | [] | ["init"] | ["link"] | ["help"] => some .help
      | _ => none
    | _ => none
  | [] => none

end FactGraph
