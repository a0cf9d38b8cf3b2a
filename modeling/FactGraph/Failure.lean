/-!
# Failures

What can keep a command from doing its work. All of it lies in the files that are read and
written; the fact model itself never makes a run fail.

## Main definitions

* `FailureKind`: the classes of failures, each with its word
* `Failure`: the causes, each with its class and its message
-/

namespace FactGraph

/-- A class of failures. -/
inductive FailureKind where
  | file
  | parse
  | config
  | io
  deriving DecidableEq, Inhabited

/-- The word for a class. -/
def FailureKind.text : FailureKind → String
  | .file => "file error"
  | .parse => "parse error"
  | .config => "config error"
  | .io => "io error"

/-- Why a command could not do its work. -/
inductive Failure where
  | factsUnreadable (path : String)
  | factsInvalid (path : String)
  | configUnreadable (path : String)
  | configInvalid (path : String)
  | separatorEmpty (path : String)
  | directoryNotMade (path : String)
  | temporaryNotWritten (path : String)
  | configNotReplaced (path : String)
  deriving DecidableEq, Inhabited

namespace Failure

/-- The class of a failure. -/
def kind : Failure → FailureKind
  | .factsUnreadable _ => .file
  | .factsInvalid _ => .parse
  | .configUnreadable _ | .configInvalid _ | .separatorEmpty _ | .directoryNotMade _
  | .temporaryNotWritten _ => .config
  | .configNotReplaced _ => .io

/-- What happened. -/
def detail : Failure → String
  | .factsUnreadable path => "failed to read fact model (path: " ++ path ++ ")"
  | .factsInvalid path => "invalid fact model (path: " ++ path ++ ")"
  | .configUnreadable path => "failed to read config file '" ++ path ++ "'"
  | .configInvalid path => "failed to parse config file '" ++ path ++ "'"
  | .separatorEmpty path => "config file '" ++ path ++ "' has an empty namespace separator"
  | .directoryNotMade path => "failed to create codelink directory '" ++ path ++ "'"
  | .temporaryNotWritten path => "failed to write temporary config file '" ++ path ++ "'"
  | .configNotReplaced path => "failed to replace config file '" ++ path ++ "'"

/-- The whole message. -/
def message (failure : Failure) : String :=
  failure.kind.text ++ ": " ++ failure.detail

end Failure

end FactGraph
