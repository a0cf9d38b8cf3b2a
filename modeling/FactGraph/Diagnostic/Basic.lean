/-!
# Diagnostics

Nothing that a fact model holds stops the linker. What it finds wrong on its way it reports as a
diagnostic and goes on; the diagnostics of a run are handed back beside its result, in the order
in which they were reported.

## Main definitions

* `Severity`, `DiagnosticKind`: how bad it is, and what it is
* `DiagnosticContext`: where it was found
* `Diagnostic`, `Diagnostics`: one report, and the reports of a run
-/

namespace FactGraph

/-- How bad a finding is. -/
inductive Severity where
  | info
  | warning
  | error
  deriving DecidableEq, Inhabited

namespace Severity

/-- The word for a severity. -/
def text : Severity → String
  | .info => "info"
  | .warning => "warning"
  | .error => "error"

/-- Every severity. -/
def all : List Severity := [.info, .warning, .error]

/-- The severity that a word names. -/
def ofText? (word : String) : Option Severity :=
  all.find? fun severity => severity.text = word

@[simp] theorem ofText?_text (severity : Severity) : ofText? severity.text = some severity := by
  cases severity <;> rfl

end Severity

/-- What a finding is about. -/
inductive DiagnosticKind where
  /-- Several imports bring in a type of one name. -/
  | ambiguousName
  /-- The search through the projects met several types of one name. -/
  | fallbackAmbiguity
  /-- A namespace that does not divide into segments. -/
  | malformedNamespace
  /-- A declaration that lacks something and was skipped. -/
  | malformedFact
  /-- A reference to a project that is not in the repository. -/
  | missingProjectReference
  /-- A call that no method of its owner matches. -/
  | unresolvedCall
  deriving DecidableEq, Inhabited

namespace DiagnosticKind

/-- The word for a kind. -/
def text : DiagnosticKind → String
  | .ambiguousName => "ambiguous_name"
  | .fallbackAmbiguity => "fallback_ambiguity"
  | .malformedNamespace => "malformed_namespace"
  | .malformedFact => "malformed_fact"
  | .missingProjectReference => "missing_project_reference"
  | .unresolvedCall => "unresolved_call"

/-- Every kind. -/
def all : List DiagnosticKind :=
  [.ambiguousName, .fallbackAmbiguity, .malformedNamespace, .malformedFact,
   .missingProjectReference, .unresolvedCall]

/-- The kind that a word names. -/
def ofText? (word : String) : Option DiagnosticKind :=
  all.find? fun kind => kind.text = word

@[simp] theorem ofText?_text (kind : DiagnosticKind) : ofText? kind.text = some kind := by
  cases kind <;> rfl

end DiagnosticKind

/-- Where a finding was made. -/
structure DiagnosticContext where
  projectPath : Option String := none
  filePath : Option String := none
  /-- The name that the finding is about. -/
  name : Option String := none
  /-- The full names that an ambiguous name may stand for, in the order of discovery. -/
  candidates : List String := []
  deriving DecidableEq, Inhabited

namespace DiagnosticContext

/-- Somewhere in a project. -/
def inProject (projectPath : String) : DiagnosticContext :=
  { projectPath := some projectPath }

/-- Somewhere in a file of a project. -/
def inFile (projectPath filePath : String) : DiagnosticContext :=
  { projectPath := some projectPath, filePath := some filePath }

/-- Says which name the finding is about. -/
def withName (context : DiagnosticContext) (name : String) : DiagnosticContext :=
  { context with name := some name }

/-- Says what the name may stand for. -/
def withCandidates (context : DiagnosticContext) (candidates : List String) :
    DiagnosticContext :=
  { context with candidates }

end DiagnosticContext

/-- One finding. -/
structure Diagnostic where
  severity : Severity
  kind : DiagnosticKind
  message : String
  context : DiagnosticContext
  deriving DecidableEq, Inhabited

/-- The findings of a run, in the order in which they were reported. -/
structure Diagnostics where
  entries : List Diagnostic := []
  deriving DecidableEq, Inhabited

namespace Diagnostics

/-- Reports a finding. -/
def push (diagnostics : Diagnostics) (diagnostic : Diagnostic) : Diagnostics :=
  ⟨diagnostics.entries ++ [diagnostic]⟩

/-- Reports the findings of another run behind those of this one. -/
def append (diagnostics other : Diagnostics) : Diagnostics :=
  ⟨diagnostics.entries ++ other.entries⟩

instance : Append Diagnostics := ⟨append⟩

/-- The number of findings. -/
def size (diagnostics : Diagnostics) : Nat :=
  diagnostics.entries.length

/-- There are no findings. -/
def isEmpty (diagnostics : Diagnostics) : Bool :=
  diagnostics.entries.isEmpty

/-- The number of findings of a severity. -/
def count (diagnostics : Diagnostics) (severity : Severity) : Nat :=
  diagnostics.entries.countP fun diagnostic => diagnostic.severity = severity

/-- The findings of a kind. -/
def ofKind (diagnostics : Diagnostics) (kind : DiagnosticKind) : List Diagnostic :=
  diagnostics.entries.filter fun diagnostic => diagnostic.kind = kind

@[simp] theorem entries_push (diagnostics : Diagnostics) (diagnostic : Diagnostic) :
    (diagnostics.push diagnostic).entries = diagnostics.entries ++ [diagnostic] := rfl

@[simp] theorem entries_append (diagnostics other : Diagnostics) :
    (diagnostics ++ other).entries = diagnostics.entries ++ other.entries := rfl

end Diagnostics

end FactGraph
