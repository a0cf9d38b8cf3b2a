import FactGraph.Json.Printer
import FactGraph.Metrics.Complexity
import FactGraph.Model.Fingerprint
import FactGraph.Run

/-!
# Reports

What the command line prints about a run: either the whole result as JSON, or a summary with the
size of the model, its fingerprint, the complexity of every project with methods, and the number
of findings, which may be listed behind it.

## Main definitions

* `LinkOutput.summary`: the lines of the summary
* `LinkOutput.findings`: one line for each finding
-/

namespace FactGraph

/-- Lines of text, each ended by a line feed. -/
def unlines (lines : List String) : String :=
  String.join (lines.map (· ++ "\n"))

namespace LinkOutput

variable (output : LinkOutput)

/-- The lines on the size of the model. -/
def sizeLines : List String :=
  let model := output.model
  [ "  Projects:        " ++ toString model.projects.size,
    "  Files:           " ++ toString model.files.size,
    "  Types:           " ++ toString model.types.size,
    "  Methods:         " ++ toString model.methods.size,
    "  Created classes: " ++ toString model.createdClasses.length,
    "  Fingerprint:     " ++ model.fingerprint ]

/-- The line on the complexity of a project. -/
def complexityLine (name : String) (summary : ComplexitySummary) : String :=
  "  " ++ name ++ ": complexity max " ++ toString summary.max ++ " min " ++ toString summary.min ++
    " sum " ++ toString summary.sum ++ " avg " ++ toString summary.avg

/-- The lines on the complexity of the projects that have methods. -/
def complexityLines : List String :=
  output.model.projects.toList.filterMap fun project =>
    (output.model.projectComplexity? project.id).map (complexityLine project.name)

/-- The lines on the number of findings, behind an empty one. -/
def countLines : List String :=
  let count (severity : Severity) : String := toString (output.diagnostics.count severity)
  [ "",
    "  Diagnostics: " ++ count .error ++ " errors, " ++ count .warning ++ " warnings, " ++
      count .info ++ " info" ]

/-- **The summary** of a run on the facts of a file. -/
def summary (facts : String) : List String :=
  ["Linked " ++ facts] ++ output.sizeLines ++ output.complexityLines ++ output.countLines

/-- **The findings** of a run, one on a line. -/
def findings : List String :=
  output.diagnostics.entries.map fun diagnostic =>
    "    [" ++ diagnostic.severity.text ++ "] " ++ diagnostic.kind.text ++ ": " ++
      diagnostic.message

end LinkOutput

end FactGraph
