import FactGraph.Diagnostic.Basic
import FactGraph.Json.Decoder

/-!
# Diagnostics in JSON

The parts of a context that are absent, and an empty list of candidates, are left out.
-/

namespace FactGraph

namespace DiagnosticContext

/-- A field that is written only if its value is present. -/
def encodeIfSome (name : String) : Option String → List (String × Json)
  | none => []
  | some value => [(name, .str value)]

/-- The candidates are written only if there are any. -/
def encodeCandidates : List String → List (String × Json)
  | [] => []
  | candidates => [("candidates", .ofStrings candidates)]

/-- The record of a context. -/
def encode (context : DiagnosticContext) : Json :=
  .obj (encodeIfSome "project_path" context.projectPath ++
    encodeIfSome "file_path" context.filePath ++
    encodeIfSome "name" context.name ++
    encodeCandidates context.candidates)

/-- Reads a context. -/
def decode : Decoder DiagnosticContext := fun budget json => do
  let record ← Record.ofJson? ["project_path", "file_path", "name", "candidates"] budget json
  return {
    projectPath := ← record.optional "project_path" Decoder.string
    filePath := ← record.optional "file_path" Decoder.string
    name := ← record.optional "name" Decoder.string
    candidates := ← record.listOrEmpty "candidates" Decoder.string }

end DiagnosticContext

namespace Diagnostic

/-- The record of a finding. -/
def encode (diagnostic : Diagnostic) : Json :=
  .obj [
    ("severity", .str diagnostic.severity.text),
    ("kind", .str diagnostic.kind.text),
    ("message", .str diagnostic.message),
    ("context", diagnostic.context.encode)]

/-- Reads a finding. -/
def decode : Decoder Diagnostic := fun budget json => do
  let record ← Record.ofJson? ["severity", "kind", "message", "context"] budget json
  return {
    severity := ← record.required "severity" (Decoder.word Severity.ofText?)
    kind := ← record.required "kind" (Decoder.word DiagnosticKind.ofText?)
    message := ← record.required "message" Decoder.string
    context := ← record.required "context" DiagnosticContext.decode }

end Diagnostic

namespace Diagnostics

/-- The record of the findings of a run. -/
def encode (diagnostics : Diagnostics) : Json :=
  .obj [("entries", .ofList Diagnostic.encode diagnostics.entries)]

/-- Reads the findings of a run. -/
def decode : Decoder Diagnostics := fun budget json => do
  let record ← Record.ofJson? ["entries"] budget json
  return { entries := ← record.required "entries" (Decoder.list Diagnostic.decode) }

end Diagnostics

end FactGraph
