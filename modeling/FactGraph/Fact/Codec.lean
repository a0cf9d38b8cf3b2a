import FactGraph.Fact.Basic
import FactGraph.Json.Decoder

/-!
# The fact model in JSON

Every fact is written as a record with all of its fields, in the order of their declaration; only
an empty list of generic arguments is left out. Reading accepts every record whose required
fields are there: the name or path of a fact, and the type of a typed member.

## Main definitions

* `encode` and `decode` in the namespace of each fact
-/

namespace FactGraph

/-! ## Encoding references and members -/

namespace TypeRef

mutual

/-- The arguments are written only if there are any. -/
def encode : TypeRef → Json
  | ⟨name, []⟩ => .obj [("name", .str name)]
  | ⟨name, arg :: args⟩ =>
    .obj [("name", .str name), ("generic_arguments", .arr (arg.encode :: encodeAll args))]

/-- The encoded references of a list. -/
def encodeAll : List TypeRef → List Json
  | [] => []
  | arg :: args => arg.encode :: encodeAll args

end

/-- Reads a reference whose arguments are nested at most `rank` deep. -/
def decodeWithin : Nat → Decoder TypeRef
  | 0, _, _ => none
  | rank + 1, budget, json => do
    let record ← Record.ofJson? ["name", "generic_arguments"] budget json
    return {
      name := ← record.required "name" Decoder.string
      genericArguments := ← record.listOrEmpty "generic_arguments" (decodeWithin rank) }

/-- Reads a reference. Nesting uses up the budget, which therefore bounds the depth as well. -/
def decode : Decoder TypeRef := fun budget json =>
  decodeWithin budget budget json

end TypeRef

namespace ImportFact

/-- The record of an import directive. -/
def encode (fact : ImportFact) : Json :=
  .obj [
    ("kind", .str fact.kind.text),
    ("source_name", .str fact.sourceName),
    ("alias_name", .ofOption .str fact.aliasName)]

/-- Reads an import directive. -/
def decode : Decoder ImportFact := fun budget json => do
  let record ← Record.ofJson? ["kind", "source_name", "alias_name"] budget json
  return {
    kind := ← record.withDefault "kind" (Decoder.word ImportKind.ofText?) .plain
    sourceName := ← record.required "source_name" Decoder.string
    aliasName := ← record.optionOrNone "alias_name" Decoder.string }

end ImportFact

namespace AttributeFact

/-- The record of an attribute. -/
def encode (fact : AttributeFact) : Json :=
  .obj [("type_ref", fact.typeRef.encode), ("target", .ofOption .str fact.target)]

/-- Reads an attribute. -/
def decode : Decoder AttributeFact := fun budget json => do
  let record ← Record.ofJson? ["type_ref", "target"] budget json
  return {
    typeRef := ← record.required "type_ref" TypeRef.decode
    target := ← record.optionOrNone "target" Decoder.string }

end AttributeFact

namespace CallFact

/-- The record of a call site. -/
def encode (fact : CallFact) : Json :=
  .obj [
    ("containing_type", .str fact.containingType),
    ("name", .str fact.name),
    ("parameter_types", .ofList TypeRef.encode fact.parameterTypes)]

/-- Reads a call site. -/
def decode : Decoder CallFact := fun budget json => do
  let record ← Record.ofJson? ["containing_type", "name", "parameter_types"] budget json
  return {
    containingType := ← record.stringOrEmpty "containing_type"
    name := ← record.required "name" Decoder.string
    parameterTypes := ← record.listOrEmpty "parameter_types" TypeRef.decode }

end CallFact

namespace ParameterFact

/-- The record of a parameter. -/
def encode (fact : ParameterFact) : Json :=
  .obj [
    ("name", .str fact.name),
    ("type_ref", fact.typeRef.encode),
    ("modifier", .str fact.modifier),
    ("default_value", .ofOption .str fact.defaultValue),
    ("attributes", .ofList AttributeFact.encode fact.attributes)]

/-- Reads a parameter. -/
def decode : Decoder ParameterFact := fun budget json => do
  let record ←
    Record.ofJson? ["name", "type_ref", "modifier", "default_value", "attributes"] budget json
  return {
    name := ← record.stringOrEmpty "name"
    typeRef := ← record.required "type_ref" TypeRef.decode
    modifier := ← record.stringOrEmpty "modifier"
    defaultValue := ← record.optionOrNone "default_value" Decoder.string
    attributes := ← record.listOrEmpty "attributes" AttributeFact.decode }

end ParameterFact

namespace LocalVariableFact

/-- The record of a local variable. -/
def encode (fact : LocalVariableFact) : Json :=
  .obj [("name", .str fact.name), ("type_ref", fact.typeRef.encode)]

/-- Reads a local variable. -/
def decode : Decoder LocalVariableFact := fun budget json => do
  let record ← Record.ofJson? ["name", "type_ref"] budget json
  return {
    name := ← record.stringOrEmpty "name"
    typeRef := ← record.required "type_ref" TypeRef.decode }

end LocalVariableFact

namespace MethodFact

/-- The record of a method whose local functions are encoded already. -/
def encodeHead (head : MethodHead) (localFunctions : List Json) : Json :=
  .obj [
    ("name", .str head.name),
    ("return_type", .ofOption TypeRef.encode head.returnType),
    ("access_modifier", .str head.accessModifier),
    ("modifier", .str head.modifier),
    ("generic_parameters", .ofStrings head.genericParameters),
    ("parameters", .ofList ParameterFact.encode head.parameters),
    ("local_variables", .ofList LocalVariableFact.encode head.localVariables),
    ("local_functions", .arr localFunctions),
    ("called_methods", .ofList CallFact.encode head.calledMethods),
    ("attributes", .ofList AttributeFact.encode head.attributes),
    ("cyclomatic_complexity", .nat head.cyclomaticComplexity)]

mutual

/-- The record of a method. -/
def encode : MethodFact → Json
  | ⟨head, localFunctions⟩ => encodeHead head (encodeAll localFunctions)

/-- The encoded methods of a list. -/
def encodeAll : List MethodFact → List Json
  | [] => []
  | method :: methods => method.encode :: encodeAll methods

end

/-- The fields of a method, in the order of their declaration. -/
def fieldNames : List String :=
  ["name", "return_type", "access_modifier", "modifier", "generic_parameters", "parameters",
   "local_variables", "local_functions", "called_methods", "attributes", "cyclomatic_complexity"]

/-- Reads a method whose local functions are nested at most `rank` deep. -/
def decodeWithin : Nat → Decoder MethodFact
  | 0, _, _ => none
  | rank + 1, budget, json => do
    let record ← Record.ofJson? fieldNames budget json
    let head : MethodHead := {
      name := ← record.required "name" Decoder.string
      returnType := ← record.optionOrNone "return_type" TypeRef.decode
      accessModifier := ← record.stringOrEmpty "access_modifier"
      modifier := ← record.stringOrEmpty "modifier"
      genericParameters := ← record.listOrEmpty "generic_parameters" Decoder.string
      parameters := ← record.listOrEmpty "parameters" ParameterFact.decode
      localVariables := ← record.listOrEmpty "local_variables" LocalVariableFact.decode
      calledMethods := ← record.listOrEmpty "called_methods" CallFact.decode
      attributes := ← record.listOrEmpty "attributes" AttributeFact.decode
      cyclomaticComplexity := ← record.withDefault "cyclomatic_complexity" Decoder.nat 0 }
    let localFunctions ← record.listOrEmpty "local_functions" (decodeWithin rank)
    return ⟨head, localFunctions⟩

/-- Reads a method. Nesting uses up the budget, which therefore bounds the depth as well. -/
def decode : Decoder MethodFact := fun budget json =>
  decodeWithin budget budget json

end MethodFact

namespace FieldFact

/-- The record of a field. -/
def encode (fact : FieldFact) : Json :=
  .obj [
    ("name", .str fact.name),
    ("type_ref", fact.typeRef.encode),
    ("access_modifier", .str fact.accessModifier),
    ("modifier", .str fact.modifier),
    ("is_event", .bool fact.isEvent),
    ("attributes", .ofList AttributeFact.encode fact.attributes)]

/-- Reads a field. -/
def decode : Decoder FieldFact := fun budget json => do
  let record ← Record.ofJson?
    ["name", "type_ref", "access_modifier", "modifier", "is_event", "attributes"] budget json
  return {
    name := ← record.required "name" Decoder.string
    typeRef := ← record.required "type_ref" TypeRef.decode
    accessModifier := ← record.stringOrEmpty "access_modifier"
    modifier := ← record.stringOrEmpty "modifier"
    isEvent := ← record.withDefault "is_event" Decoder.bool false
    attributes := ← record.listOrEmpty "attributes" AttributeFact.decode }

end FieldFact

namespace PropertyFact

/-- The record of a property. -/
def encode (fact : PropertyFact) : Json :=
  .obj [
    ("name", .str fact.name),
    ("type_ref", fact.typeRef.encode),
    ("access_modifier", .str fact.accessModifier),
    ("modifier", .str fact.modifier),
    ("accessors", .ofList MethodFact.encode fact.accessors),
    ("attributes", .ofList AttributeFact.encode fact.attributes)]

/-- Reads a property. -/
def decode : Decoder PropertyFact := fun budget json => do
  let record ← Record.ofJson?
    ["name", "type_ref", "access_modifier", "modifier", "accessors", "attributes"] budget json
  return {
    name := ← record.required "name" Decoder.string
    typeRef := ← record.required "type_ref" TypeRef.decode
    accessModifier := ← record.stringOrEmpty "access_modifier"
    modifier := ← record.stringOrEmpty "modifier"
    accessors := ← record.listOrEmpty "accessors" MethodFact.decode
    attributes := ← record.listOrEmpty "attributes" AttributeFact.decode }

end PropertyFact

/-! ## Metrics -/

namespace Counts

/-- The counts as the fields of an object. -/
def encode (counts : Counts) : Json :=
  .obj (counts.entries.map fun (name, count) => (name, .nat count))

/-- Reads counts; of a repeated name the last count stands. -/
def decode : Decoder Counts := fun budget json =>
  (Decoder.entries Decoder.nat budget json).map Counts.ofList

end Counts

namespace MetricFact

/-- The record of a metric. -/
def encode (fact : MetricFact) : Json :=
  .obj [("relation", .str fact.relation.text), ("counts", fact.counts.encode)]

/-- Reads a metric. -/
def decode : Decoder MetricFact := fun budget json => do
  let record ← Record.ofJson? ["relation", "counts"] budget json
  return {
    relation := ← record.required "relation" (Decoder.word RelationKind.ofText?)
    counts := ← record.withDefault "counts" Counts.decode .empty }

end MetricFact

/-! ## Types and containers -/

namespace TypeFact

/-- The record of a type declaration. -/
def encode (fact : TypeFact) : Json :=
  .obj [
    ("name", .str fact.name),
    ("kind", .str fact.kind.text),
    ("namespace", .str fact.namespaceName),
    ("containing_type", .ofOption .str fact.containingType),
    ("is_partial", .bool fact.isPartial),
    ("access_modifier", .str fact.accessModifier),
    ("modifier", .str fact.modifier),
    ("generic_parameters", .ofStrings fact.genericParameters),
    ("base_types", .ofList TypeRef.encode fact.baseTypes),
    ("fields", .ofList FieldFact.encode fact.fields),
    ("properties", .ofList PropertyFact.encode fact.properties),
    ("methods", .ofList MethodFact.encode fact.methods),
    ("constructors", .ofList MethodFact.encode fact.constructors),
    ("destructor", .ofOption MethodFact.encode fact.destructor),
    ("attributes", .ofList AttributeFact.encode fact.attributes),
    ("metrics", .ofList MetricFact.encode fact.metrics)]

/-- The fields of a type declaration, in the order of their declaration. -/
def fieldNames : List String :=
  ["name", "kind", "namespace", "containing_type", "is_partial", "access_modifier", "modifier",
   "generic_parameters", "base_types", "fields", "properties", "methods", "constructors",
   "destructor", "attributes", "metrics"]

/-- Reads a type declaration. -/
def decode : Decoder TypeFact := fun budget json => do
  let record ← Record.ofJson? fieldNames budget json
  return {
    name := ← record.required "name" Decoder.string
    kind := ← record.withDefault "kind" (Decoder.word TypeKind.ofText?) .classType
    namespaceName := ← record.stringOrEmpty "namespace"
    containingType := ← record.optionOrNone "containing_type" Decoder.string
    isPartial := ← record.withDefault "is_partial" Decoder.bool false
    accessModifier := ← record.stringOrEmpty "access_modifier"
    modifier := ← record.stringOrEmpty "modifier"
    genericParameters := ← record.listOrEmpty "generic_parameters" Decoder.string
    baseTypes := ← record.listOrEmpty "base_types" TypeRef.decode
    fields := ← record.listOrEmpty "fields" FieldFact.decode
    properties := ← record.listOrEmpty "properties" PropertyFact.decode
    methods := ← record.listOrEmpty "methods" MethodFact.decode
    constructors := ← record.listOrEmpty "constructors" MethodFact.decode
    destructor := ← record.optionOrNone "destructor" MethodFact.decode
    attributes := ← record.listOrEmpty "attributes" AttributeFact.decode
    metrics := ← record.listOrEmpty "metrics" MetricFact.decode }

end TypeFact

namespace UnitFact

/-- The record of a compilation unit. -/
def encode (fact : UnitFact) : Json :=
  .obj [
    ("path", .str fact.path),
    ("imports", .ofList ImportFact.encode fact.imports),
    ("types", .ofList TypeFact.encode fact.types)]

/-- Reads a compilation unit. -/
def decode : Decoder UnitFact := fun budget json => do
  let record ← Record.ofJson? ["path", "imports", "types"] budget json
  return {
    path := ← record.required "path" Decoder.string
    imports := ← record.listOrEmpty "imports" ImportFact.decode
    types := ← record.listOrEmpty "types" TypeFact.decode }

end UnitFact

namespace ProjectFact

/-- The record of a project. -/
def encode (fact : ProjectFact) : Json :=
  .obj [
    ("path", .str fact.path),
    ("name", .str fact.name),
    ("project_references", .ofStrings fact.projectReferences),
    ("compilation_units", .ofList UnitFact.encode fact.units)]

/-- Reads a project. -/
def decode : Decoder ProjectFact := fun budget json => do
  let record ←
    Record.ofJson? ["path", "name", "project_references", "compilation_units"] budget json
  return {
    path := ← record.required "path" Decoder.string
    name := ← record.stringOrEmpty "name"
    projectReferences := ← record.listOrEmpty "project_references" Decoder.string
    units := ← record.listOrEmpty "compilation_units" UnitFact.decode }

end ProjectFact

namespace SolutionFact

/-- The record of a solution. -/
def encode (fact : SolutionFact) : Json :=
  .obj [("path", .str fact.path), ("projects", .ofList ProjectFact.encode fact.projects)]

/-- Reads a solution. -/
def decode : Decoder SolutionFact := fun budget json => do
  let record ← Record.ofJson? ["path", "projects"] budget json
  return {
    path := ← record.required "path" Decoder.string
    projects := ← record.listOrEmpty "projects" ProjectFact.decode }

end SolutionFact

namespace RepositoryFact

/-- The record of a repository. -/
def encode (fact : RepositoryFact) : Json :=
  .obj [("path", .str fact.path), ("solutions", .ofList SolutionFact.encode fact.solutions)]

/-- Reads a repository. -/
def decode : Decoder RepositoryFact := fun budget json => do
  let record ← Record.ofJson? ["path", "solutions"] budget json
  return {
    path := ← record.stringOrEmpty "path"
    solutions := ← record.listOrEmpty "solutions" SolutionFact.decode }

end RepositoryFact

end FactGraph
