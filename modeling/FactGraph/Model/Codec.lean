import FactGraph.Json.Decoder
import FactGraph.Model.Basic

/-!
# The reference model in JSON

A handle is written as its position. Every node is a record with all of its fields, in the order
of their declaration; only an empty list of generic arguments is left out. Every field has to be
there when a model is read, except for those that may be absent.
-/

namespace FactGraph

/-! ## Handles and links -/

namespace Handle

/-- The position. -/
def encode {kind : NodeKind} (id : Handle kind) : Json := .nat id.idx

/-- Reads a position. -/
def decode {kind : NodeKind} : Decoder (Handle kind) := fun budget json =>
  (Decoder.nat budget json).map Handle.mk

end Handle

namespace TypeLink

mutual

/-- The arguments are written only if there are any. -/
def encode : TypeLink → Json
  | ⟨name, target, []⟩ =>
    .obj [("name", .str name), ("target", .ofOption Handle.encode target)]
  | ⟨name, target, arg :: args⟩ =>
    .obj [
      ("name", .str name),
      ("target", .ofOption Handle.encode target),
      ("generic_arguments", .arr (arg.encode :: encodeAll args))]

/-- The encoded links of a list. -/
def encodeAll : List TypeLink → List Json
  | [] => []
  | arg :: args => arg.encode :: encodeAll args

end

/-- Reads a link whose arguments are nested at most `rank` deep. -/
def decodeWithin : Nat → Decoder TypeLink
  | 0, _, _ => none
  | rank + 1, budget, json => do
    let record ← Record.ofJson? ["name", "target", "generic_arguments"] budget json
    return {
      name := ← record.required "name" Decoder.string
      target := ← record.optional "target" Handle.decode
      genericArguments := ← record.listOrEmpty "generic_arguments" (decodeWithin rank) }

/-- Reads a link. Nesting uses up the budget, which therefore bounds the depth as well. -/
def decode : Decoder TypeLink := fun budget json =>
  decodeWithin budget budget json

end TypeLink

namespace AttributeLink

/-- The record of an attribute. -/
def encode (link : AttributeLink) : Json :=
  .obj [("type_link", link.typeLink.encode), ("target", .ofOption .str link.target)]

/-- Reads an attribute. -/
def decode : Decoder AttributeLink := fun budget json => do
  let record ← Record.ofJson? ["type_link", "target"] budget json
  return {
    typeLink := ← record.required "type_link" TypeLink.decode
    target := ← record.optional "target" Decoder.string }

end AttributeLink

namespace CallEdge

/-- The record of a call. -/
def encode (edge : CallEdge) : Json :=
  .obj [("target", .ofOption Handle.encode edge.target)]

/-- Reads a call. -/
def decode : Decoder CallEdge := fun budget json => do
  let record ← Record.ofJson? ["target"] budget json
  return { target := ← record.optional "target" Handle.decode }

end CallEdge

namespace RelationEdge

/-- The record of a relation. -/
def encode (edge : RelationEdge) : Json :=
  .obj [
    ("relation", .str edge.relation.text),
    ("target", edge.target.encode),
    ("count", .nat edge.count)]

/-- Reads a relation. -/
def decode : Decoder RelationEdge := fun budget json => do
  let record ← Record.ofJson? ["relation", "target", "count"] budget json
  return {
    relation := ← record.required "relation" (Decoder.word RelationKind.ofText?)
    target := ← record.required "target" Handle.decode
    count := ← record.required "count" Decoder.nat }

end RelationEdge

/-- A list of handles is an array of positions. -/
def encodeHandles {kind : NodeKind} (ids : List (Handle kind)) : Json :=
  .ofList Handle.encode ids

/-- A list of handles that has to be there. -/
def Record.handles {kind : NodeKind} (record : Record) (name : String) :
    Option (List (Handle kind)) :=
  record.required name (Decoder.list Handle.decode)

/-- A text that has to be there. -/
def Record.string (record : Record) (name : String) : Option String :=
  record.required name Decoder.string

/-- A list that has to be there. -/
def Record.list {α : Type} (record : Record) (name : String) (decode : Decoder α) :
    Option (List α) :=
  record.required name (Decoder.list decode)

/-! ## Containers -/

namespace RepositoryNode

/-- The record of the repository. -/
def encode (node : RepositoryNode) : Json :=
  .obj [("path", .str node.path), ("solutions", encodeHandles node.solutions)]

/-- Reads the repository. -/
def decode : Decoder RepositoryNode := fun budget json => do
  let record ← Record.ofJson? ["path", "solutions"] budget json
  return { path := ← record.string "path", solutions := ← record.handles "solutions" }

end RepositoryNode

namespace SolutionNode

/-- The record of a solution. -/
def encode (node : SolutionNode) : Json :=
  .obj [
    ("id", node.id.encode),
    ("path", .str node.path),
    ("projects", encodeHandles node.projects)]

/-- Reads a solution. -/
def decode : Decoder SolutionNode := fun budget json => do
  let record ← Record.ofJson? ["id", "path", "projects"] budget json
  return {
    id := ← record.required "id" Handle.decode
    path := ← record.string "path"
    projects := ← record.handles "projects" }

end SolutionNode

namespace ProjectNode

/-- The record of a project. -/
def encode (node : ProjectNode) : Json :=
  .obj [
    ("id", node.id.encode),
    ("path", .str node.path),
    ("name", .str node.name),
    ("solutions", encodeHandles node.solutions),
    ("references", encodeHandles node.references),
    ("files", encodeHandles node.files),
    ("namespaces", encodeHandles node.namespaces)]

/-- Reads a project. -/
def decode : Decoder ProjectNode := fun budget json => do
  let record ← Record.ofJson?
    ["id", "path", "name", "solutions", "references", "files", "namespaces"] budget json
  return {
    id := ← record.required "id" Handle.decode
    path := ← record.string "path"
    name := ← record.string "name"
    solutions := ← record.handles "solutions"
    references := ← record.handles "references"
    files := ← record.handles "files"
    namespaces := ← record.handles "namespaces" }

end ProjectNode

namespace FileNode

/-- The record of a file. -/
def encode (node : FileNode) : Json :=
  .obj [
    ("id", node.id.encode),
    ("path", .str node.path),
    ("project", node.project.encode),
    ("types", encodeHandles node.types)]

/-- Reads a file. -/
def decode : Decoder FileNode := fun budget json => do
  let record ← Record.ofJson? ["id", "path", "project", "types"] budget json
  return {
    id := ← record.required "id" Handle.decode
    path := ← record.string "path"
    project := ← record.required "project" Handle.decode
    types := ← record.handles "types" }

end FileNode

namespace NamespaceNode

/-- The record of a namespace. -/
def encode (node : NamespaceNode) : Json :=
  .obj [
    ("id", node.id.encode),
    ("name", .str node.name),
    ("full_name", .str node.fullName),
    ("project", node.project.encode),
    ("parent", .ofOption Handle.encode node.parent),
    ("children", encodeHandles node.children),
    ("types", encodeHandles node.types)]

/-- Reads a namespace. -/
def decode : Decoder NamespaceNode := fun budget json => do
  let record ← Record.ofJson?
    ["id", "name", "full_name", "project", "parent", "children", "types"] budget json
  return {
    id := ← record.required "id" Handle.decode
    name := ← record.string "name"
    fullName := ← record.string "full_name"
    project := ← record.required "project" Handle.decode
    parent := ← record.optional "parent" Handle.decode
    children := ← record.handles "children"
    types := ← record.handles "types" }

end NamespaceNode

/-! ## Types and members -/

namespace TypeNode

/-- The record of a type. -/
def encode (node : TypeNode) : Json :=
  .obj [
    ("id", node.id.encode),
    ("name", .str node.name),
    ("full_name", .str node.fullName),
    ("kind", .str node.kind.text),
    ("project", .ofOption Handle.encode node.project),
    ("namespace", .ofOption Handle.encode node.namespaceId),
    ("files", encodeHandles node.files),
    ("is_partial", .bool node.isPartial),
    ("is_external", .bool node.isExternal),
    ("access_modifier", .str node.accessModifier),
    ("modifier", .str node.modifier),
    ("containing_type", .ofOption Handle.encode node.containingType),
    ("nested_types", encodeHandles node.nestedTypes),
    ("generic_parameters", .ofStrings node.genericParameters),
    ("base_types", .ofList TypeLink.encode node.baseTypes),
    ("fields", encodeHandles node.fields),
    ("properties", encodeHandles node.properties),
    ("methods", encodeHandles node.methods),
    ("constructors", encodeHandles node.constructors),
    ("destructor", .ofOption Handle.encode node.destructor),
    ("attributes", .ofList AttributeLink.encode node.attributes),
    ("relations", .ofList RelationEdge.encode node.relations)]

/-- The fields of a type, in the order of their declaration. -/
def fieldNames : List String :=
  ["id", "name", "full_name", "kind", "project", "namespace", "files", "is_partial",
   "is_external", "access_modifier", "modifier", "containing_type", "nested_types",
   "generic_parameters", "base_types", "fields", "properties", "methods", "constructors",
   "destructor", "attributes", "relations"]

/-- Reads a type. -/
def decode : Decoder TypeNode := fun budget json => do
  let record ← Record.ofJson? fieldNames budget json
  return {
    id := ← record.required "id" Handle.decode
    name := ← record.string "name"
    fullName := ← record.string "full_name"
    kind := ← record.required "kind" (Decoder.word TypeKind.ofText?)
    project := ← record.optional "project" Handle.decode
    namespaceId := ← record.optional "namespace" Handle.decode
    files := ← record.handles "files"
    isPartial := ← record.required "is_partial" Decoder.bool
    isExternal := ← record.required "is_external" Decoder.bool
    accessModifier := ← record.string "access_modifier"
    modifier := ← record.string "modifier"
    containingType := ← record.optional "containing_type" Handle.decode
    nestedTypes := ← record.handles "nested_types"
    genericParameters := ← record.list "generic_parameters" Decoder.string
    baseTypes := ← record.list "base_types" TypeLink.decode
    fields := ← record.handles "fields"
    properties := ← record.handles "properties"
    methods := ← record.handles "methods"
    constructors := ← record.handles "constructors"
    destructor := ← record.optional "destructor" Handle.decode
    attributes := ← record.list "attributes" AttributeLink.decode
    relations := ← record.list "relations" RelationEdge.decode }

end TypeNode

namespace MethodNode

/-- The record of a method. -/
def encode (node : MethodNode) : Json :=
  .obj [
    ("id", node.id.encode),
    ("name", .str node.name),
    ("kind", .str node.kind.text),
    ("containing_type", node.containingType.encode),
    ("containing_method", .ofOption Handle.encode node.containingMethod),
    ("containing_property", .ofOption Handle.encode node.containingProperty),
    ("access_modifier", .str node.accessModifier),
    ("modifier", .str node.modifier),
    ("generic_parameters", .ofStrings node.genericParameters),
    ("return_type", .ofOption TypeLink.encode node.returnType),
    ("parameters", encodeHandles node.parameters),
    ("local_variables", encodeHandles node.localVariables),
    ("local_functions", encodeHandles node.localFunctions),
    ("calls", .ofList CallEdge.encode node.calls),
    ("attributes", .ofList AttributeLink.encode node.attributes),
    ("cyclomatic_complexity", .nat node.cyclomaticComplexity),
    ("is_synthetic", .bool node.isSynthetic)]

/-- The fields of a method, in the order of their declaration. -/
def fieldNames : List String :=
  ["id", "name", "kind", "containing_type", "containing_method", "containing_property",
   "access_modifier", "modifier", "generic_parameters", "return_type", "parameters",
   "local_variables", "local_functions", "calls", "attributes", "cyclomatic_complexity",
   "is_synthetic"]

/-- Reads a method. -/
def decode : Decoder MethodNode := fun budget json => do
  let record ← Record.ofJson? fieldNames budget json
  return {
    id := ← record.required "id" Handle.decode
    name := ← record.string "name"
    kind := ← record.required "kind" (Decoder.word MethodKind.ofText?)
    containingType := ← record.required "containing_type" Handle.decode
    containingMethod := ← record.optional "containing_method" Handle.decode
    containingProperty := ← record.optional "containing_property" Handle.decode
    accessModifier := ← record.string "access_modifier"
    modifier := ← record.string "modifier"
    genericParameters := ← record.list "generic_parameters" Decoder.string
    returnType := ← record.optional "return_type" TypeLink.decode
    parameters := ← record.handles "parameters"
    localVariables := ← record.handles "local_variables"
    localFunctions := ← record.handles "local_functions"
    calls := ← record.list "calls" CallEdge.decode
    attributes := ← record.list "attributes" AttributeLink.decode
    cyclomaticComplexity := ← record.required "cyclomatic_complexity" Decoder.nat
    isSynthetic := ← record.required "is_synthetic" Decoder.bool }

end MethodNode

namespace FieldNode

/-- The record of a field. -/
def encode (node : FieldNode) : Json :=
  .obj [
    ("id", node.id.encode),
    ("name", .str node.name),
    ("type_link", node.typeLink.encode),
    ("containing_type", node.containingType.encode),
    ("access_modifier", .str node.accessModifier),
    ("modifier", .str node.modifier),
    ("is_event", .bool node.isEvent),
    ("attributes", .ofList AttributeLink.encode node.attributes)]

/-- Reads a field. -/
def decode : Decoder FieldNode := fun budget json => do
  let record ← Record.ofJson?
    ["id", "name", "type_link", "containing_type", "access_modifier", "modifier", "is_event",
     "attributes"] budget json
  return {
    id := ← record.required "id" Handle.decode
    name := ← record.string "name"
    typeLink := ← record.required "type_link" TypeLink.decode
    containingType := ← record.required "containing_type" Handle.decode
    accessModifier := ← record.string "access_modifier"
    modifier := ← record.string "modifier"
    isEvent := ← record.required "is_event" Decoder.bool
    attributes := ← record.list "attributes" AttributeLink.decode }

end FieldNode

namespace PropertyNode

/-- The record of a property. -/
def encode (node : PropertyNode) : Json :=
  .obj [
    ("id", node.id.encode),
    ("name", .str node.name),
    ("type_link", node.typeLink.encode),
    ("containing_type", node.containingType.encode),
    ("access_modifier", .str node.accessModifier),
    ("modifier", .str node.modifier),
    ("accessors", encodeHandles node.accessors),
    ("attributes", .ofList AttributeLink.encode node.attributes)]

/-- Reads a property. -/
def decode : Decoder PropertyNode := fun budget json => do
  let record ← Record.ofJson?
    ["id", "name", "type_link", "containing_type", "access_modifier", "modifier", "accessors",
     "attributes"] budget json
  return {
    id := ← record.required "id" Handle.decode
    name := ← record.string "name"
    typeLink := ← record.required "type_link" TypeLink.decode
    containingType := ← record.required "containing_type" Handle.decode
    accessModifier := ← record.string "access_modifier"
    modifier := ← record.string "modifier"
    accessors := ← record.handles "accessors"
    attributes := ← record.list "attributes" AttributeLink.decode }

end PropertyNode

namespace ParameterNode

/-- The record of a parameter. -/
def encode (node : ParameterNode) : Json :=
  .obj [
    ("id", node.id.encode),
    ("name", .str node.name),
    ("type_link", node.typeLink.encode),
    ("containing_method", node.containingMethod.encode),
    ("modifier", .str node.modifier),
    ("default_value", .ofOption .str node.defaultValue),
    ("attributes", .ofList AttributeLink.encode node.attributes)]

/-- Reads a parameter. -/
def decode : Decoder ParameterNode := fun budget json => do
  let record ← Record.ofJson?
    ["id", "name", "type_link", "containing_method", "modifier", "default_value", "attributes"]
    budget json
  return {
    id := ← record.required "id" Handle.decode
    name := ← record.string "name"
    typeLink := ← record.required "type_link" TypeLink.decode
    containingMethod := ← record.required "containing_method" Handle.decode
    modifier := ← record.string "modifier"
    defaultValue := ← record.optional "default_value" Decoder.string
    attributes := ← record.list "attributes" AttributeLink.decode }

end ParameterNode

namespace LocalVariableNode

/-- The record of a local variable. -/
def encode (node : LocalVariableNode) : Json :=
  .obj [
    ("id", node.id.encode),
    ("name", .str node.name),
    ("type_link", node.typeLink.encode),
    ("containing_method", node.containingMethod.encode)]

/-- Reads a local variable. -/
def decode : Decoder LocalVariableNode := fun budget json => do
  let record ← Record.ofJson? ["id", "name", "type_link", "containing_method"] budget json
  return {
    id := ← record.required "id" Handle.decode
    name := ← record.string "name"
    typeLink := ← record.required "type_link" TypeLink.decode
    containingMethod := ← record.required "containing_method" Handle.decode }

end LocalVariableNode

/-! ## The model -/

/-- An array of nodes. -/
def encodeArray {α : Type} (encode : α → Json) (nodes : Array α) : Json :=
  .ofList encode nodes.toList

/-- An array of nodes that has to be there. -/
def Record.array {α : Type} (record : Record) (name : String) (decode : Decoder α) :
    Option (Array α) :=
  (record.list name decode).map List.toArray

namespace ReferenceModel

/-- The record of a model. -/
def encode (model : ReferenceModel) : Json :=
  .obj [
    ("repository", model.repository.encode),
    ("solutions", encodeArray SolutionNode.encode model.solutions),
    ("projects", encodeArray ProjectNode.encode model.projects),
    ("files", encodeArray FileNode.encode model.files),
    ("namespaces", encodeArray NamespaceNode.encode model.namespaces),
    ("types", encodeArray TypeNode.encode model.types),
    ("methods", encodeArray MethodNode.encode model.methods),
    ("fields", encodeArray FieldNode.encode model.fields),
    ("properties", encodeArray PropertyNode.encode model.properties),
    ("parameters", encodeArray ParameterNode.encode model.parameters),
    ("local_variables", encodeArray LocalVariableNode.encode model.localVariables),
    ("created_classes", encodeHandles model.createdClasses)]

/-- The fields of a model, in the order of their declaration. -/
def fieldNames : List String :=
  ["repository", "solutions", "projects", "files", "namespaces", "types", "methods", "fields",
   "properties", "parameters", "local_variables", "created_classes"]

/-- Reads a model. -/
def decode : Decoder ReferenceModel := fun budget json => do
  let record ← Record.ofJson? fieldNames budget json
  return {
    repository := ← record.required "repository" RepositoryNode.decode
    solutions := ← record.array "solutions" SolutionNode.decode
    projects := ← record.array "projects" ProjectNode.decode
    files := ← record.array "files" FileNode.decode
    namespaces := ← record.array "namespaces" NamespaceNode.decode
    types := ← record.array "types" TypeNode.decode
    methods := ← record.array "methods" MethodNode.decode
    fields := ← record.array "fields" FieldNode.decode
    properties := ← record.array "properties" PropertyNode.decode
    parameters := ← record.array "parameters" ParameterNode.decode
    localVariables := ← record.array "local_variables" LocalVariableNode.decode
    createdClasses := ← record.handles "created_classes" }

end ReferenceModel

end FactGraph
