/-!
# Handles

The nodes of a reference model stand in lists, one for each kind of node, and refer to each other
by position. A handle is a position together with the kind of node it is for, so that the handle
of a method cannot be taken for that of a type.

## Main definitions

* `NodeKind`: the kinds of nodes that stand in lists
* `Handle kind`: a position in the list of a kind, with an abbreviation for every kind
* `ModelNode`: the repository, or the node of a handle
-/

namespace FactGraph

/-- A kind of node. -/
inductive NodeKind where
  | solution
  | project
  | file
  /-- A namespace. -/
  | space
  | type
  | method
  | field
  | property
  | parameter
  | localVariable
  deriving DecidableEq, Inhabited

namespace NodeKind

/-- The word for a kind. -/
def text : NodeKind → String
  | .solution => "solution"
  | .project => "project"
  | .file => "file"
  | .space => "namespace"
  | .type => "type"
  | .method => "method"
  | .field => "field"
  | .property => "property"
  | .parameter => "parameter"
  | .localVariable => "local_variable"

/-- Every kind. -/
def all : List NodeKind :=
  [.solution, .project, .file, .space, .type, .method, .field, .property, .parameter,
   .localVariable]

/-- The kind that a word names. -/
def ofText? (word : String) : Option NodeKind :=
  all.find? fun kind => kind.text = word

@[simp] theorem ofText?_text (kind : NodeKind) : ofText? kind.text = some kind := by
  cases kind <;> rfl

end NodeKind

/-- The position of a node in the list of its kind. -/
structure Handle (kind : NodeKind) where
  idx : Nat
  deriving DecidableEq, Inhabited

abbrev SolutionId := Handle .solution
abbrev ProjectId := Handle .project
abbrev FileId := Handle .file
abbrev NamespaceId := Handle .space
abbrev TypeId := Handle .type
abbrev MethodId := Handle .method
abbrev FieldId := Handle .field
abbrev PropertyId := Handle .property
abbrev ParameterId := Handle .parameter
abbrev LocalVariableId := Handle .localVariable

/-- Any node of a reference model. -/
inductive ModelNode where
  | repository
  | node (kind : NodeKind) (id : Handle kind)
  deriving DecidableEq, Inhabited

namespace ModelNode

/-- The node of a handle. -/
abbrev of {kind : NodeKind} (id : Handle kind) : ModelNode := .node kind id

end ModelNode

end FactGraph
