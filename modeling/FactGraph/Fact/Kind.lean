/-!
# Kinds of facts

The closed vocabularies of a fact model, each with the word that names its members in files and
in reports.

## Main definitions

* `TypeKind`, `ImportKind`, `RelationKind`: the kinds, each with `text` and `ofText?`
-/

namespace FactGraph

/-! ## Type declarations -/

/-- What a type declaration declares. -/
inductive TypeKind where
  | classType
  | interfaceType
  | structType
  | enumType
  | delegateType
  | recordType
  deriving DecidableEq, Inhabited

namespace TypeKind

/-- The word for a kind. -/
def text : TypeKind → String
  | .classType => "class"
  | .interfaceType => "interface"
  | .structType => "struct"
  | .enumType => "enum"
  | .delegateType => "delegate"
  | .recordType => "record"

/-- Every kind. -/
def all : List TypeKind :=
  [.classType, .interfaceType, .structType, .enumType, .delegateType, .recordType]

/-- The kind that a word names. -/
def ofText? (word : String) : Option TypeKind :=
  all.find? fun kind => kind.text = word

@[simp] theorem ofText?_text (kind : TypeKind) : ofText? kind.text = some kind := by
  cases kind <;> rfl

end TypeKind

/-! ## Import directives -/

/-- What an import directive brings into scope. -/
inductive ImportKind where
  /-- Every type of a namespace. -/
  | plain
  /-- Another name for a namespace. -/
  | namespaceAlias
  /-- Another name for a type, possibly with generic arguments. -/
  | typeAlias
  /-- The static members of a type. -/
  | staticMember
  deriving DecidableEq, Inhabited

namespace ImportKind

/-- The word for a kind. -/
def text : ImportKind → String
  | .plain => "plain"
  | .namespaceAlias => "namespace_alias"
  | .typeAlias => "type_alias"
  | .staticMember => "static_member"

/-- Every kind. -/
def all : List ImportKind := [.plain, .namespaceAlias, .typeAlias, .staticMember]

/-- The kind that a word names. -/
def ofText? (word : String) : Option ImportKind :=
  all.find? fun kind => kind.text = word

@[simp] theorem ofText?_text (kind : ImportKind) : ofText? kind.text = some kind := by
  cases kind <;> rfl

/-- The directive gives a new name to what it imports. -/
def needsAlias : ImportKind → Bool
  | .namespaceAlias | .typeAlias => true
  | .plain | .staticMember => false

end ImportKind

/-! ## Relations between types -/

/-- How one type refers to another. -/
inductive RelationKind where
  | declarations
  | parameters
  | returnValues
  | localVariables
  | calls
  | attributes
  | inheritance
  | other
  deriving DecidableEq, Inhabited

namespace RelationKind

/-- The word for a kind. -/
def text : RelationKind → String
  | .declarations => "declarations"
  | .parameters => "parameters"
  | .returnValues => "return_values"
  | .localVariables => "local_variables"
  | .calls => "calls"
  | .attributes => "attributes"
  | .inheritance => "inheritance"
  | .other => "other"

/-- Every kind. -/
def all : List RelationKind :=
  [.declarations, .parameters, .returnValues, .localVariables, .calls, .attributes, .inheritance,
   .other]

/-- The kind that a word names. -/
def ofText? (word : String) : Option RelationKind :=
  all.find? fun kind => kind.text = word

@[simp] theorem ofText?_text (kind : RelationKind) : ofText? kind.text = some kind := by
  cases kind <;> rfl

end RelationKind

end FactGraph
