import FactGraph.Fact.Counts
import FactGraph.Fact.Kind
import FactGraph.Name.Separator
import FactGraph.Text.Blank

/-!
# The fact model

What a syntax front-end reports about a repository: solutions, their projects, the compilation
units of a project, and the type declarations of a unit with their members and call sites. Every
reference in it is a name, as it is written at the occurrence.

## Main definitions

* `RepositoryFact`, `SolutionFact`, `ProjectFact`, `UnitFact`: the containers
* `TypeFact`, `FieldFact`, `PropertyFact`, `MethodFact`: declarations
* `TypeRef`, `CallFact`, `AttributeFact`, `ImportFact`, `MetricFact`: references by name
* `TypeFact.relativeName`, `TypeFact.fullName`: the names of a declared type
* `RepositoryFact.projects`: every listed project, in the order of the listing
* `RepositoryFact.firstListings`: the listing that counts, for every path
-/

namespace FactGraph

/-! ## References by name -/

/-- A reference to a type. Its name may carry generic arguments, array ranks and a nullable mark;
the list of arguments is another way of giving the former. -/
structure TypeRef where
  name : String
  genericArguments : List TypeRef := []
  deriving Inhabited

namespace TypeRef

mutual

/-- The reference as a single name, with the arguments of the list behind it. -/
def fullName : TypeRef → String
  | ⟨name, []⟩ => name
  | ⟨name, arg :: args⟩ => name ++ "<" ++ arg.fullName ++ fullNameTail args ++ ">"

/-- The names of the arguments behind the first one, each after its comma. -/
def fullNameTail : List TypeRef → String
  | [] => ""
  | arg :: args => ", " ++ arg.fullName ++ fullNameTail args

end

end TypeRef

/-- An import directive of a compilation unit. -/
structure ImportFact where
  kind : ImportKind := .plain
  sourceName : String
  aliasName : Option String := none
  deriving Inhabited, DecidableEq

namespace ImportFact

/-- Brings the types of a namespace into scope. -/
def plain (source : String) : ImportFact :=
  { kind := .plain, sourceName := source }

/-- Gives a namespace another name. -/
def namespaceAlias (short source : String) : ImportFact :=
  { kind := .namespaceAlias, sourceName := source, aliasName := some short }

/-- Gives a type another name. -/
def typeAlias (short source : String) : ImportFact :=
  { kind := .typeAlias, sourceName := source, aliasName := some short }

/-- Brings the static members of a type into scope. -/
def staticMember (source : String) : ImportFact :=
  { kind := .staticMember, sourceName := source }

end ImportFact

/-- An attribute put on a declaration. -/
structure AttributeFact where
  typeRef : TypeRef
  target : Option String := none
  deriving Inhabited

/-- A call site: the type that owns the called method, which may be left out, the name of the
method and the types of its parameters in order. -/
structure CallFact where
  containingType : String := ""
  name : String
  parameterTypes : List TypeRef := []
  deriving Inhabited

/-! ## Members -/

/-- A parameter of a method. -/
structure ParameterFact where
  name : String := ""
  typeRef : TypeRef
  modifier : String := ""
  defaultValue : Option String := none
  attributes : List AttributeFact := []
  deriving Inhabited

/-- A local variable of a method. -/
structure LocalVariableFact where
  name : String := ""
  typeRef : TypeRef
  deriving Inhabited

/-- What a method declares apart from its local functions. -/
structure MethodHead where
  name : String
  returnType : Option TypeRef := none
  accessModifier : String := ""
  modifier : String := ""
  genericParameters : List String := []
  parameters : List ParameterFact := []
  localVariables : List LocalVariableFact := []
  calledMethods : List CallFact := []
  attributes : List AttributeFact := []
  cyclomaticComplexity : Nat := 0
  deriving Inhabited

/-- A method, constructor, destructor, accessor or local function. -/
structure MethodFact extends MethodHead where
  localFunctions : List MethodFact := []
  deriving Inhabited

/-- A field or an event. -/
structure FieldFact where
  name : String
  typeRef : TypeRef
  accessModifier : String := ""
  modifier : String := ""
  isEvent : Bool := false
  attributes : List AttributeFact := []
  deriving Inhabited

/-- A property with its accessors. -/
structure PropertyFact where
  name : String
  typeRef : TypeRef
  accessModifier : String := ""
  modifier : String := ""
  accessors : List MethodFact := []
  attributes : List AttributeFact := []
  deriving Inhabited

/-- How often a type refers to others in one way, by the name of the other type. -/
structure MetricFact where
  relation : RelationKind
  counts : Counts := .empty
  deriving Inhabited

/-! ## Type declarations -/

/-- A type declaration. Partial declarations of one full name are fragments of one type. -/
structure TypeFact where
  name : String
  kind : TypeKind := .classType
  namespaceName : String := ""
  /-- The enclosing types of a nested type, as a name relative to the namespace. -/
  containingType : Option String := none
  isPartial : Bool := false
  accessModifier : String := ""
  modifier : String := ""
  genericParameters : List String := []
  baseTypes : List TypeRef := []
  fields : List FieldFact := []
  properties : List PropertyFact := []
  methods : List MethodFact := []
  constructors : List MethodFact := []
  destructor : Option MethodFact := none
  attributes : List AttributeFact := []
  metrics : List MetricFact := []
  deriving Inhabited

namespace TypeFact

/-- The name of a type without its generic parameters, which are declared apart: `Box<T>`
declares `Box`. -/
def simpleName (fact : TypeFact) : String :=
  String.ofList (Text.trimChars (fact.name.toList.takeWhile (· != '<')))

/-- The enclosing types, if any are named. -/
def outerName? (fact : TypeFact) : Option String :=
  fact.containingType.filter fun outer => outer ≠ ""

/-- The name within the namespace: a nested type stands behind its enclosing types. -/
def relativeName (fact : TypeFact) (sep : Separator) : String :=
  match fact.outerName? with
  | some outer => outer ++ sep.text ++ fact.simpleName
  | none => fact.simpleName

/-- The namespace without blanks at its ends. -/
def trimmedNamespace (fact : TypeFact) : String :=
  Text.trim fact.namespaceName

/-- The full name: namespace, enclosing types, name. -/
def fullName (fact : TypeFact) (sep : Separator) : String :=
  sep.join fact.trimmedNamespace (fact.relativeName sep)

/-- The declaration has a name. One without is never indexed, resolved or linked. -/
def isNamed (fact : TypeFact) : Bool :=
  !Text.isBlank fact.name

end TypeFact

/-! ## Containers -/

/-- A source file with its import directives and type declarations. -/
structure UnitFact where
  path : String
  imports : List ImportFact := []
  types : List TypeFact := []
  deriving Inhabited

/-- A project: the paths of the projects it refers to, and its compilation units. -/
structure ProjectFact where
  path : String
  name : String := ""
  projectReferences : List String := []
  units : List UnitFact := []
  deriving Inhabited

/-- A solution lists projects; a project may be listed by several solutions. -/
structure SolutionFact where
  path : String
  projects : List ProjectFact := []
  deriving Inhabited

/-- The whole fact model. -/
structure RepositoryFact where
  path : String := ""
  solutions : List SolutionFact := []
  deriving Inhabited

namespace RepositoryFact

/-- Every listed project, in the order of the listing. -/
def projects (repo : RepositoryFact) : List ProjectFact :=
  repo.solutions.flatMap SolutionFact.projects

/-- The projects of a list whose path is neither in `seen` nor the path of an earlier one. -/
def firstOfPath (seen : List String) : List ProjectFact → List ProjectFact
  | [] => []
  | project :: projects =>
    if project.path ∈ seen then firstOfPath seen projects
    else project :: firstOfPath (project.path :: seen) projects

/-- **The first listing of every path.** A project may be listed by several solutions; whatever
is said of it later, only its first listing counts. -/
def firstListings (repo : RepositoryFact) : List ProjectFact :=
  firstOfPath [] repo.projects

/-- There are no compilation units at all. -/
def isEmpty (repo : RepositoryFact) : Bool :=
  repo.projects.all fun project => project.units.isEmpty

end RepositoryFact

end FactGraph
