import FactGraph.Config.Basic
import FactGraph.Diagnostic.Finding
import FactGraph.Graph.BreadthFirst
import FactGraph.Scope.ImportTable
import FactGraph.Scope.NameTable
import FactGraph.Scope.NamespaceTree

/-!
# The scope index

All that is needed to say what a name could stand for: the namespaces, the imports of every
compilation unit, the declared types by name, and which project refers to which.

The index is built from the first listing of every project. Import tables are kept by the path of
their unit, and of two units with one path the later one counts.

## Main definitions

* `ScopeIndex.build`: the index of a fact model, and what was found wrong on the way
* `ScopeIndex.reachableProjects`: the projects that a project refers to, directly or not
* `ScopeIndex.isVisibleFrom`: whether a full name may be used in a project
* `ScopeIndex.declarationsOf`, `ScopeIndex.declarationsEndingWith`: declarations by name
-/

namespace FactGraph

/-- A project and the projects that it refers to. -/
structure ProjectEntry where
  path : String
  /-- The positions of the projects referred to, each once, in the order of first mention. -/
  references : List Nat := []
  deriving DecidableEq, Inhabited

/-- A type declaration as it was met in the fact model. -/
structure DeclaredType where
  fullName : String
  /-- The name within the namespace. -/
  relativeName : String
  namespaceName : String
  /-- The position of the project. -/
  project : Nat
  filePath : String
  isPartial : Bool
  genericParameters : List String
  methodNames : List String
  deriving DecidableEq, Inhabited

/-- What names could stand for. -/
structure ScopeIndex where
  separator : Separator
  namespaces : NamespaceTree
  /-- The import tables by path of the unit, the latest first. -/
  imports : List (String × ImportTable) := []
  projects : List ProjectEntry := []
  /-- The declarations, in the order of discovery. -/
  declarations : Array DeclaredType := #[]
  /-- The positions of the declarations by full name. -/
  byFullName : NameTable Nat := {}
  /-- The positions of the declarations by the last segment of their relative name. -/
  bySimpleName : NameTable Nat := {}
  /-- Some project refers to another one of the repository. -/
  hasReferenceGraph : Bool := false

namespace ScopeIndex

/-! ## Building -/

/-- What is carried along while the declarations are collected. -/
structure Survey where
  index : ScopeIndex
  /-- The malformed namespaces that have been reported. -/
  reported : List String := []
  diagnostics : Diagnostics := {}

/-- A step of the survey. -/
abbrev SurveyM := StateM Survey

/-- Reports a finding. -/
def report (diagnostic : Diagnostic) : SurveyM Unit :=
  modify fun survey => { survey with diagnostics := survey.diagnostics.push diagnostic }

/-- The declaration of a type in a file of a project. -/
def declarationOf (sep : Separator) (project : Nat) (filePath : String) (fact : TypeFact) :
    DeclaredType where
  fullName := fact.fullName sep
  relativeName := fact.relativeName sep
  namespaceName := fact.trimmedNamespace
  project := project
  filePath := filePath
  isPartial := fact.isPartial
  genericParameters := fact.genericParameters
  methodNames := fact.methods.map fun method => method.name

/-- The index with one more declaration, entered under its names. -/
def addDeclaration (index : ScopeIndex) (declaration : DeclaredType) : ScopeIndex :=
  let position := index.declarations.size
  { index with
    declarations := index.declarations.push declaration
    byFullName := index.byFullName.push declaration.fullName position
    bySimpleName := index.bySimpleName.push
      (index.separator.lastSegment declaration.relativeName) position }

/-- Adds the namespace of a declaration. A malformed one is reported the first time. -/
def surveyNamespace (projectPath filePath name : String) : SurveyM Unit := do
  let survey ← get
  let (namespaces, _, isWellFormed) := survey.index.namespaces.insert name
  set { survey with index := { survey.index with namespaces } }
  if !isWellFormed && !survey.reported.contains name then
    modify fun survey => { survey with reported := name :: survey.reported }
    report (.malformedNamespace projectPath filePath name)

/-- Adds a declaration. One without a name is passed over. -/
def surveyType (project : Nat) (projectPath filePath : String) (fact : TypeFact) :
    SurveyM Unit := do
  if fact.isNamed then
    surveyNamespace projectPath filePath fact.namespaceName
    modify fun survey =>
      { survey with
        index := survey.index.addDeclaration
          (declarationOf survey.index.separator project filePath fact) }

/-- Adds a compilation unit. Incomplete imports are reported. -/
def surveyUnit (project : Nat) (projectPath : String) (fact : UnitFact) : SurveyM Unit := do
  (ImportTable.rejected fact.imports).forM fun directive =>
    report (.incompleteImport projectPath fact.path directive.sourceName)
  modify fun survey =>
    { survey with
      index := { survey.index with
        imports := (fact.path, ImportTable.ofFacts fact.imports) :: survey.index.imports } }
  fact.types.forM (surveyType project projectPath fact.path)

/-- Adds the first listing of a project, which gets the next free position. -/
def surveyProject (fact : ProjectFact) : SurveyM Unit := do
  let project := (← get).index.projects.length
  modify fun survey =>
    { survey with
      index := { survey.index with
        projects := survey.index.projects ++ [({ path := fact.path } : ProjectEntry)] } }
  fact.units.forM (surveyUnit project fact.path)

/-- The position of the project with that path. -/
def projectIndex? (index : ScopeIndex) (path : String) : Option Nat :=
  index.projects.findIdx? fun project => project.path = path

/-- The projects referred to from the project at position `project`: those that are listed, each
once, without the project itself. -/
def referencesFrom (index : ScopeIndex) (project : Nat) (paths : List String) : List Nat :=
  ((paths.filterMap index.projectIndex?).filter (· ≠ project)).foldl
    (fun references reference =>
      if reference ∈ references then references else references ++ [reference]) []

/-- The entry of a project with its references, which are looked up in the index. -/
def linkedEntry (index : ScopeIndex) (fact : ProjectFact) (position : Nat) : ProjectEntry :=
  { path := fact.path, references := index.referencesFrom position fact.projectReferences }

/-- The project at position `project` refers to another one that is listed. -/
def refersElsewhere (index : ScopeIndex) (fact : ProjectFact) (project : Nat) : Bool :=
  fact.projectReferences.any fun path => (index.projectIndex? path).any (· ≠ project)

/-- The references to projects that are not listed, in the order of the listings. -/
def missingReferences (index : ScopeIndex) (listings : List ProjectFact) : List Diagnostic :=
  listings.flatMap fun fact =>
    (fact.projectReferences.filter fun path => (index.projectIndex? path).isNone).map
      (.missingProject fact.path)

/-- The index of a fact model before anything has been added to it. -/
def initial (separator : Separator) : ScopeIndex :=
  { separator, namespaces := .empty separator }

/-- **The index of a fact model**, and what was found wrong on the way. -/
def build (repo : RepositoryFact) (separator : Separator) : ScopeIndex × Diagnostics :=
  let listings := repo.firstListings
  let survey := ((listings.forM surveyProject).run { index := initial separator }).2
  let index := survey.index
  -- References are looked up when every project has its position.
  ({ index with
      projects := listings.zipIdx.map fun (fact, position) => index.linkedEntry fact position
      hasReferenceGraph :=
        listings.zipIdx.any fun (fact, position) => index.refersElsewhere fact position },
    ⟨survey.diagnostics.entries ++ index.missingReferences listings⟩)

/-! ## Projects -/

/-- The policy lets a search go beyond the projects that are referred to. -/
def allowsGlobal (index : ScopeIndex) : FallbackPolicy → Bool
  | .alwaysGlobal => true
  | .referencesOnly => false
  | .referencesThenGlobal => !index.hasReferenceGraph

/-- The positions of the projects that a project refers to. -/
def referencesOf (index : ScopeIndex) (project : Nat) : List Nat :=
  match index.projects[project]? with
  | some entry => entry.references
  | none => []

/-- **The projects that a project can reach** over references, in the order of a breadth-first
search, without the project itself. -/
def reachableProjects (index : ScopeIndex) (project : Nat) : List Nat :=
  (BreadthFirst.search index.referencesOf index.projects.length project).map
    BreadthFirst.Visit.node

/-! ## Declarations -/

/-- The declarations at the given positions. -/
def declarationsAt (index : ScopeIndex) (positions : List Nat) : List DeclaredType :=
  positions.filterMap fun position => index.declarations[position]?

/-- The declarations of a full name, in the order of discovery. -/
def declarationsOf (index : ScopeIndex) (fullName : String) : List DeclaredType :=
  index.declarationsAt (index.byFullName.get fullName)

/-- The declarations of a project whose full name is the name or ends in it after a separator, in
the order of discovery. They are found by their last segment. -/
def declarationsEndingWith (index : ScopeIndex) (name : String) (project : Nat) :
    List DeclaredType :=
  (index.declarationsAt (index.bySimpleName.get (index.separator.lastSegment name))).filter
    fun declaration =>
      declaration.project = project && index.separator.endsWith declaration.fullName name

/-- The full name is declared in some project. -/
def isDeclared (index : ScopeIndex) (fullName : String) : Bool :=
  index.byFullName.contains fullName

/-- The full name is declared in the project. -/
def isDeclaredIn (index : ScopeIndex) (fullName : String) (project : Nat) : Bool :=
  (index.declarationsOf fullName).any fun declaration => declaration.project = project

/-- **Visibility**: the full name is declared in the project, in one that it can reach, or in any
one if the policy lets a search go that far. -/
def isVisibleFrom (index : ScopeIndex) (fullName : String) (project : Nat)
    (policy : FallbackPolicy) : Bool :=
  index.isDeclared fullName &&
    (index.allowsGlobal policy ||
      (index.declarationsOf fullName).any fun declaration =>
        declaration.project = project ||
          (index.reachableProjects project).contains declaration.project)

/-- Some declaration of the full name has a method of that name. -/
def declaresMethod (index : ScopeIndex) (fullName method : String) : Bool :=
  (index.declarationsOf fullName).any fun declaration => declaration.methodNames.contains method

/-- The generic parameters of the first declaration of the full name. -/
def genericParameters (index : ScopeIndex) (fullName : String) : List String :=
  match (index.declarationsOf fullName).head? with
  | some declaration => declaration.genericParameters
  | none => []

/-- The imports of the unit with that path. -/
def importsOf? (index : ScopeIndex) (filePath : String) : Option ImportTable :=
  index.imports.lookup filePath

end ScopeIndex

end FactGraph
