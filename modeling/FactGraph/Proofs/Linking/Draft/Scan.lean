import FactGraph.Linking.Link

/-!
# Look-ups as scans

A link run looks types and namespaces up in tables, and methods in the lists of types. Both are made
along with the nodes, so what they say can be read off the nodes themselves: the table of external
types leads to the first node that is external and has the name, and the list of the methods of a
type has the method nodes that say that they are in it. Here are the look-ups in this form. The
program does not use them. That it finds the same is shown later on: for the tables with each node
that is added (`LinkTables.InStep`), for the lists with each method that is entered
(`LinkState.Realizes`).

## Main definitions

* `Linker.sourceUnits`, `Linker.skeleton`: the outer nodes of a model, read off the listings
* `Linker.findFragments?`, `Linker.findExternal?`, `Linker.lookupDeclared?`: types by name
* `Linker.matching?`, `Linker.ownMethod?`: methods by signature
-/

namespace FactGraph

/-- The project of a path. -/
def ReferenceModel.projectOf? (model : ReferenceModel) (path : String) : Option ProjectId :=
  (model.projects.findIdx? fun node => node.path = path).map Handle.mk

/-! ## What is read of a node -/

/-- A type as its first declaration made it, without all that a run finds out about it later. -/
def TypeNode.header (node : TypeNode) : TypeNode :=
  { node with
    files := [], containingType := none, baseTypes := [], attributes := [], relations := [] }

@[simp] theorem TypeNode.header_id (node : TypeNode) : node.header.id = node.id := rfl

@[simp] theorem TypeNode.header_fullName (node : TypeNode) :
    node.header.fullName = node.fullName := rfl

@[simp] theorem TypeNode.header_project (node : TypeNode) :
    node.header.project = node.project := rfl

@[simp] theorem TypeNode.header_isPartial (node : TypeNode) :
    node.header.isPartial = node.isPartial := rfl

@[simp] theorem TypeNode.header_isExternal (node : TypeNode) :
    node.header.isExternal = node.isExternal := rfl

/-- Where a method belongs, apart from its type. -/
def MethodNode.owner (node : MethodNode) : MethodOwner :=
  { kind := node.kind, containingMethod := node.containingMethod
    containingProperty := node.containingProperty }

namespace Linker

/-! ## Listings -/

/-- The compilation units of these listings, each with the position of its project. -/
def listedUnits (listings : List ProjectFact) : List (Nat × ProjectFact × UnitFact) :=
  listings.zipIdx.flatMap fun (project, position) =>
    project.units.map fun unit => (position, project, unit)

/-- The compilation units of these listings, in the order of their files. -/
def unitsOf (listings : List ProjectFact) : List SourceUnit :=
  (listedUnits listings).zipIdx.map fun ((project, listing, unit), file) =>
    { project := ⟨project⟩, file := ⟨file⟩
      context := .inFile listing.path unit.path, fact := unit }

/-- The compilation units of a repository. -/
def sourceUnits (repo : RepositoryFact) : List SourceUnit :=
  unitsOf repo.firstListings

/-- The projects of these listings. -/
def projectNodes (listings : List ProjectFact) : List ProjectNode :=
  listings.zipIdx.map fun (project, position) =>
    { id := ⟨position⟩, path := project.path, name := project.name }

/-- The files of these compilation units. -/
def fileNodes (units : List SourceUnit) : List FileNode :=
  units.map fun unit => { id := unit.file, path := unit.fact.path, project := unit.project }

/-- A solution with the projects that it lists, each once. -/
def solutionNode (model : ReferenceModel) (fact : SolutionFact) (position : Nat) :
    SolutionNode :=
  { id := ⟨position⟩, path := fact.path
    projects :=
      keepFirst (fact.projects.filterMap fun project => model.projectOf? project.path) }

variable (linker : Linker)

/-- The projects of a model at these positions of the index, as far as the model has them. -/
def toProjects (model : ReferenceModel) (positions : List Nat) : List ProjectId :=
  positions.filterMap fun position =>
    match linker.index.projects[position]? with
    | some entry => model.projectOf? entry.path
    | none => none

/-- The projects that a project refers to, by the index. -/
def referencesOf (model : ReferenceModel) (path : String) : List ProjectId :=
  match linker.index.projectIndex? path with
  | some position => linker.toProjects model (linker.index.referencesOf position)
  | none => []

/-- The projects that a project can reach, by the index, nearest first. -/
def reachableFrom (model : ReferenceModel) (project : ProjectId) : List ProjectId :=
  match (model.project? project).bind fun node => linker.index.projectIndex? node.path with
  | some position => linker.toProjects model (linker.index.reachableProjects position)
  | none => []

/-- **The model of the listings**: its repository, solutions, projects and files. -/
def skeleton (repo : RepositoryFact) : ReferenceModel :=
  let listed : ReferenceModel := {
    repository := { path := repo.path }
    projects := (projectNodes repo.firstListings).toArray
    files := (fileNodes (sourceUnits repo)).toArray }
  { listed with
    solutions :=
      (repo.solutions.zipIdx.map fun (fact, position) =>
        solutionNode listed fact position).toArray
    projects := listed.projects.map fun node =>
      { node with references := linker.referencesOf listed node.path } }

/-! ## Namespaces and types -/

/-- The namespace of a project with that full name. -/
def findNamespace? (model : ReferenceModel) (project : ProjectId) (fullName : String) :
    Option NamespaceId :=
  (model.namespaces.findIdx? fun node =>
    node.project = project && node.fullName = fullName).map Handle.mk

/-- The declared type of a project with that full name and partiality. -/
def findFragments? (model : ReferenceModel) (project : ProjectId) (fullName : String)
    (isPartial : Bool) : Option TypeId :=
  (model.types.findIdx? fun node =>
    node.project = some project && node.fullName = fullName && node.isPartial = isPartial).map
      Handle.mk

/-- The first declared type of a project with that full name. -/
def findDeclared? (model : ReferenceModel) (project : ProjectId) (fullName : String) :
    Option TypeId :=
  (model.types.findIdx? fun node =>
    node.project = some project && node.fullName = fullName).map Handle.mk

/-- The type that a fragment says it is nested in. -/
def outerType? (model : ReferenceModel) (fragment : Fragment) : Option TypeId :=
  match fragment.fact.containingType.filter fun outer => !Text.isBlank outer with
  | some outer =>
    findDeclared? model fragment.project
      (linker.separator.join fragment.fact.trimmedNamespace outer)
  | none => none

/-- The declared types with a full name, in their order. -/
def declaredTypes (model : ReferenceModel) (fullName : String) : List TypeNode :=
  model.types.toList.filter fun node => !node.isExternal && node.fullName = fullName

/-- **The declared type that a full name refers to**, seen from a project. -/
def lookupDeclared? (model : ReferenceModel) (fullName : String) (project : ProjectId) :
    Option TypeId :=
  match declaredTypes model fullName with
  | [] => none
  | first :: others =>
    let near := (project :: linker.reachableFrom model project).findSome? fun place =>
      (first :: others).find? fun node => node.project = some place
    match near with
    | some node => some node.id
    | none => if linker.index.allowsGlobal linker.policy then some first.id else none

/-- The external type with a full name. -/
def findExternal? (model : ReferenceModel) (fullName : String) : Option TypeId :=
  (model.types.findIdx? fun node => node.isExternal && node.fullName = fullName).map Handle.mk

mutual

/-- The link of a type name to the types of a model. -/
def linkIn (model : ReferenceModel) (project : ProjectId) : TypeName → TypeLink
  | ⟨base, args, suffix⟩ =>
    { name := (TypeName.mk base args suffix).render
      target := (linker.lookupDeclared? model base project).or (findExternal? model base)
      genericArguments := linksIn model project args }

/-- The links of a list of type names to the types of a model. -/
def linksIn (model : ReferenceModel) (project : ProjectId) : List TypeName → List TypeLink
  | [] => []
  | arg :: args => linkIn model project arg :: linksIn model project args

end

/-! ## Methods -/

/-- The type has a destructor. -/
def hasDestructor (model : ReferenceModel) (type : TypeId) : Bool :=
  model.methods.any fun node => node.kind = .destructor && node.containingType = type

/-- The canonical names of the parameter types of a method, in order. -/
def signatureOf (model : ReferenceModel) (method : MethodId) : List String :=
  (model.parameters.toList.filter fun node => node.containingMethod = method).map
    fun node => node.typeLink.name

/-- The methods of a type that were declared as the given kind, in their order. -/
def methodsOfKind (model : ReferenceModel) (type : TypeId) (kind : MethodKind) :
    List MethodNode :=
  model.methods.toList.filter fun node => node.containingType = type && node.kind = kind

/-- The first of the methods with that name and these parameter types. -/
def matching? (model : ReferenceModel) (methods : List MethodNode) (name : String)
    (parameterTypes : List String) : Option MethodId :=
  (methods.find? fun node =>
    node.name = name && signatureOf model node.id = parameterTypes).map MethodNode.id

/-- The method or constructor of one declared type that a call matches. -/
def ownMethod? (model : ReferenceModel) (name : String) (parameterTypes : List String)
    (node : TypeNode) : Option MethodId :=
  if node.isExternal then none
  else
    matching? model
      (methodsOfKind model node.id .method ++ methodsOfKind model node.id .constructor) name
      parameterTypes

end Linker

end FactGraph
