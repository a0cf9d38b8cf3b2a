import FactGraph.Name.TypeName
import FactGraph.Resolution.Basic

/-!
# The tiers of a look-up

A name without generic arguments, which may be qualified, is looked up in four steps, and the
first step with an answer decides.

1. **Qualified.** A name with a separator that is visible as a full name stands for itself.
2. **Enclosing scope.** The name behind each type around the occurrence, then behind each
   namespace around it, is tried as a full name of the own project, innermost first.
3. **Imports.** A type alias of the head of the name, a namespace alias of the head of a qualified
   name, then the name behind each imported namespace that makes it visible.
4. **Fallback.** The declarations whose full name ends in the name, in the first project that has
   any: the own one, the reachable ones, and all others if the policy allows it.

The target of a type alias is looked up without aliases, so that an alias never leads to itself.

## Main definitions

* `Resolver.lookup`: the outcome for a name in a scope
* `Resolver.lookupWithoutAliases`: the same without the aliases of the file
-/

namespace FactGraph.Resolver

variable (resolver : Resolver) (scope : ResolutionScope)

/-! ## The enclosing scope -/

/-- The names of the types and namespaces around an occurrence, innermost first. -/
def surroundings : List String :=
  scope.enclosingTypes ++ resolver.index.namespaces.chain scope.namespaceName

/-- The first of the names behind what is around the occurrence that the own project declares. -/
def enclosingMatch? (name : String) : Option String :=
  ((resolver.surroundings scope).map fun outer => resolver.separator.join outer name).find?
    fun fullName => resolver.index.isDeclaredIn fullName scope.project

/-! ## Imports -/

/-- The full name may be used at the occurrence. -/
def isVisible (fullName : String) : Bool :=
  resolver.index.isVisibleFrom fullName scope.project resolver.policy

/-- The imports of the file of the occurrence. -/
def importEntries (kind : ImportKind) : List ImportEntry :=
  match resolver.index.importsOf? scope.filePath with
  | some table => table.ofKind kind
  | none => []

/-- The name behind each imported namespace, as far as that makes it visible, each once. -/
def importCandidates (name : String) : List String :=
  (((resolver.importEntries scope .plain).map fun entry =>
    resolver.separator.join entry.sourceName name).filter
      fun fullName => resolver.isVisible scope fullName).foldl
        (fun candidates fullName =>
          if fullName ∈ candidates then candidates else candidates ++ [fullName]) []

/-! ## Fallback -/

/-- The projects to search, nearest first. -/
def searchOrder : List Nat :=
  let near := scope.project :: resolver.index.reachableProjects scope.project
  if resolver.index.allowsGlobal resolver.policy then
    near ++ (List.range resolver.index.projects.length).filter fun project => project ∉ near
  else near

/-- The full names in a project that end in the name, each once. -/
def candidatesIn (name : String) (project : Nat) : List String :=
  (resolver.index.declarationsEndingWith name project).foldl
    (fun candidates declaration =>
      if declaration.fullName ∈ candidates then candidates
      else candidates ++ [declaration.fullName]) []

/-- The candidates of the first project that has any. -/
def fallbackMatch (name : String) : Resolution :=
  .ofCandidates .fallback
    (((resolver.searchOrder scope).map (resolver.candidatesIn name)).find?
      (fun candidates => !candidates.isEmpty) |>.getD [])

/-! ## The look-up -/

/-- The steps of a look-up, where `byAlias?` says what a name stands for by an alias. -/
def lookupWith (byAlias? : String → Option String) (name : String) : Resolution :=
  let name := Text.trim name
  if name = "" then .notFound
  -- A full name that cannot be seen is looked up like any other name.
  else if resolver.separator.occursIn name && resolver.isVisible scope name then
    .found name .qualified
  else
    match resolver.enclosingMatch? scope name with
    | some fullName => .found fullName .enclosingScope
    | none =>
      match byAlias? name with
      | some fullName => .found fullName .imports
      | none =>
        (Resolution.ofCandidates .imports (resolver.importCandidates scope name)).orElse
          fun _ => resolver.fallbackMatch scope name

/-- The outcome for a name when the aliases of the file are left out. -/
def lookupWithoutAliases (name : String) : Resolution :=
  resolver.lookupWith scope (fun _ => none) name

mutual

/-- The tree of a type name with every base replaced by the full name that it stands for, the
aliases of the file left out. A base that stands for nothing is kept. -/
def expand : TypeName → TypeName
  | ⟨base, args, suffix⟩ =>
    { base := (resolver.lookupWithoutAliases scope base).fullName?.getD base
      args := expandAll args
      suffix }

/-- The trees of a list, each with its bases replaced. -/
def expandAll : List TypeName → List TypeName
  | [] => []
  | arg :: args => expand arg :: expandAll args

end

/-- What the target of a type alias stands for, with its generic arguments. -/
def aliasTarget (target : String) : String :=
  (resolver.expand scope (TypeName.parse target)).render

/-- What a name stands for by an alias of the file: a type alias of its first segment, or a
namespace alias of the first segment of a qualified name. -/
def aliasMatch? (name : String) : Option String :=
  match resolver.index.importsOf? scope.filePath with
  | none => none
  | some table =>
    match resolver.separator.splitFirst? name with
    | none => (table.typeAlias? name).map fun entry => resolver.aliasTarget scope entry.sourceName
    | some (head, rest) =>
      match table.typeAlias? head with
      | some entry =>
        some (resolver.separator.join (resolver.aliasTarget scope entry.sourceName) rest)
      | none =>
        (table.namespaceAlias? head).map fun entry =>
          resolver.separator.join entry.sourceName rest

/-- **The outcome for a name**, which has no generic arguments but may be qualified. -/
def lookup (name : String) : Resolution :=
  resolver.lookupWith scope (resolver.aliasMatch? scope) name

end FactGraph.Resolver
