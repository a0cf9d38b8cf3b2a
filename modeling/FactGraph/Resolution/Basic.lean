import FactGraph.Scope.Index

/-!
# Looking up a name: where and with what outcome

## Main definitions

* `Tier`: which step of a look-up gave the answer
* `Resolution`: what a name stands for, if anything
* `ResolutionScope`: where a name occurs
* `Resolver`: the index and the policy that names are looked up with
-/

namespace FactGraph

/-! ## Outcomes -/

/-- The steps of a look-up, in their order. -/
inductive Tier where
  /-- The name is a full name already. -/
  | qualified
  /-- The types and namespaces around the occurrence. -/
  | enclosingScope
  /-- The imports of the file. -/
  | imports
  /-- A search through the projects. -/
  | fallback
  deriving DecidableEq, Inhabited

/-- The word for a tier. -/
def Tier.text : Tier → String
  | .qualified => "qualified"
  | .enclosingScope => "enclosing_scope"
  | .imports => "import"
  | .fallback => "fallback"

/-- What a name stands for. -/
inductive Resolution where
  | found (fullName : String) (tier : Tier)
  /-- Several types are equally near; the first one is taken. -/
  | ambiguous (chosen : String) (candidates : List String) (tier : Tier)
  | notFound
  deriving DecidableEq, Inhabited

namespace Resolution

/-- The full name to use, if there is one. -/
def fullName? : Resolution → Option String
  | .found fullName _ => some fullName
  | .ambiguous chosen _ _ => some chosen
  | .notFound => none

/-- Several types were equally near. -/
def isAmbiguous : Resolution → Bool
  | .ambiguous .. => true
  | _ => false

/-- The outcome for candidates that are equally near, in the order of preference. -/
def ofCandidates (tier : Tier) : List String → Resolution
  | [] => .notFound
  | [fullName] => .found fullName tier
  | chosen :: others => .ambiguous chosen (chosen :: others) tier

/-- The first outcome, unless it found nothing. -/
def orElse : Resolution → (Unit → Resolution) → Resolution
  | .notFound, other => other ()
  | outcome, _ => outcome

end Resolution

/-! ## Scopes -/

/-- Where a name occurs. -/
structure ResolutionScope where
  /-- The position of the project in the index. -/
  project : Nat
  projectPath : String
  filePath : String
  namespaceName : String
  /-- The full names of the types around the occurrence, innermost first. -/
  enclosingTypes : List String
  /-- The generic parameters in scope, which are no types of the repository. -/
  typeParameters : List String
  deriving DecidableEq, Inhabited

namespace ResolutionScope

/-- The innermost type around the occurrence. -/
def currentType? (scope : ResolutionScope) : Option String :=
  scope.enclosingTypes.head?

/-- The innermost type around the occurrence, or the namespace if there is none. -/
def place (scope : ResolutionScope) : String :=
  scope.currentType?.getD scope.namespaceName

/-- The scope with more generic parameters. -/
def withTypeParameters (scope : ResolutionScope) (parameters : List String) :
    ResolutionScope :=
  { scope with typeParameters := scope.typeParameters ++ parameters }

/-- The scope outside of the innermost type, in which its base types are looked up. -/
def outsideCurrentType (scope : ResolutionScope) : ResolutionScope :=
  { scope with enclosingTypes := scope.enclosingTypes.tail }

end ResolutionScope

/-- What names are looked up with. -/
structure Resolver where
  index : ScopeIndex
  policy : FallbackPolicy

namespace Resolver

/-- The separator of the names. -/
abbrev separator (resolver : Resolver) : Separator :=
  resolver.index.separator

/-- The full names of a declared type and of the types around it, innermost first. -/
def enclosingChain (resolver : Resolver) (fact : TypeFact) : List String :=
  let sep := resolver.separator
  let own := fact.fullName sep
  match fact.outerName? with
  | some outer =>
    own :: sep.outwardBeyond fact.trimmedNamespace.utf8ByteSize
      (sep.join fact.trimmedNamespace outer)
  | none => [own]

/-- The scope inside of a declared type. Its generic parameters, and those that the index knows
of the types around it, are in scope. -/
def scopeOf (resolver : Resolver) (project : Nat) (projectPath filePath : String)
    (fact : TypeFact) : ResolutionScope :=
  let enclosingTypes := resolver.enclosingChain fact
  { project, projectPath, filePath
    namespaceName := fact.trimmedNamespace
    enclosingTypes
    typeParameters :=
      enclosingTypes.flatMap resolver.index.genericParameters ++ fact.genericParameters }

/-- The scope at a place that is given by names: inside of a type, or directly in a namespace.
There is none in a project that the index does not know. -/
def scopeAt? (resolver : Resolver) (projectPath filePath namespaceName : String)
    (typeFullName : Option String) : Option ResolutionScope := do
  let project ← resolver.index.projectIndex? projectPath
  return {
    project, projectPath, filePath, namespaceName
    enclosingTypes :=
      match typeFullName with
      | some fullName => resolver.separator.outwardBeyond namespaceName.utf8ByteSize fullName
      | none => []
    typeParameters := [] }

end Resolver

end FactGraph
