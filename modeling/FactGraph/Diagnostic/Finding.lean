import FactGraph.Diagnostic.Basic

/-!
# The findings of a run

Everything that indexing, resolving and linking can find wrong, with its severity and its
wording. The passes say which finding they made; how it reads is decided here.

## Main definitions

* one function for each finding, in the namespace `Diagnostic`
-/

namespace FactGraph.Diagnostic

/-- An import directive without a source, or without the alias that its kind needs. -/
def incompleteImport (projectPath filePath source : String) : Diagnostic where
  severity := .warning
  kind := .malformedFact
  message := "skipping incomplete import '" ++ source ++ "'"
  context := (DiagnosticContext.inFile projectPath filePath).withName source

/-- A namespace with an empty segment. -/
def malformedNamespace (projectPath filePath namespaceName : String) : Diagnostic where
  severity := .info
  kind := .malformedNamespace
  message := "namespace '" ++ namespaceName ++ "' is malformed and is kept as one segment"
  context := (DiagnosticContext.inFile projectPath filePath).withName namespaceName

/-- A reference to a project that no solution lists. -/
def missingProject (projectPath reference : String) : Diagnostic where
  severity := .warning
  kind := .missingProjectReference
  message := "project '" ++ projectPath ++ "' references '" ++ reference ++
    "', which is not part of the repository"
  context := (DiagnosticContext.inProject projectPath).withName reference

/-- A name that several imports, or several types met by the search through the projects, give a
meaning to. -/
def ambiguity (fromSearch : Bool) (projectPath filePath name chosen : String)
    (candidates : List String) : Diagnostic where
  severity := if fromSearch then .info else .warning
  kind := if fromSearch then .fallbackAmbiguity else .ambiguousName
  message := "'" ++ name ++ "' is ambiguous between " ++ String.intercalate ", " candidates ++
    "; using '" ++ chosen ++ "'"
  context :=
    ((DiagnosticContext.inFile projectPath filePath).withName name).withCandidates candidates

/-- A type declaration without a name. -/
def namelessType (context : DiagnosticContext) (namespaceName : String) : Diagnostic where
  severity := .warning
  kind := .malformedFact
  message := "skipping type declaration without a name"
  context := context.withName namespaceName

/-- A member that lacks something; `what` says what it is and what it lacks. -/
def skippedMember (context : DiagnosticContext) (what name : String) : Diagnostic where
  severity := .warning
  kind := .malformedFact
  message := "skipping " ++ what ++ " '" ++ name ++ "'"
  context := context.withName name

/-- A call of a declared type that none of its methods matches; `method` is the full name of the
called method. -/
def unresolvedCall (projectPath : String) (filePath : Option String) (method : String)
    (parameterTypes : List String) : Diagnostic where
  severity := .info
  kind := .unresolvedCall
  message := "no overload of '" ++ method ++ "(" ++ String.intercalate ", " parameterTypes ++
    ")' matches the call"
  context := { (DiagnosticContext.inProject projectPath).withName method with filePath }

end FactGraph.Diagnostic
