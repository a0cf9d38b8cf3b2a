import FactGraph.Fact.Basic

/-!
# Building facts

Short ways of writing facts down by hand, one step after another: a declaration is started by
`TypeFact.ofClass` or `MethodFact.named` and extended by the steps below.
-/

namespace FactGraph

/-- A reference to a type by name alone. -/
def TypeRef.named (name : String) : TypeRef := { name }

/-- A call of a method of a type, with parameters of these types. -/
def CallFact.of (owner name : String) (parameterTypes : List String) : CallFact :=
  { containingType := owner, name, parameterTypes := parameterTypes.map TypeRef.named }

/-- A parameter of a type. -/
def ParameterFact.of (name typeName : String) : ParameterFact :=
  { name, typeRef := .named typeName }

/-- A field of a type. -/
def FieldFact.of (name typeName : String) : FieldFact :=
  { name, typeRef := .named typeName }

namespace MethodFact

/-- A method with nothing but a name. -/
def named (name : String) : MethodFact := { name }

/-- Gives the method parameters of these types, called `arg0`, `arg1` and so on. -/
def withParameters (method : MethodFact) (typeNames : List String) : MethodFact :=
  { method with
    parameters := typeNames.zipIdx.map fun (typeName, i) =>
      ParameterFact.of ("arg" ++ toString i) typeName }

/-- Gives the method a return type. -/
def withReturnType (method : MethodFact) (typeName : String) : MethodFact :=
  { method with returnType := some (.named typeName) }

/-- Adds a call site. -/
def withCall (method : MethodFact) (call : CallFact) : MethodFact :=
  { method with calledMethods := method.calledMethods ++ [call] }

/-- Gives the method its complexity. -/
def withComplexity (method : MethodFact) (complexity : Nat) : MethodFact :=
  { method with cyclomaticComplexity := complexity }

end MethodFact

namespace TypeFact

/-- A class with nothing but a name. -/
def ofClass (namespaceName name : String) : TypeFact := { name, namespaceName }

/-- Makes the declaration a fragment. -/
def asPartial (fact : TypeFact) : TypeFact := { fact with isPartial := true }

/-- Puts the declaration into enclosing types. -/
def nestedIn (fact : TypeFact) (outer : String) : TypeFact :=
  { fact with containingType := some outer }

/-- Adds a base type. -/
def withBase (fact : TypeFact) (typeName : String) : TypeFact :=
  { fact with baseTypes := fact.baseTypes ++ [.named typeName] }

/-- Adds a field. -/
def withField (fact : TypeFact) (field : FieldFact) : TypeFact :=
  { fact with fields := fact.fields ++ [field] }

/-- Adds a method. -/
def withMethod (fact : TypeFact) (method : MethodFact) : TypeFact :=
  { fact with methods := fact.methods ++ [method] }

/-- Adds a metric; the last count of a name stands. -/
def withMetric (fact : TypeFact) (relation : RelationKind) (counts : List (String × Nat)) :
    TypeFact :=
  { fact with metrics := fact.metrics ++ [{ relation, counts := Counts.ofList counts }] }

end TypeFact

end FactGraph
