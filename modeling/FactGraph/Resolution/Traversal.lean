import FactGraph.Resolution.Basic

/-!
# The type names of a declaration

Every place of a declaration where a type is named, in a fixed order and with the scope of the
place. What is done with the names is left open: an action gives the new name for a written one,
with whatever effect, and everything else of the declaration stays as it is.

A method brings its generic parameters into scope, for its local functions too. The base types of
a declaration are outside of its own scope.

## Main definitions

* `NameAction`: what is done with the names
* `TypeFact.mapNames`: a declaration with its names replaced
-/

namespace FactGraph

/-- What is done with the type names of a declaration. -/
structure NameAction (m : Type → Type) where
  /-- The new name for a written one. -/
  onName : ResolutionScope → String → m String
  /-- The owner of a call of the given method that is written without an owner. -/
  onMissingOwner : ResolutionScope → String → m String

variable {m : Type → Type} [Monad m]

/-! ## References -/

namespace TypeRef

mutual

/-- The reference with its names replaced, its own before those of its arguments. -/
def mapNames (action : String → m String) : TypeRef → m TypeRef
  | ⟨name, args⟩ => do
    let name ← action name
    let args ← mapNamesAll action args
    return ⟨name, args⟩

/-- The references of a list with their names replaced. -/
def mapNamesAll (action : String → m String) : List TypeRef → m (List TypeRef)
  | [] => return []
  | arg :: args => do
    let arg ← mapNames action arg
    let args ← mapNamesAll action args
    return arg :: args

end

end TypeRef

/-- The attribute with its names replaced. -/
def AttributeFact.mapNames (action : String → m String) (fact : AttributeFact) :
    m AttributeFact := do
  let typeRef ← fact.typeRef.mapNames action
  return { fact with typeRef }

/-- The call site with its names replaced, the owner before the parameter types. -/
def CallFact.mapNames (action : NameAction m) (scope : ResolutionScope) (fact : CallFact) :
    m CallFact := do
  let containingType ←
    if Text.isBlank fact.containingType then action.onMissingOwner scope fact.name
    else action.onName scope fact.containingType
  let parameterTypes ← fact.parameterTypes.mapM (TypeRef.mapNames (action.onName scope))
  return { fact with containingType, parameterTypes }

/-- The metric with its names replaced, in the order of the old names. The counts of names that
become equal are added. -/
def MetricFact.mapNames (action : String → m String) (fact : MetricFact) : m MetricFact := do
  let counts ← fact.counts.entries.foldlM
    (fun (counts : Counts) (entry : String × Nat) => do
      let name ← action entry.1
      return counts.add name entry.2) .empty
  return { fact with counts }

/-! ## Members -/

/-- The parameter with its names replaced. -/
def ParameterFact.mapNames (action : String → m String) (fact : ParameterFact) :
    m ParameterFact := do
  let typeRef ← fact.typeRef.mapNames action
  let attributes ← fact.attributes.mapM (AttributeFact.mapNames action)
  return { fact with typeRef, attributes }

/-- The local variable with its names replaced. -/
def LocalVariableFact.mapNames (action : String → m String) (fact : LocalVariableFact) :
    m LocalVariableFact := do
  let typeRef ← fact.typeRef.mapNames action
  return { fact with typeRef }

/-- What a method declares apart from its local functions, with its names replaced. The scope is
the one inside of the method. -/
def MethodHead.mapNames (action : NameAction m) (scope : ResolutionScope) (head : MethodHead) :
    m MethodHead := do
  let returnType ← head.returnType.mapM (TypeRef.mapNames (action.onName scope))
  let parameters ← head.parameters.mapM (ParameterFact.mapNames (action.onName scope))
  let localVariables ← head.localVariables.mapM (LocalVariableFact.mapNames (action.onName scope))
  let calledMethods ← head.calledMethods.mapM (CallFact.mapNames action scope)
  let attributes ← head.attributes.mapM (AttributeFact.mapNames (action.onName scope))
  return { head with returnType, parameters, localVariables, calledMethods, attributes }

namespace MethodFact

mutual

/-- The method with its names replaced, those of its local functions last. -/
def mapNames (action : NameAction m) (scope : ResolutionScope) : MethodFact → m MethodFact
  | ⟨head, localFunctions⟩ => do
    let inner := scope.withTypeParameters head.genericParameters
    let head ← head.mapNames action inner
    let localFunctions ← mapNamesAll action inner localFunctions
    return ⟨head, localFunctions⟩

/-- The methods of a list with their names replaced. -/
def mapNamesAll (action : NameAction m) (scope : ResolutionScope) :
    List MethodFact → m (List MethodFact)
  | [] => return []
  | method :: methods => do
    let method ← mapNames action scope method
    let methods ← mapNamesAll action scope methods
    return method :: methods

end

end MethodFact

/-- The field with its names replaced. -/
def FieldFact.mapNames (action : String → m String) (fact : FieldFact) : m FieldFact := do
  let typeRef ← fact.typeRef.mapNames action
  let attributes ← fact.attributes.mapM (AttributeFact.mapNames action)
  return { fact with typeRef, attributes }

/-- The property with its names replaced. -/
def PropertyFact.mapNames (action : NameAction m) (scope : ResolutionScope)
    (fact : PropertyFact) : m PropertyFact := do
  let typeRef ← fact.typeRef.mapNames (action.onName scope)
  let accessors ← fact.accessors.mapM (MethodFact.mapNames action scope)
  let attributes ← fact.attributes.mapM (AttributeFact.mapNames (action.onName scope))
  return { fact with typeRef, accessors, attributes }

/-! ## Declarations -/

/-- **A declaration with its names replaced.** The scope is the one inside of the type. -/
def TypeFact.mapNames (action : NameAction m) (scope : ResolutionScope) (fact : TypeFact) :
    m TypeFact := do
  let baseTypes ←
    fact.baseTypes.mapM (TypeRef.mapNames (action.onName scope.outsideCurrentType))
  let attributes ← fact.attributes.mapM (AttributeFact.mapNames (action.onName scope))
  let fields ← fact.fields.mapM (FieldFact.mapNames (action.onName scope))
  let properties ← fact.properties.mapM (PropertyFact.mapNames action scope)
  let methods ← fact.methods.mapM (MethodFact.mapNames action scope)
  let constructors ← fact.constructors.mapM (MethodFact.mapNames action scope)
  let destructor ← fact.destructor.mapM (MethodFact.mapNames action scope)
  let metrics ← fact.metrics.mapM (MetricFact.mapNames (action.onName scope))
  return { fact with
    baseTypes, attributes, fields, properties, methods, constructors, destructor, metrics }

/-- A compilation unit with the names of its declarations replaced, where `scopeOf` gives the
scope inside of a declaration. A declaration without a name is left as it is. -/
def UnitFact.mapNames (action : NameAction m) (scopeOf : TypeFact → ResolutionScope)
    (fact : UnitFact) : m UnitFact := do
  let types ← fact.types.mapM fun type =>
    if type.isNamed then type.mapNames action (scopeOf type) else return type
  return { fact with types }

/-- A project with the names of its declarations replaced, where `scopeOf` gives the scope inside
of a declaration in the file of a path. -/
def ProjectFact.mapNames (action : NameAction m)
    (scopeOf : (filePath : String) → TypeFact → ResolutionScope) (fact : ProjectFact) :
    m ProjectFact := do
  let units ← fact.units.mapM fun unit => unit.mapNames action (scopeOf unit.path)
  return { fact with units }

end FactGraph
