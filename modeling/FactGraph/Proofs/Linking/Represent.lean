import FactGraph.Proofs.Linking.Draft.Steps
import Mathlib.Data.List.Forall2

/-!
# What a model keeps of its facts

A member is kept if it has what it needs: a field or a property a name and a type, a method a
name, a parameter or a local variable a type. Anything else is skipped, and so is everything
inside of it; each skip is one finding. This module says, from the facts alone, what is kept and
how much is skipped, and when nodes of a model stand for facts: they are called the same, their
types have the same canonical names, and what they contain stands for what is kept of the
contents, in the same order.

## Main definitions

* `Label`: a typed member as it reads
* `MethodFact.skips`, `TypeFact.skips`: how many findings a method or a declaration makes
* `ReferenceModel.Represents`: a method node stands for a method fact
* `ReferenceModel.RepresentsProperty`: a property node stands for a property fact
-/

namespace FactGraph

/-! ## Labels -/

/-- The canonical name of the type that a reference names. -/
def TypeRef.canonicalName (ref : TypeRef) : String :=
  (TypeName.parse ref.fullName).render

/-- A typed member as it reads: its name, and the canonical name of its type. -/
structure Label where
  name : String
  typeName : String

def FieldFact.label (fact : FieldFact) : Label := ⟨fact.name, fact.typeRef.canonicalName⟩

def PropertyFact.label (fact : PropertyFact) : Label := ⟨fact.name, fact.typeRef.canonicalName⟩

def ParameterFact.label (fact : ParameterFact) : Label := ⟨fact.name, fact.typeRef.canonicalName⟩

def LocalVariableFact.label (fact : LocalVariableFact) : Label :=
  ⟨fact.name, fact.typeRef.canonicalName⟩

def FieldNode.label (node : FieldNode) : Label := ⟨node.name, node.typeLink.name⟩

def PropertyNode.label (node : PropertyNode) : Label := ⟨node.name, node.typeLink.name⟩

def ParameterNode.label (node : ParameterNode) : Label := ⟨node.name, node.typeLink.name⟩

def LocalVariableNode.label (node : LocalVariableNode) : Label := ⟨node.name, node.typeLink.name⟩

namespace ReferenceModel

variable (model : ReferenceModel)

/-- How the field of a handle reads. -/
def fieldLabel? (id : FieldId) : Option Label := (model.field? id).map FieldNode.label

/-- How the parameter of a handle reads. -/
def parameterLabel? (id : ParameterId) : Option Label :=
  (model.parameter? id).map ParameterNode.label

/-- How the local variable of a handle reads. -/
def localVariableLabel? (id : LocalVariableId) : Option Label :=
  (model.localVariable? id).map LocalVariableNode.label

end ReferenceModel

/-! ## What is kept -/

/-- The field has a name and a type. -/
def FieldFact.isComplete (fact : FieldFact) : Bool :=
  !Text.isBlank fact.name && Linker.isNamedRef fact.typeRef

/-- The property has a name and a type. -/
def PropertyFact.isComplete (fact : PropertyFact) : Bool :=
  !Text.isBlank fact.name && Linker.isNamedRef fact.typeRef

/-- The parameter has a type. -/
def ParameterFact.isTyped (fact : ParameterFact) : Bool := Linker.isNamedRef fact.typeRef

/-- The local variable has a type. -/
def LocalVariableFact.isTyped (fact : LocalVariableFact) : Bool := Linker.isNamedRef fact.typeRef

/-- The method has a name. -/
def MethodFact.isNamed (fact : MethodFact) : Bool := !Text.isBlank fact.name

/-! ## What is skipped -/

/-- The parameters and local variables without a type and the calls without a name. -/
def MethodHead.skips (head : MethodHead) : Nat :=
  head.parameters.countP (!·.isTyped) + head.localVariables.countP (!·.isTyped) +
    head.calledMethods.countP fun call => Text.isBlank call.name

mutual

/-- **What is skipped of a method**: the method itself if it has no name, and otherwise what is
skipped inside of it and inside of its local functions. -/
def MethodFact.skips : MethodFact → Nat
  | ⟨head, localFunctions⟩ =>
    if Text.isBlank head.name then 1 else head.skips + MethodFact.skipsAll localFunctions

/-- What is skipped of the methods of a list. -/
def MethodFact.skipsAll : List MethodFact → Nat
  | [] => 0
  | method :: methods => MethodFact.skips method + MethodFact.skipsAll methods

end

theorem MethodFact.skipsAll_append (methods others : List MethodFact) :
    skipsAll (methods ++ others) = skipsAll methods + skipsAll others := by
  induction methods with
  | nil => simp [skipsAll]
  | cons method methods ih => rw [List.cons_append, skipsAll, skipsAll, ih, Nat.add_assoc]

/-- What is skipped of a property: the property itself if it is incomplete, and otherwise what is
skipped of its accessors. -/
def PropertyFact.skips (fact : PropertyFact) : Nat :=
  if fact.isComplete then MethodFact.skipsAll fact.accessors else 1

/-- What is skipped of the properties of a list. -/
def PropertyFact.skipsAll : List PropertyFact → Nat
  | [] => 0
  | property :: properties => property.skips + skipsAll properties

namespace TypeFact

/-- What is skipped of the destructor of a declaration: all of it if its type has one already. -/
def destructorSkips (fact : TypeFact) (hasDestructor : Bool) : Nat :=
  match fact.destructor with
  | none => 0
  | some destructor => if hasDestructor then 1 else destructor.skips

/-- **What is skipped of a named declaration**, whose type may have a destructor already. -/
def skips (fact : TypeFact) (hasDestructor : Bool) : Nat :=
  fact.baseTypes.countP (!Linker.isNamedRef ·) + fact.fields.countP (!·.isComplete) +
    PropertyFact.skipsAll fact.properties + MethodFact.skipsAll fact.methods +
    MethodFact.skipsAll fact.constructors + fact.destructorSkips hasDestructor

end TypeFact

/-! ## Nodes that stand for facts -/

namespace ReferenceModel

/-- **The method node stands for the method fact**: it has its name, the labels of its typed
parameters and local variables, and method nodes that stand for its named local functions, all in
the order of the fact. -/
inductive Represents (model : ReferenceModel) : MethodId → MethodFact → Prop
  | intro {id : MethodId} {fact : MethodFact} (node : MethodNode)
      (found : model.method? id = some node)
      (name : node.name = fact.name)
      (parameters : node.parameters.map model.parameterLabel? =
        (fact.parameters.filter ParameterFact.isTyped).map (some ·.label))
      (localVariables : node.localVariables.map model.localVariableLabel? =
        (fact.localVariables.filter LocalVariableFact.isTyped).map (some ·.label))
      (localFunctions : List.Forall₂ (Represents model) node.localFunctions
        (fact.localFunctions.filter MethodFact.isNamed)) :
      Represents model id fact

/-- **The property node stands for the property fact**: it has its label, and method nodes that
stand for its named accessors, in their order. -/
structure RepresentsProperty (model : ReferenceModel) (id : PropertyId) (fact : PropertyFact) :
    Prop where
  node : ∃ node, model.property? id = some node ∧ node.label = fact.label ∧
    List.Forall₂ model.Represents node.accessors (fact.accessors.filter MethodFact.isNamed)

end ReferenceModel

end FactGraph
