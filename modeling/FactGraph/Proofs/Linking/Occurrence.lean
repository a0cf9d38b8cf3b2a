import FactGraph.Linking.Member
import FactGraph.Proofs.Model.Handles

/-!
# Where types are named

A declaration names types in many places: as base types and attributes, as the types of its members,
in its methods and their local functions, and in its metrics. At each place some generic parameters
are in scope. Those of the methods around the place are told apart from those of the types around
it, since the former can be read off the facts of one declaration and the latter cannot.

A link run is followed with a record of all that is named (`Occurrences`): no link and no external
type comes from anywhere else.

## Main definitions

* `TypeName.IsParameter`: the name is a generic parameter in scope
* `TypeLink.Scoped`: a link has targets for all but generic parameters
* `TypeFact.Mentions`, `TypeFact.Calls`: a declaration names a type, a declaration contains a call
* `ReferenceModel.MethodParameters`: the generic parameters of the methods around a place
* `Occurrences`: what is named where, for all types of a model
* `Occurrences.Written`, `Occurrences.Introduces`: the links and external types that come from there
-/

namespace FactGraph

/-! ## Names and parameters -/

namespace TypeName

/-- The name is one of the generic parameters: it has no arguments, and its base is one of them. -/
def IsParameter (parameters : List String) (name : TypeName) : Prop :=
  name.args = [] ∧ name.base ∈ parameters

mutual

/-- A name and its arguments, at every depth. -/
def parts : TypeName → List TypeName
  | ⟨base, args, suffix⟩ => ⟨base, args, suffix⟩ :: partsAll args

/-- The names of a list with their arguments, at every depth. -/
def partsAll : List TypeName → List TypeName
  | [] => []
  | name :: names => name.parts ++ partsAll names

end

end TypeName

/-- **A part of the link has no target exactly if it has no base, or is one of the generic
parameters.** -/
def TypeLink.Scoped (parameters : List String) (link : TypeLink) : Prop :=
  ∀ part ∈ link.parts, part.target = none ↔
    (TypeName.parse part.name).base = "" ∨ (TypeName.parse part.name).IsParameter parameters

/-! ## Declarations -/

/-- The types that a method names, those in its local functions left out. -/
def MethodHead.refs (head : MethodHead) : List TypeRef :=
  head.returnType.toList ++ head.attributes.map AttributeFact.typeRef ++
    head.parameters.flatMap (fun fact =>
      fact.typeRef :: fact.attributes.map AttributeFact.typeRef) ++
    head.localVariables.map LocalVariableFact.typeRef

/-- **A method within a method**: the method itself or a local function at any depth, with the
generic parameters of all methods around its inside. -/
inductive MethodFact.Contains : MethodFact → List String → MethodHead → Prop
  | self (method : MethodFact) : Contains method method.genericParameters method.toMethodHead
  | localFunction {method inner : MethodFact} {parameters : List String} {head : MethodHead}
      (hinner : inner ∈ method.localFunctions) (h : Contains inner parameters head) :
      Contains method (method.genericParameters ++ parameters) head

namespace TypeFact

/-- The types that a declaration names outside of its methods. -/
def refs (fact : TypeFact) : List TypeRef :=
  fact.baseTypes ++ fact.attributes.map AttributeFact.typeRef ++
    fact.fields.flatMap (fun field =>
      field.typeRef :: field.attributes.map AttributeFact.typeRef) ++
    fact.properties.flatMap (fun property =>
      property.typeRef :: property.attributes.map AttributeFact.typeRef)

/-- The accessors, methods and constructors of a declaration, and its destructor. -/
def allMethods (fact : TypeFact) : List MethodFact :=
  fact.properties.flatMap PropertyFact.accessors ++ fact.methods ++ fact.constructors ++
    fact.destructor.toList

/-- **The declaration names a type**, at a place with these generic parameters of methods. -/
inductive Mentions (fact : TypeFact) : List String → String → Prop
  | ref {ref : TypeRef} (h : ref ∈ fact.refs) : Mentions fact [] ref.fullName
  | metric {metric : MetricFact} {name : String} {count : Nat} (h : metric ∈ fact.metrics)
      (hname : (name, count) ∈ metric.counts.entries) : Mentions fact [] name
  | method {method : MethodFact} {parameters : List String} {head : MethodHead} {ref : TypeRef}
      (h : method ∈ fact.allMethods) (hhead : method.Contains parameters head)
      (href : ref ∈ head.refs) : Mentions fact parameters ref.fullName

/-- **The declaration contains the call**, in one of its methods or their local functions. -/
def Calls (fact : TypeFact) (call : CallFact) : Prop :=
  ∃ method ∈ fact.allMethods, ∃ parameters head, method.Contains parameters head ∧
    call ∈ head.calledMethods

end TypeFact

/-! ## Methods of a model -/

namespace ReferenceModel

/-- The generic parameters of the methods around a place, outermost first. A place in a type that is
in no method has none. -/
inductive MethodParameters (model : ReferenceModel) : Option MethodId → List String → Prop
  | outside : MethodParameters model none []
  | inside {id : MethodId} {node : MethodNode} {parameters : List String}
      (hnode : model.method? id = some node)
      (h : MethodParameters model node.containingMethod parameters) :
      MethodParameters model (some id) (parameters ++ node.genericParameters)

end ReferenceModel

/-! ## All that is named -/

/-- **What is named where.** The types are those of a model. -/
structure Occurrences where
  /-- A declaration of the type names another type, where the first generic parameters are those of
  types, and the second ones those of methods. -/
  names : TypeId → List String → List String → String → Prop
  /-- Some declaration contains the call. -/
  calls : CallFact → Prop

namespace Occurrences

variable (source : Occurrences)

/-- All of the references are named in a declaration of the type, at a place with these generic
parameters. -/
def NamesAll (type : TypeId) (outer parameters : List String) (refs : List TypeRef) : Prop :=
  ∀ ref ∈ refs, source.names type outer parameters ref.fullName

/-- All that the method names and calls is known, its local functions included. The first generic
parameters are those of the types around it, the second ones those of the methods around it. -/
def Covers (type : TypeId) (outer around : List String) (method : MethodFact) : Prop :=
  ∀ parameters head, method.Contains parameters head →
    source.NamesAll type outer (around ++ parameters) head.refs ∧
      ∀ call ∈ head.calledMethods, source.calls call

/-- **The links are written in the type**, at a place with these generic parameters of methods:
each is the link of a name that a declaration of the type has there, and all of its parts have
targets but those that are generic parameters or nameless. -/
def Written (type : TypeId) (parameters : List String) (links : List TypeLink) : Prop :=
  ∀ link ∈ links, ∃ outer name, source.names type outer parameters name ∧
    link.name = (TypeName.parse name).render ∧ link.Scoped (outer ++ parameters)

/-- **The full name is introduced**: it is the base of a part of a name that is no generic
parameter there, or the base of the owner of a call. -/
def Introduces (fullName : String) : Prop :=
  (∃ type outer parameters name, source.names type outer parameters name ∧
    ∃ part ∈ (TypeName.parse name).parts, part.base = fullName ∧
      ¬part.IsParameter (outer ++ parameters)) ∨
  ∃ call, source.calls call ∧ (TypeName.parse call.containingType).base = fullName

variable {source} {type : TypeId} {outer around parameters : List String}
  {links others : List TypeLink}

theorem NamesAll.mono {refs others : List TypeRef}
    (h : source.NamesAll type outer parameters others) (hrefs : refs ⊆ others) :
    source.NamesAll type outer parameters refs :=
  fun ref href => h ref (hrefs href)

theorem Covers.localFunctions {method inner : MethodFact}
    (h : source.Covers type outer around method) (hinner : inner ∈ method.localFunctions) :
    source.Covers type outer (around ++ method.genericParameters) inner := by
  intro parameters head hhead
  rw [List.append_assoc]
  exact h _ head (.localFunction hinner hhead)

/-- A part of a name that is no generic parameter introduces its base. -/
theorem introduces_of_names {name : String} (h : source.names type outer parameters name)
    {part : TypeName} (hpart : part ∈ (TypeName.parse name).parts)
    (hfree : ¬part.IsParameter (outer ++ parameters)) : source.Introduces part.base :=
  .inl ⟨type, outer, parameters, name, h, part, hpart, rfl, hfree⟩

theorem written_nil : source.Written type parameters [] := by
  simp [Written]

theorem Written.append (h : source.Written type parameters links)
    (h' : source.Written type parameters others) :
    source.Written type parameters (links ++ others) :=
  List.forall_mem_append.2 ⟨h, h'⟩

end Occurrences

end FactGraph
