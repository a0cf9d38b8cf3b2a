import FactGraph.Model.Basic

/-!
# Complexity

Statistics of the cyclomatic complexity of methods. Synthetic methods have no complexity and are
left out; constructors, destructors, accessors and local functions count like methods.

## Main definitions

* `ComplexitySummary.ofValues?`: the statistics of a list of complexities
* `ReferenceModel.typeComplexity?`, `ReferenceModel.fileComplexity?`,
  `ReferenceModel.projectComplexity?`: the statistics of a part of a model
-/

namespace FactGraph

/-- Statistics of a list of complexities. -/
structure ComplexitySummary where
  max : Nat
  min : Nat
  /-- The sum, or the bound below if it is larger. -/
  sum : Nat
  /-- The average, rounded down. -/
  avg : Nat
  deriving DecidableEq, Inhabited

namespace ComplexitySummary

/-- The largest sum that is stored: it has 32 bits. -/
def sumBound : Nat := 0xFFFFFFFF

/-- The sum of complexities, added up in a word of 64 bits. -/
def total (values : List Nat) : UInt64 :=
  values.foldl (fun total value => total + UInt64.ofNat value) 0

/-- The statistics of a list of complexities. An empty list has none. -/
def ofValues? : List Nat → Option ComplexitySummary
  | [] => none
  | value :: values =>
    let total := total (value :: values)
    some {
      max := values.foldl Nat.max value
      min := values.foldl Nat.min value
      sum := Nat.min total.toNat sumBound
      -- The quotient is cut down to 32 bits, and not bounded.
      avg := (total / UInt64.ofNat (values.length + 1)).toUInt32.toNat }

end ComplexitySummary

namespace ReferenceModel

variable (model : ReferenceModel)

/-- The complexities of the methods of some types, in the order of the methods. -/
def complexities (types : List TypeId) : List Nat :=
  (model.methods.toList.filter fun node =>
    !node.isSynthetic && types.contains node.containingType).map
      MethodNode.cyclomaticComplexity

/-- The statistics of a type. -/
def typeComplexity? (id : TypeId) : Option ComplexitySummary :=
  ComplexitySummary.ofValues? (model.complexities [id])

/-- The statistics of the types with a declaration in a file. A type with fragments in several
files counts whole in each of them. -/
def fileComplexity? (id : FileId) : Option ComplexitySummary :=
  match model.file? id with
  | some node => ComplexitySummary.ofValues? (model.complexities node.types)
  | none => none

/-- The types of a project. -/
def typesOfProject (id : ProjectId) : List TypeId :=
  (model.types.toList.filter fun node => node.project = some id).map TypeNode.id

/-- The statistics of a project. -/
def projectComplexity? (id : ProjectId) : Option ComplexitySummary :=
  ComplexitySummary.ofValues? (model.complexities (model.typesOfProject id))

end ReferenceModel

end FactGraph
