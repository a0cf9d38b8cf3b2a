import FactGraph.Resolution.Lookup

/-!
# Resolving with a memory

While the names of a project are resolved, the answer to every look-up is remembered by file, place
and name, where the place is the innermost type around the occurrence, or the namespace outside of
all types. A name that was asked for before is not looked up again. An ambiguity is reported when
it is first met, and once for each file and name.

A written type name is resolved part by part: its generic arguments first, from left to right, then
its base. A base without arguments that is a generic parameter in scope is left alone.

## Main definitions

* `Memory`: the answers, the reported ambiguities and the findings so far
* `Resolver.lookupOnce`: what a base stands for
* `Resolver.resolveName`: a written type name with every part replaced by its full name
* `Resolver.resolveOwner`: the owner of a call that is written without one
-/

namespace FactGraph

/-- What a look-up is remembered by: file, place and name. -/
abbrev MemoryKey := String × String × String

/-- What is known from the look-ups so far. -/
structure Memory where
  /-- The answers, the latest first. -/
  answers : List (MemoryKey × Option String) := []
  /-- The files and names whose ambiguity has been reported. -/
  reported : List (String × String) := []
  diagnostics : Diagnostics := {}

namespace Memory

/-- Remembers an answer. -/
def remember (memory : Memory) (key : MemoryKey) (answer : Option String) : Memory :=
  { memory with answers := (key, answer) :: memory.answers }

/-- Reports an ambiguity, unless that has been done for the file and name. -/
def reportAmbiguity (memory : Memory) (scope : ResolutionScope) (name : String) :
    Resolution → Memory
  | .ambiguous chosen candidates tier =>
    if (scope.filePath, name) ∈ memory.reported then memory
    else
      { memory with
        reported := (scope.filePath, name) :: memory.reported
        diagnostics := memory.diagnostics.push
          (.ambiguity (tier = .fallback) scope.projectPath scope.filePath name chosen
            candidates) }
  | _ => memory

end Memory

/-- A computation that looks names up. -/
abbrev ResolveM := StateM Memory

namespace Resolver

variable (resolver : Resolver) (scope : ResolutionScope)

/-- What a base stands for, from memory if it was looked up before. -/
def lookupOnce (base : String) : ResolveM (Option String) := do
  let key : MemoryKey := (scope.filePath, scope.place, base)
  match (← get).answers.lookup key with
  | some answer => return answer
  | none =>
    let outcome := resolver.lookup scope base
    -- That a name stands for nothing is remembered too.
    modify fun memory =>
      (memory.reportAmbiguity scope base outcome).remember key outcome.fullName?
    return outcome.fullName?

/-- The tree of an occurrence with base `base`, resolved arguments `args` and suffix `suffix`,
when the base stands for `fullName`. The full name may have arguments of its own, from a type
alias; those at the occurrence replace them, and its suffix comes behind the other one. -/
def compose (fullName : String) (args : List TypeName) (suffix : String) : TypeName :=
  let target := TypeName.parse fullName
  { base := target.base
    args := if args.isEmpty then target.args else args
    suffix := target.suffix ++ suffix }

mutual

/-- The tree of a type name with every part resolved. -/
def resolveTree : TypeName → ResolveM TypeName
  | ⟨base, args, suffix⟩ => do
    let resolved ← resolveTrees args
    -- A generic parameter takes no arguments, so with arguments the base is the name of a type.
    if args.isEmpty && scope.typeParameters.contains base then
      return ⟨base, args, suffix⟩
    else
      match ← resolver.lookupOnce scope base with
      | some fullName => return compose fullName resolved suffix
      | none => return ⟨base, resolved, suffix⟩

/-- The trees of a list, resolved from left to right. -/
def resolveTrees : List TypeName → ResolveM (List TypeName)
  | [] => return []
  | arg :: args => do
    let arg ← resolveTree arg
    let args ← resolveTrees args
    return arg :: args

end

/-- **A written type name** with every part resolved, in canonical form. A blank name is left as
it is. -/
def resolveName (name : String) : ResolveM String := do
  if Text.isBlank name then return name
  else return (← resolver.resolveTree scope (TypeName.parse name)).render

/-- The first of the type names that stands for a type with a method of that name. -/
def firstDeclaring (method : String) : List String → ResolveM (Option String)
  | [] => return none
  | typeName :: typeNames => do
    let fullName ← resolver.resolveName scope typeName
    if resolver.index.declaresMethod fullName method then return some fullName
    else firstDeclaring method typeNames

/-- **The owner of a call that is written without one**: the innermost type if it declares the
method, else the first type with statically imported members that does, else the innermost type. -/
def resolveOwner (method : String) : ResolveM String := do
  let current := scope.currentType?.getD ""
  if resolver.index.declaresMethod current method then return current
  else
    let sources := (resolver.importEntries scope .staticMember).map ImportEntry.sourceName
    return (← resolver.firstDeclaring scope method sources).getD current

/-- A written type name with every part resolved, starting without any memory. -/
def resolveTypeName (name : String) : String :=
  ((resolver.resolveName scope name).run {}).1

end Resolver

end FactGraph
