import FactGraph.Fact.Basic

/-!
# Import tables

What the import directives of a compilation unit bring into scope, in their order. A directive
without a source, or without the alias that its kind needs, is left out of the table.

## Main definitions

* `ImportEntry`: a directive without the blanks around its names
* `ImportTable.ofFacts`, `ImportTable.rejected`: the table, and the directives left out of it
* `ImportTable.typeAlias?`: what a type alias stands for
-/

namespace FactGraph

/-- An import that is in effect. -/
structure ImportEntry where
  kind : ImportKind
  sourceName : String
  aliasName : Option String
  deriving DecidableEq, Inhabited

/-- The imports of a compilation unit. -/
structure ImportTable where
  entries : List ImportEntry := []
  deriving DecidableEq, Inhabited

namespace ImportTable

/-- The import that a directive puts into effect, if it is complete. -/
def entryOf? (fact : ImportFact) : Option ImportEntry :=
  let source := Text.trim fact.sourceName
  let short := (fact.aliasName.map Text.trim).filter (· ≠ "")
  if source = "" || (fact.kind.needsAlias && short.isNone) then none
  else some { kind := fact.kind, sourceName := source, aliasName := short }

/-- The table of the directives, in their order. -/
def ofFacts (facts : List ImportFact) : ImportTable :=
  ⟨facts.filterMap entryOf?⟩

/-- The directives that are left out of their table. -/
def rejected (facts : List ImportFact) : List ImportFact :=
  facts.filter fun fact => (entryOf? fact).isNone

/-- The imports of a kind. -/
def ofKind (table : ImportTable) (kind : ImportKind) : List ImportEntry :=
  table.entries.filter fun entry => entry.kind = kind

/-- The type alias of that name; of several ones the last. -/
def typeAlias? (table : ImportTable) (short : String) : Option ImportEntry :=
  (table.ofKind .typeAlias).reverse.find? fun entry => entry.aliasName = some short

/-- The namespace alias of that name; of several ones the first. -/
def namespaceAlias? (table : ImportTable) (short : String) : Option ImportEntry :=
  (table.ofKind .namespaceAlias).find? fun entry => entry.aliasName = some short

end ImportTable

end FactGraph
