import FactGraph.Json.Parser

/-!
# Decoding JSON values

How typed values are read from JSON. Nothing is converted: a number is no text and `null` is no
value, except where a value may be absent.

A record may be written in two ways. As an object, its fields come in any order, unknown ones are
skipped and a known one must not be repeated. As an array, its fields come in the order of their
declaration; those at the end may be missing if they have a default.

**The nesting budget.** Every array and object that is read, rather than skipped, takes one from
a budget, and none may be read when it is used up. It bounds what a text may nest, and it is what
the recursion of the decoders of nested types runs on.

## Main definitions

* `Decoder α`: reads an `α` within a budget
* `Record.ofJson?`: the two spellings of a record, as one table of fields
* `Record.required`, `Record.withDefault`, `Record.optional`: how a missing field is taken
* `Decoder.word`: a value named by a word of a fixed vocabulary
* `Decoder.decodeText`, `Decoder.decodeValue`: reading a whole text, or a value at hand
-/

namespace FactGraph

/-- Reads a value, nesting no more arrays and objects than the budget allows. -/
abbrev Decoder (α : Type) := Nat → Json → Option α

namespace Decoder

/-! ## Single values -/

/-- A text. -/
def string : Decoder String
  | _, .str value => some value
  | _, _ => none

/-- A truth value. -/
def bool : Decoder Bool
  | _, .bool value => some value
  | _, _ => none

/-- The naturals that are stored are below this bound: they have 32 bits. -/
def natBound : Nat := 0x100000000

/-- A natural of at most 32 bits. -/
def nat : Decoder Nat
  | _, .nat value => if value < natBound then some value else none
  | _, _ => none

/-- A value that may be absent, which is written `null`. -/
def option {α : Type} (decode : Decoder α) : Decoder (Option α)
  | _, .null => some none
  | budget, json => (decode budget json).map some

/-- A word of a fixed vocabulary: as a text, or as an object with the word as its only field,
whose value is `null`. -/
def word {α : Type} (ofText? : String → Option α) : Decoder α
  | _, .str text => ofText? text
  | _ + 1, .obj [(text, .null)] => ofText? text
  | _, _ => none

/-- A list, written as an array. -/
def list {α : Type} (decode : Decoder α) : Decoder (List α)
  | budget + 1, .arr items => items.mapM (decode budget)
  | _, _ => none

/-- Pairs of a name and a value, written as the fields of an object. -/
def entries {α : Type} (decode : Decoder α) : Decoder (List (String × α))
  | budget + 1, .obj fields =>
    fields.mapM fun (name, value) => (decode budget value).map fun value => (name, value)
  | _, _ => none

/-! ## Whole texts and values -/

/-- The deepest nesting that a text may have. -/
def textBudget : Nat := 127

/-- Reads a text. -/
def decodeText {α : Type} (decode : Decoder α) (text : String) : Option α := do
  let json ← Json.parse text
  decode textBudget json

/-- Reads a value at hand, however deep it is nested. -/
def decodeValue {α : Type} (decode : Decoder α) (json : Json) : Option α :=
  decode json.depth json

end Decoder

/-! ## Records -/

/-- The fields of a record that is being read. -/
structure Record where
  /-- The fields that are known and present. -/
  fields : List (String × Json)
  /-- The record is written as an array. -/
  positional : Bool
  /-- The budget that is left for the values of the fields. -/
  budget : Nat

namespace Record

/-- **The fields of a record** with these names, in either spelling. It is refused when a known
field is repeated, or when an array has more items than the record has fields. -/
def ofJson? (names : List String) : Nat → Json → Option Record
  | budget + 1, .obj fields =>
    let known := fields.filter fun (name, _) => names.contains name
    if (known.map Prod.fst).Nodup then some ⟨known, false, budget⟩ else none
  | budget + 1, .arr items =>
    if items.length ≤ names.length then some ⟨names.zip items, true, budget⟩ else none
  | _, _ => none

/-- The value of a field, if it is present. -/
def value? (record : Record) (name : String) : Option Json :=
  record.fields.lookup name

/-- A field that has to be present. -/
def required {α : Type} (record : Record) (name : String) (decode : Decoder α) : Option α := do
  let json ← record.value? name
  decode record.budget json

/-- A field with a default for when it is missing. -/
def withDefault {α : Type} (record : Record) (name : String) (decode : Decoder α)
    (default : α) : Option α :=
  match record.value? name with
  | some json => decode record.budget json
  | none => some default

/-- A field that may be missing from an object, but not from an array. -/
def optional {α : Type} (record : Record) (name : String) (decode : Decoder α) :
    Option (Option α) :=
  match record.value? name with
  | some json => Decoder.option decode record.budget json
  | none => if record.positional then none else some none

/-- A text that is empty when it is missing. -/
def stringOrEmpty (record : Record) (name : String) : Option String :=
  record.withDefault name Decoder.string ""

/-- A list that is empty when it is missing. -/
def listOrEmpty {α : Type} (record : Record) (name : String) (decode : Decoder α) :
    Option (List α) :=
  record.withDefault name (Decoder.list decode) []

/-- A value that is absent when it is missing. -/
def optionOrNone {α : Type} (record : Record) (name : String) (decode : Decoder α) :
    Option (Option α) :=
  record.withDefault name (Decoder.option decode) none

end Record

end FactGraph
