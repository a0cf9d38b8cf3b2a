/-!
# JSON values

The values of the exchange format. Fact models, reference models, diagnostics and configurations
hold no numbers but naturals; every other number is kept as it is written, since all that is
ever done with it is to skip or to refuse it. The fields of an object keep their order and may
repeat a name.

## Main definitions

* `Json`: the values
* `Json.depth`: how deep arrays and objects are nested
-/

namespace FactGraph

/-- A JSON value. -/
inductive Json where
  | null
  | bool (value : Bool)
  | nat (value : Nat)
  /-- A number with a sign, a fraction or an exponent, as it is written. -/
  | otherNumber (literal : String)
  | str (value : String)
  | arr (items : List Json)
  | obj (fields : List (String × Json))
  /-- A text with half of a surrogate pair in it, or an object with a field of such a name:
  correctly spelled, but no Unicode text. It may be skipped but not read. -/
  | unreadable
  deriving Inhabited

namespace Json

mutual

/-- The number of arrays and objects around the innermost value. -/
def depth : Json → Nat
  | .arr items => depthItems items + 1
  | .obj fields => depthFields fields + 1
  | _ => 0

/-- The depth of the deepest item. -/
def depthItems : List Json → Nat
  | [] => 0
  | item :: items => max item.depth (depthItems items)

/-- The depth of the deepest field. -/
def depthFields : List (String × Json) → Nat
  | [] => 0
  | (_, value) :: fields => max value.depth (depthFields fields)

end

/-- An absent value is `null`. -/
def ofOption {α : Type} (encode : α → Json) : Option α → Json
  | none => .null
  | some value => encode value

/-- A list of values is an array. -/
def ofList {α : Type} (encode : α → Json) (values : List α) : Json :=
  .arr (values.map encode)

/-- A list of texts is an array of texts. -/
def ofStrings (values : List String) : Json :=
  ofList .str values

end Json

end FactGraph
