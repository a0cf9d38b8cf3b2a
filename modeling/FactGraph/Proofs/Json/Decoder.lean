import FactGraph.Proofs.Json.Text

/-!
# Decoders that read back what is written

A decoder inverts an encoder if it reads, from the JSON value of anything, just that again, as
soon as its budget covers the nesting of that value. The decoders of texts, truth values, words,
lists and absent values do; and a record does if the decoders of its fields do, since the fields
are found by their names, in whatever way a missing one would be taken.

So the codec of a record needs no argument of its own: its fields are the known ones, each once,
and each of them is read back.

## Main definitions

* `Json.Readable budget`: a decoder with this budget can read the value
* `Decoder.Inverts`: the decoder reads back what is written

## Main results

* `Decoder.inverts_list`, `Decoder.inverts_option`, `Decoder.inverts_word`: the combinators
* `Record.ofJson?_obj`: the record of an object with known fields
* `Decoder.Inverts.roundTrips`: whole texts and values
-/

namespace FactGraph

namespace Json

/-- **A decoder with this budget can read the value**: it is one that is written, and it is not
nested deeper than the budget allows. -/
structure Readable (budget : Nat) (json : Json) : Prop where
  storable : json.isStorable = true
  depth_le : json.depth ≤ budget

theorem isStorableItems_iff (items : List Json) :
    isStorableItems items = true ↔ ∀ item ∈ items, item.isStorable = true := by
  induction items with
  | nil => simp [isStorableItems]
  | cons item items ih => simp [isStorableItems, ih]

theorem isStorableFields_iff (fields : List (String × Json)) :
    isStorableFields fields = true ↔ ∀ field ∈ fields, field.2.isStorable = true := by
  induction fields with
  | nil => simp [isStorableFields]
  | cons field fields ih => rw [isStorableFields, Bool.and_eq_true, ih, List.forall_mem_cons]

theorem depthItems_le_iff (items : List Json) (budget : Nat) :
    depthItems items ≤ budget ↔ ∀ item ∈ items, item.depth ≤ budget := by
  induction items with
  | nil => simp [depthItems]
  | cons item items ih => rw [depthItems, Nat.max_le, ih, List.forall_mem_cons]

theorem depthFields_le_iff (fields : List (String × Json)) (budget : Nat) :
    depthFields fields ≤ budget ↔ ∀ field ∈ fields, field.2.depth ≤ budget := by
  induction fields with
  | nil => simp [depthFields]
  | cons field fields ih => rw [depthFields, Nat.max_le, ih, List.forall_mem_cons]

variable {budget : Nat}

/-- The items of an array are read with what is left of the budget. -/
theorem Readable.items {items : List Json} (h : (arr items).Readable budget) :
    ∃ left, budget = left + 1 ∧ ∀ item ∈ items, item.Readable left := by
  obtain ⟨hstorable, hdepth⟩ := h
  rw [isStorable, isStorableItems_iff] at hstorable
  rw [depth] at hdepth
  obtain ⟨left, rfl⟩ := Nat.exists_eq_add_of_le' (Nat.le_trans (Nat.le_add_left 1 _) hdepth)
  have hitems := (depthItems_le_iff items left).1 (by omega)
  exact ⟨left, rfl, fun item hitem => ⟨hstorable item hitem, hitems item hitem⟩⟩

/-- So are the values of the fields of an object. -/
theorem Readable.fields {fields : List (String × Json)} (h : (obj fields).Readable budget) :
    ∃ left, budget = left + 1 ∧ ∀ field ∈ fields, field.2.Readable left := by
  obtain ⟨hstorable, hdepth⟩ := h
  rw [isStorable, isStorableFields_iff] at hstorable
  rw [depth] at hdepth
  obtain ⟨left, rfl⟩ := Nat.exists_eq_add_of_le' (Nat.le_trans (Nat.le_add_left 1 _) hdepth)
  have hfields := (depthFields_le_iff fields left).1 (by omega)
  exact ⟨left, rfl, fun field hfield => ⟨hstorable field hfield, hfields field hfield⟩⟩

theorem readable_str (value : String) : (str value).Readable budget :=
  ⟨rfl, Nat.zero_le budget⟩

/-- An array can be read if its items can, with one less. -/
theorem readable_arr {items : List Json} (h : ∀ item ∈ items, item.Readable budget) :
    (arr items).Readable (budget + 1) := by
  refine ⟨?_, ?_⟩
  · rw [isStorable, isStorableItems_iff]
    exact fun item hitem => (h item hitem).storable
  · rw [depth]
    exact Nat.succ_le_succ
      ((depthItems_le_iff items budget).2 fun item hitem => (h item hitem).depth_le)

/-- An object can be read if the values of its fields can, with one less. -/
theorem readable_obj {fields : List (String × Json)}
    (h : ∀ field ∈ fields, field.2.Readable budget) : (obj fields).Readable (budget + 1) := by
  refine ⟨?_, ?_⟩
  · rw [isStorable, isStorableFields_iff]
    exact fun field hfield => (h field hfield).storable
  · rw [depth]
    exact Nat.succ_le_succ
      ((depthFields_le_iff fields budget).2 fun field hfield => (h field hfield).depth_le)

theorem readable_ofList {α : Type} {encode : α → Json} {values : List α}
    (h : ∀ value ∈ values, (encode value).Readable budget) :
    (ofList encode values).Readable (budget + 1) :=
  readable_arr (List.forall_mem_map.2 h)

theorem readable_ofStrings (values : List String) : (ofStrings values).Readable (budget + 1) :=
  readable_ofList fun value _ => readable_str value

end Json

/-! ## Single values and lists -/

namespace Decoder

variable {α : Type} {decode : Decoder α} {encode : α → Json} {budget : Nat}

/-- **The decoder reads back what is written**, whenever its budget covers the nesting. -/
def Inverts (decode : Decoder α) (encode : α → Json) : Prop :=
  ∀ value budget, (encode value).Readable budget → decode budget (encode value) = some value

@[simp] theorem string_str (budget : Nat) (value : String) :
    string budget (.str value) = some value := rfl

@[simp] theorem bool_bool (budget : Nat) (value : Bool) :
    bool budget (.bool value) = some value := rfl

@[simp] theorem word_str (ofText? : String → Option α) (budget : Nat) (text : String) :
    word ofText? budget (.str text) = ofText? text := rfl

@[simp] theorem nat_nat {value : Nat} (h : (Json.nat value).Readable budget) :
    nat budget (.nat value) = some value :=
  if_pos (of_decide_eq_true h.storable)

@[simp] theorem inverts_string : Inverts string .str := fun _ _ _ => rfl

/-- Items are read one by one. -/
theorem mapM_map (values : List α)
    (h : ∀ value ∈ values, decode budget (encode value) = some value) :
    (values.map encode).mapM (decode budget) = some values := by
  induction values with
  | nil => rfl
  | cons value values ih =>
    obtain ⟨hvalue, hvalues⟩ := List.forall_mem_cons.1 h
    simp [List.mapM_cons, hvalue, ih hvalues]

theorem list_ofList {values : List α} (h : (Json.ofList encode values).Readable budget)
    (hvalues : ∀ value ∈ values, ∀ left < budget, (encode value).Readable left →
      decode left (encode value) = some value) :
    list decode budget (.ofList encode values) = some values := by
  obtain ⟨left, rfl, hitems⟩ := Json.Readable.items h
  refine mapM_map values fun value hvalue => ?_
  exact hvalues value hvalue left (Nat.lt_succ_self left)
    (hitems _ (List.mem_map_of_mem hvalue))

/-- A list is read back if what is in it is. -/
@[simp] theorem inverts_list (h : Inverts decode encode) :
    Inverts (list decode) (.ofList encode) :=
  fun _ _ hlist => list_ofList hlist fun value _ left _ => h value left

/-- A value that may be absent is read back if it is not written as absence. -/
@[simp] theorem inverts_option (h : Inverts decode encode) (hnull : ∀ value, encode value ≠ .null) :
    Inverts (option decode) (.ofOption encode) := by
  intro value budget hvalue
  cases value with
  | none => rfl
  | some value =>
    have hread := h value budget hvalue
    simp only [Json.ofOption] at hvalue ⊢
    unfold option
    split
    next heq => exact absurd heq (hnull value)
    next => rw [hread, Option.map_some]

@[simp] theorem list_eq {values : List α} (h : Inverts decode encode)
    (hlist : (Json.ofList encode values).Readable budget) :
    list decode budget (.ofList encode values) = some values :=
  inverts_list h values budget hlist

@[simp] theorem list_strings {values : List String} (h : (Json.ofStrings values).Readable budget) :
    list string budget (.ofStrings values) = some values :=
  inverts_list inverts_string values budget h

@[simp] theorem option_eq {value : Option α} (h : Inverts decode encode)
    (hnull : ∀ value, encode value ≠ .null)
    (hvalue : (Json.ofOption encode value).Readable budget) :
    option decode budget (.ofOption encode value) = some value :=
  inverts_option h hnull value budget hvalue

/-- Named values are read one by one. -/
theorem entries_map (h : Inverts decode encode) {values : List (String × α)}
    (hvalues : (Json.obj (values.map fun (name, value) => (name, encode value))).Readable budget) :
    entries decode budget (.obj (values.map fun (name, value) => (name, encode value))) =
      some values := by
  obtain ⟨left, rfl, hfields⟩ := Json.Readable.fields hvalues
  clear hvalues
  rw [entries]
  induction values with
  | nil => rfl
  | cons value values ih =>
    rw [List.map_cons, List.forall_mem_cons] at hfields
    have hfirst := h value.2 left hfields.1
    have hrest := ih hfields.2
    simp [List.mapM_cons, hfirst, hrest]

/-- A record is read field by field: what is done with a field is looked at once it is read. -/
theorem bind_congr_left {β : Type} {x y : Option α} {next : α → Option β} (h : x = y) :
    (x >>= next) = (y >>= next) := by rw [h]

@[simp] theorem some_bind {β : Type} (value : α) (next : α → Option β) :
    (some value >>= next) = next value := rfl

/-- A record is read back if it is from fields that are. -/
theorem inverts_record {fields : α → List (String × Json)}
    (hencode : ∀ value, encode value = .obj (fields value))
    (h : ∀ value left, (∀ field ∈ fields value, field.2.Readable left) →
      decode (left + 1) (encode value) = some value) : Inverts decode encode := by
  intro value budget hvalue
  rw [hencode] at hvalue
  obtain ⟨left, rfl, hfields⟩ := hvalue.fields
  exact h value left hfields

/-! ## Whole texts and values -/

/-- **In whatever way the value is written, it is read back**: as a JSON value, as its compact text
and as its pretty text. -/
structure RoundTrips (decode : Decoder α) (encode : α → Json) (value : α) : Prop where
  direct : decodeValue decode (encode value) = some value
  compact : decodeText decode (encode value).compact = some value
  pretty : decodeText decode (encode value).pretty = some value

theorem Inverts.decodeValue (h : Inverts decode encode) {value : α}
    (hstorable : (encode value).isStorable = true) :
    Decoder.decodeValue decode (encode value) = some value :=
  h value _ ⟨hstorable, Nat.le_refl _⟩

/-- What is not nested too deep for a text is read back from its texts. -/
theorem Inverts.roundTrips (h : Inverts decode encode) {value : α}
    (hstorable : (encode value).isStorable = true)
    (hdepth : (encode value).depth ≤ textBudget) : RoundTrips decode encode value where
  direct := h.decodeValue hstorable
  compact := by
    rw [decodeText, Json.parse_compact hstorable]
    exact h value _ ⟨hstorable, hdepth⟩
  pretty := by
    rw [decodeText, Json.parse_pretty hstorable]
    exact h value _ ⟨hstorable, hdepth⟩

end Decoder

/-! ## Records -/

namespace Record

-- How a field is read comes down to the value that is found for it.
attribute [simp] required withDefault optional stringOrEmpty listOrEmpty optionOrNone

variable (name : String) (json : Json) (fields : List (String × Json)) (positional : Bool)
  (budget : Nat)

@[simp] theorem value?_cons_self :
    value? ⟨(name, json) :: fields, positional, budget⟩ name = some json := by
  simp [value?]

@[simp] theorem value?_cons_of_ne {other : String} (h : name ≠ other) :
    value? ⟨(other, json) :: fields, positional, budget⟩ name =
      value? ⟨fields, positional, budget⟩ name := by
  simp only [value?, List.lookup_cons, beq_false_of_ne h]

@[simp] theorem value?_nil : value? ⟨[], positional, budget⟩ name = none := rfl

variable {fields}

/-- **The record of an object whose fields are known ones**, each of them once. -/
@[simp] theorem ofJson?_obj {names : List String} (hknown : fields.map Prod.fst ⊆ names)
    (hnodup : (fields.map Prod.fst).Nodup) :
    ofJson? names (budget + 1) (.obj fields) = some ⟨fields, false, budget⟩ := by
  have hall : ∀ field ∈ fields, names.contains field.1 = true := fun field hfield => by
    simpa using hknown (List.mem_map_of_mem hfield)
  rw [ofJson?, List.filter_eq_self.2 hall, if_pos hnodup]

end Record

end FactGraph
