import FactGraph.Fact.Codec
import FactGraph.Proofs.Fact.Counts
import FactGraph.Proofs.Json.Decoder

/-!
# Fact models read back from JSON

Every fact is read back from what is written for it. All of its fields are written, so what a
reader takes a missing field for does not matter, but for an empty list of generic arguments: that
one is left out, and it is what the reader takes a missing list for. The counts of a metric are
written by increasing name, each name once, and entering them one after the other gives them back
as they were.

## Main results

* `TypeRef.decodeWithin_encode`, `MethodFact.decodeWithin_encode`: nested references and methods
  are read back
* `RepositoryFact.inverts`: so is a whole fact model
-/

namespace FactGraph

-- Records are read from their first field on, so binds of options are left as they are below.
attribute [local congr] Decoder.bind_congr_left

/-! ## References -/

namespace TypeRef

theorem encodeAll_eq (refs : List TypeRef) : encodeAll refs = refs.map encode := by
  induction refs with
  | nil => rfl
  | cons ref refs ih => rw [encodeAll, ih, List.map_cons]

/-- A reference with arguments. -/
theorem encode_cons (name : String) (arg : TypeRef) (args : List TypeRef) :
    encode ⟨name, arg :: args⟩ = .obj [
      ("name", .str name),
      ("generic_arguments", .ofList encode (arg :: args))] := by
  rw [encode, encodeAll_eq]
  rfl

@[simp] theorem encode_ne_null (ref : TypeRef) : ref.encode ≠ .null := by
  obtain ⟨name, _ | ⟨arg, args⟩⟩ := ref <;> simp [encode]

/-- **A reference is read back**, however deep its arguments are nested: they are read with a
smaller budget. -/
theorem decodeWithin_encode {rank budget : Nat} {ref : TypeRef} (h : ref.encode.Readable budget)
    (hrank : budget ≤ rank) : decodeWithin rank budget ref.encode = some ref := by
  induction rank generalizing budget ref with
  | zero =>
    obtain ⟨name, _ | ⟨arg, args⟩⟩ := ref
    · obtain ⟨left, rfl, -⟩ := Json.Readable.fields (by simpa only [encode] using h)
      omega
    · obtain ⟨left, rfl, -⟩ := Json.Readable.fields (by simpa only [encode_cons] using h)
      omega
  | succ rank ih =>
    obtain ⟨name, _ | ⟨arg, args⟩⟩ := ref
    · rw [encode] at h ⊢
      obtain ⟨left, rfl, hfields⟩ := h.fields
      simp [decodeWithin]
    · rw [encode_cons] at h ⊢
      obtain ⟨left, rfl, hfields⟩ := h.fields
      simp only [List.forall_mem_cons] at hfields
      have hargs : Decoder.list (decodeWithin rank) left (.ofList encode (arg :: args)) =
          some (arg :: args) :=
        Decoder.list_ofList hfields.2.1 fun other _ inner hinner hother =>
          ih hother (by omega)
      simp [decodeWithin, hargs]

@[simp] theorem inverts : Decoder.Inverts decode encode :=
  fun _ _ h => decodeWithin_encode h (Nat.le_refl _)

@[simp] theorem decode_encode {ref : TypeRef} {budget : Nat} (h : ref.encode.Readable budget) :
    decode budget ref.encode = some ref :=
  inverts ref budget h

end TypeRef

@[simp] theorem ImportFact.inverts : Decoder.Inverts decode encode :=
  Decoder.inverts_record (fun _ => rfl) fun fact left h => by
    simp only [List.forall_mem_cons] at h
    simp [decode, encode, h, -Option.bind_eq_bind]

@[simp] theorem AttributeFact.inverts : Decoder.Inverts decode encode :=
  Decoder.inverts_record (fun _ => rfl) fun fact left h => by
    simp only [List.forall_mem_cons] at h
    simp [decode, encode, h, -Option.bind_eq_bind]

@[simp] theorem CallFact.inverts : Decoder.Inverts decode encode :=
  Decoder.inverts_record (fun _ => rfl) fun fact left h => by
    simp only [List.forall_mem_cons] at h
    simp [decode, encode, h, -Option.bind_eq_bind]

/-! ## Members -/

@[simp] theorem ParameterFact.inverts : Decoder.Inverts decode encode :=
  Decoder.inverts_record (fun _ => rfl) fun fact left h => by
    simp only [List.forall_mem_cons] at h
    simp [decode, encode, h, -Option.bind_eq_bind]

@[simp] theorem LocalVariableFact.inverts : Decoder.Inverts decode encode :=
  Decoder.inverts_record (fun _ => rfl) fun fact left h => by
    simp only [List.forall_mem_cons] at h
    simp [decode, encode, h, -Option.bind_eq_bind]

namespace MethodFact

theorem encodeAll_eq (methods : List MethodFact) : encodeAll methods = methods.map encode := by
  induction methods with
  | nil => rfl
  | cons method methods ih => rw [encodeAll, ih, List.map_cons]

/-- The record of a method, as a whole. -/
theorem encode_eq (method : MethodFact) : method.encode = .obj [
    ("name", .str method.name),
    ("return_type", .ofOption TypeRef.encode method.returnType),
    ("access_modifier", .str method.accessModifier),
    ("modifier", .str method.modifier),
    ("generic_parameters", .ofStrings method.genericParameters),
    ("parameters", .ofList ParameterFact.encode method.parameters),
    ("local_variables", .ofList LocalVariableFact.encode method.localVariables),
    ("local_functions", .ofList encode method.localFunctions),
    ("called_methods", .ofList CallFact.encode method.calledMethods),
    ("attributes", .ofList AttributeFact.encode method.attributes),
    ("cyclomatic_complexity", .nat method.cyclomaticComplexity)] := by
  obtain ⟨head, localFunctions⟩ := method
  rw [encode, encodeAll_eq]
  rfl

@[simp] theorem encode_ne_null (method : MethodFact) : method.encode ≠ .null := by
  simp [encode_eq]

/-- **A method is read back**, however deep its local functions are nested: they are read with a
smaller budget. -/
theorem decodeWithin_encode {rank budget : Nat} {method : MethodFact}
    (h : method.encode.Readable budget) (hrank : budget ≤ rank) :
    decodeWithin rank budget method.encode = some method := by
  induction rank generalizing budget method with
  | zero =>
    rw [encode_eq] at h
    obtain ⟨left, rfl, -⟩ := h.fields
    omega
  | succ rank ih =>
    rw [encode_eq] at h ⊢
    obtain ⟨left, rfl, hfields⟩ := h.fields
    simp only [List.forall_mem_cons] at hfields
    have hlocal : Decoder.list (decodeWithin rank) left (.ofList encode method.localFunctions) =
        some method.localFunctions :=
      Decoder.list_ofList hfields.2.2.2.2.2.2.2.1 fun other _ inner hinner hother =>
        ih hother (by omega)
    cases method
    simp [decodeWithin, fieldNames, hfields, hlocal]

@[simp] theorem inverts : Decoder.Inverts decode encode :=
  fun _ _ h => decodeWithin_encode h (Nat.le_refl _)

end MethodFact

@[simp] theorem FieldFact.inverts : Decoder.Inverts decode encode :=
  Decoder.inverts_record (fun _ => rfl) fun fact left h => by
    simp only [List.forall_mem_cons] at h
    simp [decode, encode, h, -Option.bind_eq_bind]

@[simp] theorem PropertyFact.inverts : Decoder.Inverts decode encode :=
  Decoder.inverts_record (fun _ => rfl) fun fact left h => by
    simp only [List.forall_mem_cons] at h
    simp [decode, encode, h, -Option.bind_eq_bind]

/-! ## Metrics -/

/-- The counts are read back: they are written by increasing name. -/
@[simp] theorem Counts.decode_encode {counts : Counts} {budget : Nat}
    (h : counts.encode.Readable budget) : decode budget counts.encode = some counts := by
  have hnat : Decoder.Inverts Decoder.nat Json.nat := fun _ _ h => Decoder.nat_nat h
  rw [decode, encode, Decoder.entries_map hnat h, Option.map_some, ofList_entries]

@[simp] theorem MetricFact.inverts : Decoder.Inverts decode encode :=
  Decoder.inverts_record (fun _ => rfl) fun fact left h => by
    simp only [List.forall_mem_cons] at h
    simp [decode, encode, h, -Option.bind_eq_bind]

/-! ## Types and containers -/

@[simp] theorem TypeFact.inverts : Decoder.Inverts decode encode :=
  Decoder.inverts_record (fun _ => rfl) fun fact left h => by
    simp only [List.forall_mem_cons] at h
    simp [decode, encode, fieldNames, h, -Option.bind_eq_bind]

@[simp] theorem UnitFact.inverts : Decoder.Inverts decode encode :=
  Decoder.inverts_record (fun _ => rfl) fun fact left h => by
    simp only [List.forall_mem_cons] at h
    simp [decode, encode, h, -Option.bind_eq_bind]

@[simp] theorem ProjectFact.inverts : Decoder.Inverts decode encode :=
  Decoder.inverts_record (fun _ => rfl) fun fact left h => by
    simp only [List.forall_mem_cons] at h
    simp [decode, encode, h, -Option.bind_eq_bind]

@[simp] theorem SolutionFact.inverts : Decoder.Inverts decode encode :=
  Decoder.inverts_record (fun _ => rfl) fun fact left h => by
    simp only [List.forall_mem_cons] at h
    simp [decode, encode, h, -Option.bind_eq_bind]

/-- **A fact model is read back.** -/
theorem RepositoryFact.inverts : Decoder.Inverts decode encode :=
  Decoder.inverts_record (fun _ => rfl) fun fact left h => by
    simp only [List.forall_mem_cons] at h
    simp [decode, encode, h, -Option.bind_eq_bind]

end FactGraph
