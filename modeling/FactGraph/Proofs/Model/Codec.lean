import FactGraph.Model.Codec
import FactGraph.Model.Fingerprint
import FactGraph.Proofs.Json.Decoder

/-!
# Reference models read back from JSON

Every record of a reference model is read back from what is written for it: all of its fields are
written, and each of them is read back. Only a link leaves a field out, its empty list of
arguments, and that is what the reader takes a missing list for.

## Main results

* `TypeLink.decodeWithin_encode`: a link is read back, however deep its arguments are nested
* `ReferenceModel.inverts`: so is a whole model
* `ReferenceModel.canonicalText_injective`: models with the same text are the same
-/

namespace FactGraph

-- Records are read from their first field on, so binds of options are left as they are below.
attribute [local congr] Decoder.bind_congr_left

/-! ## Handles and links -/

namespace Handle

variable {kind : NodeKind}

@[simp] theorem encode_ne_null (id : Handle kind) : id.encode ≠ .null := nofun

@[simp] theorem inverts : Decoder.Inverts (decode : Decoder (Handle kind)) encode := by
  intro id budget h
  have hread : Decoder.nat budget (.nat id.idx) = some id.idx := Decoder.nat_nat h
  rw [decode, encode, hread]
  rfl

@[simp] theorem decode_encode {id : Handle kind} {budget : Nat} (h : id.encode.Readable budget) :
    decode budget id.encode = some id :=
  inverts id budget h

@[simp] theorem list_encodeHandles {ids : List (Handle kind)} {budget : Nat}
    (h : (encodeHandles ids).Readable budget) :
    Decoder.list decode budget (encodeHandles ids) = some ids :=
  Decoder.inverts_list inverts ids budget h

end Handle

namespace TypeLink

theorem encodeAll_eq (links : List TypeLink) : encodeAll links = links.map encode := by
  induction links with
  | nil => rfl
  | cons link links ih => rw [encodeAll, ih, List.map_cons]

/-- A link with arguments. -/
theorem encode_cons (name : String) (target : Option TypeId) (arg : TypeLink)
    (args : List TypeLink) :
    encode ⟨name, target, arg :: args⟩ = .obj [
      ("name", .str name),
      ("target", .ofOption Handle.encode target),
      ("generic_arguments", .ofList encode (arg :: args))] := by
  rw [encode, encodeAll_eq]
  rfl

@[simp] theorem encode_ne_null (link : TypeLink) : link.encode ≠ .null := by
  obtain ⟨name, target, _ | ⟨arg, args⟩⟩ := link <;> simp [encode]

/-- **A link is read back**, however deep its arguments are nested: they are read with a smaller
budget. -/
theorem decodeWithin_encode {rank budget : Nat} {link : TypeLink}
    (h : link.encode.Readable budget) (hrank : budget ≤ rank) :
    decodeWithin rank budget link.encode = some link := by
  induction rank generalizing budget link with
  | zero =>
    obtain ⟨name, target, _ | ⟨arg, args⟩⟩ := link
    · obtain ⟨left, rfl, -⟩ := Json.Readable.fields (by simpa only [encode] using h)
      omega
    · obtain ⟨left, rfl, -⟩ := Json.Readable.fields (by simpa only [encode_cons] using h)
      omega
  | succ rank ih =>
    obtain ⟨name, target, _ | ⟨arg, args⟩⟩ := link
    · rw [encode] at h ⊢
      obtain ⟨left, rfl, hfields⟩ := h.fields
      simp only [List.forall_mem_cons] at hfields
      simp [decodeWithin, hfields]
    · rw [encode_cons] at h ⊢
      obtain ⟨left, rfl, hfields⟩ := h.fields
      simp only [List.forall_mem_cons] at hfields
      have hargs : Decoder.list (decodeWithin rank) left (.ofList encode (arg :: args)) =
          some (arg :: args) :=
        Decoder.list_ofList hfields.2.2.1 fun other _ inner hinner hother =>
          ih hother (by omega)
      simp [decodeWithin, hfields, hargs]

@[simp] theorem inverts : Decoder.Inverts decode encode :=
  fun _ _ h => decodeWithin_encode h (Nat.le_refl _)

@[simp] theorem decode_encode {link : TypeLink} {budget : Nat}
    (h : link.encode.Readable budget) : decode budget link.encode = some link :=
  inverts link budget h

end TypeLink

@[simp] theorem AttributeLink.inverts : Decoder.Inverts decode encode :=
  Decoder.inverts_record (fun _ => rfl) fun link left h => by
    simp only [List.forall_mem_cons] at h
    simp [decode, encode, h, -Option.bind_eq_bind]

@[simp] theorem CallEdge.inverts : Decoder.Inverts decode encode :=
  Decoder.inverts_record (fun _ => rfl) fun edge left h => by
    simp only [List.forall_mem_cons] at h
    simp [decode, encode, h, -Option.bind_eq_bind]

@[simp] theorem RelationEdge.inverts : Decoder.Inverts decode encode :=
  Decoder.inverts_record (fun _ => rfl) fun edge left h => by
    simp only [List.forall_mem_cons] at h
    simp [decode, encode, h, -Option.bind_eq_bind]

/-! ## Nodes -/

attribute [simp] Record.string Record.handles Record.list Record.array

@[simp] theorem RepositoryNode.inverts : Decoder.Inverts decode encode :=
  Decoder.inverts_record (fun _ => rfl) fun node left h => by
    simp only [List.forall_mem_cons] at h
    simp [decode, encode, h, -Option.bind_eq_bind]

@[simp] theorem SolutionNode.inverts : Decoder.Inverts decode encode :=
  Decoder.inverts_record (fun _ => rfl) fun node left h => by
    simp only [List.forall_mem_cons] at h
    simp [decode, encode, h, -Option.bind_eq_bind]

@[simp] theorem ProjectNode.inverts : Decoder.Inverts decode encode :=
  Decoder.inverts_record (fun _ => rfl) fun node left h => by
    simp only [List.forall_mem_cons] at h
    simp [decode, encode, h, -Option.bind_eq_bind]

@[simp] theorem FileNode.inverts : Decoder.Inverts decode encode :=
  Decoder.inverts_record (fun _ => rfl) fun node left h => by
    simp only [List.forall_mem_cons] at h
    simp [decode, encode, h, -Option.bind_eq_bind]

@[simp] theorem NamespaceNode.inverts : Decoder.Inverts decode encode :=
  Decoder.inverts_record (fun _ => rfl) fun node left h => by
    simp only [List.forall_mem_cons] at h
    simp [decode, encode, h, -Option.bind_eq_bind]

@[simp] theorem TypeNode.inverts : Decoder.Inverts decode encode :=
  Decoder.inverts_record (fun _ => rfl) fun node left h => by
    simp only [List.forall_mem_cons] at h
    simp [decode, encode, fieldNames, h, -Option.bind_eq_bind]

@[simp] theorem MethodNode.inverts : Decoder.Inverts decode encode :=
  Decoder.inverts_record (fun _ => rfl) fun node left h => by
    simp only [List.forall_mem_cons] at h
    simp [decode, encode, fieldNames, h, -Option.bind_eq_bind]

@[simp] theorem FieldNode.inverts : Decoder.Inverts decode encode :=
  Decoder.inverts_record (fun _ => rfl) fun node left h => by
    simp only [List.forall_mem_cons] at h
    simp [decode, encode, h, -Option.bind_eq_bind]

@[simp] theorem PropertyNode.inverts : Decoder.Inverts decode encode :=
  Decoder.inverts_record (fun _ => rfl) fun node left h => by
    simp only [List.forall_mem_cons] at h
    simp [decode, encode, h, -Option.bind_eq_bind]

@[simp] theorem ParameterNode.inverts : Decoder.Inverts decode encode :=
  Decoder.inverts_record (fun _ => rfl) fun node left h => by
    simp only [List.forall_mem_cons] at h
    simp [decode, encode, h, -Option.bind_eq_bind]

@[simp] theorem LocalVariableNode.inverts : Decoder.Inverts decode encode :=
  Decoder.inverts_record (fun _ => rfl) fun node left h => by
    simp only [List.forall_mem_cons] at h
    simp [decode, encode, h, -Option.bind_eq_bind]

/-! ## The model -/

@[simp] theorem RepositoryNode.decode_encode {node : RepositoryNode} {budget : Nat}
    (h : node.encode.Readable budget) : decode budget node.encode = some node :=
  inverts node budget h

@[simp] theorem list_encodeArray {α : Type} {decode : Decoder α} {encode : α → Json}
    {nodes : Array α} {budget : Nat} (h : Decoder.Inverts decode encode)
    (hnodes : (encodeArray encode nodes).Readable budget) :
    Decoder.list decode budget (encodeArray encode nodes) = some nodes.toList :=
  Decoder.inverts_list h nodes.toList budget hnodes

/-- **A model is read back.** -/
theorem ReferenceModel.inverts : Decoder.Inverts decode encode :=
  Decoder.inverts_record (fun _ => rfl) fun model left h => by
    simp only [List.forall_mem_cons] at h
    simp [decode, encode, fieldNames, h, -Option.bind_eq_bind]

namespace ReferenceModel

variable {model other : ReferenceModel}

/-- **Models with the same canonical text are the same**, however deep they are nested: each is
read back from its text. -/
theorem canonicalText_injective (h : model.encode.isStorable = true)
    (h' : other.encode.isStorable = true) (htext : model.canonicalText = other.canonicalText) :
    model = other := by
  have hjson : model.encode = other.encode := by
    have hparse := Json.parse_compact h
    rw [show model.encode.compact = other.encode.compact from htext,
      Json.parse_compact h'] at hparse
    exact (Option.some.inj hparse).symm
  have hread := inverts.decodeValue h
  rw [hjson, inverts.decodeValue h'] at hread
  exact (Option.some.inj hread).symm

end ReferenceModel

end FactGraph
