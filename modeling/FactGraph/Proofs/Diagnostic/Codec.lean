import FactGraph.Diagnostic.Codec
import FactGraph.Proofs.Json.Decoder

/-!
# Diagnostics read back from JSON

What is absent from the context of a finding is left out, and the reader takes a field that is left
out for an absent one. Diagnostics hold no numbers and are nested five deep at most, so they are
read back from every text of them.

## Main results

* `Diagnostics.inverts`: the findings of a run are read back
* `Diagnostics.roundTrips`: also from a text, whatever they are
-/

namespace FactGraph

namespace DiagnosticContext

-- One case for each combination of fields that are written.
@[simp] theorem inverts : Decoder.Inverts decode encode :=
  Decoder.inverts_record (fun _ => rfl) fun context left h => by
    obtain ⟨projectPath, filePath, name, candidates⟩ := context
    cases projectPath <;> cases filePath <;> cases name <;> cases candidates <;>
      simp_all [decode, encode, encodeIfSome, encodeCandidates, Decoder.option]

@[simp] theorem decode_encode {context : DiagnosticContext} {budget : Nat}
    (h : context.encode.Readable budget) : decode budget context.encode = some context :=
  inverts context budget h

theorem readable_encodeIfSome (name : String) (value : Option String) :
    ∀ field ∈ encodeIfSome name value, field.2.Readable 1 := by
  cases value with
  | none => exact nofun
  | some value =>
    rintro field hfield
    obtain rfl := List.mem_singleton.1 hfield
    exact ⟨rfl, Nat.zero_le 1⟩

theorem readable_encodeCandidates (candidates : List String) :
    ∀ field ∈ encodeCandidates candidates, field.2.Readable 1 := by
  cases candidates with
  | nil => exact nofun
  | cons candidate candidates =>
    rintro field hfield
    obtain rfl := List.mem_singleton.1 hfield
    exact Json.readable_ofStrings _

/-- **A context can always be read.** -/
theorem readable (context : DiagnosticContext) : context.encode.Readable 2 := by
  refine Json.readable_obj fun field hfield => ?_
  simp only [List.mem_append] at hfield
  rcases hfield with ((hfield | hfield) | hfield) | hfield
  · exact readable_encodeIfSome _ _ field hfield
  · exact readable_encodeIfSome _ _ field hfield
  · exact readable_encodeIfSome _ _ field hfield
  · exact readable_encodeCandidates _ field hfield

end DiagnosticContext

namespace Diagnostic

@[simp] theorem inverts : Decoder.Inverts decode encode :=
  Decoder.inverts_record (fun _ => rfl) fun diagnostic left h => by
    simp only [List.forall_mem_cons] at h
    simp [decode, encode, h]

/-- **A finding can always be read.** -/
theorem readable (diagnostic : Diagnostic) : diagnostic.encode.Readable 3 := by
  refine Json.readable_obj ?_
  simp only [List.forall_mem_cons]
  exact ⟨Json.readable_str _, Json.readable_str _, Json.readable_str _,
    diagnostic.context.readable, nofun⟩

end Diagnostic

namespace Diagnostics

theorem inverts : Decoder.Inverts decode encode :=
  Decoder.inverts_record (fun _ => rfl) fun diagnostics left h => by
    simp only [List.forall_mem_cons] at h
    simp [decode, encode, h]

/-- **The findings of a run can always be read.** -/
theorem readable (diagnostics : Diagnostics) : diagnostics.encode.Readable 5 := by
  refine Json.readable_obj ?_
  simp only [List.forall_mem_cons]
  exact ⟨Json.readable_ofList fun diagnostic _ => diagnostic.readable, nofun⟩

/-- **The findings of a run are read back.** -/
theorem roundTrips (diagnostics : Diagnostics) : Decoder.RoundTrips decode encode diagnostics :=
  inverts.roundTrips diagnostics.readable.storable
    (Nat.le_trans diagnostics.readable.depth_le (by decide))

end Diagnostics

end FactGraph
