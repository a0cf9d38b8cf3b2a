import FactGraph.Hash.Sha256
import FactGraph.Json.Printer
import FactGraph.Model.Codec

/-!
# The fingerprint of a model

## Main definitions

* `ReferenceModel.canonicalText`: the compact text of a model
* `ReferenceModel.fingerprint`: the SHA-256 digest of that text
-/

namespace FactGraph.ReferenceModel

/-- The compact text of a model, with the fields of every node in the order of their
declaration. -/
def canonicalText (model : ReferenceModel) : String :=
  model.encode.compact

/-- **The fingerprint**: the SHA-256 digest of the UTF-8 bytes of the canonical text. -/
def fingerprint (model : ReferenceModel) : String :=
  Sha256.hex model.canonicalText.toUTF8.data.toList

end FactGraph.ReferenceModel
