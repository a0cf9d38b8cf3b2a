import FactGraph.Proofs.Config.Store
import FactGraph.Proofs.Diagnostic.Codec
import FactGraph.Proofs.Fact.Codec
import FactGraph.Proofs.Model.Codec

/-!
# The formats lose nothing

Everything that is exchanged as JSON is read back as it was: fact models, reference models, the
findings of a run and configurations, from their JSON values, from their compact texts and from
their pretty ones. Two things are asked of a value. Its naturals have 32 bits, which is the range of
the stored type (`Json.isStorable`; no encoder writes any other number), and it is not nested deeper
than a text may be. Findings meet both whatever they are, and a configuration has one number and is
not nested deep at all.

So the bytes that a fingerprint is taken of tell models apart, and what is loaded after a
configuration has been stored is that configuration, unless it has no separator.

## Main results

* `formats_roundTrip`: the whole statement
-/

namespace FactGraph

namespace ReferenceModel

/-- **Models with the same bytes are the same**, since UTF-8 tells texts apart. -/
theorem eq_of_bytes_eq {model other : ReferenceModel} (h : model.encode.isStorable = true)
    (h' : other.encode.isStorable = true)
    (hbytes : model.canonicalText.toUTF8.data.toList = other.canonicalText.toUTF8.data.toList) :
    model = other := by
  have hdata : model.canonicalText.toUTF8 = other.canonicalText.toUTF8 :=
    ByteArray.ext (Array.toList_inj.1 hbytes)
  have htext : model.canonicalText = other.canonicalText := String.toByteArray_inj.1 hdata
  exact canonicalText_injective h h' htext

end ReferenceModel

/-- **The formats lose nothing.** Every value that is written is read back from its JSON value and
from both of its texts; the bytes behind a fingerprint determine the model; and after a
configuration has been stored, loading gives it back if it has a separator, and refuses it with an
error of the configuration otherwise. -/
theorem formats_roundTrip :
    (∀ repo : RepositoryFact, repo.encode.isStorable = true →
      repo.encode.depth ≤ Decoder.textBudget →
      Decoder.RoundTrips RepositoryFact.decode RepositoryFact.encode repo) ∧
    (∀ model : ReferenceModel, model.encode.isStorable = true →
      model.encode.depth ≤ Decoder.textBudget →
      Decoder.RoundTrips ReferenceModel.decode ReferenceModel.encode model) ∧
    (∀ diagnostics : Diagnostics,
      Decoder.RoundTrips Diagnostics.decode Diagnostics.encode diagnostics) ∧
    (∀ config : LinkConfig, config.version < Decoder.natBound →
      Decoder.RoundTrips LinkConfig.decode LinkConfig.encode config) ∧
    (∀ model other : ReferenceModel, model.encode.isStorable = true →
      other.encode.isStorable = true →
      model.canonicalText.toUTF8.data.toList = other.canonicalText.toUTF8.data.toList →
      model = other) ∧
    (∀ (root : String) (config : LinkConfig) (tree tree' : FileTree),
      config.version < Decoder.natBound →
      (saveConfig root config : StateM FileTree (Except Failure Unit)).run tree =
        (.ok (), tree') →
      (config.separator ≠ "" →
        (loadConfig root : StateM FileTree (Except Failure LinkConfig)).run tree' =
          (.ok config, tree')) ∧
      (config.separator = "" → ∃ failure : Failure, failure.kind = .config ∧
        (loadConfig root : StateM FileTree (Except Failure LinkConfig)).run tree' =
          (.error failure, tree'))) := by
  refine ⟨fun repo => RepositoryFact.inverts.roundTrips,
    fun model => ReferenceModel.inverts.roundTrips, Diagnostics.roundTrips,
    fun config => LinkConfig.roundTrips, fun model other => ReferenceModel.eq_of_bytes_eq, ?_⟩
  intro root config tree tree' hversion hsave
  have hload := loadConfig_saveConfig hversion hsave
  refine ⟨fun hseparator => ?_, fun hseparator => ?_⟩
  · rw [hload, if_neg hseparator]
  · exact ⟨.separatorEmpty (configPath root), rfl, by rw [hload, if_pos hseparator]⟩

/-! ## An instance -/

namespace Crates

/-- A type with a base type that has arguments, a method and a counted metric. -/
def facts : RepositoryFact where
  path := "repo"
  solutions := [⟨"all.sln", [{
    path := "app"
    units := [{
      path := "Crate.cs"
      imports := [.plain "Goods", .typeAlias "Text" "System.String"]
      types := [{
        name := "Crate<T>"
        genericParameters := ["T"]
        baseTypes := [⟨"Pair", [⟨"T", []⟩, ⟨"Text[]", []⟩]⟩]
        methods := [{ name := "Open", calledMethods := [{ name := "\"Log\"\n" }] }]
        metrics := [{
          relation := .calls
          counts := .ofList [("Goods.Pair", 2), ("Log", 7)] }] }] }] }]⟩]

/-- Two types, one of them external, and a field of the other one. -/
def model : ReferenceModel where
  types := #[
    { id := ⟨0⟩, name := "Crate", fullName := "Crate", project := some ⟨0⟩, fields := [⟨0⟩] },
    { id := ⟨1⟩, name := "Pair", fullName := "Goods.Pair", isExternal := true }]
  fields := #[{
    id := ⟨0⟩
    name := "pair"
    typeLink := ⟨"Goods.Pair<T>", some ⟨1⟩, [⟨"T", none, []⟩]⟩
    containingType := ⟨0⟩ }]
  createdClasses := [⟨1⟩]

/-- The same model without the list of its external types. -/
def withoutCreated : ReferenceModel := { model with createdClasses := [] }

/-- A finding with candidates, and one without a context. -/
def findings : Diagnostics where
  entries := [
    { severity := .warning
      kind := .ambiguousName
      message := "'Pair' is ambiguous"
      context := (DiagnosticContext.inFile "app" "Crate.cs").withCandidates ["A.Pair", "B.Pair"] },
    { severity := .error, kind := .unresolvedCall, message := "é\t", context := {} }]

/-- A configuration with a separator of two characters. -/
def config : LinkConfig where
  separator := "::"
  excludes := []

/-- The files once a configuration has been stored. -/
def stored (config : LinkConfig) : FileTree :=
  ((saveConfig "" config : StateM FileTree (Except Failure Unit)).run { root := "/work" }).2

theorem run_saveConfig {config : LinkConfig}
    (h : ((saveConfig "" config : StateM FileTree (Except Failure Unit)).run
      { root := "/work" }).1 = .ok ()) :
    (saveConfig "" config : StateM FileTree (Except Failure Unit)).run { root := "/work" } =
      (.ok (), stored config) :=
  Prod.ext h rfl

end Crates

open Crates in
theorem crates_roundTrip :
    Decoder.RoundTrips RepositoryFact.decode RepositoryFact.encode facts ∧
    Decoder.RoundTrips ReferenceModel.decode ReferenceModel.encode model ∧
    Decoder.RoundTrips Diagnostics.decode Diagnostics.encode findings ∧
    Decoder.RoundTrips LinkConfig.decode LinkConfig.encode config ∧
    model.canonicalText.toUTF8.data.toList ≠ withoutCreated.canonicalText.toUTF8.data.toList ∧
    (loadConfig "" : StateM FileTree (Except Failure LinkConfig)).run (stored config) =
      (.ok config, stored config) ∧
    ∃ failure : Failure, failure.kind = .config ∧
      (loadConfig "" : StateM FileTree (Except Failure LinkConfig)).run
        (stored { config with separator := "" }) =
          (.error failure, stored { config with separator := "" }) := by
  obtain ⟨hfacts, hmodel, hfindings, hconfig, hbytes, hstored⟩ := formats_roundTrip
  have hstorable : model.encode.isStorable = true := by decide +kernel
  refine ⟨hfacts facts (by decide +kernel) (by decide +kernel),
    hmodel model hstorable (by decide +kernel), hfindings findings,
    hconfig config (by decide), fun hsame => ?_, ?_, ?_⟩
  · have heq := hbytes model withoutCreated hstorable (by decide +kernel) hsame
    cases congrArg ReferenceModel.createdClasses heq
  · exact (hstored "" config _ _ (by decide) (run_saveConfig (by decide +kernel))).1 (by decide)
  · exact (hstored "" { config with separator := "" } _ _ (by decide)
      (run_saveConfig (by decide +kernel))).2 rfl

end FactGraph
