import FactGraph.Config.Basic
import FactGraph.Json.Decoder

/-!
# The configuration in JSON

Every setting is written; one that is missing has its default when it is read.
-/

namespace FactGraph.LinkConfig

/-- The record of a configuration. -/
def encode (config : LinkConfig) : Json :=
  .obj [
    ("version", .nat config.version),
    ("separator", .str config.separator),
    ("fallback", .str config.fallback.text),
    ("parallel", .bool config.parallel),
    ("include", .ofStrings config.includes),
    ("exclude", .ofStrings config.excludes)]

/-- Reads a configuration. -/
def decode : Decoder LinkConfig := fun budget json => do
  let default : LinkConfig := {}
  let record ← Record.ofJson?
    ["version", "separator", "fallback", "parallel", "include", "exclude"] budget json
  return {
    version := ← record.withDefault "version" Decoder.nat default.version
    separator := ← record.withDefault "separator" Decoder.string default.separator
    fallback := ←
      record.withDefault "fallback" (Decoder.word FallbackPolicy.ofText?) default.fallback
    parallel := ← record.withDefault "parallel" Decoder.bool default.parallel
    includes := ← record.withDefault "include" (Decoder.list Decoder.string) default.includes
    excludes := ← record.withDefault "exclude" (Decoder.list Decoder.string) default.excludes }

end FactGraph.LinkConfig
