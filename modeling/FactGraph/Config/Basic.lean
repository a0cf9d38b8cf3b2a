/-!
# The configuration of a run

## Main definitions

* `FallbackPolicy`: how far a name is searched for beyond what is in scope
* `LinkConfig`: the settings of a run, with their defaults
-/

namespace FactGraph

/-- Where a name that is neither in scope nor imported is searched for. The own project and the
projects that it refers to, directly or not, are always searched first. -/
inductive FallbackPolicy where
  /-- Every other project too, but only if no project of the repository refers to another. -/
  | referencesThenGlobal
  /-- No other project. -/
  | referencesOnly
  /-- Every other project too. -/
  | alwaysGlobal
  deriving DecidableEq, Inhabited

namespace FallbackPolicy

/-- The word for a policy. -/
def text : FallbackPolicy → String
  | .referencesThenGlobal => "references_then_global"
  | .referencesOnly => "references_only"
  | .alwaysGlobal => "always_global"

/-- Every policy. -/
def all : List FallbackPolicy := [.referencesThenGlobal, .referencesOnly, .alwaysGlobal]

/-- The policy that a word names. -/
def ofText? (word : String) : Option FallbackPolicy :=
  all.find? fun policy => policy.text = word

@[simp] theorem ofText?_text (policy : FallbackPolicy) :
    ofText? policy.text = some policy := by
  cases policy <;> rfl

end FallbackPolicy

/-- The settings of a run. -/
structure LinkConfig where
  /-- The version of the format of the configuration. -/
  version : Nat := 1
  /-- What separates the segments of a name. A run needs one that is not empty. -/
  separator : String := "."
  fallback : FallbackPolicy := .referencesThenGlobal
  /-- Whether projects may be resolved side by side. The result does not depend on it. -/
  parallel : Bool := true
  /-- Patterns for the paths of the compilation units to link. -/
  includes : List String := ["**/*"]
  /-- Patterns for the paths of the compilation units to leave out. -/
  excludes : List String := ["**/obj/**", "**/bin/**"]
  deriving DecidableEq, Inhabited

end FactGraph
