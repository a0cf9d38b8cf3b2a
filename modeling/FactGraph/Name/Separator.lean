import FactGraph.Text.Search

/-!
# Qualified names

A qualified name is a sequence of segments put together by a separator, such as `Geo.Shapes.Disc`.
The separator is part of the configuration: any text but the empty one, and possibly of several
characters, so that occurrences of it may overlap in a malformed name.

## Main definitions

* `Separator`: a text that is not empty
* `Separator.join`: puts two names together, leaving out an empty one
* `Separator.lastSegment`, `Separator.segments`: the parts of a qualified name
* `Separator.splitFirst?`, `Separator.splitLast?`: what surrounds an occurrence
* `Separator.outward`: a name and the names around it, innermost first
-/

namespace FactGraph

/-- A text that stands between the segments of a qualified name. -/
structure Separator where
  text : String
  /-- An empty text would separate every pair of characters. -/
  text_ne : text ≠ ""
  deriving DecidableEq

namespace Separator

/-- The separator of that text, if there is one. -/
def ofString? (text : String) : Option Separator :=
  if h : text = "" then none else some ⟨text, h⟩

/-- The separator of names written with dots. -/
def dot : Separator := ⟨".", by decide⟩

/-- Two names put together; an empty one is left out together with the separator. -/
def join (sep : Separator) (outer name : String) : String :=
  if outer = "" then name
  else if name = "" then outer
  else outer ++ sep.text ++ name

/-- What stands before and after the first separator of a name. -/
def splitFirst? (sep : Separator) (name : String) : Option (String × String) :=
  (Text.splitFirst? sep.text.toList name.toList).map fun (front, back) =>
    (String.ofList front, String.ofList back)

/-- What stands before and after the last separator of a name. -/
def splitLast? (sep : Separator) (name : String) : Option (String × String) :=
  (Text.splitLast? sep.text.toList name.toList).map fun (front, back) =>
    (String.ofList front, String.ofList back)

/-- The part of a name after its last separator; a name without one is its own last segment. -/
def lastSegment (sep : Separator) (name : String) : String :=
  match sep.splitLast? name with
  | some (_, back) => back
  | none => name

/-- The segments of a name, from the outermost one. An empty name has one empty segment. -/
def segments (sep : Separator) (name : String) : List String :=
  (Text.splitAll sep.text.toList name.toList).map String.ofList

/-- The name has a separator in it. -/
def occursIn (sep : Separator) (name : String) : Bool :=
  (sep.splitFirst? name).isSome

/-- The name, and the names that are left when its last segment is taken away up to `steps`
times. -/
def outwardWithin (sep : Separator) : Nat → String → List String
  | 0, name => [name]
  | steps + 1, name =>
    match sep.splitLast? name with
    | some (front, _) => name :: sep.outwardWithin steps front
    | none => [name]

/-- **A name and the names around it**, innermost first: `A.B.C`, `A.B`, `A`. Taking a segment
away shortens a name, so its length bounds the number of steps. -/
def outward (sep : Separator) (name : String) : List String :=
  sep.outwardWithin name.length name

/-- The name, and the names around it as long as they have more than `size` bytes. -/
def outwardBeyond (sep : Separator) (size : Nat) (name : String) : List String :=
  name :: (sep.outward name).tail.takeWhile fun outer => size < outer.utf8ByteSize

/-- The full name is `name`, or ends in it after a separator. -/
def endsWith (sep : Separator) (fullName name : String) : Bool :=
  fullName = name || (sep.text ++ name).toList.isSuffixOf fullName.toList

end Separator

end FactGraph
