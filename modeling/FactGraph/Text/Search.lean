/-!
# Searching a text

Occurrences of a pattern in a list of characters. An occurrence divides the text into what
stands before it and what stands after it, which is the form in which every caller needs it:
the first occurrence, the last one (which may overlap an earlier one), and the pieces between
the occurrences met from left to right.

## Main definitions

* `splitFirst? pattern cs`, `splitLast? pattern cs`: what surrounds an occurrence
* `splitAll pattern cs`: the pieces between the occurrences, from left to right
-/

namespace FactGraph.Text

/-- What stands before and after the first occurrence of a non-empty pattern. -/
def splitFirst? (pattern : List Char) : List Char → Option (List Char × List Char)
  | [] => none
  | c :: cs =>
    match pattern.isPrefixOf? (c :: cs) with
    | some rest => some ([], rest)
    | none => (splitFirst? pattern cs).map fun (front, back) => (c :: front, back)

/-- What stands before and after the last occurrence of a non-empty pattern. Of two
overlapping occurrences the later one counts. -/
def splitLast? (pattern : List Char) : List Char → Option (List Char × List Char)
  | [] => none
  | c :: cs =>
    match splitLast? pattern cs with
    | some (front, back) => some (c :: front, back)
    | none => (pattern.isPrefixOf? (c :: cs)).map fun rest => ([], rest)

/-- The first piece and the further pieces of the text, where `skip` characters of an
occurrence that has been met are still to be passed over. -/
def splitAllFrom (pattern : List Char) : Nat → List Char → List Char × List (List Char)
  | _, [] => ([], [])
  | skip + 1, _ :: cs => splitAllFrom pattern skip cs
  | 0, c :: cs =>
    if pattern.isPrefixOf (c :: cs) then
      let (piece, pieces) := splitAllFrom pattern (pattern.length - 1) cs
      ([], piece :: pieces)
    else
      let (piece, pieces) := splitAllFrom pattern 0 cs
      (c :: piece, pieces)

/-- The pieces between the occurrences of a non-empty pattern, met from left to right; an
occurrence starts only after the previous one has ended. There is always at least one piece. -/
def splitAll (pattern cs : List Char) : List (List Char) :=
  let (piece, pieces) := splitAllFrom pattern 0 cs
  piece :: pieces

end FactGraph.Text
