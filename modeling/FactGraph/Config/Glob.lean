import FactGraph.Config.Basic

/-!
# Path patterns

Which compilation units take part in a run is decided by patterns for their paths. In a pattern

* `?` stands for one character, whatever it is;
* `*` stands for any text, which may reach over several components of the path;
* `**` stands for whole components: it has to be a component of the pattern itself, together with
  the slash behind it, and stands for nothing, for a text that ends in a slash, or for everything
  that is left;
* `[abc]`, `[a-z]` and `[!a-z]` stand for one character in, or not in, the given ones;
* every other character stands for itself.

A pattern that breaks these rules matches nothing.

## Main definitions

* `Glob.parse?`: the tokens of a pattern
* `Glob.matchesChars`: whether a whole path fits
* `Glob.verdicts`: the same of every end of a path, in one walk over the path for each token
* `LinkConfig.includesPath`: whether a unit takes part in a run

## Main results

* `Glob.verdicts_eq_map_ends`, `Glob.fits_eq`: the verdicts are what `Glob.matchesChars` says
-/

namespace FactGraph

namespace Glob

/-- The characters that one entry between square brackets stands for. -/
inductive CharSpec where
  | single (c : Char)
  | range (first last : Char)

/-- A part of a pattern. -/
inductive Token where
  | char (c : Char)
  | anyChar
  | anyText
  | anyComponents
  | oneOf (specs : List CharSpec)
  | noneOf (specs : List CharSpec)

/-! ## Reading patterns -/

/-- The entries between square brackets, from left to right. -/
def charSpecs : List Char → List CharSpec
  | a :: '-' :: b :: cs => .range a b :: charSpecs cs
  | c :: cs => .single c :: charSpecs cs
  | [] => []

/-- A class behind its opening bracket, and the number of characters up to and including the
closing one. The first character of a class is never the closing bracket. -/
def charClass? : List Char → Option (Token × Nat)
  | '!' :: c :: cs =>
    if cs.contains ']' then
      let body := cs.takeWhile (· != ']')
      some (.noneOf (charSpecs (c :: body)), body.length + 3)
    else none
  | c :: cs =>
    if c != '!' && cs.contains ']' then
      let body := cs.takeWhile (· != ']')
      some (.oneOf (charSpecs (c :: body)), body.length + 2)
    else none
  | [] => none

/-- The tokens of the rest of a pattern: `before` is the character before it, and `skip`
characters of it belong to a class that has been read. -/
def parseFrom (before : Option Char) : Nat → List Char → Option (List Token)
  | _, [] => some []
  | skip + 1, c :: cs => parseFrom (some c) skip cs
  | 0, '*' :: '*' :: '*' :: _ => none
  | 0, ['*', '*'] =>
    if before.all (· == '/') then some [.anyComponents] else none
  | 0, '*' :: '*' :: '/' :: cs =>
    if before.all (· == '/') then (parseFrom (some '/') 0 cs).map (.anyComponents :: ·) else none
  | 0, '*' :: '*' :: _ :: _ => none
  | 0, '*' :: cs => (parseFrom (some '*') 0 cs).map (.anyText :: ·)
  | 0, '?' :: cs => (parseFrom (some '?') 0 cs).map (.anyChar :: ·)
  | 0, '[' :: cs =>
    match charClass? cs with
    | some (token, length) => (parseFrom (some '[') length cs).map (token :: ·)
    | none => none
  | 0, c :: cs => (parseFrom (some c) 0 cs).map (.char c :: ·)

/-- The tokens of a pattern, if it keeps to the rules. -/
def parse? (pattern : String) : Option (List Token) :=
  parseFrom none 0 pattern.toList

/-! ## Matching -/

/-- The character is among those of the entry. -/
def CharSpec.admits : CharSpec → Char → Bool
  | .single c, d => c == d
  | .range first last, d => decide (first ≤ d) && decide (d ≤ last)

/-- Every end of a text, the longest one first. -/
def ends : List Char → List (List Char)
  | [] => [[]]
  | c :: cs => (c :: cs) :: ends cs

/-- The longest end of a text is the text. -/
@[simp]
theorem head?_ends (cs : List Char) : (ends cs).head? = some cs := by
  cases cs <;> rfl

/-- The ends of a text behind a slash, and the empty end. -/
def endsBehindSlash : List Char → List (List Char)
  | [] => [[]]
  | c :: cs => if c == '/' then cs :: endsBehindSlash cs else endsBehindSlash cs

/-- The character is one that the token can stand for. -/
def Token.admits : Token → Char → Bool
  | .char c, d => c == d
  | .anyChar, _ | .anyText, _ | .anyComponents, _ => true
  | .oneOf specs, d => specs.any (·.admits d)
  | .noneOf specs, d => !specs.any (·.admits d)

/-- **Matching**: the whole text fits the tokens. -/
def matchesChars : List Token → List Char → Bool
  | [], cs => cs.isEmpty
  | .anyText :: tokens, cs => (ends cs).any fun rest => matchesChars tokens rest
  | .anyComponents :: tokens, cs =>
    (cs :: endsBehindSlash cs).any fun rest => matchesChars tokens rest
  | token :: tokens, d :: cs => token.admits d && matchesChars tokens cs
  | _ :: _, [] => false

/-! ## Matching all ends at once

To try every end of a text again for every token takes a time that grows with the power of their
number. Each end is therefore judged once for each token: the verdicts of a list of tokens say of
every end of the text, the longest first, whether it fits, and those of one token more are
computed from them in one walk over the text. -/

/-- The verdicts with a token in front that stands for one admitted character. -/
def behindChar (admits : Char → Bool) : List Char → List Bool → List Bool
  | d :: cs, _ :: verdicts => (admits d && verdicts.headD false) :: behindChar admits cs verdicts
  | _, _ => [false]

/-- The verdicts with any text in front. -/
def behindText : List Bool → List Bool
  | [] => []
  | verdict :: verdicts =>
    let rest := behindText verdicts
    (verdict || rest.headD false) :: rest

/-- The verdicts with a text in front that ends in a slash, or reaches to the end. -/
def behindSlash : List Char → List Bool → List Bool
  | c :: cs, _ :: verdicts =>
    let rest := behindSlash cs verdicts
    (c == '/' && verdicts.headD false || rest.headD false) :: rest
  | _, verdicts => verdicts

/-- Whether each end of the text fits the tokens, the longest end first. -/
def verdicts : List Token → List Char → List Bool
  | [], cs => (ends cs).map List.isEmpty
  | .anyText :: tokens, cs => behindText (verdicts tokens cs)
  | .anyComponents :: tokens, cs =>
    let rest := verdicts tokens cs
    List.zipWith (· || ·) rest (behindSlash cs rest)
  | token :: tokens, cs => behindChar token.admits cs (verdicts tokens cs)

/-- A path fits a pattern. One that breaks the rules is fitted by no path. -/
def fits (pattern : String) (path : List Char) : Bool :=
  match parse? pattern with
  | some tokens => (verdicts tokens path).headD false
  | none => false

theorem behindChar_map_ends (admits : Char → Bool) (p : List Char → Bool) (cs : List Char) :
    behindChar admits cs ((ends cs).map p) =
      (ends cs).map fun
        | [] => false
        | d :: rest => admits d && p rest := by
  induction cs with
  | nil => rfl
  | cons c cs ih => simp [ends, behindChar, ih]

theorem behindText_map_ends (p : List Char → Bool) (cs : List Char) :
    behindText ((ends cs).map p) = (ends cs).map fun rest => (ends rest).any p := by
  induction cs with
  | nil => simp [ends, behindText]
  | cons c cs ih => simp [ends, behindText, ih]

theorem behindSlash_map_ends (p : List Char → Bool) (cs : List Char) :
    behindSlash cs ((ends cs).map p) = (ends cs).map fun rest => (endsBehindSlash rest).any p := by
  induction cs with
  | nil => simp [ends, endsBehindSlash, behindSlash]
  | cons c cs ih =>
    by_cases h : c = '/' <;> simp [ends, endsBehindSlash, behindSlash, ih, h]

/-- The verdicts are what matching says of each end. -/
theorem verdicts_eq_map_ends (tokens : List Token) (cs : List Char) :
    verdicts tokens cs = (ends cs).map (matchesChars tokens) := by
  induction tokens with
  | nil => rfl
  | cons token tokens ih =>
    cases token
    case anyText => simp [verdicts, ih, behindText_map_ends, matchesChars]
    case anyComponents =>
      simp [verdicts, ih, behindSlash_map_ends, matchesChars, List.zipWith_map]
    all_goals
      simp only [verdicts, ih, behindChar_map_ends]
      refine List.map_congr_left fun rest _ => ?_
      cases rest <;> rfl

/-- A path fits a pattern if the whole of it fits the tokens. -/
theorem fits_eq (pattern : String) (path : List Char) :
    fits pattern path = (parse? pattern).any (matchesChars · path) := by
  rw [fits]
  cases parse? pattern <;> simp [verdicts_eq_map_ends]

end Glob

/-- **The filter of a run**: the path fits a pattern of the units to link, and none of those to
leave out. A backslash in the path counts as a slash. -/
def LinkConfig.includesPath (config : LinkConfig) (path : String) : Bool :=
  let normalized := path.toList.map fun c => if c == '\\' then '/' else c
  !config.excludes.any (Glob.fits · normalized) && config.includes.any (Glob.fits · normalized)

end FactGraph
