/-!
# Blank characters

Front-ends pad names with whitespace of every kind. A character is blank when it has the
Unicode property `White_Space`; a name that holds nothing else counts as missing.

## Main definitions

* `blankRanges`: the code points with the property, as increasing ranges
* `trim s`: the text without the blanks at its two ends
* `isBlank s`: the text holds blanks only
-/

namespace FactGraph.Text

/-- The code points with the Unicode property `White_Space`, as increasing closed ranges. -/
def blankRanges : List (Nat × Nat) :=
  [(0x0009, 0x000D), (0x0020, 0x0020), (0x0085, 0x0085), (0x00A0, 0x00A0), (0x1680, 0x1680),
   (0x2000, 0x200A), (0x2028, 0x2029), (0x202F, 0x202F), (0x205F, 0x205F), (0x3000, 0x3000)]

/-- The character has the Unicode property `White_Space`. -/
def isBlankChar (c : Char) : Bool :=
  blankRanges.any fun range => decide (range.1 ≤ c.toNat) && decide (c.toNat ≤ range.2)

/-! ## Trimming -/

/-- The characters from the first one that is not blank. -/
def trimStartChars (cs : List Char) : List Char :=
  cs.dropWhile isBlankChar

/-- The characters up to the last one that is not blank. -/
def trimEndChars (cs : List Char) : List Char :=
  (cs.reverse.dropWhile isBlankChar).reverse

/-- The characters between the first and the last one that are not blank. -/
def trimChars (cs : List Char) : List Char :=
  trimEndChars (trimStartChars cs)

/-- The text without the blanks at its two ends. -/
def trim (s : String) : String :=
  String.ofList (trimChars s.toList)

/-- The text holds no character but blanks, so nothing is left of it after trimming. -/
def isBlank (s : String) : Bool :=
  s.toList.all isBlankChar

end FactGraph.Text
