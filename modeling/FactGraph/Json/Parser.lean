import FactGraph.Json.Basic

/-!
# Reading JSON text

A strict reader: one value, blanks around it and nothing else. There are no comments, no commas
behind the last item, no leading zeros and no control characters inside of texts. A `\u` escape
names a UTF-16 unit; two of them may form a surrogate pair, and half of a pair makes its text
`unreadable`, which is for the decoder to judge.

Each reader takes the characters that are left and returns its result and what is left after it.

## Main definitions

* `Json.parse text`: the value of a text
-/

namespace FactGraph.Json.Parser

/-! ## Blanks and digits -/

/-- The blanks between the tokens. -/
def isSpace (c : Char) : Bool :=
  c == ' ' || c == '\t' || c == '\n' || c == '\r'

/-- The characters from the first one that is no blank. -/
def skipSpace (cs : List Char) : List Char :=
  cs.dropWhile isSpace

/-- A decimal digit. -/
def isDigit (c : Char) : Bool :=
  decide ('0' ≤ c) && decide (c ≤ '9')

/-- The number that decimal digits stand for. -/
def natOfDigits (digits : List Char) : Nat :=
  digits.foldl (fun n c => n * 10 + (c.toNat - '0'.toNat)) 0

/-- The value of a hexadecimal digit. -/
def hexValue? (c : Char) : Option Nat :=
  if isDigit c then some (c.toNat - '0'.toNat)
  else if decide ('a' ≤ c) && decide (c ≤ 'f') then some (c.toNat - 'a'.toNat + 10)
  else if decide ('A' ≤ c) && decide (c ≤ 'F') then some (c.toNat - 'A'.toNat + 10)
  else none

/-! ## Texts -/

/-- A part of a text: a character, or a UTF-16 unit given by an escape. -/
inductive Piece where
  | char (c : Char)
  | unit (value : Nat)

/-- The character of a short escape, by the letter behind the backslash. -/
def shortEscape? : Char → Option Char
  | '"' => some '"'
  | '\\' => some '\\'
  | '/' => some '/'
  | 'b' => some '\x08'
  | 'f' => some '\x0c'
  | 'n' => some '\n'
  | 'r' => some '\r'
  | 't' => some '\t'
  | _ => none

/-- The UTF-16 unit of four hexadecimal digits. -/
def unitOf? (a b c d : Char) : Option Nat := do
  let a ← hexValue? a
  let b ← hexValue? b
  let c ← hexValue? c
  let d ← hexValue? d
  return ((a * 16 + b) * 16 + c) * 16 + d

/-- The parts of a text, up to its closing quote. -/
def pieces : List Char → Option (List Piece × List Char)
  | [] => none
  | '"' :: cs => some ([], cs)
  | '\\' :: 'u' :: a :: b :: c :: d :: cs => do
    let unit ← unitOf? a b c d
    let (rest, left) ← pieces cs
    return (.unit unit :: rest, left)
  | '\\' :: e :: cs => do
    let c ← shortEscape? e
    let (rest, left) ← pieces cs
    return (.char c :: rest, left)
  | c :: cs =>
    if c.toNat < 0x20 || c == '\\' then none
    else do
      let (rest, left) ← pieces cs
      return (.char c :: rest, left)

/-- A unit that starts a surrogate pair. -/
def isHighSurrogate (unit : Nat) : Bool :=
  decide (0xD800 ≤ unit) && decide (unit < 0xDC00)

/-- A unit that ends a surrogate pair. -/
def isLowSurrogate (unit : Nat) : Bool :=
  decide (0xDC00 ≤ unit) && decide (unit < 0xE000)

/-- The characters that the parts stand for, unless half of a surrogate pair is among them. -/
def assemble? : List Piece → Option (List Char)
  | [] => some []
  | .char c :: rest => (assemble? rest).map (c :: ·)
  | .unit high :: .unit low :: rest =>
    if isHighSurrogate high && isLowSurrogate low then
      (assemble? rest).map
        (Char.ofNat (0x10000 + (high - 0xD800) * 0x400 + (low - 0xDC00)) :: ·)
    else if isHighSurrogate high || isLowSurrogate high then none
    -- The second unit may start a pair of its own.
    else (assemble? (.unit low :: rest)).map (Char.ofNat high :: ·)
  | .unit unit :: rest =>
    if isHighSurrogate unit || isLowSurrogate unit then none
    else (assemble? rest).map (Char.ofNat unit :: ·)

/-- A text behind its opening quote; it may turn out to be no Unicode text. -/
def text (cs : List Char) : Option (Option String × List Char) := do
  let (parts, left) ← pieces cs
  return ((assemble? parts).map String.ofList, left)

/-! ## Numbers -/

/-- At least one digit. -/
def someDigits (cs : List Char) : Option (List Char × List Char) :=
  match cs.takeWhile isDigit with
  | [] => none
  | digits => some (digits, cs.dropWhile isDigit)

/-- The digits before the point: a zero stands alone. -/
def wholeDigits (cs : List Char) : Option (List Char × List Char) := do
  let (digits, left) ← someDigits cs
  if digits.head? = some '0' && digits.length > 1 then none else some (digits, left)

/-- The fraction, if there is one. -/
def fraction (cs : List Char) : Option (List Char × List Char) :=
  match cs with
  | '.' :: cs => do
    let (digits, left) ← someDigits cs
    return ('.' :: digits, left)
  | _ => some ([], cs)

/-- The sign of an exponent, if there is one. -/
def exponentSign : List Char → List Char × List Char
  | '+' :: cs => (['+'], cs)
  | '-' :: cs => (['-'], cs)
  | cs => ([], cs)

/-- The exponent, if there is one. -/
def exponent (cs : List Char) : Option (List Char × List Char) :=
  match cs with
  | c :: cs' =>
    if c == 'e' || c == 'E' then do
      let (sign, cs'') := exponentSign cs'
      let (digits, left) ← someDigits cs''
      return (c :: sign ++ digits, left)
    else some ([], cs)
  | [] => some ([], [])

/-- The digits of a number, its fraction and its exponent. -/
def magnitude (cs : List Char) : Option ((List Char × List Char × List Char) × List Char) := do
  let (whole, cs) ← wholeDigits cs
  let (fractional, cs) ← fraction cs
  let (power, cs) ← exponent cs
  return ((whole, fractional, power), cs)

/-- A number. -/
def number (cs : List Char) : Option (Json × List Char) :=
  match cs with
  | '-' :: cs => do
    let ((whole, fractional, power), left) ← magnitude cs
    return (.otherNumber (String.ofList ('-' :: whole ++ fractional ++ power)), left)
  | _ => do
    let ((whole, fractional, power), left) ← magnitude cs
    if fractional.isEmpty && power.isEmpty then
      return (.nat (natOfDigits whole), left)
    else
      return (.otherNumber (String.ofList (whole ++ fractional ++ power)), left)

/-! ## Values -/

/-- The object with these fields, unless a name among them is no Unicode text. -/
def objectOf (fields : List (Option String × Json)) : Json :=
  match fields.mapM fun (name, value) => name.map fun name => (name, value) with
  | some fields => .obj fields
  | none => .unreadable

mutual

/-- A value; the first argument bounds the calls that reading it may nest. -/
def value : Nat → List Char → Option (Json × List Char)
  | 0, _ => none
  | fuel + 1, cs =>
    match skipSpace cs with
    | 'n' :: 'u' :: 'l' :: 'l' :: left => some (.null, left)
    | 't' :: 'r' :: 'u' :: 'e' :: left => some (.bool true, left)
    | 'f' :: 'a' :: 'l' :: 's' :: 'e' :: left => some (.bool false, left)
    | '"' :: cs => do
      let (value, left) ← text cs
      return ((value.map Json.str).getD .unreadable, left)
    | '[' :: cs =>
      match skipSpace cs with
      | ']' :: left => some (.arr [], left)
      | cs => do
        let (items, left) ← items fuel cs
        return (.arr items, left)
    | '\x7b' :: cs =>
      match skipSpace cs with
      | '\x7d' :: left => some (.obj [], left)
      | cs => do
        let (fields, left) ← fields fuel cs
        return (objectOf fields, left)
    | cs => number cs

/-- The items of an array, of which there is at least one, up to the closing bracket. -/
def items : Nat → List Char → Option (List Json × List Char)
  | 0, _ => none
  | fuel + 1, cs => do
    let (item, left) ← value fuel cs
    match skipSpace left with
    | ',' :: left => do
      let (rest, left) ← items fuel left
      return (item :: rest, left)
    | ']' :: left => return ([item], left)
    | _ => none

/-- The fields of an object, of which there is at least one, up to the closing brace. -/
def fields : Nat → List Char → Option (List (Option String × Json) × List Char)
  | 0, _ => none
  | fuel + 1, cs =>
    match skipSpace cs with
    | '"' :: cs => do
      let (name, left) ← text cs
      match skipSpace left with
      | ':' :: left => do
        let (item, left) ← value fuel left
        match skipSpace left with
        | ',' :: left => do
          let (rest, left) ← fields fuel left
          return ((name, item) :: rest, left)
        | '\x7d' :: left => return ([(name, item)], left)
        | _ => none
      | _ => none
    | _ => none

end

end Parser

/-- **The value of a text**, which has to hold one value and blanks around it. Every two nested
calls of the reader use up a character, so the length of the text bounds the nesting. -/
def parse (text : String) : Option Json :=
  let cs := text.toList
  match Parser.value (2 * cs.length + 2) cs with
  | some (json, left) => if (Parser.skipSpace left).isEmpty then some json else none
  | none => none

end FactGraph.Json
