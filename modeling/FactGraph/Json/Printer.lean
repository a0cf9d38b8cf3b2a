import FactGraph.Json.Basic

/-!
# Writing JSON text

Two layouts: compact, without any blanks, and pretty, with one item or field on a line and an
indent of two spaces. In both, a text is written in quotes with the shortest escapes; what needs
no escape is written as it is.

## Main definitions

* `Json.compact`: the compact text of a value
* `Json.pretty`: the pretty text of a value
-/

namespace FactGraph.Json

namespace Printer

/-! ## Texts -/

/-- A hexadecimal digit, in lower case. -/
def hexDigit (n : Nat) : Char :=
  if n < 10 then Char.ofNat ('0'.toNat + n) else Char.ofNat ('a'.toNat + (n - 10))

/-- A character inside of quotes: the quote, the backslash and the control characters below
U+0020 are escaped, the latter by four hexadecimal digits unless they have a letter. -/
def escape (c : Char) : List Char :=
  match c with
  | '"' => ['\\', '"']
  | '\\' => ['\\', '\\']
  | '\x08' => ['\\', 'b']
  | '\x0c' => ['\\', 'f']
  | '\n' => ['\\', 'n']
  | '\r' => ['\\', 'r']
  | '\t' => ['\\', 't']
  | c =>
    if c.toNat < 0x20 then
      ['\\', 'u', '0', '0', hexDigit (c.toNat / 16), hexDigit (c.toNat % 16)]
    else [c]

/-- A text in quotes. -/
def quoted (s : String) : List Char :=
  '"' :: s.toList.flatMap escape ++ ['"']

/-- The text of a value that is neither an array nor an object. A value that is no Unicode text
has no text of its own. -/
def scalar : Json → List Char
  | .null => "null".toList
  | .bool true => "true".toList
  | .bool false => "false".toList
  | .nat value => Nat.toDigits 10 value
  | .otherNumber literal => literal.toList
  | .str value => quoted value
  | _ => "null".toList

/-! ## The compact layout -/

mutual

/-- The compact characters of a value. -/
def compactChars : Json → List Char
  | .arr [] => ['[', ']']
  | .arr (item :: items) => '[' :: compactChars item ++ compactItems items
  | .obj [] => ['\x7b', '\x7d']
  | .obj ((name, value) :: fields) =>
    '\x7b' :: quoted name ++ ':' :: compactChars value ++ compactFields fields
  | json => scalar json

/-- The items behind the first one, and the closing bracket. -/
def compactItems : List Json → List Char
  | [] => [']']
  | item :: items => ',' :: compactChars item ++ compactItems items

/-- The fields behind the first one, and the closing brace. -/
def compactFields : List (String × Json) → List Char
  | [] => ['\x7d']
  | (name, value) :: fields =>
    ',' :: quoted name ++ ':' :: compactChars value ++ compactFields fields

end

/-! ## The pretty layout -/

/-- A new line with the indent of a nesting depth. -/
def newline (indent : Nat) : List Char :=
  '\n' :: List.replicate (2 * indent) ' '

mutual

/-- The pretty characters of a value that starts at a nesting depth. -/
def prettyChars (indent : Nat) : Json → List Char
  | .arr [] => ['[', ']']
  | .arr (item :: items) =>
    '[' :: newline (indent + 1) ++ prettyChars (indent + 1) item ++ prettyItems indent items
  | .obj [] => ['\x7b', '\x7d']
  | .obj ((name, value) :: fields) =>
    '\x7b' :: newline (indent + 1) ++ quoted name ++ ':' :: ' ' ::
      prettyChars (indent + 1) value ++ prettyFields indent fields
  | json => scalar json

/-- The items behind the first one, and the closing bracket. -/
def prettyItems (indent : Nat) : List Json → List Char
  | [] => newline indent ++ [']']
  | item :: items =>
    ',' :: newline (indent + 1) ++ prettyChars (indent + 1) item ++ prettyItems indent items

/-- The fields behind the first one, and the closing brace. -/
def prettyFields (indent : Nat) : List (String × Json) → List Char
  | [] => newline indent ++ ['\x7d']
  | (name, value) :: fields =>
    ',' :: newline (indent + 1) ++ quoted name ++ ':' :: ' ' ::
      prettyChars (indent + 1) value ++ prettyFields indent fields

end

end Printer

/-- **The compact text** of a value, without any blanks. -/
def compact (json : Json) : String :=
  String.ofList (Printer.compactChars json)

/-- **The pretty text** of a value: one item or field on a line, an indent of two spaces. -/
def pretty (json : Json) : String :=
  String.ofList (Printer.prettyChars 0 json)

end FactGraph.Json
