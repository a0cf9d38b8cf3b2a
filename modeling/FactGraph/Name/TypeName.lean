import FactGraph.Text.Blank

/-!
# Type names

A type name as it is written at an occurrence: a base, generic arguments, and modifiers behind
them. `Map<string, List<Item>>[]` has the base `Map`, two arguments, the second one generic
itself, and the suffix `[]`. Nullable marks `?` and array ranks `[]`, `[,]` are modifiers.

Reading never fails. A text whose brackets do not pair up is kept whole as a base without
arguments, so that `render` gives it back.

## Main definitions

* `TypeName`: base, arguments, suffix
* `TypeName.parse`: the tree of a written name
* `TypeName.render`: the canonical text `Base<A, B>suffix` of a tree
-/

namespace FactGraph

/-- A type name taken apart. -/
structure TypeName where
  base : String
  args : List TypeName := []
  suffix : String := ""
  deriving Inhabited

namespace TypeName

/-! ## Modifiers at the end of a name -/

/-- A character between the brackets of an array rank. -/
def isRankChar (c : Char) : Bool :=
  c == ',' || Text.isBlankChar c

/-- **Peeling modifiers.** Walks a name from its end, moving nullable marks, array ranks and
blanks from the first list (the characters not yet passed, last one first) to the second (the
characters passed, in reading order). Inside a rank, `mark` is the state just before its closing
bracket, which is where the walk ends when no opening bracket follows. -/
def peel (mark : Option (List Char × List Char)) :
    List Char → List Char → List Char × List Char
  | [], passed => mark.getD ([], passed)
  | c :: cs, passed =>
    match mark with
    | none =>
      if c == '?' || Text.isBlankChar c then peel none cs (c :: passed)
      else if c == ']' then peel (some (c :: cs, passed)) cs (c :: passed)
      else (c :: cs, passed)
    | some state =>
      if isRankChar c then peel (some state) cs (c :: passed)
      -- The rank is complete.
      else if c == '[' then peel none cs (c :: passed)
      -- It is none, so its closing bracket belongs to the name.
      else state

/-- The name without its modifiers, and the modifiers. Neither has blanks at its ends. -/
def splitSuffix (name : List Char) : List Char × List Char :=
  let (body, suffix) := peel none name.reverse []
  (Text.trimEndChars body.reverse, Text.trimChars suffix)

/-! ## Generic arguments -/

/-- A bracket that opens a nested list of arguments. -/
def isOpening (c : Char) : Bool := c == '<' || c == '('

/-- A bracket that closes a nested list of arguments. -/
def isClosing (c : Char) : Bool := c == '>' || c == ')'

/-- The first piece and the further pieces of an argument list, divided at the commas outside of
all brackets; `depth` brackets are open. There are none when the brackets do not pair up. -/
def splitArgumentsFrom : Nat → List Char → Option (List Char × List (List Char))
  | depth, [] => if depth = 0 then some ([], []) else none
  | depth, c :: cs =>
    if c == ',' && depth == 0 then
      (splitArgumentsFrom 0 cs).map fun (piece, pieces) => ([], piece :: pieces)
    else if isOpening c then
      (splitArgumentsFrom (depth + 1) cs).map fun (piece, pieces) => (c :: piece, pieces)
    else if isClosing c then
      match depth with
      | 0 => none
      | outer + 1 =>
        (splitArgumentsFrom outer cs).map fun (piece, pieces) => (c :: piece, pieces)
    else
      (splitArgumentsFrom depth cs).map fun (piece, pieces) => (c :: piece, pieces)

/-- The arguments between a pair of angle brackets, without the blanks around them. There are
none when the brackets inside do not pair up, or when an argument is empty. -/
def splitArguments (inner : List Char) : Option (List (List Char)) :=
  match splitArgumentsFrom 0 inner with
  | none => none
  | some (piece, pieces) =>
    let trimmed := (piece :: pieces).map Text.trimChars
    if trimmed.any List.isEmpty then none else some trimmed

/-! ## Reading and writing -/

/-- The name is kept whole, as a base. -/
def simple (base : String) : TypeName := { base }

/-- The parts that a name without blanks at its ends is put together from: the base, the
arguments and the suffix, the arguments still as text. -/
def dissect (trimmed : List Char) : List Char × List (List Char) × List Char :=
  let (body, suffix) := splitSuffix trimmed
  let base := body.takeWhile (· != '<')
  match body.dropWhile (· != '<') with
  | [] => (body, [], suffix)
  | _ :: rest =>
    -- What stood behind a closing bracket would be lost.
    if rest.getLast? = some '>' then
      match splitArguments rest.dropLast with
      | some arguments => (Text.trimChars base, arguments, suffix)
      | none => (trimmed, [], [])
    else (trimmed, [], [])

/-- The tree of a name, with arguments nested at most `depth` deep. -/
def parseWithin : Nat → List Char → TypeName
  | 0, name => simple (String.ofList (Text.trimChars name))
  | depth + 1, name =>
    let (base, arguments, suffix) := dissect (Text.trimChars name)
    { base := String.ofList base
      args := arguments.map (parseWithin depth)
      suffix := String.ofList suffix }

/-- **The tree of a written name.** An argument is shorter than the name that holds it, so the
length of the name bounds the nesting. -/
def parse (name : String) : TypeName :=
  parseWithin (name.toList.length + 1) name.toList

/-- The name has arguments. -/
def isGeneric (name : TypeName) : Bool :=
  !name.args.isEmpty

mutual

/-- **The canonical text** of a tree: the arguments stand in angle brackets, with a comma and a
space between them. -/
def render : TypeName → String
  | ⟨base, [], suffix⟩ => base ++ suffix
  | ⟨base, arg :: args, suffix⟩ =>
    base ++ "<" ++ arg.render ++ renderTail args ++ ">" ++ suffix

/-- The texts of the arguments behind the first one, each after its comma. -/
def renderTail : List TypeName → String
  | [] => ""
  | arg :: args => ", " ++ arg.render ++ renderTail args

end

end TypeName

end FactGraph
