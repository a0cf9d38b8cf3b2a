import FactGraph.Json.Decoder
import FactGraph.Json.Printer

/-!
# What is written is read back

The reader takes both layouts of the printer for what they are: a value that has a text is the
value of its compact text and of its pretty text. The two layouts differ in nothing but blanks, so
they are made out as one layout that is told which blanks to put where (`layout`), and the reader
skips whatever blanks there are.

A text is read back character by character: what the printer writes for a character is one part
for the reader, and an escaped control character is no half of a surrogate pair. Behind a number
there has to be something that cannot belong to it, which is the case everywhere in a layout.

## Main definitions

* `Json.isStorable`: the value is one that is ever written: its numbers are naturals of 32 bits
* `Printer.layout`: both layouts, by the blanks in them

## Main results

* `Parser.value_layout`: the value of a layout
* `parse_compact`, `parse_pretty`: the value of the two texts of a value
-/

namespace FactGraph.Json

/-! ## Stored values -/

mutual

/-- **The value is one that is ever written**: every number in it is a natural of 32 bits, and
every text in it is Unicode. -/
def isStorable : Json → Bool
  | .nat value => decide (value < Decoder.natBound)
  | .otherNumber _ | .unreadable => false
  | .arr items => isStorableItems items
  | .obj fields => isStorableFields fields
  | .null | .bool _ | .str _ => true

/-- All items are. -/
def isStorableItems : List Json → Bool
  | [] => true
  | item :: items => item.isStorable && isStorableItems items

/-- All fields have such values. -/
def isStorableFields : List (String × Json) → Bool
  | [] => true
  | (_, value) :: fields => value.isStorable && isStorableFields fields

end

/-! ## One layout -/

namespace Printer

section Layout

/- The blanks in front of an item or field, by its nesting depth, and those behind a colon. -/
variable (gap : Nat → List Char) (space : List Char)

mutual

/-- The characters of a value that starts at a nesting depth. -/
def layout (indent : Nat) : Json → List Char
  | .arr [] => ['[', ']']
  | .arr (item :: items) =>
    '[' :: gap (indent + 1) ++ layout (indent + 1) item ++ layoutItems indent items
  | .obj [] => ['\x7b', '\x7d']
  | .obj ((name, value) :: fields) =>
    '\x7b' :: gap (indent + 1) ++ quoted name ++ ':' :: space ++
      layout (indent + 1) value ++ layoutFields indent fields
  | json => scalar json

/-- The items behind the first one, and the closing bracket. -/
def layoutItems (indent : Nat) : List Json → List Char
  | [] => gap indent ++ [']']
  | item :: items =>
    ',' :: gap (indent + 1) ++ layout (indent + 1) item ++ layoutItems indent items

/-- The fields behind the first one, and the closing brace. -/
def layoutFields (indent : Nat) : List (String × Json) → List Char
  | [] => gap indent ++ ['\x7d']
  | (name, value) :: fields =>
    ',' :: gap (indent + 1) ++ quoted name ++ ':' :: space ++
      layout (indent + 1) value ++ layoutFields indent fields

end

theorem layout_null (indent : Nat) : layout gap space indent .null = "null".toList := by
  simp [layout, scalar]

theorem layout_true (indent : Nat) : layout gap space indent (.bool true) = "true".toList := by
  simp [layout, scalar]

theorem layout_false (indent : Nat) :
    layout gap space indent (.bool false) = "false".toList := by
  simp [layout, scalar]

theorem layout_nat (indent n : Nat) : layout gap space indent (.nat n) = Nat.toDigits 10 n := by
  simp [layout, scalar]

theorem layout_str (indent : Nat) (s : String) :
    layout gap space indent (.str s) = quoted s := by
  simp [layout, scalar]

end Layout

mutual

theorem compactChars_eq (indent : Nat) :
    ∀ json : Json, compactChars json = layout (fun _ => []) [] indent json
  | .arr [] | .obj [] | .null | .bool _ | .nat _ | .otherNumber _ | .str _ | .unreadable => by
    simp [compactChars, layout]
  | .arr (item :: items) => by
    simp [compactChars, layout, compactChars_eq (indent + 1) item, compactItems_eq indent items]
  | .obj ((name, value) :: fields) => by
    simp [compactChars, layout, compactChars_eq (indent + 1) value,
      compactFields_eq indent fields]

theorem compactItems_eq (indent : Nat) :
    ∀ items : List Json, compactItems items = layoutItems (fun _ => []) [] indent items
  | [] => rfl
  | item :: items => by
    simp [compactItems, layoutItems, compactChars_eq (indent + 1) item,
      compactItems_eq indent items]

theorem compactFields_eq (indent : Nat) : ∀ fields : List (String × Json),
    compactFields fields = layoutFields (fun _ => []) [] indent fields
  | [] => rfl
  | (name, value) :: fields => by
    simp [compactFields, layoutFields, compactChars_eq (indent + 1) value,
      compactFields_eq indent fields]

end

mutual

theorem prettyChars_eq (indent : Nat) :
    ∀ json : Json, prettyChars indent json = layout newline [' '] indent json
  | .arr [] | .obj [] | .null | .bool _ | .nat _ | .otherNumber _ | .str _ | .unreadable => by
    simp [prettyChars, layout]
  | .arr (item :: items) => by
    simp [prettyChars, layout, prettyChars_eq (indent + 1) item, prettyItems_eq indent items]
  | .obj ((name, value) :: fields) => by
    simp [prettyChars, layout, prettyChars_eq (indent + 1) value, prettyFields_eq indent fields]

theorem prettyItems_eq (indent : Nat) :
    ∀ items : List Json, prettyItems indent items = layoutItems newline [' '] indent items
  | [] => rfl
  | item :: items => by
    simp [prettyItems, layoutItems, prettyChars_eq (indent + 1) item, prettyItems_eq indent items]

theorem prettyFields_eq (indent : Nat) : ∀ fields : List (String × Json),
    prettyFields indent fields = layoutFields newline [' '] indent fields
  | [] => rfl
  | (name, value) :: fields => by
    simp [prettyFields, layoutFields, prettyChars_eq (indent + 1) value,
      prettyFields_eq indent fields]

end

end Printer

namespace Parser

open Printer

/-! ## Texts -/

/-- A control character that is escaped by its number. -/
def IsNumbered (c : Char) : Prop :=
  c.toNat < 0x20 ∧ c ∉ ['\x08', '\x0c', '\n', '\r', '\t']

instance (c : Char) : Decidable (IsNumbered c) :=
  inferInstanceAs (Decidable (_ ∧ _))

/-- The part of a text that a character is written as. -/
def pieceOf (c : Char) : Piece :=
  if IsNumbered c then .unit c.toNat else .char c

theorem hexValue?_hexDigit : ∀ n, n < 16 → hexValue? (hexDigit n) = some n := by decide

theorem pieces_escape (c : Char) (cs : List Char) :
    pieces (escape c ++ cs) = (pieces cs).map fun (rest, left) => (pieceOf c :: rest, left) := by
  have hplain (c : Char) : (do
      let (rest, left) ← pieces cs
      return (Piece.char c :: rest, left)) =
      (pieces cs).map fun (rest, left) => (Piece.char c :: rest, left) := by
    cases pieces cs <;> rfl
  unfold escape
  split
  case h_8 hquote hslash hb hf hn hr ht =>
    split
    next hlow =>
      have hunit : unitOf? '0' '0' (hexDigit (c.toNat / 16)) (hexDigit (c.toNat % 16)) =
          some c.toNat := by
        rw [unitOf?, hexValue?_hexDigit _ (by omega), hexValue?_hexDigit _ (by omega)]
        simp [hexValue?, isDigit]
        omega
      have hpiece : pieceOf c = .unit c.toNat := if_pos ⟨hlow, by simp_all⟩
      simp only [List.cons_append, List.nil_append, pieces, hunit, hpiece]
      cases pieces cs <;> rfl
    next hhigh =>
      have hpiece : pieceOf c = .char c := if_neg fun h => hhigh h.1
      have hstep : pieces (c :: cs) = (do
          let (rest, left) ← pieces cs
          return (Piece.char c :: rest, left)) := by
        rw [pieces.eq_def]
        split
        case h_5 heq =>
          obtain ⟨rfl, rfl⟩ := List.cons.inj heq
          rw [if_neg (by simpa using ⟨Nat.not_lt.1 hhigh, hslash⟩)]
        all_goals simp_all
      rw [List.singleton_append, hstep, hpiece, hplain]
  all_goals
    simp only [List.cons_append, List.nil_append]
    exact hplain _

/-- The parts of a text are those of its characters. -/
theorem pieces_quoted (cs rest : List Char) :
    pieces (cs.flatMap escape ++ '"' :: rest) = some (cs.map pieceOf, rest) := by
  induction cs with
  | nil => simp [pieces]
  | cons c cs ih => simp [pieces_escape, ih]

/-- A unit that is no half of a surrogate pair is a character by itself. -/
theorem assemble?_unit {unit : Nat} (hhigh : isHighSurrogate unit = false)
    (hlow : isLowSurrogate unit = false) (pieces : List Piece) :
    assemble? (.unit unit :: pieces) = (assemble? pieces).map (Char.ofNat unit :: ·) := by
  cases pieces with
  | nil => simp [assemble?, hhigh, hlow]
  | cons piece pieces => cases piece <;> simp [assemble?, hhigh, hlow]

/-- The characters of a text are put together again: no escaped one is half of a surrogate
pair. -/
theorem assemble?_pieceOf (cs : List Char) : assemble? (cs.map pieceOf) = some cs := by
  induction cs with
  | nil => rfl
  | cons c cs ih =>
    rw [List.map_cons]
    by_cases hc : IsNumbered c
    · have hlow := hc.1
      have hhigh : isHighSurrogate c.toNat = false := by
        simp [isHighSurrogate]
        omega
      have hpair : isLowSurrogate c.toNat = false := by
        simp [isLowSurrogate]
        omega
      rw [pieceOf, if_pos hc, assemble?_unit hhigh hpair, ih]
      simp
    · rw [pieceOf, if_neg hc, assemble?, ih]
      rfl

theorem text_quoted (s : String) (rest : List Char) :
    text (s.toList.flatMap escape ++ '"' :: rest) = some (some s, rest) := by
  simp [text, pieces_quoted, assemble?_pieceOf]

/-! ## Numbers -/

/-- Nothing that would belong to a number stands first. -/
def Stops (cs : List Char) : Prop :=
  ∀ c ∈ cs.head?, isDigit c = false ∧ c ≠ '.' ∧ c ≠ 'e' ∧ c ≠ 'E'

theorem head?_toDigits {n : Nat} (hn : 0 < n) : (Nat.toDigits 10 n).head? ≠ some '0' := by
  induction n using Nat.strongRecOn with
  | ind n ih =>
    by_cases hlt : n < 10
    · simp [Nat.toDigits_of_lt_base hlt, Nat.ne_of_gt hn]
    · rw [Nat.toDigits_of_base_le (by decide) (by omega)]
      have hne : Nat.toDigits 10 (n / 10) ≠ [] := Nat.toDigits_ne_nil
      obtain ⟨c, cs, hdigits⟩ := List.exists_cons_of_ne_nil hne
      have hhead := ih (n / 10) (by omega) (by omega)
      rw [hdigits] at hhead ⊢
      exact hhead

theorem isDigit_of_mem_toDigits {n : Nat} {c : Char} (h : c ∈ Nat.toDigits 10 n) :
    isDigit c = true :=
  Nat.isDigit_of_mem_toDigits (by decide) (by decide) h

theorem natOfDigits_toDigits (n : Nat) : natOfDigits (Nat.toDigits 10 n) = n := by
  have hvalue := @Nat.ofDigitChars_ten_toDigits n
  rw [Nat.ofDigitChars_eq_foldl] at hvalue
  simpa [natOfDigits, Nat.mul_comm] using hvalue

theorem someDigits_append {digits rest : List Char} (hne : digits ≠ [])
    (hdigits : ∀ c ∈ digits, isDigit c = true) (hrest : Stops rest) :
    someDigits (digits ++ rest) = some (digits, rest) := by
  have htake : (digits ++ rest).takeWhile isDigit = digits := by
    rw [List.takeWhile_append_of_pos hdigits]
    cases rest with
    | nil => simp
    | cons c rest => simp [(hrest c rfl).1]
  have hdrop : (digits ++ rest).dropWhile isDigit = rest := by
    rw [List.dropWhile_append_of_pos hdigits]
    cases rest with
    | nil => simp
    | cons c rest => simp [(hrest c rfl).1]
  rw [someDigits, htake, hdrop]
  cases digits with
  | nil => exact absurd rfl hne
  | cons => rfl

theorem magnitude_toDigits (n : Nat) {rest : List Char} (hrest : Stops rest) :
    magnitude (Nat.toDigits 10 n ++ rest) = some ((Nat.toDigits 10 n, [], []), rest) := by
  have hsome := someDigits_append (Nat.toDigits_ne_nil : Nat.toDigits 10 n ≠ [])
    (fun c => isDigit_of_mem_toDigits) hrest
  have hwhole : wholeDigits (Nat.toDigits 10 n ++ rest) = some (Nat.toDigits 10 n, rest) := by
    rw [wholeDigits, hsome]
    rcases Nat.eq_zero_or_pos n with rfl | hn
    · rfl
    · simp [head?_toDigits hn]
  have hfraction : fraction rest = some ([], rest) := by
    unfold fraction
    split
    next cs => exact absurd rfl (hrest '.' rfl).2.1
    next => rfl
  have hexponent : exponent rest = some ([], rest) := by
    unfold exponent
    split
    next c cs =>
      obtain ⟨-, -, he, hE⟩ := hrest c rfl
      simp [he, hE]
    next => rfl
  simp [magnitude, hwhole, hfraction, hexponent]

/-- The decimal digits of a number, if nothing behind them belongs to it. -/
theorem number_toDigits (n : Nat) {rest : List Char} (hrest : Stops rest) :
    number (Nat.toDigits 10 n ++ rest) = some (.nat n, rest) := by
  unfold number
  split
  next cs heq =>
    have hdigit : isDigit '-' = true := by
      have hne : Nat.toDigits 10 n ≠ [] := Nat.toDigits_ne_nil
      obtain ⟨c, cs, hdigits⟩ := List.exists_cons_of_ne_nil hne
      rw [hdigits] at heq
      rw [← (List.cons.inj heq).1]
      exact isDigit_of_mem_toDigits (hdigits ▸ List.mem_cons_self)
    cases hdigit
  next =>
    rw [magnitude_toDigits n hrest]
    simp [natOfDigits_toDigits]

/-! ## Values -/

theorem skipSpace_append {blanks : List Char} (h : ∀ c ∈ blanks, isSpace c = true)
    (cs : List Char) : skipSpace (blanks ++ cs) = skipSpace cs :=
  List.dropWhile_append_of_pos h

theorem skipSpace_cons {c : Char} (h : isSpace c = false) (cs : List Char) :
    skipSpace (c :: cs) = c :: cs := by
  simp [skipSpace, h]

/-- Blanks in front of a value make no difference. -/
theorem value_append {blanks : List Char} (h : ∀ c ∈ blanks, isSpace c = true) (fuel : Nat)
    (cs : List Char) : value fuel (blanks ++ cs) = value fuel cs := by
  cases fuel with
  | zero => rfl
  | succ fuel => rw [value, value, skipSpace_append h]

theorem items_append {blanks : List Char} (h : ∀ c ∈ blanks, isSpace c = true) (fuel : Nat)
    (cs : List Char) : items fuel (blanks ++ cs) = items fuel cs := by
  cases fuel with
  | zero => rfl
  | succ fuel => rw [items, items, value_append h]

theorem fields_append {blanks : List Char} (h : ∀ c ∈ blanks, isSpace c = true) (fuel : Nat)
    (cs : List Char) : fields fuel (blanks ++ cs) = fields fuel cs := by
  cases fuel with
  | zero => rfl
  | succ fuel => rw [fields, fields, skipSpace_append h]

/-- Where an item, a field or the whole value ends, no number goes on. -/
theorem stops_cons {c : Char} (h : isDigit c = false ∧ c ≠ '.' ∧ c ≠ 'e' ∧ c ≠ 'E')
    (cs : List Char) : Stops (c :: cs) := by
  intro other hother
  obtain rfl := Option.some.inj hother
  exact h

theorem stops_append {blanks cs : List Char} (h : ∀ c ∈ blanks, isSpace c = true)
    (hcs : Stops cs) : Stops (blanks ++ cs) := by
  cases blanks with
  | nil => exact hcs
  | cons c blanks =>
    have hc := h c List.mem_cons_self
    refine stops_cons ?_ _
    simp only [isSpace, Bool.or_eq_true, beq_iff_eq] at hc
    rcases hc with ((rfl | rfl) | rfl) | rfl <;> decide

/-- No digit is a blank. -/
theorem isSpace_of_isDigit {c : Char} (h : isDigit c = true) : isSpace c = false := by
  cases hspace : isSpace c with
  | false => rfl
  | true =>
    simp only [isSpace, Bool.or_eq_true, beq_iff_eq] at hspace
    rcases hspace with ((rfl | rfl) | rfl) | rfl <;> cases h

theorem value_toDigits (n fuel : Nat) {rest : List Char} (hrest : Stops rest) :
    value (fuel + 1) (Nat.toDigits 10 n ++ rest) = some (.nat n, rest) := by
  have hne : Nat.toDigits 10 n ≠ [] := Nat.toDigits_ne_nil
  obtain ⟨c, cs, hdigits⟩ := List.exists_cons_of_ne_nil hne
  have hc : isDigit c = true := isDigit_of_mem_toDigits (hdigits ▸ List.mem_cons_self)
  have hnumber := number_toDigits n hrest
  rw [hdigits, List.cons_append] at hnumber ⊢
  rw [value, skipSpace_cons (isSpace_of_isDigit hc)]
  split
  case h_7 => exact hnumber
  all_goals
    next heq =>
      rw [(List.cons.inj heq).1] at hc
      cases hc

section Layout

variable (gap : Nat → List Char) (space : List Char)

/-- A layout starts with a character that is neither a blank nor a closing bracket. -/
theorem layout_eq_cons {json : Json} (h : json.isStorable = true) (indent : Nat) :
    ∃ c cs, layout gap space indent json = c :: cs ∧ isSpace c = false ∧ c ≠ ']' := by
  cases json with
  | nat n =>
    have hne : Nat.toDigits 10 n ≠ [] := Nat.toDigits_ne_nil
    obtain ⟨c, cs, hdigits⟩ := List.exists_cons_of_ne_nil hne
    have hc : isDigit c = true := isDigit_of_mem_toDigits (hdigits ▸ List.mem_cons_self)
    refine ⟨c, cs, by rw [layout_nat, hdigits], isSpace_of_isDigit hc, ?_⟩
    rintro rfl
    cases hc
  | otherNumber | unreadable => cases h
  | null => exact ⟨_, _, layout_null .., by decide, by decide⟩
  | bool value =>
    cases value
    · exact ⟨_, _, layout_false .., by decide, by decide⟩
    · exact ⟨_, _, layout_true .., by decide, by decide⟩
  | str value => exact ⟨_, _, layout_str .., by decide, by decide⟩
  | arr items => cases items <;> rw [layout] <;> exact ⟨_, _, rfl, by decide, by decide⟩
  | obj fields => cases fields <;> rw [layout] <;> exact ⟨_, _, rfl, by decide, by decide⟩

theorem length_layout_pos {json : Json} (h : json.isStorable = true) (indent : Nat) :
    0 < (layout gap space indent json).length := by
  obtain ⟨c, cs, heq, -⟩ := layout_eq_cons gap space h indent
  rw [heq]
  exact Nat.succ_pos _

theorem length_layoutItems_pos (indent : Nat) (items : List Json) :
    0 < (layoutItems gap space indent items).length := by
  cases items <;> simp [layoutItems]

theorem length_layoutFields_pos (indent : Nat) (fields : List (String × Json)) :
    0 < (layoutFields gap space indent fields).length := by
  cases fields <;> simp [layoutFields]

variable {gap space}

theorem stops_layoutItems (hgap : ∀ n, ∀ c ∈ gap n, isSpace c = true) (indent : Nat)
    (items : List Json) (rest : List Char) :
    Stops (layoutItems gap space indent items ++ rest) := by
  cases items with
  | nil =>
    rw [layoutItems, List.append_assoc]
    exact stops_append (hgap indent) (stops_cons (by decide) _)
  | cons item items =>
    rw [layoutItems]
    exact stops_cons (by decide) _

theorem stops_layoutFields (hgap : ∀ n, ∀ c ∈ gap n, isSpace c = true) (indent : Nat)
    (fields : List (String × Json)) (rest : List Char) :
    Stops (layoutFields gap space indent fields ++ rest) := by
  cases fields with
  | nil =>
    rw [layoutFields, List.append_assoc]
    exact stops_append (hgap indent) (stops_cons (by decide) _)
  | cons field fields =>
    rw [layoutFields]
    exact stops_cons (by decide) _

/-- The fields that are read are made into the object again. -/
theorem objectOf_some (fields : List (String × Json)) :
    objectOf (fields.map fun field => (some field.1, field.2)) = .obj fields := by
  have hmapM : ((fields.map fun field => (some field.1, field.2)).mapM
      fun field => field.1.map fun name => (name, field.2)) = some fields := by
    induction fields with
    | nil => rfl
    | cons field fields ih => simp [List.mapM_cons, ih]
  rw [objectOf, hmapM]

/-- A text in quotes, as a value. -/
theorem value_quoted (s : String) (fuel : Nat) (rest : List Char) :
    value (fuel + 1) (quoted s ++ rest) = some (.str s, rest) := by
  have htext := text_quoted s rest
  simp only [quoted, List.cons_append, List.append_assoc, List.nil_append]
  rw [value, skipSpace_cons (by decide)]
  simp [htext]

mutual

/-- **The value of a layout**, whatever blanks are in it. Every two nested calls of the reader use
up a character. -/
theorem value_layout (hgap : ∀ n, ∀ c ∈ gap n, isSpace c = true)
    (hspace : ∀ c ∈ space, isSpace c = true) (indent fuel : Nat) (json : Json)
    (h : json.isStorable = true) (rest : List Char) (hrest : Stops rest)
    (hfuel : 2 * (layout gap space indent json).length ≤ fuel + 1) :
    value (fuel + 1) (layout gap space indent json ++ rest) = some (json, rest) := by
  match json with
  | .otherNumber _ | .unreadable => cases h
  | .null =>
    rw [layout_null]
    rfl
  | .bool true =>
    rw [layout_true]
    rfl
  | .bool false =>
    rw [layout_false]
    rfl
  | .nat n =>
    rw [layout_nat]
    exact value_toDigits n fuel hrest
  | .str s =>
    rw [layout_str]
    exact value_quoted s fuel rest
  | .arr [] =>
    rw [layout]
    rfl
  | .obj [] =>
    rw [layout]
    rfl
  | .arr (item :: items) =>
    obtain ⟨hitem, hitems⟩ : item.isStorable = true ∧ isStorableItems items = true := by
      simpa [isStorable, isStorableItems] using h
    rw [layout] at hfuel ⊢
    simp only [List.cons_append, List.length_cons, List.length_append] at hfuel
    have hread := items_layout hgap hspace indent fuel item items hitem hitems rest (by omega)
    obtain ⟨c, cs, hstart, hc, hclosing⟩ :=
      layout_eq_cons gap space hitem (indent + 1)
    simp only [hstart, List.cons_append, List.append_assoc] at hread ⊢
    rw [value, skipSpace_cons (by decide)]
    simp only [skipSpace_append (hgap _), skipSpace_cons hc]
    split
    next heq => exact absurd (List.cons.inj heq).1 hclosing
    next => simp [hread]
  | .obj ((name, value) :: fields) =>
    obtain ⟨hvalue, hfields⟩ : value.isStorable = true ∧ isStorableFields fields = true := by
      simpa [isStorable, isStorableFields] using h
    rw [layout] at hfuel ⊢
    simp only [List.cons_append, List.length_cons, List.length_append] at hfuel
    have hread := fields_layout hgap hspace indent fuel name value fields hvalue hfields rest
      (by omega)
    simp only [quoted, List.cons_append, List.append_assoc, List.nil_append] at hread ⊢
    rw [Parser.value, skipSpace_cons (by decide)]
    simp only [skipSpace_append (hgap _), skipSpace_cons (show isSpace '"' = false by decide)]
    simpa [hread] using objectOf_some ((name, value) :: fields)
termination_by sizeOf json

/-- The items of an array, from the first one on. -/
theorem items_layout (hgap : ∀ n, ∀ c ∈ gap n, isSpace c = true)
    (hspace : ∀ c ∈ space, isSpace c = true) (indent fuel : Nat) (item : Json)
    (items : List Json) (hitem : item.isStorable = true) (hitems : isStorableItems items = true)
    (rest : List Char)
    (hfuel : 2 * ((layout gap space (indent + 1) item).length +
      (layoutItems gap space indent items).length) ≤ fuel) :
    Parser.items fuel
      (layout gap space (indent + 1) item ++ (layoutItems gap space indent items ++ rest)) =
        some (item :: items, rest) := by
  have hpos := length_layout_pos gap space hitem (indent + 1)
  have htail := length_layoutItems_pos gap space indent items
  -- There are two units of fuel for each character, so there is one left for the list.
  obtain ⟨fuel, rfl⟩ : ∃ more, fuel = more + 2 := ⟨fuel - 2, by omega⟩
  have hfirst := value_layout hgap hspace (indent + 1) fuel item hitem
    (layoutItems gap space indent items ++ rest) (stops_layoutItems hgap indent items rest)
    (by omega)
  rw [Parser.items, hfirst, Option.bind_eq_bind, Option.bind_some]
  match heq : items with
  | [] =>
    simp only [layoutItems, List.append_assoc, skipSpace_append (hgap _), List.cons_append]
    rw [skipSpace_cons (by decide)]
    rfl
  | next :: items =>
    obtain ⟨hnext, hitems⟩ : next.isStorable = true ∧ isStorableItems items = true := by
      simpa [isStorableItems] using hitems
    rw [layoutItems] at hfuel ⊢
    simp only [List.cons_append, List.length_cons, List.length_append] at hfuel
    have hread := items_layout hgap hspace indent (fuel + 1) next items hnext hitems rest
      (by omega)
    simp only [List.cons_append, List.append_assoc]
    rw [skipSpace_cons (by decide)]
    simp only [items_append (hgap _), hread]
    rfl
termination_by 1 + sizeOf item + sizeOf items
decreasing_by
  · omega
  · rw [heq, List.cons.sizeOf_spec]
    omega

/-- The fields of an object, from the first one on. -/
theorem fields_layout (hgap : ∀ n, ∀ c ∈ gap n, isSpace c = true)
    (hspace : ∀ c ∈ space, isSpace c = true) (indent fuel : Nat) (name : String) (value : Json)
    (fields : List (String × Json)) (hvalue : value.isStorable = true)
    (hfields : isStorableFields fields = true) (rest : List Char)
    (hfuel : 2 * ((quoted name).length + (layout gap space (indent + 1) value).length +
      (layoutFields gap space indent fields).length) ≤ fuel) :
    Parser.fields fuel
      (quoted name ++ ':' :: (space ++ (layout gap space (indent + 1) value ++
        (layoutFields gap space indent fields ++ rest)))) =
          some ((some name, value) :: fields.map fun field => (some field.1, field.2),
            rest) := by
  have hpos := length_layout_pos gap space hvalue (indent + 1)
  have htail := length_layoutFields_pos gap space indent fields
  obtain ⟨fuel, rfl⟩ : ∃ more, fuel = more + 2 := ⟨fuel - 2, by omega⟩
  have hfirst := value_layout hgap hspace (indent + 1) fuel value hvalue
    (layoutFields gap space indent fields ++ rest) (stops_layoutFields hgap indent fields rest)
    (by omega)
  rw [← value_append hspace] at hfirst
  have htext (left : List Char) := text_quoted name left
  simp only [quoted, List.cons_append, List.append_assoc, List.nil_append]
  rw [Parser.fields, skipSpace_cons (by decide)]
  simp only [htext, Option.bind_eq_bind, Option.bind_some]
  rw [skipSpace_cons (by decide)]
  simp only [hfirst, Option.bind_some]
  match heq : fields with
  | [] =>
    simp only [layoutFields, List.append_assoc, skipSpace_append (hgap _), List.cons_append]
    rw [skipSpace_cons (by decide)]
    rfl
  | (next, other) :: fields =>
    obtain ⟨hother, hfields⟩ : other.isStorable = true ∧ isStorableFields fields = true := by
      simpa [isStorableFields] using hfields
    rw [layoutFields] at hfuel ⊢
    simp only [List.cons_append, List.length_cons, List.length_append] at hfuel
    have hread := fields_layout hgap hspace indent (fuel + 1) next other fields hother hfields rest
      (by omega)
    simp only [List.cons_append, List.append_assoc]
    rw [skipSpace_cons (by decide)]
    simp only [fields_append (hgap _), hread]
    rfl
termination_by 1 + sizeOf (name, value) + sizeOf fields
decreasing_by
  · rw [Prod.mk.sizeOf_spec]
    omega
  · rw [heq, List.cons.sizeOf_spec, Prod.mk.sizeOf_spec]
    omega

end

end Layout

end Parser

/-! ## Whole texts -/

/-- The value of a layout that stands alone. -/
theorem parse_layout {gap : Nat → List Char} {space : List Char}
    (hgap : ∀ n, ∀ c ∈ gap n, Parser.isSpace c = true)
    (hspace : ∀ c ∈ space, Parser.isSpace c = true) {json : Json} (h : json.isStorable = true) :
    parse (String.ofList (Printer.layout gap space 0 json)) = some json := by
  have hread := Parser.value_layout hgap hspace 0
    (2 * (Printer.layout gap space 0 json).length + 1) json h [] (by simp [Parser.Stops]) (by omega)
  rw [List.append_nil] at hread
  simp [parse, hread, Parser.skipSpace]

/-- **A value is the value of its compact text.** -/
theorem parse_compact {json : Json} (h : json.isStorable = true) :
    parse json.compact = some json := by
  rw [compact, Printer.compactChars_eq 0]
  exact parse_layout (by simp) (by simp) h

/-- **A value is the value of its pretty text.** -/
theorem parse_pretty {json : Json} (h : json.isStorable = true) :
    parse json.pretty = some json := by
  rw [pretty, Printer.prettyChars_eq 0]
  refine parse_layout (fun n c hc => ?_) (by simp [Parser.isSpace]) h
  rcases List.mem_cons.1 hc with rfl | hc
  · rfl
  · rw [List.eq_of_mem_replicate hc]
    rfl

end FactGraph.Json
