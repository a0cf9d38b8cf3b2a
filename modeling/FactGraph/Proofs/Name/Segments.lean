import FactGraph.Name.Separator
import FactGraph.Text.Blank
import Mathlib.Data.List.TakeWhile

/-!
# Segments and blanks

A qualified name is its segments, put together again, and its first segments make the names around
it; and it has no blanks at its ends if none of its segments has.

## Main definitions

* `Text.Bare`: there is no blank at either end

## Main results

* `Text.trim_eq_self_iff`: trimming leaves alone what has no blanks at its ends
* `Text.intercalate_splitAll`: the pieces of a text, put together again
* `Separator.foldl_join_segments`: the segments of a name, joined one after the other
* `Separator.segments_foldl_join_take`: names made of the first segments of a name
-/

namespace FactGraph

namespace Text

/-! ## Blanks at the ends -/

/-- There is no blank at either end. -/
def Bare (cs : List Char) : Prop :=
  (∀ c ∈ cs.head?, isBlankChar c = false) ∧ ∀ c ∈ cs.getLast?, isBlankChar c = false

theorem Bare.reverse {cs : List Char} (h : Bare cs) : Bare cs.reverse := by
  rw [Bare, List.head?_reverse, List.getLast?_reverse]
  exact ⟨h.2, h.1⟩

theorem dropWhile_of_head {cs : List Char} (h : ∀ c ∈ cs.head?, isBlankChar c = false) :
    cs.dropWhile isBlankChar = cs := by
  cases cs with
  | nil => rfl
  | cons c cs =>
    have hc := h c rfl
    rw [List.dropWhile_cons, hc]
    rfl

theorem head_dropWhile (cs : List Char) :
    ∀ c ∈ (cs.dropWhile isBlankChar).head?, isBlankChar c = false := by
  intro c hc
  have hnot := List.head?_dropWhile_not isBlankChar cs
  rw [Option.mem_def.1 hc] at hnot
  simpa using hnot

theorem trimChars_of_bare {cs : List Char} (h : Bare cs) : trimChars cs = cs := by
  rw [trimChars, trimStartChars, dropWhile_of_head h.1, trimEndChars,
    dropWhile_of_head h.reverse.1, List.reverse_reverse]

theorem bare_trimChars (cs : List Char) : Bare (trimChars cs) := by
  have hstart := head_dropWhile cs
  rw [trimChars, trimStartChars, trimEndChars]
  generalize cs.dropWhile isBlankChar = rest at hstart
  refine ⟨?_, ?_⟩
  · -- What is left is a front of `rest`, so it starts with the same character.
    intro c hc
    obtain ⟨back, hback⟩ := List.reverse_prefix.2 (List.dropWhile_suffix isBlankChar
      (l := rest.reverse))
    rw [List.reverse_reverse] at hback
    refine hstart c ?_
    rw [← hback, List.head?_append, Option.mem_def.1 hc]
    rfl
  · rw [List.getLast?_reverse]
    exact head_dropWhile _

/-- **Trimming leaves alone what has no blanks at its ends**, and nothing else. -/
theorem trim_eq_self_iff {s : String} : trim s = s ↔ Bare s.toList := by
  constructor
  · intro h
    rw [← h, trim, String.toList_ofList]
    exact bare_trimChars _
  · intro h
    rw [trim, trimChars_of_bare h, String.ofList_toList]

@[simp] theorem trim_trim (s : String) : trim (trim s) = trim s := by
  rw [trim_eq_self_iff, trim, String.toList_ofList]
  exact bare_trimChars _

/-- Texts without blanks at their ends, with something in between. -/
theorem Bare.append {front back : List Char} (hfront : Bare front) (hback : Bare back)
    (hfront' : front ≠ []) (hback' : back ≠ []) (middle : List Char) :
    Bare (front ++ middle ++ back) := by
  obtain ⟨first, rest, rfl⟩ := List.exists_cons_of_ne_nil hfront'
  constructor
  · exact hfront.1
  · rw [List.getLast?_append, List.getLast?_eq_some_getLast hback', Option.some_or,
      ← List.getLast?_eq_some_getLast hback']
    exact hback.2

/-! ## Pieces -/

theorem intercalate_splitAllFrom {pattern : List Char} (hpattern : pattern ≠ []) (skip : Nat)
    (cs : List Char) :
    pattern.intercalate ((splitAllFrom pattern skip cs).1 :: (splitAllFrom pattern skip cs).2) =
      cs.drop skip := by
  induction cs generalizing skip with
  | nil => simp [splitAllFrom]
  | cons c cs ih =>
    cases skip with
    | succ skip => simpa [splitAllFrom] using ih skip
    | zero =>
      unfold splitAllFrom
      split
      next hmet =>
        obtain ⟨rest, hrest⟩ := List.isPrefixOf_iff_prefix.1 hmet
        have hskip := ih (pattern.length - 1)
        rw [List.intercalate_cons_cons, hskip, List.nil_append, List.drop_zero]
        obtain ⟨d, ds, rfl⟩ := List.exists_cons_of_ne_nil hpattern
        obtain ⟨rfl, rfl⟩ := List.cons.inj hrest
        simp
      next => simpa using congrArg (c :: ·) (ih 0)

/-- **The pieces of a text, put together again**, are the text. -/
theorem intercalate_splitAll {pattern : List Char} (hpattern : pattern ≠ []) (cs : List Char) :
    pattern.intercalate (splitAll pattern cs) = cs := by
  simpa [splitAll] using intercalate_splitAllFrom hpattern 0 cs

/-- The first pieces of a text are the pieces of a front of it. -/
theorem exists_splitAllFrom_take (pattern : List Char) (count skip : Nat) (cs : List Char) :
    ∃ size, skip ≤ size ∧ splitAllFrom pattern skip (cs.take size) =
      ((splitAllFrom pattern skip cs).1, (splitAllFrom pattern skip cs).2.take count) := by
  induction cs generalizing skip count with
  | nil => exact ⟨skip, Nat.le_refl _, by simp [splitAllFrom]⟩
  | cons c cs ih =>
    cases skip with
    | succ skip =>
      obtain ⟨size, hsize, hfront⟩ := ih count skip
      exact ⟨size + 1, Nat.succ_le_succ hsize, by simpa [splitAllFrom] using hfront⟩
    | zero =>
      by_cases hmet : pattern.isPrefixOf (c :: cs)
      · cases count with
        | zero => exact ⟨0, Nat.le_refl _, by simp [splitAllFrom, hmet]⟩
        | succ count =>
          obtain ⟨size, hsize, hfront⟩ := ih count (pattern.length - 1)
          -- The front is long enough to hold the whole occurrence.
          have hmet' : pattern.isPrefixOf (c :: cs.take size) := by
            rw [List.isPrefixOf_iff_prefix] at hmet ⊢
            rw [← List.take_succ_cons, List.prefix_take_iff]
            exact ⟨hmet, by omega⟩
          exact ⟨size + 1, Nat.zero_le _, by simp [splitAllFrom, hmet, hmet', hfront]⟩
      · obtain ⟨size, -, hfront⟩ := ih count 0
        have hmet' : ¬ pattern.isPrefixOf (c :: cs.take size) := by
          rw [List.isPrefixOf_iff_prefix] at hmet ⊢
          rw [← List.take_succ_cons]
          exact fun h => hmet (h.trans (List.take_prefix _ _))
        exact ⟨size + 1, Nat.zero_le _, by simp [splitAllFrom, hmet, hmet', hfront]⟩

/-- **The first pieces of a text, put together**, have just these pieces. -/
theorem splitAll_intercalate_take {pattern : List Char} (hpattern : pattern ≠ [])
    (cs : List Char) (count : Nat) :
    splitAll pattern (pattern.intercalate ((splitAll pattern cs).take (count + 1))) =
      (splitAll pattern cs).take (count + 1) := by
  obtain ⟨size, -, hfront⟩ := exists_splitAllFrom_take pattern count 0 cs
  have hpieces : splitAll pattern (cs.take size) = (splitAll pattern cs).take (count + 1) := by
    simp [splitAll, hfront]
  rw [← hpieces, intercalate_splitAll hpattern]

end Text

namespace Separator

variable (sep : Separator)

theorem toList_ne_nil : sep.text.toList ≠ [] := by
  intro h
  exact sep.text_ne (String.toList_inj.1 h)

theorem toList_foldl_join {names : List String} {outer : String} (houter : outer ≠ "")
    (hnames : ∀ name ∈ names, name ≠ "") :
    (names.foldl sep.join outer).toList =
      sep.text.toList.intercalate (outer.toList :: names.map String.toList) := by
  induction names generalizing outer with
  | nil => simp
  | cons name names ih =>
    have hname := hnames name (by simp)
    have hjoin : sep.join outer name = outer ++ sep.text ++ name := by simp [join, houter, hname]
    have hne : outer ++ sep.text ++ name ≠ "" := by simp [houter]
    rw [List.foldl_cons, hjoin, ih hne fun other hother => hnames other (by simp [hother])]
    cases names <;> simp [List.intercalate_cons_cons]

theorem toList_foldl_join_empty {names : List String} (hne : names ≠ [])
    (hnames : ∀ name ∈ names, name ≠ "") :
    (names.foldl sep.join "").toList = sep.text.toList.intercalate (names.map String.toList) := by
  obtain ⟨first, others, rfl⟩ := List.exists_cons_of_ne_nil hne
  rw [List.foldl_cons, join, if_pos rfl, toList_foldl_join sep (hnames first (by simp))
    fun other hother => hnames other (by simp [hother]), List.map_cons]

theorem map_toList_segments (name : String) :
    (sep.segments name).map String.toList = Text.splitAll sep.text.toList name.toList := by
  simp [segments, Function.comp_def]

theorem segments_ne_nil (name : String) : sep.segments name ≠ [] := by
  simp [segments, Text.splitAll]

/-- **The segments of a name, joined one after the other**, are the name. -/
theorem foldl_join_segments {name : String}
    (hsegments : ∀ segment ∈ sep.segments name, segment ≠ "") :
    (sep.segments name).foldl sep.join "" = name := by
  rw [← String.toList_inj, toList_foldl_join_empty sep (sep.segments_ne_nil name) hsegments,
    map_toList_segments, Text.intercalate_splitAll sep.toList_ne_nil]

/-- **The first segments of a name, joined**, make a name with just these segments. -/
theorem segments_foldl_join_take {name : String}
    (hsegments : ∀ segment ∈ sep.segments name, segment ≠ "") (count : Nat) :
    sep.segments (((sep.segments name).take (count + 1)).foldl sep.join "") =
      (sep.segments name).take (count + 1) := by
  have hne : (sep.segments name).take (count + 1) ≠ [] := by
    simp [List.take_eq_nil_iff, segments_ne_nil]
  have hjoined := toList_foldl_join_empty sep hne
    fun segment hsegment => hsegments segment (List.mem_of_mem_take hsegment)
  have hpieces := Text.splitAll_intercalate_take sep.toList_ne_nil name.toList count
  rw [← map_toList_segments, ← List.map_take, ← hjoined, ← map_toList_segments] at hpieces
  exact List.map_inj_right (fun _ _ => String.toList_inj.1) |>.1 hpieces

end Separator

end FactGraph
