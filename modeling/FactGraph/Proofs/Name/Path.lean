import FactGraph.Fact.Basic
import FactGraph.Proofs.Name.Segments
import Mathlib.Data.List.Infix

/-!
# Paths

A path is a qualified name as it is meant to be: segments put together by the separator, none of
them blank and none with a character of the separator in it. Then it does not matter from which end
the name is taken apart, even if the separator has several characters: the last separator is the one
before the last segment, and the names around a path are the paths of its first segments.

## Main definitions

* `Separator.path`: segments put together
* `Separator.IsSegment`, `Separator.IsPath`: a segment without a trace of the separator, and a name
  made of such segments
* `Separator.around`: a name and the names around it, the empty one last

## Main results

* `Separator.segments_path`, `Separator.splitLast?_path`: how a path is taken apart
* `Separator.around_path`: the names around a path
* `Separator.takeWhile_outward_path`: the names around a path that go beyond a front of it
* `TypeFact.fullName_of_outer`: the full name of a nested declaration
-/

namespace FactGraph

namespace Text

variable {pattern : List Char}

/-! ## Occurrences of a pattern -/

theorem splitLast?_eq_none {cs : List Char} (h : ∀ rest, rest <:+ cs → ¬ pattern <+: rest) :
    splitLast? pattern cs = none := by
  induction cs with
  | nil => rfl
  | cons c cs ih =>
    have hmet : pattern.isPrefixOf? (c :: cs) = none := by
      rw [← Option.not_isSome_iff_eq_none, List.isSome_isPrefixOf?_eq_isPrefixOf,
        List.isPrefixOf_iff_prefix]
      exact h _ (List.suffix_refl _)
    rw [splitLast?, ih fun rest hrest => h rest (hrest.trans (List.suffix_cons c cs)), hmet]
    rfl

/-- A pattern that starts less than its length before a part without its characters does not fit:
it would go on in that part. -/
theorem not_prefix_append {front back : List Char} (hfront : front.length < pattern.length)
    (hback : ∀ c ∈ back, c ∉ pattern) : ¬ pattern <+: front ++ back := by
  intro hprefix
  have hlt := Nat.lt_of_lt_of_le hfront hprefix.length_le
  have hget := hprefix.getElem hfront
  rw [List.getElem_append_right (Nat.le_refl _)] at hget
  exact hback _ (List.getElem_mem _) (hget ▸ List.getElem_mem hfront)

/-- The last occurrence of a pattern before a part without its characters. -/
theorem splitLast?_append (hpattern : pattern ≠ []) {back : List Char}
    (hback : ∀ c ∈ back, c ∉ pattern) (front : List Char) :
    splitLast? pattern (front ++ pattern ++ back) = some (front, back) := by
  induction front with
  | cons c front ih => rw [List.cons_append, List.cons_append, splitLast?, ih]
  | nil =>
    obtain ⟨c, rest, rfl⟩ := List.exists_cons_of_ne_nil hpattern
    have hnone : splitLast? (c :: rest) (rest ++ back) = none := by
      refine splitLast?_eq_none fun met hmet => ?_
      obtain ⟨before, hbefore⟩ := hmet
      rcases List.append_eq_append_iff.1 hbefore with ⟨front, rfl, rfl⟩ | ⟨middle, -, rfl⟩
      · exact not_prefix_append (by simp only [List.length_cons, List.length_append]; omega) hback
      · exact @not_prefix_append _ [] _ (by simp) fun d hd => hback d (by simp [hd])
    have hfirst : (c :: rest).isPrefixOf? (c :: (rest ++ back)) = some back :=
      List.isPrefixOf?_eq_some_iff_append_eq.2 rfl
    rw [List.nil_append, List.cons_append, splitLast?, hnone, hfirst]
    rfl

theorem splitAllFrom_append {skip : Nat} {met : List Char} (hmet : met.length = skip)
    (cs : List Char) : splitAllFrom pattern skip (met ++ cs) = splitAllFrom pattern 0 cs := by
  induction met generalizing skip with
  | nil => rw [← hmet]; rfl
  | cons c met ih =>
    obtain _ | skip := skip
    · cases hmet
    · rw [List.cons_append, splitAllFrom]
      exact ih (Nat.succ.inj hmet)

theorem splitAll_of_not_mem (hpattern : pattern ≠ []) {piece : List Char}
    (hpiece : ∀ c ∈ piece, c ∉ pattern) : splitAll pattern piece = [piece] := by
  induction piece with
  | nil => rfl
  | cons c piece ih =>
    have hmet : ¬ pattern.isPrefixOf (c :: piece) := by
      rw [List.isPrefixOf_iff_prefix]
      exact @not_prefix_append _ [] _ (List.length_pos_iff.2 hpattern) hpiece
    have hrest := ih fun d hd => hpiece d (by simp [hd])
    simp only [splitAll, List.cons.injEq] at hrest ⊢
    rw [splitAllFrom, if_neg hmet]
    exact ⟨congrArg (c :: ·) hrest.1, hrest.2⟩

/-- The first piece of a text is what stands before the first pattern. -/
theorem splitAll_append (hpattern : pattern ≠ []) {piece : List Char}
    (hpiece : ∀ c ∈ piece, c ∉ pattern) (cs : List Char) :
    splitAll pattern (piece ++ pattern ++ cs) = piece :: splitAll pattern cs := by
  induction piece with
  | nil =>
    obtain ⟨c, rest, rfl⟩ := List.exists_cons_of_ne_nil hpattern
    have hmet : (c :: rest).isPrefixOf (c :: (rest ++ cs)) := by simp
    rw [List.nil_append, List.cons_append, splitAll, splitAllFrom, if_pos hmet,
      List.length_cons, Nat.add_sub_cancel, splitAllFrom_append rfl]
    rfl
  | cons c piece ih =>
    have hmet : ¬ pattern.isPrefixOf (c :: (piece ++ pattern ++ cs)) := by
      rw [List.isPrefixOf_iff_prefix]
      intro hprefix
      have hhead : pattern.head hpattern = c := hprefix.head hpattern
      exact hpiece c (by simp) (hhead ▸ List.head_mem hpattern)
    have hrest := ih fun d hd => hpiece d (by simp [hd])
    simp only [splitAll, List.cons.injEq] at hrest ⊢
    rw [List.cons_append, List.cons_append, splitAllFrom, if_neg hmet]
    exact ⟨congrArg (c :: ·) hrest.1, hrest.2⟩

/-- **The pieces of a text that is put together** from pieces without characters of the pattern. -/
theorem splitAll_intercalate (hpattern : pattern ≠ []) {pieces : List (List Char)}
    (hne : pieces ≠ []) (hpieces : ∀ piece ∈ pieces, ∀ c ∈ piece, c ∉ pattern) :
    splitAll pattern (pattern.intercalate pieces) = pieces := by
  induction pieces with
  | nil => exact absurd rfl hne
  | cons piece pieces ih =>
    have hpiece := hpieces piece (by simp)
    obtain _ | ⟨next, pieces⟩ := pieces
    · simpa using splitAll_of_not_mem hpattern hpiece
    · rw [List.intercalate_cons_cons, splitAll_append hpattern hpiece,
        ih (by simp) fun other hother => hpieces other (by simp [hother])]

end Text

namespace Separator

/-! ## Joining -/

variable (sep : Separator)

@[simp] theorem join_empty (outer : String) : sep.join outer "" = outer := by
  unfold join
  split
  next h => exact h.symm
  next => rfl

@[simp] theorem empty_join (name : String) : sep.join "" name = name := rfl

theorem join_of_ne {outer name : String} (houter : outer ≠ "") (hname : name ≠ "") :
    sep.join outer name = outer ++ sep.text ++ name := by
  rw [join, if_neg houter, if_neg hname]

theorem join_assoc (outer middle name : String) :
    sep.join (sep.join outer middle) name = sep.join outer (sep.join middle name) := by
  by_cases houter : outer = ""
  · simp [houter]
  by_cases hmiddle : middle = ""
  · simp [hmiddle]
  by_cases hname : name = ""
  · simp [hname]
  rw [join_of_ne sep houter hmiddle, join_of_ne sep hmiddle hname,
    join_of_ne sep (by simp [houter]) hname, join_of_ne sep houter (by simp [hmiddle])]
  simp only [String.append_assoc]

/-- Segments put together. -/
def path (segments : List String) : String :=
  segments.foldl sep.join ""

@[simp] theorem path_nil : sep.path [] = "" := rfl

@[simp] theorem path_singleton (segment : String) : sep.path [segment] = segment := rfl

theorem path_append (segments others : List String) :
    sep.path (segments ++ others) = sep.join (sep.path segments) (sep.path others) := by
  have hfold (outer : String) : others.foldl sep.join outer = sep.join outer (sep.path others) := by
    unfold path
    induction others generalizing outer with
    | nil => simp
    | cons name others ih => rw [List.foldl_cons, List.foldl_cons, ih, ih (sep.join "" name),
        empty_join, join_assoc]
  rw [path, List.foldl_append]
  exact hfold _

/-! ## Segments and paths -/

/-- **A segment** that is not blank and has no character of the separator. -/
def IsSegment (segment : String) : Prop :=
  Text.isBlank segment = false ∧ ∀ c ∈ segment.toList, c ∉ sep.text.toList

instance (segment : String) : Decidable (sep.IsSegment segment) :=
  @instDecidableAnd _ _ inferInstance (List.decidableBAll _ _)

/-- **A path**: a name that is put together from segments. -/
def IsPath (name : String) : Prop :=
  ∃ segments, (∀ segment ∈ segments, sep.IsSegment segment) ∧ sep.path segments = name

variable {sep} {segments : List String} {segment : String}

theorem IsSegment.ne_empty (h : sep.IsSegment segment) : segment ≠ "" := by
  rintro rfl
  exact absurd h.1 (by decide)

theorem path_concat (segments : List String) (segment : String) :
    sep.path (segments ++ [segment]) = sep.join (sep.path segments) segment :=
  sep.path_append segments [segment]

theorem join_ne_empty (outer : String) {name : String} (h : name ≠ "") :
    sep.join outer name ≠ "" := by
  by_cases houter : outer = ""
  · simpa [houter] using h
  · simp [join_of_ne sep houter h, houter]

theorem path_ne_empty (hne : segments ≠ []) (h : ∀ segment ∈ segments, sep.IsSegment segment) :
    sep.path segments ≠ "" := by
  obtain ⟨front, last, rfl⟩ := List.eq_nil_or_concat' segments |>.resolve_left hne
  rw [path_concat]
  exact join_ne_empty _ (h last (by simp)).ne_empty

/-- **The segments of a path** are those that it is put together from. -/
theorem segments_path (hne : segments ≠ []) (h : ∀ segment ∈ segments, sep.IsSegment segment) :
    sep.segments (sep.path segments) = segments := by
  have hjoined := sep.toList_foldl_join_empty hne fun segment hsegment =>
    (h segment hsegment).ne_empty
  have hpieces : Text.splitAll sep.text.toList (sep.path segments).toList =
      segments.map String.toList := by
    rw [path, hjoined]
    refine Text.splitAll_intercalate sep.toList_ne_nil (by simpa using hne) ?_
    intro piece hpiece
    obtain ⟨segment, hsegment, rfl⟩ := List.mem_map.1 hpiece
    exact (h segment hsegment).2
  rw [Separator.segments, hpieces, List.map_map]
  simp

/-- The last separator stands before a name that has no character of it. -/
theorem splitLast?_append (outer : String) {name : String}
    (h : ∀ c ∈ name.toList, c ∉ sep.text.toList) :
    sep.splitLast? (outer ++ sep.text ++ name) = some (outer, name) := by
  have hsplit := Text.splitLast?_append sep.toList_ne_nil h outer.toList
  rw [splitLast?, String.toList_append, String.toList_append, hsplit]
  simp

theorem splitLast?_of_not_mem {name : String} (h : ∀ c ∈ name.toList, c ∉ sep.text.toList) :
    sep.splitLast? name = none := by
  rw [splitLast?, Text.splitLast?_eq_none, Option.map_none]
  intro met hmet
  refine @Text.not_prefix_append _ [] _ (List.length_pos_iff.2 sep.toList_ne_nil) ?_
  exact fun c hc => h c (hmet.mem hc)

/-- The last separator of a path stands before its last segment. -/
theorem splitLast?_path (hne : segments ≠ []) (h : ∀ segment ∈ segments, sep.IsSegment segment)
    (hsegment : sep.IsSegment segment) :
    sep.splitLast? (sep.path (segments ++ [segment])) = some (sep.path segments, segment) := by
  rw [path_concat, join_of_ne sep (path_ne_empty hne h) hsegment.ne_empty]
  exact splitLast?_append _ hsegment.2

theorem splitLast?_segment (h : sep.IsSegment segment) : sep.splitLast? segment = none :=
  splitLast?_of_not_mem h.2

/-! ## The names around a path -/

/-- A name becomes longer behind another one. -/
theorem length_lt_join (sep : Separator) (outer : String) {name : String} (h : name ≠ "") :
    outer.length < (sep.join outer name).length := by
  have hpos := Nat.pos_of_ne_zero (mt String.length_eq_zero_iff.1 h)
  by_cases houter : outer = ""
  · simpa [houter] using hpos
  · rw [join_of_ne sep houter h, String.length_append, String.length_append]
    omega

theorem utf8ByteSize_lt_join (sep : Separator) (outer : String) {name : String} (h : name ≠ "") :
    outer.utf8ByteSize < (sep.join outer name).utf8ByteSize := by
  have hpos := Nat.pos_of_ne_zero (mt String.utf8ByteSize_eq_zero_iff.1 h)
  by_cases houter : outer = ""
  · simpa [houter] using hpos
  · rw [join_of_ne sep houter h, String.utf8ByteSize_append, String.utf8ByteSize_append]
    omega

theorem outward_eq_cons (sep : Separator) (name : String) :
    ∃ names, sep.outward name = name :: names := by
  unfold outward
  cases name.length with
  | zero => exact ⟨[], rfl⟩
  | succ steps =>
    unfold outwardWithin
    split
    · exact ⟨_, rfl⟩
    · exact ⟨[], rfl⟩

theorem length_path_le (h : ∀ segment ∈ segments, sep.IsSegment segment) :
    segments.length ≤ (sep.path segments).length := by
  induction segments using List.reverseRecOn with
  | nil => simp
  | append_singleton front last ih =>
    have hlast := sep.length_lt_join (sep.path front) (h last (by simp)).ne_empty
    have hfront := ih fun segment hsegment => h segment (by simp [hsegment])
    rw [path_concat, List.length_append, List.length_singleton]
    omega

theorem inits_concat_tail (front : List String) (last : String) :
    (front ++ [last]).inits.tail.reverse = (front ++ [last]) :: front.inits.tail.reverse := by
  rw [List.inits_append]
  cases front <;> simp

/-- A path and the names around it: one for each of its first segments, the longest first. -/
theorem outwardWithin_path {steps : Nat} (hsteps : segments.length ≤ steps) (hne : segments ≠ [])
    (h : ∀ segment ∈ segments, sep.IsSegment segment) :
    sep.outwardWithin steps (sep.path segments) = segments.inits.tail.reverse.map sep.path := by
  induction segments using List.reverseRecOn generalizing steps with
  | nil => exact absurd rfl hne
  | append_singleton front last ih =>
    have hlast := h last (by simp)
    have hfront : ∀ segment ∈ front, sep.IsSegment segment :=
      fun segment hsegment => h segment (by simp [hsegment])
    rw [List.length_append, List.length_singleton] at hsteps
    obtain ⟨steps, rfl⟩ : ∃ fewer, steps = fewer + 1 := ⟨steps - 1, by omega⟩
    rw [inits_concat_tail, List.map_cons, outwardWithin]
    by_cases hempty : front = []
    · rw [hempty, List.nil_append, path_singleton, splitLast?_segment hlast]
      rfl
    · rw [splitLast?_path hempty hfront hlast]
      exact congrArg _ (ih (by omega) hempty hfront)

theorem outward_path (hne : segments ≠ []) (h : ∀ segment ∈ segments, sep.IsSegment segment) :
    sep.outward (sep.path segments) = segments.inits.tail.reverse.map sep.path :=
  outwardWithin_path (length_path_le h) hne h

/-- Around a path there is the path without its last segment, and what is around that. -/
theorem outward_path_concat (h : ∀ segment ∈ segments, sep.IsSegment segment)
    (hsegment : sep.IsSegment segment) :
    sep.outward (sep.path (segments ++ [segment])) =
      sep.path (segments ++ [segment]) ::
        if segments = [] then [] else sep.outward (sep.path segments) := by
  rw [outward_path (by simp) (by simpa [or_imp, forall_and] using ⟨h, hsegment⟩),
    inits_concat_tail, List.map_cons]
  split
  next hempty => simp [hempty]
  next hne => rw [outward_path hne h]

variable (sep) in
/-- **A name and the names around it**, innermost first, up to the empty one. -/
def around (name : String) : List String :=
  (sep.outward name).takeWhile (· ≠ "") ++ [""]

theorem around_empty : sep.around "" = [""] := rfl

theorem around_path_concat (h : ∀ segment ∈ segments, sep.IsSegment segment)
    (hsegment : sep.IsSegment segment) :
    sep.around (sep.path (segments ++ [segment])) =
      sep.path (segments ++ [segment]) :: sep.around (sep.path segments) := by
  have hne : sep.path (segments ++ [segment]) ≠ "" := by
    rw [path_concat]
    exact join_ne_empty _ hsegment.ne_empty
  rw [around, outward_path_concat h hsegment, List.takeWhile_cons_of_pos (by simpa using hne)]
  split
  next hempty => simp [hempty, around_empty]
  next => rfl

/-- **The names around a path** are the paths of its first segments, the longest first. -/
theorem around_path (h : ∀ segment ∈ segments, sep.IsSegment segment) :
    sep.around (sep.path segments) = segments.inits.reverse.map sep.path := by
  induction segments using List.reverseRecOn with
  | nil => rfl
  | append_singleton front last ih =>
    have hfront : ∀ segment ∈ front, sep.IsSegment segment :=
      fun segment hsegment => h segment (by simp [hsegment])
    rw [around_path_concat hfront (h last (by simp)), ih hfront, List.inits_append]
    simp

/-- The names around a path, as far as they are longer than that of its first segments, and then
the names around the latter: these are all names around the path. -/
theorem takeWhile_outward_path {others : List String}
    (h : ∀ segment ∈ segments ++ others, sep.IsSegment segment) :
    ((sep.outward (sep.path (segments ++ others))).takeWhile fun outer =>
        (sep.path segments).utf8ByteSize < outer.utf8ByteSize) ++ sep.around (sep.path segments) =
      sep.around (sep.path (segments ++ others)) := by
  induction others using List.reverseRecOn with
  | nil =>
    obtain ⟨names, hnames⟩ := sep.outward_eq_cons (sep.path segments)
    rw [List.append_nil, hnames, List.takeWhile_cons_of_neg (by simp), List.nil_append]
  | append_singleton front last ih =>
    have hlast := h last (by simp)
    have hfront : ∀ segment ∈ segments ++ front, sep.IsSegment segment :=
      fun segment hsegment => h segment (by
        rw [← List.append_assoc]
        exact List.mem_append_left _ hsegment)
    have hlonger : (sep.path segments).utf8ByteSize <
        (sep.path (segments ++ front ++ [last])).utf8ByteSize := by
      rw [List.append_assoc, path_append]
      refine sep.utf8ByteSize_lt_join _ ?_
      rw [path_concat]
      exact join_ne_empty _ hlast.ne_empty
    rw [← List.append_assoc, outward_path_concat hfront hlast,
      List.takeWhile_cons_of_pos (by simpa using hlonger), around_path_concat hfront hlast,
      List.cons_append]
    refine congrArg _ ?_
    split
    next hempty =>
      obtain ⟨rfl, rfl⟩ := List.append_eq_nil_iff.1 hempty
      rfl
    next => exact ih hfront

end Separator

/-! ## Declarations -/

/-- The full name of a nested declaration is the full name of what it says it is nested in, a
separator and its name. -/
theorem TypeFact.fullName_of_outer {sep : Separator} {fact : TypeFact} {outer : String}
    (houter : fact.outerName? = some outer) :
    fact.fullName sep = sep.join fact.trimmedNamespace outer ++ sep.text ++ fact.simpleName := by
  have hne : outer ≠ "" := by simpa using (Option.filter_eq_some_iff.1 houter).2
  have hrelative : fact.relativeName sep = outer ++ sep.text ++ fact.simpleName := by
    rw [relativeName, houter]
  rw [fullName, hrelative]
  by_cases hspace : fact.trimmedNamespace = ""
  · rw [hspace, Separator.empty_join, Separator.empty_join]
  · rw [sep.join_of_ne hspace hne, sep.join_of_ne hspace (by simp [hne])]
    simp only [String.append_assoc]

end FactGraph
