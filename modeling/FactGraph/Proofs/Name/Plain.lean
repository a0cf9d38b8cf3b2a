import FactGraph.Proofs.Name.Path
import FactGraph.Proofs.Name.TypeName

/-!
# Plain names

A plain segment has no trace of the separator in it, no blank, and none of the characters that set
type names apart; plain paths are put together from plain segments. If the separator is plain too,
what is put together from plain names is a plain name.

A name ends in another one if it is the same, or if the other one stands behind a separator at its
end. In the latter case there is a separator in it, and if it is plain, so is the other one.

## Main definitions

* `Separator.IsPlainSegment`, `Separator.IsPlainPath`: plain segments, and what is made of them

## Main results

* `Separator.IsPlainPath.plain`: a plain path is a plain name
* `Separator.occursIn_of_endsWith`: a name that ends in another one has a separator in it
-/

namespace FactGraph

/-- A pattern that stands in a text is found. -/
theorem Text.splitFirst?_isSome {pattern : List Char} (hpattern : pattern ≠ [])
    (front back : List Char) : (splitFirst? pattern (front ++ pattern ++ back)).isSome := by
  induction front with
  | nil =>
    obtain ⟨c, rest, rfl⟩ := List.exists_cons_of_ne_nil hpattern
    have hmet : (c :: rest).isPrefixOf? (c :: (rest ++ back)) = some back :=
      List.isPrefixOf?_eq_some_iff_append_eq.2 rfl
    rw [List.nil_append, List.cons_append, splitFirst?, hmet]
    rfl
  | cons c front ih =>
    rw [List.cons_append, List.cons_append, splitFirst?]
    split
    · rfl
    · rw [Option.isSome_map]
      exact ih

namespace TypeName.Plain

variable {name : String}

theorem bare (h : Plain name) : Text.Bare name.toList := by
  have hempty : Text.Bare [] := ⟨by simp, by simp⟩
  simpa using h.bare_append hempty

theorem trim (h : Plain name) : Text.trim name = name :=
  Text.trim_eq_self_iff.2 h.bare

theorem isBlank_eq_false (h : Plain name) (hne : name ≠ "") : Text.isBlank name = false := by
  obtain ⟨c, cs, hcs⟩ := List.exists_cons_of_ne_nil (mt String.toList_eq_nil_iff.1 hne)
  have hc := (h c (by simp [hcs])).1
  rw [Text.isBlank, hcs, List.all_cons, hc, Bool.false_and]

theorem append {back : String} (h : Plain name) (hback : Plain back) : Plain (name ++ back) := by
  intro c hc
  rw [String.toList_append] at hc
  rcases List.mem_append.1 hc with hc | hc
  · exact h c hc
  · exact hback c hc

theorem join {sep : Separator} (hsep : Plain sep.text) {outer : String} (houter : Plain outer)
    (hname : Plain name) : Plain (sep.join outer name) := by
  unfold Separator.join
  split
  · exact hname
  · split
    · exact houter
    · exact (houter.append hsep).append hname

end TypeName.Plain

namespace Separator

variable {sep : Separator} {fullName name : String}

/-! ## Plain paths -/

/-- **A plain segment**: it is not empty, and it has no character of the separator, no blank and no
character that sets type names apart. -/
structure IsPlainSegment (sep : Separator) (segment : String) : Prop where
  ne_empty : segment ≠ ""
  apart : ∀ c ∈ segment.toList, c ∉ sep.text.toList
  plain : TypeName.Plain segment

instance (segment : String) : Decidable (sep.IsPlainSegment segment) :=
  -- Only the characters of the segment are gone through, not all that there are.
  haveI : Decidable (∀ c ∈ segment.toList, c ∉ sep.text.toList) :=
    List.decidableBAll _ segment.toList
  decidable_of_iff (segment ≠ "" ∧ (∀ c ∈ segment.toList, c ∉ sep.text.toList) ∧
      TypeName.Plain segment)
    ⟨fun ⟨hne, hapart, hplain⟩ => ⟨hne, hapart, hplain⟩, fun h => ⟨h.ne_empty, h.apart, h.plain⟩⟩

/-- **A plain path**: plain segments put together, or the empty name. -/
def IsPlainPath (sep : Separator) (name : String) : Prop :=
  ∃ segments, (∀ segment ∈ segments, sep.IsPlainSegment segment) ∧ sep.path segments = name

theorem IsPlainSegment.isSegment (h : sep.IsPlainSegment name) : sep.IsSegment name :=
  ⟨h.plain.isBlank_eq_false h.ne_empty, h.apart⟩

theorem IsPlainPath.isPath (h : sep.IsPlainPath name) : sep.IsPath name := by
  obtain ⟨segments, hsegments, hpath⟩ := h
  exact ⟨segments, fun segment hsegment => (hsegments segment hsegment).isSegment, hpath⟩

theorem IsPlainSegment.isPlainPath (h : sep.IsPlainSegment name) : sep.IsPlainPath name :=
  ⟨[name], by simpa using h, rfl⟩

/-- **A plain path is a plain name.** -/
theorem IsPlainPath.plain (hsep : TypeName.Plain sep.text) (h : sep.IsPlainPath name) :
    TypeName.Plain name := by
  obtain ⟨segments, hsegments, rfl⟩ := h
  induction segments using List.reverseRecOn with
  | nil => exact fun c hc => by simp at hc
  | append_singleton front last ih =>
    have hfront := ih fun segment hsegment => hsegments segment (by simp [hsegment])
    rw [path_concat]
    exact .join hsep hfront (hsegments last (by simp)).plain

/-! ## Names that end in a name -/

theorem endsWith_iff : sep.endsWith fullName name ↔
    fullName = name ∨ ∃ front, front ++ sep.text.toList ++ name.toList = fullName.toList := by
  rw [endsWith, Bool.or_eq_true, decide_eq_true_eq, List.isSuffixOf_iff_suffix,
    String.toList_append]
  simp only [List.IsSuffix, List.append_assoc]

theorem endsWith_join (outer : String) (hname : name ≠ "") :
    sep.endsWith (sep.join outer name) name := by
  rw [endsWith_iff]
  by_cases houter : outer = ""
  · exact .inl (by rw [houter, empty_join])
  · exact .inr ⟨outer.toList, by simp [join_of_ne sep houter hname]⟩

/-- **A name that ends in another one** has a separator in it. -/
theorem occursIn_of_endsWith (h : sep.endsWith fullName name) :
    fullName = name ∨ sep.occursIn fullName := by
  refine (endsWith_iff.1 h).imp_right ?_
  rintro ⟨front, hfront⟩
  have hfound := Text.splitFirst?_isSome sep.toList_ne_nil front name.toList
  rw [hfront] at hfound
  rwa [occursIn, splitFirst?, Option.isSome_map]

/-- What a plain name ends in is plain. -/
theorem plain_of_endsWith (h : sep.endsWith fullName name) (hplain : TypeName.Plain fullName) :
    TypeName.Plain name := by
  rcases endsWith_iff.1 h with rfl | ⟨front, hfront⟩
  · exact hplain
  · exact fun c hc => hplain c (by rw [← hfront]; exact List.mem_append_right _ hc)

end Separator

end FactGraph
