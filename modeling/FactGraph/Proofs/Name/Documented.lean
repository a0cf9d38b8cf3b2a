import FactGraph.Proofs.Name.Canonical

/-!
# Trees of the documented form

A type name is documented as a base, generic arguments and trailing modifiers: nullable marks `?`
and array ranks `[]`, `[,]`, in any number and order, at every depth. Such a tree should be read
back from its text.

It is, unless a rank with a comma stands inside of angle brackets. A list of arguments is divided
at the commas outside of all brackets, but only angle and round brackets count, so the comma of a
rank divides the list too: `List<int[,]>` is read as a list of the two arguments `int[` and `]`. A
rank behind the last bracket does no harm. These are the only trees that are lost
(`parse_render_iff`).

## Main definitions

* `Marks`: nullable marks and array ranks, in reading order
* `Documented`: a tree of the documented form
* `RanksPlain`: there is no comma in a rank, at any depth

## Main results

* `ranksPlain_of_parse`: there is no comma in the ranks of an argument that was read
* `parse_render_iff`: which trees of the documented form are read back
-/

namespace FactGraph.TypeName

open Text (isBlankChar trimChars Bare)

/-! ## Marks and ranks -/

/-- Nullable marks and array ranks, in reading order. -/
inductive Marks : List Char → Prop
  | nil : Marks []
  | nullable {cs : List Char} (h : Marks cs) : Marks ('?' :: cs)
  | rank (commas : Nat) {cs : List Char} (h : Marks cs) :
      Marks ('[' :: (List.replicate commas ',' ++ ']' :: cs))

theorem Modifiers.append {front back : List Char} (hfront : Modifiers front)
    (hback : Modifiers back) : Modifiers (front ++ back) := by
  induction hfront with
  | nil => exact hback
  | mark hc _ ih => exact .mark hc ih
  | rank hrank _ ih => simpa using Modifiers.rank hrank ih

theorem Marks.modifiers {cs : List Char} (h : Marks cs) : Modifiers cs.reverse := by
  induction h with
  | nil => exact .nil
  | nullable _ ih =>
    rw [List.reverse_cons]
    exact ih.append (.mark (.inl rfl) .nil)
  | rank commas _ ih =>
    have hrank : ∀ c ∈ List.replicate commas ',', isRankChar c := by
      intro c hc
      obtain rfl := List.eq_of_mem_replicate hc
      decide
    simpa using ih.append (Modifiers.rank hrank .nil)

theorem Marks.not_blank {cs : List Char} (h : Marks cs) : ∀ c ∈ cs, isBlankChar c = false := by
  induction h with
  | nil => simp
  | nullable _ ih =>
    intro c hc
    rcases List.mem_cons.1 hc with rfl | hc
    · decide
    · exact ih c hc
  | rank commas _ ih =>
    intro c hc
    simp only [List.mem_cons, List.mem_append, List.mem_replicate] at hc
    rcases hc with rfl | ⟨-, rfl⟩ | rfl | hc
    · decide
    · decide
    · decide
    · exact ih c hc

theorem bare_of_not_blank {cs : List Char} (h : ∀ c ∈ cs, isBlankChar c = false) : Bare cs :=
  ⟨fun c hc => h c (List.mem_of_mem_head? hc), fun c hc => h c (List.mem_of_getLast? hc)⟩

/-! ## Trees -/

/-- **A tree of the documented form**: every base is a name without blanks and brackets, and every
suffix is made of nullable marks and array ranks. -/
inductive Documented : TypeName → Prop
  | mk {base suffix : String} {args : List TypeName} (hne : base ≠ "") (hbase : Plain base)
      (hsuffix : Marks suffix.toList) (hargs : ∀ arg ∈ args, Documented arg) :
      Documented ⟨base, args, suffix⟩

/-- **There is no comma in a rank**, here and in the arguments at every depth. -/
inductive RanksPlain : TypeName → Prop
  | mk {base suffix : String} {args : List TypeName} (hcomma : ',' ∉ suffix.toList)
      (hargs : ∀ arg ∈ args, RanksPlain arg) : RanksPlain ⟨base, args, suffix⟩

theorem RanksPlain.intro {tree : TypeName} (hcomma : ',' ∉ tree.suffix.toList)
    (hargs : ∀ arg ∈ tree.args, arg.RanksPlain) : tree.RanksPlain := by
  cases tree with
  | mk base args suffix => exact .mk hcomma hargs

theorem RanksPlain.suffix {tree : TypeName} (h : tree.RanksPlain) : ',' ∉ tree.suffix.toList := by
  cases h with
  | mk hcomma _ => exact hcomma

theorem RanksPlain.args {tree : TypeName} (h : tree.RanksPlain) :
    ∀ arg ∈ tree.args, arg.RanksPlain := by
  cases h with
  | mk _ hargs => exact hargs

-- A name is read by `parse_eq` only.
attribute [local irreducible] parse

/-- The suffix of an argument that was read has no comma. -/
theorem Argument.suffix_parse {text : List Char} (h : Argument text) :
    ',' ∉ (parse (String.ofList text)).suffix.toList := by
  rw [parse_eq, String.toList_ofList, String.toList_ofList, Text.trimChars_of_bare h.bare]
  rcases dissect_cases text with ⟨-, heq⟩ | ⟨-, heq⟩ | ⟨-, -, -, heq⟩
  · rw [heq]
    exact h.comma_notMem
  · simp [heq]
  · rw [heq]
    exact h.comma_notMem

/-- **There is no comma in the ranks of an argument that was read**, at any depth. -/
theorem ranksPlain_of_parse (name : String) : ∀ arg ∈ (parse name).args, arg.RanksPlain := by
  induction hlength : name.toList.length using Nat.strong_induction_on generalizing name with
  | _ length ih =>
    subst hlength
    rw [parse_eq]
    intro arg harg
    dsimp only at harg
    obtain ⟨text, htext, rfl⟩ := List.mem_map.1 harg
    have hshorter := length_of_mem_dissect htext
    have htrimmed := length_trimChars_le name.toList
    exact .intro (argument_of_mem_dissect htext).suffix_parse
      (ih text.length (by omega) (String.ofList text) (by simp))

theorem Plain.isFlat {name : String} (h : Plain name) : ∀ c ∈ name.toList, IsFlat c := by
  intro c hc
  have hchar := (h c hc).2
  simp only [List.mem_cons, List.not_mem_nil, or_false, not_or] at hchar
  obtain ⟨hless, hgreater, hopen, hclose, -⟩ := hchar
  exact ⟨by simp [isOpening, hless, hopen], by simp [isClosing, hgreater, hclose]⟩

theorem Plain.closed {name : String} (h : Plain name) : depthAfter 0 name.toList = some 0 := by
  have hcomma : ',' ∉ name.toList := fun hmem => (h ',' hmem).2 (by simp)
  rw [depthAfter_flat h.isFlat]
  simp [hcomma]

/-- **A documented tree is read back** if no rank with a comma stands in its arguments; if none
stands behind it either, it can stand in a list of arguments. -/
theorem Documented.read {tree : TypeName} (h : tree.Documented)
    (hargs : ∀ arg ∈ tree.args, arg.RanksPlain) :
    parse tree.render = tree ∧
      (',' ∉ tree.suffix.toList → Argument tree.render.toList) := by
  induction h with
  | @mk base suffix args hne hbase hsuffix _ ih =>
    have hmodifiers := hsuffix.modifiers
    have hbareBase := bare_of_not_blank fun c hc => (hbase c hc).1
    have hbareSuffix := bare_of_not_blank hsuffix.not_blank
    by_cases hnil : args = []
    · subst hnil
      have hrender : render ⟨base, [], suffix⟩ = base ++ suffix := by rw [render]
      rw [hrender]
      refine ⟨parse_plain hbase hmodifiers hbareSuffix, fun hcomma => ⟨?_, ?_, ?_⟩⟩
      · simp [hne]
      · rw [String.toList_append]
        exact hbareBase.append_bare hbareSuffix
      · rw [String.toList_append, depthAfter_append, hbase.closed, Option.bind_some,
          depthAfter_flat fun c hc => hmodifiers.isFlat c (List.mem_reverse.2 hc)]
        simpa using hcomma
    · -- The texts of the arguments are read back, and can stand in a list.
      have hread : ∀ arg ∈ args, parse arg.render = arg ∧ Argument arg.render.toList := by
        intro arg harg
        have hplain := hargs arg harg
        obtain ⟨hback, hargument⟩ := ih arg harg hplain.args
        exact ⟨hback, hargument hplain.suffix⟩
      have hne : args.map (fun arg => arg.render.toList) ≠ [] := by simpa using hnil
      have htexts : ∀ text ∈ args.map (fun arg => arg.render.toList), Argument text := by
        intro text htext
        obtain ⟨arg, harg, rfl⟩ := List.mem_map.1 htext
        exact (hread arg harg).2
      have htree : args.map (fun arg => parse arg.render) = args :=
        (List.map_congr_left fun arg harg => (hread arg harg).1).trans (List.map_id _)
      have hparts := dissect_arguments hbase.not_mem hbareBase hne htexts hmodifiers hbareSuffix
      constructor
      · rw [parse_eq, toList_render, Text.trimChars_of_bare
          (bare_assemble hbareBase hne hbareSuffix), hparts]
        simp only [List.map_map, Function.comp_def, String.ofList_toList, htree]
      · intro hcomma
        rw [toList_render]
        exact argument_assemble hbareBase hbase.closed hne htexts hbareSuffix hmodifiers hcomma

/-- **Which trees of the documented form are read back**: those without a comma in the ranks of
their arguments, at any depth. The ranks behind the last bracket may have any number of commas. -/
theorem parse_render_iff {tree : TypeName} (h : tree.Documented) :
    parse tree.render = tree ↔ ∀ arg ∈ tree.args, arg.RanksPlain := by
  constructor
  · intro hread
    rw [← hread]
    exact ranksPlain_of_parse tree.render
  · intro hargs
    exact (h.read hargs).1

/-- A map with marks and ranks at every depth, and a rank with a comma behind it. -/
def rankedMap : TypeName :=
  ⟨"Map", [⟨"Key", [], "?"⟩, ⟨"List", [⟨"Item", [], "[]?"⟩], "[]"⟩], "?[,]"⟩

theorem rankedMap_documented : rankedMap.Documented := by
  have hkey : Documented ⟨"Key", [], "?"⟩ :=
    .mk (by decide) (by decide) (.nullable .nil) (by simp)
  have hitem : Documented ⟨"Item", [], "[]?"⟩ :=
    .mk (by decide) (by decide) (.rank 0 (.nullable .nil)) (by simp)
  have hlist : Documented ⟨"List", [⟨"Item", [], "[]?"⟩], "[]"⟩ :=
    .mk (by decide) (by decide) (.rank 0 .nil) (by simpa using hitem)
  exact .mk (by decide) (by decide) (.nullable (.rank 1 .nil)) (by simpa using ⟨hkey, hlist⟩)

/-- The map is read back. -/
theorem rankedMap_read :
    rankedMap.Documented ∧ rankedMap.render = "Map<Key?, List<Item[]?>[]>?[,]" ∧
      parse rankedMap.render = rankedMap := by
  refine ⟨rankedMap_documented, by decide +kernel, (parse_render_iff rankedMap_documented).2 ?_⟩
  have hkey : RanksPlain ⟨"Key", [], "?"⟩ := .mk (by decide) (by simp)
  have hitem : RanksPlain ⟨"Item", [], "[]?"⟩ := .mk (by decide) (by simp)
  have hlist : RanksPlain ⟨"List", [⟨"Item", [], "[]?"⟩], "[]"⟩ :=
    .mk (by decide) (by simpa using hitem)
  simpa [rankedMap] using ⟨hkey, hlist⟩

/-- A list of grids. -/
def gridList : TypeName :=
  ⟨"List", [⟨"int", [], "[,]"⟩], ""⟩

/-- **A rank with a comma inside of angle brackets is lost**: the list is read as one with two
arguments. -/
theorem gridList_misread :
    gridList.Documented ∧ gridList.render = "List<int[,]>" ∧
      parse "List<int[,]>" = ⟨"List", [⟨"int[", [], ""⟩, ⟨"]", [], ""⟩], ""⟩ ∧
      parse gridList.render ≠ gridList := by
  have hgrid : Documented ⟨"int", [], "[,]"⟩ :=
    .mk (by decide) (by decide) (.rank 1 .nil) (by simp)
  have hrender : gridList.render = "List<int[,]>" := by decide +kernel
  have hparse : parse "List<int[,]>" = ⟨"List", [⟨"int[", [], ""⟩, ⟨"]", [], ""⟩], ""⟩ := by
    with_unfolding_all rfl
  refine ⟨.mk (by decide) (by decide) .nil (by simpa using hgrid), hrender, hparse, ?_⟩
  rw [hrender, hparse]
  simp [gridList]

end FactGraph.TypeName
