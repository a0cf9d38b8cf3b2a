import FactGraph.Proofs.Name.Documented
import FactGraph.Proofs.Name.Plain

/-!
# Names with other bases

The bases of a written name are replaced by others, at any depth, and the name is read back from its
new text. That is so if the names that are put in, and those that they are put in for, are plain: a
plain name neither opens nor closes a bracket, and it ends in no modifier, so the new text is
divided at the same places as the old one.

## Main definitions

* `Replaces`: a tree can take the place of another

## Main results

* `replaces_mk`: a tree with another base and other arguments takes the place of the old one
* `parse_eq_empty_iff`: only a blank name is read as the empty tree
-/

namespace FactGraph.TypeName

open Text (isBlankChar trimChars Bare)

-- A name is read by `parse_eq` only.
attribute [local irreducible] parse

/-! ## Parts of written names -/

/-- The base of a written name has no blanks at its ends. -/
theorem bare_base {tree : TypeName} (h : tree.Parsed) : Bare tree.base.toList := by
  obtain ⟨name, rfl⟩ := h
  rw [parse_eq, String.toList_ofList]
  have hbare := Text.bare_trimChars name.toList
  rcases dissect_cases (trimChars name.toList) with ⟨-, heq⟩ | ⟨-, heq⟩ | ⟨-, hne, -⟩
  · rw [heq]
    dsimp only
    exact bare_body hbare
  · rw [heq]
    dsimp only
    exact hbare
  · obtain ⟨front, -, -, -, -, hfront, -⟩ := exists_of_dissect hne
    rw [hfront]
    exact Text.bare_trimChars front

/-- The text of an argument of a written name can stand in a list of arguments. -/
theorem argument_of_mem_args {tree arg : TypeName} (h : tree.Parsed) (harg : arg ∈ tree.args) :
    Argument arg.render.toList := by
  obtain ⟨name, rfl⟩ := h
  rw [parse_eq] at harg
  dsimp only at harg
  obtain ⟨text, htext, rfl⟩ := List.mem_map.1 harg
  refine (parse_render_parse (String.ofList text)).2 ?_
  rw [String.toList_ofList]
  exact argument_of_mem_dissect htext

/-! ## Replacing -/

/-- **A tree can take the place of another**: it is read back from its text, and it can stand in a
list of arguments if the other one can. -/
structure Replaces (tree tree' : TypeName) : Prop where
  read : parse tree'.render = tree'
  argument : Argument tree.render.toList → Argument tree'.render.toList

theorem Replaces.refl {tree : TypeName} (h : tree.Parsed) : Replaces tree tree :=
  ⟨parse_render_parsed h, id⟩

/-- A base can take the place of another: it is the same one, or both are plain. -/
def ReplacesBase (base base' : String) : Prop :=
  base' = base ∨ Plain base ∧ Plain base' ∧ base' ≠ ""

/-- A tree whose text is taken apart into its base, the texts of its arguments and its suffix is
read back, if its arguments are. -/
theorem parse_render_of_dissect {tree : TypeName} (hbare : Bare tree.render.toList)
    (hparts : dissect tree.render.toList = (tree.base.toList,
      tree.args.map fun arg => arg.render.toList, tree.suffix.toList))
    (hargs : ∀ arg ∈ tree.args, parse arg.render = arg) : parse tree.render = tree := by
  have hread : tree.args.map (fun arg => parse arg.render) = tree.args :=
    (List.map_congr_left hargs).trans (List.map_id _)
  rw [parse_eq, Text.trimChars_of_bare hbare, hparts]
  simp only [List.map_map, Function.comp_def, String.ofList_toList, hread]
  cases tree
  rfl

/-- Without arguments, a plain base takes the place of another. -/
theorem replaces_plain {base base' suffix : String} (h : Parsed ⟨base, [], suffix⟩)
    (hbase : Plain base) (hbase' : Plain base') (hne : base' ≠ "") :
    Replaces ⟨base, [], suffix⟩ ⟨base', [], suffix⟩ := by
  obtain ⟨name, hname⟩ := h
  obtain ⟨hmodifiers, hsuffix⟩ := suffix_parse name
  rw [hname] at hmodifiers hsuffix
  constructor
  · rw [render]
    exact parse_plain hbase' hmodifiers hsuffix
  · intro hold
    have hclosed := hold.closed
    rw [render, String.toList_append, depthAfter_append, hbase.closed] at hclosed
    rw [render, String.toList_append]
    refine ⟨by simp [hne], hbase'.bare_append hsuffix, ?_⟩
    rwa [depthAfter_append, hbase'.closed]

/-- With another base and other arguments, the text is taken apart as it is put together, and it can
stand in a list of arguments if the old one can. -/
theorem dissect_replaced {base base' suffix : String} {args : List TypeName}
    {texts : List (List Char)} (h : Parsed ⟨base, args, suffix⟩)
    (hbase : ReplacesBase base base') (hargs : args ≠ []) (hne : texts ≠ [])
    (htexts : ∀ text ∈ texts, Argument text) :
    Bare (assemble base'.toList texts suffix.toList) ∧
      dissect (assemble base'.toList texts suffix.toList) =
        (base'.toList, texts, suffix.toList) ∧
      (Argument (render ⟨base, args, suffix⟩).toList →
        Argument (assemble base'.toList texts suffix.toList)) := by
  have hstable := parse_render_parsed h
  rcases hbase with rfl | ⟨-, hplain, -⟩
  · -- The base and the suffix are those of a text that was read.
    have hold := parse_eq (render ⟨base', args, suffix⟩)
    rw [hstable, TypeName.mk.injEq] at hold
    have hbareOld := Text.bare_trimChars (render ⟨base', args, suffix⟩).toList
    generalize htrimmed : trimChars (render ⟨base', args, suffix⟩).toList = trimmed
      at hold hbareOld
    obtain ⟨hold, holdArgs, holdSuffix⟩ := hold
    have hnil : texts = [] ↔ (dissect trimmed).2.1 = [] := by
      refine iff_of_false hne fun hnone => hargs ?_
      rw [holdArgs, hnone, List.map_nil]
    obtain ⟨hbare, hparts, hkept⟩ := dissect_assemble hbareOld htexts hnil
    rw [← String.toList_inj, String.toList_ofList] at hold holdSuffix
    rw [← hold, ← holdSuffix] at hbare hparts hkept
    refine ⟨hbare, hparts, fun hargument => hkept ?_⟩
    rw [Text.trimChars_of_bare hargument.bare] at htrimmed
    exact htrimmed ▸ hargument
  · obtain ⟨hmodifiers, hsuffix⟩ := suffix_parse (render ⟨base, args, suffix⟩)
    rw [hstable] at hmodifiers hsuffix
    refine ⟨bare_assemble hplain.bare hne hsuffix,
      dissect_arguments hplain.not_mem hplain.bare hne htexts hmodifiers hsuffix,
      fun hargument => ?_⟩
    have hcomma := hargument.suffix_parse
    rw [String.ofList_toList, hstable] at hcomma
    exact argument_assemble hplain.bare hplain.closed hne htexts hsuffix hmodifiers hcomma

/-- With arguments, a base takes the place of another, and so do the arguments. -/
theorem replaces_generic {base base' suffix : String} {args : List TypeName}
    {replace : TypeName → TypeName} (h : Parsed ⟨base, args, suffix⟩)
    (hbase : ReplacesBase base base') (hargs : args ≠ [])
    (hreplaces : ∀ arg ∈ args, Replaces arg (replace arg)) :
    Replaces ⟨base, args, suffix⟩ ⟨base', args.map replace, suffix⟩ := by
  have htexts : ∀ text ∈ (args.map replace).map fun arg => arg.render.toList, Argument text := by
    intro text htext
    obtain ⟨_, hreplaced, rfl⟩ := List.mem_map.1 htext
    obtain ⟨arg, harg, rfl⟩ := List.mem_map.1 hreplaced
    exact (hreplaces arg harg).argument (argument_of_mem_args h harg)
  obtain ⟨hbare, hparts, hargument⟩ :=
    dissect_replaced h hbase hargs (by simpa using hargs) htexts
  have htext := toList_render ⟨base', args.map replace, suffix⟩
  rw [← htext] at hbare hparts hargument
  refine ⟨parse_render_of_dissect hbare hparts fun arg harg => ?_, hargument⟩
  obtain ⟨old, hold, rfl⟩ := List.mem_map.1 harg
  exact (hreplaces old hold).read

/-- **A tree with another base and other arguments** takes the place of a written one, if the base
and the arguments take the places of the old ones. -/
theorem replaces_mk {base base' suffix : String} {args : List TypeName}
    {replace : TypeName → TypeName} (h : Parsed ⟨base, args, suffix⟩)
    (hbase : ReplacesBase base base')
    (hreplaces : ∀ arg ∈ args, Replaces arg (replace arg)) :
    Replaces ⟨base, args, suffix⟩ ⟨base', args.map replace, suffix⟩ := by
  by_cases hargs : args = []
  · subst hargs
    rcases hbase with rfl | ⟨hplain, hplain', hne⟩
    · exact .refl h
    · exact replaces_plain h hplain hplain' hne
  · exact replaces_generic h hbase hargs hreplaces

/-! ## Blank names -/

/-- **Only a blank name is read as the empty tree.** -/
theorem parse_eq_empty_iff {name : String} : parse name = ⟨"", [], ""⟩ ↔ Text.isBlank name := by
  rw [parse_eq, TypeName.mk.injEq]
  simp only [← String.toList_inj, String.toList_ofList, String.toList_empty, List.map_eq_nil_iff]
  generalize htrimmed : trimChars name.toList = trimmed
  constructor
  · rintro ⟨hbase, hargs, hsuffix⟩
    have hbare : Bare trimmed := htrimmed ▸ Text.bare_trimChars name.toList
    have hempty : trimmed = [] := by
      rcases dissect_cases trimmed with ⟨-, heq⟩ | ⟨-, heq⟩ | ⟨-, hne, -⟩
      · -- Nothing but blanks stands among the modifiers, and the ends are not blank.
        obtain ⟨raw, hraw, -, htrim⟩ := exists_suffix trimmed
        rw [heq] at hbase hsuffix
        dsimp only at hbase hsuffix
        rw [hbase, List.nil_append] at hraw
        rwa [hsuffix, ← hraw, Text.trimChars_of_bare hbare, eq_comm] at htrim
      · rw [heq] at hbase
        dsimp only at hbase
        exact hbase
      · exact absurd hargs hne
    obtain ⟨front, back, hsplit, hfront, hback⟩ := Text.exists_trimChars name.toList
    rw [htrimmed, hempty, List.append_nil] at hsplit
    rw [Text.isBlank, hsplit, List.all_append, Bool.and_eq_true, List.all_eq_true,
      List.all_eq_true]
    exact ⟨hfront, hback⟩
  · intro h
    obtain rfl : [] = trimmed := by
      rw [← htrimmed, trimChars, Text.trimStartChars,
        List.dropWhile_eq_nil_iff.2 (List.all_eq_true.1 h)]
      rfl
    exact ⟨rfl, rfl, rfl⟩

end FactGraph.TypeName
