import FactGraph.Name.TypeName
import FactGraph.Proofs.Name.Segments
import Mathlib.Data.List.Induction

/-!
# Reading type names

The modifiers behind a name are read from its end, as far as they go, and what is left has none.
So a name and its modifiers, put together again, are taken apart as before; for a name without
arguments that is all there is to reading it. The depth that bounds the nesting of arguments is
never reached, and the tree of an argument is the tree of its text.

## Main definitions

* `TypeName.Modifiers`: modifiers, read from the end
* `TypeName.Stuck`: there is no modifier at the end
* `TypeName.Parsed`: the tree of a written name

## Main results

* `peel_modifiers`, `exists_modifiers`: peeling takes away the modifiers at the end, and all of them
* `parsed_args`: the arguments of a written name are written names
* `parse_plain`: a name without brackets and blanks, with modifiers behind it
* `parsed_base`: the base of a name without arguments, from its text
-/

namespace FactGraph.TypeName

open Text (isBlankChar trimChars trimEndChars trimStartChars Bare)

/-! ## Modifiers -/

/-- Nullable marks, blanks and array ranks, the last character first. -/
inductive Modifiers : List Char → Prop
  | nil : Modifiers []
  | mark {c : Char} {cs : List Char} (hc : c = '?' ∨ isBlankChar c) (h : Modifiers cs) :
      Modifiers (c :: cs)
  | rank {rank cs : List Char} (hrank : ∀ c ∈ rank, isRankChar c) (h : Modifiers cs) :
      Modifiers (']' :: (rank ++ '[' :: cs))

/-- The characters, the last one first, do not start with a modifier. -/
def Stuck (cs : List Char) : Prop :=
  (∀ c ∈ cs.head?, c ≠ '?' ∧ isBlankChar c = false) ∧
    ¬∃ rank rest, (∀ c ∈ rank, isRankChar c) ∧ cs = ']' :: (rank ++ '[' :: rest)

theorem peel_rank {rank : List Char} (hrank : ∀ c ∈ rank, isRankChar c)
    (state : List Char × List Char) (cs passed : List Char) :
    peel (some state) (rank ++ '[' :: cs) passed =
      peel none cs ('[' :: (rank.reverse ++ passed)) := by
  induction rank generalizing passed with
  | nil => rfl
  | cons c rank ih =>
    rw [List.cons_append, peel, if_pos (hrank c (by simp)),
      ih fun d hd => hrank d (by simp [hd])]
    simp

/-- Peeling stops before a closing bracket that no rank ends in. -/
theorem peel_broken {cs : List Char}
    (h : ¬∃ rank rest, (∀ c ∈ rank, isRankChar c) ∧ cs = rank ++ '[' :: rest)
    (state : List Char × List Char) (passed : List Char) :
    peel (some state) cs passed = state := by
  induction cs generalizing passed with
  | nil => rfl
  | cons c cs ih =>
    rw [peel]
    split
    next hc =>
      refine ih ?_ _
      rintro ⟨rank, rest, hrank, rfl⟩
      exact h ⟨c :: rank, rest, by simpa [hc] using hrank, rfl⟩
    next =>
      split
      next hc =>
        obtain rfl : c = '[' := by simpa using hc
        exact absurd ⟨[], cs, by simp, rfl⟩ h
      next => rfl

theorem peel_stuck {cs : List Char} (h : Stuck cs) (passed : List Char) :
    peel none cs passed = (cs, passed) := by
  cases cs with
  | nil => rfl
  | cons c cs =>
    obtain ⟨hmark, hblank⟩ := h.1 c rfl
    rw [peel, if_neg (by simp [hmark, hblank])]
    split
    next hc =>
      obtain rfl : c = ']' := by simpa using hc
      refine peel_broken ?_ _ _
      rintro ⟨rank, rest, hrank, rfl⟩
      exact h.2 ⟨rank, rest, hrank, rfl⟩
    next => rfl

/-- **Peeling takes away modifiers**, up to where there is none. -/
theorem peel_modifiers {front rest : List Char} (hfront : Modifiers front) (hrest : Stuck rest)
    (passed : List Char) :
    peel none (front ++ rest) passed = (rest, front.reverse ++ passed) := by
  induction hfront generalizing passed with
  | nil => exact peel_stuck hrest passed
  | mark hc _ ih =>
    rw [List.cons_append, peel, if_pos (by simpa using hc), ih]
    simp
  | @rank rank cs hrank _ ih =>
    have hbracket : isBlankChar ']' = false := by decide
    rw [List.cons_append, peel, if_neg (by simp [hbracket]), if_pos (by simp), List.append_assoc,
      List.cons_append, peel_rank hrank, ih]
    simp

/-- **Every text has all its modifiers at the end.** -/
theorem exists_modifiers (cs : List Char) :
    ∃ front rest, cs = front ++ rest ∧ Modifiers front ∧ Stuck rest := by
  induction hlength : cs.length using Nat.strong_induction_on generalizing cs with
  | _ length ih =>
    subst hlength
    by_cases hstuck : Stuck cs
    · exact ⟨[], cs, rfl, .nil, hstuck⟩
    · rw [Stuck, not_and_or, not_not] at hstuck
      rcases hstuck with hmark | ⟨rank, rest, hrank, rfl⟩
      · cases cs with
        | nil => simp at hmark
        | cons c cs =>
          obtain ⟨front, rest, rfl, hfront, hrest⟩ := ih cs.length (by simp) cs rfl
          refine ⟨c :: front, rest, rfl, .mark ?_ hfront, hrest⟩
          simp only [List.head?_cons, Option.mem_def, Option.some.injEq, forall_eq'] at hmark
          by_contra hnot
          rw [not_or, Bool.not_eq_true] at hnot
          exact hmark hnot
      · obtain ⟨front, rest, rfl, hfront, hrest⟩ := ih rest.length (by simp; omega) rest rfl
        exact ⟨']' :: (rank ++ '[' :: front), rest, by simp, .rank hrank hfront, hrest⟩

theorem Modifiers.tail {c : Char} {cs : List Char} (h : Modifiers (c :: cs))
    (hc : isBlankChar c) : Modifiers cs := by
  cases h with
  | mark _ h => exact h
  | rank hrank h => exact absurd hc (by decide)

/-- Blanks in front are no loss. -/
theorem Modifiers.trimStart {cs : List Char} (h : Modifiers cs) :
    Modifiers (trimStartChars cs) := by
  unfold trimStartChars
  induction cs with
  | nil => exact h
  | cons c cs ih =>
    rw [List.dropWhile_cons]
    split
    next hc => exact ih (h.tail hc)
    next => exact h

theorem Modifiers.dropLast_blank {cs : List Char} {c : Char} (hc : isBlankChar c)
    (h : Modifiers (cs ++ [c])) : Modifiers cs := by
  generalize hwhole : cs ++ [c] = whole at h
  induction h generalizing cs with
  | nil => simp at hwhole
  | @mark d rest hd h ih =>
    cases cs with
    | nil => exact .nil
    | cons e cs =>
      obtain ⟨rfl, hrest⟩ := List.cons.inj hwhole
      exact .mark hd (ih hrest)
  | @rank rank rest hrank h ih =>
    cases cs with
    | nil => exact .nil
    | cons e cs =>
      obtain ⟨rfl, hrest⟩ := List.cons.inj hwhole
      rcases List.eq_nil_or_concat rest with rfl | ⟨rest, d, rfl⟩
      · obtain ⟨-, hlast⟩ := List.append_inj' hrest rfl
        obtain rfl : c = '[' := by simpa using hlast
        exact absurd hc (by decide)
      · rw [List.concat_eq_append] at hrest ih
        have hsplit : rank ++ '[' :: (rest ++ [d]) = (rank ++ '[' :: rest) ++ [d] := by simp
        obtain ⟨rfl, hlast⟩ := List.append_inj' (hrest.trans hsplit) rfl
        obtain rfl : c = d := by simpa using hlast
        exact .rank hrank (ih rfl)

/-- Blanks behind are no loss. -/
theorem Modifiers.trimEnd {cs : List Char} (h : Modifiers cs) : Modifiers (trimEndChars cs) := by
  unfold trimEndChars
  induction cs using List.reverseRecOn with
  | nil => exact h
  | append_singleton cs c ih =>
    rw [List.reverse_append, List.reverse_singleton, List.singleton_append, List.dropWhile_cons]
    split
    next hc => exact ih (h.dropLast_blank hc)
    next => simpa using h

theorem Modifiers.trim {cs : List Char} (h : Modifiers cs.reverse) :
    Modifiers (trimChars cs).reverse := by
  have hback : Modifiers (trimStartChars cs).reverse := by
    have hend := h.trimEnd
    rwa [trimEndChars, List.reverse_reverse] at hend
  have hfront := hback.trimStart
  rwa [trimChars, trimEndChars, List.reverse_reverse]

/-- The characters of modifiers. -/
theorem Modifiers.mem {cs : List Char} (h : Modifiers cs) :
    ∀ c ∈ cs, isBlankChar c ∨ c ∈ ['?', '[', ']', ','] := by
  induction h with
  | nil => simp
  | mark hc _ ih =>
    intro d hd
    rcases List.mem_cons.1 hd with rfl | hd
    · exact hc.symm.imp_right fun hc => by simp [hc]
    · exact ih d hd
  | @rank rank cs hrank _ ih =>
    intro d hd
    rcases List.mem_cons.1 hd with rfl | hd
    · simp
    · rcases List.mem_append.1 hd with hd | hd
      · have hchar := hrank d hd
        rw [isRankChar, Bool.or_eq_true, beq_iff_eq] at hchar
        exact hchar.symm.imp_right fun hc => by simp [hc]
      · rcases List.mem_cons.1 hd with rfl | hd
        · simp
        · exact ih d hd

theorem Stuck.trimEnd {cs : List Char} (h : Stuck cs) : trimEndChars cs.reverse = cs.reverse := by
  rw [trimEndChars, List.reverse_reverse,
    Text.dropWhile_of_head fun c hc => (h.1 c hc).2]

/-- A name is split where its modifiers start. -/
theorem splitSuffix_append {body suffix : List Char} (hbody : Stuck body.reverse)
    (hsuffix : Modifiers suffix.reverse) :
    splitSuffix (body ++ suffix) = (body, trimChars suffix) := by
  have hpeel := peel_modifiers hsuffix hbody []
  have hend := hbody.trimEnd
  rw [List.reverse_reverse] at hend
  rw [splitSuffix, List.reverse_append, hpeel]
  simp [hend]

/-- **What a name is split into**: a text without modifiers at its end, and modifiers. -/
theorem splitSuffix_spec (name : List Char) :
    Stuck (splitSuffix name).1.reverse ∧ Modifiers (splitSuffix name).2.reverse ∧
      Bare (splitSuffix name).2 ∧ (splitSuffix name).1 <+: name := by
  obtain ⟨front, rest, hname, hfront, hrest⟩ := exists_modifiers name.reverse
  have hsplit : name = rest.reverse ++ front.reverse := by
    rw [← List.reverse_append, ← hname, List.reverse_reverse]
  rw [hsplit, splitSuffix_append (by simpa using hrest) (by simpa using hfront)]
  refine ⟨by simpa using hrest, Modifiers.trim (by simpa using hfront), Text.bare_trimChars _, ?_⟩
  exact List.prefix_append _ _

/-- Split once more, the two parts stay the same. -/
theorem splitSuffix_parts (name : List Char) :
    splitSuffix ((splitSuffix name).1 ++ (splitSuffix name).2) = splitSuffix name := by
  obtain ⟨hbody, hsuffix, hbare, -⟩ := splitSuffix_spec name
  rw [splitSuffix_append hbody hsuffix, Text.trimChars_of_bare hbare]

/-! ## The depth of a name -/

theorem length_trimChars_le (cs : List Char) : (trimChars cs).length ≤ cs.length := by
  rw [trimChars, trimEndChars, List.length_reverse]
  refine (List.length_dropWhile_le _ _).trans ?_
  rw [List.length_reverse]
  exact List.length_dropWhile_le _ _

/-- The pieces of a list of arguments are no longer than the list. -/
theorem length_splitArgumentsFrom {depth : Nat} {cs piece : List Char} {pieces : List (List Char)}
    (h : splitArgumentsFrom depth cs = some (piece, pieces)) :
    ∀ arg ∈ piece :: pieces, arg.length ≤ cs.length := by
  induction cs generalizing depth piece pieces with
  | nil =>
    rw [splitArgumentsFrom] at h
    split at h
    · cases h
      simp
    · cases h
  | cons c cs ih =>
    -- Either a piece ends here, or the first piece has the character in front.
    have hgrown {depth' : Nat}
        (h : (splitArgumentsFrom depth' cs).map (fun parts => (c :: parts.1, parts.2)) =
          some (piece, pieces)) : ∀ arg ∈ piece :: pieces, arg.length ≤ (c :: cs).length := by
      obtain ⟨⟨piece', pieces'⟩, hrest, heq⟩ := Option.map_eq_some_iff.1 h
      cases heq
      intro arg harg
      rcases List.mem_cons.1 harg with rfl | harg
      · simpa using ih hrest piece' (by simp)
      · exact (ih hrest arg (by simp [harg])).trans (by simp)
    unfold splitArgumentsFrom at h
    split at h
    · obtain ⟨⟨piece', pieces'⟩, hrest, heq⟩ := Option.map_eq_some_iff.1 h
      cases heq
      intro arg harg
      rcases List.mem_cons.1 harg with rfl | harg
      · simp
      · exact (ih hrest arg harg).trans (by simp)
    · split at h
      · exact hgrown h
      · split at h
        · cases depth with
          | zero => cases h
          | succ outer => exact hgrown h
        · exact hgrown h

theorem splitArguments_spec {inner : List Char} {arguments : List (List Char)}
    (h : splitArguments inner = some arguments) :
    arguments ≠ [] ∧ ∀ arg ∈ arguments, arg.length ≤ inner.length := by
  unfold splitArguments at h
  split at h
  · cases h
  next piece pieces hpieces =>
    dsimp only at h
    split at h
    · cases h
    · cases h
      refine ⟨by simp, fun arg harg => ?_⟩
      obtain ⟨raw, hraw, rfl⟩ := List.mem_map.1 harg
      exact (length_trimChars_le raw).trans (length_splitArgumentsFrom hpieces raw hraw)

/-- **The parts of a name**: without a bracket in the body, the name is split into body and
suffix; otherwise it has arguments, which are shorter than the name, or it is kept whole. -/
theorem dissect_cases (trimmed : List Char) :
    ('<' ∉ (splitSuffix trimmed).1 ∧
      dissect trimmed = ((splitSuffix trimmed).1, [], (splitSuffix trimmed).2)) ∨
    ('<' ∈ (splitSuffix trimmed).1 ∧ dissect trimmed = (trimmed, [], [])) ∨
    ('<' ∈ (splitSuffix trimmed).1 ∧ (dissect trimmed).2.1 ≠ [] ∧
      (∀ arg ∈ (dissect trimmed).2.1, arg.length < trimmed.length) ∧
      (dissect trimmed).2.2 = (splitSuffix trimmed).2) := by
  obtain ⟨-, -, -, hfront⟩ := splitSuffix_spec trimmed
  unfold dissect
  generalize splitSuffix trimmed = parts at hfront ⊢
  obtain ⟨body, suffix⟩ := parts
  dsimp only at hfront ⊢
  split
  next hdrop =>
    refine .inl ⟨fun hmem => ?_, rfl⟩
    have hall := List.dropWhile_eq_nil_iff.1 hdrop '<' hmem
    simp at hall
  next c rest hdrop =>
    have hmem : '<' ∈ body := by
      by_contra hnot
      have hnil : body.dropWhile (· != '<') = [] :=
        List.dropWhile_eq_nil_iff.2 fun d hd => by
          simp only [bne_iff_ne]
          exact fun heq => hnot (heq ▸ hd)
      rw [hnil] at hdrop
      cases hdrop
    split
    · split
      next arguments harguments =>
        obtain ⟨hne, hlength⟩ := splitArguments_spec harguments
        refine .inr (.inr ⟨hmem, hne, fun arg harg => ?_, rfl⟩)
        have hdropped : rest.length + 1 ≤ body.length := by
          have hle := List.length_dropWhile_le (· != '<') body
          rwa [hdrop, List.length_cons] at hle
        calc arg.length ≤ rest.dropLast.length := hlength arg harg
          _ ≤ rest.length := by simp
          _ < body.length := hdropped
          _ ≤ trimmed.length := hfront.length_le
      next => exact .inr (.inl ⟨hmem, rfl⟩)
    · exact .inr (.inl ⟨hmem, rfl⟩)

/-- An argument is shorter than the name. -/
theorem length_of_mem_dissect {trimmed arg : List Char} (h : arg ∈ (dissect trimmed).2.1) :
    arg.length < trimmed.length := by
  rcases dissect_cases trimmed with ⟨-, heq⟩ | ⟨-, heq⟩ | ⟨-, -, hlength, -⟩
  · rw [heq] at h
    cases h
  · rw [heq] at h
    cases h
  · exact hlength arg h

theorem parseWithin_succ (depth : Nat) (name : List Char) :
    parseWithin (depth + 1) name =
      ⟨String.ofList (dissect (trimChars name)).1,
        (dissect (trimChars name)).2.1.map (parseWithin depth),
        String.ofList (dissect (trimChars name)).2.2⟩ := rfl

/-- **The depth is never reached**, if it exceeds the length of the name. -/
theorem parseWithin_eq {depth depth' : Nat} {name : List Char} (h : name.length < depth)
    (h' : name.length < depth') : parseWithin depth name = parseWithin depth' name := by
  induction depth generalizing depth' name with
  | zero => omega
  | succ depth ih =>
    obtain ⟨depth', rfl⟩ : ∃ outer, depth' = outer + 1 := ⟨depth' - 1, by omega⟩
    have hargs : (dissect (trimChars name)).2.1.map (parseWithin depth) =
        (dissect (trimChars name)).2.1.map (parseWithin depth') := by
      refine List.map_congr_left fun arg harg => ?_
      have hshorter := length_of_mem_dissect harg
      have htrimmed := length_trimChars_le name
      exact ih (by omega) (by omega)
    rw [parseWithin_succ, parseWithin_succ, hargs]

/-! ## Written names -/

/-- The tree of a written name. -/
def Parsed (tree : TypeName) : Prop :=
  ∃ name, parse name = tree

theorem parsed_parse (name : String) : Parsed (parse name) := ⟨name, rfl⟩

/-- **The arguments of a written name are written names.** -/
theorem parsed_args {tree : TypeName} (h : tree.Parsed) : ∀ arg ∈ tree.args, arg.Parsed := by
  obtain ⟨name, rfl⟩ := h
  intro arg harg
  rw [parse, parseWithin_succ] at harg
  dsimp only at harg
  obtain ⟨text, htext, rfl⟩ := List.mem_map.1 harg
  have hshorter := length_of_mem_dissect htext
  have htrimmed := length_trimChars_le name.toList
  refine ⟨String.ofList text, ?_⟩
  rw [parse, String.toList_ofList]
  exact parseWithin_eq (by omega) (by omega)

/-- The modifiers of a written name are modifiers, without blanks at their ends. -/
theorem suffix_parse (name : String) :
    Modifiers (parse name).suffix.toList.reverse ∧ Bare (parse name).suffix.toList := by
  rw [parse, parseWithin_succ, String.toList_ofList]
  obtain ⟨-, hmodifiers, hbare, -⟩ := splitSuffix_spec (trimChars name.toList)
  rcases dissect_cases (trimChars name.toList) with
    ⟨-, heq⟩ | ⟨-, heq⟩ | ⟨-, -, -, heq⟩
  · rw [heq]
    dsimp only
    exact ⟨hmodifiers, hbare⟩
  · rw [heq]
    exact ⟨.nil, by simp [Bare]⟩
  · rw [heq]
    exact ⟨hmodifiers, hbare⟩

/-- A name without blanks and without the characters that set type names apart. -/
def Plain (name : String) : Prop :=
  ∀ c ∈ name.toList, isBlankChar c = false ∧ c ∉ ['<', '>', '(', ')', '[', ']', ',', '?']

instance (name : String) : Decidable (Plain name) :=
  List.decidableBAll _ name.toList

theorem Plain.stuck {name : String} (h : Plain name) : Stuck name.toList.reverse := by
  refine ⟨fun c hc => ?_, ?_⟩
  · have hchar := h c (List.mem_reverse.1 (List.mem_of_mem_head? hc))
    exact ⟨fun heq => hchar.2 (by simp [heq]), hchar.1⟩
  · rintro ⟨rank, rest, -, heq⟩
    have hmem : ']' ∈ name.toList := List.mem_reverse.1 (by rw [heq]; simp)
    exact (h ']' hmem).2 (by simp)

theorem Plain.not_mem {name : String} (h : Plain name) : '<' ∉ name.toList :=
  fun hmem => (h '<' hmem).2 (by simp)

theorem Plain.bare_append {name : String} (h : Plain name) {suffix : List Char}
    (hsuffix : Bare suffix) : Bare (name.toList ++ suffix) := by
  constructor
  · intro c hc
    rcases List.head?_append ▸ hc |> Option.or_eq_some_iff.1 with hc | ⟨-, hc⟩
    · exact (h c (List.mem_of_mem_head? hc)).1
    · exact hsuffix.1 c hc
  · intro c hc
    rcases List.getLast?_append ▸ hc |> Option.or_eq_some_iff.1 with hc | ⟨-, hc⟩
    · exact hsuffix.2 c hc
    · exact (h c (List.mem_of_getLast? hc)).1

/-- **A plain name with modifiers behind it** is read as such. -/
theorem parse_plain {name suffix : String} (hname : Plain name)
    (hmodifiers : Modifiers suffix.toList.reverse) (hbare : Bare suffix.toList) :
    parse (name ++ suffix) = ⟨name, [], suffix⟩ := by
  have hsplit := splitSuffix_append hname.stuck hmodifiers
  rw [Text.trimChars_of_bare hbare] at hsplit
  have hparts : dissect (trimChars (name ++ suffix).toList) =
      (name.toList, [], suffix.toList) := by
    rw [String.toList_append, Text.trimChars_of_bare (hname.bare_append hbare)]
    rcases dissect_cases (name.toList ++ suffix.toList) with ⟨-, heq⟩ | ⟨hmem, -⟩ | ⟨hmem, -⟩
    · rw [heq, hsplit]
    all_goals
      rw [hsplit] at hmem
      exact absurd hmem hname.not_mem
  rw [parse, parseWithin_succ, hparts, List.map_nil, String.ofList_toList, String.ofList_toList]

/-- A name with arguments has a bracket in its text. -/
theorem mem_render {tree : TypeName} (h : tree.args ≠ []) : '<' ∈ tree.render.toList := by
  obtain ⟨base, args, suffix⟩ := tree
  cases args with
  | nil => exact absurd rfl h
  | cons arg args => simp [render]

/-- **The base of a name, from its text**: if that is a plain name with modifiers behind it, the
base is the plain name. -/
theorem parsed_base {tree : TypeName} (htree : tree.Parsed) {name suffix : String}
    (hname : Plain name) (hmodifiers : Modifiers suffix.toList.reverse)
    (hrender : tree.render = name ++ suffix) : tree.base = name := by
  have hnot : '<' ∉ (name ++ suffix).toList := by
    rw [String.toList_append, List.mem_append, not_or]
    refine ⟨hname.not_mem, fun hmem => ?_⟩
    have hchar := hmodifiers.mem '<' (List.mem_reverse.2 hmem)
    exact absurd hchar (by decide)
  rw [← hrender] at hnot
  have hargs : tree.args = [] := by
    by_contra hargs
    exact hnot (mem_render hargs)
  obtain ⟨base, args, rest⟩ := tree
  obtain rfl : args = [] := hargs
  obtain ⟨written, hwritten⟩ := htree
  rw [parse, parseWithin_succ, TypeName.mk.injEq] at hwritten
  obtain ⟨hbase, hargs, hrest⟩ := hwritten
  -- Both texts are split where their modifiers start, and they are the same.
  have hsplit : (splitSuffix (base ++ rest).toList).1 = base.toList := by
    rcases dissect_cases (trimChars written.toList) with ⟨-, heq⟩ | ⟨hmem, heq⟩ | ⟨-, hne, -⟩
    · rw [heq] at hbase hrest
      rw [← hbase, ← hrest, String.toList_append, String.toList_ofList, String.toList_ofList,
        splitSuffix_parts]
    · obtain ⟨-, -, -, hfront⟩ := splitSuffix_spec (trimChars written.toList)
      rw [heq] at hbase
      refine absurd ?_ hnot
      rw [render, String.toList_append, ← hbase, String.toList_ofList]
      exact List.mem_append_left _ (hfront.subset hmem)
    · exact absurd (List.map_eq_nil_iff.1 hargs) hne
  rw [render] at hrender
  rw [hrender, String.toList_append, splitSuffix_append hname.stuck hmodifiers] at hsplit
  exact (String.toList_inj.1 hsplit).symm

end FactGraph.TypeName
