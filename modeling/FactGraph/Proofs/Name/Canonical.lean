import FactGraph.Proofs.Name.TypeName

/-!
# Canonical names

Reading a name and writing it again gives its canonical text: blanks around the parts are gone, and
the arguments stand behind a comma and a space. The canonical text is read as the same tree, for
every name whatsoever, so it tells two trees apart.

What carries the argument is the depth of brackets. A list of arguments is divided at the commas
outside of all brackets, so an argument has no such comma, and all its brackets are closed
(`Argument`). Putting an argument into canonical form keeps it so: the base in front of its first
bracket is closed by itself, its own arguments stand one level deeper, and there is no comma among
the modifiers behind it.

## Main definitions

* `depthAfter`: how many brackets are open behind a text
* `Argument`: a text that can stand in a list of arguments
* `assemble`: the text of a base, arguments and a suffix

## Main results

* `dissect_assemble`: a name whose arguments are replaced is taken apart as before
* `parse_render_parsed`: the tree of a written name is read back from its text
* `parse_stable`: canonical texts are stable, and tell trees apart
-/

namespace FactGraph

namespace Text

/-- Trimming takes away blanks in front and behind, and nothing else. -/
theorem exists_trimChars (cs : List Char) :
    ∃ front back, cs = front ++ trimChars cs ++ back ∧
      (∀ c ∈ front, isBlankChar c) ∧ ∀ c ∈ back, isBlankChar c := by
  let rest := cs.dropWhile isBlankChar
  refine ⟨cs.takeWhile isBlankChar, (rest.reverse.takeWhile isBlankChar).reverse, ?_,
    fun c hc => List.mem_takeWhile_imp hc,
    fun c hc => List.mem_takeWhile_imp (List.mem_reverse.1 hc)⟩
  have hback : trimChars cs ++ (rest.reverse.takeWhile isBlankChar).reverse = rest := by
    rw [trimChars, trimEndChars, trimStartChars, ← List.reverse_append,
      List.takeWhile_append_dropWhile, List.reverse_reverse]
  rw [List.append_assoc, hback, List.takeWhile_append_dropWhile]

/-- Texts without blanks at their ends, one behind the other. -/
theorem Bare.append_bare {front back : List Char} (hfront : Bare front) (hback : Bare back) :
    Bare (front ++ back) := by
  constructor
  · intro c hc
    rcases List.head?_append ▸ hc |> Option.or_eq_some_iff.1 with hc | ⟨-, hc⟩
    · exact hfront.1 c hc
    · exact hback.1 c hc
  · intro c hc
    rcases List.getLast?_append ▸ hc |> Option.or_eq_some_iff.1 with hc | ⟨-, hc⟩
    · exact hback.2 c hc
    · exact hfront.2 c hc

/-- A blank in front is trimmed away. -/
theorem trimChars_cons_blank {c : Char} (hc : isBlankChar c) (cs : List Char) :
    trimChars (c :: cs) = trimChars cs := by
  rw [trimChars, trimStartChars, List.dropWhile_cons, if_pos hc, ← trimStartChars, ← trimChars]

end Text

namespace TypeName

open Text (isBlankChar trimChars trimEndChars trimStartChars Bare)

/-! ## The depth of brackets -/

/-- **The number of brackets that are open behind a text**, when `depth` of them are open in front
of it. There is none if a bracket is closed that was not opened, or at a comma outside of all
brackets. -/
def depthAfter : Nat → List Char → Option Nat
  | depth, [] => some depth
  | depth, c :: cs =>
    if c == ',' && depth == 0 then none
    else if isOpening c then depthAfter (depth + 1) cs
    else if isClosing c then
      match depth with
      | 0 => none
      | outer + 1 => depthAfter outer cs
    else depthAfter depth cs

theorem depthAfter_append (depth : Nat) (front back : List Char) :
    depthAfter depth (front ++ back) = (depthAfter depth front).bind (depthAfter · back) := by
  fun_induction depthAfter depth front <;> simp_all [depthAfter]

/-- The character opens and closes nothing. -/
def IsFlat (c : Char) : Prop :=
  isOpening c = false ∧ isClosing c = false

/-- A text without brackets leaves the depth as it is, unless a comma stands outside of all
brackets. -/
theorem depthAfter_flat {cs : List Char} (hflat : ∀ c ∈ cs, IsFlat c) (depth : Nat) :
    depthAfter depth cs = if depth = 0 ∧ ',' ∈ cs then none else some depth := by
  induction cs with
  | nil => simp [depthAfter]
  | cons c cs ih =>
    obtain ⟨hopening, hclosing⟩ := hflat c (by simp)
    have hrest := ih fun d hd => hflat d (by simp [hd])
    by_cases hcomma : c = ','
    · subst hcomma
      cases depth <;> simp_all [depthAfter]
    · simp_all [depthAfter, Ne.symm hcomma]

theorem isFlat_of_isBlankChar {c : Char} (hc : isBlankChar c) : IsFlat c ∧ c ≠ ',' := by
  refine ⟨⟨?_, ?_⟩, ?_⟩
  · simp only [isOpening, Bool.or_eq_false_iff, beq_eq_false_iff_ne]
    constructor <;> rintro rfl <;> exact absurd hc (by decide)
  · simp only [isClosing, Bool.or_eq_false_iff, beq_eq_false_iff_ne]
    constructor <;> rintro rfl <;> exact absurd hc (by decide)
  · rintro rfl
    exact absurd hc (by decide)

theorem depthAfter_blanks {cs : List Char} (h : ∀ c ∈ cs, isBlankChar c) (depth : Nat) :
    depthAfter depth cs = some depth := by
  have hcomma : ',' ∉ cs := fun hmem => (isFlat_of_isBlankChar (h ',' hmem)).2 rfl
  rw [depthAfter_flat fun c hc => (isFlat_of_isBlankChar (h c hc)).1]
  simp [hcomma]

@[simp] theorem depthAfter_trimChars (depth : Nat) (cs : List Char) :
    depthAfter depth (trimChars cs) = depthAfter depth cs := by
  obtain ⟨front, back, hcs, hfront, hback⟩ := Text.exists_trimChars cs
  conv_rhs => rw [hcs]
  simp [depthAfter_append, depthAfter_blanks hfront, depthAfter_blanks hback]

/-- Modifiers open and close nothing. -/
theorem Modifiers.isFlat {cs : List Char} (h : Modifiers cs) : ∀ c ∈ cs, IsFlat c := by
  intro c hc
  rcases h.mem c hc with hblank | hmark
  · exact (isFlat_of_isBlankChar hblank).1
  · simp only [List.mem_cons, List.not_mem_nil, or_false] at hmark
    rcases hmark with rfl | rfl | rfl | rfl <;> exact ⟨by decide, by decide⟩

/-- Modifiers behind which all brackets are closed stand outside of all brackets, so there is no
comma among them. -/
theorem Modifiers.depth_eq_zero {raw : List Char} (h : Modifiers raw.reverse) {depth : Nat}
    (hclosed : depthAfter depth raw = some 0) : depth = 0 ∧ ',' ∉ raw := by
  rw [depthAfter_flat fun c hc => h.isFlat c (List.mem_reverse.2 hc)] at hclosed
  split at hclosed
  · cases hclosed
  next hcomma =>
    obtain rfl : depth = 0 := Option.some.inj hclosed
    exact ⟨rfl, by simpa using hcomma⟩

/-! ## Lists of arguments -/

/-- A text that closes its brackets and has no comma outside of them is part of one piece. -/
theorem splitArgumentsFrom_append {depth after : Nat} {front : List Char}
    (h : depthAfter depth front = some after) (back : List Char) :
    splitArgumentsFrom depth (front ++ back) =
      (splitArgumentsFrom after back).map fun parts => (front ++ parts.1, parts.2) := by
  fun_induction depthAfter depth front generalizing after <;>
    simp_all [splitArgumentsFrom, Function.comp_def]

/-- The pieces of a list close their brackets and have no comma outside of them. -/
theorem depthAfter_of_splitArgumentsFrom {depth : Nat} {cs piece : List Char}
    {pieces : List (List Char)} (h : splitArgumentsFrom depth cs = some (piece, pieces)) :
    depthAfter depth piece = some 0 ∧ ∀ other ∈ pieces, depthAfter 0 other = some 0 := by
  fun_induction splitArgumentsFrom depth cs generalizing piece pieces with
  | case1 => simp_all [depthAfter]
  | case2 => cases h
  | case5 => cases h
  -- Either a piece ends here, or the first piece has the character in front.
  | case3 _ _ _ _ ih | case4 _ _ _ _ _ ih | case6 _ _ _ _ _ _ ih | case7 _ _ _ _ _ _ ih =>
    simp only [Option.map_eq_some_iff, Prod.mk.injEq, Prod.exists] at h
    obtain ⟨first, others, hrest, rfl, rfl⟩ := h
    have hpieces := ih hrest
    simp_all [depthAfter]

/-- A list of arguments closes its brackets, seen from inside of a bracket. -/
theorem depthAfter_of_arguments {depth : Nat} {cs : List Char}
    {parts : List Char × List (List Char)} (h : splitArgumentsFrom depth cs = some parts)
    (outer : Nat) : depthAfter (depth + outer + 1) cs = some (outer + 1) := by
  fun_induction splitArgumentsFrom depth cs generalizing parts with
  | case1 => simp [depthAfter]
  | case2 => cases h
  | case5 => cases h
  | case3 _ _ _ _ ih | case4 _ _ _ _ _ ih | case6 _ _ _ _ _ _ ih | case7 _ _ _ _ _ _ ih =>
    obtain ⟨rest, hrest, -⟩ := Option.map_eq_some_iff.1 h
    have hafter := ih hrest
    rw [depthAfter]
    simp_all [isOpening, isClosing, Nat.add_right_comm]

/-- **A text that can stand in a list of arguments**: it is not empty, has no blanks at its ends,
closes its brackets and has no comma outside of them. -/
structure Argument (text : List Char) : Prop where
  ne_nil : text ≠ []
  bare : Bare text
  closed : depthAfter 0 text = some 0

/-- The arguments of a list can stand in a list. -/
theorem argument_of_splitArguments {inner : List Char} {arguments : List (List Char)}
    (h : splitArguments inner = some arguments) : ∀ text ∈ arguments, Argument text := by
  unfold splitArguments at h
  split at h
  · cases h
  next piece pieces hpieces =>
    dsimp only at h
    split at h
    · cases h
    next hempty =>
      cases h
      obtain ⟨hfirst, hothers⟩ := depthAfter_of_splitArgumentsFrom hpieces
      intro text htext
      have hne : text ≠ [] := by
        rintro rfl
        exact hempty (List.any_eq_true.2 ⟨[], htext, rfl⟩)
      obtain ⟨raw, hraw, rfl⟩ := List.mem_map.1 htext
      refine ⟨hne, Text.bare_trimChars raw, ?_⟩
      rw [depthAfter_trimChars]
      rcases List.mem_cons.1 hraw with rfl | hraw
      · exact hfirst
      · exact hothers raw hraw

/-- What stands between two arguments. -/
def comma : List Char := [',', ' ']

/-- Texts that close their brackets are divided at the commas between them. -/
theorem splitArgumentsFrom_intercalate {first : List Char} {others : List (List Char)}
    (h : ∀ text ∈ first :: others, depthAfter 0 text = some 0) :
    splitArgumentsFrom 0 (comma.intercalate (first :: others)) =
      some (first, others.map (' ' :: ·)) := by
  induction others generalizing first with
  | nil =>
    have hsplit := splitArgumentsFrom_append (h first (by simp)) []
    simpa [splitArgumentsFrom, List.intercalate] using hsplit
  | cons second others ih =>
    have hrest := ih fun text htext => h text (List.mem_cons_of_mem _ htext)
    have hblank : splitArgumentsFrom 0 (' ' :: comma.intercalate (second :: others)) =
        some (' ' :: second, others.map (' ' :: ·)) := by
      rw [splitArgumentsFrom, hrest]
      simp [isOpening, isClosing]
    rw [List.intercalate_cons_cons, List.append_assoc,
      splitArgumentsFrom_append (h first (by simp))]
    simp [comma, splitArgumentsFrom] at hblank ⊢
    simp [hblank]

/-- **Arguments behind commas are read as the same arguments.** -/
theorem splitArguments_intercalate {texts : List (List Char)} (hne : texts ≠ [])
    (h : ∀ text ∈ texts, Argument text) :
    splitArguments (comma.intercalate texts) = some texts := by
  obtain ⟨first, others, rfl⟩ := List.exists_cons_of_ne_nil hne
  have htrim : ∀ text ∈ first :: others, trimChars text = text := fun text htext =>
    Text.trimChars_of_bare (h text htext).bare
  have hblank : others.map (fun text => trimChars (' ' :: text)) = others := by
    refine (List.map_congr_left fun text htext => ?_).trans (List.map_id _)
    rw [Text.trimChars_cons_blank (by decide)]
    exact htrim text (List.mem_cons_of_mem _ htext)
  have hempty : (first :: others).any List.isEmpty = false := by
    rw [List.any_eq_false]
    intro text htext
    simpa using (h text htext).ne_nil
  rw [splitArguments, splitArgumentsFrom_intercalate fun text htext => (h text htext).closed]
  dsimp only
  rw [List.map_cons, List.map_map, Function.comp_def, hblank, htrim first (by simp), hempty]
  rfl

/-! ## The parts of a name -/

/-- The text of a base, arguments and a suffix. -/
def assemble (base : List Char) (texts : List (List Char)) (suffix : List Char) : List Char :=
  if texts = [] then base ++ suffix
  else base ++ '<' :: (comma.intercalate texts ++ '>' :: suffix)

theorem toList_renderTail (args : List TypeName) (first : List Char) :
    first ++ (renderTail args).toList =
      comma.intercalate (first :: args.map fun arg => arg.render.toList) := by
  induction args generalizing first with
  | nil => simp [renderTail, List.intercalate]
  | cons arg args ih =>
    rw [List.map_cons, List.intercalate_cons_cons, ← ih]
    simp [renderTail, comma]

/-- **The canonical text of a tree**, from those of its arguments. -/
theorem toList_render (tree : TypeName) :
    tree.render.toList = assemble tree.base.toList (tree.args.map fun arg => arg.render.toList)
      tree.suffix.toList := by
  obtain ⟨base, args, suffix⟩ := tree
  cases args with
  | nil => simp [render, assemble]
  | cons arg args =>
    rw [render, assemble, if_neg (by simp), List.map_cons, ← toList_renderTail]
    simp

/-- The modifiers of a name, before they are trimmed. -/
theorem exists_suffix (name : List Char) :
    ∃ raw, name = (splitSuffix name).1 ++ raw ∧ Modifiers raw.reverse ∧
      (splitSuffix name).2 = trimChars raw := by
  obtain ⟨front, rest, hname, hfront, hrest⟩ := exists_modifiers name.reverse
  have hsplit : name = rest.reverse ++ front.reverse := by
    rw [← List.reverse_append, ← hname, List.reverse_reverse]
  rw [hsplit, splitSuffix_append (by simpa using hrest) (by simpa using hfront)]
  exact ⟨front.reverse, rfl, by simpa using hfront, rfl⟩

/-- What is in front of the modifiers has no blanks at its ends. -/
theorem bare_body {trimmed : List Char} (hbare : Bare trimmed) :
    Bare (splitSuffix trimmed).1 := by
  obtain ⟨hstuck, -, -, hfront⟩ := splitSuffix_spec trimmed
  constructor
  · intro c hc
    obtain ⟨back, hback⟩ := hfront
    refine hbare.1 c ?_
    rw [← hback, List.head?_append, Option.mem_def.1 hc]
    rfl
  · intro c hc
    exact (hstuck.1 c (by rwa [List.head?_reverse])).2

/-- **A name with arguments** is a base in front of its first bracket, a list of arguments up to
the last one, and modifiers. -/
theorem exists_of_dissect {trimmed : List Char} (h : (dissect trimmed).2.1 ≠ []) :
    ∃ front inner, '<' ∉ front ∧
      (splitSuffix trimmed).1 = front ++ '<' :: (inner ++ ['>']) ∧
      splitArguments inner = some (dissect trimmed).2.1 ∧
      (dissect trimmed).1 = trimChars front ∧ (dissect trimmed).2.2 = (splitSuffix trimmed).2 := by
  unfold dissect at h ⊢
  generalize splitSuffix trimmed = parts at h ⊢
  obtain ⟨body, suffix⟩ := parts
  dsimp only at h ⊢
  split at h
  · exact absurd rfl h
  next c rest hdrop =>
    split at h
    next hlast =>
      split at h
      next arguments harguments =>
        have hbody := List.takeWhile_append_dropWhile (p := (· != '<')) (l := body)
        have hc : c = '<' := by
          have hhead := List.head?_dropWhile_not (· != '<') body
          rw [hdrop] at hhead
          simpa using hhead
        have hrest : rest.dropLast ++ ['>'] = rest := by
          obtain ⟨front, rfl⟩ := List.getLast?_eq_some_iff.1 hlast
          simp
        refine ⟨body.takeWhile (· != '<'), rest.dropLast, ?_, ?_, ?_⟩
        · intro hmem
          simpa using List.mem_takeWhile_imp hmem
        · rw [hrest]
          rwa [hdrop, hc, eq_comm] at hbody
        · simp [hlast, harguments]
      · exact absurd rfl h
    · exact absurd rfl h

/-- A base, arguments and a suffix, put together, are taken apart again. -/
theorem dissect_arguments {base suffix : List Char} {texts : List (List Char)}
    (hbase : '<' ∉ base) (hbare : Bare base) (hne : texts ≠ [])
    (htexts : ∀ text ∈ texts, Argument text) (hsuffix : Modifiers suffix.reverse)
    (hsuffix' : Bare suffix) :
    dissect (assemble base texts suffix) = (base, texts, suffix) := by
  let body := base ++ '<' :: (comma.intercalate texts ++ ['>'])
  have hstuck : Stuck body.reverse := by
    constructor
    · intro c hc
      obtain rfl : c = '>' := by simpa [body, eq_comm] using hc
      decide
    · rintro ⟨rank, rest, -, heq⟩
      simp [body] at heq
  have hsplit : splitSuffix (assemble base texts suffix) = (body, suffix) := by
    have htext : assemble base texts suffix = body ++ suffix := by simp [assemble, hne, body]
    rw [htext, splitSuffix_append hstuck hsuffix, Text.trimChars_of_bare hsuffix']
  have hall : ∀ c ∈ base, (c != '<') = true := by
    intro c hc
    simp only [bne_iff_ne]
    rintro rfl
    exact hbase hc
  have htake : body.takeWhile (· != '<') = base := by
    rw [List.takeWhile_append_of_pos hall]
    simp
  have hdrop : body.dropWhile (· != '<') = '<' :: (comma.intercalate texts ++ ['>']) := by
    rw [List.dropWhile_append_of_pos hall]
    simp
  rw [dissect, hsplit]
  simp [htake, hdrop, splitArguments_intercalate hne htexts, Text.trimChars_of_bare hbare]

/-- A base, arguments and a suffix, put together, have no blanks at their ends. -/
theorem bare_assemble {base suffix : List Char} {texts : List (List Char)} (hbase : Bare base)
    (hne : texts ≠ []) (hsuffix : Bare suffix) : Bare (assemble base texts suffix) := by
  let middle := '<' :: (comma.intercalate texts ++ ['>'])
  have htext : assemble base texts suffix = base ++ (middle ++ suffix) := by
    simp [assemble, hne, middle]
  have hmiddle : Bare middle := by
    constructor
    · rintro c ⟨⟩
      decide
    · intro c hc
      obtain rfl : c = '>' := by simpa [middle, List.getLast?_cons, eq_comm] using hc
      decide
  rw [htext]
  exact hbase.append_bare (hmiddle.append_bare hsuffix)

/-- A base that closes its brackets, arguments and a suffix without commas, put together, can stand
in a list of arguments: the inner arguments are one level deeper. -/
theorem argument_assemble {base suffix : List Char} {texts : List (List Char)}
    (hbase : Bare base) (hclosed : depthAfter 0 base = some 0) (hne : texts ≠ [])
    (htexts : ∀ text ∈ texts, Argument text) (hsuffix : Bare suffix)
    (hmodifiers : Modifiers suffix.reverse) (hcomma : ',' ∉ suffix) :
    Argument (assemble base texts suffix) := by
  refine ⟨by simp [assemble, hne], bare_assemble hbase hne hsuffix, ?_⟩
  have hlist : depthAfter 1 (comma.intercalate texts) = some 1 := by
    obtain ⟨first, others, rfl⟩ := List.exists_cons_of_ne_nil hne
    exact depthAfter_of_arguments
      (splitArgumentsFrom_intercalate fun text htext => (htexts text htext).closed) 0
  have hback : depthAfter 0 suffix = some 0 := by
    rw [depthAfter_flat fun c hc => hmodifiers.isFlat c (List.mem_reverse.2 hc)]
    simp [hcomma]
  rw [assemble, if_neg hne]
  simp [depthAfter_append, depthAfter, isOpening, isClosing, hclosed, hlist, hback]

/-- The base of a name that closes its brackets closes its own. -/
theorem closed_base {front inner raw : List Char} {texts : List (List Char)}
    (hinner : splitArguments inner = some texts) (hraw : Modifiers raw.reverse)
    (h : depthAfter 0 (front ++ '<' :: (inner ++ '>' :: raw)) = some 0) :
    depthAfter 0 front = some 0 := by
  obtain ⟨parts, hparts⟩ : ∃ parts, splitArgumentsFrom 0 inner = some parts := by
    unfold splitArguments at hinner
    split at hinner
    · cases hinner
    next hparts => exact ⟨_, hparts⟩
  rw [depthAfter_append] at h
  obtain ⟨depth, hfront, h⟩ := Option.bind_eq_some_iff.1 h
  -- The list of arguments leaves the bracket in front of it open, and nothing else.
  have hmiddle := depthAfter_of_arguments hparts depth
  rw [Nat.zero_add] at hmiddle
  have hback : depthAfter depth raw = some 0 := by
    simpa [depthAfter, depthAfter_append, isOpening, isClosing, hmiddle] using h
  rw [hfront, (hraw.depth_eq_zero hback).1]

/-- There is no comma among the modifiers of an argument. -/
theorem Argument.comma_notMem {text : List Char} (h : Argument text) :
    ',' ∉ (splitSuffix text).2 := by
  obtain ⟨raw, htext, hraw, hsuffix⟩ := exists_suffix text
  have hclosed := h.closed
  rw [htext, depthAfter_append] at hclosed
  obtain ⟨depth, -, hback⟩ := Option.bind_eq_some_iff.1 hclosed
  have hcomma := (hraw.depth_eq_zero hback).2
  obtain ⟨front, back, hsplit, -⟩ := Text.exists_trimChars raw
  rw [hsuffix]
  intro hmem
  exact hcomma (hsplit ▸ by simp [hmem])

/-- **A name whose arguments are replaced** is taken apart as before. If the name can stand in a
list of arguments, the new one can. -/
theorem dissect_assemble {trimmed : List Char} (hbare : Bare trimmed) {texts : List (List Char)}
    (htexts : ∀ text ∈ texts, Argument text) (hnil : texts = [] ↔ (dissect trimmed).2.1 = []) :
    Bare (assemble (dissect trimmed).1 texts (dissect trimmed).2.2) ∧
      dissect (assemble (dissect trimmed).1 texts (dissect trimmed).2.2) =
        ((dissect trimmed).1, texts, (dissect trimmed).2.2) ∧
      (Argument trimmed →
        Argument (assemble (dissect trimmed).1 texts (dissect trimmed).2.2)) := by
  obtain ⟨-, hmodifiers, hsuffix, -⟩ := splitSuffix_spec trimmed
  obtain ⟨raw, hraw, hrawModifiers, htrim⟩ := exists_suffix trimmed
  rcases dissect_cases trimmed with ⟨hmem, heq⟩ | ⟨-, heq⟩ | ⟨-, hne, -, heq⟩
  · -- Without a bracket, the body and the modifiers are put together again.
    obtain rfl : texts = [] := hnil.2 (by rw [heq])
    rw [heq]
    dsimp only
    rw [assemble, if_pos rfl]
    have hwhole := (bare_body hbare).append_bare hsuffix
    refine ⟨hwhole, ?_, fun h => ⟨?_, hwhole, ?_⟩⟩
    · rcases dissect_cases ((splitSuffix trimmed).1 ++ (splitSuffix trimmed).2) with
        ⟨-, hparts⟩ | ⟨hnot, -⟩ | ⟨hnot, -⟩
      · rw [hparts, splitSuffix_parts]
      all_goals
        rw [splitSuffix_parts] at hnot
        exact absurd hnot hmem
    · intro hempty
      obtain ⟨hbody, hback⟩ := List.append_eq_nil_iff.1 hempty
      apply h.ne_nil
      rw [← Text.trimChars_of_bare hbare, hraw, hbody, List.nil_append, ← htrim, hback]
    · have hclosed := h.closed
      rw [hraw, depthAfter_append] at hclosed
      rw [depthAfter_append, htrim]
      simpa using hclosed
  · -- A name that is kept whole is its own text.
    obtain rfl : texts = [] := hnil.2 (by rw [heq])
    rw [heq]
    dsimp only
    rw [assemble, if_pos rfl, List.append_nil]
    exact ⟨hbare, heq, id⟩
  · obtain ⟨front, inner, hfront, hbody, hinner, hbase, -⟩ := exists_of_dissect hne
    have hne' : texts ≠ [] := fun h => hne (hnil.1 h)
    have hbracket : '<' ∉ trimChars front := by
      obtain ⟨before, after, hsplit, -⟩ := Text.exists_trimChars front
      exact fun hmem => hfront (hsplit ▸ by simp [hmem])
    have htrimmed := Text.bare_trimChars front
    rw [heq, hbase]
    refine ⟨bare_assemble htrimmed hne' hsuffix,
      dissect_arguments hbracket htrimmed hne' htexts hmodifiers hsuffix, fun h => ?_⟩
    have hclosed := h.closed
    rw [hraw, hbody] at hclosed
    have hfrontClosed := closed_base hinner hrawModifiers (by simpa using hclosed)
    exact argument_assemble htrimmed (by simpa using hfrontClosed) hne' htexts hsuffix hmodifiers
      h.comma_notMem

/-! ## Reading canonical texts -/

-- From here on, a name is read by `parse_eq` only.
attribute [local irreducible] parse

/-- **The tree of a name**, from the trees of its arguments. -/
theorem parse_eq (name : String) :
    parse name = ⟨String.ofList (dissect (trimChars name.toList)).1,
      (dissect (trimChars name.toList)).2.1.map fun text => parse (String.ofList text),
      String.ofList (dissect (trimChars name.toList)).2.2⟩ := by
  have hargs : (dissect (trimChars name.toList)).2.1.map (parseWithin name.toList.length) =
      (dissect (trimChars name.toList)).2.1.map fun text => parse (String.ofList text) := by
    refine List.map_congr_left fun text htext => ?_
    have hshorter := length_of_mem_dissect htext
    have htrimmed := length_trimChars_le name.toList
    rw [parse, String.toList_ofList]
    exact parseWithin_eq (by omega) (by omega)
  rw [parse, parseWithin_succ, hargs]

/-- The arguments of a name can stand in a list of arguments. -/
theorem argument_of_mem_dissect {trimmed text : List Char}
    (h : text ∈ (dissect trimmed).2.1) : Argument text := by
  obtain ⟨_, inner, -, -, hinner, -⟩ := exists_of_dissect (List.ne_nil_of_mem h)
  exact argument_of_splitArguments hinner text h

/-- The canonical text of a name, from those of its arguments. -/
theorem toList_render_parse (name : String) :
    (parse name).render.toList = assemble (dissect (trimChars name.toList)).1
      ((dissect (trimChars name.toList)).2.1.map fun text =>
        (parse (String.ofList text)).render.toList)
      (dissect (trimChars name.toList)).2.2 := by
  rw [toList_render, parse_eq name]
  simp only [String.toList_ofList, List.map_map, Function.comp_def]

/-- **The canonical text of a name is read as the same tree**, and can stand in a list of arguments
if the name can. -/
theorem parse_render_parse (name : String) :
    parse (parse name).render = parse name ∧
      (Argument name.toList → Argument (parse name).render.toList) := by
  induction hlength : name.toList.length using Nat.strong_induction_on generalizing name with
  | _ length ih =>
    subst hlength
    -- The arguments are shorter, so their canonical texts are read as the same trees.
    have hread : ∀ text ∈ (dissect (trimChars name.toList)).2.1,
        parse (parse (String.ofList text)).render = parse (String.ofList text) ∧
          Argument (parse (String.ofList text)).render.toList := by
      intro text htext
      have hshorter := length_of_mem_dissect htext
      have htrimmed := length_trimChars_le name.toList
      obtain ⟨hstable, hargument⟩ := ih text.length (by omega) (String.ofList text) (by simp)
      refine ⟨hstable, hargument ?_⟩
      rw [String.toList_ofList]
      exact argument_of_mem_dissect htext
    have htexts : ∀ text ∈ (dissect (trimChars name.toList)).2.1.map
        (fun text => (parse (String.ofList text)).render.toList), Argument text := by
      intro text htext
      obtain ⟨raw, hraw, rfl⟩ := List.mem_map.1 htext
      exact (hread raw hraw).2
    obtain ⟨hbare, hparts, hkept⟩ := dissect_assemble (Text.bare_trimChars name.toList) htexts
      List.map_eq_nil_iff
    rw [← toList_render_parse] at hbare hparts hkept
    constructor
    · have hargs : (dissect (trimChars name.toList)).2.1.map
          (fun text => parse (String.ofList (parse (String.ofList text)).render.toList)) =
            (dissect (trimChars name.toList)).2.1.map fun text => parse (String.ofList text) :=
        List.map_congr_left fun text htext => by
          rw [String.ofList_toList]
          exact (hread text htext).1
      rw [parse_eq (parse name).render, Text.trimChars_of_bare hbare, hparts, List.map_map,
        Function.comp_def, hargs, ← parse_eq]
    · intro h
      rw [Text.trimChars_of_bare h.bare] at hkept
      exact hkept h

/-- **The tree of a written name is read back from its text.** -/
theorem parse_render_parsed {tree : TypeName} (h : tree.Parsed) : parse tree.render = tree := by
  obtain ⟨name, rfl⟩ := h
  exact (parse_render_parse name).1

/-- **Canonical texts are stable**: whatever a name is, its canonical text is read as the same tree
and is its own canonical text. So two names have the same canonical text just when they have the
same tree. -/
theorem parse_stable (name : String) :
    parse (parse name).render = parse name ∧
      (parse (parse name).render).render = (parse name).render ∧
      ∀ other, (parse name).render = (parse other).render ↔ parse name = parse other := by
  have hstable := parse_render_parsed (parsed_parse name)
  refine ⟨hstable, by rw [hstable], fun other => ⟨fun h => ?_, fun h => by rw [h]⟩⟩
  calc parse name = parse (parse name).render := hstable.symm
    _ = parse (parse other).render := by rw [h]
    _ = parse other := parse_render_parsed (parsed_parse other)

end TypeName

end FactGraph
