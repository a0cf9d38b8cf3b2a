import FactGraph.Files.Tree
import Mathlib.Data.List.Infix

/-!
# What a change of a tree leaves alone

A path is followed through directories only, so it leads to the same place in a tree with more
directories (`walk_mono`). Writing a file takes no directory away, and neither does moving one
within its directory: what the old name held, the new one holds (`isDirectory_move`).

Two names in one directory are located alike, so whatever happens to the one, the other is found
where it would have been (`locate?_join`).

## Main definitions

* `FileTree.Keeps`: all directories of the one tree are directories of the other one

## Main results

* `keeps_putFile`, `keeps_move`: what a write and a move keep
* `locate?_join`: the place of a name in a directory
-/

namespace FactGraph.FileTree

variable {tree tree' : FileTree}

/-! ## Files -/

theorem lookup_putFile (place : List String) (contents : String)
    (files : List (List String × String)) :
    (putFile place contents files).lookup place = some contents := by
  induction files with
  | nil => simp [putFile]
  | cons file files ih =>
    rw [putFile]
    split
    · simp
    next hne =>
      rw [List.lookup_cons, beq_false_of_ne (Ne.symm hne)]
      exact ih

/-- The places of the files after a write. -/
theorem mem_putFile {place other : List String} {contents : String}
    {files : List (List String × String)} :
    other ∈ (putFile place contents files).map Prod.fst ↔
      other = place ∨ other ∈ files.map Prod.fst := by
  induction files with
  | nil => simp [putFile]
  | cons file files ih =>
    rw [putFile]
    split
    next heq => simp [heq]
    next => simp [ih, or_left_comm]

/-! ## Directories -/

/-- All directories of the one tree are directories of the other one. -/
def Keeps (tree tree' : FileTree) : Prop :=
  ∀ place, tree.isDirectory place = true → tree'.isDirectory place = true

theorem holds_iff {place : List String} :
    tree.holds place = true ↔
      ∃ other ∈ tree.places, place <+: other ∧ place.length < other.length := by
  simp [holds]

/-- A directory stays one if what is inside of it stays, or something else takes its place. -/
theorem keeps_of_places (hdirectories : tree'.directories = tree.directories)
    (hplaces : ∀ place, ∀ other ∈ tree.places, place <+: other → place.length < other.length →
      ∃ other ∈ tree'.places, place <+: other ∧ place.length < other.length) :
    tree.Keeps tree' := by
  intro place hplace
  simp only [isDirectory, Bool.or_eq_true, hdirectories] at hplace ⊢
  refine hplace.imp id fun hholds => ?_
  obtain ⟨other, hother, hstart, hlt⟩ := holds_iff.1 hholds
  exact holds_iff.2 (hplaces place other hother hstart hlt)

/-- **Writing a file takes no directory away.** -/
theorem keeps_putFile (tree : FileTree) (place : List String) (contents : String) :
    tree.Keeps { tree with files := putFile place contents tree.files } := by
  refine keeps_of_places rfl fun _ other hother hstart hlt => ⟨other, ?_, hstart, hlt⟩
  rw [places, List.mem_append] at hother ⊢
  exact hother.imp (fun hfile => mem_putFile.2 (.inr hfile)) id

/-- A place that is properly inside of one of two siblings is inside of the other as well. -/
theorem prefix_sibling {place directory : List String} {name other : String}
    (hstart : place <+: directory ++ [name]) (hlt : place.length < (directory ++ [name]).length) :
    place <+: directory ++ [other] ∧ place.length < (directory ++ [other]).length := by
  simp only [List.length_append, List.length_singleton] at hlt ⊢
  have hinside : place <+: directory :=
    List.prefix_of_prefix_length_le hstart (List.prefix_append directory [name]) (by omega)
  exact ⟨hinside.trans (List.prefix_append directory [other]), by omega⟩

/-- **Moving a file within its directory takes no directory away.** -/
theorem keeps_move (tree : FileTree) (directory : List String) (name other : String)
    (contents : String) :
    tree.Keeps { tree with
      files := putFile (directory ++ [other]) contents
        (tree.files.filter fun file => file.1 ≠ directory ++ [name]) } := by
  refine keeps_of_places rfl fun place old hold hstart hlt => ?_
  by_cases hmoved : old = directory ++ [name]
  · subst hmoved
    obtain ⟨hstart, hlt⟩ := prefix_sibling hstart hlt
    exact ⟨directory ++ [other], List.mem_append_left _ (mem_putFile.2 (.inl rfl)), hstart, hlt⟩
  · refine ⟨old, ?_, hstart, hlt⟩
    rw [places, List.mem_append] at hold ⊢
    refine hold.imp (fun hold => mem_putFile.2 (.inr ?_)) id
    obtain ⟨file, hfile, rfl⟩ := List.mem_map.1 hold
    exact List.mem_map_of_mem (List.mem_filter.2 ⟨hfile, by simpa using hmoved⟩)

/-! ## Paths -/

/-- A path leads to the same place in a tree with more directories. -/
theorem walk_mono (h : tree.Keeps tree') {place target : List String} {components : List String}
    (hwalk : tree.walk place components = some target) :
    tree'.walk place components = some target := by
  induction components generalizing place with
  | nil => exact hwalk
  | cons component components ih =>
    rw [walk] at hwalk ⊢
    split at hwalk
    next hplace =>
      rw [if_pos (h place hplace)]
      split at hwalk
      next hhere =>
        rw [if_pos hhere]
        exact ih hwalk
      next hhere =>
        rw [if_neg hhere]
        split at hwalk
        next hup =>
          rw [if_pos hup]
          split at hwalk
          · cases hwalk
          next hinner =>
            rw [if_neg hinner]
            exact ih hwalk
        next hup =>
          rw [if_neg hup]
          exact ih hwalk
    next => cases hwalk

theorem locate?_mono (h : tree.Keeps tree') (hroot : tree'.root = tree.root) {path : String}
    {place : List String} (hlocate : tree.locate? path = some place) :
    tree'.locate? path = some place := by
  obtain ⟨components, hcomponents, hwalk⟩ := Option.bind_eq_some_iff.1 hlocate
  refine Option.bind_eq_some_iff.2 ⟨components, ?_, walk_mono h hwalk⟩
  rw [componentsBelow?, hroot]
  exact hcomponents

/-- A name that is none of those with a meaning of their own. -/
structure IsName (name : String) : Prop where
  ne_empty : name ≠ ""
  ne_here : name ≠ "."
  ne_up : name ≠ ".."
  no_slash : '/' ∉ name.toList

/-- The last component of a path is a name in the directory that the others lead to. -/
theorem walk_concat {name : String} (hname : IsName name) (place : List String)
    (components : List String) :
    tree.walk place (components ++ [name]) = (tree.walk place components).bind fun directory =>
      if tree.isDirectory directory then some (directory ++ [name]) else none := by
  induction components generalizing place with
  | nil => simp [walk, hname.ne_empty, hname.ne_here, hname.ne_up]
  | cons component components ih =>
    rw [List.cons_append, walk, walk]
    split
    · split
      · exact ih place
      · split
        · split
          · rfl
          · exact ih _
        · exact ih _
    · rfl

theorem splitAllFrom_concat {cs name : List Char} (hname : '/' ∉ name) :
    Text.splitAllFrom ['/'] 0 (cs ++ '/' :: name) =
      ((Text.splitAllFrom ['/'] 0 cs).1, (Text.splitAllFrom ['/'] 0 cs).2 ++ [name]) := by
  have hwhole : ∀ name : List Char, '/' ∉ name → Text.splitAllFrom ['/'] 0 name = (name, []) := by
    intro name hname
    induction name with
    | nil => rfl
    | cons c name ih =>
      have hc : '/' ≠ c := fun heq => hname (heq ▸ List.mem_cons_self)
      simp [Text.splitAllFrom, hc, ih fun hmem => hname (List.mem_cons_of_mem c hmem)]
  induction cs with
  | nil => simp [Text.splitAllFrom, hwhole name hname]
  | cons c cs ih =>
    by_cases hc : '/' = c
    · simp [Text.splitAllFrom, ← hc, ih]
    · simp [Text.splitAllFrom, hc, ih]

theorem components_concat {cs : List Char} {name : String} (hname : IsName name) :
    components (cs ++ '/' :: name.toList) = components cs ++ [name] := by
  simp [components, Text.splitAll, splitAllFrom_concat hname.no_slash]

/-- The root with a slash behind it is only in front of a name in a directory if it is in front of
the directory already, or is the directory. -/
theorem prefix_of_concat {root cs name : List Char} (hname : '/' ∉ name) (hne : cs ≠ root)
    (h : root ++ ['/'] <+: cs ++ '/' :: name) : root ++ ['/'] <+: cs := by
  obtain ⟨rest, hrest⟩ := h
  rw [List.append_assoc, List.singleton_append] at hrest
  rcases List.append_eq_append_iff.1 hrest with ⟨more, rfl, hmore⟩ | ⟨more, rfl, hmore⟩
  · cases more with
    | nil => exact absurd (List.append_nil root) hne
    | cons c more =>
      rw [← (List.cons.inj hmore).1]
      exact ⟨more, by simp⟩
  · -- Otherwise there would be another slash in the name.
    cases more with
    | nil => exact absurd (List.append_nil cs).symm hne
    | cons c more => exact absurd (by simp [(List.cons.inj hmore).2]) hname

/-- What a name in a directory has behind the root and a slash is what the directory has there, with
the name behind it. -/
theorem isPrefixOf?_concat {root cs name : List Char} (hname : '/' ∉ name) (hne : cs ≠ root) :
    (root ++ ['/']).isPrefixOf? (cs ++ '/' :: name) =
      ((root ++ ['/']).isPrefixOf? cs).map (· ++ '/' :: name) := by
  cases hstart : (root ++ ['/']).isPrefixOf? cs with
  | some rest =>
    have heq := List.isPrefixOf?_eq_some_iff_append_eq.1 hstart
    exact List.isPrefixOf?_eq_some_iff_append_eq.2 (by rw [← heq, List.append_assoc (_ ++ _)])
  | none =>
    refine Option.eq_none_iff_forall_ne_some.2 fun rest hrest => ?_
    have hlong := List.isPrefixOf?_eq_some_iff_append_eq.1 hrest
    obtain ⟨left, hleft⟩ := prefix_of_concat hname hne ⟨rest, hlong⟩
    rw [List.isPrefixOf?_eq_some_iff_append_eq.2 hleft] at hstart
    cases hstart

/-- The components of a name in a directory. -/
theorem componentsBelow?_join {directory name : String} (hname : IsName name)
    (hdirectory : directory ≠ "") (hroot : directory ++ "/" ++ name ≠ tree.root) :
    tree.componentsBelow? (directory ++ "/" ++ name) =
      (tree.componentsBelow? directory).map (· ++ [name]) := by
  have htoList : (directory ++ "/" ++ name).toList = directory.toList ++ '/' :: name.toList := by
    simp
  have hbelow (rest : List Char) : (tree.root ++ "/").toList.isPrefixOf? rest =
      (tree.root.toList ++ ['/']).isPrefixOf? rest := by simp
  rw [componentsBelow?, if_neg hroot, htoList, hbelow]
  by_cases hhere : directory = tree.root
  · have hfound : (tree.root.toList ++ ['/']).isPrefixOf? (directory.toList ++ '/' :: name.toList) =
        some name.toList :=
      List.isPrefixOf?_eq_some_iff_append_eq.2 (by simp [hhere])
    have hwhole : components name.toList = [name] := by
      simpa [components, Text.splitAll, Text.splitAllFrom] using @components_concat [] name hname
    rw [hfound, componentsBelow?, if_pos hhere]
    simp [hwhole]
  · have hne : directory.toList ≠ tree.root.toList := fun heq => hhere (String.toList_inj.1 heq)
    have habsolute : isAbsolutePath (directory ++ "/" ++ name) = isAbsolutePath directory := by
      obtain ⟨c, cs, hcs⟩ := List.exists_cons_of_ne_nil (mt String.toList_eq_nil_iff.1 hdirectory)
      rw [isAbsolutePath, isAbsolutePath, htoList, hcs]
      rfl
    rw [componentsBelow?, if_neg hhere, hbelow, isPrefixOf?_concat hname.no_slash hne]
    cases (tree.root.toList ++ ['/']).isPrefixOf? directory.toList with
    | some rest => exact congrArg some (components_concat hname)
    | none =>
      rw [Option.map_none]
      dsimp only
      rw [habsolute]
      split
      · rfl
      · exact congrArg some (components_concat hname)

/-- **The place of a name in a directory**, which the place of the directory does not depend on. -/
theorem locate?_join {directory name : String} (hname : IsName name)
    (hdirectory : directory ≠ "") (hroot : directory ++ "/" ++ name ≠ tree.root) :
    tree.locate? (directory ++ "/" ++ name) = (tree.locate? directory).bind fun place =>
      if tree.isDirectory place then some (place ++ [name]) else none := by
  rw [locate?, componentsBelow?_join hname hdirectory hroot, locate?, Option.bind_map,
    Option.bind_assoc]
  refine congrArg _ (funext fun components => ?_)
  exact walk_concat hname [] components

/-- What is located by a name in a directory, and is no directory, is in that directory. -/
theorem exists_of_locate?_join {directory name : String} (hname : IsName name)
    (hdirectory : directory ≠ "") {place : List String}
    (hlocate : tree.locate? (directory ++ "/" ++ name) = some place)
    (hfile : tree.isDirectory place ≠ true) :
    ∃ outer, tree.locate? directory = some outer ∧ place = outer ++ [name] := by
  have hroot : directory ++ "/" ++ name ≠ tree.root := by
    intro hroot
    have htop : tree.locate? (directory ++ "/" ++ name) = some [] := by
      rw [locate?, componentsBelow?, if_pos hroot]
      rfl
    obtain rfl := Option.some.inj (hlocate.symm.trans htop)
    exact hfile rfl
  rw [locate?_join hname hdirectory hroot, Option.bind_eq_some_iff] at hlocate
  obtain ⟨outer, houter, hplace⟩ := hlocate
  split at hplace
  · exact ⟨outer, houter, (Option.some.inj hplace).symm⟩
  · cases hplace

end FactGraph.FileTree
