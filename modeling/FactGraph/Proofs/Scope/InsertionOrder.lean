import FactGraph.Proofs.Scope.Insertion
import Mathlib.Data.List.Nodup
import Mathlib.Tactic.Tauto

/-!
# The order of insertion does not matter

Two trees into which the same names were inserted hold the same namespaces in the same places, and
differ in nothing but the keys. The reason is that neither part of the tree depends on how it came
about. Which full names there are is said by the inserted names alone: they are the names around
the inserted ones, and the empty name. And where a namespace stands, under which last segment, is
said by its full name.

## Main definitions

* `NamespaceTree.fullNames`: the full names of the namespaces
* `NamespaceTree.IsAround`: a name around another one
* `NamespaceTree.placements`: each full name with its last segment and the full name around it

## Main results

* `mem_fullNames_insertAll`: the full names after a run of insertions
* `placement_congr`: the place of a namespace follows from its full name
* `insertAll_order`: trees with the same inserted names
-/

namespace FactGraph

/-- What is joined to a name, if it is not empty, can be told from the result. -/
theorem Separator.join_left_cancel (sep : Separator) {outer name name' : String}
    (hname : name ≠ "") (hname' : name' ≠ "") (h : sep.join outer name = sep.join outer name') :
    name = name' := by
  by_cases houter : outer = ""
  · rw [houter, empty_join, empty_join] at h
    exact h
  · rw [sep.join_of_ne houter hname, sep.join_of_ne houter hname'] at h
    exact String.append_right_inj _ |>.1 h

namespace NamespaceTree

variable {tree tree' : NamespaceTree}

/-! ## Full names -/

/-- The full names of the namespaces, in the order of their keys. -/
def fullNames (tree : NamespaceTree) : List String :=
  tree.entries.toList.map NamespaceEntry.fullName

/-- What is read of the entries, if nothing is read of their children. -/
theorem mem_map_entries {α : Type} {read : NamespaceEntry → α}
    (hread : ∀ entry, read entry.heading = read entry) {x : α} :
    x ∈ tree.entries.toList.map read ↔
      ∃ key entry, tree.heading? key = some entry ∧ read entry = x := by
  constructor
  · intro hmem
    obtain ⟨entry, hentry, rfl⟩ := List.mem_map.1 hmem
    obtain ⟨key, hkey⟩ := Array.mem_iff_getElem?.1 (Array.mem_toList_iff.1 hentry)
    exact ⟨key, entry.heading, by rw [heading?, hkey]; rfl, hread entry⟩
  · rintro ⟨key, entry, hentry, rfl⟩
    obtain ⟨full, hfull, rfl⟩ := Option.map_eq_some_iff.1 hentry
    have hmem := Array.mem_toList_iff.2 (Array.mem_of_getElem? hfull)
    exact List.mem_map.2 ⟨full, hmem, (hread full).symm⟩

theorem mem_fullNames {fullName : String} : fullName ∈ tree.fullNames ↔
    ∃ key entry, tree.heading? key = some entry ∧ entry.fullName = fullName :=
  mem_map_entries fun _ => rfl

theorem keyOf?_eq_none_iff {fullName : String} :
    tree.keyOf? fullName = none ↔ fullName ∉ tree.fullNames := by
  rw [mem_fullNames]
  constructor
  · rintro hnone ⟨key, entry, hentry, hname⟩
    exact keyOf?_none hnone hentry hname
  · intro hnot
    by_contra hsome
    obtain ⟨key, hkey⟩ := Option.ne_none_iff_exists'.1 hsome
    exact hnot ⟨key, keyOf?_some hkey⟩

theorem Extends.fullNames (h : tree.Extends tree') {fullName : String}
    (hname : fullName ∈ tree.fullNames) : fullName ∈ tree'.fullNames := by
  obtain ⟨key, entry, hentry, rfl⟩ := mem_fullNames.1 hname
  exact mem_fullNames.2 ⟨key, entry, h.heading? _ _ hentry, rfl⟩

theorem mem_fullNames_attach {parent : Nat} {name fullName other : String}
    (h : other ∈ (tree.attach parent name fullName).fullNames) :
    other ∈ tree.fullNames ∨ other = fullName := by
  obtain ⟨key, entry, hentry, rfl⟩ := mem_fullNames.1 h
  rw [heading?_attach] at hentry
  split at hentry
  · cases hentry
    exact .inr rfl
  · exact .inl (mem_fullNames.2 ⟨key, entry, hentry, rfl⟩)

theorem mem_fullNames_ensure {parent : Nat} {name fullName other : String}
    (h : other ∈ (tree.ensure parent name fullName).1.fullNames) :
    other ∈ tree.fullNames ∨ other = fullName := by
  unfold ensure at h
  split at h
  · exact .inl h
  · exact mem_fullNames_attach h

theorem ensure_separator (tree : NamespaceTree) (parent : Nat) (name fullName : String) :
    (tree.ensure parent name fullName).1.separator = tree.separator := by
  unfold ensure
  split <;> rfl

/-- What is new after segments have been added is made of the first ones of them. -/
theorem mem_fullNames_insertSegments {key : Nat} {outer other : String} {segments : List String}
    (h : other ∈ (tree.insertSegments key outer segments).1.fullNames) :
    other ∈ tree.fullNames ∨ ∃ count < segments.length,
      (segments.take (count + 1)).foldl tree.separator.join outer = other := by
  induction segments generalizing tree key outer with
  | nil => exact .inl h
  | cons segment segments ih =>
    let grown := tree.ensure key segment (tree.separator.join outer segment)
    have hrest : other ∈ grown.1.fullNames ∨ ∃ count < segments.length,
        (segments.take (count + 1)).foldl grown.1.separator.join
          (tree.separator.join outer segment) = other := ih h
    -- The first segment makes a name by itself, and each other one a name with those before it.
    rcases hrest with hother | ⟨count, hcount, hname⟩
    · rcases mem_fullNames_ensure hother with hold | rfl
      · exact .inl hold
      · exact .inr ⟨0, Nat.succ_pos _, rfl⟩
    · rw [ensure_separator] at hname
      exact .inr ⟨count + 1, Nat.succ_lt_succ hcount, hname⟩

/-! ## Names around a name -/

/-- The one full name is the other one, or that of a namespace around it. -/
def IsAround (tree : NamespaceTree) (outer inner : String) : Prop :=
  ∃ steps, tree.outerName^[steps] inner = outer

theorem IsAround.congr (h : tree'.separator = tree.separator) {outer inner : String} :
    tree'.IsAround outer inner ↔ tree.IsAround outer inner := by
  rw [IsAround, IsAround, funext (outerName_congr h)]

/-- The first segments of a well-formed name make a name around it. -/
theorem isAround_front {name : String} (hwell : tree.isWellFormed name) (hname : name ≠ "")
    {count : Nat} (hcount : count ≤ (tree.separator.segments name).length) :
    tree.IsAround (tree.front name count) name := by
  have hsteps (steps : Nat) (hle : count + steps ≤ (tree.separator.segments name).length) :
      tree.outerName^[steps] (tree.front name (count + steps)) = tree.front name count := by
    induction steps with
    | zero => rfl
    | succ steps ih =>
      have hlt : count + steps < (tree.separator.segments name).length := hle
      rw [Function.iterate_succ_apply, ← Nat.add_assoc, outerName_front hwell hname hlt]
      exact ih (Nat.le_of_lt hlt)
  have hfull : tree.front name (tree.separator.segments name).length = name := by
    rw [front, List.take_length, Separator.foldl_join_segments]
    exact isWellFormed_segments hwell hname
  refine ⟨(tree.separator.segments name).length - count, ?_⟩
  have hall := hsteps _ (Nat.le_of_eq (Nat.add_sub_cancel' hcount))
  rw [Nat.add_sub_cancel' hcount, hfull] at hall
  exact hall

theorem outerName_empty (tree : NamespaceTree) : tree.outerName "" = "" := by
  have hsegments : tree.separator.segments "" = [""] := rfl
  rw [outerName, hsegments]
  split <;> rfl

theorem outerName_mem (h : tree.WellFormed) (hplaced : tree.Placed) {fullName : String}
    (hname : fullName ∈ tree.fullNames) : tree.outerName fullName ∈ tree.fullNames := by
  obtain ⟨key, entry, hentry, rfl⟩ := mem_fullNames.1 hname
  by_cases hkey : key = rootKey
  · subst hkey
    obtain rfl := Option.some.inj (hentry.symm.trans h.root)
    rw [outerName_empty]
    exact hname
  · obtain ⟨parent, outer, hparent, -, houter, -⟩ := h.below key entry hentry hkey
    rw [← hplaced key entry parent outer hentry hparent houter]
    exact mem_fullNames.2 ⟨parent, outer, houter, rfl⟩

/-- **The names around a full name of the tree are in the tree.** -/
theorem IsAround.mem (h : tree.WellFormed) (hplaced : tree.Placed) {outer inner : String}
    (haround : tree.IsAround outer inner) (hname : inner ∈ tree.fullNames) :
    outer ∈ tree.fullNames := by
  obtain ⟨steps, rfl⟩ := haround
  induction steps with
  | zero => exact hname
  | succ steps ih =>
    rw [Function.iterate_succ_apply']
    exact outerName_mem h hplaced ih

/-- **An insertion adds the names around the inserted one.** -/
theorem mem_fullNames_insert (h : tree.WellFormed) (hplaced : tree.Placed) {name other : String} :
    other ∈ (tree.insert name).1.fullNames ↔
      other ∈ tree.fullNames ∨ tree.IsAround other (Text.trim name) := by
  have hinsert := insert_grown h name
  constructor
  · apply insert_keeps (P := fun grown => other ∈ grown.fullNames →
      other ∈ tree.fullNames ∨ tree.IsAround other (Text.trim name)) Or.inl
    · intro hfresh hwell hother
      rcases mem_fullNames_insertSegments hother with hold | ⟨count, hcount, rfl⟩
      · exact .inl hold
      · have haround : tree.IsAround (tree.front (Text.trim name) (count + 1)) (Text.trim name) :=
          isAround_front hwell (h.ne_empty_of_fresh hfresh) hcount
        exact .inr haround
    · intro _ _ hother
      rcases mem_fullNames_attach hother with hold | rfl
      · exact .inl hold
      · exact .inr ⟨0, rfl⟩
  · rintro (hold | haround)
    · exact hinsert.grown.fullNames hold
    · -- The name itself is in the grown tree, whether it was added or has been there before.
      have haround' := (IsAround.congr hinsert.grown.separator).2 haround
      apply haround'.mem hinsert.wellFormed (insert_placed h hplaced name)
      exact mem_fullNames.2 ⟨_, hinsert.found⟩

/-- **The full names after a run of insertions**, in whatever order they were made. -/
theorem mem_fullNames_insertAll (h : tree.WellFormed) (hplaced : tree.Placed)
    {names : List String} {other : String} :
    other ∈ (tree.insertAll names).fullNames ↔
      other ∈ tree.fullNames ∨ ∃ name ∈ names, tree.IsAround other (Text.trim name) := by
  induction names generalizing tree with
  | nil => simp [insertAll]
  | cons name names ih =>
    have hinsert := insert_grown h name
    have hrest := ih hinsert.wellFormed (insert_placed h hplaced name)
    simp only [IsAround.congr hinsert.grown.separator, mem_fullNames_insert h hplaced] at hrest
    rw [List.exists_mem_cons_iff, ← or_assoc]
    exact hrest

/-! ## Places -/

/-- The full name of a namespace, its last segment, and the full name around it. -/
def placement (tree : NamespaceTree) (entry : NamespaceEntry) : String × String × Option String :=
  (entry.fullName, entry.name, (entry.parent.bind tree.heading?).map NamespaceEntry.fullName)

/-- The namespaces as full names, last segments and full names around them, without the keys. -/
def placements (tree : NamespaceTree) : List (String × String × Option String) :=
  tree.entries.toList.map tree.placement

theorem mem_placements {place : String × String × Option String} : place ∈ tree.placements ↔
    ∃ key entry, tree.heading? key = some entry ∧ tree.placement entry = place :=
  mem_map_entries fun _ => rfl

/-- Full names are there once, so places are. -/
theorem WellFormed.nodup_placements (h : tree.WellFormed) : tree.placements.Nodup := by
  have hnames : tree.placements.map Prod.fst = tree.fullNames := by
    rw [placements, List.map_map]
    rfl
  apply List.Nodup.of_map Prod.fst
  rw [hnames, fullNames, List.nodup_iff_getElem?_ne_getElem?]
  intro i j hlt hj heq
  rw [List.length_map, Array.length_toList] at hj
  have hi : i < tree.entries.size := Nat.lt_trans hlt hj
  have hheading {key : Nat} (hkey : key < tree.entries.size) :
      tree.heading? key = some tree.entries[key].heading := by
    rw [heading?, Array.getElem?_eq_getElem hkey]
    rfl
  rw [List.getElem?_map, List.getElem?_map, Array.getElem?_toList, Array.getElem?_toList,
    Array.getElem?_eq_getElem hi, Array.getElem?_eq_getElem hj] at heq
  exact absurd (h.distinct i j _ _ (hheading hi) (hheading hj) (Option.some.inj heq))
    (Nat.ne_of_lt hlt)

/-- **The place of a namespace follows from its full name.** -/
theorem placement_congr (h : tree.WellFormed) (h' : tree'.WellFormed) (hplaced : tree.Placed)
    (hplaced' : tree'.Placed) (hsep : tree'.separator = tree.separator) {key key' : Nat}
    {entry entry' : NamespaceEntry} (hentry : tree.heading? key = some entry)
    (hentry' : tree'.heading? key' = some entry') (hname : entry'.fullName = entry.fullName) :
    tree'.placement entry' = tree.placement entry := by
  by_cases hkey : key = rootKey
  · subst hkey
    obtain rfl := Option.some.inj (hentry.symm.trans h.root)
    obtain rfl := h'.distinct key' rootKey entry' _ hentry' h'.root hname
    obtain rfl := Option.some.inj (hentry'.symm.trans h'.root)
    rfl
  · have hkey' : key' ≠ rootKey := by
      rintro rfl
      obtain rfl := Option.some.inj (hentry'.symm.trans h'.root)
      exact hkey (h.distinct key rootKey entry _ hentry h.root hname.symm)
    obtain ⟨parent, outer, hparent, -, houter, hfull⟩ := h.below key entry hentry hkey
    obtain ⟨parent', outer', hparent', -, houter', hfull'⟩ := h'.below key' entry' hentry' hkey'
    have hplace := hplaced key entry parent outer hentry hparent houter
    have hplace' := hplaced' key' entry' parent' outer' hentry' hparent' houter'
    rw [outerName_congr hsep, hname, ← hplace] at hplace'
    rw [hsep, hplace', hname, hfull] at hfull'
    have hlast := tree.separator.join_left_cancel (h.name_ne hentry hkey)
      (h'.name_ne hentry' hkey') hfull'
    simp only [placement, hparent, hparent', Option.bind_some, houter, houter', Option.map_some]
    rw [hname, hlast, hplace']

/-! ## Trees with the same full names -/

/-- **Two trees agree** if they have the same separator and the same full names. -/
structure Agrees (tree tree' : NamespaceTree) : Prop where
  separator : tree'.separator = tree.separator
  fullNames : ∀ fullName, fullName ∈ tree.fullNames ↔ fullName ∈ tree'.fullNames

theorem Agrees.symm (hagree : tree.Agrees tree') : tree'.Agrees tree :=
  ⟨hagree.separator.symm, fun fullName => (hagree.fullNames fullName).symm⟩

section Agrees

variable (h : tree.WellFormed) (h' : tree'.WellFormed) (hplaced : tree.Placed)
  (hplaced' : tree'.Placed) (hagree : tree.Agrees tree')

include h h' hplaced hplaced' hagree

theorem Agrees.mem_placements {place : String × String × Option String}
    (hplace : place ∈ tree.placements) : place ∈ tree'.placements := by
  obtain ⟨key, entry, hentry, rfl⟩ := NamespaceTree.mem_placements.1 hplace
  have hname := (hagree.fullNames entry.fullName).1 (mem_fullNames.2 ⟨key, entry, hentry, rfl⟩)
  obtain ⟨key', entry', hentry', hname'⟩ := mem_fullNames.1 hname
  refine NamespaceTree.mem_placements.2 ⟨key', entry', hentry', ?_⟩
  exact placement_congr h h' hplaced hplaced' hagree.separator hentry hentry' hname'

theorem Agrees.placements_perm : tree.placements.Perm tree'.placements := by
  apply (List.perm_ext_iff_of_nodup h.nodup_placements h'.nodup_placements).2
  intro place
  exact ⟨hagree.mem_placements h h' hplaced hplaced',
    hagree.symm.mem_placements h' h hplaced' hplaced⟩

/-- A name has the same chain in both trees, whether it is in them or not. -/
theorem Agrees.chain (name : String) : tree'.chain name = tree.chain name := by
  have hfound := hagree.fullNames (Text.trim name)
  cases hkey : tree.find? name with
  | some key =>
    obtain ⟨key', hkey'⟩ : ∃ key', tree'.find? name = some key' := by
      apply Option.ne_none_iff_exists'.1
      intro hnone
      have hmem := hfound.1 (mem_fullNames.2 ⟨key, keyOf?_some hkey⟩)
      exact keyOf?_eq_none_iff.1 hnone hmem
    exact chain_congr h h' hplaced hplaced' hagree.separator hkey hkey'
  | none =>
    have hkey' : tree'.find? name = none :=
      keyOf?_eq_none_iff.2 fun hmem => keyOf?_eq_none_iff.1 hkey (hfound.2 hmem)
    rw [NamespaceTree.chain, NamespaceTree.chain, hkey, hkey', hagree.separator]

end Agrees

/-- **The order of insertion does not matter**, nor how often a name is inserted: the namespaces
stand in the same places, there are as many of them, and every name has the same chain. -/
theorem insertAll_order (sep : Separator) {names names' : List String}
    (h : ∀ name, name ∈ names ↔ name ∈ names') :
    ((empty sep).insertAll names).placements.Perm ((empty sep).insertAll names').placements ∧
    ((empty sep).insertAll names).size = ((empty sep).insertAll names').size ∧
    ∀ name, ((empty sep).insertAll names).chain name =
      ((empty sep).insertAll names').chain name := by
  have hempty := empty_wellFormed sep
  have hplaced := empty_placed sep
  obtain ⟨hgrown, hwell⟩ := insertAll_grown hempty names
  obtain ⟨hgrown', hwell'⟩ := insertAll_grown hempty names'
  have hagree : ((empty sep).insertAll names).Agrees ((empty sep).insertAll names') := by
    refine ⟨hgrown'.separator.trans hgrown.separator.symm, fun fullName => ?_⟩
    simp only [mem_fullNames_insertAll hempty hplaced, h]
  have hperm := hagree.placements_perm hwell hwell' (insertAll_placed hempty hplaced names)
    (insertAll_placed hempty hplaced names')
  refine ⟨hperm, ?_, fun name => ?_⟩
  · simpa [placements, size] using hperm.length_eq
  · exact (hagree.chain hwell hwell' (insertAll_placed hempty hplaced names)
      (insertAll_placed hempty hplaced names') name).symm

/-- A name, the name around it with blanks at its ends, and a malformed name. -/
def shapeNames : List String := ["Geo.Shapes", " Geo ", "Geo..Rim"]

/-- The same names from the last one, and one of them twice. -/
def shapeNamesAgain : List String := ["Geo..Rim", " Geo ", "Geo.Shapes", " Geo "]

theorem insertAll_order_shapes :
    (∀ name, name ∈ shapeNames ↔ name ∈ shapeNamesAgain) ∧
    ((empty .dot).insertAll shapeNames).placements.Perm
      ((empty .dot).insertAll shapeNamesAgain).placements ∧
    ((empty .dot).insertAll shapeNames).size = ((empty .dot).insertAll shapeNamesAgain).size ∧
    ∀ name, ((empty .dot).insertAll shapeNames).chain name =
      ((empty .dot).insertAll shapeNamesAgain).chain name := by
  have hsame : ∀ name, name ∈ shapeNames ↔ name ∈ shapeNamesAgain := by
    intro name
    simp only [shapeNames, shapeNamesAgain, List.mem_cons, List.not_mem_nil, or_false]
    tauto
  exact ⟨hsame, insertAll_order .dot hsame⟩

end NamespaceTree

end FactGraph
