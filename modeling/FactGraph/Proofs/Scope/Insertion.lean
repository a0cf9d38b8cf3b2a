import FactGraph.Proofs.Name.Path
import FactGraph.Proofs.Scope.NamespaceTree

/-!
# Namespaces inserted one after the other

However many names are inserted, and whatever they are, the namespaces make one tree: each stands
below one with a smaller key, and lists those directly in it. Malformed names stand in the same
table as the names made of first segments, but the two are never confused: a full name says by
itself where its namespace stands. So a key that was given out for a name is good for ever, and a
name that is inserted again leaves the tree as it is.

## Main definitions

* `NamespaceTree.insertAll`: the tree after names have been inserted
* `NamespaceTree.childrenOf`: the keys of the namespaces directly in one
* `NamespaceTree.Represented`: the namespaces of the tree make a tree
* `NamespaceTree.Inserted`: what the insertion of a name gives, for all time

## Main results

* `attach_childrenListed`: a new namespace is listed by the one around it
* `insertAll_keeps`: what every insertion keeps, a run of insertions keeps
* `insertAll_represented`: all of this, of every tree that grew from the empty one
-/

namespace FactGraph

namespace NamespaceTree

variable {tree : NamespaceTree}

/-! ## A run of insertions -/

/-- **The tree after the names have been inserted**, one after the other. -/
def insertAll (tree : NamespaceTree) (names : List String) : NamespaceTree :=
  names.foldl (fun tree name => (tree.insert name).1) tree

theorem insertAll_grown (h : tree.WellFormed) (names : List String) :
    tree.Extends (tree.insertAll names) ∧ (tree.insertAll names).WellFormed := by
  induction names generalizing tree with
  | nil => exact ⟨.refl tree, h⟩
  | cons name names ih =>
    have hinsert := insert_grown h name
    obtain ⟨hgrown, hwellFormed⟩ := ih hinsert.wellFormed
    exact ⟨hinsert.grown.trans hgrown, hwellFormed⟩

/-- **What every insertion into a tree keeps, a run of insertions keeps.** -/
theorem insertAll_keeps {P : NamespaceTree → Prop}
    (hinsert : ∀ tree : NamespaceTree, tree.WellFormed → P tree → ∀ name, P (tree.insert name).1)
    (h : tree.WellFormed) (hP : P tree) (names : List String) : P (tree.insertAll names) := by
  induction names generalizing tree with
  | nil => exact hP
  | cons name names ih => exact ih (insert_grown h name).wellFormed (hinsert tree h hP name)

theorem insertAll_placed (h : tree.WellFormed) (hplaced : tree.Placed) (names : List String) :
    (tree.insertAll names).Placed :=
  insertAll_keeps (fun _ => insert_placed) h hplaced names

/-- A name that has been inserted is found, whatever is inserted after it. -/
theorem find?_insert (h : tree.WellFormed) (name : String) (later : List String) :
    ((tree.insert name).1.insertAll later).find? name = some (tree.insert name).2.1 := by
  have hinsert := insert_grown h name
  obtain ⟨entry, hentry, hname⟩ := hinsert.found
  obtain ⟨hgrown, hwellFormed⟩ := insertAll_grown hinsert.wellFormed later
  rw [find?, ← hname]
  exact hwellFormed.keyOf?_fullName (hgrown.heading? _ _ hentry)

theorem find?_insertAll (h : tree.WellFormed) {names : List String} {name : String}
    (hname : name ∈ names) : ∃ key, (tree.insertAll names).find? name = some key := by
  obtain ⟨before, later, rfl⟩ := List.append_of_mem hname
  have hbefore := (insertAll_grown h before).2
  rw [insertAll, List.foldl_append]
  exact ⟨_, find?_insert hbefore name later⟩

/-! ## Children -/

/-- The key of the namespace around the one of a key. -/
def parentOf? (tree : NamespaceTree) (key : Nat) : Option Nat :=
  (tree.heading? key).bind NamespaceEntry.parent

/-- The keys of the namespaces directly in the one of a key, the smallest first. -/
def childrenOf (tree : NamespaceTree) (key : Nat) : List Nat :=
  (List.range tree.size).filter fun child => tree.parentOf? child = some key

/-- **Every namespace lists those directly in it**, in the order of their keys. -/
def ChildrenListed (tree : NamespaceTree) : Prop :=
  ∀ key entry, tree.entries[key]? = some entry → entry.children = tree.childrenOf key

theorem parentOf?_attach (tree : NamespaceTree) (parent : Nat) (name fullName : String)
    (key : Nat) :
    (tree.attach parent name fullName).parentOf? key =
      if key = tree.size then some parent else tree.parentOf? key := by
  rw [parentOf?, heading?_attach]
  split <;> rfl

theorem size_attach (tree : NamespaceTree) (parent : Nat) (name fullName : String) :
    (tree.attach parent name fullName).size = tree.size + 1 := by
  simp [attach, size]

/-- The new namespace is one more in its parent, after all others. -/
theorem childrenOf_attach (tree : NamespaceTree) (parent : Nat) (name fullName : String)
    (key : Nat) :
    (tree.attach parent name fullName).childrenOf key =
      tree.childrenOf key ++ if parent = key then [tree.size] else [] := by
  have hold : ∀ child ∈ List.range tree.size,
      decide ((tree.attach parent name fullName).parentOf? child = some key) =
        decide (tree.parentOf? child = some key) := by
    intro child hchild
    rw [parentOf?_attach, if_neg (Nat.ne_of_lt (List.mem_range.1 hchild))]
  rw [childrenOf, size_attach, List.range_succ, List.filter_append, List.filter_congr hold,
    List.filter_singleton, parentOf?_attach, if_pos rfl, childrenOf]
  congr 1
  by_cases hkey : parent = key <;> simp [hkey]

theorem getElem?_attach (tree : NamespaceTree) (parent : Nat) (name fullName : String)
    (key : Nat) :
    (tree.attach parent name fullName).entries[key]? =
      if key = tree.size then some { name, fullName, parent := some parent }
      else tree.entries[key]?.map fun entry =>
        if parent = key then { entry with children := entry.children ++ [tree.size] }
        else entry := by
  have hsize : tree.entries.size = tree.size := rfl
  rw [attach, Array.getElem?_push, Array.size_modify, hsize]
  by_cases hkey : key = tree.size
  · rw [if_pos hkey, if_pos hkey]
  · rw [if_neg hkey, if_neg hkey, Array.getElem?_modify]
    by_cases hparent : parent = key <;> simp [hparent]

/-- Nothing stands in a namespace that is not there yet. -/
theorem WellFormed.childrenOf_size (h : tree.WellFormed) : tree.childrenOf tree.size = [] := by
  apply List.filter_eq_nil_iff.2
  intro child hchild hparent
  obtain ⟨entry, hentry, hparent⟩ := Option.bind_eq_some_iff.1 (of_decide_eq_true hparent)
  have hkey : child ≠ rootKey := by
    rintro rfl
    rw [h.root] at hentry
    cases hentry
    cases hparent
  obtain ⟨parent, _, heq, hlt, -⟩ := h.below child entry hentry hkey
  -- A parent has a smaller key than its child, so this one would be within the tree.
  obtain rfl : parent = tree.size := Option.some.inj (heq.symm.trans hparent)
  exact absurd (List.mem_range.1 hchild) (Nat.lt_asymm hlt)

/-- **A new namespace is listed by the one around it**, and lists nothing itself. -/
theorem attach_childrenListed (h : tree.WellFormed) (hlisted : tree.ChildrenListed) {parent : Nat}
    {outer : NamespaceEntry} (hparent : tree.heading? parent = some outer)
    (name fullName : String) : (tree.attach parent name fullName).ChildrenListed := by
  intro key entry hentry
  rw [getElem?_attach] at hentry
  rw [childrenOf_attach]
  split at hentry
  next hkey =>
    cases hentry
    rw [hkey, h.childrenOf_size, if_neg (Nat.ne_of_lt (lt_size_of_heading? hparent))]
    rfl
  next =>
    obtain ⟨old, hold, rfl⟩ := Option.map_eq_some_iff.1 hentry
    rw [← hlisted key old hold]
    by_cases hkey : parent = key <;> simp [hkey]

theorem insertSegments_childrenListed (h : tree.WellFormed) (hlisted : tree.ChildrenListed)
    {key : Nat} {outer : NamespaceEntry} (hkey : tree.heading? key = some outer)
    (segments : List String) :
    (tree.insertSegments key outer.fullName segments).1.ChildrenListed := by
  induction segments generalizing tree key outer with
  | nil => exact hlisted
  | cons segment segments ih =>
    have hstep := ensure_grown h hkey segment
    have hstep' : (tree.ensure key segment
        (tree.separator.join outer.fullName segment)).1.ChildrenListed := by
      unfold ensure
      split
      · exact hlisted
      · exact attach_childrenListed h hlisted hkey _ _
    obtain ⟨entry, hentry, hname⟩ := hstep.found
    have hrest := ih hstep.wellFormed hstep' hentry
    rw [hname] at hrest
    exact hrest

theorem insert_childrenListed (h : tree.WellFormed) (hlisted : tree.ChildrenListed)
    (name : String) : (tree.insert name).1.ChildrenListed := by
  apply insert_keeps hlisted
  · intro _ _
    exact insertSegments_childrenListed h hlisted h.root _
  · intro _ _
    exact attach_childrenListed h hlisted h.root _ _

theorem insertAll_childrenListed (h : tree.WellFormed) (hlisted : tree.ChildrenListed)
    (names : List String) : (tree.insertAll names).ChildrenListed :=
  insertAll_keeps (fun _ => insert_childrenListed) h hlisted names

theorem empty_childrenListed (sep : Separator) : (empty sep).ChildrenListed := by
  intro key entry hentry
  have hmem := Array.mem_of_getElem? hentry
  rw [empty, List.mem_toArray, List.mem_singleton] at hmem
  have hnone : (empty sep).childrenOf key = [] := by
    simp [childrenOf, size, empty, parentOf?, heading?, NamespaceEntry.heading]
  rw [hnone, hmem]

/-! ## Entries -/

/-- A namespace with an empty last segment would have the full name of the one around it. -/
theorem WellFormed.name_ne (h : tree.WellFormed) {key : Nat} {entry : NamespaceEntry}
    (hentry : tree.heading? key = some entry) (hkey : key ≠ rootKey) : entry.name ≠ "" := by
  intro hname
  obtain ⟨parent, outer, -, hlt, houter, hfull⟩ := h.below key entry hentry hkey
  rw [hname, Separator.join_empty] at hfull
  exact absurd (h.distinct key parent entry outer hentry houter hfull) (Nat.ne_of_gt hlt)

/-- **A malformed name stands below the root**, and is its own last segment. -/
theorem heading_of_malformed (h : tree.WellFormed) (hplaced : tree.Placed) {key : Nat}
    {entry : NamespaceEntry} (hentry : tree.heading? key = some entry)
    (hwell : tree.isWellFormed entry.fullName = false) :
    entry = { name := entry.fullName, fullName := entry.fullName, parent := some rootKey } := by
  have hkey : key ≠ rootKey := by
    rintro rfl
    rw [h.root] at hentry
    cases hentry
    simp [isWellFormed] at hwell
  obtain ⟨parent, outer, hparent, -, houter, hfull⟩ := h.below key entry hentry hkey
  have hroot : outer.fullName = "" := by
    rw [hplaced key entry parent outer hentry hparent houter, outerName, hwell]
    rfl
  obtain rfl := h.distinct parent rootKey outer _ houter h.root hroot
  rw [hroot, Separator.join, if_pos rfl] at hfull
  obtain ⟨full, -, rfl⟩ := Option.map_eq_some_iff.1 hentry
  simp only [NamespaceEntry.heading] at hparent hfull ⊢
  rw [hparent, hfull]

/-! ## The tree and its insertions -/

/-- **The namespaces make a tree**: every one but the root has a last segment and stands below
one with a smaller key, which gives it its full name and lists it. -/
structure Represented (tree : NamespaceTree) : Prop extends tree.WellFormed where
  named : ∀ key entry, tree.heading? key = some entry → key ≠ rootKey → entry.name ≠ ""
  children : tree.ChildrenListed

/-- **What the insertion of a name gives**: the grown tree, the key of the namespace in it and
whether the name is well-formed. The key is good whatever is inserted later. -/
structure Inserted (tree : NamespaceTree) (name : String) (given : NamespaceTree × Nat × Bool) :
    Prop where
  flag : given.2.2 = tree.isWellFormed (Text.trim name)
  fullName : ∃ entry, given.1.heading? given.2.1 = some entry ∧ entry.fullName = Text.trim name
  /-- A malformed name is one segment, directly below the root. -/
  malformed : given.2.2 = false → given.1.heading? given.2.1 =
    some { name := Text.trim name, fullName := Text.trim name, parent := some rootKey }
  found : ∀ later, (given.1.insertAll later).find? name = some given.2.1
  /-- Nothing changes if the name is inserted again. -/
  again : ∀ later, (given.1.insertAll later).insert name =
    (given.1.insertAll later, given.2.1, given.2.2)

/-- A name that is in the tree is left there. -/
theorem insert_of_found {name : String} {key : Nat} (hkey : tree.find? name = some key) :
    tree.insert name = (tree, key, tree.isWellFormed (Text.trim name)) := by
  have hkey' : tree.keyOf? (Text.trim name) = some key := hkey
  simp only [insert, hkey']

theorem insert_flag (tree : NamespaceTree) (name : String) :
    (tree.insert name).2.2 = tree.isWellFormed (Text.trim name) := by
  obtain ⟨key, -, heq⟩ | ⟨-, hwell, grown, key, -, heq⟩ | ⟨-, hwell, heq⟩ :=
    tree.insert_cases name
  · rw [heq]
  · rw [heq, hwell]
  · rw [heq, hwell]

theorem isWellFormed_congr {tree' : NamespaceTree} (h : tree'.separator = tree.separator)
    (name : String) : tree'.isWellFormed name = tree.isWellFormed name := by
  rw [isWellFormed, isWellFormed, h]

theorem inserted_insert (h : tree.WellFormed) (hplaced : tree.Placed) (name : String) :
    tree.Inserted name (tree.insert name) := by
  have hinsert := insert_grown h name
  obtain ⟨entry, hentry, hname⟩ := hinsert.found
  refine ⟨insert_flag tree name, ⟨entry, hentry, hname⟩, ?_, find?_insert h name, ?_⟩
  · -- Where the namespace stands is read off its full name, in the tree that it stands in now.
    intro hflag
    rw [insert_flag, ← isWellFormed_congr hinsert.grown.separator, ← hname] at hflag
    have hmalformed :=
      heading_of_malformed hinsert.wellFormed (insert_placed h hplaced name) hentry hflag
    rw [hentry, hmalformed, hname]
  · intro later
    have hgrown := (insertAll_grown hinsert.wellFormed later).1
    rw [insert_of_found (find?_insert h name later), insert_flag,
      isWellFormed_congr (hgrown.separator.trans hinsert.grown.separator)]

/-- **The namespaces of a tree that grew from the empty one make a tree.** Each keeps its key, its
name and its parent for ever, and so does that of every name that is inserted next. -/
theorem insertAll_represented (sep : Separator) (names : List String) :
    ((empty sep).insertAll names).separator = sep ∧
    ((empty sep).insertAll names).Represented ∧
    (∀ later, ((empty sep).insertAll names).Extends
      (((empty sep).insertAll names).insertAll later)) ∧
    ∀ name, ((empty sep).insertAll names).Inserted name
      (((empty sep).insertAll names).insert name) := by
  obtain ⟨hgrown, hwellFormed⟩ := insertAll_grown (empty_wellFormed sep) names
  have hplaced := insertAll_placed (empty_wellFormed sep) (empty_placed sep) names
  refine ⟨hgrown.separator, ?_, ?_, ?_⟩
  · refine ⟨hwellFormed, fun key entry => hwellFormed.name_ne, ?_⟩
    exact insertAll_childrenListed (empty_wellFormed sep) (empty_childrenListed sep) names
  · intro later
    exact (insertAll_grown hwellFormed later).1
  · intro name
    exact inserted_insert hwellFormed hplaced name

end NamespaceTree

end FactGraph
