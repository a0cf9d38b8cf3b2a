import FactGraph.Proofs.Name.Segments
import FactGraph.Scope.NamespaceTree
import Mathlib.Data.List.Chain

/-!
# The namespace tree is a tree

In a tree that grew by insertion, every namespace but the global one stands below one that was
there before it, and its full name is that of the one above joined with its own last segment. No
full name is there twice, so a full name leads to its namespace, and the chain of a name that was
inserted leads up to the global namespace, one segment at a time.

## Main definitions

* `NamespaceTree.heading?`: the entry of a key, without its children
* `NamespaceTree.WellFormed`: every namespace stands below the one around it
* `NamespaceTree.Bare`: no full name has blanks at its ends
* `NamespaceTree.Placed`: every namespace stands where its full name says

## Main results

* `insert_grown`, `insert_bare`, `insert_placed`: what an insertion keeps and gives
* `chain_of_found`: the chain of an inserted name, from the global namespace inwards
* `chain_congr`: the chain of an inserted name does not depend on what else is inserted
-/

namespace FactGraph

/-- A namespace without its children, which is all of an entry that an insertion can change. -/
def NamespaceEntry.heading (entry : NamespaceEntry) : NamespaceEntry :=
  { entry with children := [] }

namespace NamespaceTree

variable {tree tree' : NamespaceTree}

/-- The entry of a key, without its children. -/
def heading? (tree : NamespaceTree) (key : Nat) : Option NamespaceEntry :=
  tree.entries[key]?.map NamespaceEntry.heading

/-- **Every namespace stands below the one around it**, with the full name that this gives it, and
no full name is there twice. -/
structure WellFormed (tree : NamespaceTree) : Prop where
  root : tree.heading? rootKey = some { name := "", fullName := "", parent := none }
  below : ∀ key entry, tree.heading? key = some entry → key ≠ rootKey → ∃ parent outer,
    entry.parent = some parent ∧ parent < key ∧ tree.heading? parent = some outer ∧
    entry.fullName = tree.separator.join outer.fullName entry.name
  distinct : ∀ key key' entry entry', tree.heading? key = some entry →
    tree.heading? key' = some entry' → entry.fullName = entry'.fullName → key = key'

/-- No full name has blanks at its ends. -/
def Bare (tree : NamespaceTree) : Prop :=
  ∀ key entry, tree.heading? key = some entry → Text.trim entry.fullName = entry.fullName

/-- Every namespace of the one tree is one of the other, by the same key. -/
structure Extends (tree tree' : NamespaceTree) : Prop where
  separator : tree'.separator = tree.separator
  heading? : ∀ key entry, tree.heading? key = some entry → tree'.heading? key = some entry

theorem Extends.refl (tree : NamespaceTree) : tree.Extends tree := ⟨rfl, fun _ _ h => h⟩

theorem Extends.trans {tree'' : NamespaceTree} (h : tree.Extends tree')
    (h' : tree'.Extends tree'') : tree.Extends tree'' :=
  ⟨h'.separator.trans h.separator, fun key entry hentry =>
    h'.heading? key entry (h.heading? key entry hentry)⟩

theorem lt_size_of_heading? {key : Nat} {entry : NamespaceEntry}
    (h : tree.heading? key = some entry) : key < tree.size := by
  obtain ⟨_, hentry, -⟩ := Option.map_eq_some_iff.1 h
  exact (Array.getElem?_eq_some_iff.1 hentry).1

/-! ## Keys -/

theorem keyOf?_some {fullName : String} {key : Nat} (h : tree.keyOf? fullName = some key) :
    ∃ entry, tree.heading? key = some entry ∧ entry.fullName = fullName := by
  obtain ⟨hlt, hname, -⟩ := Array.findIdx?_eq_some_iff_getElem.1 h
  refine ⟨_, Option.map_eq_some_iff.2 ⟨_, Array.getElem?_eq_getElem hlt, rfl⟩, ?_⟩
  exact of_decide_eq_true hname

theorem keyOf?_none {fullName : String} (h : tree.keyOf? fullName = none) {key : Nat}
    {entry : NamespaceEntry} (hentry : tree.heading? key = some entry) :
    entry.fullName ≠ fullName := by
  obtain ⟨entry, hget, rfl⟩ := Option.map_eq_some_iff.1 hentry
  have hmem := Array.mem_of_getElem? hget
  have hnot := Array.findIdx?_eq_none_iff.1 h entry hmem
  exact of_decide_eq_false hnot

/-- A full name leads to the key of its namespace. -/
theorem WellFormed.keyOf?_fullName (h : tree.WellFormed) {key : Nat} {entry : NamespaceEntry}
    (hentry : tree.heading? key = some entry) : tree.keyOf? entry.fullName = some key := by
  cases hkey : tree.keyOf? entry.fullName with
  | none => exact absurd rfl (keyOf?_none hkey hentry)
  | some key' =>
    obtain ⟨entry', hentry', hname⟩ := keyOf?_some hkey
    rw [h.distinct key' key entry' entry hentry' hentry hname]

/-! ## Insertion -/

theorem heading?_attach (tree : NamespaceTree) (parent : Nat) (name fullName : String)
    (key : Nat) :
    (tree.attach parent name fullName).heading? key =
      if key = tree.size then some { name, fullName, parent := some parent }
      else tree.heading? key := by
  have hsize : tree.entries.size = tree.size := rfl
  rw [heading?, attach, Array.getElem?_push, Array.size_modify, hsize]
  by_cases hkey : key = tree.size
  · rw [if_pos hkey, if_pos hkey]
    rfl
  · rw [if_neg hkey, if_neg hkey, heading?, Array.getElem?_modify]
    split
    · cases tree.entries[key]? <;> rfl
    · rfl

theorem attach_extends (tree : NamespaceTree) (parent : Nat) (name fullName : String) :
    tree.Extends (tree.attach parent name fullName) := by
  refine ⟨rfl, fun key entry hentry => ?_⟩
  rw [heading?_attach, if_neg (Nat.ne_of_lt (lt_size_of_heading? hentry))]
  exact hentry

/-- A namespace with a new full name may be put below any other one. -/
theorem attach_wellFormed (h : tree.WellFormed) {parent : Nat} {outer : NamespaceEntry}
    (hparent : tree.heading? parent = some outer) {name fullName : String}
    (hname : fullName = tree.separator.join outer.fullName name)
    (hfresh : tree.keyOf? fullName = none) :
    (tree.attach parent name fullName).WellFormed := by
  have hextends := attach_extends tree parent name fullName
  constructor
  · exact hextends.heading? _ _ h.root
  · intro key entry hentry hkey
    rw [heading?_attach] at hentry
    split at hentry
    next heq =>
      cases hentry
      exact ⟨parent, outer, rfl, heq ▸ lt_size_of_heading? hparent,
        hextends.heading? _ _ hparent, hname⟩
    next =>
      obtain ⟨parent', outer', hparent', hlt, houter', hname'⟩ := h.below key entry hentry hkey
      exact ⟨parent', outer', hparent', hlt, hextends.heading? _ _ houter', hname'⟩
  · intro key key' entry entry' hentry hentry' heq
    rw [heading?_attach] at hentry hentry'
    split at hentry <;> split at hentry'
    next hkey hkey' => rw [hkey, hkey']
    next =>
      cases hentry
      exact absurd heq.symm (keyOf?_none hfresh hentry')
    next =>
      cases hentry'
      exact absurd heq (keyOf?_none hfresh hentry)
    next => exact h.distinct key key' entry entry' hentry hentry' heq

theorem attach_bare (h : tree.Bare) {parent : Nat} {name fullName : String}
    (hname : Text.trim fullName = fullName) : (tree.attach parent name fullName).Bare := by
  intro key entry hentry
  rw [heading?_attach] at hentry
  split at hentry
  · cases hentry
    exact hname
  · exact h key entry hentry

/-- **The tree has grown into one in which the key is that of the full name.** -/
structure GrownTo (tree tree' : NamespaceTree) (key : Nat) (fullName : String) : Prop where
  grown : tree.Extends tree'
  wellFormed : tree'.WellFormed
  found : ∃ entry, tree'.heading? key = some entry ∧ entry.fullName = fullName

theorem ensure_grown (h : tree.WellFormed) {parent : Nat} {outer : NamespaceEntry}
    (hparent : tree.heading? parent = some outer) (name : String) :
    tree.GrownTo (tree.ensure parent name (tree.separator.join outer.fullName name)).1
      (tree.ensure parent name (tree.separator.join outer.fullName name)).2
      (tree.separator.join outer.fullName name) := by
  unfold ensure
  split
  next key hkey => exact ⟨.refl tree, h, keyOf?_some hkey⟩
  next hfresh =>
    refine ⟨attach_extends tree _ _ _, attach_wellFormed h hparent rfl hfresh, ?_⟩
    exact ⟨_, by rw [heading?_attach, if_pos rfl], rfl⟩

theorem insertSegments_grown (h : tree.WellFormed) {key : Nat} {outer : NamespaceEntry}
    (hkey : tree.heading? key = some outer) (segments : List String) :
    tree.GrownTo (tree.insertSegments key outer.fullName segments).1
      (tree.insertSegments key outer.fullName segments).2
      (segments.foldl tree.separator.join outer.fullName) := by
  induction segments generalizing tree key outer with
  | nil => exact ⟨.refl tree, h, outer, hkey, rfl⟩
  | cons segment segments ih =>
    have hstep := ensure_grown h hkey segment
    obtain ⟨entry, hentry, hname⟩ := hstep.found
    have hrest := ih hstep.wellFormed hentry
    rw [hname, hstep.grown.separator] at hrest
    exact ⟨hstep.grown.trans hrest.grown, hrest.wellFormed, hrest.found⟩

theorem isWellFormed_segments {name : String} (h : tree.isWellFormed name) (hname : name ≠ "") :
    ∀ segment ∈ tree.separator.segments name, segment ≠ "" := by
  simp only [isWellFormed, hname, decide_false, Bool.false_or, List.all_eq_true] at h
  rintro segment hsegment rfl
  simpa [Text.isBlank] using h "" hsegment

/-- **What an insertion does.** A name that is in the tree is left there; of one that is not, the
segments are added one below the other, or the whole of it below the root. -/
theorem insert_cases (tree : NamespaceTree) (name : String) :
    (∃ key, tree.keyOf? (Text.trim name) = some key ∧
      tree.insert name = (tree, key, tree.isWellFormed (Text.trim name))) ∨
    (tree.keyOf? (Text.trim name) = none ∧ tree.isWellFormed (Text.trim name) = true ∧
      ∃ grown key, tree.insertSegments rootKey "" (tree.separator.segments (Text.trim name)) =
          (grown, key) ∧
        tree.insert name = (grown, key, true)) ∨
    (tree.keyOf? (Text.trim name) = none ∧ tree.isWellFormed (Text.trim name) = false ∧
      tree.insert name =
        (tree.attach rootKey (Text.trim name) (Text.trim name), tree.size, false)) := by
  unfold insert
  dsimp only
  split
  next key hkey => exact .inl ⟨key, hkey, rfl⟩
  next hfresh =>
    split
    next hwell =>
      generalize tree.insertSegments rootKey "" (tree.separator.segments (Text.trim name)) = grown
      exact .inr (.inl ⟨hfresh, hwell, grown.1, grown.2, rfl, rfl⟩)
    next hwell => exact .inr (.inr ⟨hfresh, Bool.eq_false_iff.2 hwell, rfl⟩)

/-- **What an insertion keeps**, by what it does to the tree. -/
theorem insert_keeps {P : NamespaceTree → Prop} {name : String} (hP : P tree)
    (hsegments : tree.keyOf? (Text.trim name) = none → tree.isWellFormed (Text.trim name) = true →
      P (tree.insertSegments rootKey "" (tree.separator.segments (Text.trim name))).1)
    (hattach : tree.keyOf? (Text.trim name) = none → tree.isWellFormed (Text.trim name) = false →
      P (tree.attach rootKey (Text.trim name) (Text.trim name))) :
    P (tree.insert name).1 := by
  obtain ⟨key, -, heq⟩ | ⟨hfresh, hwell, grown, key, hgrown, heq⟩ | ⟨hfresh, hwell, heq⟩ :=
    tree.insert_cases name
  · rw [heq]
    exact hP
  · have hnew := hsegments hfresh hwell
    rw [hgrown] at hnew
    rw [heq]
    exact hnew
  · rw [heq]
    exact hattach hfresh hwell

/-- A name that is not in the tree is not that of the root. -/
theorem WellFormed.ne_empty_of_fresh (h : tree.WellFormed) {fullName : String}
    (hfresh : tree.keyOf? fullName = none) : fullName ≠ "" :=
  fun heq => keyOf?_none hfresh h.root heq.symm

/-- **An insertion keeps the tree a tree, and the name is found in it.** -/
theorem insert_grown (h : tree.WellFormed) (name : String) :
    tree.GrownTo (tree.insert name).1 (tree.insert name).2.1 (Text.trim name) := by
  obtain ⟨key, hkey, heq⟩ | ⟨hfresh, hwell, grown, key, hgrown, heq⟩ | ⟨hfresh, -, heq⟩ :=
    tree.insert_cases name
  · rw [heq]
    exact ⟨.refl tree, h, keyOf?_some hkey⟩
  · have hsegments := insertSegments_grown h h.root (tree.separator.segments (Text.trim name))
    rw [Separator.foldl_join_segments _ (isWellFormed_segments hwell (h.ne_empty_of_fresh hfresh)),
      hgrown] at hsegments
    rw [heq]
    exact hsegments
  · rw [heq]
    refine ⟨attach_extends tree _ _ _, attach_wellFormed h h.root rfl hfresh, ?_⟩
    have hnew : (tree.attach rootKey (Text.trim name) (Text.trim name)).heading? tree.size =
        some { name := Text.trim name, fullName := Text.trim name, parent := some rootKey } := by
      rw [heading?_attach, if_pos rfl]
    exact ⟨_, hnew, rfl⟩

/-! ### Blanks -/

/-- Names without blanks at their ends, joined. -/
theorem trim_join {sep : Separator} {outer name : String} (houter : Text.trim outer = outer)
    (hname : Text.trim name = name) : Text.trim (sep.join outer name) = sep.join outer name := by
  unfold Separator.join
  split
  · exact hname
  · split
    · exact houter
    next houter' hname' =>
      rw [Text.trim_eq_self_iff] at houter hname ⊢
      rw [String.toList_append, String.toList_append]
      refine houter.append hname ?_ ?_ _
      · exact fun heq => houter' (String.toList_inj.1 heq)
      · exact fun heq => hname' (String.toList_inj.1 heq)

theorem insertSegments_bare (h : tree.Bare) {key : Nat} {fullName : String}
    (hname : Text.trim fullName = fullName) {segments : List String}
    (hsegments : ∀ segment ∈ segments, Text.trim segment = segment) :
    (tree.insertSegments key fullName segments).1.Bare := by
  induction segments generalizing tree key fullName with
  | nil => exact h
  | cons segment segments ih =>
    have hjoin : Text.trim (tree.separator.join fullName segment) =
        tree.separator.join fullName segment := trim_join hname (hsegments segment (by simp))
    have hstep : (tree.ensure key segment (tree.separator.join fullName segment)).1.Bare := by
      unfold ensure
      split
      · exact h
      · exact attach_bare h hjoin
    exact ih hstep hjoin fun other hother => hsegments other (by simp [hother])

/-- No full name gets blanks at its ends, if no segment of the inserted name has any. -/
theorem insert_bare (h : tree.Bare) {name : String}
    (hname : ∀ segment ∈ tree.separator.segments (Text.trim name), Text.trim segment = segment) :
    (tree.insert name).1.Bare := by
  apply insert_keeps h
  · intro _ _
    exact insertSegments_bare h rfl hname
  · intro _ _
    exact attach_bare h (Text.trim_trim name)

theorem empty_wellFormed (sep : Separator) : (empty sep).WellFormed := by
  have hkey (key : Nat) (entry : NamespaceEntry) (h : (empty sep).heading? key = some entry) :
      key = rootKey := by
    have hlt := lt_size_of_heading? h
    simp only [size, empty, List.size_toArray, List.length_singleton] at hlt
    exact Nat.lt_one_iff.1 hlt
  refine ⟨rfl, fun key entry h hne => absurd (hkey key entry h) hne, ?_⟩
  intro key key' entry entry' h h' _
  rw [hkey key entry h, hkey key' entry' h']

theorem empty_bare (sep : Separator) : (empty sep).Bare := by
  intro key entry h
  obtain ⟨_, hentry, rfl⟩ := Option.map_eq_some_iff.1 h
  have hmem := Array.mem_of_getElem? hentry
  rw [empty, List.mem_toArray, List.mem_singleton] at hmem
  rw [hmem]
  rfl

/-! ## Chains -/

/-- The one full name is that of the namespace of the other one, joined with its last segment. -/
def Below (tree : NamespaceTree) (outer inner : String) : Prop :=
  ∃ key entry, tree.heading? key = some entry ∧ entry.fullName = inner ∧ inner ≠ "" ∧
    inner = tree.separator.join outer entry.name

/-- The full names from a key upwards lead to the global namespace, from one namespace to the one
around it. -/
theorem upwards_spec (h : tree.WellFormed) {steps key : Nat} (hsteps : key < steps)
    {entry : NamespaceEntry} (hentry : tree.heading? key = some entry) :
    ∃ names, (tree.upwards steps key).reverse = "" :: names ∧ "" ∉ names ∧
      ("" :: names).getLast? = some entry.fullName ∧ List.IsChain tree.Below ("" :: names) := by
  induction steps generalizing key entry with
  | zero => omega
  | succ steps ih =>
    obtain ⟨full, hfull, rfl⟩ := Option.map_eq_some_iff.1 hentry
    unfold upwards
    rw [hfull]
    -- The root ends the way. Any other entry has a parent that was made before it.
    by_cases hkey : key = rootKey
    · subst hkey
      have hroot := h.root
      rw [hentry] at hroot
      have hparent : full.parent = none := congrArg NamespaceEntry.parent (Option.some.inj hroot)
      have hname : full.fullName = "" := congrArg NamespaceEntry.fullName (Option.some.inj hroot)
      refine ⟨[], ?_, by simp, ?_, ?_⟩
      · simp [hparent, hname]
      · simpa [NamespaceEntry.heading] using hname.symm
      · simp
    · obtain ⟨parent, outer, hparent, hlt, houter, hname⟩ := h.below key _ hentry hkey
      obtain ⟨names, hnames, hfull, hlast, hchain⟩ := ih (by omega) houter
      have hne : full.fullName ≠ "" := fun heq =>
        hkey (h.distinct key rootKey _ _ hentry h.root heq)
      have hparent' : full.parent = some parent := hparent
      refine ⟨names ++ [full.fullName], ?_, by simp [hfull, Ne.symm hne], ?_, ?_⟩
      · simp [hparent', hnames]
      · simp [NamespaceEntry.heading, List.getLast?_cons]
      · rw [← List.cons_append, List.isChain_append]
        refine ⟨hchain, by simp, ?_⟩
        intro last hmem first hfirst
        rw [hlast] at hmem
        cases hmem
        cases hfirst
        exact ⟨key, _, hentry, rfl, hne, hname⟩

/-- **The chain of a name that is in the tree**, from the global namespace inwards. -/
theorem chain_of_found (h : tree.WellFormed) {name : String} {key : Nat}
    (hkey : tree.find? name = some key) :
    ∃ names, (tree.chain name).reverse = "" :: names ∧ "" ∉ names ∧
      List.IsChain tree.Below ("" :: names) := by
  obtain ⟨entry, hentry, -⟩ := keyOf?_some hkey
  obtain ⟨names, hnames, hne, -, hchain⟩ := upwards_spec h (lt_size_of_heading? hentry) hentry
  exact ⟨names, by rw [chain, hkey]; exact hnames, hne, hchain⟩

/-- In a tree without blanks, the last segment of a full name is that of its entry. -/
theorem entry?_fullName (h : tree.WellFormed) (hbare : tree.Bare) {key : Nat}
    {entry : NamespaceEntry} (hentry : tree.heading? key = some entry) :
    ∃ full, tree.entry? entry.fullName = some full ∧ full.name = entry.name := by
  obtain ⟨full, hfull, rfl⟩ := Option.map_eq_some_iff.1 hentry
  refine ⟨full, ?_, rfl⟩
  have hkey : tree.find? full.heading.fullName = some key := by
    rw [find?, hbare key _ hentry]
    exact h.keyOf?_fullName hentry
  rw [ entry?, hkey]
  exact hfull

/-! ## Where a namespace stands

What is inserted besides a name has no part in its chain: where a namespace stands follows from its
full name. -/

/-- The full name of the namespace around the one with that full name. A malformed name stands
directly in the global namespace. -/
def outerName (tree : NamespaceTree) (fullName : String) : String :=
  if tree.isWellFormed fullName then
    (tree.separator.segments fullName).dropLast.foldl tree.separator.join ""
  else ""

theorem outerName_congr (h : tree'.separator = tree.separator) (fullName : String) :
    tree'.outerName fullName = tree.outerName fullName := by
  rw [outerName, outerName, isWellFormed, isWellFormed, h]

/-- **Every namespace stands where its full name says.** -/
def Placed (tree : NamespaceTree) : Prop :=
  ∀ key entry parent outer, tree.heading? key = some entry → entry.parent = some parent →
    tree.heading? parent = some outer → outer.fullName = tree.outerName entry.fullName

theorem attach_placed (h : tree.WellFormed) (hplaced : tree.Placed) {parent : Nat}
    {outer : NamespaceEntry} (hparent : tree.heading? parent = some outer) {name fullName : String}
    (hname : outer.fullName = tree.outerName fullName) :
    (tree.attach parent name fullName).Placed := by
  have hextends := attach_extends tree parent name fullName
  intro key entry parent' outer' hentry hparent' houter'
  rw [heading?_attach] at hentry
  split at hentry
  next =>
    cases hentry
    cases hparent'
    rw [hextends.heading? _ _ hparent] at houter'
    cases houter'
    exact hname
  next =>
    have hkey : key ≠ rootKey := by
      rintro rfl
      rw [h.root] at hentry
      cases hentry
      cases hparent'
    obtain ⟨parent'', outer'', heq, -, houter'', -⟩ := h.below key entry hentry hkey
    obtain rfl : parent'' = parent' := Option.some.inj (heq.symm.trans hparent')
    rw [hextends.heading? _ _ houter''] at houter'
    cases houter'
    exact hplaced key entry parent'' _ hentry heq houter''

theorem insertSegments_placed (h : tree.WellFormed) (hplaced : tree.Placed) {key : Nat}
    {outer : NamespaceEntry} (hkey : tree.heading? key = some outer) {segments : List String}
    (hsegments : ∀ count < segments.length,
      (segments.take count).foldl tree.separator.join outer.fullName =
        tree.outerName ((segments.take (count + 1)).foldl tree.separator.join outer.fullName)) :
    (tree.insertSegments key outer.fullName segments).1.Placed := by
  induction segments generalizing tree key outer with
  | nil => exact hplaced
  | cons segment segments ih =>
    have hstep := ensure_grown h hkey segment
    have hstep' :
        (tree.ensure key segment (tree.separator.join outer.fullName segment)).1.Placed := by
      unfold ensure
      split
      · exact hplaced
      · exact attach_placed h hplaced hkey (hsegments 0 (by simp))
    obtain ⟨entry, hentry, hname⟩ := hstep.found
    have hrest := ih hstep.wellFormed hstep' hentry fun count hcount => by
      rw [hstep.grown.separator, hname, outerName_congr hstep.grown.separator]
      exact hsegments (count + 1) (by simpa using hcount)
    rw [hname] at hrest
    exact hrest

/-- The name that is made of the first segments of a name. -/
def front (tree : NamespaceTree) (name : String) (count : Nat) : String :=
  ((tree.separator.segments name).take count).foldl tree.separator.join ""

/-- **Around the first segments of a well-formed name** is the name of one segment less. -/
theorem outerName_front {name : String} (hwell : tree.isWellFormed name) (hname : name ≠ "")
    {count : Nat} (hcount : count < (tree.separator.segments name).length) :
    tree.outerName (tree.front name (count + 1)) = tree.front name count := by
  have hfront :=
    tree.separator.segments_foldl_join_take (isWellFormed_segments hwell hname) count
  have hwell' : tree.isWellFormed (tree.front name (count + 1)) := by
    simp only [isWellFormed, hname, decide_false, Bool.false_or, List.all_eq_true] at hwell
    rw [isWellFormed, front, hfront, Bool.or_eq_true, List.all_eq_true]
    exact .inr fun segment hsegment => hwell segment (List.mem_of_mem_take hsegment)
  have hlast : ((tree.separator.segments name).take (count + 1)).dropLast =
      (tree.separator.segments name).take count := by
    rw [List.take_succ_eq_append_getElem hcount, List.dropLast_concat]
  rw [outerName, if_pos hwell', front, hfront, hlast, front]

theorem insert_placed (h : tree.WellFormed) (hplaced : tree.Placed) (name : String) :
    (tree.insert name).1.Placed := by
  apply insert_keeps hplaced
  · intro hfresh hwell
    apply insertSegments_placed h hplaced h.root
    intro count hcount
    exact (outerName_front hwell (h.ne_empty_of_fresh hfresh) hcount).symm
  · intro _ hwell
    apply attach_placed h hplaced h.root
    rw [outerName, hwell]
    rfl

theorem empty_placed (sep : Separator) : (empty sep).Placed := by
  intro key entry parent outer hentry hparent
  obtain ⟨_, hget, rfl⟩ := Option.map_eq_some_iff.1 hentry
  have hmem := Array.mem_of_getElem? hget
  rw [empty, List.mem_toArray, List.mem_singleton] at hmem
  rw [hmem] at hparent
  cases hparent

theorem upwards_succ {key steps : Nat} {entry : NamespaceEntry}
    (h : tree.heading? key = some entry) :
    tree.upwards (steps + 1) key = entry.fullName ::
      match entry.parent with
      | none => []
      | some parent => tree.upwards steps parent := by
  obtain ⟨full, hfull, rfl⟩ := Option.map_eq_some_iff.1 h
  rw [upwards, hfull]
  cases hparent : full.parent <;> simp [NamespaceEntry.heading, hparent]

/-- Namespaces of the same full name stand below namespaces of the same full names. -/
theorem upwards_congr (h : tree.WellFormed) (h' : tree'.WellFormed)
    (hplaced : tree.Placed) (hplaced' : tree'.Placed)
    (hsep : tree'.separator = tree.separator) {steps steps' key key' : Nat} (hsteps : key < steps)
    (hsteps' : key' < steps') {entry entry' : NamespaceEntry}
    (hentry : tree.heading? key = some entry) (hentry' : tree'.heading? key' = some entry')
    (hname : entry'.fullName = entry.fullName) :
    tree'.upwards steps' key' = tree.upwards steps key := by
  induction steps generalizing steps' key key' entry entry' with
  | zero => omega
  | succ steps ih =>
    obtain _ | steps' := steps'
    · omega
    rw [upwards_succ hentry, upwards_succ hentry', hname]
    by_cases hkey : key = rootKey
    · subst hkey
      obtain rfl := Option.some.inj (hentry.symm.trans h.root)
      obtain rfl := h'.distinct key' rootKey entry' _ hentry' h'.root hname
      obtain rfl := Option.some.inj (hentry'.symm.trans h'.root)
      rfl
    · have hkey' : key' ≠ rootKey := by
        rintro rfl
        obtain rfl := Option.some.inj (hentry'.symm.trans h'.root)
        exact hkey (h.distinct key rootKey entry _ hentry h.root hname.symm)
      obtain ⟨parent, outer, hparent, hlt, houter, -⟩ := h.below key entry hentry hkey
      obtain ⟨parent', outer', hparent', hlt', houter', -⟩ := h'.below key' entry' hentry' hkey'
      rw [hparent, hparent']
      have hplace := hplaced key entry parent outer hentry hparent houter
      have hplace' := hplaced' key' entry' parent' outer' hentry' hparent' houter'
      rw [outerName_congr hsep, hname, ← hplace] at hplace'
      exact congrArg _ (ih (by omega) (by omega) houter houter' hplace')

/-- **The chain of a name does not depend on what else is in the tree.** -/
theorem chain_congr (h : tree.WellFormed) (h' : tree'.WellFormed)
    (hplaced : tree.Placed) (hplaced' : tree'.Placed)
    (hsep : tree'.separator = tree.separator) {name : String} {key key' : Nat}
    (hkey : tree.find? name = some key) (hkey' : tree'.find? name = some key') :
    tree'.chain name = tree.chain name := by
  obtain ⟨entry, hentry, hname⟩ := keyOf?_some hkey
  obtain ⟨entry', hentry', hname'⟩ := keyOf?_some hkey'
  rw [chain, chain, hkey, hkey']
  exact upwards_congr h h' hplaced hplaced' hsep (lt_size_of_heading? hentry)
    (lt_size_of_heading? hentry') hentry hentry' (hname'.trans hname.symm)

end NamespaceTree

end FactGraph
