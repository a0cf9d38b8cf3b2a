import FactGraph.Proofs.Name.Path
import FactGraph.Proofs.Scope.Insertion

/-!
# The namespaces around a path

The chain of a name is found in two ways. A name that is in the tree is followed from parent to
parent; a name that is not is taken apart at its separators, from the last one on. The tree was made
the other way round, by going through the segments from the first one on.

For a path, whose segments have no trace of the separator, it makes no difference. Where its
namespace stands is read off its full name, so the parent of a path is the path without its last
segment, and that is also what stands before its last separator. So the chain is the same whatever
has been inserted, the path itself or names around it, or names that are malformed.

## Main results

* `outerName_path`: around a path is the path without its last segment
* `chain_path`: the namespaces around a path, in any tree that says where its namespaces stand
* `chain_insertAll`: the same, after any run of insertions
-/

namespace FactGraph

/-- A separator of two characters. One of them alone does not separate. -/
def Separator.slashes : Separator := ⟨"//", by decide⟩

namespace NamespaceTree

variable {tree : NamespaceTree} {segments : List String}

/-- **Around a path** is the path without its last segment. -/
theorem outerName_path {segment : String}
    (h : ∀ segment ∈ segments, tree.separator.IsSegment segment)
    (hsegment : tree.separator.IsSegment segment) :
    tree.outerName (tree.separator.path (segments ++ [segment])) =
      tree.separator.path segments := by
  have hall : ∀ other ∈ segments ++ [segment], tree.separator.IsSegment other := by
    simpa [or_imp, forall_and] using ⟨h, hsegment⟩
  have hsegments := Separator.segments_path (by simp) hall
  have hwell : tree.isWellFormed (tree.separator.path (segments ++ [segment])) := by
    rw [isWellFormed, hsegments, Bool.or_eq_true, List.all_eq_true]
    exact .inr fun other hother => by simp [(hall other hother).1]
  rw [outerName, if_pos hwell, hsegments, List.dropLast_concat]
  rfl

/-- From the namespace of a path upwards there are the names around the path. -/
theorem upwards_path (h : tree.WellFormed) (hplaced : tree.Placed) {steps key : Nat}
    (hsteps : key < steps) {entry : NamespaceEntry} (hentry : tree.heading? key = some entry)
    (hsegments : ∀ segment ∈ segments, tree.separator.IsSegment segment)
    (hname : entry.fullName = tree.separator.path segments) :
    tree.upwards steps key = tree.separator.around (tree.separator.path segments) := by
  induction steps generalizing key entry segments with
  | zero => omega
  | succ steps ih =>
    rw [upwards_succ hentry, hname]
    by_cases hkey : key = rootKey
    · subst hkey
      obtain rfl := Option.some.inj (hentry.symm.trans h.root)
      rw [← hname]
      rfl
    · obtain ⟨parent, outer, hparent, hlt, houter, -⟩ := h.below key entry hentry hkey
      have hne : segments ≠ [] := by
        rintro rfl
        exact hkey (h.distinct key rootKey entry _ hentry h.root hname)
      obtain ⟨front, last, rfl⟩ := List.eq_nil_or_concat' segments |>.resolve_left hne
      have hfront : ∀ segment ∈ front, tree.separator.IsSegment segment :=
        fun segment hsegment => hsegments segment (by simp [hsegment])
      have hlast := hsegments last (by simp)
      have hplace := hplaced key entry parent outer hentry hparent houter
      rw [hname, outerName_path hfront hlast] at hplace
      rw [hparent, Separator.around_path_concat hfront hlast]
      exact congrArg _ (ih (by omega) houter hfront hplace)

/-- **The namespaces around a path**, whether it is in the tree or not. -/
theorem chain_path (h : tree.WellFormed) (hplaced : tree.Placed) {name : String}
    (hpath : tree.separator.IsPath name) (htrim : Text.trim name = name) :
    tree.chain name = tree.separator.around name := by
  obtain ⟨segments, hsegments, rfl⟩ := hpath
  rw [chain]
  split
  next key hkey =>
    obtain ⟨entry, hentry, hname⟩ := keyOf?_some hkey
    rw [htrim] at hname
    exact upwards_path h hplaced (lt_size_of_heading? hentry) hentry hsegments hname
  next =>
    rw [htrim]
    rfl

/-- **The chain of a path does not depend on what was inserted**: it has the paths of the first
segments, the longest first, and at last the empty name. Blanks at the ends of a segment do no harm,
as long as none of them is at an end of the path, where it would be trimmed off. -/
theorem chain_insertAll (sep : Separator) (names : List String) {segments : List String}
    (hsegments : ∀ segment ∈ segments, sep.IsSegment segment)
    (htrim : Text.trim (sep.path segments) = sep.path segments) :
    ((empty sep).insertAll names).chain (sep.path segments) =
      segments.inits.tail.reverse.map sep.path ++ [""] := by
  obtain ⟨hgrown, hwell⟩ := insertAll_grown (empty_wellFormed sep) names
  have hplaced := insertAll_placed (empty_wellFormed sep) (empty_placed sep) names
  have hsep : ((empty sep).insertAll names).separator = sep := hgrown.separator
  have hpath : ((empty sep).insertAll names).separator.IsPath (sep.path segments) := by
    rw [hsep]
    exact ⟨segments, hsegments, rfl⟩
  have hinits : segments.inits = [] :: segments.inits.tail := by
    cases segments <;> simp
  calc ((empty sep).insertAll names).chain (sep.path segments)
      = sep.around (sep.path segments) := by rw [chain_path hwell hplaced hpath htrim, hsep]
    _ = segments.inits.reverse.map sep.path := Separator.around_path hsegments
    _ = segments.inits.tail.reverse.map sep.path ++ [""] := by
        conv_lhs => rw [hinits, List.reverse_cons, List.map_append]
        rfl

/-- A path with blanks around it, and a malformed name. -/
def slashedNames : List String := [" Geo//Shapes ", "Geo////Disc"]

/-- The chain of a path that was inserted with blanks around it, of one that was not but stands
below it, and of one of which no part is in the tree. -/
theorem chain_insertAll_slashes :
    let tree := (empty .slashes).insertAll slashedNames
    (∀ segment ∈ ["Geo", "Shapes", "Disc"], Separator.slashes.IsSegment segment) ∧
    Text.trim "Geo//Shapes//Disc" = "Geo//Shapes//Disc" ∧
    tree.chain "Geo//Shapes" = ["Geo//Shapes", "Geo", ""] ∧
    tree.chain "Geo//Shapes//Disc" = ["Geo//Shapes//Disc", "Geo//Shapes", "Geo", ""] ∧
    tree.chain "Shapes//Disc" = ["Shapes//Disc", "Shapes", ""] := by
  have hdisc : ∀ segment ∈ ["Geo", "Shapes", "Disc"], Separator.slashes.IsSegment segment := by
    decide
  have hshapes : ∀ segment ∈ ["Geo", "Shapes"], Separator.slashes.IsSegment segment := by decide
  have hunknown : ∀ segment ∈ ["Shapes", "Disc"], Separator.slashes.IsSegment segment := by decide
  have hfound := chain_insertAll .slashes slashedNames hshapes (by decide)
  have hbelow := chain_insertAll .slashes slashedNames hdisc (by decide)
  have hnew := chain_insertAll .slashes slashedNames hunknown (by decide)
  exact ⟨hdisc, by decide, hfound, hbelow, hnew⟩

end NamespaceTree

end FactGraph
