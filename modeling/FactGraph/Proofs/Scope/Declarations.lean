import FactGraph.Proofs.Fact.Listing
import FactGraph.Proofs.Name.Plain
import FactGraph.Proofs.Scope.Chain
import FactGraph.Proofs.Scope.Index

/-!
# The tables of declarations

An index keeps its declarations in one list, and looks them up by two tables: by full name, and by
the last segment of the name within the namespace. A name of several segments is looked for under
its last segment, and what is found there is tried with the full name. That would miss a declaration
whose full name ends in the name but which stands under another last segment.

There is none if the declarations are plain, that is if their full names are paths. A name at the
end of a path, behind a separator, begins where a segment begins: not in the middle of a separator,
and not across the end of one, even if the separator may overlap with itself. So the tables give
what a scan of all declarations gives, in the same order.

## Main definitions

* `TypeFact.IsPlain`: namespace and enclosing types are paths, the name is a segment

## Main results

* `Separator.lastSegment_of_endsWith`: what a path ends in has the last segment of the path
* `ScopeIndex.declarationsEndingWith_eq_filter`: the declarations that end in a name, by a scan
* `ScopeIndex.declarationTables_scan`: both tables agree with a scan of the named declarations
-/

namespace FactGraph

/-! ## Plain declarations -/

/-- **A plain declaration**: its namespace and its enclosing types are paths, and its name is a
single segment. -/
structure TypeFact.IsPlain (sep : Separator) (fact : TypeFact) : Prop where
  namespaceName : sep.IsPath fact.trimmedNamespace
  outerName : ∀ outer ∈ fact.outerName?, sep.IsPath outer
  simpleName : sep.IsSegment fact.simpleName

namespace TypeFact.IsPlain

variable {sep : Separator} {fact : TypeFact}

/-- The full name of a plain declaration is a path, whose last segment is the name. -/
theorem exists_path (h : fact.IsPlain sep) : ∃ segments others,
    (∀ segment ∈ segments ++ others, sep.IsSegment segment) ∧
    fact.trimmedNamespace = sep.path segments ∧ fact.outerName?.getD "" = sep.path others ∧
    fact.fullName sep = sep.path (segments ++ others ++ [fact.simpleName]) := by
  obtain ⟨segments, hsegments, hnamespace⟩ := h.namespaceName
  have hsimple := h.simpleName.ne_empty
  unfold fullName relativeName
  cases houter : fact.outerName? with
  | none =>
    refine ⟨segments, [], by simpa using hsegments, hnamespace.symm, rfl, ?_⟩
    rw [List.append_nil, Separator.path_concat, hnamespace]
  | some outer =>
    obtain ⟨others, hothers, rfl⟩ := h.outerName outer houter
    refine ⟨segments, others, ?_, hnamespace.symm, rfl, ?_⟩
    · simpa [or_imp, forall_and] using ⟨hsegments, hothers⟩
    · have hne : sep.path others ≠ "" := by
        simpa using (Option.filter_eq_some_iff.1 houter).2
      rw [Separator.path_concat, Separator.path_append, sep.join_assoc, hnamespace,
        sep.join_of_ne hne hsimple]

end TypeFact.IsPlain

/-! ## Names at the end of a path -/

/-- A pattern that stands somewhere in a text before the rest also stands there before the last
part, at the same place or further back. It does not begin in the middle of the last pattern, nor
in what is before it, which does not end in a character of the pattern. -/
theorem Text.eq_or_append_of_append {pattern front back outer last : List Char}
    (houter : ∀ c ∈ outer.getLast?, c ∉ pattern) (hlast : ∀ c ∈ last, c ∉ pattern)
    (hpattern : pattern ≠ []) (h : front ++ pattern ++ back = outer ++ pattern ++ last) :
    back = last ∨ ∃ middle, back = middle ++ pattern ++ last := by
  have hend {cs excess : List Char} {c : Char} (heq : front ++ pattern = cs ++ (excess ++ [c])) :
      c ∈ pattern := by
    have hsame := congrArg List.getLast? heq
    rw [List.getLast?_append_of_ne_nil _ hpattern, ← List.append_assoc,
      List.getLast?_concat] at hsame
    exact List.mem_of_getLast? hsame
  rcases List.append_eq_append_iff.1 h with ⟨excess, hexcess, rfl⟩ | ⟨excess, hexcess, rfl⟩
  · rcases List.append_eq_append_iff.1 hexcess with ⟨met, hmet, hsplit⟩ | ⟨middle, -, rfl⟩
    · -- The rest would begin within the last pattern, so it does only at its end.
      rcases List.append_eq_append_iff.1 hmet with ⟨start, rfl, hstart⟩ | ⟨start, -, rfl⟩
      · rcases List.eq_nil_or_concat' start with rfl | ⟨start, c, rfl⟩
        · have hlength := congrArg List.length (hstart.symm.trans hsplit)
          simp only [List.nil_append, List.length_append] at hlength
          exact .inl (by rw [List.eq_nil_of_length_eq_zero (l := excess) (by omega),
            List.nil_append])
        · refine absurd ?_ (houter c (by simp [← List.append_assoc]))
          rw [hstart]
          simp
      · have hlength := congrArg List.length hsplit
        simp only [List.length_append] at hlength
        exact .inl (by rw [List.eq_nil_of_length_eq_zero (l := excess) (by omega),
          List.nil_append])
    · exact .inr ⟨middle, rfl⟩
  · rcases List.eq_nil_or_concat' excess with rfl | ⟨excess, c, rfl⟩
    · exact .inl rfl
    · exact absurd (hend hexcess) (hlast c (by simp))

namespace Separator

variable {sep : Separator} {segments : List String} {segment name : String}

/-- The last segment of a name put behind another one. -/
theorem lastSegment_of_append (hsegment : sep.IsSegment segment)
    (h : name.toList = segment.toList ∨
      ∃ outer, name.toList = outer ++ sep.text.toList ++ segment.toList) :
    sep.lastSegment name = segment := by
  rcases h with hname | ⟨outer, hname⟩
  · obtain rfl := String.toList_inj.1 hname
    rw [lastSegment, splitLast?_segment hsegment]
  · have hsplit := Text.splitLast?_append sep.toList_ne_nil hsegment.2 outer
    rw [lastSegment, splitLast?, hname, hsplit]
    simp

/-- A path ends in its last segment. -/
theorem exists_toList_path_concat (sep : Separator) (segments : List String) (h : segment ≠ "") :
    ∃ before, (sep.path (segments ++ [segment])).toList = before ++ segment.toList := by
  rw [path_concat]
  by_cases hsegments : sep.path segments = ""
  · exact ⟨[], by rw [hsegments, empty_join, List.nil_append]⟩
  · refine ⟨(sep.path segments).toList ++ sep.text.toList, ?_⟩
    rw [join_of_ne sep hsegments h, String.toList_append, String.toList_append]

/-- **What a path ends in has the last segment of the path.** -/
theorem lastSegment_of_endsWith (hall : ∀ segment ∈ segments, sep.IsSegment segment)
    (hsegment : sep.IsSegment segment)
    (h : sep.endsWith (sep.path (segments ++ [segment])) name) :
    sep.lastSegment name = segment := by
  refine lastSegment_of_append hsegment ?_
  rw [path_concat] at h
  rcases List.eq_nil_or_concat' segments with rfl | ⟨front, last, rfl⟩
  · rw [path_nil, empty_join] at h
    rcases endsWith_iff.1 h with rfl | ⟨front, hfront⟩
    · exact .inl rfl
    · -- A single segment has no separator in it.
      obtain ⟨c, hc⟩ := List.exists_mem_of_ne_nil _ sep.toList_ne_nil
      exact absurd hc (hsegment.2 c (by rw [← hfront]; simp [hc]))
  · have hlast := hall last (by simp)
    have hne := path_ne_empty (by simp) hall
    rw [join_of_ne sep hne hsegment.ne_empty] at h
    rcases endsWith_iff.1 h with hsame | ⟨start, hstart⟩
    · refine .inr ⟨(sep.path (front ++ [last])).toList, ?_⟩
      rw [← hsame, String.toList_append, String.toList_append]
    · rw [String.toList_append, String.toList_append] at hstart
      refine Text.eq_or_append_of_append ?_ hsegment.2 sep.toList_ne_nil hstart
      obtain ⟨before, hbefore⟩ := exists_toList_path_concat sep front hlast.ne_empty
      intro c hc
      rw [hbefore, List.getLast?_append_of_ne_nil _ (mt String.toList_eq_nil_iff.1 hlast.ne_empty)]
        at hc
      exact hlast.2 c (List.mem_of_getLast? hc)

end Separator

/-! ## Tables and scans -/

namespace ScopeIndex

variable {repo : RepositoryFact} {sep : Separator} {name : String}

/-- The table of last segments has a plain declaration under its simple name. -/
theorem lastSegment_relativeName {fact : TypeFact} (h : fact.IsPlain sep) :
    sep.lastSegment (fact.relativeName sep) = fact.simpleName := by
  refine Separator.lastSegment_of_append h.simpleName ?_
  unfold TypeFact.relativeName
  split
  next outer _ =>
    exact .inr ⟨outer.toList, by rw [String.toList_append, String.toList_append]⟩
  next => exact .inl rfl

/-- The scan for a last segment is part of the scan for the end of a full name. -/
theorem lastSegment_of_endsWith_fullName {fact : TypeFact} (h : fact.IsPlain sep)
    (hends : sep.endsWith (fact.fullName sep) name) :
    sep.lastSegment (fact.relativeName sep) = sep.lastSegment name := by
  obtain ⟨segments, others, hall, -, -, hfull⟩ := h.exists_path
  rw [hfull] at hends
  rw [lastSegment_relativeName h, Separator.lastSegment_of_endsWith hall h.simpleName hends]

/-- **The declarations that end in a name**, without the table and without its key. -/
theorem declarationsEndingWith_eq_filter (hplain : ∀ entry ∈ repo.named, entry.2.2.IsPlain sep)
    (name : String) (project : Nat) :
    (build repo sep).1.declarationsEndingWith name project =
      (declarationsFrom sep repo.named).filter fun declaration =>
        declaration.project = project && sep.endsWith declaration.fullName name := by
  rw [declarationsEndingWith_eq]
  refine List.filter_congr fun declaration hdeclaration => ?_
  obtain ⟨entry, hentry, rfl⟩ := List.mem_map.1 hdeclaration
  rw [Bool.and_eq_left_iff_imp, decide_eq_true_eq, Bool.and_eq_true]
  dsimp only [declarationOf]
  rintro ⟨-, hends⟩
  exact lastSegment_of_endsWith_fullName (hplain entry hentry) hends

/-- **The tables agree with a scan.** The declarations of an index are the named types of the first
listings, in the order in which they are listed, and a listing is the first one of its path if that
is not the path of an earlier one. Under a full name there are the declarations with that full name.
Under a name and a project there are the declarations of the project whose full name is the name or
ends in it behind a separator. Both are in the order of the list. -/
theorem declarationTables_scan (repo : RepositoryFact) (sep : Separator)
    (hplain : ∀ entry ∈ repo.named, entry.2.2.IsPlain sep) :
    let index := (build repo sep).1
    let declarations := index.declarations.toList
    (∀ name, index.declarationsOf name =
      declarations.filter fun declaration => declaration.fullName = name) ∧
    (∀ name project, index.declarationsEndingWith name project =
      declarations.filter fun declaration => declaration.project = project ∧
        (declaration.fullName = name ∨
          (sep.text ++ name).toList <:+ declaration.fullName.toList)) ∧
    (declarations = repo.firstListings.zipIdx.flatMap fun (project, position) =>
      project.units.flatMap fun unit =>
        (unit.types.filter TypeFact.isNamed).map (declarationOf sep position unit.path)) ∧
    repo.firstListings = (repo.projects.zipIdx.filter fun (project, place) =>
      project.path ∉ (repo.projects.take place).map ProjectFact.path).map Prod.fst := by
  intro index declarations
  have hdeclarations : declarations = declarationsFrom sep repo.named :=
    build_declarations repo sep
  refine ⟨fun name => ?_, fun name project => ?_, ?_, repo.firstListings_eq_filter⟩
  · rw [hdeclarations]
    exact declarationsOf_eq repo sep name
  · rw [hdeclarations]
    refine (declarationsEndingWith_eq_filter hplain name project).trans ?_
    refine List.filter_congr fun declaration _ => ?_
    rw [Bool.eq_iff_iff, Bool.and_eq_true, decide_eq_true_eq, decide_eq_true_eq,
      Separator.endsWith, Bool.or_eq_true, decide_eq_true_eq, List.isSuffixOf_iff_suffix]
  · rw [hdeclarations, declarationsFrom, RepositoryFact.named, List.map_flatMap]
    simp only [List.map_flatMap, List.map_map]
    rfl

/-- A disc with a rim, and a declaration without a name. The project is listed twice, with another
unit the second time. -/
def gallery : RepositoryFact where
  solutions := [
    { path := "all", projects := [{ path := "shapes", units := [round] }] },
    { path := "old", projects := [{ path := "shapes", units := [{ round with path := "old" }] }] }]
where
  round : UnitFact := { path := "shapes/round", types := [disc, { name := " " }, rim] }
  disc : TypeFact := { name := "Disc<T>", namespaceName := " Geo//Shapes" }
  rim : TypeFact := { name := "Rim", namespaceName := "Geo//Shapes", containingType := some "Disc" }

/-- The rim is found by its name and that of the disc, and not by the end of a separator. -/
theorem gallery_scan :
    let index := (build gallery .slashes).1
    (∀ entry ∈ gallery.named, entry.2.2.IsPlain .slashes) ∧
    (index.declarations.toList.map fun declaration =>
        (declaration.fullName, declaration.filePath)) =
      [("Geo//Shapes//Disc", "shapes/round"), ("Geo//Shapes//Disc//Rim", "shapes/round")] ∧
    (index.declarationsOf "Geo//Shapes//Disc").map DeclaredType.relativeName = ["Disc"] ∧
    (index.declarationsEndingWith "Disc//Rim" 0).map DeclaredType.relativeName = ["Disc//Rim"] ∧
    index.declarationsEndingWith "/Rim" 0 = [] := by
  intro index
  have hpath : Separator.slashes.IsPath "Geo//Shapes" := ⟨["Geo", "Shapes"], by decide, by decide⟩
  have hdisc : gallery.disc.IsPlain .slashes :=
    ⟨hpath, by simp [TypeFact.outerName?, gallery.disc], by decide⟩
  have hrim : gallery.rim.IsPlain .slashes := by
    refine ⟨hpath, fun outer houter => ?_, by decide⟩
    obtain rfl : "Disc" = outer := Option.some.inj houter
    exact ⟨["Disc"], by decide, rfl⟩
  have hnamed : gallery.named =
      [(0, "shapes/round", gallery.disc), (0, "shapes/round", gallery.rim)] := rfl
  have hplain : ∀ entry ∈ gallery.named, entry.2.2.IsPlain .slashes := by
    rw [hnamed, List.forall_mem_cons, List.forall_mem_cons]
    exact ⟨hdisc, hrim, List.forall_mem_nil _⟩
  obtain ⟨hof, hends, hall, -⟩ := declarationTables_scan gallery .slashes hplain
  refine ⟨hplain, ?_, ?_, ?_, ?_⟩
  · rw [hall]
    decide +kernel
  · rw [hof]
    decide +kernel
  · rw [hends]
    decide +kernel
  · rw [hends]
    decide +kernel

end ScopeIndex

end FactGraph
