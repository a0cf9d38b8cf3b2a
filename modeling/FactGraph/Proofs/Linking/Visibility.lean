import FactGraph.Proofs.Linking.Arranged
import FactGraph.Proofs.Linking.Links
import FactGraph.Proofs.Resolution.Frame
import FactGraph.Proofs.Scope.Visibility

/-!
# A look-up finds what is visible

Names are resolved by an index of declarations, and linked by a search among the types of a model.
The two searches agree: a look-up in the model finds a type just when the index says that the name
is visible, and the type is one of the first project, in the order of the search, that declares the
name.

The types of a model are compared with the declarations by project and full name only. They stand
in the order of their projects, since the units are declared in that order.

## Main definitions

* `Linker.DeclaredBy`: a type is one of a declaration of a unit
* `Linker.Aligned`: a model has the types that an index has the declarations of

## Main results

* `Phases.declared_iff`: the types of a model are the declarations of its repository
* `find?_chosen`: the choice among types, as a search among projects
* `Phases.aligned`: a resolved repository is linked in line with its index
* `Aligned.lookup_isSome`, `Aligned.lookup_found`: a look-up finds what is visible
-/

namespace FactGraph

open Relation (ReflTransGen)

namespace Linker

variable {linker : Linker} {unit : SourceUnit} {s s' : DraftState} {repo : RepositoryFact}

/-! ## Types and declarations -/

/-- The type is one of a named declaration of the unit. -/
def DeclaredBy (linker : Linker) (unit : SourceUnit) (entry : DeclaredEntry) : Prop :=
  entry.project = some unit.project ∧ ∃ fact ∈ unit.fact.types, fact.isNamed ∧
    entry.fullName = fact.fullName linker.separator

/-- The project of the one type is not behind that of the other. -/
def NotBehind (entry other : DeclaredEntry) : Prop :=
  ∀ place ∈ entry.project, ∀ place' ∈ other.project, place.idx ≤ place'.idx

theorem DeclareMove.declared (h : linker.DeclareMove unit s s') :
    ∃ added, s'.model.declared = s.model.declared ++ added ∧
      ∀ entry ∈ added, linker.DeclaredBy unit entry := by
  cases h with
  | report finding => exact ⟨[], by simp, by simp⟩
  | space fact hfact hnamed h =>
    cases h
    exact ⟨[], (List.append_nil _).symm, by simp⟩
  | addType fact space hfact hnamed =>
    refine ⟨[(linker.newType s.model unit.project space fact).entry], ?_, ?_⟩
    · simp [ReferenceModel.declared, TypeNode.declaredEntry?, newType]
    · intro entry hentry
      obtain rfl := List.mem_singleton.1 hentry
      refine ⟨rfl, fact, hfact, hnamed, ?_⟩
      simp only [TypeNode.entry, newType]
  | noteFile id =>
    refine ⟨[], ?_, by simp⟩
    rw [List.append_nil]
    exact filterMap_toList_modify fun _ => rfl
  | noteType => exact ⟨[], (List.append_nil _).symm, by simp⟩

theorem declareMoves_declared (h : ReflTransGen (linker.DeclareMove unit) s s') :
    ∃ added, s'.model.declared = s.model.declared ++ added ∧
      ∀ entry ∈ added, linker.DeclaredBy unit entry := by
  induction h with
  | refl => exact ⟨[], by simp, by simp⟩
  | tail _ hlast ih =>
    obtain ⟨first, hfirst, hby⟩ := ih
    obtain ⟨last, hlast, hby'⟩ := hlast.declared
    refine ⟨first ++ last, by rw [hlast, hfirst, List.append_assoc], ?_⟩
    exact List.forall_mem_append.2 ⟨hby, hby'⟩

/-- **The types that units declare**, in the order of their projects if the units are. -/
theorem Declares.declared {units : List SourceUnit} (h : linker.Declares units s s')
    (hunits : units.Pairwise fun unit unit' => unit.project.idx ≤ unit'.project.idx) :
    ∃ added, s'.model.declared = s.model.declared ++ added ∧
      (∀ entry ∈ added, ∃ unit ∈ units, linker.DeclaredBy unit entry) ∧
      added.Pairwise NotBehind := by
  induction h with
  | nil => exact ⟨[], by simp, by simp, .nil⟩
  | @cons unit units _ _ _ head _ ih =>
    obtain ⟨hfirst, hrest⟩ := List.pairwise_cons.1 hunits
    obtain ⟨own, hown, hby⟩ := declareMoves_declared head
    obtain ⟨others, hothers, hby', hsorted⟩ := ih hrest
    refine ⟨own ++ others, by rw [hothers, hown, List.append_assoc], ?_, ?_⟩
    · refine List.forall_mem_append.2 ⟨fun entry hentry => ?_, fun entry hentry => ?_⟩
      · exact ⟨unit, by simp, hby entry hentry⟩
      · obtain ⟨other, hother, hentry⟩ := hby' entry hentry
        exact ⟨other, by simp [hother], hentry⟩
    · refine List.pairwise_append.2 ⟨?_, hsorted, ?_⟩
      · refine List.pairwise_of_forall_mem_list fun entry hentry entry' hentry' => ?_
        rw [NotBehind, (hby entry hentry).1, (hby entry' hentry').1]
        rintro _ ⟨⟩ _ ⟨⟩
        exact Nat.le_refl _
      · intro entry hentry entry' hentry'
        obtain ⟨other, hother, hentry'⟩ := hby' entry' hentry'
        rw [NotBehind, (hby entry hentry).1, hentry'.1]
        rintro _ ⟨⟩ _ ⟨⟩
        exact hfirst other hother

/-- The units of a repository are in the order of their projects. -/
theorem sourceUnits_sorted (repo : RepositoryFact) :
    (sourceUnits repo).Pairwise fun unit unit' => unit.project.idx ≤ unit'.project.idx := by
  have hlisted : (listedUnits repo.firstListings).Pairwise
      fun entry entry' => entry.1 ≤ entry'.1 := by
    refine pairwise_flatMap_zipIdx fun entry listed hlisted => ?_
    obtain ⟨_, -, rfl⟩ := List.mem_map.1 hlisted
    rfl
  rw [sourceUnits, unitsOf, List.pairwise_map]
  rw [← List.zipIdx_map_fst 0 (listedUnits repo.firstListings), List.pairwise_map] at hlisted
  exact hlisted

section Phases

variable {declared nested final : DraftState}

/-- Nothing changes for a look-up when all types are declared. -/
theorem Phases.sameView (h : linker.Phases repo declared nested final) :
    declared.model.SameView final.model :=
  (nestMoves_sameView h.nests).trans (memberMoves_sameView h.links)

/-- The types of a model stand in the order of their projects. -/
theorem Phases.sorted (h : linker.Phases repo declared nested final) :
    final.model.declared.Pairwise NotBehind := by
  obtain ⟨added, hadded, -, hsorted⟩ := h.declares.declared (sourceUnits_sorted repo)
  rw [h.sameView.declared, hadded]
  exact hsorted

/-- **The types of a model are the declarations of its repository**, by project and full name. -/
theorem Phases.declared_iff (h : linker.Phases repo declared nested final) {fullName : String}
    {place : Option ProjectId} :
    (∃ entry ∈ final.model.declared, entry.fullName = fullName ∧ entry.project = place) ↔
      ∃ entry ∈ repo.named, entry.2.2.fullName linker.separator = fullName ∧
        some ⟨entry.1⟩ = place := by
  rw [h.sameView.declared]
  constructor
  · rintro ⟨entry, hentry, rfl, rfl⟩
    obtain ⟨added, hadded, hby, -⟩ := h.declares.declared (sourceUnits_sorted repo)
    rw [hadded] at hentry
    obtain ⟨unit, hunit, hproject, fact, hfact, hnamed, hname⟩ := hby entry hentry
    exact ⟨_, mem_named hunit hfact hnamed, hname.symm, hproject.symm⟩
  · rintro ⟨entry, hentry, rfl, rfl⟩
    rw [named_eq, List.mem_flatMap] at hentry
    obtain ⟨unit, hunit, hentry⟩ := hentry
    obtain ⟨fact, hfact, rfl⟩ := List.mem_map.1 hentry
    obtain ⟨hmem, hnamed⟩ := List.mem_filter.1 hfact
    obtain ⟨id, node, hnode, hexternal, hproject, hname, -⟩ :=
      h.complete unit hunit fact hmem hnamed
    refine ⟨node.entry, List.mem_filterMap.2 ⟨node, ?_, ?_⟩, hname, hproject⟩
    · exact Array.mem_toList_iff.2 (ReferenceModel.mem_of_type hnode)
    · rw [TypeNode.declaredEntry?, hexternal]
      rfl

end Phases

/-! ## The choice, by projects -/

section Choice

variable {entries : List DeclaredEntry} {isPlace : Nat → Bool}

theorem find?_near (hplaces : ∀ place, isPlace place ↔ ∃ entry ∈ entries,
      entry.project = some ⟨place⟩) (order : List Nat) :
    order.find? isPlace =
      ((order.map Handle.mk).findSome? fun place =>
        entries.find? fun entry => entry.project = some place).bind
          fun entry => entry.project.map Handle.idx := by
  induction order with
  | nil => rfl
  | cons place order ih =>
    rw [List.find?_cons, List.map_cons, List.findSome?_cons]
    -- The two searches go on together: a place is skipped exactly when no entry is in it.
    cases hfind : entries.find? fun entry => entry.project = some ⟨place⟩ with
    | none =>
      have hnot : isPlace place = false := by
        refine Bool.eq_false_iff.2 fun hplace => ?_
        obtain ⟨entry, hentry, hproject⟩ := (hplaces place).1 hplace
        have hmiss := List.find?_eq_none.1 hfind entry hentry
        simp [hproject] at hmiss
      simpa [hnot] using ih
    | some entry =>
      have hproject : entry.project = some ⟨place⟩ := by simpa using List.find?_some hfind
      have hplace : isPlace place :=
        (hplaces place).2 ⟨entry, List.mem_of_find?_eq_some hfind, hproject⟩
      simp [hplace, hproject]

/-- The first type of all is one of the first project that has any. -/
theorem find?_first (hplaces : ∀ place, isPlace place ↔ ∃ entry ∈ entries,
      entry.project = some ⟨place⟩) {count : Nat}
    (hcount : ∀ entry ∈ entries, ∃ place < count, entry.project = some ⟨place⟩)
    (hsorted : entries.Pairwise NotBehind) :
    (List.range count).find? isPlace =
      entries.head?.bind fun entry => entry.project.map Handle.idx := by
  cases entries with
  | nil =>
    rw [List.head?_nil, Option.bind_none, List.find?_eq_none]
    intro place _ hplace
    obtain ⟨entry, hentry, -⟩ := (hplaces place).1 hplace
    cases hentry
  | cons first others =>
    obtain ⟨place, hlt, hproject⟩ := hcount first (by simp)
    rw [List.head?_cons, Option.bind_some, hproject, Option.map_some, List.find?_range_eq_some]
    refine ⟨(hplaces place).2 ⟨first, by simp, hproject⟩, List.mem_range.2 hlt, ?_⟩
    -- An earlier place would have an entry, which could not stand behind the first one.
    intro earlier hearlier
    dsimp only at hearlier
    rw [Bool.not_eq_true', Bool.eq_false_iff]
    intro hplace
    obtain ⟨entry, hentry, hproject'⟩ := (hplaces earlier).1 hplace
    have hle : place ≤ earlier := by
      rcases List.mem_cons.1 hentry with rfl | hentry
      · rw [hproject] at hproject'
        cases hproject'
        exact Nat.le_refl _
      · exact (List.pairwise_cons.1 hsorted).1 entry hentry ⟨place⟩ hproject ⟨earlier⟩ hproject'
    omega

/-- **The choice among types is a search among projects.** -/
theorem find?_chosen (hplaces : ∀ place, isPlace place ↔ ∃ entry ∈ entries,
      entry.project = some ⟨place⟩) {count : Nat}
    (hcount : ∀ entry ∈ entries, ∃ place < count, entry.project = some ⟨place⟩)
    (hsorted : entries.Pairwise NotBehind) (order : List Nat) (global : Bool) :
    (order ++ if global then List.range count else []).find? isPlace =
      (chosen? (order.map Handle.mk) global entries).bind
        fun entry => entry.project.map Handle.idx := by
  rw [List.find?_append, find?_near hplaces order, chosen?]
  have hrest : (if global then List.range count else []).find? isPlace =
      (if global then entries.head? else none).bind fun entry => entry.project.map Handle.idx := by
    cases global with
    | true => exact find?_first hplaces hcount hsorted
    | false => rfl
  rw [hrest]
  cases hnear : (order.map Handle.mk).findSome? fun place =>
      entries.find? fun entry => entry.project = some place with
  | none => rfl
  | some entry =>
    obtain ⟨place, -, hfind⟩ := List.exists_of_findSome?_eq_some hnear
    obtain ⟨_, -, hproject⟩ := hcount entry (List.mem_of_find?_eq_some hfind)
    simp [hproject]

end Choice

/-! ## A model and an index of the same projects -/

section Projects

variable {model : ReferenceModel} {sep : Separator}

/-- Positions of the index are positions of the model. -/
theorem toProjects_eq (hindex : linker.index = (ScopeIndex.build repo sep).1)
    (hpaths : model.paths = repo.firstListings.map ProjectFact.path) {positions : List Nat}
    (h : ∀ position ∈ positions, position < linker.index.projects.length) :
    linker.toProjects model positions = positions.map Handle.mk := by
  rw [toProjects, ← List.filterMap_eq_map]
  refine List.filterMap_congr fun position hposition => ?_
  have hlt := h position hposition
  rw [List.getElem?_eq_getElem hlt]
  dsimp only
  have hlisted : (repo.firstListings.map ProjectFact.path)[position]? =
      some linker.index.projects[position].path := by
    rw [← ScopeIndex.build_paths repo sep, ← hindex, List.getElem?_map,
      List.getElem?_eq_getElem hlt]
    rfl
  rw [ReferenceModel.projectOf?_eq, hpaths, RepositoryFact.findIdx?_path hlisted]
  rfl

/-- The same projects can be reached. -/
theorem reachableFrom_eq_map (hindex : linker.index = (ScopeIndex.build repo sep).1)
    (hpaths : model.paths = repo.firstListings.map ProjectFact.path) (project : Nat) :
    linker.reachableFrom model ⟨project⟩ =
      (linker.index.reachableProjects project).map Handle.mk := by
  rw [Linker.reachableFrom_eq, hpaths]
  dsimp only
  cases hpath : (repo.firstListings.map ProjectFact.path)[project]? with
  | none =>
    have hle : linker.index.projects.length ≤ project := by
      rw [hindex, ScopeIndex.length_projects]
      simpa using List.getElem?_eq_none_iff.1 hpath
    rw [ScopeIndex.reachableProjects_of_le hle]
    rfl
  | some path =>
    have hposition : linker.index.projectIndex? path = some project := by
      rw [hindex]
      exact ScopeIndex.projectIndex?_of_getElem? hpath
    rw [Option.bind_some, hposition]
    refine toProjects_eq hindex hpaths fun other hother => ?_
    rw [hindex] at hother ⊢
    exact ScopeIndex.lt_of_reachableProjects hother

end Projects

/-! ## A model and an index of the same declarations -/

/-- **The model has the types that the index has the declarations of**, and the same projects. -/
structure Aligned (linker : Linker) (model : ReferenceModel) (repo : RepositoryFact)
    (sep : Separator) : Prop where
  index : linker.index = (ScopeIndex.build repo sep).1
  numbered : model.Numbered
  paths : model.paths = repo.firstListings.map ProjectFact.path
  declared_iff : ∀ fullName place,
    (∃ entry ∈ model.declared, entry.fullName = fullName ∧ entry.project = place) ↔
      ∃ entry ∈ repo.named, entry.2.2.fullName sep = fullName ∧ some ⟨entry.1⟩ = place
  sorted : model.declared.Pairwise NotBehind

namespace Aligned

variable {model : ReferenceModel} {sep : Separator}

/-- **A look-up finds a type of the first project that declares the name**, in the order of the
places where it is looked for. -/
theorem lookup_spec (h : linker.Aligned model repo sep) (fullName : String) (project : Nat) :
    ∃ found : Option DeclaredEntry,
      (∀ entry ∈ found, entry ∈ model.declared ∧ entry.fullName = fullName) ∧
      linker.lookupDeclared? model fullName ⟨project⟩ = found.map DeclaredEntry.type ∧
      (linker.index.placesFrom linker.policy project).find? (linker.index.isDeclaredIn fullName) =
        found.bind fun entry => entry.project.map Handle.idx := by
  let entries := model.declared.filter fun entry => entry.fullName = fullName
  have hplaces (place : Nat) : linker.index.isDeclaredIn fullName place ↔
      ∃ entry ∈ entries, entry.project = some ⟨place⟩ := by
    have hiff := h.declared_iff fullName (some ⟨place⟩)
    rw [h.index, ScopeIndex.isDeclaredIn_iff]
    simp only [entries, List.mem_filter, decide_eq_true_eq, and_assoc, hiff]
    simp [and_comm]
  have hcount : ∀ entry ∈ entries,
      ∃ place < linker.index.projects.length, entry.project = some ⟨place⟩ := by
    intro entry hentry
    obtain ⟨hmem, -⟩ := List.mem_filter.1 hentry
    obtain ⟨named, hnamed, -, hplace⟩ :=
      (h.declared_iff entry.fullName entry.project).1 ⟨entry, hmem, rfl, rfl⟩
    rw [h.index]
    exact ⟨named.1, ScopeIndex.lt_of_named hnamed, hplace.symm⟩
  refine ⟨chosen? (⟨project⟩ :: linker.reachableFrom model ⟨project⟩)
    (linker.index.allowsGlobal linker.policy) entries, ?_, lookupDeclared?_eq _ _ _ _, ?_⟩
  · intro entry hentry
    have hmem := List.mem_filter.1 (mem_of_chosen? hentry)
    exact ⟨hmem.1, of_decide_eq_true hmem.2⟩
  · rw [reachableFrom_eq_map h.index h.paths, ← List.map_cons]
    exact find?_chosen hplaces hcount (h.sorted.filter _) _ _

/-- Every declared type has a project. -/
theorem exists_project (h : linker.Aligned model repo sep) {entry : DeclaredEntry}
    (hentry : entry ∈ model.declared) : ∃ place : Nat, entry.project = some ⟨place⟩ := by
  obtain ⟨named, -, -, hplace⟩ :=
    (h.declared_iff entry.fullName entry.project).1 ⟨entry, hentry, rfl, rfl⟩
  exact ⟨named.1, hplace.symm⟩

/-- **A look-up finds a type just when the name is visible.** -/
theorem lookup_isSome (h : linker.Aligned model repo sep) (fullName : String) (project : Nat) :
    (linker.lookupDeclared? model fullName ⟨project⟩).isSome =
      linker.index.isVisibleFrom fullName project linker.policy := by
  obtain ⟨found, hentry, hlookup, hfind⟩ := h.lookup_spec fullName project
  have hvisible : linker.index.isVisibleFrom fullName project linker.policy =
      ((linker.index.placesFrom linker.policy project).find?
        (linker.index.isDeclaredIn fullName)).isSome := by
    rw [Bool.eq_iff_iff, List.find?_isSome, h.index, ScopeIndex.isVisibleFrom_iff]
  rw [hvisible, hlookup, hfind]
  cases found with
  | none => rfl
  | some entry =>
    obtain ⟨place, hplace⟩ := h.exists_project (hentry entry rfl).1
    simp [hplace]

/-- The type that a look-up finds, and the project it is in. -/
theorem lookup_found (h : linker.Aligned model repo sep) {fullName : String} {project : Nat}
    {id : TypeId} (hid : linker.lookupDeclared? model fullName ⟨project⟩ = some id) :
    ∃ node place, model.type? id = some node ∧ node.isExternal = false ∧
      node.fullName = fullName ∧ node.project = some ⟨place⟩ ∧
      (linker.index.placesFrom linker.policy project).find?
        (linker.index.isDeclaredIn fullName) = some place := by
  obtain ⟨found, hentry, hlookup, hfind⟩ := h.lookup_spec fullName project
  rw [hid] at hlookup
  obtain ⟨entry, rfl, rfl⟩ := Option.map_eq_some_iff.1 hlookup.symm
  obtain ⟨hmem, rfl⟩ := hentry entry rfl
  obtain ⟨place, hplace⟩ := h.exists_project hmem
  obtain ⟨node, hnode, hread⟩ := List.mem_filterMap.1 hmem
  unfold TypeNode.declaredEntry? at hread
  split at hread
  · cases hread
  next hexternal =>
    cases hread
    have hid := h.numbered.type?_id (Array.mem_toList_iff.1 hnode)
    refine ⟨node, place, hid, Bool.eq_false_iff.2 hexternal, rfl, hplace, ?_⟩
    rw [hfind, Option.bind_some, hplace]
    rfl

theorem wire (h : linker.Aligned model repo sep) : linker.Aligned model.wire repo sep where
  index := h.index
  numbered := ReferenceModel.wire_numbered h.numbered
  paths := by rw [(wire_sameView model).paths, h.paths]
  declared_iff := by
    rw [(wire_sameView model).declared]
    exact h.declared_iff
  sorted := by
    rw [(wire_sameView model).declared]
    exact h.sorted

end Aligned

theorem skeleton_paths (linker : Linker) (repo : RepositoryFact) :
    (linker.skeleton repo).paths = repo.firstListings.map ProjectFact.path := by
  rw [ReferenceModel.paths, skeleton, Array.toList_map, projectNodes, List.map_map, List.map_map]
  conv_rhs => rw [← List.zipIdx_map_fst 0 repo.firstListings, List.map_map]
  rfl

/-- **A resolved repository is linked in line with its index.** -/
theorem Phases.aligned {sep : Separator} (resolver : Resolver)
    (hindex : linker.index = (ScopeIndex.build repo sep).1) {declared nested final : DraftState}
    (h : linker.Phases (resolver.resolveRepository repo).1 declared nested final) :
    linker.Aligned final.model repo sep where
  index := hindex
  numbered := h.sound.numbered
  paths := by
    have hprojects : declared.model.paths =
        (linker.skeleton (resolver.resolveRepository repo).1).paths := by
      rw [ReferenceModel.paths, h.declares.extends.projects]
      rfl
    rw [h.sameView.paths, hprojects, skeleton_paths, resolver.firstListings_resolveRepository,
      List.map_map]
    exact List.map_congr_left fun fact _ => resolver.resolveProject_path fact
  declared_iff fullName place := by
    have hsep : linker.separator = sep := by rw [separator, hindex, ScopeIndex.build_separator]
    rw [h.declared_iff, hsep]
    exact resolver.exists_named_iff repo fun project fact =>
      fact.fullName sep = fullName ∧ some ⟨project⟩ = place
  sorted := h.sorted

end Linker

end FactGraph
