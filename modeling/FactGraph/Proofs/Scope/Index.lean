import FactGraph.Proofs.Scope.Insertion
import FactGraph.Scope.Index

/-!
# What an index holds

An index is built by going through the first listings once. What comes of it is said here without
the walk: its declarations are the named declarations of the listings in their order, each with the
position of its project; its tables lead from a name to just the declarations with that name; its
namespaces are those of the declarations, inserted one after the other.

## Main definitions

* `RepositoryFact.named`: the named declarations of the first listings
* `ScopeIndex.Tabled`: a table leads from a name to the declarations with that name

## Main results

* `build_declarations`, `build_namespaces`, `build_imports`: what an index is made of
* `declarationsOf_eq`, `declarationsEndingWith_eq`, `importsOf?_eq`: look-ups, without the tables
* `build_chain_congr`: the namespaces around a declaration are the same in every index
-/

namespace FactGraph

/-! ## Name tables -/

namespace NameTable

theorem lookup_cons_ite {κ α : Type} [BEq κ] [LawfulBEq κ] [DecidableEq κ] (key name : κ)
    (value : α) (rows : List (κ × α)) :
    ((key, value) :: rows).lookup name = if name = key then some value else rows.lookup name := by
  by_cases h : name = key
  · simp [h]
  · simp [List.lookup_cons, beq_false_of_ne h, h]

variable {α : Type}

theorem lookup_pushRow (name other : String) (entry : α) (rows : List (String × List α)) :
    (pushRow name entry rows).lookup other =
      if other = name then some ((rows.lookup name).getD [] ++ [entry])
      else rows.lookup other := by
  induction rows with
  | nil => rw [pushRow, lookup_cons_ite, List.lookup_nil, List.lookup_nil]; rfl
  | cons row rows ih =>
    obtain ⟨key, entries⟩ := row
    unfold pushRow
    by_cases hkey : key = name
    · subst hkey
      by_cases h : other = key <;> simp [lookup_cons_ite, h]
    · by_cases h : other = name
      · subst h
        simp [lookup_cons_ite, hkey, Ne.symm hkey, ih]
      · by_cases h' : other = key <;> simp [lookup_cons_ite, hkey, h, h', ih]

theorem get_push (table : NameTable α) (name other : String) (entry : α) :
    (table.push name entry).get other =
      if other = name then table.get name ++ [entry] else table.get other := by
  unfold get push
  rw [lookup_pushRow]
  split <;> rfl

theorem contains_push (table : NameTable α) (name other : String) (entry : α) :
    (table.push name entry).contains other = (other = name || table.contains other) := by
  unfold contains push
  rw [lookup_pushRow]
  by_cases h : other = name <;> simp [h]

variable {table : NameTable Nat} {xs : Array α} {key : α → String}

/-- **The table leads from a name to the positions of the elements with that key**, in their
order. -/
structure Lists (table : NameTable Nat) (xs : Array α) (key : α → String) : Prop where
  get : ∀ name, table.get name =
    (xs.toList.zipIdx.filter fun entry => key entry.1 = name).map Prod.snd
  contains : ∀ name, table.contains name = xs.toList.any fun x => key x = name

theorem Lists.push (h : Lists table xs key) (x : α) :
    Lists (table.push (key x) xs.size) (xs.push x) key where
  get name := by
    rw [get_push, h.get, h.get, Array.toList_push, List.zipIdx_append, List.filter_append,
      List.map_append]
    by_cases hname : name = key x
    · simp [hname]
    · simp [hname, Ne.symm hname]
  contains name := by
    rw [contains_push, h.contains, Array.toList_push, List.any_append, Bool.or_comm]
    simp [eq_comm]

/-- The elements at the positions are those with the key. -/
theorem Lists.filterMap_get (h : Lists table xs key) (name : String) :
    ((table.get name).filterMap fun position => xs[position]?) =
      xs.toList.filter fun x => key x = name := by
  have hfound : ∀ entry ∈ xs.toList.zipIdx.filter (fun entry => key entry.1 = name),
      xs[entry.2]? = some entry.1 := by
    intro entry hentry
    have hget := List.mem_zipIdx_iff_getElem?.1 (List.mem_filter.1 hentry).1
    rwa [Array.getElem?_toList] at hget
  calc ((table.get name).filterMap fun position => xs[position]?)
      = (xs.toList.zipIdx.filter fun entry => key entry.1 = name).filterMap
          fun entry => xs[entry.2]? := by rw [h.get, List.filterMap_map]; rfl
    _ = (xs.toList.zipIdx.filter fun entry => key entry.1 = name).map Prod.fst := by
          rw [List.filterMap_congr hfound, List.filterMap_eq_map']
    _ = (xs.toList.zipIdx.map Prod.fst).filter fun x => key x = name := by
          rw [List.filter_map]; rfl
    _ = xs.toList.filter fun x => key x = name := by rw [List.zipIdx_map_fst]

end NameTable

/-- The named declarations of the first listings in their order, each with the position of its
project and the path of its file. -/
def RepositoryFact.named (repo : RepositoryFact) : List (Nat × String × TypeFact) :=
  repo.firstListings.zipIdx.flatMap fun (project, position) =>
    project.units.flatMap fun unit =>
      (unit.types.filter TypeFact.isNamed).map fun fact => (position, unit.path, fact)

theorem RepositoryFact.mem_named {repo : RepositoryFact} {position : Nat} {project : ProjectFact}
    (hproject : repo.firstListings[position]? = some project) {unit : UnitFact}
    (hunit : unit ∈ project.units) {fact : TypeFact} (hfact : fact ∈ unit.types)
    (hnamed : fact.isNamed) : (position, unit.path, fact) ∈ repo.named := by
  refine List.mem_flatMap.2 ⟨(project, position), List.mem_zipIdx_iff_getElem?.2 hproject, ?_⟩
  refine List.mem_flatMap.2 ⟨unit, hunit, List.mem_map.2 ⟨fact, ?_, rfl⟩⟩
  exact List.mem_filter.2 ⟨hfact, hnamed⟩

namespace ScopeIndex

/-! ## The walk -/

/-- The index with a declaration entered, if it is named. -/
def enterType (project : Nat) (filePath : String) (index : ScopeIndex) (fact : TypeFact) :
    ScopeIndex :=
  if fact.isNamed then
    { index with namespaces := (index.namespaces.insert fact.namespaceName).1 }.addDeclaration
      (declarationOf index.separator project filePath fact)
  else index

/-- The index with a compilation unit entered. -/
def enterUnit (project : Nat) (index : ScopeIndex) (fact : UnitFact) : ScopeIndex :=
  fact.types.foldl (enterType project fact.path)
    { index with imports := (fact.path, ImportTable.ofFacts fact.imports) :: index.imports }

/-- The index with a project entered. -/
def enterProject (index : ScopeIndex) (fact : ProjectFact) : ScopeIndex :=
  fact.units.foldl (enterUnit index.projects.length)
    { index with projects := index.projects ++ [({ path := fact.path } : ProjectEntry)] }

/-- Steps that change what is read of the survey in a known way, one after the other. -/
theorem read_forM {α β : Type} (read : Survey → β) {f : α → SurveyM Unit} {g : β → α → β}
    (h : ∀ x survey, read ((f x).run survey).2 = g (read survey) x) (xs : List α)
    (survey : Survey) : read ((xs.forM f).run survey).2 = xs.foldl g (read survey) := by
  induction xs generalizing survey with
  | nil => rfl
  | cons x xs ih =>
    change read ((xs.forM f).run ((f x).run survey).2).2 = _
    rw [ih, h, List.foldl_cons]

/-- Steps that change nothing of what is read. -/
theorem read_forM_of_keeps {α β : Type} (read : Survey → β) {f : α → SurveyM Unit}
    (h : ∀ x survey, read ((f x).run survey).2 = read survey) (xs : List α) (survey : Survey) :
    read ((xs.forM f).run survey).2 = read survey :=
  (read_forM read (g := fun kept _ => kept) h xs survey).trans (List.foldl_fixed xs)

theorem index_surveyNamespace (projectPath filePath name : String) (survey : Survey) :
    ((surveyNamespace projectPath filePath name).run survey).2.index =
      { survey.index with namespaces := (survey.index.namespaces.insert name).1 } := by
  simp only [surveyNamespace, StateT.run_bind, StateT.run_get, pure_bind]
  split <;> rfl

theorem index_surveyType (project : Nat) (projectPath filePath : String) (fact : TypeFact)
    (survey : Survey) :
    ((surveyType project projectPath filePath fact).run survey).2.index =
      enterType project filePath survey.index fact := by
  unfold surveyType enterType
  split
  · rw [StateT.run_bind]
    change (_ : ScopeIndex).addDeclaration _ = _
    rw [index_surveyNamespace]
  · rfl

theorem index_surveyUnit (project : Nat) (projectPath : String) (fact : UnitFact)
    (survey : Survey) :
    ((surveyUnit project projectPath fact).run survey).2.index =
      enterUnit project survey.index fact := by
  let reported : Survey := (((ImportTable.rejected fact.imports).forM fun directive =>
    report (.incompleteImport projectPath fact.path directive.sourceName)).run survey).2
  have hreported : reported.index = survey.index :=
    read_forM_of_keeps Survey.index (fun _ _ => rfl) _ survey
  change ((fact.types.forM (surveyType project projectPath fact.path)).run
    { reported with index := { reported.index with
      imports := (fact.path, ImportTable.ofFacts fact.imports) :: reported.index.imports } }).2.index
    = _
  rw [read_forM Survey.index (index_surveyType project projectPath fact.path), hreported]
  rfl

theorem index_surveyProject (fact : ProjectFact) (survey : Survey) :
    ((surveyProject fact).run survey).2.index = enterProject survey.index fact := by
  simp only [surveyProject, StateT.run_bind, StateT.run_get, StateT.run_modify, pure_bind]
  exact read_forM Survey.index (index_surveyUnit survey.index.projects.length fact.path)
    fact.units _

/-- Elements and positions are mapped to the same if the lists agree in what is read of their
elements. -/
theorem map_zipIdx_congr {α β γ : Type} {read : α → γ} {f f' : α × Nat → β} {xs xs' : List α}
    (h : xs'.map read = xs.map read)
    (hf : ∀ x x' position, read x' = read x → f' (x', position) = f (x, position)) :
    xs'.zipIdx.map f' = xs.zipIdx.map f := by
  refine List.ext_getElem? fun i => ?_
  have hread := congrArg (fun ys => ys[i]?) h
  simp only [List.getElem?_map] at hread
  rw [List.getElem?_map, List.getElem?_map, List.getElem?_zipIdx, List.getElem?_zipIdx]
  cases hx : xs[i]? with
  | none =>
    rw [hx, Option.map_none, Option.map_eq_none_iff] at hread
    rw [hread]
    rfl
  | some x =>
    rw [hx, Option.map_some] at hread
    obtain ⟨x', hx', heq⟩ := Option.map_eq_some_iff.1 hread
    rw [hx']
    exact congrArg some (hf x x' (0 + i) heq)

/-- The same for a test of elements and positions. -/
theorem any_zipIdx_congr {α γ : Type} {read : α → γ} {f f' : α × Nat → Bool} {xs xs' : List α}
    (h : xs'.map read = xs.map read)
    (hf : ∀ x x' position, read x' = read x → f' (x', position) = f (x, position)) :
    xs'.zipIdx.any f' = xs.zipIdx.any f := by
  have hany (xs : List (α × Nat)) (f : α × Nat → Bool) : xs.any f = (xs.map f).any id := by
    rw [List.any_map, Function.id_comp]
  rw [hany, hany, map_zipIdx_congr h hf]

/-- **The index, without the walk**: the listings are entered one after the other, and at last the
references between the projects. -/
theorem build_eq (repo : RepositoryFact) (sep : Separator) :
    (build repo sep).1 =
      let index := repo.firstListings.foldl enterProject (initial sep)
      { index with
        projects := repo.firstListings.zipIdx.map fun (fact, position) =>
          index.linkedEntry fact position
        hasReferenceGraph := repo.firstListings.zipIdx.any fun (fact, position) =>
          index.refersElsewhere fact position } := by
  have hindex :=
    read_forM Survey.index index_surveyProject repo.firstListings { index := initial sep }
  simp only [build, hindex]

/-! ## What is entered -/

/-- The declarations of the given facts, each with the position of its project and the path of its
file. -/
def declarationsFrom (sep : Separator) (facts : List (Nat × String × TypeFact)) :
    List DeclaredType :=
  facts.map fun (project, filePath, fact) => declarationOf sep project filePath fact

/-- The tree with the namespaces of the given facts. -/
def insertAll (tree : NamespaceTree) (facts : List (Nat × String × TypeFact)) : NamespaceTree :=
  facts.foldl (fun tree (_, _, fact) => (tree.insert fact.namespaceName).1) tree

/-- The named declarations of a unit. -/
def namedIn (project : Nat) (unit : UnitFact) : List (Nat × String × TypeFact) :=
  (unit.types.filter TypeFact.isNamed).map fun fact => (project, unit.path, fact)

/-- **The tables lead to the declarations**, by full name and by the last segment of the relative
name. -/
structure Tabled (index : ScopeIndex) : Prop where
  byFullName : index.byFullName.Lists index.declarations DeclaredType.fullName
  bySimpleName : index.bySimpleName.Lists index.declarations fun declaration =>
    index.separator.lastSegment declaration.relativeName

/-- The index has been entered the facts: their declarations stand behind those that were there,
and their namespaces are in the tree. -/
structure Entered (index index' : ScopeIndex) (facts : List (Nat × String × TypeFact)) :
    Prop where
  separator : index'.separator = index.separator
  declarations : index'.declarations.toList =
    index.declarations.toList ++ declarationsFrom index.separator facts
  namespaces : index'.namespaces = insertAll index.namespaces facts
  tabled : index.Tabled → index'.Tabled

theorem Entered.trans {index index' index'' : ScopeIndex}
    {facts others : List (Nat × String × TypeFact)} (h : Entered index index' facts)
    (h' : Entered index' index'' others) : Entered index index'' (facts ++ others) where
  separator := h'.separator.trans h.separator
  declarations := by
    rw [h'.declarations, h.declarations, h.separator, List.append_assoc, declarationsFrom,
      declarationsFrom, declarationsFrom, List.map_append]
  namespaces := by
    rw [h'.namespaces, h.namespaces, insertAll, insertAll, insertAll, List.foldl_append]
  tabled htabled := h'.tabled (h.tabled htabled)

/-- A walk through a list enters what its steps enter. -/
theorem Entered.foldl {α : Type} {enter : ScopeIndex → α → ScopeIndex}
    {facts : α → List (Nat × String × TypeFact)}
    (h : ∀ index x, Entered index (enter index x) (facts x)) (xs : List α) (index : ScopeIndex) :
    Entered index (xs.foldl enter index) (xs.flatMap facts) := by
  induction xs generalizing index with
  | nil => exact ⟨rfl, by simp [declarationsFrom], rfl, id⟩
  | cons x xs ih =>
    rw [List.foldl_cons, List.flatMap_cons]
    exact (h index x).trans (ih _)

theorem entered_type (project : Nat) (filePath : String) (index : ScopeIndex) (fact : TypeFact) :
    Entered index (enterType project filePath index fact)
      (if fact.isNamed then [(project, filePath, fact)] else []) := by
  unfold enterType
  split
  · refine ⟨rfl, by simp [addDeclaration, declarationsFrom], rfl, fun htabled => ?_⟩
    exact ⟨htabled.byFullName.push _, htabled.bySimpleName.push _⟩
  · exact ⟨rfl, by simp [declarationsFrom], rfl, id⟩

theorem entered_unit (project : Nat) (index : ScopeIndex) (unit : UnitFact) :
    Entered index (enterUnit project index unit) (namedIn project unit) := by
  have htypes := Entered.foldl (entered_type project unit.path) unit.types
    { index with imports := (unit.path, ImportTable.ofFacts unit.imports) :: index.imports }
  have hfacts : (unit.types.flatMap fun fact =>
      if fact.isNamed then [(project, unit.path, fact)] else []) = namedIn project unit := by
    rw [namedIn]
    induction unit.types with
    | nil => rfl
    | cons fact facts ih =>
      rw [List.flatMap_cons, ih, List.filter_cons]
      split <;> rfl
  rw [hfacts] at htypes
  exact ⟨htypes.separator, htypes.declarations, htypes.namespaces,
    fun htabled => htypes.tabled ⟨htabled.byFullName, htabled.bySimpleName⟩⟩

theorem projects_enterUnit (project : Nat) (index : ScopeIndex) (unit : UnitFact) :
    (enterUnit project index unit).projects = index.projects := by
  have htypes (types : List TypeFact) (index : ScopeIndex) :
      (types.foldl (enterType project unit.path) index).projects = index.projects := by
    induction types generalizing index with
    | nil => rfl
    | cons fact facts ih =>
      rw [List.foldl_cons, ih, enterType]
      split <;> rfl
  exact htypes _ _

theorem projects_enterProject (index : ScopeIndex) (fact : ProjectFact) :
    (enterProject index fact).projects =
      index.projects ++ [({ path := fact.path } : ProjectEntry)] := by
  have hunits (units : List UnitFact) (project : Nat) (index : ScopeIndex) :
      (units.foldl (enterUnit project) index).projects = index.projects := by
    induction units generalizing index with
    | nil => rfl
    | cons unit units ih => rw [List.foldl_cons, ih, projects_enterUnit]
  exact hunits _ _ _

theorem entered_project (index : ScopeIndex) (fact : ProjectFact) :
    Entered index (enterProject index fact)
      (fact.units.flatMap (namedIn index.projects.length)) := by
  have hunits := Entered.foldl (entered_unit index.projects.length) fact.units
    { index with projects := index.projects ++ [({ path := fact.path } : ProjectEntry)] }
  exact ⟨hunits.separator, hunits.declarations, hunits.namespaces,
    fun htabled => hunits.tabled ⟨htabled.byFullName, htabled.bySimpleName⟩⟩

theorem entered_listings (listings : List ProjectFact) (index : ScopeIndex) :
    Entered index (listings.foldl enterProject index)
      ((listings.zipIdx index.projects.length).flatMap fun (fact, position) =>
        fact.units.flatMap (namedIn position)) := by
  induction listings generalizing index with
  | nil => exact ⟨rfl, by simp [declarationsFrom], rfl, id⟩
  | cons fact listings ih =>
    have hrest := ih (enterProject index fact)
    rw [projects_enterProject, List.length_append, List.length_singleton] at hrest
    rw [List.foldl_cons, List.zipIdx_cons, List.flatMap_cons]
    exact (entered_project index fact).trans hrest

theorem build_entered (repo : RepositoryFact) (sep : Separator) :
    Entered (initial sep) (build repo sep).1 repo.named := by
  have hentered := entered_listings repo.firstListings (initial sep)
  rw [build_eq]
  refine ⟨hentered.separator, hentered.declarations, hentered.namespaces, fun htabled => ?_⟩
  have htables := hentered.tabled htabled
  exact ⟨htables.byFullName, htables.bySimpleName⟩

@[simp] theorem build_separator (repo : RepositoryFact) (sep : Separator) :
    (build repo sep).1.separator = sep :=
  (build_entered repo sep).separator

/-- **The declarations of an index** are the named declarations of the first listings. -/
theorem build_declarations (repo : RepositoryFact) (sep : Separator) :
    (build repo sep).1.declarations.toList = declarationsFrom sep repo.named := by
  simpa [initial] using (build_entered repo sep).declarations

/-- **The namespaces of an index** are those of the named declarations. -/
theorem build_namespaces (repo : RepositoryFact) (sep : Separator) :
    (build repo sep).1.namespaces = insertAll (.empty sep) repo.named :=
  (build_entered repo sep).namespaces

/-! ## Look-ups by name -/

theorem build_tabled (repo : RepositoryFact) (sep : Separator) :
    (build repo sep).1.Tabled := by
  refine (build_entered repo sep).tabled ⟨⟨fun _ => rfl, fun _ => rfl⟩, fun _ => rfl, fun _ => rfl⟩

/-- **The declarations of a full name**, without the table. -/
theorem declarationsOf_eq (repo : RepositoryFact) (sep : Separator) (fullName : String) :
    (build repo sep).1.declarationsOf fullName =
      (declarationsFrom sep repo.named).filter fun declaration =>
        declaration.fullName = fullName := by
  rw [declarationsOf, declarationsAt, (build_tabled repo sep).byFullName.filterMap_get,
    build_declarations]

/-- **The declarations that end in a name**, without the table. -/
theorem declarationsEndingWith_eq (repo : RepositoryFact) (sep : Separator) (name : String)
    (project : Nat) :
    (build repo sep).1.declarationsEndingWith name project =
      (declarationsFrom sep repo.named).filter fun declaration =>
        (declaration.project = project && sep.endsWith declaration.fullName name) &&
          sep.lastSegment declaration.relativeName = sep.lastSegment name := by
  rw [declarationsEndingWith, declarationsAt, (build_tabled repo sep).bySimpleName.filterMap_get,
    build_declarations, List.filter_filter, build_separator]

theorem isDeclared_eq (repo : RepositoryFact) (sep : Separator) (fullName : String) :
    (build repo sep).1.isDeclared fullName =
      (declarationsFrom sep repo.named).any fun declaration =>
        declaration.fullName = fullName := by
  rw [isDeclared, (build_tabled repo sep).byFullName.contains, build_declarations]

/-- A full name is declared in a project if one of the declarations of the project has it. -/
theorem isDeclaredIn_iff {repo : RepositoryFact} {sep : Separator} {fullName : String}
    {project : Nat} :
    (build repo sep).1.isDeclaredIn fullName project ↔
      ∃ entry ∈ repo.named, entry.1 = project ∧ entry.2.2.fullName sep = fullName := by
  rw [isDeclaredIn, declarationsOf_eq, declarationsFrom, List.filter_map, List.any_map,
    List.any_filter, List.any_eq_true]
  simp [declarationOf, and_comm]

/-! ## Namespaces -/

theorem insertAll_eq (tree : NamespaceTree) (facts : List (Nat × String × TypeFact)) :
    insertAll tree facts = tree.insertAll (facts.map fun entry => entry.2.2.namespaceName) := by
  rw [insertAll, NamespaceTree.insertAll, List.foldl_map]

theorem insertAll_bare {tree : NamespaceTree} (htree : tree.WellFormed) (h : tree.Bare)
    {facts : List (Nat × String × TypeFact)}
    (hfacts : ∀ entry ∈ facts, ∀ segment ∈ tree.separator.segments entry.2.2.trimmedNamespace,
      Text.trim segment = segment) : (insertAll tree facts).Bare := by
  induction facts generalizing tree with
  | nil => exact h
  | cons first facts ih =>
    have hinsert := NamespaceTree.insert_grown htree first.2.2.namespaceName
    refine ih hinsert.wellFormed (NamespaceTree.insert_bare h (hfacts first (by simp))) ?_
    rw [hinsert.grown.separator]
    exact fun entry hentry => hfacts entry (List.mem_cons_of_mem _ hentry)

theorem build_grown (repo : RepositoryFact) (sep : Separator) :
    (NamespaceTree.empty sep).Extends (build repo sep).1.namespaces ∧
      (build repo sep).1.namespaces.WellFormed := by
  rw [build_namespaces, insertAll_eq]
  exact NamespaceTree.insertAll_grown (NamespaceTree.empty_wellFormed sep) _

theorem build_wellFormed (repo : RepositoryFact) (sep : Separator) :
    (build repo sep).1.namespaces.WellFormed :=
  (build_grown repo sep).2

theorem build_namespaces_separator (repo : RepositoryFact) (sep : Separator) :
    (build repo sep).1.namespaces.separator = sep :=
  (build_grown repo sep).1.separator

theorem build_bare (repo : RepositoryFact) (sep : Separator)
    (h : ∀ entry ∈ repo.named, ∀ segment ∈ sep.segments entry.2.2.trimmedNamespace,
      Text.trim segment = segment) : (build repo sep).1.namespaces.Bare := by
  rw [build_namespaces]
  exact insertAll_bare (NamespaceTree.empty_wellFormed sep) (NamespaceTree.empty_bare sep) h

theorem build_placed (repo : RepositoryFact) (sep : Separator) :
    (build repo sep).1.namespaces.Placed := by
  rw [build_namespaces, insertAll_eq]
  exact NamespaceTree.insertAll_placed (NamespaceTree.empty_wellFormed sep)
    (NamespaceTree.empty_placed sep) _

/-- The namespace of a named declaration is found in the index. -/
theorem build_found (repo : RepositoryFact) (sep : Separator)
    {entry : Nat × String × TypeFact} (hentry : entry ∈ repo.named) :
    ∃ key, (build repo sep).1.namespaces.find? entry.2.2.trimmedNamespace = some key := by
  rw [build_namespaces, insertAll_eq, NamespaceTree.find?, TypeFact.trimmedNamespace,
    Text.trim_trim]
  exact NamespaceTree.find?_insertAll (NamespaceTree.empty_wellFormed sep)
    (List.mem_map.2 ⟨entry, hentry, rfl⟩)

/-- **The namespaces around a named declaration** are the same in every index that knows it. -/
theorem build_chain_congr {repo repo' : RepositoryFact} {entry : Nat × String × TypeFact}
    (hentry : entry ∈ repo.named) (hentry' : entry ∈ repo'.named) (sep : Separator) :
    (build repo' sep).1.namespaces.chain entry.2.2.trimmedNamespace =
      (build repo sep).1.namespaces.chain entry.2.2.trimmedNamespace := by
  obtain ⟨key, hkey⟩ := build_found repo sep hentry
  obtain ⟨key', hkey'⟩ := build_found repo' sep hentry'
  refine NamespaceTree.chain_congr (build_wellFormed repo sep) (build_wellFormed repo' sep)
    (build_placed repo sep) (build_placed repo' sep) ?_ hkey hkey'
  rw [build_namespaces_separator, build_namespaces_separator]

/-! ## Imports -/

/-- The imports of a unit under its path. -/
def importRow (unit : UnitFact) : String × ImportTable :=
  (unit.path, ImportTable.ofFacts unit.imports)

theorem imports_enterUnit (project : Nat) (index : ScopeIndex) (unit : UnitFact) :
    (enterUnit project index unit).imports = importRow unit :: index.imports := by
  have htypes (types : List TypeFact) (index : ScopeIndex) :
      (types.foldl (enterType project unit.path) index).imports = index.imports := by
    induction types generalizing index with
    | nil => rfl
    | cons fact facts ih =>
      rw [List.foldl_cons, ih, enterType]
      split <;> rfl
  exact htypes _ _

theorem imports_enterProject (index : ScopeIndex) (fact : ProjectFact) :
    (enterProject index fact).imports = (fact.units.map importRow).reverse ++ index.imports := by
  have hunits (units : List UnitFact) (project : Nat) (index : ScopeIndex) :
      (units.foldl (enterUnit project) index).imports =
        (units.map importRow).reverse ++ index.imports := by
    induction units generalizing index with
    | nil => rfl
    | cons unit units ih => simp [ih, imports_enterUnit]
  exact hunits _ _ _

/-- **The imports of an index** are those of the units of the first listings, the latest first. -/
theorem build_imports (repo : RepositoryFact) (sep : Separator) :
    (build repo sep).1.imports =
      ((repo.firstListings.flatMap ProjectFact.units).map importRow).reverse := by
  have hlistings (listings : List ProjectFact) (index : ScopeIndex) :
      (listings.foldl enterProject index).imports =
        ((listings.flatMap ProjectFact.units).map importRow).reverse ++ index.imports := by
    induction listings generalizing index with
    | nil => rfl
    | cons fact listings ih => simp [ih, imports_enterProject]
  rw [build_eq]
  simpa [initial] using hlistings repo.firstListings (initial sep)

/-- **The imports under a path** are those of the last unit with that path. -/
theorem importsOf?_eq (repo : RepositoryFact) (sep : Separator) (path : String) :
    (build repo sep).1.importsOf? path =
      (((repo.firstListings.flatMap ProjectFact.units).filter fun unit => unit.path = path).map
        fun unit => ImportTable.ofFacts unit.imports).getLast? := by
  -- The rows are entered at the front, so the first one found is that of the last unit.
  have hlookup (units : List UnitFact) : (units.map importRow).lookup path =
      ((units.filter fun unit => unit.path = path).map
        fun unit => ImportTable.ofFacts unit.imports).head? := by
    induction units with
    | nil => rfl
    | cons unit units ih =>
      rw [List.map_cons, importRow, NameTable.lookup_cons_ite, ih, List.filter_cons]
      by_cases h : unit.path = path
      · simp [h]
      · simp [h, Ne.symm h]
  rw [importsOf?, build_imports, ← List.map_reverse, hlookup, List.filter_reverse,
    List.map_reverse, List.head?_reverse]

end ScopeIndex

end FactGraph
