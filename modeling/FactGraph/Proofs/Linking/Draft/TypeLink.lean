import FactGraph.Proofs.Linking.Draft.Follows
import FactGraph.Proofs.Linking.Draft.Steps

/-!
# Type names are linked as in draft

A look-up of a declared type reads the table of its full name and the table of the projects. Both
are in step with the nodes, so it finds what a scan finds, and every link that is made of a name is
the one that is made in draft.

## Main results

* `run_lookupDeclared`, `run_existingLink`: look-ups, which change nothing
* `follows_typeFor`: the type that a full name refers to
* `follows_linkTree`, `follows_linkTypeRef`, `follows_linkAttributes`: links
-/

namespace FactGraph.Linker

open LinkM

variable {linker : Linker} {full : LinkState} {s : DraftState} {waiting : List WaitingMethod}
  {known : List ModelNode}

/-! ## Looking types up -/

/-- The projects that can be reached from the one of a node. -/
theorem reachableProjects_eq {model : ReferenceModel} (h : full.tables.InStep model)
    {project : ProjectId} {node : ProjectNode} (hnode : model.project? project = some node) :
    linker.reachableProjects full.tables node.path = linker.reachableFrom model project := by
  unfold reachableProjects reachableFrom
  rw [hnode, Option.bind_some]
  cases linker.index.projectIndex? node.path with
  | none => rfl
  | some position => exact LinkTables.InStep.projectsAt_eq h.project? linker _

/-- The declared type that a full name refers to, if the types of that name are given. -/
theorem lookupDeclared?_cons {model : ReferenceModel} {fullName : String} {project : ProjectId}
    {first : TypeNode} {others : List TypeNode}
    (h : declaredTypes model fullName = first :: others) :
    linker.lookupDeclared? model fullName project =
      (((first :: others).find? fun node => node.project = some project).or
        ((linker.reachableFrom model project).findSome? fun place =>
          (first :: others).find? fun node => node.project = some place)).elim
        (if linker.index.allowsGlobal linker.policy then some first.id else none)
        fun node => some node.id := by
  unfold lookupDeclared?
  rw [h]
  dsimp only
  rw [List.findSome?_cons]
  cases (first :: others).find? fun node => node.project = some project <;>
    cases (linker.reachableFrom model project).findSome? _ <;> rfl

/-- **A look-up finds what a scan finds.** It reads the tables, and the path of its project. -/
theorem run_lookupDeclared_of {model : ReferenceModel} (h : full.tables.InStep model)
    {project : ProjectId} {node listed : ProjectNode} (hnode : model.project? project = some node)
    (hlisted : full.model.project? project = some listed) (hpath : listed.path = node.path)
    (fullName : String) :
    (linker.lookupDeclared fullName project).run full =
      .ok (linker.lookupDeclared? model fullName project, full) := by
  have hat : (projectAt project).run full = .ok (listed, full) := run_projectAt hlisted
  have hentries := h.declaredAs fullName
  have hlookup := LinkTables.InStep.lookup_entries hentries
  have hfollows : Follows full { model } (linker.lookupDeclared fullName project)
      (pure (linker.lookupDeclared? model fullName project))
      fun a b full' _ => a = b ∧ full' = full := by
    refine Follows.first (rfl : tables.run full = .ok (full.tables, full)) ?_
    cases htable : full.tables.declaredAs fullName with
    | nil =>
      rw [htable] at hentries
      unfold lookupDeclared?
      rw [List.map_eq_nil_iff.1 hentries.symm]
      exact .pure ⟨rfl, rfl⟩
    | cons first others =>
      rw [htable] at hentries hlookup
      obtain ⟨head, tail, hnodes, hhead, -⟩ := List.map_eq_cons_iff.1 hentries.symm
      have hfirst : first.2 = head.id := (Prod.mk.inj hhead).2.symm
      rw [lookupDeclared?_cons hnodes]
      rw [hnodes] at hlookup
      dsimp only
      rw [hlookup]
      cases (head :: tail).find? fun node => node.project = some project with
      | some own => exact .pure ⟨rfl, rfl⟩
      | none =>
        refine Follows.first hat ?_
        refine Follows.first (rfl : tables.run full = .ok (full.tables, full)) ?_
        have hreach : linker.reachableProjects full.tables listed.path =
            linker.reachableFrom model project := by
          rw [hpath]
          exact reachableProjects_eq h hnode
        have hfar : ((linker.reachableFrom model project).findSome? fun place =>
            (first :: others).lookup place) =
              ((linker.reachableFrom model project).findSome? fun place =>
                (head :: tail).find? fun node => node.project = some place).map TypeNode.id := by
          rw [List.map_findSome?]
          exact congrArg (List.findSome? · _) (funext hlookup)
        rw [hreach, hfar]
        cases (linker.reachableFrom model project).findSome? _ with
        | some other => exact .pure ⟨rfl, rfl⟩
        | none => exact .pure ⟨by rw [hfirst]; rfl, rfl⟩
  obtain ⟨_, _, hrun, rfl, rfl⟩ := hfollows _ _ rfl
  exact hrun

/-- A look-up in a draft. -/
theorem run_lookupDeclared (h : full.Realizes waiting known s) {project : ProjectId}
    (hproject : s.model.hasHandle project) (fullName : String) :
    (linker.lookupDeclared fullName project).run full =
      .ok (linker.lookupDeclared? s.model fullName project, full) := by
  obtain ⟨node, hnode⟩ := ReferenceModel.exists_project hproject
  have hlisted : full.model.project? project = some (s.model.listProject node) := by
    rw [h.model, ReferenceModel.listed_project?, hnode]
    rfl
  exact run_lookupDeclared_of h.tables hnode hlisted rfl fullName

theorem follows_ensureExternal (h : full.Realizes waiting known s) (fullName : String) :
    Follows full s (linker.ensureExternal fullName) (linker.draftExternal fullName)
      (Agrees waiting known) := by
  refine Follows.first (rfl : tables.run full = .ok (full.tables, full)) ?_
  refine Follows.after DraftM.ends_model ?_
  rintro _ _ ⟨rfl, rfl⟩
  rw [h.tables.external?]
  cases hfresh : findExternal? s.model fullName with
  | some id => exact .pure ⟨rfl, h⟩
  | none =>
    refine Follows.first (run_nextHandle h .type) ?_
    refine Follows.last
      (follows_addExternal h (by rfl) (by rfl) (by rfl) (by rfl) (by rfl) (by exact hfresh)) ?_
    rintro _ _ full₁ s₁ ⟨rfl, h₁⟩
    exact ⟨_, full₁, rfl, rfl, h₁⟩

theorem follows_typeFor (h : full.Realizes waiting known s) (fullName : String)
    (project : ProjectId) :
    Follows full s (linker.typeFor fullName project) (linker.draftTypeFor fullName project)
      (Agrees waiting known) := by
  refine Follows.after DraftM.ends_require_hasHandle ?_
  rintro _ _ ⟨hproject, rfl⟩
  refine Follows.first (run_lookupDeclared h hproject fullName) ?_
  refine Follows.after DraftM.ends_model ?_
  rintro _ _ ⟨rfl, rfl⟩
  cases linker.lookupDeclared? s.model fullName project with
  | some id => exact .pure ⟨rfl, h⟩
  | none => exact follows_ensureExternal h fullName

/-! ## Links -/

mutual

theorem follows_linkTree (project : ProjectId) (typeParameters : List String) :
    ∀ (tree : TypeName) {full : LinkState} {s : DraftState}, full.Realizes waiting known s →
      Follows full s (linker.linkTree project typeParameters tree)
        (linker.draftTree project typeParameters tree) (Agrees waiting known)
  | ⟨base, args, suffix⟩, full, s, h => by
    unfold linkTree draftTree
    refine (follows_linkTrees project typeParameters args h).bind ?_
    rintro links _ full₁ s₁ ⟨rfl, h₁⟩
    dsimp only
    split
    next => exact .pure ⟨rfl, h₁⟩
    next =>
      refine ((follows_typeFor h₁ base project).map some).bind ?_
      rintro target _ full₂ s₂ ⟨rfl, h₂⟩
      exact .pure ⟨rfl, h₂⟩

theorem follows_linkTrees (project : ProjectId) (typeParameters : List String) :
    ∀ (trees : List TypeName) {full : LinkState} {s : DraftState}, full.Realizes waiting known s →
      Follows full s (linker.linkTrees project typeParameters trees)
        (linker.draftTrees project typeParameters trees) (Agrees waiting known)
  | [], full, s, h => by
    unfold linkTrees draftTrees
    exact .pure ⟨rfl, h⟩
  | tree :: trees, full, s, h => by
    unfold linkTrees draftTrees
    refine (follows_linkTree project typeParameters tree h).bind ?_
    rintro link _ full₁ s₁ ⟨rfl, h₁⟩
    refine (follows_linkTrees project typeParameters trees h₁).bind ?_
    rintro links _ full₂ s₂ ⟨rfl, h₂⟩
    exact .pure ⟨rfl, h₂⟩

end

variable {project : ProjectId} {typeParameters : List String}

theorem follows_linkName (h : full.Realizes waiting known s) (name : String) :
    Follows full s (linker.linkName project typeParameters name)
      (linker.draftName project typeParameters name) (Agrees waiting known) :=
  follows_linkTree project typeParameters (TypeName.parse name) h

theorem follows_linkTypeRef (h : full.Realizes waiting known s) (ref : TypeRef) :
    Follows full s (linker.linkTypeRef project typeParameters ref)
      (linker.draftTypeRef project typeParameters ref) (Agrees waiting known) :=
  follows_linkName h ref.fullName

theorem follows_linkAttributes (h : full.Realizes waiting known s)
    (attributes : List AttributeFact) :
    Follows full s (linker.linkAttributes project typeParameters attributes)
      (linker.draftAttributes project typeParameters attributes) (Agrees waiting known) := by
  refine .mapM h fun fact _ full₁ s₁ h₁ => ?_
  refine (follows_linkTypeRef h₁ fact.typeRef).bind ?_
  rintro typeLink _ full₂ s₂ ⟨rfl, h₂⟩
  exact .pure ⟨rfl, h₂⟩

mutual

/-- A link to types that are there already changes nothing. -/
theorem run_existingLink (h : full.Realizes waiting known s)
    (hproject : s.model.hasHandle project) :
    ∀ tree : TypeName, (linker.existingLink project tree).run full =
      .ok (linker.linkIn s.model project tree, full)
  | ⟨base, args, suffix⟩ => by
    unfold existingLink linkIn
    rw [run_bind (run_lookupDeclared h hproject base),
      run_bind (rfl : tables.run full = .ok (full.tables, full))]
    refine (run_bind (run_existingLinks h hproject args)).trans ?_
    rw [h.tables.external?]
    rfl

theorem run_existingLinks (h : full.Realizes waiting known s)
    (hproject : s.model.hasHandle project) :
    ∀ trees : List TypeName, (linker.existingLinks project trees).run full =
      .ok (linker.linksIn s.model project trees, full)
  | [] => by
    unfold existingLinks linksIn
    rfl
  | tree :: trees => by
    unfold existingLinks linksIn
    rw [run_bind (run_existingLink h hproject tree),
      run_bind (run_existingLinks h hproject trees)]
    rfl

end

end FactGraph.Linker
