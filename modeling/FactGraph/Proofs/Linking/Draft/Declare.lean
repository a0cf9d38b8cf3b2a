import FactGraph.Proofs.Linking.Draft.Follows
import FactGraph.Proofs.Linking.Draft.Steps

/-!
# Declarations follow the draft

Types are declared and put into each other as they are in draft. The linker finds in its tables what
a scan finds, and a type gets the handle that was taken for it before its namespaces were made,
since namespaces are no types.

## Main results

* `follows_declareAll`: the types of all declarations
* `follows_nestAll`: nested types
-/

namespace FactGraph.Linker

open LinkM

variable {linker : Linker} {full : LinkState} {s : DraftState} {waiting : List WaitingMethod}
  {known : List ModelNode}

/-! ## Namespaces -/

theorem follows_ensureSpace (h : full.Realizes waiting known s) (project : ProjectId)
    (parent : Option NamespaceId) (fullName : String) :
    Follows full s (linker.ensureSpace project parent fullName)
      (linker.draftSpace project parent fullName) fun a b full' s' =>
        Agrees waiting known a b full' s' ∧ s'.model.types = s.model.types := by
  refine Follows.first (rfl : tables.run full = .ok (full.tables, full)) ?_
  refine Follows.after DraftM.ends_model ?_
  rintro _ _ ⟨rfl, rfl⟩
  rw [h.tables.space?]
  cases hfresh : findNamespace? s.model project fullName with
  | some id => exact .pure ⟨⟨rfl, h⟩, rfl⟩
  | none =>
    refine Follows.first (run_nextHandle h .space) ?_
    refine Follows.last (follows_addNamespace h (by rfl) (by rfl) (by rfl) (by exact hfresh)) ?_
    rintro _ _ full₁ s₁ ⟨rfl, h₁, htypes⟩
    exact ⟨_, full₁, rfl, ⟨rfl, h₁⟩, htypes⟩

theorem follows_ensureNamespaces (h : full.Realizes waiting known s) (project : ProjectId)
    (parent : Option NamespaceId) (fullNames : List String) :
    Follows full s (linker.ensureNamespaces project parent fullNames)
      (linker.draftNamespaces project parent fullNames) fun a b full' s' =>
        Agrees waiting known a b full' s' ∧ s'.model.types = s.model.types := by
  induction fullNames generalizing parent full s with
  | nil => exact .pure ⟨⟨rfl, h⟩, rfl⟩
  | cons fullName fullNames ih =>
    refine (follows_ensureSpace h project parent fullName).bind ?_
    rintro id _ full₁ s₁ ⟨⟨rfl, h₁⟩, htypes₁⟩
    refine (ih h₁ (some id)).mono ?_
    rintro _ _ full₂ s₂ ⟨hagrees, htypes₂⟩
    exact ⟨hagrees, htypes₂.trans htypes₁⟩

/-! ## Types -/

theorem follows_ensureType (h : full.Realizes waiting known s) (project : ProjectId)
    (fact : TypeFact) :
    Follows full s (linker.ensureType project fact) (linker.draftType project fact)
      (Agrees waiting known) := by
  refine Follows.first (rfl : tables.run full = .ok (full.tables, full)) ?_
  refine Follows.after DraftM.ends_model ?_
  rintro _ _ ⟨rfl, rfl⟩
  rw [h.tables.fragments?]
  cases hfresh : findFragments? s.model project (fact.fullName linker.separator)
    fact.isPartial with
  | some id => exact .pure ⟨rfl, h⟩
  | none =>
    refine Follows.first (run_nextHandle h .type) ?_
    refine (follows_ensureNamespaces h project none (linker.namespaceNames fact)).bind ?_
    rintro namespaceId _ full₁ s₁ ⟨⟨rfl, h₁⟩, htypes⟩
    have hnext : s.model.count .type = s₁.model.count .type := by
      rw [ReferenceModel.count, ReferenceModel.count, htypes]
    have hfresh₁ : findFragments? s₁.model project (fact.fullName linker.separator)
        fact.isPartial = none := by
      rw [findFragments?, htypes]
      exact hfresh
    rw [hnext]
    refine Follows.last (follows_addDeclared h₁ (by rfl) (by rfl) (by dsimp only) (by rfl) (by rfl)
      (by dsimp only; exact hfresh₁)) ?_
    rintro _ _ full₂ s₂ ⟨rfl, h₂⟩
    exact ⟨_, full₂, rfl, rfl, h₂⟩

theorem follows_declare (h : full.Realizes waiting known s) (unit : SourceUnit)
    (fact : TypeFact) :
    Follows full s (linker.declare unit fact) (linker.draftDeclaration unit fact)
      (Agrees waiting known) := by
  unfold declare draftDeclaration
  split
  next =>
    refine (follows_ensureType h unit.project fact).bind ?_
    rintro type _ full₁ s₁ ⟨rfl, h₁⟩
    refine (follows_modifyType h₁ type (fun _ => by rfl) fun _ => by rfl).bind ?_
    rintro _ _ full₂ s₂ ⟨h₂, -⟩
    refine (follows_modifyFile h₂ unit.file fun _ => by rfl).bind ?_
    rintro _ _ full₃ s₃ h₃
    exact .pure ⟨rfl, h₃⟩
  next =>
    refine (follows_report h _).bind ?_
    rintro _ _ full₁ s₁ h₁
    exact .pure ⟨rfl, h₁⟩

/-- **The types of all declarations** are declared as in draft. -/
theorem follows_declareAll (h : full.Realizes waiting known s) (units : List SourceUnit) :
    Follows full s (linker.declareAll units) (linker.draftAll units) (Agrees waiting known) := by
  refine (Follows.mapM h fun unit _ full₁ s₁ h₁ => ?_).bind ?_
  · refine (Follows.mapM h₁ fun fact _ full₂ s₂ h₂ => follows_declare h₂ unit fact).bind ?_
    rintro fragments _ full₂ s₂ ⟨rfl, h₂⟩
    exact .pure ⟨rfl, h₂⟩
  · rintro fragments _ full₁ s₁ ⟨rfl, h₁⟩
    exact .pure ⟨rfl, h₁⟩

/-! ## Nested types -/

theorem modify_self {α : Type} (nodes : Array α) (i : Nat) :
    nodes.modify i (fun node => node) = nodes := by
  refine Array.ext_getElem? fun j => ?_
  rw [Array.getElem?_modify]
  split <;> simp

/-- The type that a fragment says it is nested in, as the tables have it. -/
theorem outerType?_eq (linker : Linker) (h : full.Realizes waiting known s)
    (fragment : Fragment) :
    linker.outerType? s.model fragment = (linker.outerName? fragment.fact).bind fun fullName =>
      (full.tables.declaredAs fullName).lookup fragment.project := by
  unfold outerType? outerName?
  cases fragment.fact.containingType.filter fun outer => !Text.isBlank outer with
  | none => rfl
  | some outer => exact (h.tables.findDeclared?_eq h.numbered h.external _ _).symm

theorem follows_nest (h : full.Realizes waiting known s) (fragment : Fragment) :
    Follows full s (linker.nest fragment) (linker.draftNest fragment) fun _ _ full' s' =>
      full'.Realizes waiting known s' := by
  refine Follows.after DraftM.ends_model ?_
  rintro _ _ ⟨rfl, rfl⟩
  have houter := outerType?_eq linker h fragment
  unfold nest
  split
  next fullName hname =>
    rw [hname, Option.bind_some] at houter
    rw [houter]
    refine Follows.first (rfl : tables.run full = .ok (full.tables, full)) ?_
    refine (follows_modifyType h fragment.type (fun _ => by rfl) fun _ => by rfl).mono ?_
    exact fun _ _ _ _ h₁ => h₁.1
  next hname =>
    rw [hname, Option.bind_none] at houter
    rw [houter]
    -- In draft the type is changed all the same, to what it was.
    have hsame : DraftM.Ends s (DraftM.modifyType fragment.type fun node =>
        { node with containingType := node.containingType.or none }) fun _ s' => s = s' := by
      refine DraftM.ends_require.bind ?_
      rintro _ _ rfl
      refine DraftM.ends_modify ?_
      simp only [Option.or_none]
      rw [modify_self]
    exact fun _ s' hrun => ⟨(), full, rfl, hsame _ _ hrun ▸ h⟩

/-- **Nested types** are put into their enclosing types as in draft. -/
theorem follows_nestAll (h : full.Realizes waiting known s) (fragments : List Fragment) :
    Follows full s (linker.nestAll fragments) (linker.draftNestAll fragments)
      fun _ _ full' s' => full'.Realizes waiting known s' :=
  .forM h fun fragment _ _ _ h₁ => follows_nest h₁ fragment

end FactGraph.Linker
