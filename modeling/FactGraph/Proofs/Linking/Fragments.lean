import FactGraph.Proofs.Linking.Integrity
import FactGraph.Proofs.Linking.Record
import Mathlib.Data.List.Pairwise

/-!
# The declarations of a type

Declarations that agree in their project, their full name and in being partial or not make up one
type. A run finds the named ones among all declarations, in their order, and counts the others;
every file lists the types of its named declarations in their order; and no two types have the
same key, so which declarations make up a type can be read off the facts.

## Main definitions

* `Linker.declarations`: the declarations of a repository, in the order of their units
* `Declaration.key`, `TypeNode.key?`: what the declarations of one type agree in
* `ReferenceModel.KeysDistinct`: no two types have the same key

## Main results

* `ends_draftAll`: the fragments, the files and the findings of all units
* `DeclareMove.keys`: a type is made for the key of a declaration that no type has
* `Phases.keysDistinct`, `Phases.exists_declaration`: no two types have the same key when a run is
  over, and every key is that of a declaration
-/

namespace FactGraph

/-- A declaration of a project. -/
structure Declaration where
  project : ProjectId
  fact : TypeFact

namespace Declaration

/-- The declaration has a name. -/
def isNamed (declaration : Declaration) : Bool :=
  declaration.fact.isNamed

/-- **What the declarations of one type agree in**: the project, the full name, and being partial
or not. -/
def key (sep : Separator) (declaration : Declaration) : ProjectId × String × Bool :=
  (declaration.project, declaration.fact.fullName sep, declaration.fact.isPartial)

end Declaration

/-- The key of the declarations of a type. An external type has none. -/
def TypeNode.key? (node : TypeNode) : Option (ProjectId × String × Bool) :=
  node.project.map fun project => (project, node.fullName, node.isPartial)

theorem TypeNode.key?_of_header {node node' : TypeNode} (h : node'.header = node.header) :
    node'.key? = node.key? :=
  calc node'.key? = node'.header.key? := rfl
    _ = node.header.key? := by rw [h]
    _ = node.key? := rfl

/-- The declaration of a fragment. -/
def Fragment.declaration (fragment : Fragment) : Declaration :=
  { project := fragment.project, fact := fragment.fact }

/-- The change of the first element behind a list. -/
theorem modify_append_length {α : Type} (done : List α) (x : α) (xs : List α) (f : α → α) :
    (done ++ x :: xs).modify done.length f = done ++ f x :: xs := by
  induction done with
  | nil => rfl
  | cons y done ih => simp [ih]

namespace SourceUnit

/-- The declarations of a unit. -/
def declarations (unit : SourceUnit) : List Declaration :=
  unit.fact.types.map fun fact => { project := unit.project, fact }

/-- The file of a unit before any declaration of it is noted. -/
def fileNode (unit : SourceUnit) : FileNode :=
  { id := unit.file, path := unit.fact.path, project := unit.project }

/-- Types are noted in the file of a unit. -/
def note (unit : SourceUnit) (types : List TypeId) (files : List FileNode) : List FileNode :=
  files.modify unit.file.idx fun node => { node with types := node.types ++ types }

@[simp] theorem note_nil (unit : SourceUnit) (files : List FileNode) :
    unit.note [] files = files := by
  have hid : (fun node : FileNode => { node with types := node.types ++ [] }) = id := by
    funext node
    cases node
    simp
  rw [note, hid, List.modify_id]

theorem note_append (unit : SourceUnit) (types others : List TypeId) (files : List FileNode) :
    unit.note (types ++ others) files = unit.note others (unit.note types files) := by
  simp only [note, List.modify_modify_eq, ← List.append_assoc]
  rfl

/-- Noting types in the first file that is left. -/
theorem note_here {unit : SourceUnit} {done files : List FileNode} (types : List TypeId)
    (h : unit.file.idx = done.length) :
    unit.note types (done ++ unit.fileNode :: files) =
      done ++ { unit.fileNode with types } :: files := by
  rw [note, h, modify_append_length]
  rfl

end SourceUnit

/-- **The declarations of a repository**, those of the first listings, in the order of their
units. -/
def Linker.declarations (repo : RepositoryFact) : List Declaration :=
  (Linker.sourceUnits repo).flatMap SourceUnit.declarations

namespace Linker

open DraftM
open Relation (ReflTransGen)

variable {linker : Linker} {s s' : DraftState} {unit : SourceUnit}

/-! ## Fragments of a run -/

/-- However the step ends, the files and the members are as they were. -/
abbrev KeepsFiles {α : Type} (step : DraftM α) : Prop :=
  Along (fun s s' => s'.model.files = s.model.files ∧ SameMembers s s') step

instance : IsPreorder DraftState fun s s' =>
    s'.model.files = s.model.files ∧ SameMembers s s' where
  refl s := ⟨rfl, .refl s⟩
  trans _ _ _ h h' := ⟨h'.1.trans h.1, h.2.trans h'.2⟩

theorem keepsFiles_draftSpace (project : ProjectId) (parent : Option NamespaceId)
    (fullName : String) : KeepsFiles (linker.draftSpace project parent fullName) := by
  unfold draftSpace
  refine along_model.bind fun m => ?_
  split
  · exact .pure _
  · exact along_model.bind fun _ _ => ends_modify_pure ⟨rfl, by constructor <;> rfl⟩

theorem keepsFiles_draftNamespaces (project : ProjectId) (parent : Option NamespaceId)
    (names : List String) : KeepsFiles (linker.draftNamespaces project parent names) := by
  induction names generalizing parent with
  | nil => exact .pure parent
  | cons fullName names ih =>
    exact (keepsFiles_draftSpace project parent fullName).bind fun id => ih (some id)

theorem keepsFiles_draftType (project : ProjectId) (fact : TypeFact) :
    KeepsFiles (linker.draftType project fact) := by
  unfold draftType
  refine along_model.bind fun m => ?_
  split
  · exact .pure _
  · exact (keepsFiles_draftNamespaces project none _).bind fun _ =>
      along_model.bind fun _ _ => ends_modify_pure ⟨rfl, by constructor <;> rfl⟩

/-- **A declaration becomes a fragment** and is noted in its file, or is counted if it has no
name. -/
theorem ends_draftDeclaration (unit : SourceUnit) (fact : TypeFact) :
    Ends s (linker.draftDeclaration unit fact) fun fragment? s' =>
      fragment?.toList.map Fragment.declaration =
        [{ project := unit.project, fact : Declaration }].filter Declaration.isNamed ∧
      s'.model.files.toList =
        unit.note (fragment?.toList.map Fragment.type) s.model.files.toList ∧
      s'.ledger = s.ledger ++ { skipped := [fact].countP (!·.isNamed) } := by
  unfold draftDeclaration
  split
  next hnamed =>
    refine (keepsFiles_draftType unit.project fact s).bind fun type s₁ h₁ => ?_
    have hnote : KeepsFiles (modifyType type (withFile unit.file)) :=
      (along_require type).bind fun _ _ => ends_modify ⟨rfl, by constructor <;> rfl⟩
    refine (hnote s₁).bind fun _ s₂ hkept => ?_
    have h₂ : s₂.model.files = s.model.files ∧ s₂.ledger = s.ledger :=
      ⟨hkept.1.trans h₁.1, (h₁.2.trans hkept.2).ledger⟩
    have hlist : Ends s₂ (modifyFile unit.file fun node =>
        { node with types := node.types ++ [type] })
        fun _ s' => s'.model.files.toList = unit.note [type] s.model.files.toList ∧
          s'.ledger = s.ledger := by
      refine ends_require.bind ?_
      rintro _ _ rfl
      refine ends_modify ⟨?_, h₂.2⟩
      simp [h₂.1, SourceUnit.note]
    refine hlist.bind fun _ s₃ h₃ => .pure ⟨?_, h₃.1, ?_⟩
    · simp [Fragment.declaration, Declaration.isNamed, hnamed]
    · simp [h₃.2, hnamed]
  next hnamed =>
    refine ends_modify_pure ⟨?_, ?_, ?_⟩
    · simp [Declaration.isNamed, hnamed]
    · simp
    · ext1 <;> simp [DraftState.ledger, Diagnostics.ofKind, Diagnostics.push,
        Diagnostic.namelessType, hnamed]

/-- **The fragments of a unit** are its named declarations, in their order. -/
theorem ends_draftUnit (unit : SourceUnit) :
    Ends s (linker.draftUnit unit) fun fragments s' =>
      fragments.map Fragment.declaration = unit.declarations.filter Declaration.isNamed ∧
      s'.model.files.toList = unit.note (fragments.map Fragment.type) s.model.files.toList ∧
      s'.ledger = s.ledger ++ { skipped := unit.declarations.countP (!·.isNamed) } := by
  have hall (facts : List TypeFact) (s : DraftState) :
      Ends s (facts.mapM (linker.draftDeclaration unit)) fun results s' =>
        (results.filterMap id).map Fragment.declaration =
          (facts.map fun fact => { project := unit.project, fact : Declaration }).filter
            Declaration.isNamed ∧
        s'.model.files.toList =
          unit.note ((results.filterMap id).map Fragment.type) s.model.files.toList ∧
        s'.ledger = s.ledger ++ { skipped := facts.countP (!·.isNamed) } := by
    induction facts generalizing s with
    | nil => exact .pure ⟨rfl, (unit.note_nil _).symm, s.ledger.append_empty.symm⟩
    | cons fact facts ih =>
      rw [List.mapM_cons]
      refine (ends_draftDeclaration unit fact).bind fun first s₁ ⟨hfirst, hfiles₁, heq₁⟩ => ?_
      refine (ih s₁).bind fun results s₂ ⟨hresults, hfiles₂, heq₂⟩ => .pure ?_
      have hsplit : (first :: results).filterMap id = first.toList ++ results.filterMap id := by
        cases first <;> rfl
      rw [hsplit, List.map_append, List.map_append, hfirst, hresults, hfiles₂, hfiles₁, heq₂, heq₁,
        SourceUnit.note_append]
      refine ⟨(List.filter_append [_] _).symm, rfl, ?_⟩
      rw [Ledger.append_assoc]
      ext1 <;> cases h : fact.isNamed <;> simp [h, Nat.add_comm]
  have hcount : unit.declarations.countP (!·.isNamed) =
      unit.fact.types.countP (!·.isNamed) := by
    simp [SourceUnit.declarations, List.countP_map, Function.comp_def, Declaration.isNamed]
  rw [hcount]
  exact (hall unit.fact.types s).bind fun _ _ h => .pure h

/-- The file of a unit once all units are declared: it lists the types of the fragments of the
unit. -/
def Filed (fragments : List Fragment) (unit : SourceUnit) (file : FileNode) : Prop :=
  ∃ own ⊆ fragments, file = { unit.fileNode with types := own.map Fragment.type } ∧
    own.map Fragment.declaration = unit.declarations.filter Declaration.isNamed

/-- **The fragments of all units** are the named declarations, in their order; the files list the
types of theirs, and the declarations without a name are counted. -/
theorem ends_draftAll {units : List SourceUnit} {done : List FileNode}
    (hfiles : units.map (fun unit => unit.file.idx) = List.range' done.length units.length)
    (hstart : s.model.files.toList = done ++ units.map SourceUnit.fileNode) :
    Ends s (linker.draftAll units) fun fragments s' =>
      fragments.map Fragment.declaration =
        (units.flatMap SourceUnit.declarations).filter Declaration.isNamed ∧
      s'.ledger = s.ledger ++
        { skipped := (units.flatMap SourceUnit.declarations).countP (!·.isNamed) } ∧
      ∃ files, s'.model.files.toList = done ++ files ∧
        List.Forall₂ (Filed fragments) units files := by
  -- The files of the units that are done stay in front, and the next unit has the next file.
  induction units generalizing s done with
  | nil => exact .pure ⟨rfl, s.ledger.append_empty.symm, [], hstart, .nil⟩
  | cons unit units ih =>
    rw [draftAll_cons]
    simp only [List.map_cons, List.length_cons, List.range'_succ, List.cons.injEq] at hfiles
    obtain ⟨hhere, hothers⟩ := hfiles
    refine (ends_draftUnit unit).bind fun first s₁ ⟨hfirst, hfiles₁, heq₁⟩ => ?_
    rw [hstart, List.map_cons, SourceUnit.note_here _ hhere] at hfiles₁
    have hrest : s₁.model.files.toList =
        (done ++ [{ unit.fileNode with types := first.map Fragment.type }]) ++
          units.map SourceUnit.fileNode := by
      rw [hfiles₁, List.append_assoc]
      rfl
    refine (ih (by simpa using hothers) hrest).bind fun others s₂ ⟨hothers, heq₂, hfiled⟩ =>
      .pure ⟨?_, ?_, ?_⟩
    · rw [List.map_append, hfirst, hothers, List.flatMap_cons, List.filter_append]
    · rw [heq₂, heq₁, Ledger.append_assoc, List.flatMap_cons, List.countP_append]
      rfl
    · obtain ⟨files, hfiles₂, hfiled⟩ := hfiled
      refine ⟨_ :: files, by simpa using hfiles₂, .cons ⟨first, by simp, rfl, hfirst⟩ ?_⟩
      refine hfiled.imp fun _ _ hfile => ?_
      obtain ⟨own, hown, hrest⟩ := hfile
      exact ⟨own, List.Subset.trans hown (List.subset_append_right first others), hrest⟩

/-- The files of a repository are numbered as its units are. -/
theorem sourceUnits_files (repo : RepositoryFact) :
    (sourceUnits repo).map (fun unit => unit.file.idx) =
      List.range' 0 (sourceUnits repo).length := by
  rw [sourceUnits, unitsOf, List.map_map, List.length_map, List.length_zipIdx,
    ← List.zipIdx_map_snd]
  rfl

/-! ## Keys -/

end Linker

/-- The keys of the types of a model. -/
def ReferenceModel.keys (model : ReferenceModel) : List (ProjectId × String × Bool) :=
  model.types.toList.filterMap TypeNode.key?

/-- **No two types have the same key.** -/
def ReferenceModel.KeysDistinct (model : ReferenceModel) : Prop :=
  (model.types.toList.filterMap TypeNode.key?).Nodup

/-- A key leads to one type. -/
theorem ReferenceModel.KeysDistinct.eq {model : ReferenceModel} (h : model.KeysDistinct)
    {node node' : TypeNode} (hnode : node ∈ model.types) (hnode' : node' ∈ model.types)
    {key : ProjectId × String × Bool} (hkey : node.key? = some key)
    (hkey' : node'.key? = some key) : node = node' := by
  by_contra hne
  have hpairs := List.pairwise_filterMap.1 h
  have hsymm : Std.Symm fun a b : TypeNode =>
      ∀ k, a.key? = some k → ∀ k', b.key? = some k' → k ≠ k' :=
    ⟨fun _ _ h k hk k' hk' heq => h k' hk' k hk heq.symm⟩
  have hdistinct := List.Pairwise.forall hpairs (Array.mem_toList_iff.2 hnode)
    (Array.mem_toList_iff.2 hnode') hne
  exact hdistinct key hkey key hkey' rfl

namespace Linker

open Relation (ReflTransGen)

variable {linker : Linker} {source : Occurrences} {s s' : DraftState} {unit : SourceUnit}

/-- A type is only made for the key of a declaration that no type has. -/
theorem DeclareMove.keys (h : linker.DeclareMove unit s s') :
    s'.model.keys = s.model.keys ∨ ∃ declaration ∈ unit.declarations, declaration.isNamed ∧
      declaration.key linker.separator ∉ s.model.keys ∧
      s'.model.keys = s.model.keys ++ [declaration.key linker.separator] := by
  cases h with
  | report => exact .inl rfl
  | space fact hfact hnamed h =>
    cases h
    exact .inl rfl
  | addType fact namespaceId hfact hnamed hproject hspace hfresh =>
    have hkey : (linker.newType s.model unit.project namespaceId fact).key? =
        some (unit.project, fact.fullName linker.separator, fact.isPartial) := by
      simp only [newType, TypeNode.key?, Option.map_some]
    refine .inr ⟨⟨unit.project, fact⟩, List.mem_map_of_mem hfact, hnamed, fun hmem => ?_, ?_⟩
    · -- The type is made because none was found for the key of the declaration.
      obtain ⟨node, hnode, heq⟩ := List.mem_filterMap.1 hmem
      obtain ⟨project, hproject, hfields⟩ := Option.map_eq_some_iff.1 heq
      simp only [Declaration.key, Prod.mk.injEq] at hfields
      have hnone := Array.findIdx?_eq_none_iff.1 (Option.map_eq_none_iff.1 hfresh) node
        (Array.mem_toList_iff.1 hnode)
      simp [hproject, hfields.1, hfields.2.1, hfields.2.2] at hnone
    · rw [ReferenceModel.keys, Array.toList_push, List.filterMap_append,
        List.filterMap_cons_some hkey, List.filterMap_nil]
      rfl
  | noteFile id hid hfile => exact .inl (filterMap_toList_modify fun _ => rfl)
  | noteType => exact .inl rfl

theorem NestMove.keys (h : linker.NestMove s s') : s'.model.keys = s.model.keys := by
  cases h with
  | nest fragment => exact filterMap_toList_modify fun _ => rfl

theorem MemberMove.keys (h : linker.MemberMove source s s') : s'.model.keys = s.model.keys := by
  cases h with
  | external h =>
    cases h with
    | addExternal fullName =>
      have hkey : (linker.newExternal s.model fullName).key? = none := rfl
      rw [ReferenceModel.keys, Array.toList_push, List.filterMap_append,
        List.filterMap_cons_none hkey, List.filterMap_nil, List.append_nil]
      rfl
  | addLinks id change links hid hdeclared houtline =>
    exact filterMap_toList_modify fun node =>
      TypeNode.key?_of_header (TypeNode.header_of_outline (houtline node))
  | addRelation id relation target count => exact filterMap_toList_modify fun _ => rfl
  | _ => rfl

/-- Nesting types and linking members leaves the keys as they are. -/
theorem Phases.keys {repo : RepositoryFact} {declared nested final : DraftState}
    (h : linker.Phases repo declared nested final) : final.model.keys = declared.model.keys := by
  let holds (s : DraftState) : Prop := s.model.keys = declared.model.keys
  have hnested : holds nested :=
    DraftM.keep_of_moves h.nests rfl fun _ _ hmove heq => hmove.keys.trans heq
  exact DraftM.keep_of_moves h.links hnested fun _ _ hmove heq => hmove.keys.trans heq

theorem DeclareMove.keysDistinct (h : linker.DeclareMove unit s s') (hs : s.model.KeysDistinct) :
    s'.model.KeysDistinct := by
  change s.model.keys.Nodup at hs
  change s'.model.keys.Nodup
  rcases h.keys with heq | ⟨declaration, -, -, hnew, heq⟩
  · rwa [heq]
  · rw [heq, ← List.concat_eq_append]
    exact hs.concat hnew

theorem Declares.keysDistinct {units : List SourceUnit} (h : linker.Declares units s s')
    (hs : s.model.KeysDistinct) : s'.model.KeysDistinct := by
  induction h with
  | nil => exact hs
  | cons head _ ih =>
    exact ih (DraftM.keep_of_moves head hs fun _ _ => DeclareMove.keysDistinct)

/-- Every key that units bring is that of a named declaration of theirs. -/
theorem Declares.exists_declaration {units : List SourceUnit} (h : linker.Declares units s s')
    {key : ProjectId × String × Bool} (hkey : key ∈ s'.model.keys) : key ∈ s.model.keys ∨
      ∃ declaration ∈ units.flatMap SourceUnit.declarations, declaration.isNamed ∧
        declaration.key linker.separator = key := by
  induction h with
  | nil => exact .inl hkey
  | @cons unit units s s₁ s₂ head _ ih =>
    rw [List.flatMap_cons]
    rcases ih hkey with hkey | ⟨declaration, hmem, hrest⟩
    · let holds (s' : DraftState) : Prop := key ∈ s'.model.keys → key ∈ s.model.keys ∨
        ∃ declaration ∈ unit.declarations, declaration.isNamed ∧
          declaration.key linker.separator = key
      have hunit : holds s₁ := by
        refine DraftM.keep_of_moves head .inl fun s s' hmove hs hkey => ?_
        rcases hmove.keys with heq | ⟨declaration, hmem, hnamed, -, heq⟩
        · exact hs (heq ▸ hkey)
        · rw [heq, List.mem_append, List.mem_singleton] at hkey
          rcases hkey with hkey | rfl
          · exact hs hkey
          · exact .inr ⟨declaration, hmem, hnamed, rfl⟩
      refine (hunit hkey).imp_right fun ⟨declaration, hmem, hrest⟩ => ?_
      exact ⟨declaration, List.mem_append_left _ hmem, hrest⟩
    · exact .inr ⟨declaration, List.mem_append_right _ hmem, hrest⟩

/-- **No two types have the same key when a run is over.** -/
theorem Phases.keysDistinct {repo : RepositoryFact} {declared nested final : DraftState}
    (h : linker.Phases repo declared nested final) : final.model.KeysDistinct := by
  have hstart : (linker.skeleton repo).KeysDistinct := by
    simp [ReferenceModel.KeysDistinct, skeleton]
  have hdeclared : declared.model.keys.Nodup := h.declares.keysDistinct hstart
  rwa [← h.keys] at hdeclared

/-- **Every key is that of a named declaration when a run is over.** -/
theorem Phases.exists_declaration {repo : RepositoryFact} {declared nested final : DraftState}
    (h : linker.Phases repo declared nested final) {node : TypeNode}
    (hnode : node ∈ final.model.types) {key : ProjectId × String × Bool}
    (hkey : node.key? = some key) : ∃ declaration ∈ declarations repo, declaration.isNamed ∧
      declaration.key linker.separator = key := by
  have hmem : key ∈ final.model.keys :=
    List.mem_filterMap.2 ⟨node, Array.mem_toList_iff.2 hnode, hkey⟩
  rw [h.keys] at hmem
  refine (h.declares.exists_declaration hmem).resolve_left ?_
  simp [ReferenceModel.keys, skeleton]

end Linker

end FactGraph
