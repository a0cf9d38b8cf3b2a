import FactGraph.Proofs.Linking.Moves

/-!
# Declaring and nesting types

The first two phases of a link run get to their end, whatever the facts are, and by nothing but
their own moves. Every named declaration becomes a fragment of a type with its project, its full
name and its partiality.

## Main definitions

* `Declares units`: a run through units, each by its own moves

## Main results

* `reaches_draftUnit`, `draftAll_run`: the fragments of a unit, and of all units
* `reaches_draftNestAll`: all types are nested
-/

namespace FactGraph.Linker

open DraftM
open Relation (ReflTransGen)

variable {linker : Linker} {model model' : ReferenceModel} {unit : SourceUnit}
  {s s' : DraftState}

/-! ## Namespaces -/

theorem innermost_of_getElem? {project : ProjectId} {outer : List String} {fullName : String}
    {id : NamespaceId} {node : NamespaceNode} (hnode : model.namespace? id = some node)
    (hproject : node.project = project) (hname : node.fullName = fullName) :
    model.Innermost project (outer ++ [fullName]) (some id) := by
  unfold ReferenceModel.Innermost
  rw [List.getLast?_concat]
  exact ⟨id, node, rfl, hnode, hproject, hname⟩

/-- The namespace that is found has the full name. -/
theorem findNamespace?_spec {project : ProjectId} {fullName : String} {id : NamespaceId}
    (h : findNamespace? model project fullName = some id) :
    ∃ node, model.namespace? id = some node ∧ node.project = project ∧
      node.fullName = fullName := by
  obtain ⟨i, hi, rfl⟩ := Option.map_eq_some_iff.1 h
  obtain ⟨hlt, hnode, -⟩ := Array.findIdx?_eq_some_iff_getElem.1 hi
  simp only [Bool.and_eq_true, decide_eq_true_eq] at hnode
  exact ⟨_, Array.getElem?_eq_getElem hlt, hnode⟩

/-- The next namespace around a declaration. -/
theorem reaches_draftSpace {project : ProjectId} {fact : TypeFact} {outer names : List String}
    {fullName : String} {parent : Option NamespaceId}
    (hnames : linker.namespaceNames fact = outer ++ fullName :: names)
    (hproject : s.model.hasHandle project) (hparent : s.model.Innermost project outer parent) :
    Reaches (linker.NamespaceMove project fact) s (linker.draftSpace project parent fullName)
      fun id s' => s'.model.Innermost project (outer ++ [fullName]) (some id) := by
  unfold draftSpace
  refine reaches_model.bind ?_
  rintro _ _ - ⟨rfl, rfl⟩
  split
  next id hfound =>
    obtain ⟨node, hnode, hspace⟩ := findNamespace?_spec hfound
    exact .pure (innermost_of_getElem? hnode hspace.1 hspace.2)
  next hfresh =>
    refine (reaches_addNamespace
      (.addNamespace s outer names fullName parent hproject hnames hparent hfresh)).mono ?_
    intro id s₁ _ hnode
    exact innermost_of_getElem? hnode rfl rfl

/-- The namespaces around a declaration, from those that are there already inwards. -/
theorem reaches_draftNamespaces {project : ProjectId} {fact : TypeFact}
    {outer names : List String} {parent : Option NamespaceId}
    (hnames : linker.namespaceNames fact = outer ++ names)
    (hproject : s.model.hasHandle project)
    (hparent : s.model.Innermost project outer parent) :
    Reaches (linker.NamespaceMove project fact) s (linker.draftNamespaces project parent names)
      fun id s' => s'.model.Innermost project (linker.namespaceNames fact) id := by
  -- The names that are done go over to `outer`, and the last of them is the parent of the next.
  induction names generalizing s outer parent with
  | nil =>
    rw [hnames, List.append_nil]
    exact .pure hparent
  | cons fullName names ih =>
    refine (reaches_draftSpace hnames hproject hparent).bind fun id s₁ hpath hid => ?_
    have hextends := extends_of_moves (fun _ _ => NamespaceMove.extends) hpath
    refine ih ?_ (hextends.hasHandle hproject) hid
    rw [hnames, List.append_assoc, List.singleton_append]

theorem reaches_draftNamespace {project : ProjectId} (fact : TypeFact)
    (hproject : s.model.hasHandle project) :
    Reaches (linker.NamespaceMove project fact) s (linker.draftNamespace project fact)
      fun id s' => s'.model.Innermost project (linker.namespaceNames fact) id :=
  reaches_draftNamespaces (List.nil_append _).symm hproject rfl

/-- Making namespaces leaves the types alone. -/
theorem namespaceMoves_types {project : ProjectId} {fact : TypeFact}
    (h : ReflTransGen (linker.NamespaceMove project fact) s s') :
    s'.model.types = s.model.types := by
  induction h with
  | refl => rfl
  | tail _ hlast ih =>
    cases hlast
    exact ih

/-! ## Types -/

/-- The type that is found has the project, the full name and the partiality. -/
theorem findFragments?_spec {project : ProjectId} {fullName : String} {isPartial : Bool}
    {id : TypeId} (h : findFragments? model project fullName isPartial = some id) :
    ∃ node, model.type? id = some node ∧ node.project = some project ∧
      node.fullName = fullName ∧ node.isPartial = isPartial := by
  obtain ⟨i, hi, rfl⟩ := Option.map_eq_some_iff.1 h
  obtain ⟨hlt, hnode, -⟩ := Array.findIdx?_eq_some_iff_getElem.1 hi
  simp only [Bool.and_eq_true, decide_eq_true_eq] at hnode
  exact ⟨_, Array.getElem?_eq_getElem hlt, hnode.1.1, hnode.1.2, hnode.2⟩

/-- A declaration is a fragment of the type: they agree in the project, the full name and in being
partial or not. -/
def FragmentOf (linker : Linker) (model : ReferenceModel) (project : ProjectId) (fact : TypeFact)
    (id : TypeId) : Prop :=
  ∃ node, model.type? id = some node ∧ node.isExternal = false ∧ node.project = some project ∧
    node.fullName = fact.fullName linker.separator ∧ node.isPartial = fact.isPartial

theorem FragmentOf.keep {project : ProjectId} {fact : TypeFact} {id : TypeId}
    (h : linker.FragmentOf model project fact id) (hextends : model.Extends model') :
    linker.FragmentOf model' project fact id := by
  obtain ⟨node, hnode, hfacts⟩ := h
  obtain ⟨node', hnode', hheader⟩ := hextends.type? id node hnode
  refine ⟨node', hnode', ?_⟩
  rw [← node'.header_isExternal, ← node'.header_project, ← node'.header_fullName,
    ← node'.header_isPartial, hheader]
  exact hfacts

theorem reaches_draftType (hs : s.Sound) {fact : TypeFact} (hfact : fact ∈ unit.fact.types)
    (hnamed : fact.isNamed) (hproject : s.model.hasHandle unit.project) :
    Reaches (linker.DeclareMove unit) s (linker.draftType unit.project fact)
      fun id s' => linker.FragmentOf s'.model unit.project fact id := by
  unfold draftType
  refine reaches_model.bind ?_
  rintro _ _ - ⟨rfl, rfl⟩
  split
  next id hfound =>
    obtain ⟨node, hnode, hplace, hname, hpartial⟩ := findFragments?_spec hfound
    have hexternal := hs.external node (ReferenceModel.mem_of_type hnode)
    rw [hplace, Option.isNone_some] at hexternal
    exact .pure ⟨node, hnode, hexternal, hplace, hname, hpartial⟩
  next hfresh =>
    have hspaces : Reaches (linker.DeclareMove unit) s (linker.draftNamespace unit.project fact)
        fun id s' => s'.model.Innermost unit.project (linker.namespaceNames fact) id ∧
          s'.model.types = s.model.types :=
      ((reaches_draftNamespace fact hproject).mono fun _ _ hpath hid =>
        ⟨hid, namespaceMoves_types hpath⟩).widen fun _ _ => .space fact hfact hnamed
    refine hspaces.bind fun space s₁ hpath hspace => ?_
    have hproject₁ := (declareMoves_extends hpath).hasHandle hproject
    have hfresh₁ : findFragments? s₁.model unit.project (fact.fullName linker.separator)
        fact.isPartial = none := by
      rw [findFragments?, hspace.2]
      exact hfresh
    refine (reaches_addType
      (.addType s₁ fact space hfact hnamed hproject₁ hspace.1 hfresh₁)).mono ?_
    intro id s₂ _ hnode
    refine ⟨_, hnode, ?_⟩
    simp only [and_self]

/-! ## Fragments -/

/-- What comes of a declaration of a unit: a fragment, if the declaration is named. -/
def DeclaredAs (linker : Linker) (model : ReferenceModel) (unit : SourceUnit) (fact : TypeFact)
    (fragment? : Option Fragment) : Prop :=
  fact.isNamed = false ∧ fragment? = none ∨
    fact.isNamed = true ∧ ∃ type, linker.FragmentOf model unit.project fact type ∧
      fragment? = some { type, project := unit.project, context := unit.context, fact }

theorem DeclaredAs.keep {fact : TypeFact} {fragment? : Option Fragment}
    (h : linker.DeclaredAs model unit fact fragment?) (hextends : model.Extends model') :
    linker.DeclaredAs model' unit fact fragment? := by
  refine h.imp_right ?_
  rintro ⟨hnamed, type, htype, heq⟩
  exact ⟨hnamed, type, htype.keep hextends, heq⟩

theorem reaches_draftDeclaration (hs : s.Sound) {fact : TypeFact} (hfact : fact ∈ unit.fact.types)
    (hproject : s.model.hasHandle unit.project) (hfile : s.model.hasHandle unit.file) :
    Reaches (linker.DeclareMove unit) s (linker.draftDeclaration unit fact)
      fun fragment? s' => linker.DeclaredAs s'.model unit fact fragment? := by
  unfold draftDeclaration
  split
  next hnamed =>
    refine (reaches_draftType hs hfact hnamed hproject).bind fun type s₁ hpath₁ htype => ?_
    have hfile₁ := (declareMoves_extends hpath₁).hasHandle hfile
    have hid : s₁.model.hasHandle type := by
      obtain ⟨node, hnode, -⟩ := htype
      exact ReferenceModel.hasHandle_of_type hnode
    refine (reaches_modifyType hid (.noteFile s₁ type hid hfile₁)).bind fun _ s₂ hpath₂ _ => ?_
    have hextends₂ := declareMoves_extends hpath₂
    refine (reaches_modifyFile (hextends₂.hasHandle hfile₁)
      (.noteType s₂ type (hextends₂.hasHandle hid) (hextends₂.hasHandle hfile₁))).bind
        fun _ s₃ hpath₃ _ => .pure (.inr ⟨hnamed, type, ?_, rfl⟩)
    exact htype.keep (hextends₂.trans (declareMoves_extends hpath₃))
  next hnameless =>
    refine (reaches_report (.report s _)).bind fun _ _ _ _ => .pure (.inl ⟨?_, rfl⟩)
    exact Bool.eq_false_iff.2 hnameless

/-- The fragment is one of a named declaration of the units. -/
structure FragmentFrom (units : List SourceUnit) (fragment : Fragment) : Prop where
  origin : ∃ unit ∈ units, fragment.project = unit.project ∧ fragment.fact ∈ unit.fact.types
  named : fragment.fact.isNamed

theorem FragmentFrom.mono {units others : List SourceUnit} {fragment : Fragment}
    (h : FragmentFrom units fragment) (hunits : units ⊆ others) :
    FragmentFrom others fragment := by
  obtain ⟨unit, hunit, hfact⟩ := h.origin
  exact ⟨⟨unit, hunits hunit, hfact⟩, h.named⟩

/-- The fragments of a unit: those of its named declarations. -/
structure FragmentsOf (linker : Linker) (model : ReferenceModel) (unit : SourceUnit)
    (fragments : List Fragment) : Prop where
  placed : ∀ fragment ∈ fragments, linker.Placed model fragment
  origin : ∀ fragment ∈ fragments, FragmentFrom [unit] fragment
  complete : ∀ fact ∈ unit.fact.types, fact.isNamed → ∃ type,
    { type, project := unit.project, context := unit.context, fact } ∈ fragments

theorem placed_keep {fragment : Fragment} (h : linker.Placed model fragment)
    (hextends : model.Extends model') : linker.Placed model' fragment :=
  ⟨hextends.hasHandle h.project, FragmentOf.keep h.type hextends⟩

/-- **Every named declaration of a unit becomes a fragment** of a type with its project, its full
name and its partiality. -/
theorem reaches_draftUnit (hs : s.Sound) (hproject : s.model.hasHandle unit.project)
    (hfile : s.model.hasHandle unit.file) :
    Reaches (linker.DeclareMove unit) s (linker.draftUnit unit)
      fun fragments s' => linker.FragmentsOf s'.model unit fragments := by
  have hall : Reaches (linker.DeclareMove unit) s
      (unit.fact.types.mapM (linker.draftDeclaration unit))
      fun results s' => List.Forall₂
        (fun fact fragment? => linker.DeclaredAs s'.model unit fact fragment?)
        unit.fact.types results := by
    refine .mapM (fun fact fragment? s₁ s₂ h hpath => h.keep (declareMoves_extends hpath)) ?_
    intro fact hfact s₁ hpath
    have hextends := declareMoves_extends hpath
    exact reaches_draftDeclaration (declareMoves_sound hpath hs) hfact (hextends.hasHandle hproject)
      (hextends.hasHandle hfile)
  refine hall.bind fun results s₁ hpath hresults => .pure ?_
  have hproject₁ := (declareMoves_extends hpath).hasHandle hproject
  have hfragments : ∀ fragment ∈ results.filterMap id,
      linker.Placed s₁.model fragment ∧ FragmentFrom [unit] fragment := by
    intro fragment hfragment
    obtain ⟨_, hmem, rfl⟩ := List.mem_filterMap.1 hfragment
    obtain ⟨fact, hfact, ⟨-, hnone⟩ | ⟨hnamed, type, htype, hsome⟩⟩ :=
      exists_of_forall₂_right hresults hmem
    · cases hnone
    · cases hsome
      exact ⟨⟨hproject₁, htype⟩, ⟨⟨unit, by simp, rfl, hfact⟩, hnamed⟩⟩
  refine ⟨fun fragment h => (hfragments fragment h).1, fun fragment h => (hfragments fragment h).2,
    ?_⟩
  · intro fact hfact hnamed
    obtain ⟨_, hmem, ⟨hnameless, -⟩ | ⟨-, type, -, rfl⟩⟩ := exists_of_forall₂_left hresults hfact
    · simp [hnamed] at hnameless
    · exact ⟨type, List.mem_filterMap.2 ⟨_, hmem, rfl⟩⟩

/-! ## All units -/

/-- **A run through units**, each declared by its own moves, in their order. -/
inductive Declares (linker : Linker) : List SourceUnit → DraftState → DraftState → Prop
  | nil (s : DraftState) : Declares linker [] s s
  | cons {unit : SourceUnit} {units : List SourceUnit} {s s₁ s₂ : DraftState}
      (head : ReflTransGen (linker.DeclareMove unit) s s₁) (tail : Declares linker units s₁ s₂) :
      Declares linker (unit :: units) s s₂

theorem Declares.extends {units : List SourceUnit} (h : linker.Declares units s s') :
    s.model.Extends s'.model := by
  induction h with
  | nil => exact .refl _
  | cons head _ ih => exact (declareMoves_extends head).trans ih

theorem Declares.sound {units : List SourceUnit} (h : linker.Declares units s s')
    (hs : s.Sound) : s'.Sound := by
  induction h with
  | nil => exact hs
  | cons head _ ih => exact ih (declareMoves_sound head hs)

/-- No call is set aside while types are declared. -/
theorem Declares.pending {units : List SourceUnit} (h : linker.Declares units s s') :
    s'.pending = s.pending := by
  have hmove (unit : SourceUnit) (s₁ s₂ : DraftState) (h : linker.DeclareMove unit s₁ s₂) :
      s₂.pending = s₁.pending := by
    cases h with
    | space fact hfact hnamed h =>
      cases h
      rfl
    | _ => rfl
  induction h with
  | nil => rfl
  | @cons _ _ start _ _ head _ ih =>
    have hhead := DraftM.keep_of_moves head (rfl : start.pending = start.pending)
      fun s₁ s₂ h heq => (hmove _ s₁ s₂ h).trans heq
    exact ih.trans hhead

theorem draftAll_cons (linker : Linker) (unit : SourceUnit) (units : List SourceUnit) :
    linker.draftAll (unit :: units) = do
      let first ← linker.draftUnit unit
      let others ← linker.draftAll units
      return first ++ others := by
  simp [draftAll]

/-- **All units are declared**: the run gets to its end, and has a fragment for every named
declaration. -/
theorem draftAll_run (linker : Linker) {units : List SourceUnit} (hs : s.Sound)
    (hunits : ∀ unit ∈ units, s.model.hasHandle unit.project ∧ s.model.hasHandle unit.file) :
    ∃ fragments s', (linker.draftAll units).run s = .ok (fragments, s') ∧
      linker.Declares units s s' ∧
      (∀ fragment ∈ fragments, linker.Placed s'.model fragment ∧ FragmentFrom units fragment) ∧
      ∀ unit ∈ units, ∀ fact ∈ unit.fact.types, fact.isNamed → ∃ type,
        { type, project := unit.project, context := unit.context, fact } ∈ fragments := by
  -- What was declared before is kept by the units that follow, so each unit is looked at alone.
  induction units generalizing s with
  | nil => exact ⟨[], s, rfl, .nil s, by simp, by simp⟩
  | cons unit units ih =>
    have ⟨hproject, hfile⟩ := hunits unit (by simp)
    obtain ⟨first, s₁, hrun₁, hpath₁, hfirst⟩ : Reaches (linker.DeclareMove unit) s
        (linker.draftUnit unit) fun fragments s' => linker.FragmentsOf s'.model unit fragments :=
      reaches_draftUnit hs hproject hfile
    have hextends₁ := declareMoves_extends hpath₁
    obtain ⟨others, s₂, hrun₂, hpath₂, hplaced₂, hcomplete₂⟩ :=
      ih (declareMoves_sound hpath₁ hs) fun other hother =>
        have ⟨hproject, hfile⟩ := hunits other (by simp [hother])
        ⟨hextends₁.hasHandle hproject, hextends₁.hasHandle hfile⟩
    refine ⟨first ++ others, s₂, ?_, .cons hpath₁ hpath₂, ?_, ?_⟩
    · rw [draftAll_cons, StateT.run_bind, hrun₁]
      change (linker.draftAll units >>= fun others => pure (first ++ others)).run s₁ = _
      rw [StateT.run_bind, hrun₂]
      rfl
    · intro fragment hfragment
      rcases List.mem_append.1 hfragment with hfragment | hfragment
      · exact ⟨placed_keep (hfirst.placed fragment hfragment) hpath₂.extends,
          (hfirst.origin fragment hfragment).mono (by simp)⟩
      · obtain ⟨hplaced, hfrom⟩ := hplaced₂ fragment hfragment
        exact ⟨hplaced, hfrom.mono (by simp)⟩
    · intro other hother fact hfact hnamed
      rcases List.mem_cons.1 hother with rfl | hother
      · obtain ⟨type, htype⟩ := hfirst.complete fact hfact hnamed
        exact ⟨type, List.mem_append.2 (.inl htype)⟩
      · obtain ⟨type, htype⟩ := hcomplete₂ other hother fact hfact hnamed
        exact ⟨type, List.mem_append.2 (.inr htype)⟩

/-! ## Nested types -/

theorem reaches_draftNest {fragment : Fragment} (hplaced : linker.Placed s.model fragment) :
    Reaches linker.NestMove s (linker.draftNest fragment) fun _ _ => True := by
  unfold draftNest
  refine reaches_model.bind ?_
  rintro _ _ - ⟨rfl, rfl⟩
  have hid : s.model.hasHandle fragment.type := by
    obtain ⟨node, hnode, -⟩ := hplaced.type
    exact ReferenceModel.hasHandle_of_type hnode
  exact reaches_modifyType hid (.nest s fragment hplaced)

/-- No call is set aside while types are nested. -/
theorem nestMoves_pending (h : ReflTransGen linker.NestMove s s') : s'.pending = s.pending := by
  induction h with
  | refl => rfl
  | tail _ hlast ih =>
    cases hlast
    exact ih

theorem reaches_draftNestAll {fragments : List Fragment}
    (hplaced : ∀ fragment ∈ fragments, linker.Placed s.model fragment) :
    Reaches linker.NestMove s (linker.draftNestAll fragments) fun _ _ => True :=
  .forM fun fragment hfragment _ hpath =>
    reaches_draftNest (placed_keep (hplaced fragment hfragment) (nestMoves_extends hpath))

end FactGraph.Linker
