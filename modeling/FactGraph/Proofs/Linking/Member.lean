import FactGraph.Proofs.Linking.Lookup
import FactGraph.Proofs.Name.Canonical

/-!
# Linking members

The third phase of a link run gets to its end, whatever the facts are, and by nothing but its own
moves. To link a type name, all that can happen to the model is that external types are made
(`ExternalMove`); what is linked there stays linked to the same type, since a look-up sees no
difference afterwards.

## Main definitions

* `Ready`: the state is in order, and the scope belongs to a declared type of its project

## Main results

* `reaches_draftTree`: every part of a type name refers to what its link says
* `reaches_draftMethod`: a method with its local functions
* `reaches_draftMembers`: all that a fragment adds to its type
-/

namespace FactGraph.Linker

open DraftM
open Relation (ReflTransGen)

-- What is linked is a tree; how it was read does not matter.
attribute [local irreducible] TypeName.parse

variable {linker : Linker} {source : Occurrences} {model model' : ReferenceModel}
  {s s' : DraftState}

/-! ## Type names -/

theorem externalMoves_memberMoves (h : ReflTransGen (linker.ExternalMove source) s s') :
    ReflTransGen (linker.MemberMove source) s s' :=
  ReflTransGen.mono (fun _ _ => .external) _ _ h

/-- The type that a full name refers to, be it declared or external. -/
theorem reaches_draftTypeFor (hs : s.Sound) {project : ProjectId}
    (hproject : s.model.hasHandle project)
    {fullName : String} (hintroduced : source.Introduces fullName) :
    Reaches (linker.ExternalMove source) s (linker.draftTypeFor fullName project)
      fun id s' => linker.Refers s'.model project fullName id := by
  unfold draftTypeFor
  refine (reaches_require hproject).bind ?_
  rintro _ _ - rfl
  refine reaches_model.bind ?_
  rintro _ _ - ⟨rfl, rfl⟩
  split
  next id hdeclared =>
    obtain ⟨node, hnode, hexternal, hname⟩ := lookupDeclared?_spec hs.numbered hdeclared
    exact .pure ⟨node, hnode, hname, .inl ⟨hexternal, hdeclared⟩⟩
  next hunseen =>
    unfold draftExternal
    refine reaches_model.bind ?_
    rintro _ _ - ⟨rfl, rfl⟩
    split
    next id hfound =>
      obtain ⟨node, hnode, hexternal, hname⟩ := findExternal?_spec hfound
      exact .pure ⟨node, hnode, hname, .inr ⟨hexternal, hunseen⟩⟩
    next hfresh =>
      refine (reaches_addType (.addExternal s fullName hfresh hintroduced)).mono
        fun id s₁ hpath hnode => ?_
      refine ⟨_, hnode, rfl, .inr ⟨rfl, ?_⟩⟩
      rw [lookupDeclared?_congr (memberMoves_sameView (externalMoves_memberMoves hpath))]
      exact hunseen

theorem linkedAll_append {project : ProjectId} {links others : List TypeLink}
    (h : linker.LinkedAll model project links) (h' : linker.LinkedAll model project others) :
    linker.LinkedAll model project (links ++ others) := by
  intro part hpart
  rw [TypeLink.partsAll_append, List.mem_append] at hpart
  exact hpart.elim (h part) (h' part)

theorem LinkedAll.after {project : ProjectId} {links : List TypeLink}
    (h : linker.LinkedAll s.model project links)
    (hpath : ReflTransGen (linker.MemberMove source) s s') :
    linker.LinkedAll s'.model project links :=
  h.keep (memberMoves_sameView hpath) (memberMoves_extends hpath)

/-- A link is to what it names, if its own target and its arguments are. -/
theorem linkedAll_singleton {project : ProjectId} {tree : TypeName} (hparsed : tree.Parsed)
    {target : Option TypeId}
    (htarget : ∀ id, target = some id → linker.Refers model project tree.base id)
    {arguments : List TypeLink} (harguments : linker.LinkedAll model project arguments) :
    linker.LinkedAll model project [⟨tree.render, target, arguments⟩] := by
  intro part hpart
  rw [TypeLink.partsAll, TypeLink.parts, TypeLink.partsAll, List.append_nil] at hpart
  rcases List.mem_cons.1 hpart with rfl | hpart
  · exact ⟨tree, hparsed, rfl, htarget⟩
  · exact harguments part hpart

/-- A link respects the scope, if its own target and its arguments do. -/
theorem scoped_mk {parameters : List String} {tree : TypeName} (hparsed : tree.Parsed)
    {target : Option TypeId}
    (htarget : target = none ↔ tree.base = "" ∨ tree.IsParameter parameters)
    {arguments : List TypeLink} (harguments : ∀ link ∈ arguments, link.Scoped parameters) :
    TypeLink.Scoped parameters ⟨tree.render, target, arguments⟩ := by
  intro part hpart
  rw [TypeLink.parts] at hpart
  rcases List.mem_cons.1 hpart with rfl | hpart
  · rw [TypeName.parse_render_parsed hparsed]
    exact htarget
  · obtain ⟨link, hlink, hpart⟩ := TypeLink.mem_partsAll.1 hpart
    exact harguments link hlink part hpart

mutual

/-- **Every part of a type name refers to what its link says**, seen from the project, and a
generic parameter refers to nothing. -/
theorem reaches_draftTree {s : DraftState} (hs : s.Sound) {project : ProjectId}
    (hproject : s.model.hasHandle project) (typeParameters : List String) :
    ∀ tree : TypeName, tree.Parsed →
      (∀ part ∈ tree.parts, ¬part.IsParameter typeParameters → source.Introduces part.base) →
      Reaches (linker.ExternalMove source) s (linker.draftTree project typeParameters tree)
        fun link s' => linker.LinkedAll s'.model project [link] ∧
          (∀ id, link.target = some id → linker.Refers s'.model project tree.base id) ∧
          link.name = tree.render ∧ link.Scoped typeParameters
  | ⟨base, args, suffix⟩, hparsed, hknown => by
    unfold draftTree
    rw [TypeName.parts, List.forall_mem_cons] at hknown
    obtain ⟨hbase, hargs⟩ := hknown
    refine (reaches_draftTrees hs hproject typeParameters args
      (TypeName.parsed_args hparsed) hargs).bind fun links s₁ hpath ⟨hlinks, hscoped⟩ => ?_
    have hmember := externalMoves_memberMoves hpath
    have htest : (base = "" || (args.isEmpty && typeParameters.contains base)) = true ↔
        base = "" ∨ TypeName.IsParameter typeParameters ⟨base, args, suffix⟩ := by
      simp [TypeName.IsParameter]
    dsimp only
    split
    next hnameless =>
      have hnone (id : TypeId) (hid : none = some id) :
          linker.Refers s₁.model project base id := by cases hid
      exact .pure ⟨linkedAll_singleton hparsed hnone hlinks, hnone, rfl,
        scoped_mk hparsed ⟨fun _ => htest.1 hnameless, fun _ => rfl⟩ hscoped⟩
    next hcondition =>
      have hfree := mt htest.2 hcondition
      have hproject₁ := (memberMoves_extends hmember).hasHandle hproject
      have htarget : Reaches (linker.ExternalMove source) s₁
          (some <$> linker.draftTypeFor base project)
          fun target s' => ∃ id, target = some id ∧ linker.Refers s'.model project base id :=
        (reaches_draftTypeFor (memberMoves_sound hmember hs) hproject₁
          (hbase fun h => hfree (.inr h))).map fun id _ _ hrefers => ⟨id, rfl, hrefers⟩
      refine htarget.bind ?_
      rintro _ s₂ hpath₂ ⟨target, rfl, hrefers⟩
      have hall (id : TypeId) (hid : some target = some id) :
          linker.Refers s₂.model project base id := Option.some.inj hid ▸ hrefers
      refine .pure ⟨linkedAll_singleton hparsed hall (hlinks.after (externalMoves_memberMoves
        hpath₂)), hall, rfl, scoped_mk hparsed ⟨fun h => ?_, fun h => absurd h hfree⟩ hscoped⟩
      cases h

theorem reaches_draftTrees {s : DraftState} (hs : s.Sound) {project : ProjectId}
    (hproject : s.model.hasHandle project) (typeParameters : List String) :
    ∀ trees : List TypeName, (∀ tree ∈ trees, tree.Parsed) →
      (∀ part ∈ TypeName.partsAll trees, ¬part.IsParameter typeParameters →
        source.Introduces part.base) →
      Reaches (linker.ExternalMove source) s (linker.draftTrees project typeParameters trees)
        fun links s' => linker.LinkedAll s'.model project links ∧
          ∀ link ∈ links, link.Scoped typeParameters
  | [], _, _ => by
    unfold draftTrees
    exact .pure (by simp [LinkedAll, TypeLink.partsAll])
  | tree :: trees, hparsed, hknown => by
    unfold draftTrees
    rw [TypeName.partsAll, List.forall_mem_append] at hknown
    obtain ⟨hfirst, hothers⟩ := hknown
    refine (reaches_draftTree hs hproject typeParameters tree (hparsed tree (by simp)) hfirst).bind
      fun link s₁ hpath ⟨hlink, _, _, hscoped⟩ => ?_
    have hmember := externalMoves_memberMoves hpath
    refine (reaches_draftTrees (memberMoves_sound hmember hs)
      ((memberMoves_extends hmember).hasHandle hproject) typeParameters trees
        (fun other hother => hparsed other (by simp [hother])) hothers).bind
          fun links s₂ hpath₂ ⟨hlinks, hothers⟩ => .pure ⟨?_, ?_⟩
    · exact linkedAll_append (hlink.after (externalMoves_memberMoves hpath₂)) hlinks
    · exact List.forall_mem_cons.2 ⟨hscoped, hothers⟩

end

/-! ## Scopes -/

/-- **Members can be linked in the scope**: the state is in order, and the type is a declared one
of the project. The generic parameters in scope are those of types, `outer`, and those of the
methods around. -/
structure Ready (s : DraftState) (scope : MemberScope) (outer parameters : List String) :
    Prop where
  sound : s.Sound
  project : s.model.hasHandle scope.project
  type : ∃ node, s.model.type? scope.type = some node ∧ node.project = some scope.project
  inScope : scope.typeParameters = outer ++ parameters

namespace Ready

variable {scope : MemberScope} {outer parameters : List String}

theorem after (h : Ready s scope outer parameters)
    (hpath : ReflTransGen (linker.MemberMove source) s s') : Ready s' scope outer parameters := by
  have hextends := memberMoves_extends hpath
  refine ⟨memberMoves_sound hpath h.sound, hextends.hasHandle h.project, ?_, h.inScope⟩
  obtain ⟨node, hnode, hproject⟩ := h.type
  obtain ⟨node', hnode', hheader⟩ := hextends.type? _ node hnode
  refine ⟨node', hnode', ?_⟩
  rw [← node'.header_project, hheader]
  exact hproject

theorem hasType (h : Ready s scope outer parameters) : s.model.hasHandle scope.type := by
  obtain ⟨node, hnode, -⟩ := h.type
  exact ReferenceModel.hasHandle_of_type hnode

/-- What is looked up in the scope is looked up from the project of the type. -/
theorem fromProject (h : Ready s scope outer parameters) {holds : ProjectId → Prop}
    (hholds : holds scope.project) : FromProject s.model scope.type holds := by
  obtain ⟨node, hnode, hproject⟩ := h.type
  refine ⟨node, scope.project, hnode, fun own hown => ?_, hholds⟩
  rw [hown] at hproject
  exact Option.some.inj hproject

theorem declared (h : Ready s scope outer parameters) : s.model.Declared scope.type := by
  obtain ⟨node, hnode, hproject⟩ := h.type
  exact ⟨node, scope.project, hnode, hproject⟩

theorem linksFrom (h : Ready s scope outer parameters) {links : List TypeLink}
    (hlinks : linker.LinkedAll s.model scope.project links) :
    linker.LinksFrom s.model scope.type links :=
  h.fromProject hlinks

/-- The scope inside of a method has the generic parameters of the method too. -/
theorem enter (h : Ready s scope outer parameters) (own : List String) :
    Ready s { scope with typeParameters := scope.typeParameters ++ own } outer
      (parameters ++ own) := by
  refine ⟨h.sound, h.project, h.type, ?_⟩
  simp [h.inScope]

/-- One step after the other in a scope. -/
theorem bind {α β : Type} {step : DraftM α} {next : α → DraftM β}
    {post : α → DraftState → Prop} {goal : β → DraftState → Prop}
    (h : Ready s scope outer parameters)
    (hstep : Reaches (linker.MemberMove source) s step post)
    (hnext : ∀ a s', Ready s' scope outer parameters → post a s' →
      Reaches (linker.MemberMove source) s' (next a) goal) :
    Reaches (linker.MemberMove source) s (step >>= next) goal :=
  hstep.bind fun a s' hpath ha => hnext a s' (h.after hpath) ha

theorem forM {α : Type} {f : α → DraftM Unit} {xs : List α} (h : Ready s scope outer parameters)
    (hstep : ∀ s', Ready s' scope outer parameters → ∀ x ∈ xs,
      Reaches (linker.MemberMove source) s' (f x) fun _ _ => True) :
    Reaches (linker.MemberMove source) s (xs.forM f) fun _ _ => True :=
  .forM fun x hx s' hpath => hstep s' (h.after hpath) x hx

end Ready

section Links

variable {scope : MemberScope} {outer parameters : List String}

/-- The links are to what they name, seen from the project of the scope, and are written in its
type. -/
structure Formed (linker : Linker) (source : Occurrences) (model : ReferenceModel)
    (scope : MemberScope) (parameters : List String) (links : List TypeLink) : Prop where
  linked : linker.LinkedAll model scope.project links
  written : source.Written scope.type parameters links

theorem Formed.after {links : List TypeLink}
    (h : linker.Formed source s.model scope parameters links)
    (hpath : ReflTransGen (linker.MemberMove source) s s') :
    linker.Formed source s'.model scope parameters links :=
  ⟨h.linked.after hpath, h.written⟩

theorem Formed.append {links others : List TypeLink}
    (h : linker.Formed source model scope parameters links)
    (h' : linker.Formed source model scope parameters others) :
    linker.Formed source model scope parameters (links ++ others) :=
  ⟨linkedAll_append h.linked h'.linked, h.written.append h'.written⟩

theorem formed_nil : linker.Formed source model scope parameters [] :=
  ⟨by simp [LinkedAll, TypeLink.partsAll], Occurrences.written_nil⟩

theorem reaches_draftTypeRef (h : Ready s scope outer parameters) {ref : TypeRef}
    (hname : source.names scope.type outer parameters ref.fullName) :
    Reaches (linker.ExternalMove source) s
      (linker.draftTypeRef scope.project scope.typeParameters ref)
      fun link s' => linker.Formed source s'.model scope parameters [link] := by
  refine (reaches_draftTree h.sound h.project scope.typeParameters _ (TypeName.parsed_parse _)
    ?_).mono ?_
  · intro part hpart hfree
    rw [h.inScope] at hfree
    exact Occurrences.introduces_of_names hname hpart hfree
  · rintro link s₁ - ⟨hlink, -, hrender, hscoped⟩
    rw [h.inScope] at hscoped
    refine ⟨hlink, ?_⟩
    simpa [Occurrences.Written] using ⟨outer, ref.fullName, hname, hrender, hscoped⟩

theorem reaches_draftAttributes (h : Ready s scope outer parameters)
    {attributes : List AttributeFact}
    (hnames : source.NamesAll scope.type outer parameters (attributes.map AttributeFact.typeRef)) :
    Reaches (linker.ExternalMove source) s
      (linker.draftAttributes scope.project scope.typeParameters attributes) fun links s' =>
        linker.Formed source s'.model scope parameters (links.map AttributeLink.typeLink) := by
  have hlinks : Reaches (linker.ExternalMove source) s
      (linker.draftAttributes scope.project scope.typeParameters attributes) fun links s' =>
        List.Forall₂
          (fun _ link => linker.Formed source s'.model scope parameters [link.typeLink])
          (attributes.filter fun fact => isNamedRef fact.typeRef) links := by
    refine .mapM (fun _ _ _ _ hlink hpath => hlink.after (externalMoves_memberMoves hpath)) ?_
    intro fact hfact s₁ hpath
    have h₁ := h.after (externalMoves_memberMoves hpath)
    have hname := hnames fact.typeRef (List.mem_map_of_mem (List.mem_filter.1 hfact).1)
    exact (reaches_draftTypeRef h₁ hname).bind fun _ _ _ hlink => .pure hlink
  refine hlinks.mono fun links s₁ _ hlinks => ?_
  generalize attributes.filter (fun fact => isNamedRef fact.typeRef) = named at hlinks
  induction hlinks with
  | nil => exact formed_nil
  | cons hfirst _ ih => exact hfirst.append ih

theorem reaches_draftReturnType (h : Ready s scope outer parameters) {returnType : Option TypeRef}
    (hnames : source.NamesAll scope.type outer parameters returnType.toList) :
    Reaches (linker.ExternalMove source) s (linker.draftReturnType scope returnType) fun link s' =>
      linker.Formed source s'.model scope parameters link.toList := by
  unfold draftReturnType
  split
  next ref heq =>
    have hmem := (Option.filter_eq_some_iff.1 heq).1
    exact (reaches_draftTypeRef h (hnames ref (by simp [hmem]))).map fun link s₁ _ hlink => hlink
  · exact .pure formed_nil

end Links

/-! ## Methods -/

/-- The method is one of the type. -/
def MethodIn (model : ReferenceModel) (method : MethodId) (type : TypeId) : Prop :=
  ∃ node, model.method? method = some node ∧ node.containingType = type

theorem MethodIn.keep {method : MethodId} {type : TypeId} (h : MethodIn model method type)
    (hextends : model.Extends model') : MethodIn model' method type := by
  obtain ⟨node, hnode, htype⟩ := h
  obtain ⟨node', hnode', houtline⟩ := hextends.method? method node hnode
  refine ⟨node', hnode', ?_⟩
  calc node'.containingType = node'.outline.containingType := rfl
    _ = node.outline.containingType := by rw [houtline]
    _ = type := htype

theorem MethodIn.hasHandle {method : MethodId} {type : TypeId} (h : MethodIn model method type) :
    model.hasHandle method := by
  obtain ⟨node, hnode, -⟩ := h
  exact ReferenceModel.hasHandle_of_method hnode

theorem methodParameters_keep {place : Option MethodId} {parameters : List String}
    (h : model.MethodParameters place parameters) (hextends : model.Extends model') :
    model'.MethodParameters place parameters := by
  induction h with
  | outside => exact .outside
  | @inside id node parameters hnode _ ih =>
    obtain ⟨node', hnode', houtline⟩ := hextends.method? id node hnode
    have hmethod := congrArg MethodNode.containingMethod houtline
    have hgeneric : node'.genericParameters = node.genericParameters :=
      (congrArg MethodNode.genericParameters houtline :)
    rw [← hgeneric]
    refine .inside hnode' ?_
    change model'.MethodParameters node'.outline.containingMethod parameters
    rw [hmethod]
    exact ih

/-- The place is inside of a method of the type, where these generic parameters of methods are in
scope. -/
structure Inside (model : ReferenceModel) (method : MethodId) (type : TypeId)
    (parameters : List String) : Prop where
  methodIn : MethodIn model method type
  inScope : model.MethodParameters (some method) parameters

theorem Inside.keep {method : MethodId} {type : TypeId} {parameters : List String}
    (h : Inside model method type parameters) (hextends : model.Extends model') :
    Inside model' method type parameters :=
  ⟨h.methodIn.keep hextends, methodParameters_keep h.inScope hextends⟩

theorem MethodPlaced.localFunction {type : TypeId} {method : MethodId}
    (h : MethodIn model method type) :
    MethodPlaced model type { kind := .localFunction, containingMethod := some method } := by
  obtain ⟨node, hnode, htype⟩ := h
  exact ⟨rfl, method, node, rfl, hnode, htype⟩

theorem MethodPlaced.accessor {type : TypeId} {property : PropertyId} {node : PropertyNode}
    (hnode : model.property? property = some node) (htype : node.containingType = type) :
    MethodPlaced model type { kind := .accessor, containingProperty := some property } :=
  ⟨rfl, property, node, rfl, hnode, htype⟩

theorem MethodPlaced.direct {type : TypeId} {kind : MethodKind}
    (h : kind = .method ∨ kind = .constructor) : MethodPlaced model type { kind } := by
  rcases h with rfl | rfl <;> exact ⟨rfl, rfl⟩

/-- A place for methods stays one, for whatever else is added. The place of a destructor does not:
it is taken by the first one. -/
theorem MethodPlaced.keep {type : TypeId} {owner : MethodOwner} (h : MethodPlaced model type owner)
    (hkind : owner.kind ≠ .destructor) (hextends : model.Extends model') :
    MethodPlaced model' type owner := by
  unfold MethodPlaced at h ⊢
  split
  next heq =>
    rw [heq] at h
    obtain ⟨hnone, property, node, hproperty, hnode, htype⟩ := h
    exact ⟨hnone, property, node, hproperty, hextends.property? property node hnode, htype⟩
  next heq =>
    rw [heq] at h
    obtain ⟨hnone, method, node, hmethod, hin⟩ := h
    obtain ⟨node', hin'⟩ := MethodIn.keep ⟨node, hin⟩ hextends
    exact ⟨hnone, method, node', hmethod, hin'⟩
  next heq => exact absurd heq hkind
  next haccessor hlocal hdestructor =>
    split at h
    next heq => exact absurd heq haccessor
    next heq => exact absurd heq hlocal
    next heq => exact absurd heq hdestructor
    next => exact h

/-- Linking type names takes no place. -/
theorem MethodPlaced.afterLinks {type : TypeId} {owner : MethodOwner}
    (h : MethodPlaced s.model type owner)
    (hpath : ReflTransGen (linker.ExternalMove source) s s') :
    MethodPlaced s'.model type owner := by
  induction hpath with
  | refl => exact h
  | tail _ hlast ih =>
    cases hlast
    exact ih

section Methods

variable {scope : MemberScope} {outer parameters : List String}

theorem reaches_draftParameter (h : Ready s scope outer parameters) {method : MethodId}
    (hmethod : Inside s.model method scope.type parameters) {fact : ParameterFact}
    (hnames : source.NamesAll scope.type outer parameters
      (fact.typeRef :: fact.attributes.map AttributeFact.typeRef)) :
    Reaches (linker.MemberMove source) s (linker.draftParameter scope method fact)
      fun _ _ => True := by
  unfold draftParameter
  split
  · refine ((reaches_draftTypeRef h (hnames _ (by simp))).widen fun _ _ => .external).bind
      fun link s₁ hpath₁ hlink => ?_
    have h₁ := h.after hpath₁
    refine ((reaches_draftAttributes h₁ (hnames.mono (by simp))).widen fun _ _ => .external).bind
      fun attributes s₂ hpath₂ hattributes => ?_
    have hmethod₂ := hmethod.keep (memberMoves_extends (hpath₁.trans hpath₂))
    obtain ⟨node, hnode, htype⟩ := hmethod₂.methodIn
    have hformed := (hlink.after hpath₂).append hattributes
    refine reaches_addParameter (.addParameter s₂ _ node rfl hnode ?_ parameters hmethod₂.inScope
      fun _ => ?_)
    · rw [htype]
      exact (h₁.after hpath₂).linksFrom hformed.linked
    · rw [htype]
      exact hformed.written
  · exact reaches_report (.report s _)

theorem reaches_draftLocalVariable (h : Ready s scope outer parameters) {method : MethodId}
    (hmethod : Inside s.model method scope.type parameters) {fact : LocalVariableFact}
    (hname : source.names scope.type outer parameters fact.typeRef.fullName) :
    Reaches (linker.MemberMove source) s (linker.draftLocalVariable scope method fact)
      fun _ _ => True := by
  unfold draftLocalVariable
  split
  · refine ((reaches_draftTypeRef h hname).widen fun _ _ => .external).bind
      fun link s₁ hpath₁ hlink => ?_
    have hmethod₁ := hmethod.keep (memberMoves_extends hpath₁)
    obtain ⟨node, hnode, htype⟩ := hmethod₁.methodIn
    refine reaches_addLocalVariable (.addLocalVariable s₁ _ node rfl hnode ?_ parameters
      hmethod₁.inScope (fun _ => ?_) ?_)
    · rw [htype]
      exact (h.after hpath₁).linksFrom hlink.linked
    · rw [htype]
      exact hlink.written
    · rw [htype]
      exact (h.after hpath₁).declared
  · exact reaches_report (.report s _)

theorem reaches_draftCollect (h : Ready s scope outer parameters) {method : MethodId}
    (hmethod : MethodIn s.model method scope.type) (methodName : String) {fact : CallFact}
    (hcall : source.calls fact) :
    Reaches (linker.MemberMove source) s (draftCollect scope method methodName fact)
      fun _ _ => True := by
  unfold draftCollect
  split
  · exact reaches_report (.report s _)
  · refine reaches_modify (.postpone s _ hmethod.hasHandle h.project ⟨hcall, ?_⟩) trivial
    obtain ⟨caller, hcaller, htype⟩ := hmethod
    obtain ⟨node, hnode, hproject⟩ := h.type
    exact ⟨caller, node, hcaller, by rw [htype]; exact hnode, hproject⟩

/-- What stands directly in a method that is there already: its parameters, its local variables and
its calls. -/
theorem reaches_linkContents {inside : List String} {head : MethodHead}
    (h : Ready s scope outer inside) {method : MethodId}
    (hmethod : Inside s.model method scope.type inside)
    (hnames : source.NamesAll scope.type outer inside head.refs)
    (hcalls : ∀ call ∈ head.calledMethods, source.calls call) :
    Reaches (linker.MemberMove source) s (do
      head.parameters.forM (linker.draftParameter scope method)
      head.localVariables.forM (linker.draftLocalVariable scope method)
      head.calledMethods.forM (draftCollect scope method head.name)
      return method)
      fun method s' => Inside s'.model method scope.type inside := by
  have hparameters : Reaches (linker.MemberMove source) s
      (head.parameters.forM (linker.draftParameter scope method)) fun _ _ => True := by
    refine .forM fun fact hfact _ hpath => reaches_draftParameter (h.after hpath)
      (hmethod.keep (memberMoves_extends hpath)) (hnames.mono fun ref href => ?_)
    simp only [MethodHead.refs, List.mem_append, List.mem_flatMap]
    exact .inl (.inr ⟨fact, hfact, href⟩)
  refine hparameters.bind fun _ s₁ hpath₁ _ => ?_
  have h₁ := h.after hpath₁
  have hmethod₁ := hmethod.keep (memberMoves_extends hpath₁)
  have hvariables : Reaches (linker.MemberMove source) s₁
      (head.localVariables.forM (linker.draftLocalVariable scope method)) fun _ _ => True := by
    refine .forM fun fact hfact _ hpath => reaches_draftLocalVariable (h₁.after hpath)
      (hmethod₁.keep (memberMoves_extends hpath)) (hnames _ ?_)
    simp only [MethodHead.refs, List.mem_append]
    exact .inr (List.mem_map_of_mem hfact)
  refine hvariables.bind fun _ s₂ hpath₂ _ => ?_
  have h₂ := h₁.after hpath₂
  have hmethod₂ := hmethod₁.keep (memberMoves_extends hpath₂)
  have hcalls : Reaches (linker.MemberMove source) s₂
      (head.calledMethods.forM (draftCollect scope method head.name)) fun _ _ => True :=
    .forM fun fact hfact _ hpath => reaches_draftCollect (h₂.after hpath)
      (hmethod₂.keep (memberMoves_extends hpath)).methodIn head.name (hcalls fact hfact)
  exact hcalls.bind fun _ _ hpath _ => .pure (hmethod₂.keep (memberMoves_extends hpath))

/-- A method without its local functions. The scope is the one inside of the method, so its generic
parameters are those of the methods around it and its own. -/
theorem reaches_draftMethodHead {around : List String} {head : MethodHead}
    (h : Ready s scope outer (around ++ head.genericParameters)) {owner : MethodOwner}
    (howner : MethodPlaced s.model scope.type owner)
    (haround : s.model.MethodParameters owner.containingMethod around)
    (hnames : source.NamesAll scope.type outer (around ++ head.genericParameters) head.refs)
    (hcalls : ∀ call ∈ head.calledMethods, source.calls call) :
    Reaches (linker.MemberMove source) s (linker.draftMethodHead scope owner head)
      fun method s' =>
        Inside s'.model method scope.type (around ++ head.genericParameters) := by
  unfold draftMethodHead
  -- Linking the return type and the attributes may add types, but no method, so the place of the
  -- method is still free.
  have hreturn : Reaches (linker.MemberMove source) s
      (linker.draftReturnType scope head.returnType)
      fun link s' => MethodPlaced s'.model scope.type owner ∧
        linker.Formed source s'.model scope (around ++ head.genericParameters) link.toList := by
    have hnames : source.NamesAll scope.type outer (around ++ head.genericParameters)
        head.returnType.toList := hnames.mono (by simp [MethodHead.refs])
    exact ((reaches_draftReturnType h hnames).mono fun _ _ hpath hlink =>
      ⟨howner.afterLinks hpath, hlink⟩).widen fun _ _ => .external
  refine hreturn.bind fun returnType s₁ hpath₁ ⟨howner₁, hlink⟩ => ?_
  have h₁ := h.after hpath₁
  have hattributes : Reaches (linker.MemberMove source) s₁
      (linker.draftAttributes scope.project scope.typeParameters head.attributes)
      fun links s' => MethodPlaced s'.model scope.type owner ∧
        linker.Formed source s'.model scope (around ++ head.genericParameters)
          (links.map AttributeLink.typeLink) := by
    have hnames : source.NamesAll scope.type outer (around ++ head.genericParameters)
        (head.attributes.map AttributeFact.typeRef) := hnames.mono (by simp [MethodHead.refs])
    exact ((reaches_draftAttributes h₁ hnames).mono fun _ _ hpath hlinks =>
      ⟨howner₁.afterLinks hpath, hlinks⟩).widen fun _ _ => .external
  refine hattributes.bind fun attributes s₂ hpath₂ ⟨howner₂, hlinks⟩ => ?_
  have h₂ := h₁.after hpath₂
  have hformed := (hlink.after hpath₂).append hlinks
  have haround₂ := methodParameters_keep haround (memberMoves_extends (hpath₁.trans hpath₂))
  refine (reaches_addMethod (.addMethod s₂ _ rfl h₂.hasType howner₂ rfl rfl rfl rfl
    (h₂.linksFrom hformed.linked) around haround₂ (fun _ => hformed.written)
    (.inl h₂.declared))).bind fun method s₃ hpath₃ hnode => ?_
  have hmethod : Inside s₃.model method scope.type (around ++ head.genericParameters) :=
    ⟨⟨_, hnode, rfl⟩, .inside hnode (methodParameters_keep haround₂ (memberMoves_extends hpath₃))⟩
  exact reaches_linkContents (h₂.after hpath₃) hmethod hnames hcalls

end Methods

mutual

/-- **A method with its local functions.** The inner scope has more generic parameters, and the
method that was made is the place of the local functions. -/
theorem reaches_draftMethod {s : DraftState} {scope : MemberScope} {outer around : List String}
    (h : Ready s scope outer around) {owner : MethodOwner}
    (howner : MethodPlaced s.model scope.type owner)
    (haround : s.model.MethodParameters owner.containingMethod around) :
    ∀ method : MethodFact, source.Covers scope.type outer around method →
      Reaches (linker.MemberMove source) s (linker.draftMethod scope owner method) fun _ _ => True
  | ⟨head, localFunctions⟩, hcovers => by
    unfold draftMethod
    split
    · exact reaches_report (.report s _)
    · obtain ⟨hnames, hcalls⟩ := hcovers _ head (.self ⟨head, localFunctions⟩)
      have hinner := h.enter head.genericParameters
      refine (reaches_draftMethodHead hinner howner haround hnames hcalls).bind
        fun method s₁ hpath hmethod => ?_
      exact reaches_draftMethods (hinner.after hpath) (by simp) (.localFunction hmethod.methodIn)
        hmethod.inScope localFunctions fun inner hmem => hcovers.localFunctions hmem

theorem reaches_draftMethods {s : DraftState} {scope : MemberScope} {outer around : List String}
    (h : Ready s scope outer around) {owner : MethodOwner} (hkind : owner.kind ≠ .destructor)
    (howner : MethodPlaced s.model scope.type owner)
    (haround : s.model.MethodParameters owner.containingMethod around) :
    ∀ methods : List MethodFact,
      (∀ method ∈ methods, source.Covers scope.type outer around method) →
      Reaches (linker.MemberMove source) s (linker.draftMethods scope owner methods)
        fun _ _ => True
  | [], _ => by
    unfold draftMethods
    exact .pure trivial
  | method :: methods, hcovers => by
    unfold draftMethods
    refine (reaches_draftMethod h howner haround method (hcovers method (by simp))).bind
      fun _ s₁ hpath _ => ?_
    have hextends := memberMoves_extends hpath
    exact reaches_draftMethods (h.after hpath) hkind (howner.keep hkind hextends)
      (methodParameters_keep haround hextends) methods
      fun other hother => hcovers other (by simp [hother])

end

section Members

variable {scope : MemberScope} {outer : List String}

theorem reaches_draftDestructor (h : Ready s scope outer []) {fact : MethodFact}
    (hcovers : source.Covers scope.type outer [] fact) :
    Reaches (linker.MemberMove source) s (linker.draftDestructor scope fact) fun _ _ => True := by
  unfold draftDestructor
  refine reaches_model.bind ?_
  rintro _ _ - ⟨rfl, rfl⟩
  split
  · exact reaches_report (.report s _)
  next hfirst =>
    have hplaced : MethodPlaced s.model scope.type { kind := .destructor } :=
      ⟨rfl, rfl, Bool.eq_false_iff.2 hfirst⟩
    exact reaches_draftMethod h hplaced .outside fact hcovers

/-! ## Fields and properties -/

theorem reaches_draftField (h : Ready s scope outer []) {fact : FieldFact}
    (hnames : source.NamesAll scope.type outer []
      (fact.typeRef :: fact.attributes.map AttributeFact.typeRef)) :
    Reaches (linker.MemberMove source) s (linker.draftField scope fact) fun _ _ => True := by
  unfold draftField
  split
  · refine ((reaches_draftTypeRef h (hnames _ (by simp))).widen fun _ _ => .external).bind
      fun link s₁ hpath₁ hlink => ?_
    have h₁ := h.after hpath₁
    refine ((reaches_draftAttributes h₁ (hnames.mono (by simp))).widen fun _ _ => .external).bind
      fun attributes s₂ hpath₂ hattributes => ?_
    have h₂ := h₁.after hpath₂
    have hformed := (hlink.after hpath₂).append hattributes
    exact reaches_addField (.addField s₂ _ rfl h₂.hasType (h₂.linksFrom hformed.linked)
      (fun _ => hformed.written) h₂.declared)
  · exact reaches_report (.report s _)

theorem reaches_draftProperty (h : Ready s scope outer []) {fact : PropertyFact}
    (hnames : source.NamesAll scope.type outer []
      (fact.typeRef :: fact.attributes.map AttributeFact.typeRef))
    (hcovers : ∀ method ∈ fact.accessors, source.Covers scope.type outer [] method) :
    Reaches (linker.MemberMove source) s (linker.draftProperty scope fact) fun _ _ => True := by
  unfold draftProperty
  split
  · refine ((reaches_draftTypeRef h (hnames _ (by simp))).widen fun _ _ => .external).bind
      fun link s₁ hpath₁ hlink => ?_
    have h₁ := h.after hpath₁
    refine ((reaches_draftAttributes h₁ (hnames.mono (by simp))).widen fun _ _ => .external).bind
      fun attributes s₂ hpath₂ hattributes => ?_
    have h₂ := h₁.after hpath₂
    have hformed := (hlink.after hpath₂).append hattributes
    refine (reaches_addProperty (.addProperty s₂ _ rfl h₂.hasType rfl
      (h₂.linksFrom hformed.linked) (fun _ => hformed.written) h₂.declared)).bind
        fun property s₃ hpath₃ hnode => ?_
    exact reaches_draftMethods (h₂.after hpath₃) (by simp) (.accessor hnode rfl) .outside
      fact.accessors hcovers
  · exact reaches_report (.report s _)

/-! ## Base types, attributes and metrics -/

theorem reaches_draftBaseType (h : Ready s scope outer []) (typeName : String) {base : TypeRef}
    (hname : source.names scope.type outer [] base.fullName) :
    Reaches (linker.MemberMove source) s (linker.draftBaseType scope typeName base)
      fun _ _ => True := by
  unfold draftBaseType
  split
  · refine ((reaches_draftTypeRef h hname).widen fun _ _ => .external).bind
      fun link s₁ hpath₁ hlink => ?_
    have h₁ := h.after hpath₁
    refine reaches_modifyType h₁.hasType
      (.addLinks s₁ scope.type _ [link] h₁.hasType h₁.declared ?_ ?_ ?_
        (h₁.linksFrom hlink.linked) hlink.written)
    · intro node
      split <;> rfl
    · intro node
      split <;> rfl
    · intro node other hother
      split at hother
      · exact .inl hother
      · simp only [TypeNode.links, List.mem_append] at hother ⊢
        tauto
  · exact reaches_report (.report s _)

/-- One count of a metric. If the name has a target, it is no generic parameter. -/
theorem reaches_draftCount (h : Ready s scope outer []) (relation : RelationKind) {name : String}
    (hname : source.names scope.type outer [] name) (count : Nat) :
    Reaches (linker.MemberMove source) s (linker.draftCount scope relation name count)
      fun _ _ => True := by
  have hscope : scope.typeParameters = outer := by simpa using h.inScope
  have hknown : ∀ part ∈ (TypeName.parse name).parts,
      ¬part.IsParameter scope.typeParameters → source.Introduces part.base := by
    intro part hpart hfree
    rw [h.inScope] at hfree
    exact Occurrences.introduces_of_names hname hpart hfree
  unfold draftCount
  split
  · refine ((reaches_draftTree h.sound h.project scope.typeParameters _
      (TypeName.parsed_parse name) hknown).widen fun _ _ => .external).bind
        fun link s₁ hpath₁ ⟨_, htarget, hrender, hscoped⟩ => ?_
    have h₁ := h.after hpath₁
    split
    next target heq =>
      have hfree : ¬(TypeName.parse name).IsParameter outer := by
        intro hparameter
        have hself : link ∈ link.parts := by
          cases link
          simp [TypeLink.parts]
        have hnone : link.target = none := by
          rw [hscoped link hself, hrender,
            TypeName.parse_render_parsed (TypeName.parsed_parse name), hscope]
          exact .inr hparameter
        simp [heq] at hnone
      exact reaches_modifyType h₁.hasType (.addRelation s₁ scope.type relation target count
        h₁.hasType h₁.declared (h₁.fromProject ⟨outer, name, hname, hfree, htarget target heq⟩))
    next => exact .pure trivial
  · exact .pure trivial

theorem reaches_draftMetric (h : Ready s scope outer []) {fact : MetricFact}
    (hnames : ∀ entry ∈ fact.counts.entries, source.names scope.type outer [] entry.1) :
    Reaches (linker.MemberMove source) s (linker.draftMetric scope fact) fun _ _ => True :=
  .forM fun entry hentry _ hpath =>
    reaches_draftCount (h.after hpath) fact.relation (hnames entry hentry) entry.2

end Members

/-! ## Fragments -/

/-- The type around a type is there. -/
theorem containing_hasHandle (hclosed : model.Closed) {type : TypeId} :
    ∀ id ∈ (model.type? type).bind TypeNode.containingType, model.hasHandle id := by
  intro id hid
  obtain ⟨node, hnode, hcontaining⟩ := Option.bind_eq_some_iff.1 hid
  refine hclosed .type (.of id) (mem_flatMap_of_getElem? hnode ?_)
  simp [TypeNode.handles, hcontaining]

/-- The types around a type are there. -/
theorem hasHandle_of_mem_enclosingTypes (hclosed : model.Closed) {steps : Nat}
    {start : Option TypeId} (hstart : ∀ id ∈ start, model.hasHandle id) :
    ∀ id ∈ enclosingTypes model steps start, model.hasHandle id := by
  induction steps generalizing start with
  | zero => simp [enclosingTypes]
  | succ steps ih =>
    cases start with
    | none => simp [enclosingTypes]
    | some type =>
      intro id hid
      rcases List.mem_cons.1 hid with rfl | hid
      · exact hstart id rfl
      · exact ih (containing_hasHandle hclosed) id hid

/-- The list has exactly the generic parameters that are in scope in the fragment: its own, and
those of the types around its type. -/
def HasParameters (model : ReferenceModel) (fragment : Fragment) (outer : List String) : Prop :=
  ∀ parameter, parameter ∈ outer ↔ parameter ∈ fragment.fact.genericParameters ∨
    ∃ id ∈ typesAround model fragment, ∃ node, model.type? id = some node ∧
      parameter ∈ node.genericParameters

/-- The generic parameters in scope are read off the nodes of the types around the type. -/
theorem HasParameters.of_nodes {fragment : Fragment} {nodes : List TypeNode}
    (h : List.Forall₂ (fun id node => model.type? id = some node) (typesAround model fragment)
      nodes) :
    HasParameters model fragment
      (fragment.fact.genericParameters ++ nodes.flatMap TypeNode.genericParameters) := by
  intro parameter
  rw [List.mem_append, List.mem_flatMap]
  refine or_congr_right ⟨?_, ?_⟩
  · rintro ⟨node, hmem, hparameter⟩
    obtain ⟨id, hid, hnode⟩ := exists_of_forall₂_right h hmem
    exact ⟨id, hid, node, hnode, hparameter⟩
  · rintro ⟨id, hid, node, hnode, hparameter⟩
    obtain ⟨node', hmem, hnode'⟩ := exists_of_forall₂_left h hid
    obtain rfl := Option.some.inj (hnode.symm.trans hnode')
    exact ⟨node, hmem, hparameter⟩

theorem reaches_draftParametersInScope (hs : s.Sound) (fragment : Fragment) :
    Reaches (linker.MemberMove source) s (draftParametersInScope fragment)
      fun outer _ => HasParameters s.model fragment outer := by
  unfold draftParametersInScope
  refine reaches_model.bind ?_
  rintro _ _ - ⟨rfl, rfl⟩
  have hhandles : ∀ id ∈ typesAround s.model fragment, s.model.hasHandle id :=
    hasHandle_of_mem_enclosingTypes hs.closed (containing_hasHandle hs.closed)
  exact (reaches_typesAt hhandles).bind fun nodes s₁ _ ⟨hnodes, _⟩ => .pure (.of_nodes hnodes)

/-- All that the fragment names and calls is known. -/
structure Accounted (source : Occurrences) (model : ReferenceModel) (fragment : Fragment) :
    Prop where
  names : ∀ outer, HasParameters model fragment outer → ∀ parameters name,
    fragment.fact.Mentions parameters name → source.names fragment.type outer parameters name
  calls : ∀ call, fragment.fact.Calls call → source.calls call

theorem Accounted.covers {fragment : Fragment} {outer : List String}
    (h : Accounted source model fragment) (houter : HasParameters model fragment outer)
    {method : MethodFact} (hmethod : method ∈ fragment.fact.allMethods) :
    source.Covers fragment.type outer [] method := by
  intro parameters head hhead
  constructor
  · intro ref href
    exact h.names outer houter parameters ref.fullName (.method hmethod hhead href)
  · intro call hcall
    exact h.calls call ⟨method, hmethod, parameters, head, hhead, hcall⟩

/-- The attributes of a fragment come behind those that its type has. -/
theorem reaches_addAttributes {scope : MemberScope} {outer : List String}
    (h : Ready s scope outer []) {attributes : List AttributeLink}
    (hattributes : linker.Formed source s.model scope [] (attributes.map AttributeLink.typeLink)) :
    Reaches (linker.MemberMove source) s (modifyType scope.type fun node =>
      { node with attributes := node.attributes ++ attributes }) fun _ _ => True := by
  refine reaches_modifyType h.hasType (.addLinks s scope.type _
    (attributes.map AttributeLink.typeLink) h.hasType h.declared (fun _ => rfl) (fun _ => rfl)
    ?_ (h.linksFrom hattributes.linked) hattributes.written)
  intro node link hlink
  simp only [TypeNode.links, List.map_append, List.mem_append] at hlink ⊢
  tauto

/-- **All that a fragment adds to its type.** -/
theorem reaches_draftMembers (hs : s.Sound) {fragment : Fragment}
    (hplaced : linker.Placed s.model fragment) (hknown : Accounted source s.model fragment) :
    Reaches (linker.MemberMove source) s (linker.draftMembers fragment) fun _ _ => True := by
  unfold draftMembers
  refine (reaches_draftParametersInScope hs fragment).bind fun typeParameters s₁ hpath₁ houter => ?_
  let scope : MemberScope :=
    { project := fragment.project, type := fragment.type, context := fragment.context
      typeParameters }
  have h : Ready s scope typeParameters [] := by
    obtain ⟨node, hnode, -, hproject, -⟩ := hplaced.type
    exact ⟨hs, hplaced.project, ⟨node, hnode, hproject⟩, by simp [scope]⟩
  have hrefs : source.NamesAll scope.type typeParameters [] fragment.fact.refs :=
    fun ref href => hknown.names _ houter _ _ (.ref href)
  have hcovers : ∀ method ∈ fragment.fact.allMethods,
      source.Covers scope.type typeParameters [] method :=
    fun method hmethod => hknown.covers houter hmethod
  -- Each part of the declaration is linked in the state that the parts before it have left.
  have h₁ := h.after hpath₁
  refine h₁.bind (h₁.forM fun _ h base hbase => reaches_draftBaseType h _ (hrefs base ?_))
    fun _ s₂ h₂ _ => ?_
  · simp [TypeFact.refs, hbase]
  have hattributes : source.NamesAll scope.type typeParameters []
      (fragment.fact.attributes.map AttributeFact.typeRef) :=
    hrefs.mono (by simp [TypeFact.refs])
  refine h₂.bind ((reaches_draftAttributes h₂ hattributes).widen fun _ _ => .external)
    fun attributes s₃ h₃ hattributes => ?_
  refine h₃.bind (reaches_addAttributes h₃ hattributes) fun _ s₄ h₄ _ => ?_
  refine h₄.bind (h₄.forM fun _ h fact hfact => reaches_draftField h (hrefs.mono ?_))
    fun _ s₅ h₅ _ => ?_
  · intro ref href
    simp only [TypeFact.refs, List.mem_append, List.mem_flatMap]
    exact .inl (.inr ⟨fact, hfact, href⟩)
  refine h₅.bind (h₅.forM fun _ h fact hfact => reaches_draftProperty h (hrefs.mono ?_)
    fun method hmethod => hcovers method ?_) fun _ s₆ h₆ _ => ?_
  · intro ref href
    simp only [TypeFact.refs, List.mem_append, List.mem_flatMap]
    exact .inr ⟨fact, hfact, href⟩
  · simp only [TypeFact.allMethods, List.mem_append, List.mem_flatMap]
    exact .inl (.inl (.inl ⟨fact, hfact, hmethod⟩))
  refine h₆.bind (reaches_draftMethods h₆ (by simp) (.direct (.inl rfl)) .outside _
    fun method hmethod => hcovers method ?_) fun _ s₇ h₇ _ => ?_
  · simp [TypeFact.allMethods, hmethod]
  refine h₇.bind (reaches_draftMethods h₇ (by simp) (.direct (.inr rfl)) .outside _
    fun method hmethod => hcovers method ?_) fun _ s₈ h₈ _ => ?_
  · simp [TypeFact.allMethods, hmethod]
  have hdestructor : Reaches (linker.MemberMove source) s₈
      (fragment.fact.destructor.forM (linker.draftDestructor scope)) fun _ _ => True := by
    cases hfact : fragment.fact.destructor with
    | none => exact .pure trivial
    | some fact =>
      exact reaches_draftDestructor h₈ (hcovers fact (by simp [TypeFact.allMethods, hfact]))
  refine h₈.bind hdestructor fun _ s₉ h₉ _ => ?_
  exact h₉.forM fun _ h fact hfact => reaches_draftMetric h fun entry hentry =>
    hknown.names _ houter _ _ (.metric hfact hentry)

end FactGraph.Linker
