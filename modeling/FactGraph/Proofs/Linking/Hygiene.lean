import FactGraph.Fact.Build
import FactGraph.Proofs.Linking.Links
import FactGraph.Run

/-!
# Generic parameters stand for no type

A name that is a generic parameter is not the name of a type, even where there is a type of that
name. So where a declaration uses one of its generic parameters, no link may lead to a type, and no
external type may be made for it.

Which generic parameters are in scope is worked out from the declaration that is linked, from the
types that its type was put into, and from the methods around the place. For names in declarations
this gives exactly what is wanted (`Hygienic`): a part of a link has no target just if it is a
generic parameter there, and every external type is introduced by a part of a name that is none.

There are three gaps. The owner of a call is looked up without regard to generic parameters, and so
are the types of the parameters of an external method; and a declaration that does not repeat the
generic parameters of its type does not have them in scope. `crates_captured` has one instance of
each of them.

## Main definitions

* `Linker.InScope`: the generic parameter is in scope at a place of a type
* `Linker.Hygienic`: generic parameters stand for no type

## Main results

* `MemberMove.linksWritten`, `MemberMove.introduced`: what every move keeps
* `Phases.hygienic`: a link run keeps generic parameters apart from types
* `runWith_hygienic`: so does a whole run, whatever its facts and settings are
-/

namespace FactGraph

open Relation (ReflTransGen TransGen)

/-! ## Occurrences -/

namespace Occurrences

/-- All that is named in the one record is named in the other one. -/
structure Within (source wider : Occurrences) : Prop where
  names : ∀ type outer parameters name, source.names type outer parameters name →
    wider.names type outer parameters name
  calls : ∀ call, source.calls call → wider.calls call

variable {source wider : Occurrences}

theorem Written.mono {type : TypeId} {parameters : List String} {links : List TypeLink}
    (h : source.Written type parameters links) (hwithin : source.Within wider) :
    wider.Written type parameters links := by
  intro link hlink
  obtain ⟨outer, name, hname, hrest⟩ := h link hlink
  exact ⟨outer, name, hwithin.names _ _ _ _ hname, hrest⟩

theorem Introduces.mono {fullName : String} (h : source.Introduces fullName)
    (hwithin : source.Within wider) : wider.Introduces fullName := by
  rcases h with ⟨type, outer, parameters, name, hname, hpart⟩ | ⟨call, hcall, hbase⟩
  · exact .inl ⟨type, outer, parameters, name, hwithin.names _ _ _ _ hname, hpart⟩
  · exact .inr ⟨call, hwithin.calls call hcall, hbase⟩

end Occurrences

/-! ## Generic parameters of methods and of types -/

namespace ReferenceModel

variable {model : ReferenceModel}

theorem MethodParameters.unique {place : Option MethodId} {parameters others : List String}
    (h : model.MethodParameters place parameters) (h' : model.MethodParameters place others) :
    parameters = others := by
  induction h generalizing others with
  | outside =>
    cases h'
    rfl
  | inside hnode _ ih =>
    cases h' with
    | inside hnode' h' =>
      obtain rfl := Option.some.inj (hnode.symm.trans hnode')
      rw [ih h']

theorem MethodParameters.wire {place : Option MethodId} {parameters : List String}
    (h : model.MethodParameters place parameters) :
    model.wire.MethodParameters place parameters := by
  induction h with
  | outside => exact .outside
  | @inside id node parameters hnode _ ih =>
    refine @MethodParameters.inside model.wire id (model.wireMethod node) parameters ?_ ih
    rw [wire_method?, hnode]
    rfl

theorem wire_directlyIn (model : ReferenceModel) : model.wire.DirectlyIn = model.DirectlyIn := by
  funext type outer
  simp only [DirectlyIn, wire_type?, eq_iff_iff, Option.map_eq_some_iff]
  constructor
  · rintro ⟨_, ⟨node, hnode, rfl⟩, houter⟩
    exact ⟨node, hnode, houter⟩
  · rintro ⟨node, hnode, houter⟩
    exact ⟨_, ⟨node, hnode, rfl⟩, houter⟩

theorem wire_outerParameter {type : TypeId} {parameter : String} :
    model.wire.OuterParameter type parameter ↔ model.OuterParameter type parameter := by
  simp only [OuterParameter, wire_directlyIn, wire_type?, Option.map_eq_some_iff]
  constructor
  · rintro ⟨around, _, hin, ⟨node, hnode, rfl⟩, hparameter⟩
    exact ⟨around, node, hin, hnode, hparameter⟩
  · rintro ⟨around, node, hin, hnode, hparameter⟩
    exact ⟨around, _, hin, ⟨node, hnode, rfl⟩, hparameter⟩

theorem Declared.of_wire {type : TypeId} (h : model.wire.Declared type) : model.Declared type := by
  obtain ⟨node, project, hnode, hproject⟩ := h
  rw [wire_type?] at hnode
  obtain ⟨old, hold, rfl⟩ := Option.map_eq_some_iff.1 hnode
  exact ⟨old, project, hold, hproject⟩

end ReferenceModel

namespace Linker

variable {linker : Linker} {source : Occurrences} {model : ReferenceModel} {s s' : DraftState}
  {facts : RepositoryFact}

theorem directlyIn_after (h : ReflTransGen (linker.MemberMove source) s s') {type outer : TypeId}
    (htype : s.model.hasHandle type) :
    s'.model.DirectlyIn type outer ↔ s.model.DirectlyIn type outer := by
  obtain ⟨node, hnode⟩ := ReferenceModel.exists_type htype
  obtain ⟨node', hnode', houtline⟩ := memberMoves_outline h hnode
  have hsame : node'.containingType = node.containingType :=
    (congrArg TypeNode.containingType houtline :)
  simp [ReferenceModel.DirectlyIn, hnode, hnode', hsame]

/-- No member that is linked changes what is around a type. -/
theorem around_after (h : ReflTransGen (linker.MemberMove source) s s') (hs : s.Sound)
    {type outer : TypeId} (htype : s.model.hasHandle type) :
    TransGen s'.model.DirectlyIn type outer ↔ TransGen s.model.DirectlyIn type outer := by
  constructor
  · -- Outwards from a type that was there, the next type was there too.
    intro hin
    induction hin with
    | single hfirst => exact .single ((directlyIn_after h htype).1 hfirst)
    | tail _ hlast ih =>
      exact ih.tail ((directlyIn_after h (hasHandle_of_around hs.closed ih)).1 hlast)
  · intro hin
    refine TransGen.mono (fun inner next hstep => ?_) _ _ hin
    obtain ⟨node, hnode, -⟩ := id hstep
    exact (directlyIn_after h (ReferenceModel.hasHandle_of_type hnode)).2 hstep

theorem outerParameter_after (h : ReflTransGen (linker.MemberMove source) s s') (hs : s.Sound)
    {type : TypeId} (htype : s.model.hasHandle type) {parameter : String} :
    s'.model.OuterParameter type parameter ↔ s.model.OuterParameter type parameter := by
  refine exists_congr fun around => ?_
  rw [exists_and_left, exists_and_left, around_after h hs htype]
  refine and_congr_right fun hin => ?_
  obtain ⟨node, hnode⟩ := ReferenceModel.exists_type (hasHandle_of_around hs.closed hin)
  obtain ⟨node', hnode', -⟩ := memberMoves_outline h hnode
  simp [hnode, hnode', genericParameters_after h hnode hnode']

/-- **What is named is the same seen from the end of a run**: nothing that it depends on changes
while members are linked, nor in the lists of contents. -/
theorem occurrences_within (h : ReflTransGen (linker.MemberMove source) s s') (hs : s.Sound) :
    (linker.occurrences facts s.model).Within (linker.occurrences facts s'.model.wire) where
  names := by
    rintro type outer parameters name
      ⟨unit, hunit, fact, hfact, hnamed, hfragment, hmentions, houter⟩
    refine ⟨unit, hunit, fact, hfact, hnamed, ?_, hmentions, fun parameter => ?_⟩
    · obtain ⟨node, hnode, hrest⟩ := hfragment.keep (memberMoves_extends h)
      exact ⟨s'.model.wireType node, by rw [ReferenceModel.wire_type?, hnode]; rfl, hrest⟩
    · obtain ⟨node, hnode, -⟩ := hfragment
      rw [houter, ReferenceModel.wire_outerParameter,
        outerParameter_after h hs (ReferenceModel.hasHandle_of_type hnode)]
  calls _ hcall := hcall

/-! ## While members are linked -/

/-- **All links of declared types are written there.** -/
def LinksWritten (source : Occurrences) (model : ReferenceModel) : Prop :=
  ∀ type place links, model.Declared type → model.LinksAt type place links →
    ∃ parameters, model.MethodParameters place parameters ∧ source.Written type parameters links

/-- **All external types are introduced.** -/
def ExternalsIntroduced (source : Occurrences) (model : ReferenceModel) : Prop :=
  ∀ node ∈ model.types, node.isExternal = true → source.Introduces node.fullName

/-- **Every move keeps all links written.** -/
theorem MemberMove.linksWritten (h : linker.MemberMove source s s') (hs : s.Sound)
    (hlinks : linker.Attributed s.model) (hwritten : LinksWritten source s.model) :
    LinksWritten source s'.model := by
  intro type place links hdeclared hat
  cases h.linksMade hs hat with
  | kept hkept =>
    obtain ⟨node, -, hnode, -⟩ := hlinks _ _ _ hkept
    have hbefore := declared_of_extends h.extends (ReferenceModel.hasHandle_of_type hnode) hdeclared
    obtain ⟨parameters, hparameters, hold⟩ := hwritten type place links hbefore hkept
    exact ⟨parameters, methodParameters_keep hparameters h.extends, hold⟩
  | new hnew => exact hnew.written hdeclared
  | extended old added hplace hold hbefore hlinked hadded hall =>
    obtain ⟨parameters, hparameters, holds⟩ := hwritten type none old hbefore hold
    cases hparameters
    subst hplace
    refine ⟨[], .outside, fun link hlink => ?_⟩
    exact (hall link hlink).elim (holds link) (hadded link)

/-- **Every move keeps all external types introduced.** -/
theorem MemberMove.introduced (h : linker.MemberMove source s s')
    (hintroduced : ExternalsIntroduced source s.model) :
    ExternalsIntroduced source s'.model := by
  intro node hnode hexternal
  have hkept (old : TypeNode) (hold : old ∈ s.model.types) (hheader : node.header = old.header) :
      source.Introduces node.fullName := by
    rw [← node.header_fullName, hheader]
    refine hintroduced old hold ?_
    rw [← old.header_isExternal, ← hheader]
    exact hexternal
  cases h with
  | external h =>
    cases h with
    | addExternal fullName hfresh hname =>
      rcases Array.mem_push.1 hnode with hnode | rfl
      · exact hkept node hnode rfl
      · exact hname
  | addLinks id change links hid hdeclared houtline =>
    rcases mem_modify hnode with hnode | ⟨old, hget, rfl⟩
    · exact hkept node hnode rfl
    · exact hkept old (Array.mem_of_getElem? hget) (TypeNode.header_of_outline (houtline old))
  | addRelation =>
    dsimp only at hnode
    rcases mem_modify hnode with hnode | ⟨old, hget, rfl⟩
    · exact hkept node hnode rfl
    · exact hkept old (Array.mem_of_getElem? hget) rfl
  | _ => exact hkept node hnode rfl

/-! ## The whole run -/

/-- **The generic parameter is in scope at a place of the type**: it is one of a method around the
place, or of a type around the type, or of each declaration of the type. -/
def InScope (linker : Linker) (facts : RepositoryFact) (model : ReferenceModel) (type : TypeId)
    (place : Option MethodId) (parameter : String) : Prop :=
  (∃ parameters, model.MethodParameters place parameters ∧ parameter ∈ parameters) ∨
    model.OuterParameter type parameter ∨
    ∀ unit ∈ sourceUnits facts, ∀ fact ∈ unit.fact.types, fact.isNamed →
      linker.FragmentOf model unit.project fact type → parameter ∈ fact.genericParameters

/-- **Generic parameters stand for no type.** -/
structure Hygienic (linker : Linker) (facts : RepositoryFact) (model : ReferenceModel) :
    Prop where
  /-- A link of a declared type is one of a name in a declaration of it. A part of it has no target
  exactly if it is nameless or a generic parameter of the declaration, of a type around its type,
  or of a method around the place. -/
  links : LinksWritten (linker.occurrences facts model) model
  /-- A part of a link that is a generic parameter in scope has no target. -/
  parameters : ∀ type place links parameter, model.Declared type →
    model.LinksAt type place links → linker.InScope facts model type place parameter →
      ∀ link ∈ links, ∀ part ∈ link.parts,
        (TypeName.parse part.name).IsParameter [parameter] → part.target = none
  /-- An external type is introduced by a part of a name in a declaration that is no generic
  parameter there, or by the owner of a call. -/
  externals : ExternalsIntroduced (linker.occurrences facts model) model
  /-- A relation is one of a name in a metric of the type that is no generic parameter there. -/
  relations : ∀ node ∈ model.types, ∀ edge ∈ node.relations, ∃ outer name target,
    (linker.occurrences facts model).names node.id outer [] name ∧
      ¬(TypeName.parse name).IsParameter outer ∧ model.type? edge.target = some target ∧
      target.fullName = (TypeName.parse name).base

/-- What is in scope at a place is in scope in whatever declaration a link of it is written. -/
theorem target_none_of_inScope (h : LinksWritten (linker.occurrences facts model) model)
    {type : TypeId} {place : Option MethodId} {links : List TypeLink} {parameter : String}
    (hdeclared : model.Declared type) (hat : model.LinksAt type place links)
    (hscope : linker.InScope facts model type place parameter) {link part : TypeLink}
    (hlink : link ∈ links) (hpart : part ∈ link.parts)
    (hparameter : (TypeName.parse part.name).IsParameter [parameter]) : part.target = none := by
  obtain ⟨parameters, hparameters, hwritten⟩ := h type place links hdeclared hat
  obtain ⟨outer, name, ⟨unit, hunit, fact, hfact, hnamed, hfragment, -, houter⟩, -, hscoped⟩ :=
    hwritten link hlink
  obtain ⟨hargs, hbase⟩ := hparameter
  rw [List.mem_singleton] at hbase
  refine (hscoped part hpart).2 (.inr ⟨hargs, ?_⟩)
  rw [hbase, List.mem_append, houter]
  -- Whichever declaration the link is written in, the parameter is in scope there.
  rcases hscope with ⟨own, hown, hmem⟩ | haround | hall
  · rw [hparameters.unique hown]
    exact .inr hmem
  · exact .inl (.inr haround)
  · exact .inl (.inl (hall unit hunit fact hfact hnamed hfragment))

/-- **A link run keeps generic parameters apart from types.** -/
theorem Phases.hygienic {declared nested final : DraftState}
    (h : linker.Phases facts declared nested final) :
    linker.Hygienic facts final.model.wire := by
  let source := linker.occurrences facts nested.model
  have hunlinked := h.nested_unlinked
  have hwithin := @occurrences_within linker _ nested final facts h.links h.nested_sound
  obtain ⟨-, hwritten, hintroduced⟩ : linker.Attributed final.model ∧
      LinksWritten source final.model ∧ ExternalsIntroduced source final.model := by
    refine h.keeps (fun s => linker.Attributed s.model ∧ LinksWritten source s.model ∧
      ExternalsIntroduced source s.model) ⟨?_, ?_, ?_⟩ ?_
    · exact hunlinked.attributed h.nested_sound.numbered
    · -- To begin with there are neither links nor external types.
      intro type place links _ hat
      obtain ⟨rfl, rfl, -⟩ := hunlinked.linksAt hat
      exact ⟨[], .outside, Occurrences.written_nil⟩
    · intro node hnode hexternal
      simp [(hunlinked.types node hnode).2.2] at hexternal
    · rintro s s' hs hmove ⟨hlinks, hwritten, hintroduced⟩
      exact ⟨hmove.attributed hs hlinks, hmove.linksWritten hs hlinks hwritten,
        hmove.introduced hintroduced⟩
  have hlinks : LinksWritten (linker.occurrences facts final.model.wire) final.model.wire := by
    intro type place links hdeclared hat
    obtain ⟨parameters, hparameters, hlinks⟩ :=
      hwritten type place links hdeclared.of_wire (linksAt_of_wire hat)
    exact ⟨parameters, hparameters.wire, hlinks.mono hwithin⟩
  refine ⟨hlinks, ?_, ?_, ?_⟩
  · intro type place links parameter hdeclared hat hscope link hlink part hpart hparameter
    exact target_none_of_inScope hlinks hdeclared hat hscope hlink hpart hparameter
  · intro node hnode hexternal
    obtain ⟨old, hold, rfl⟩ := Array.mem_map.1 hnode
    exact (hintroduced old hold hexternal).mono hwithin
  · intro node hnode edge hedge
    obtain ⟨old, hold, rfl⟩ := Array.mem_map.1 hnode
    obtain ⟨-, -, -, -, outer, name, hname, hfree, target, htarget, hfull, -⟩ :=
      h.counted old hold edge hedge
    refine ⟨outer, name, final.model.wireType target, hwithin.names _ _ _ _ hname, hfree, ?_, hfull⟩
    rw [ReferenceModel.wire_type?, htarget]
    rfl

/-- There is nothing in an empty model. -/
theorem hygienic_empty (linker : Linker) (facts : RepositoryFact) :
    linker.Hygienic facts {} := by
  have hnone (type : TypeId) : ¬ReferenceModel.Declared {} type := by
    rintro ⟨node, project, hnode, -⟩
    simp [ReferenceModel.type?] at hnode
  constructor
  · intro type place links hdeclared
    exact absurd hdeclared (hnone type)
  · intro type place links parameter hdeclared
    exact absurd hdeclared (hnone type)
  · intro node hnode
    simp at hnode
  · intro node hnode
    simp at hnode

end Linker

namespace LinkConfig

/-- **A whole run keeps generic parameters apart from types**, whatever the facts and the settings
are. -/
theorem runWith_hygienic (config : LinkConfig) (sep : Separator) (repo : RepositoryFact) :
    let kept := config.filterUnits repo
    let index := (ScopeIndex.build kept sep).1
    let facts := (Resolver.resolveRepository ⟨index, config.fallback⟩ kept).1
    Linker.Hygienic ⟨index, config.fallback⟩ facts (config.runWith sep repo).model := by
  intro kept index facts
  by_cases hempty : kept.isEmpty
  · have hmodel : (config.runWith sep repo).model = {} := by
      simp only [runWith]
      rw [if_pos hempty]
    rw [hmodel]
    exact Linker.hygienic_empty _ facts
  · obtain ⟨declared, nested, final, hlink, hphases⟩ :=
      Linker.link_spec ⟨index, config.fallback⟩ facts
    have hmodel : (config.runWith sep repo).model = final.model.wire := by
      replace hlink : (Linker.link ⟨index, config.fallback⟩ facts).1 = final.model.wire :=
        congrArg Prod.fst hlink
      rw [← hlink]
      simp only [runWith]
      rw [if_neg hempty]
      rfl
    rw [hmodel]
    exact hphases.hygienic

/-- Two parts of a type, the first of which lists the generic parameter that both use. It is the
type of a field in both of them, and the owner and the parameter of a call in the first one. -/
def crates : RepositoryFact where
  solutions := [{ path := "all", projects := [{ path := "store", units := [front, back] }] }]
where
  front : UnitFact :=
    { path := "front"
      types := [{ name := "Crate", isPartial := true, genericParameters := ["Item"]
                  fields := [.of "first" "Item"]
                  methods := [.withCall (.withCall (.named "unpack") (.of "Item" "check" []))
                    (.of "Log" "write" ["Item"])] }] }
  back : UnitFact :=
    { path := "back"
      types := [{ name := "Crate", isPartial := true, fields := [.of "second" "Item"] }] }

/-- The types that the fields and calls of a declaration name. -/
def namesIn (fact : TypeFact) : List String :=
  fact.fields.map (fun field => field.typeRef.name) ++
    (fact.methods.flatMap fun method => method.calledMethods).flatMap fun call =>
      call.containingType :: call.parameterTypes.map TypeRef.name

/-- **A type is made for a generic parameter**, although it is in scope for the resolver and left
alone by it: the declaration that does not list it has a link to that type, a call leads to a method
of it, and so does the link of a parameter of an external method. -/
theorem crates_captured :
    let resolver : Resolver := ⟨(ScopeIndex.build crates .dot).1, .referencesThenGlobal⟩
    let model := (runWith {} .dot crates).model
    (∀ unit ∈ [crates.front, crates.back], ∀ fact ∈ unit.types,
        "Item" ∈ (resolver.scopeOf 0 "store" unit.path fact).typeParameters) ∧
      (resolver.resolveRepository crates).1.projects.flatMap (fun project =>
          project.units.flatMap fun unit => unit.types.map namesIn) =
        [["Item", "Item", "Log", "Item"], ["Item"]] ∧
      model.types.toList.map (fun node => (node.fullName, node.isExternal)) =
        [("Crate", false), ("Item", true), ("Log", true)] ∧
      model.fields.toList.map (fun node => (node.name, node.typeLink.target)) =
        [("first", none), ("second", some ⟨1⟩)] ∧
      model.methods.toList.map (fun node => (node.name, node.containingType, node.calls)) =
        [("unpack", ⟨0⟩, [{ target := some ⟨1⟩ }, { target := some ⟨2⟩ }]), ("check", ⟨1⟩, []),
          ("write", ⟨2⟩, [])] ∧
      model.parameters.toList.map (fun node => (node.containingMethod, node.typeLink.target)) =
        [(⟨2⟩, some ⟨1⟩)] := by
  decide +kernel

end LinkConfig

end FactGraph
