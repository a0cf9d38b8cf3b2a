import FactGraph.Proofs.Linking.FirstCall
import FactGraph.Proofs.Linking.Identity
import FactGraph.Proofs.Linking.Visibility
import FactGraph.Proofs.Resolution.Settled

/-!
# Settled names are linked to declarations

A name that was settled when it was resolved is the full name of a declaration that its project
sees. The look-up of a link run finds a type just for such names. So a link with the text of the
name is to a declared type if it was made as seen from that project.

Links of a declared type are made as seen from its project. An external type has no links of its
own, but its methods have parameters. These are linked once, when the method is made for a call, as
seen from the project of the calling method. A call of the method from another project changes
nothing about them, so there the parameter of a settled name may be of an external type.

## Main definitions

* `Resolver.Settles`: a written name is settled as a full name, without an alias
* `ReferenceModel.KeepsSettled`: settled names of a project are linked to declarations

## Main results

* `Aligned.keepsSettled`: what is linked as seen from a project keeps the names settled there
* `link_visibility`: resolving and linking see the same names
-/

namespace FactGraph

/-- **The written name is settled as the full name**: it has no generic arguments, its base is no
generic parameter and stands for the full name, not by an alias, and the full name is a plain
one. -/
structure Resolver.Settles (resolver : Resolver) (scope : ResolutionScope)
    (name fullName : String) : Prop where
  args : (TypeName.parse name).args = []
  base : (TypeName.parse name).base ∉ scope.typeParameters
  found : (resolver.lookup scope (TypeName.parse name).base).fullName? = some fullName
  direct : (resolver.lookup scope (TypeName.parse name).base).tier? ≠ some .imports ∨
    resolver.aliasMatch? scope (Text.trim (TypeName.parse name).base) = none
  plain : TypeName.Plain fullName

/-- A link with the text of a settled name is to a type with its full name. -/
theorem Resolver.Settles.base_eq {resolver : Resolver} {scope : ResolutionScope}
    {name fullName : String} (h : resolver.Settles scope name fullName) {tree : TypeName}
    (htree : tree.Parsed)
    (hrender : tree.render = (TypeName.parse (resolver.resolveTypeName scope name)).render) :
    tree.base = fullName := by
  obtain ⟨hmodifiers, hbare⟩ := TypeName.suffix_parse name
  have hname : TypeName.parse name =
      ⟨(TypeName.parse name).base, [], (TypeName.parse name).suffix⟩ := by
    have hargs := h.args
    generalize TypeName.parse name = written at hargs ⊢
    obtain ⟨base, args, suffix⟩ := written
    exact congrArg (TypeName.mk base · suffix) hargs
  rw [resolver.resolveTypeName_settled hname h.base h.found h.plain,
    TypeName.parse_plain h.plain hmodifiers hbare, TypeName.render] at hrender
  exact TypeName.parsed_base htree h.plain hmodifiers hrender

/-- **Settled names are linked to declarations**: if the links were made in the project, and one of
them has the text of a name that was settled there, it is to a declared type of the full name. -/
def ReferenceModel.KeepsSettled (model : ReferenceModel) (resolver : Resolver) (project : ProjectId)
    (links : List TypeLink) : Prop :=
  ∀ scope name fullName, scope.project = project.idx → resolver.Settles scope name fullName →
    ∀ part ∈ TypeLink.partsAll links,
      part.name = (TypeName.parse (resolver.resolveTypeName scope name)).render →
      ∀ id, part.target = some id → ∃ target, model.type? id = some target ∧
        target.isExternal = false ∧ target.fullName = fullName

namespace Linker

/-- What is linked as seen from a project keeps the names that were settled there: they are visible,
so a look-up finds their declarations. -/
theorem Aligned.keepsSettled {linker : Linker} {model : ReferenceModel} {repo : RepositoryFact}
    {sep : Separator} (h : linker.Aligned model repo sep) {project : ProjectId}
    {links : List TypeLink} (hlinks : linker.LinkedAll model project links) :
    model.KeepsSettled ⟨linker.index, linker.policy⟩ project links := by
  intro scope name fullName hproject hsettles part hpart hname id hid
  obtain ⟨tree, hparsed, hrender, htarget⟩ := hlinks part hpart
  have hbase := hsettles.base_eq hparsed (hrender.symm.trans hname)
  obtain ⟨target, hnode, hfullName, hrefers⟩ := htarget id hid
  rw [hbase] at hfullName hrefers
  refine ⟨target, hnode, ?_, hfullName⟩
  rcases hrefers with ⟨hexternal, -⟩ | ⟨-, hunseen⟩
  · exact hexternal
  · have hvisible := Resolver.lookup_visible h.index (Resolution.mem_names hsettles.found)
      hsettles.direct
    rw [Resolver.isVisible, hproject] at hvisible
    have hsome := h.lookup_isSome fullName project.idx
    rw [hvisible, hunseen] at hsome
    cases hsome

/-- **A look-up in a finished run** finds what a scan of its model finds. -/
theorem run_lookupDeclared_wire {linker : Linker} {model : ReferenceModel} {state : LinkState}
    (hmodel : state.model = model.wire) (htables : state.tables.InStep model)
    {project : ProjectId} (hproject : model.hasHandle project) (fullName : String) :
    (linker.lookupDeclared fullName project).run state =
      .ok (linker.lookupDeclared? model fullName project, state) := by
  obtain ⟨node, hnode⟩ := ReferenceModel.exists_project hproject
  have hwired : state.model.project? project = some (model.wireProject node) := by
    rw [hmodel, ReferenceModel.wire_project?, hnode]
    rfl
  exact run_lookupDeclared_of htables hnode hwired rfl fullName

end Linker

/-! ## Links of external types -/

namespace ReferenceModel

variable {model : ReferenceModel}

theorem Declared.wire {type : TypeId} (h : model.Declared type) : model.wire.Declared type := by
  obtain ⟨node, own, hnode, hown⟩ := h
  exact ⟨model.wireType node, own, by rw [wire_type?, hnode]; rfl, hown⟩

theorem MethodFrom.wire {method : MethodId} {project : ProjectId}
    (h : model.MethodFrom method project) : model.wire.MethodFrom method project := by
  obtain ⟨node, type, hnode, htype, hproject⟩ := h
  refine ⟨model.wireMethod node, model.wireType type, by rw [wire_method?, hnode]; rfl, ?_,
    hproject⟩
  rw [wire_type?]
  exact congrArg (Option.map model.wireType) htype

theorem FirstCaller.wire {caller callee : MethodId} (h : model.FirstCaller caller callee) :
    model.wire.FirstCaller caller callee := by
  have hcalls (caller : MethodId) : model.wire.Calls caller callee ↔ model.Calls caller callee := by
    simp [Calls, wire_method?, wireMethod]
  exact ⟨(hcalls caller).2 h.1, fun other hother => h.2 other ((hcalls other).1 hother)⟩

/-- What has links is a declared type, or they are those of a parameter of a method that was made
for calls. -/
theorem ExternalsApart.declared_or_parameter (h : model.ExternalsApart) (hnumbered : model.Numbered)
    (hexternal : ∀ node ∈ model.types, node.isExternal = node.project.isNone) {type : TypeId}
    {links : List TypeLink} (hlinks : model.wire.HasLinks type links) (hsome : links ≠ []) :
    model.wire.Declared type ∨ ∃ parameter ∈ model.wire.parameters, ∃ method,
      parameter.links = links ∧ model.wire.method? parameter.containingMethod = some method ∧
        method.containingType = type ∧ method.isSynthetic = true := by
  obtain ⟨place, hat⟩ := hlinks.linksAt
  cases Linker.linksAt_of_wire hat with
  | @type node hnode =>
    cases hproject : node.project with
    | some own => exact .inl (Declared.wire ⟨node, own, hnumbered.type?_id hnode, hproject⟩)
    | none =>
      have hbare := h.bare node hnode (by rw [hexternal node hnode, hproject]; rfl)
      exact absurd (by simp [TypeNode.links, hbare.baseTypes, hbare.attributes]) hsome
  | @method node hnode =>
    exact .inl ((h.methods node hnode).resolve_right fun hbare => hsome hbare.links).wire
  | field hnode => exact .inl (h.fields _ hnode).wire
  | property hnode => exact .inl (h.properties _ hnode).wire
  | @parameter node method hnode hmethod =>
    refine (h.methods method (Array.mem_of_getElem? hmethod)).imp Declared.wire fun hbare => ?_
    refine ⟨node, hnode, model.wireMethod method, rfl, ?_, rfl, hbare.isSynthetic⟩
    rw [wire_method?, hmethod]
    rfl
  | localVariable hnode hmethod => exact .inl (h.localVariables _ hnode _ hmethod).wire

end ReferenceModel

/-- **Resolving and linking see the same names.** A link run over a resolved repository gets to its
end, and in its last state a look-up finds a type just when the name is visible by the index. The
type has the name, and its project is the first one that declares the name: the own project, those
that it can reach, or all of them if the policy allows it.

So names that were settled in the project of a declared type are linked to declarations in all links
of the type. For a parameter of a synthetic method, that holds of the project of the method's first
caller. There are no other links. -/
theorem Linker.link_visibility (repo : RepositoryFact) (sep : Separator)
    (policy : FallbackPolicy) :
    let index := (ScopeIndex.build repo sep).1
    let resolver : Resolver := ⟨index, policy⟩
    let linker : Linker := ⟨index, policy⟩
    ∃ state, linker.linkRun (resolver.resolveRepository repo).1 = .ok state ∧
      (∀ fullName, ∀ project < index.projects.length, ∃ found,
        (linker.lookupDeclared fullName ⟨project⟩).run state = .ok (found, state) ∧
        found.isSome = index.isVisibleFrom fullName project policy ∧
        ∀ id ∈ found, ∃ node place, state.model.type? id = some node ∧ node.isExternal = false ∧
          node.fullName = fullName ∧ node.project = some ⟨place⟩ ∧
          (index.placesFrom policy project).find? (index.isDeclaredIn fullName) = some place) ∧
      (∀ type links, state.model.HasLinks type links → ∀ node project,
        state.model.type? type = some node → node.project = some project →
        state.model.KeepsSettled resolver project links) ∧
      (∀ parameter ∈ state.model.parameters, ∀ method,
        state.model.method? parameter.containingMethod = some method → method.isSynthetic = true →
        ∃ caller project, state.model.FirstCaller caller parameter.containingMethod ∧
          state.model.MethodFrom caller project ∧
          state.model.KeepsSettled resolver project parameter.links) ∧
      ∀ type links, state.model.HasLinks type links → links ≠ [] → state.model.Declared type ∨
        ∃ parameter ∈ state.model.parameters, ∃ method, parameter.links = links ∧
          state.model.method? parameter.containingMethod = some method ∧
          method.containingType = type ∧ method.isSynthetic = true := by
  intro index resolver linker
  obtain ⟨_, declared, nested, linked, final, htrace⟩ :=
    draftRun_trace linker (resolver.resolveRepository repo).1
  have haligned : linker.Aligned final.model repo sep := htrace.phases.aligned resolver rfl
  have hs := htrace.phases.sound
  obtain ⟨state, hrun, hmodel, -, htables⟩ := htrace.linkRun
  refine ⟨state, hrun, ?lookups, ?declared, ?parameters, ?all⟩
  all_goals rw [hmodel]
  case lookups =>
    intro fullName project hproject
    have hcount : final.model.projects.size = index.projects.length := by
      simpa [ReferenceModel.paths, index, ScopeIndex.length_projects] using
        congrArg List.length haligned.paths
    have hhandle : final.model.hasHandle (⟨project⟩ : ProjectId) :=
      decide_eq_true (hproject.trans_eq hcount.symm)
    refine ⟨_, run_lookupDeclared_wire hmodel htables hhandle fullName,
      haligned.lookup_isSome fullName project, fun id hid => ?_⟩
    obtain ⟨node, place, hnode, hfound⟩ := haligned.lookup_found hid
    exact ⟨final.model.wireType node, place, by rw [ReferenceModel.wire_type?, hnode]; rfl, hfound⟩
  case declared =>
    intro type links hlinks node project hnode hproject
    obtain ⟨own, place, hown, hplace, hlinked⟩ := htrace.phases.linksFrom hlinks
    obtain rfl := Option.some.inj (hown.symm.trans hnode)
    obtain rfl := hplace project hproject
    exact haligned.wire.keepsSettled hlinked
  case parameters =>
    intro parameter hparameter method hmethod hsynthetic
    rw [ReferenceModel.wire_method?] at hmethod
    obtain ⟨old, hold, rfl⟩ := Option.map_eq_some_iff.1 hmethod
    obtain ⟨type, -, hsame, hlater⟩ := htrace.isSynthetic_eq hold
    obtain ⟨caller, project, hfirst, hfrom, hlinked⟩ := htrace.madeByCalls _
      (hlater (hsame.symm.trans hsynthetic)) (ReferenceModel.hasHandle_of_method hold)
    exact ⟨caller, project, hfirst.wire, hfrom.wire,
      haligned.wire.keepsSettled (hlinked parameter hparameter rfl).wire⟩
  case all =>
    intro type links hlinks hsome
    exact htrace.phases.externalsApart.declared_or_parameter hs.numbered hs.external hlinks hsome

/-- Two projects that write items to a log. The items are declared in the second one, which the
first one does not refer to. -/
def logs : RepositoryFact where
  solutions := [{
    path := "all"
    projects := [
      { path := "attic", units := [{ path := "attic/box", types := [box] }] },
      { path := "shop", units := [{ path := "shop/cart", types := [item, cart] }] }] }]
where
  box : TypeFact :=
    { name := "Box", namespaceName := "Attic", fields := [.of "first" "Lib.Item"]
      methods := [.withCall (.named "store") (.of "Log" "write" ["Lib.Item"])] }
  item : TypeFact :=
    { name := "Item", namespaceName := "Lib" }
  cart : TypeFact :=
    { name := "Cart", namespaceName := "Lib"
      methods := [.withCall (.named "add") (.of "Log" "write" ["Item"])] }

/-- **A call leads to a parameter that was linked for another project.** The shop's call names an
item that is settled there. It leads to the method that was made for the call in the attic, so the
item of the parameter is an external type. -/
theorem logs_shared :
    let index := (ScopeIndex.build logs .dot).1
    let resolver : Resolver := ⟨index, .referencesOnly⟩
    let linker : Linker := ⟨index, .referencesOnly⟩
    let model := (linker.link (resolver.resolveRepository logs).1).1
    resolver.Settles (resolver.scopeOf 1 "shop" "shop/cart" logs.cart) "Item" "Lib.Item" ∧
      ∃ caller parameter, model.MethodFrom caller ⟨1⟩ ∧
        model.Calls caller parameter.containingMethod ∧ parameter ∈ model.parameters ∧
        ¬model.KeepsSettled resolver ⟨1⟩ parameter.links := by
  intro index resolver linker model
  have hsettles : resolver.Settles (resolver.scopeOf 1 "shop" "shop/cart" logs.cart) "Item"
      "Lib.Item" := by
    constructor
    all_goals decide +kernel
  -- The shop's call is that of the only method with a parameter, and its item the fourth type.
  obtain ⟨hcaller, hshop, hwritten, hexternal⟩ :
      (model.method? ⟨1⟩).map (fun node => (node.containingType, node.calls)) =
          some (⟨2⟩, [{ target := some ⟨2⟩ }]) ∧
        (model.type? ⟨2⟩).map TypeNode.project = some (some ⟨1⟩) ∧
        model.parameters[0]?.map (fun node =>
            (node.containingMethod, node.typeLink.name, node.typeLink.target)) =
          some (⟨2⟩, "Lib.Item", some ⟨3⟩) ∧
        (model.type? ⟨3⟩).map TypeNode.isExternal = some true := by decide +kernel
  obtain ⟨caller, hget, hread⟩ := Option.map_eq_some_iff.1 hcaller
  obtain ⟨htype, hcalls⟩ := Prod.mk.inj hread
  obtain ⟨type, hgetType, hproject⟩ := Option.map_eq_some_iff.1 hshop
  obtain ⟨parameter, hgetParameter, hread⟩ := Option.map_eq_some_iff.1 hwritten
  obtain ⟨hmethod, hlink⟩ := Prod.mk.inj hread
  obtain ⟨hname, htarget⟩ := Prod.mk.inj hlink
  refine ⟨hsettles, ⟨1⟩, parameter, ⟨caller, type, hget, htype ▸ hgetType, hproject⟩,
    ⟨caller, hget, by simp [hcalls, hmethod]⟩, Array.mem_of_getElem? hgetParameter,
    fun hkeeps => ?_⟩
  have hpart : parameter.typeLink ∈ TypeLink.partsAll parameter.links :=
    TypeLink.mem_partsAll.2 ⟨_, List.mem_cons_self, TypeLink.mem_parts_self _⟩
  have hresolved : "Lib.Item" = (TypeName.parse (resolver.resolveTypeName
      (resolver.scopeOf 1 "shop" "shop/cart" logs.cart) "Item")).render := by decide +kernel
  obtain ⟨target, hnode, hdeclared, -⟩ := hkeeps _ "Item" "Lib.Item" rfl hsettles _ hpart
    (hname.trans hresolved) ⟨3⟩ htarget
  rw [hnode, Option.map_some, hdeclared] at hexternal
  cases hexternal

end FactGraph
