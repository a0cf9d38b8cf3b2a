import FactGraph.Proofs.Linking.Resolved
import FactGraph.Proofs.Resolution.Shape
import FactGraph.Run

/-!
# Calls of sibling methods

A method that calls another method of its own type need not say whose method that is. Resolving puts
the type in, by its full name; linking reads the name again, looks it up from the project of the
call and searches the type that it finds for the overload. The type that is found is the one that
the call is in, provided that the name has one type in the project: then nothing is nearer, and its
own overload comes before those that it inherits.

The full name is read as it was written if the declarations are plain. All fragments of the type
count, in whatever files they are: the index knows the methods by the full name of the type, and the
type of the model has the methods of all of its declarations.

## Main definitions

* `Declaration.OnePartiality`: all fragments of a full name make up one type
* `CallSite.HasSibling`: the type around a call has a method that the call fits
* `CallSite.LinksSibling`: the call is linked to such a method

## Main results

* `Nearest.eq_overload`: the overload of the owner itself is the nearest one
* `Trace.lookup_declaration`: a full name that has one type in a project is looked up as that
* `link_siblings`: a call that is written without an owner is linked to a sibling that it fits
-/

namespace FactGraph

open BreadthFirst (IsDistance)

-- What a full name is read as is known without reading it.
attribute [local irreducible] TypeName.parse

/-! ## Overloads of a type itself -/

/-- The canonical names of the types of the parameters, those without a type left out. -/
def MethodFact.parameterTypes (fact : MethodFact) : List String :=
  (fact.parameters.filter ParameterFact.isTyped).map fun parameter =>
    parameter.typeRef.canonicalName

namespace ReferenceModel

variable {model : ReferenceModel} {name : String} {parameterTypes : List String} {owner : TypeId}

/-- **The overload of the owner itself is the nearest one.** -/
theorem Nearest.eq_overload {target : Option MethodId} {method : MethodId}
    (h : model.Nearest name parameterTypes owner target)
    (hmethod : model.overload? name parameterTypes owner = some method) : target = some method := by
  have hown : (model.overload? name parameterTypes owner).isSome := by rw [hmethod]; rfl
  obtain ⟨found, rfl⟩ := Option.isSome_iff_exists.1 (h.isSome_iff.2 ⟨owner, .refl, hown⟩)
  obtain ⟨type, n, hdistance, hfound, hminimal⟩ := h.minimal found rfl
  obtain rfl := Nat.le_zero.1 (hminimal owner 0 (IsDistance.start_iff.2 rfl) hown)
  obtain rfl := IsDistance.start_iff.1 hdistance
  exact hfound.symm.trans hmethod

/-- A method node has the signature of the fact that it stands for. -/
theorem Represents.hasSignature {id : MethodId} {fact : MethodFact} (h : model.Represents id fact) :
    model.hasSignature fact.name fact.parameterTypes id := by
  obtain ⟨node, found, hname, hparameters, -, -⟩ := h
  have htypes : model.parameterTypes id = fact.parameterTypes := by
    have hlabels : node.parameters.map model.parameterLabel? =
        ((fact.parameters.filter ParameterFact.isTyped).map ParameterFact.label).map some := by
      rw [hparameters, List.map_map]
      rfl
    rw [parameterTypes_eq found hlabels, List.map_map]
    rfl
  simp [ReferenceModel.hasSignature, found, hname, htypes]

/-- The overload of a type is one of its methods, if one of them has the signature. -/
theorem exists_overload {node : TypeNode} (hnode : model.type? owner = some node)
    (hdeclared : node.isExternal = false) {method : MethodId} (hmethod : method ∈ node.methods)
    (hsignature : model.hasSignature name parameterTypes method) :
    ∃ target ∈ node.methods, model.hasSignature name parameterTypes target ∧
      model.overload? name parameterTypes owner = some target := by
  obtain ⟨target, hfind⟩ := Option.isSome_iff_exists.1
    (List.find?_isSome.2 ⟨method, hmethod, hsignature⟩)
  refine ⟨target, List.mem_of_find?_eq_some hfind, List.find?_some hfind, ?_⟩
  simp [overload?, hnode, hdeclared, List.find?_append, hfind]

end ReferenceModel

/-! ## The type around a call -/

/-- **The full name is declared in the project under one partial flag only**, so its declarations
there make up one type. -/
def Declaration.OnePartiality (sep : Separator) (repo : RepositoryFact)
    (declaration : Declaration) : Prop :=
  ∀ other ∈ Linker.declarations repo, other.isNamed → other.project = declaration.project →
    other.fact.fullName sep = declaration.fact.fullName sep →
    other.fact.isPartial = declaration.fact.isPartial

namespace CallSite

variable {sep : Separator} {repo : RepositoryFact}

/-- **The type around the call has a method that the call fits**: one of its declarations has a
method with the name of the call and just its parameter types. -/
def HasSibling (site : CallSite sep repo) : Prop :=
  ∃ sibling ∈ Linker.declarations repo, sibling.isNamed ∧
    sibling.key sep = site.declaration.key sep ∧ ∃ method ∈ sibling.fact.methods,
      method.name = site.call.name ∧ method.parameterTypes = Linker.callSignature site.call

/-- **The call is linked to a sibling**: the target of its edge is one of the methods of the type
that its declaration makes up, with the name of the call and just its parameter types. -/
def LinksSibling (site : CallSite sep repo) (model : ReferenceModel) : Prop :=
  ∃ caller type target method, site.caller? model = some caller ∧
    model.type? caller.containingType = some type ∧ site.declaration.isPartOf sep type ∧
    site.target? model = some target ∧ target ∈ type.methods ∧
    model.method? target = some method ∧ method.name = site.call.name ∧
    model.parameterTypes target = Linker.callSignature site.call

end CallSite

namespace Linker

variable {linker : Linker} {repo : RepositoryFact} {fragments : List Fragment}
  {declared nested linked final : DraftState}

theorem isPartOf_iff {sep : Separator} {declaration : Declaration} {node : TypeNode} :
    declaration.isPartOf sep node ↔
      declaration.isNamed ∧ node.key? = some (declaration.key sep) := by
  rw [Declaration.isPartOf, Bool.and_eq_true, decide_eq_true_eq]

/-- A type that declarations make up is no external one. -/
theorem isExternal_of_isPartOf {s : DraftState} (hs : s.Sound) {sep : Separator}
    {declaration : Declaration} {node : TypeNode} (hnode : node ∈ s.model.types)
    (hpart : declaration.isPartOf sep node) : node.isExternal = false := by
  obtain ⟨project, hproject, -⟩ := Option.map_eq_some_iff.1 (isPartOf_iff.1 hpart).2
  rw [hs.external node hnode, hproject]
  rfl

/-- A look-up for a full name that the project declares finds a type of the project. -/
theorem lookupDeclared?_own {model : ReferenceModel} {node : TypeNode} (hnode : node ∈ model.types)
    (hdeclared : node.isExternal = false) {project : ProjectId}
    (hproject : node.project = some project) :
    ∃ own ∈ model.types, linker.lookupDeclared? model node.fullName project = some own.id ∧
      own.project = some project ∧ own.fullName = node.fullName := by
  have hmem : node ∈ declaredTypes model node.fullName :=
    List.mem_filter.2 ⟨Array.mem_toList_iff.2 hnode, by simp [hdeclared]⟩
  obtain ⟨own, hown⟩ : ∃ own, (declaredTypes model node.fullName).find?
      (fun other => other.project = some project) = some own :=
    Option.isSome_iff_exists.1 (List.find?_isSome.2 ⟨node, hmem, by simp [hproject]⟩)
  obtain ⟨hlisted, hname⟩ := List.mem_filter.1 (List.mem_of_find?_eq_some hown)
  simp only [Bool.and_eq_true, decide_eq_true_eq] at hname
  refine ⟨own, Array.mem_toList_iff.1 hlisted, ?_, by simpa using List.find?_some hown, hname.2⟩
  unfold lookupDeclared?
  split
  next hnil =>
    rw [hnil] at hmem
    cases hmem
  next first others hcons =>
    rw [hcons] at hown
    simp only [List.findSome?_cons, hown]

/-- **A full name that has one type in a project is looked up as that type.** -/
theorem Trace.lookup_declaration (h : linker.Trace repo fragments declared nested linked final)
    {declaration : Declaration} {type : TypeNode} (htype : type ∈ final.model.types)
    (hpart : declaration.isPartOf linker.separator type)
    (hone : declaration.OnePartiality linker.separator repo) :
    linker.lookupDeclared? final.model (declaration.fact.fullName linker.separator)
      declaration.project = some type.id := by
  have hdeclared := isExternal_of_isPartOf h.phases.sound htype hpart
  have hkey := (isPartOf_iff.1 hpart).2
  obtain ⟨project, hproject, hfields⟩ := Option.map_eq_some_iff.1 hkey
  simp only [Declaration.key, Prod.mk.injEq] at hfields
  obtain ⟨rfl, hname, hpartial⟩ := hfields
  obtain ⟨own, hown, hlookup, hownProject, hownName⟩ :=
    @lookupDeclared?_own linker _ _ htype hdeclared _ hproject
  rw [← hname, hlookup]
  have hownKey : own.key? = some (declaration.project, type.fullName, own.isPartial) := by
    rw [TypeNode.key?, hownProject, hownName]
    rfl
  obtain ⟨other, hother, hnamed, hotherKey⟩ := h.phases.exists_declaration hown hownKey
  simp only [Declaration.key, Prod.mk.injEq] at hotherKey
  obtain ⟨hsame, hotherName, hotherPartial⟩ := hotherKey
  have hflag := hone other hother hnamed hsame (hotherName.trans hname)
  rw [← hotherPartial, hflag, hname] at hownKey
  rw [h.phases.keysDistinct.eq hown htype hownKey hkey]

/-- **A call that names the type around it is linked to a sibling**, if there is one that it
fits. -/
theorem Trace.linksSibling {sep : Separator} (hsep : linker.separator = sep)
    (h : linker.Trace repo fragments declared nested linked final) (site : CallSite sep repo)
    (howner : TypeName.parse site.call.containingType =
      ⟨site.declaration.fact.fullName sep, [], ""⟩)
    (hname : site.declaration.fact.fullName sep ≠ "")
    (hone : site.declaration.OnePartiality sep repo) (hsibling : site.HasSibling) :
    site.LinksSibling final.model.wire := by
  subst hsep
  obtain ⟨caller, edge, hcaller, hedge, ⟨type, htype, hpart⟩, owner, node, howned, hnode,
    hnearest, -⟩ := h.exists_edge (edgeLaw_edgeOf linker) site
  obtain ⟨old, hold, rfl⟩ : ∃ old, final.model.type? caller.containingType = some old ∧
      final.model.wireType old = type := by
    rw [ReferenceModel.wire_type?] at htype
    exact Option.map_eq_some_iff.1 htype
  have hmem := ReferenceModel.mem_of_type hold
  obtain rfl : caller.containingType = owner := by
    rw [ownerOf?_wire, ownerOf?, howner] at howned
    dsimp only at howned
    rw [if_neg hname, h.lookup_declaration hmem hpart hone, Option.some_or] at howned
    rw [← h.phases.sound.numbered.type_id hold]
    exact Option.some.inj howned
  obtain rfl := Option.some.inj (htype.symm.trans hnode)
  have hdeclared := isExternal_of_isPartOf h.phases.sound hmem hpart
  obtain ⟨sibling, hsibling, hnamed, hkey, method, hmethod, hcalled, htypes⟩ := hsibling
  have hpart' : sibling.isPartOf linker.separator old :=
    isPartOf_iff.2 ⟨hnamed, hkey ▸ (isPartOf_iff.1 hpart).2⟩
  have hcall := (List.mem_filter.1 (List.mem_of_getElem? site.call_mem)).2
  obtain ⟨id, hid, hrepresents⟩ := exists_of_forall₂_right (h.types hmem hdeclared).methods
    (List.mem_filter.2 ⟨List.mem_flatMap.2 ⟨sibling.fact,
      List.mem_map_of_mem (List.mem_filter.2 ⟨hsibling, hpart'⟩), hmethod⟩,
      by rw [MethodFact.isNamed, hcalled]; exact hcall⟩)
  have hsignature := hrepresents.hasSignature
  rw [hcalled, htypes] at hsignature
  obtain ⟨target, htarget, hfits, hoverload⟩ :=
    ReferenceModel.exists_overload htype hdeclared hid hsignature
  have hedgeTarget := (hnearest hdeclared).eq_overload hoverload
  rw [ReferenceModel.hasSignature, Bool.and_eq_true, Option.any_eq_true, decide_eq_true_eq] at hfits
  obtain ⟨⟨callee, hcallee, hcalleeName⟩, hcalleeTypes⟩ := hfits
  refine ⟨caller, _, target, callee, hcaller, htype, hpart, ?_, htarget, hcallee,
    of_decide_eq_true hcalleeName, hcalleeTypes⟩
  rw [CallSite.target?, hedge, Option.bind_some, hedgeTarget]

end Linker

/-! ## Resolving and linking -/

/-- A full name has one type in a project after resolving if it had one before. -/
theorem Declaration.OnePartiality.resolve {sep : Separator} {repo resolved : RepositoryFact}
    {declares : String → String → Bool} {before after : Declaration}
    (h : before.OnePartiality sep repo) (hbefore : before.Attributed sep declares after)
    (hall : List.Forall₂ (Declaration.Attributed sep declares) (Linker.declarations repo)
      (Linker.declarations resolved)) : after.OnePartiality sep resolved := by
  intro other hother hnamed hproject hname
  obtain ⟨written, hwritten, hattributed⟩ := exists_of_forall₂_right hall hother
  rw [hattributed.isNamed] at hnamed
  rw [hattributed.project, hbefore.project] at hproject
  rw [hattributed.fullName, hbefore.fullName] at hname
  rw [hattributed.isPartial, hbefore.isPartial]
  exact h written hwritten hnamed hproject hname

/-- The named declarations are those that an index is made of. -/
theorem RepositoryFact.exists_named {repo : RepositoryFact} {declaration : Declaration}
    (hdeclaration : declaration ∈ Linker.declarations repo) (hnamed : declaration.isNamed) :
    ∃ path, (declaration.project.idx, path, declaration.fact) ∈ repo.named := by
  obtain ⟨unit, hunit, htype⟩ := List.mem_flatMap.1 hdeclaration
  obtain ⟨fact, hfact, rfl⟩ := List.mem_map.1 htype
  exact ⟨unit.fact.path, Linker.mem_named hunit hfact hnamed⟩

/-- An index knows the methods of the named declarations. -/
theorem ScopeIndex.declaresMethod_of_mem {repo : RepositoryFact} (sep : Separator)
    {declaration : Declaration} (hdeclaration : declaration ∈ Linker.declarations repo)
    (hnamed : declaration.isNamed) {method : MethodFact}
    (hmethod : method ∈ declaration.fact.methods) :
    (build repo sep).1.declaresMethod (declaration.fact.fullName sep) method.name := by
  obtain ⟨path, hentry⟩ := RepositoryFact.exists_named hdeclaration hnamed
  rw [declaresMethod, declarationsOf_eq, List.any_eq_true]
  refine ⟨_, List.mem_filter.2 ⟨List.mem_map_of_mem hentry, by simp [declarationOf]⟩, ?_⟩
  rw [List.contains_iff_mem]
  exact List.mem_map_of_mem hmethod

namespace Linker

/-- A call that is written without an owner, resolved with the index of its repository and linked
with the same index. -/
theorem exists_linksSibling {resolver : Resolver} {sep : Separator} {repo : RepositoryFact}
    (hindex : resolver.index = (ScopeIndex.build repo sep).1) (hplain : repo.IsPlain sep)
    (site : CallSite sep repo) (hblank : Text.isBlank site.call.containingType)
    (hone : site.declaration.OnePartiality sep repo) :
    ∃ after : CallSite sep (resolver.resolveRepository repo).1,
      after.method = site.method ∧ after.place = site.place ∧
      after.declaration.key sep = site.declaration.key sep ∧ after.call.name = site.call.name ∧
      (after.HasSibling → after.LinksSibling
        (link ⟨resolver.index, resolver.policy⟩ (resolver.resolveRepository repo).1).1) := by
  have hall := Resolver.attributed_declarations hindex hplain
  have hshapes := resolver.firstListings_shape repo
  generalize (resolver.resolveRepository repo).1 = resolved at hall hshapes ⊢
  obtain ⟨after, hmethod, hplace, hdeclaration, hcall⟩ := site.exists_attributed hall
  refine ⟨after, hmethod, hplace, hdeclaration.key, hcall.name, fun hsibling => ?_⟩
  obtain ⟨sibling, hmem, hnamed, hkey, method, hmethod, hcalled, -⟩ := id hsibling
  have hname : sibling.fact.fullName sep = after.declaration.fact.fullName sep :=
    congrArg (·.2.1) hkey
  have howner : after.call.containingType = after.declaration.fact.fullName sep := by
    have hdeclares := ScopeIndex.declaresMethod_of_mem sep hmem hnamed hmethod
    rw [ScopeIndex.build_congr hshapes, ← hindex, hname, hcalled, hdeclaration.fullName,
      hcall.name] at hdeclares
    rw [hcall.owner hblank hdeclares, hdeclaration.fullName]
  have hread : TypeName.Plain (after.declaration.fact.fullName sep) ∧
      after.declaration.fact.fullName sep ≠ "" := by
    obtain ⟨written, hwritten, hattributed⟩ := exists_of_forall₂_right hall hmem
    rw [hattributed.isNamed] at hnamed
    obtain ⟨path, hentry⟩ := RepositoryFact.exists_named hwritten hnamed
    rw [← hname, hattributed.fullName]
    exact (hplain.fullName hentry :)
  obtain ⟨fragments, declared, nested, linked, final, htrace⟩ :=
    draftRun_trace ⟨resolver.index, resolver.policy⟩ resolved
  have hsep : (⟨resolver.index, resolver.policy⟩ : Linker).separator = sep := by
    rw [separator, hindex, ScopeIndex.build_separator]
  rw [htrace.link]
  refine htrace.linksSibling hsep after ?_ hread.2 (hone.resolve hdeclaration hall) hsibling
  rw [howner, Resolver.parse_of_plain hread.1]

/-- **A call that is written without an owner is linked to a sibling**, if the type around it has a
method that the call fits. With whatever policy a repository of plain declarations is resolved and
linked, every call of a kept method is at its place after resolving, be it in a method, a
constructor, a destructor, an accessor or a local function at any depth. If it was written without
an owner, all declarations of the full name around it in the project are partial or none is, and
one of them has a method with the name of the call and its parameter types, by their canonical
names, then the target of the edge is a method of that type, with this name and these parameter
types. The imports of the file have no say in it. -/
theorem link_siblings (sep : Separator) (policy : FallbackPolicy) (repo : RepositoryFact)
    (hplain : repo.IsPlain sep) :
    let resolver : Resolver := ⟨(ScopeIndex.build repo sep).1, policy⟩
    let resolved := (resolver.resolveRepository repo).1
    ∀ site : CallSite sep repo, Text.isBlank site.call.containingType →
      site.declaration.OnePartiality sep repo →
      ∃ after : CallSite sep resolved, after.method = site.method ∧ after.place = site.place ∧
        after.declaration.key sep = site.declaration.key sep ∧ after.call.name = site.call.name ∧
        (after.HasSibling → after.LinksSibling (LinkConfig.process sep policy repo).model) :=
  exists_linksSibling rfl hplain

/-- A till in two files. In the first one, a local function calls a method that is in the second
one, and so does a crate, whose static members are imported. -/
def tills : RepositoryFact where
  solutions := [{
    path := "all"
    projects := [{
      path := "shop"
      units := [
        { path := "shop/open", imports := [.plain "Goods", .staticMember "Goods.Crate"]
          types := [opening] },
        { path := "shop/pack", types := [packing] },
        { path := "shop/goods", types := [item, crate] }] }] }]
where
  opening : TypeFact :=
    { name := "Till", namespaceName := "Shop", isPartial := true
      methods := [{ name := "Open", localFunctions := [again] }] }
  again : MethodFact :=
    { name := "again", calledMethods := [call] }
  call : CallFact :=
    { name := "Pack", parameterTypes := [{ name := "Item" }] }
  packing : TypeFact :=
    { name := "Till", namespaceName := "Shop", isPartial := true, methods := [pack] }
  pack : MethodFact :=
    { name := "Pack", parameters := [{ name := "item", typeRef := { name := "Goods.Item" } }] }
  item : TypeFact :=
    { name := "Item", namespaceName := "Goods" }
  crate : TypeFact :=
    { name := "Crate", namespaceName := "Goods", methods := [pack] }

/-- The call in the local function. -/
def tillCall : CallSite .dot tills where
  method := 1
  place := 0
  declaration := ⟨⟨0⟩, tills.opening⟩
  kept := ⟨.localFunction, tills.again.toMethodHead⟩
  call := tills.call
  kept_mem := rfl
  call_mem := rfl

/-- The tills are resolved. -/
def resolvedTills : RepositoryFact :=
  (Resolver.resolveRepository ⟨(ScopeIndex.build tills .dot).1, .referencesThenGlobal⟩ tills).1

/-- The call in the local function is linked to the method of the till. -/
theorem tills_siblings :
    tills.IsPlain .dot ∧ Text.isBlank tillCall.call.containingType ∧
      tillCall.declaration.OnePartiality .dot tills ∧
      ∃ after : CallSite .dot resolvedTills, after.method = 1 ∧ after.place = 0 ∧
        callSignature after.call = ["Goods.Item"] ∧
        after.LinksSibling (LinkConfig.process .dot .referencesThenGlobal tills).model := by
  have hplain : tills.IsPlain .dot := by
    have hnamed : tills.named = [(0, "shop/open", tills.opening), (0, "shop/pack", tills.packing),
      (0, "shop/goods", tills.item), (0, "shop/goods", tills.crate)] := rfl
    have hshop : Separator.dot.IsPlainSegment "Shop" := by decide
    have hgoods : Separator.dot.IsPlainSegment "Goods" := by decide
    refine ⟨by decide, ?_, ?_, ?_⟩ <;> simp only [hnamed, List.forall_mem_cons]
    · exact ⟨hshop.isPlainPath, hshop.isPlainPath, hgoods.isPlainPath, hgoods.isPlainPath, nofun⟩
    · exact ⟨nofun, nofun, nofun, nofun, nofun⟩
    · exact ⟨by decide, by decide, by decide, by decide, nofun⟩
  have hone : tillCall.declaration.OnePartiality .dot tills := by
    unfold Declaration.OnePartiality
    decide +kernel
  obtain ⟨after, hmethod, hplace, hkey, hname, hlinks⟩ :=
    link_siblings .dot .referencesThenGlobal tills hplain tillCall rfl hone
  have hsignature : callSignature after.call = ["Goods.Item"] := by
    have hresolved : ((keptFrom .dot [] (declarations resolvedTills))[tillCall.method]?.map
        fun entry => (entry.2.head.calledMethods.filter CallFact.isNamed)[tillCall.place]?.map
          callSignature) = some (some ["Goods.Item"]) := by decide +kernel
    have hkept := after.kept_mem
    have hcall := after.call_mem
    rw [hmethod] at hkept
    rw [hplace] at hcall
    rw [resolvedTills, hkept, Option.map_some, hcall] at hresolved
    exact Option.some.inj (Option.some.inj hresolved)
  have hsibling : after.HasSibling := by
    rw [CallSite.HasSibling, hkey, hname, hsignature]
    have hresolved : ∃ sibling ∈ declarations resolvedTills, sibling.isNamed ∧
        sibling.key .dot = tillCall.declaration.key .dot ∧ ∃ method ∈ sibling.fact.methods,
          method.name = tillCall.call.name ∧ method.parameterTypes = ["Goods.Item"] := by
      decide +kernel
    exact hresolved
  exact ⟨hplain, rfl, hone, after, hmethod, hplace, hsignature, hlinks hsibling⟩

end Linker

end FactGraph
