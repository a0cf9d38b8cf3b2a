import FactGraph.Metrics.Complexity
import FactGraph.Proofs.Linking.Synthetic
import Mathlib.Algebra.GroupWithZero.Nat
import Mathlib.Algebra.Order.BigOperators.Group.List
import Mathlib.Algebra.Order.Group.Nat

/-!
# Complexity is measured once, and exactly

The statistics of a list of complexities are made in words: the sum is added up in 64 bits, bounded
by what fits into 32, and the average is cut down to 32. As long as there are fewer than 2 ^ 32
complexities, each of which fits into 32 bits, nothing is ever lost on the way: the sum in 64 bits
is the true sum, and the average lies between the smallest and the largest complexity, so that it
fits. Only the sum that is reported can be at its bound, and the average is exact even then.

In a linked model every method that is not synthetic is in a declared type, and a declared type is
in one project. So the projects part these methods among each other, and so do the types.

## Main definitions

* `ReferenceModel.measured`: the methods that have a complexity
* `ReferenceModel.measuredIn`, `ReferenceModel.measuredOf`: those of a project, and those of a type
* `ReferenceModel.PartedBy`: statistics of the parts that the measured methods fall into

## Main results

* `toNat_total`: the sum in 64 bits is the true sum
* `ofValues?_exact`: the statistics of complexities of 32 bits
* `perm_flatMap_filter`: a list falls into the parts of its keys
* `link_complexity`: the projects, and the types, of a linked model part its methods
-/

namespace FactGraph

/-! ## Statistics -/

namespace ComplexitySummary

theorem toNat_foldl_add {values : List Nat} {start : UInt64}
    (h : start.toNat + values.sum < 2 ^ 64) :
    (values.foldl (fun total value => total + UInt64.ofNat value) start).toNat =
      start.toNat + values.sum := by
  induction values generalizing start with
  | nil => simp
  | cons value values ih =>
    rw [List.sum_cons] at h
    have hstep : (start + UInt64.ofNat value).toNat = start.toNat + value := by
      rw [UInt64.toNat_add, UInt64.toNat_ofNat', Nat.add_mod_mod, Nat.mod_eq_of_lt (by omega)]
    rw [List.foldl_cons, ih (by omega), hstep, List.sum_cons, Nat.add_assoc]

/-- **The sum in 64 bits is the true sum**, if that fits. -/
theorem toNat_total {values : List Nat} (h : values.sum < 2 ^ 64) :
    (total values).toNat = values.sum := by
  rw [total, toNat_foldl_add (by simpa using h)]
  simp

/-- Fewer than 2 ^ 32 complexities of 32 bits have a sum of 64 bits. -/
theorem sum_lt {values : List Nat} (hvalues : ∀ value ∈ values, value < 2 ^ 32)
    (hlength : values.length < 2 ^ 32) : values.sum < 2 ^ 64 := by
  have hsum : values.sum ≤ values.length * (2 ^ 32 - 1) :=
    List.sum_le_card_nsmul values _ fun value hvalue => Nat.le_sub_one_of_lt (hvalues value hvalue)
  have hbound : values.length * (2 ^ 32 - 1) ≤ 2 ^ 32 * (2 ^ 32 - 1) :=
    Nat.mul_le_mul_right _ hlength.le
  omega

/-- The average lies between any two bounds of the values. -/
theorem average_between {values : List Nat} (hne : values ≠ []) {low high : Nat}
    (hlow : ∀ value ∈ values, low ≤ value) (hhigh : ∀ value ∈ values, value ≤ high) :
    low ≤ values.sum / values.length ∧ values.sum / values.length ≤ high := by
  have hpos : 0 < values.length := List.length_pos_iff.2 hne
  have hle : values.length * low ≤ values.sum := List.card_nsmul_le_sum values low hlow
  have hge : values.sum ≤ values.length * high := List.sum_le_card_nsmul values high hhigh
  exact ⟨(Nat.le_div_iff_mul_le hpos).2 (Nat.mul_comm low _ ▸ hle),
    Nat.div_le_of_le_mul hge⟩

/-- **The statistics of complexities are exact**, if there are fewer than 2 ^ 32 and each has 32
bits: the average is that of the true sum, between the least and the greatest complexity, and only
the sum that is reported is bounded. -/
theorem ofValues?_exact {values : List Nat} (hne : values ≠ [])
    (hvalues : ∀ value ∈ values, value < 2 ^ 32) (hlength : values.length < 2 ^ 32) :
    ∃ summary, ofValues? values = some summary ∧
      values.max? = some summary.max ∧ values.min? = some summary.min ∧
      summary.avg = values.sum / values.length ∧
      summary.min ≤ summary.avg ∧ summary.avg ≤ summary.max ∧
      summary.sum = Nat.min values.sum (2 ^ 32 - 1) := by
  obtain ⟨value, others, rfl⟩ := List.exists_cons_of_ne_nil hne
  have hmax : (value :: others).max? = some (others.foldl Nat.max value) := List.max?_cons'
  have hmin : (value :: others).min? = some (others.foldl Nat.min value) := List.min?_cons'
  obtain ⟨hmaxmem, hgreatest⟩ := List.max?_eq_some_iff.1 hmax
  obtain ⟨-, hleast⟩ := List.min?_eq_some_iff.1 hmin
  obtain ⟨hlow, hhigh⟩ := average_between hne hleast hgreatest
  have htotal := toNat_total (sum_lt hvalues hlength)
  -- The average is no more than the greatest value, so it is not cut down.
  have havg : (total (value :: others) / UInt64.ofNat (others.length + 1)).toUInt32.toNat =
      (value :: others).sum / (value :: others).length := by
    have hfits := Nat.lt_of_le_of_lt hhigh (hvalues _ hmaxmem)
    rw [List.length_cons] at hlength hfits ⊢
    rw [UInt64.toNat_toUInt32, UInt64.toNat_div, htotal, UInt64.toNat_ofNat',
      Nat.mod_eq_of_lt (by omega : others.length + 1 < 2 ^ 64), Nat.mod_eq_of_lt hfits]
  refine ⟨_, rfl, hmax, hmin, havg, ?_, ?_, ?_⟩
  · rw [havg]
    exact hlow
  · rw [havg]
    exact hhigh
  · rw [htotal]
    rfl

end ComplexitySummary

/-! ## Parts -/

/-- **A list falls into the parts of its keys**: every element stands in the part of its key, and
in no other one. -/
theorem perm_flatMap_filter {α κ : Type} [DecidableEq κ] {keys : List κ} (hkeys : keys.Nodup)
    {key? : α → Option κ} {xs : List α} (h : ∀ x ∈ xs, ∃ key ∈ keys, key? x = some key) :
    (keys.flatMap fun key => xs.filter fun x => key? x = some key).Perm xs := by
  induction keys generalizing xs with
  | nil =>
    obtain rfl : xs = [] := List.eq_nil_iff_forall_not_mem.2 fun x hx => by simpa using h x hx
    exact .refl []
  | cons first keys ih =>
    obtain ⟨hfirst, hnodup⟩ := List.nodup_cons.1 hkeys
    have hothers : ∀ key ∈ keys, (xs.filter fun x => key? x = some key) =
        (xs.filter fun x => !decide (key? x = some first)).filter fun x => key? x = some key := by
      intro key hkey
      rw [List.filter_filter]
      refine List.filter_congr fun x _ => ?_
      have hne : key ≠ first := ne_of_mem_of_not_mem hkey hfirst
      by_cases hx : key? x = some key <;> simp [hx, hne]
    have hrest : ∀ x ∈ xs.filter fun x => !decide (key? x = some first),
        ∃ key ∈ keys, key? x = some key := by
      intro x hx
      obtain ⟨hmem, hnot⟩ := List.mem_filter.1 hx
      obtain ⟨key, hkey, heq⟩ := h x hmem
      refine ⟨key, (List.mem_cons.1 hkey).resolve_left ?_, heq⟩
      rintro rfl
      simp [heq] at hnot
    rw [List.flatMap_cons, List.flatMap_congr hothers]
    exact ((ih hnodup hrest).append_left _).trans (List.filter_append_perm _ xs)

namespace ReferenceModel

variable (model : ReferenceModel)

/-- The methods that have a complexity. -/
def measured : List MethodNode :=
  model.methods.toList.filter fun method => !method.isSynthetic

/-- The project of the type that a method is in. -/
def projectOfMethod? (method : MethodNode) : Option ProjectId :=
  (model.type? method.containingType).bind TypeNode.project

/-- The methods of a project that have a complexity. -/
def measuredIn (id : ProjectId) : List MethodNode :=
  model.measured.filter fun method => model.projectOfMethod? method = some id

/-- The methods of a type that have a complexity, at whatever depth they are declared. -/
def measuredOf (id : TypeId) : List MethodNode :=
  model.measured.filter fun method => method.containingType = id

/-- **The measured methods fall into parts**, and these are statistics of the parts, in their
order. -/
structure PartedBy (summaries : List (Option ComplexitySummary))
    (parts : List (List MethodNode)) : Prop where
  summaries : summaries = parts.map fun part =>
    ComplexitySummary.ofValues? (part.map MethodNode.cyclomaticComplexity)
  methods : parts.flatten.Perm model.measured
  complexities : (parts.flatMap fun part => part.map MethodNode.cyclomaticComplexity).Perm
    (model.measured.map MethodNode.cyclomaticComplexity)

variable {model}

theorem PartedBy.of_methods {α : Type} {xs : List α} {summary : α → Option ComplexitySummary}
    {part : α → List MethodNode}
    (hsummary : ∀ x ∈ xs, summary x =
      ComplexitySummary.ofValues? ((part x).map MethodNode.cyclomaticComplexity))
    (h : (xs.flatMap part).Perm model.measured) :
    model.PartedBy (xs.map summary) (xs.map part) where
  summaries := by
    rw [List.map_map]
    exact List.map_congr_left hsummary
  methods := by rwa [← List.flatMap_def]
  complexities := by
    have hmap := h.map MethodNode.cyclomaticComplexity
    rwa [List.map_flatMap, ← List.flatMap_map] at hmap

theorem complexities_eq (types : List TypeId) :
    model.complexities types =
      (model.measured.filter fun method => types.contains method.containingType).map
        MethodNode.cyclomaticComplexity := by
  rw [complexities, measured, List.filter_filter]
  simp only [Bool.and_comm]

/-- The statistics of a type are those of its methods. -/
theorem typeComplexity?_eq (id : TypeId) :
    model.typeComplexity? id =
      ComplexitySummary.ofValues? ((model.measuredOf id).map MethodNode.cyclomaticComplexity) := by
  rw [typeComplexity?, complexities_eq, measuredOf]
  simp

/-- The types of a project are those that say so. -/
theorem Numbered.mem_typesOfProject (h : model.Numbered) {type : TypeId} {id : ProjectId} :
    type ∈ model.typesOfProject id ↔ (model.type? type).bind TypeNode.project = some id := by
  simp only [typesOfProject, List.mem_map, List.mem_filter, Array.mem_toList_iff,
    decide_eq_true_eq, Option.bind_eq_some_iff]
  constructor
  · rintro ⟨node, ⟨hnode, hproject⟩, rfl⟩
    exact ⟨node, h.type?_id hnode, hproject⟩
  · rintro ⟨node, hnode, hproject⟩
    exact ⟨node, ⟨mem_of_type hnode, hproject⟩, h.type_id hnode⟩

/-- The statistics of a project are those of the methods in its types. -/
theorem Numbered.projectComplexity?_eq (h : model.Numbered) (id : ProjectId) :
    model.projectComplexity? id =
      ComplexitySummary.ofValues? ((model.measuredIn id).map MethodNode.cyclomaticComplexity) := by
  have hcontains (method : MethodNode) :
      (model.typesOfProject id).contains method.containingType =
        decide (model.projectOfMethod? method = some id) := by
    rw [Bool.eq_iff_iff, List.contains_iff_mem, h.mem_typesOfProject, decide_eq_true_iff,
      projectOfMethod?]
  rw [projectComplexity?, complexities_eq, measuredIn]
  simp only [hcontains]

/-- **The projects part the measured methods**, if each of these is in a type of some project. -/
theorem Numbered.partedBy_projects (h : model.Numbered) (hclosed : model.Closed)
    (hdeclared : ∀ method ∈ model.measured, ∃ type own,
      model.type? method.containingType = some type ∧ type.project = some own) :
    model.PartedBy (model.projects.toList.map fun project => model.projectComplexity? project.id)
      (model.projects.toList.map fun project => model.measuredIn project.id) := by
  have hcovered : ∀ method ∈ model.measured, ∃ key ∈ model.ids .project,
      model.projectOfMethod? method = some key := by
    intro method hmethod
    obtain ⟨type, own, htype, hown⟩ := hdeclared method hmethod
    refine ⟨own, h.mem_ids.2 (hclosed.hasHandle_of_type (mem_of_type htype) ?_), ?_⟩
    · simp [TypeNode.handles, TypeNode.memberHandles, hown]
    · rw [projectOfMethod?, htype, Option.bind_some, hown]
  have hperm := perm_flatMap_filter (h.nodup .project) hcovered
  rw [ids, List.flatMap_map] at hperm
  exact .of_methods (fun project _ => h.projectComplexity?_eq project.id) hperm

/-- **The types part the measured methods**, each of which is in one. -/
theorem Numbered.partedBy_types (h : model.Numbered) (hclosed : model.Closed) :
    model.PartedBy (model.types.toList.map fun type => model.typeComplexity? type.id)
      (model.types.toList.map fun type => model.measuredOf type.id) := by
  have hcovered : ∀ method ∈ model.measured, ∃ key ∈ model.ids .type,
      some method.containingType = some key := by
    intro method hmethod
    have hmem := Array.mem_toList_iff.1 (List.mem_filter.1 hmethod).1
    refine ⟨_, h.mem_ids.2 (hclosed.hasHandle_of_method hmem ?_), rfl⟩
    simp [MethodNode.handles, MethodNode.memberHandles]
  have hperm := perm_flatMap_filter (h.nodup .type) hcovered
  rw [ids, List.flatMap_map] at hperm
  simp only [Option.some.injEq] at hperm
  exact .of_methods (fun type _ => typeComplexity?_eq type.id) hperm

end ReferenceModel

namespace Linker

/-- In a linked model, every method that has a complexity is in a type of some project. -/
theorem Trace.exists_project {linker : Linker} {repo : RepositoryFact} {fragments : List Fragment}
    {declared nested linked final : DraftState}
    (h : linker.Trace repo fragments declared nested linked final) {method : MethodNode}
    (hmethod : method ∈ final.model.wire.measured) :
    ∃ type own, final.model.wire.type? method.containingType = some type ∧
      type.project = some own := by
  have hs := h.phases.sound
  obtain ⟨hmem, hplain⟩ := List.mem_filter.1 hmethod
  obtain ⟨old, hold, rfl⟩ := Array.mem_map.1 (Array.mem_toList_iff.1 hmem)
  obtain ⟨type, htype, hsynthetic, -⟩ := h.isSynthetic_eq (hs.numbered.method?_id hold)
  -- The types of such methods are not external, and only external types have no project.
  have hdeclared : type.project.isNone = false := by
    rw [← hs.external type (ReferenceModel.mem_of_type htype), ← hsynthetic]
    simpa [ReferenceModel.wireMethod] using hplain
  obtain ⟨own, hown⟩ := Option.isSome_iff_exists.1 (by simpa using hdeclared)
  refine ⟨final.model.wireType type, own, ?_, hown⟩
  rw [ReferenceModel.wire_type?]
  exact congrArg (Option.map final.model.wireType) htype

/-- **Complexity is measured once, and exactly.** With whatever index and policy a repository is
linked, the statistics of the projects are those of the parts that the methods that are not
synthetic fall into, every one in the part of one project, and the same holds for the types. The
statistics of fewer than 2 ^ 32 complexities, each of 32 bits, have the average of the true sum,
rounded down, between the least and the greatest complexity; their sum is the true one, or the
greatest number of 32 bits if that is less. -/
theorem link_complexity (linker : Linker) (repo : RepositoryFact) :
    let model := (linker.link repo).1
    model.PartedBy (model.projects.toList.map fun project => model.projectComplexity? project.id)
      (model.projects.toList.map fun project => model.measuredIn project.id) ∧
    model.PartedBy (model.types.toList.map fun type => model.typeComplexity? type.id)
      (model.types.toList.map fun type => model.measuredOf type.id) ∧
    ∀ values : List Nat, values ≠ [] → (∀ value ∈ values, value < 2 ^ 32) →
      values.length < 2 ^ 32 →
      ∃ summary, ComplexitySummary.ofValues? values = some summary ∧
        values.max? = some summary.max ∧ values.min? = some summary.min ∧
        summary.avg = values.sum / values.length ∧
        summary.min ≤ summary.avg ∧ summary.avg ≤ summary.max ∧
        summary.sum = min values.sum (2 ^ 32 - 1) := by
  obtain ⟨fragments, declared, nested, linked, final, htrace⟩ := draftRun_trace linker repo
  rw [htrace.link]
  intro model
  have hs := htrace.phases.sound
  have hnumbered : model.Numbered := ReferenceModel.wire_numbered hs.numbered
  have hclosed : model.Closed := ReferenceModel.wire_closed hs.numbered hs.closed
  exact ⟨hnumbered.partedBy_projects hclosed fun _ => htrace.exists_project,
    hnumbered.partedBy_types hclosed, fun _ => ComplexitySummary.ofValues?_exact⟩

/-- The sum of these complexities is more than 32 bits hold, and their average is exact. -/
theorem link_complexity_bounded :
    ∃ summary, ComplexitySummary.ofValues? [2 ^ 32 - 1, 2 ^ 32 - 1, 4] = some summary ∧
      summary.sum = 4294967295 ∧ summary.avg = 2863311531 := by
  have hexact := (link_complexity ⟨.initial .dot, .referencesOnly⟩ {}).2.2
    [2 ^ 32 - 1, 2 ^ 32 - 1, 4] (by simp) (by decide) (by decide)
  obtain ⟨summary, hsummary, -, -, havg, -, -, hsum⟩ := hexact
  exact ⟨summary, hsummary, hsum.trans (by decide), havg.trans (by decide)⟩

end Linker

end FactGraph
