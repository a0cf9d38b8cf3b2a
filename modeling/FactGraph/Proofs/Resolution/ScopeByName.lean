import FactGraph.Proofs.Name.Path
import FactGraph.Proofs.Resolution.Agreement
import FactGraph.Proofs.Scope.Index

/-!
# A scope that is given by names

What is around a name can be asked in two ways. While a project is resolved, the scope of a
declaration is built from the declaration itself: its namespace and its enclosing types are put
together, and the names around them are taken as long as they go beyond the namespace. Elsewhere a
place is given by names only, a namespace and the full name of a type, and the names around the full
name are taken in the same way.

The two start from different names, and neither knows where the other one has put its separators. A
namespace may be padded, malformed or written in any alphabet, a separator may overlap with itself,
and how far to go is decided by comparing sizes of names that need not be parts of each other. Still
both arrive at the same types, under one condition: the name of the declaration, without its generic
parameters, has no character of the separator. Then the last separator of the full name is the one
that was put before that name, and what stands before it is where the other way starts.

## Main results

* `Separator.outwardBeyond_of_splitLast?`: the names around a name, by its last separator
* `enclosingChain_eq`: the types around a declaration are read off its full name
* `scopeAt?_fullName`: the two scopes are the same, and names are looked up in them alike
-/

namespace FactGraph

/-! ## Taking a name apart -/

theorem Text.eq_of_splitLast? {pattern cs front back : List Char}
    (h : splitLast? pattern cs = some (front, back)) : cs = front ++ pattern ++ back := by
  induction cs generalizing front with
  | nil => cases h
  | cons c cs ih =>
    rw [splitLast?] at h
    split at h
    next inner rest hsplit =>
      obtain ⟨rfl, rfl⟩ := Prod.mk.inj (Option.some.inj h)
      rw [ih hsplit, List.cons_append, List.cons_append]
    next =>
      obtain ⟨rest, hrest, heq⟩ := Option.map_eq_some_iff.1 h
      obtain ⟨rfl, rfl⟩ := Prod.mk.inj heq
      exact (List.isPrefixOf?_eq_some_iff_append_eq.1 hrest).symm

namespace Separator

variable {sep : Separator} {name front back : String} {size : Nat}

theorem eq_of_splitLast? (h : sep.splitLast? name = some (front, back)) :
    name = front ++ sep.text ++ back := by
  obtain ⟨⟨front, back⟩, hsplit, heq⟩ := Option.map_eq_some_iff.1 h
  obtain ⟨rfl, rfl⟩ := Prod.mk.inj heq
  rw [← String.toList_inj, Text.eq_of_splitLast? hsplit]
  simp

/-- What stands before a separator is shorter, in characters and in bytes. -/
theorem lt_of_splitLast? (h : sep.splitLast? name = some (front, back)) :
    front.length < name.length ∧ front.utf8ByteSize < name.utf8ByteSize := by
  have hlength := Nat.pos_of_ne_zero (mt String.length_eq_zero_iff.1 sep.text_ne)
  have hbytes := Nat.pos_of_ne_zero (mt String.utf8ByteSize_eq_zero_iff.1 sep.text_ne)
  rw [eq_of_splitLast? h]
  simp only [String.length_append, String.utf8ByteSize_append]
  omega

/-- Steps behind the length of a name are never made. -/
theorem outwardWithin_eq {steps : Nat} (hsteps : name.length ≤ steps) :
    sep.outwardWithin steps name = sep.outward name := by
  induction hlength : name.length using Nat.strong_induction_on generalizing name steps with
  | _ length ih =>
    subst hlength
    cases hsplit : sep.splitLast? name with
    | none =>
      have halone (steps : Nat) : sep.outwardWithin steps name = [name] := by
        cases steps with
        | zero => rfl
        | succ steps => rw [outwardWithin, hsplit]
      rw [outward, halone, halone]
    | some parts =>
      obtain ⟨front, back⟩ := parts
      obtain ⟨hshorter, -⟩ := lt_of_splitLast? hsplit
      have hstep {steps : Nat} (hsteps : name.length ≤ steps) :
          sep.outwardWithin steps name = name :: sep.outward front := by
        obtain ⟨fewer, rfl⟩ : ∃ fewer, steps = fewer + 1 := ⟨steps - 1, by omega⟩
        rw [outwardWithin, hsplit]
        exact congrArg (name :: ·) (ih front.length hshorter (by omega) rfl)
      rw [outward, hstep hsteps, hstep (Nat.le_refl _)]

theorem outward_of_splitLast?_none (h : sep.splitLast? name = none) :
    sep.outward name = [name] := by
  rw [← outwardWithin_eq (Nat.le_succ _), outwardWithin, h]

theorem outward_of_splitLast? (h : sep.splitLast? name = some (front, back)) :
    sep.outward name = name :: sep.outward front := by
  obtain ⟨hshorter, -⟩ := lt_of_splitLast? h
  rw [← outwardWithin_eq (Nat.le_succ _), outwardWithin, h]
  exact congrArg (name :: ·) (outwardWithin_eq (by omega))

/-- **The names around a name, by its last separator**: what stands before it comes next, with the
names around that, if it is still large enough. -/
theorem outwardBeyond_of_splitLast? (h : sep.splitLast? name = some (front, back)) :
    sep.outwardBeyond size name =
      name :: if size < front.utf8ByteSize then sep.outwardBeyond size front else [] := by
  obtain ⟨names, hnames⟩ := sep.outward_eq_cons front
  rw [outwardBeyond, outward_of_splitLast? h, List.tail_cons, hnames]
  by_cases hlarge : size < front.utf8ByteSize
  · rw [if_pos hlarge, List.takeWhile_cons_of_pos (by simpa using hlarge), outwardBeyond, hnames,
      List.tail_cons]
  · rw [if_neg hlarge, List.takeWhile_cons_of_neg (by simpa using hlarge)]

/-- A name has no names around it that are larger than what is before its last separator. -/
theorem outwardBeyond_eq_singleton
    (h : ∀ front back, sep.splitLast? name = some (front, back) → front.utf8ByteSize ≤ size) :
    sep.outwardBeyond size name = [name] := by
  cases hsplit : sep.splitLast? name with
  | none =>
    rw [outwardBeyond, outward_of_splitLast?_none hsplit, List.tail_cons, List.takeWhile_nil]
  | some parts =>
    obtain ⟨front, back⟩ := parts
    have hsmall := h front back hsplit
    rw [outwardBeyond_of_splitLast? hsplit, if_neg (by omega)]

end Separator

/-! ## Declarations -/

namespace TypeFact

variable {sep : Separator} {fact : TypeFact}

/-- **Beyond the namespace, the names around a full name** are the full names of the enclosing
types. -/
theorem outwardBeyond_fullName (hname : ∀ c ∈ fact.simpleName.toList, c ∉ sep.text.toList) :
    sep.outwardBeyond fact.trimmedNamespace.utf8ByteSize (fact.fullName sep) =
      fact.fullName sep :: match fact.outerName? with
        | some outer => sep.outwardBeyond fact.trimmedNamespace.utf8ByteSize
            (sep.join fact.trimmedNamespace outer)
        | none => [] := by
  cases houter : fact.outerName? with
  | some outer =>
    -- The last separator is the one behind the enclosing types, which go beyond the namespace.
    have hne : outer ≠ "" := by simpa using (Option.filter_eq_some_iff.1 houter).2
    have hsplit := sep.splitLast?_append (sep.join fact.trimmedNamespace outer) hname
    rw [← fullName_of_outer houter] at hsplit
    rw [Separator.outwardBeyond_of_splitLast? hsplit, if_pos (sep.utf8ByteSize_lt_join _ hne)]
  | none =>
    have hrelative : fact.relativeName sep = fact.simpleName := by rw [relativeName, houter]
    apply Separator.outwardBeyond_eq_singleton
    intro front back hsplit
    rw [fullName, hrelative] at hsplit
    by_cases hspace : fact.trimmedNamespace = ""
    · rw [hspace, Separator.empty_join, Separator.splitLast?_of_not_mem hname] at hsplit
      cases hsplit
    by_cases hsimple : fact.simpleName = ""
    · -- Nothing is put behind the namespace, so what is before its last separator is smaller.
      rw [hsimple, Separator.join_empty] at hsplit
      exact Nat.le_of_lt (Separator.lt_of_splitLast? hsplit).2
    · -- The last separator is the one behind the namespace.
      rw [sep.join_of_ne hspace hsimple, Separator.splitLast?_append _ hname] at hsplit
      obtain ⟨rfl, -⟩ := Prod.mk.inj (Option.some.inj hsplit)
      exact Nat.le_refl _

end TypeFact

/-! ## Scopes -/

namespace Resolver

/-- **The types around a declaration** are read off its full name. -/
theorem enclosingChain_eq (resolver : Resolver) {fact : TypeFact}
    (hname : ∀ c ∈ fact.simpleName.toList, c ∉ resolver.separator.text.toList) :
    resolver.enclosingChain fact = resolver.separator.outwardBeyond
      fact.trimmedNamespace.utf8ByteSize (fact.fullName resolver.separator) := by
  rw [TypeFact.outwardBeyond_fullName hname, enclosingChain]
  cases fact.outerName? with
  | none => rfl
  | some outer => rfl

/-- **The scope that is given by names is the one that a declaration is resolved in**, but for the
generic parameters, if the name of the declaration has no character of the separator. It is given by
the namespace of the declaration, without blanks at its ends, and by its full name. So whatever is
looked up, with or without the aliases of the file and with or without a memory, the outcome is the
same in both. -/
theorem scopeAt?_fullName (resolver : Resolver) {projectPath : String} {project : Nat}
    (hproject : resolver.index.projectIndex? projectPath = some project) (filePath : String)
    {fact : TypeFact}
    (hname : ∀ c ∈ fact.simpleName.toList, c ∉ resolver.separator.text.toList) :
    ∃ scope, resolver.scopeAt? projectPath filePath fact.trimmedNamespace
        (some (fact.fullName resolver.separator)) = some scope ∧
      scope = { resolver.scopeOf project projectPath filePath fact with typeParameters := [] } ∧
      ∀ name,
        resolver.lookup scope name =
          resolver.lookup (resolver.scopeOf project projectPath filePath fact) name ∧
        resolver.lookupWithoutAliases scope name =
          resolver.lookupWithoutAliases (resolver.scopeOf project projectPath filePath fact) name ∧
        resolver.lookupOnce scope name =
          resolver.lookupOnce (resolver.scopeOf project projectPath filePath fact) name := by
  generalize hown : resolver.scopeOf project projectPath filePath fact = own
  refine ⟨{ own with typeParameters := [] }, ?_, rfl, fun name => ?_⟩
  · rw [← hown, scopeOf, enclosingChain_eq resolver hname, scopeAt?, hproject]
    rfl
  · have halike : SeesAlike resolver resolver own { own with typeParameters := [] } :=
      .of_surroundings rfl rfl rfl
    refine ⟨halike.lookup name, halike.lookupWithoutAliases name, ?_⟩
    rw [lookupOnce, lookupOnce, halike.lookup]
    rfl

/-- A quarry with a seam inside of a pit. The separator is made of two characters, and one more of
them stands at the end of the namespace, which is padded and no plain text. -/
def quarry : RepositoryFact where
  solutions := [{ path := "all", projects := [{ path := "works", units := [ledge] }] }]
where
  ledge : UnitFact :=
    { path := "works/ledge"
      types := [seam, { seam with name := "Vein", containingType := some "Pit" }] }
  seam : TypeFact :=
    { name := "Seam<T>", namespaceName := " Höhe: ", containingType := some "Pit::Wall" }

/-- The separator of the names of the quarry. -/
def colons : Separator := ⟨"::", by decide⟩

/-- The resolver of the quarry. -/
def quarryResolver : Resolver :=
  ⟨(ScopeIndex.build quarry colons).1, .referencesOnly⟩

/-- Around the seam are the wall and the pit, and not the namespace. So the vein beside the wall is
found from the inside of the seam, in both scopes. -/
theorem quarry_scopes :
    quarryResolver.index.projectIndex? "works" = some 0 ∧
      (∀ c ∈ quarry.seam.simpleName.toList, c ∉ quarryResolver.separator.text.toList) ∧
      ∃ scope, quarryResolver.scopeAt? "works" "works/ledge" "Höhe:"
          (some "Höhe:::Pit::Wall::Seam") = some scope ∧
        scope.enclosingTypes = ["Höhe:::Pit::Wall::Seam", "Höhe:::Pit::Wall", "Höhe:::Pit"] ∧
        quarryResolver.lookup scope "Vein" = .found "Höhe:::Pit::Vein" .enclosingScope := by
  have hsep : quarryResolver.separator = colons := ScopeIndex.build_separator quarry colons
  have hproject : quarryResolver.index.projectIndex? "works" = some 0 := by decide +kernel
  have hname : ∀ c ∈ quarry.seam.simpleName.toList, c ∉ quarryResolver.separator.text.toList := by
    have hsimple : quarry.seam.simpleName.toList = ['S', 'e', 'a', 'm'] := by decide +kernel
    rw [hsep, hsimple]
    simp [colons]
  have hspace : quarry.seam.trimmedNamespace = "Höhe:" := by decide +kernel
  have hfull : quarry.seam.fullName colons = "Höhe:::Pit::Wall::Seam" := by decide +kernel
  have hscope := scopeAt?_fullName quarryResolver hproject "works/ledge" hname
  rw [hspace, hsep, hfull] at hscope
  obtain ⟨scope, hat, heq, hlookup⟩ := hscope
  refine ⟨hproject, hname, scope, hat, ?_, ?_⟩
  · rw [heq]
    change quarryResolver.enclosingChain quarry.seam = _
    rw [enclosingChain_eq quarryResolver hname, hspace, hsep, hfull]
    decide +kernel
  · rw [(hlookup "Vein").1]
    decide +kernel

end Resolver

end FactGraph
