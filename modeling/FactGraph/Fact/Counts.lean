/-!
# Counts by name

A dependency metric counts references by the name of the type they go to. The names are kept in
the order of their code points, each once, so that two metrics with the same counts are the same
value.

## Main definitions

* `Counts`: naturals by name, the names increasing
* `Counts.set`: gives a name its count, whatever it had before
* `Counts.add`: raises the count of a name
* `Counts.total`: the sum of all counts
-/

namespace FactGraph

namespace Counts

/-- The names increase, hence none is repeated. -/
def Increasing (entries : List (String × Nat)) : Prop :=
  entries.Pairwise fun a b => a.1 < b.1

/-- Puts a count in its place by name; two counts of one name are combined, the old one first. -/
def insertEntry (combine : Nat → Nat → Nat) (name : String) (count : Nat) :
    List (String × Nat) → List (String × Nat)
  | [] => [(name, count)]
  | (other, n) :: entries =>
    if name < other then (name, count) :: (other, n) :: entries
    else if name = other then (other, combine n count) :: entries
    else (other, n) :: insertEntry combine name count entries

/-- The names after an insertion are the old ones and the new one. -/
theorem fst_mem_insertEntry {combine : Nat → Nat → Nat} {name : String} {count : Nat}
    {entries : List (String × Nat)} {entry : String × Nat}
    (h : entry ∈ insertEntry combine name count entries) :
    entry.1 = name ∨ ∃ old ∈ entries, old.1 = entry.1 := by
  induction entries with
  | nil => simp_all [insertEntry]
  | cons old entries ih =>
    obtain ⟨other, n⟩ := old
    simp only [insertEntry] at h
    split at h
    · rcases List.mem_cons.1 h with rfl | h
      · exact .inl rfl
      · exact .inr ⟨entry, h, rfl⟩
    · split at h
      · rcases List.mem_cons.1 h with rfl | h
        · exact .inr ⟨(other, n), by simp, rfl⟩
        · exact .inr ⟨entry, by simp [h], rfl⟩
      · rcases List.mem_cons.1 h with rfl | h
        · exact .inr ⟨(other, n), by simp, rfl⟩
        · rcases ih h with h | ⟨old, hold, h⟩
          · exact .inl h
          · exact .inr ⟨old, by simp [hold], h⟩

theorem Increasing.insertEntry {combine : Nat → Nat → Nat} {name : String} {count : Nat}
    {entries : List (String × Nat)} (h : Increasing entries) :
    Increasing (insertEntry combine name count entries) := by
  induction entries with
  | nil => simp [Increasing, Counts.insertEntry]
  | cons old entries ih =>
    obtain ⟨other, n⟩ := old
    obtain ⟨hlt, hrest⟩ := List.pairwise_cons.1 h
    simp only [Counts.insertEntry]
    split
    next hname =>
      refine List.pairwise_cons.2 ⟨fun entry hentry => ?_, h⟩
      rcases List.mem_cons.1 hentry with rfl | hentry
      · exact hname
      · exact String.lt_trans hname (hlt entry hentry)
    next hname =>
      split
      next => exact List.pairwise_cons.2 ⟨fun entry hentry => hlt entry hentry, hrest⟩
      next hne =>
        refine List.pairwise_cons.2 ⟨fun entry hentry => ?_, ih hrest⟩
        rcases fst_mem_insertEntry hentry with hentry | ⟨old, hold, heq⟩
        · have hle : other ≤ name := String.not_lt.1 hname
          rw [hentry]
          exact Decidable.byContradiction fun hnot =>
            hne (String.le_antisymm (String.not_lt.1 hnot) hle)
        · exact heq ▸ hlt old hold

end Counts

/-- Naturals by name. -/
structure Counts where
  /-- The counts, by increasing name. -/
  entries : List (String × Nat)
  increasing : Counts.Increasing entries

namespace Counts

/-- No counts. -/
def empty : Counts := ⟨[], List.Pairwise.nil⟩

instance : Inhabited Counts := ⟨empty⟩

/-- Gives a name its count, whatever it had before. -/
def set (counts : Counts) (name : String) (count : Nat) : Counts :=
  ⟨insertEntry (fun _ n => n) name count counts.entries, counts.increasing.insertEntry⟩

/-- Raises the count of a name. -/
def add (counts : Counts) (name : String) (count : Nat) : Counts :=
  ⟨insertEntry (· + ·) name count counts.entries, counts.increasing.insertEntry⟩

/-- The counts of a list of pairs, in which the last count of a name stands. -/
def ofList (pairs : List (String × Nat)) : Counts :=
  pairs.foldl (fun counts (name, count) => counts.set name count) empty

/-- The sum of all counts. -/
def total (counts : Counts) : Nat :=
  (counts.entries.map Prod.snd).foldr (· + ·) 0

end Counts

end FactGraph
