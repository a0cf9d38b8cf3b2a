import FactGraph.Fact.Counts

/-!
# Counts entered one after the other

Counts are kept by increasing name, so entering the counts of a metric in their order puts each
one behind those that are there already.

## Main results

* `Counts.foldl_insertEntry`: increasing counts are entered as they are
* `Counts.ofList_entries`, `Counts.foldl_add_entries`: the counts of a metric, entered one after the
  other, are its counts
* `Counts.total_add`: a count that is raised is raised as a whole
-/

namespace FactGraph.Counts

/-- Behind all names that are there. -/
theorem insertEntry_last {combine : Nat → Nat → Nat} {name : String} {count : Nat}
    {entries : List (String × Nat)} (h : ∀ entry ∈ entries, entry.1 < name) :
    insertEntry combine name count entries = entries ++ [(name, count)] := by
  induction entries with
  | nil => rfl
  | cons entry entries ih =>
    obtain ⟨hlt, hrest⟩ := List.forall_mem_cons.1 h
    have hne : name ≠ entry.1 := fun heq => String.lt_irrefl _ (heq ▸ hlt)
    have hnot : ¬name < entry.1 := fun hlt' => String.lt_irrefl _ (String.lt_trans hlt hlt')
    rw [insertEntry, if_neg hnot, if_neg hne, ih hrest, List.cons_append]

/-- **Increasing counts are entered as they are**, whatever is done with a repeated name. -/
theorem foldl_insertEntry (combine : Nat → Nat → Nat) {done entries : List (String × Nat)}
    (h : Increasing (done ++ entries)) :
    entries.foldl (fun all (name, count) => insertEntry combine name count all) done =
      done ++ entries := by
  induction entries generalizing done with
  | nil => simp
  | cons entry entries ih =>
    obtain ⟨name, count⟩ := entry
    have hlast : ∀ old ∈ done, old.1 < name := fun old hold =>
      (List.pairwise_append.1 h).2.2 old hold (name, count) List.mem_cons_self
    dsimp only [List.foldl_cons]
    rw [insertEntry_last hlast, ih (by simpa using h)]
    simp

/-- The entries of counts that are entered one after the other. -/
theorem entries_foldl {enter : Counts → String → Nat → Counts} {combine : Nat → Nat → Nat}
    (henter : ∀ counts name count,
      (enter counts name count).entries = insertEntry combine name count counts.entries)
    (pairs : List (String × Nat)) (counts : Counts) :
    (pairs.foldl (fun counts (name, count) => enter counts name count) counts).entries =
      pairs.foldl (fun all (name, count) => insertEntry combine name count all)
        counts.entries := by
  induction pairs generalizing counts with
  | nil => rfl
  | cons pair pairs ih => rw [List.foldl_cons, ih, henter, List.foldl_cons]

theorem ext {counts other : Counts} (h : counts.entries = other.entries) : counts = other := by
  cases counts
  cases other
  congr

/-- The counts of a metric, entered one after the other, are its counts. -/
theorem ofList_entries (counts : Counts) : ofList counts.entries = counts := by
  have hset (counts : Counts) (name : String) (count : Nat) : (counts.set name count).entries =
      insertEntry (fun _ n => n) name count counts.entries := rfl
  refine ext ?_
  rw [ofList, entries_foldl hset]
  exact foldl_insertEntry _ counts.increasing

/-- So are they when counts of one name are added. -/
theorem foldl_add_entries (counts : Counts) :
    counts.entries.foldl (fun all (name, count) => all.add name count) empty = counts := by
  have hadd (counts : Counts) (name : String) (count : Nat) : (counts.add name count).entries =
      insertEntry (· + ·) name count counts.entries := rfl
  refine ext ?_
  rw [entries_foldl hadd]
  exact foldl_insertEntry _ counts.increasing

/-- What holds of the names that are there and of the new one holds of all names afterwards. -/
theorem forall_mem_add (holds : String → Prop) {counts : Counts} {name : String} {count : Nat}
    (h : ∀ entry ∈ counts.entries, holds entry.1) (hname : holds name) :
    ∀ entry ∈ (counts.add name count).entries, holds entry.1 := by
  intro entry hentry
  rcases fst_mem_insertEntry hentry with heq | ⟨old, hold, heq⟩
  · exact heq ▸ hname
  · exact heq ▸ h old hold

theorem total_empty : empty.total = 0 := rfl

/-- **A count that is raised is raised as a whole**, whether its name is there already or not. -/
theorem total_add (counts : Counts) (name : String) (count : Nat) :
    (counts.add name count).total = counts.total + count := by
  obtain ⟨entries, hincreasing⟩ := counts
  show ((insertEntry (· + ·) name count entries).map Prod.snd).foldr (· + ·) 0 =
    (entries.map Prod.snd).foldr (· + ·) 0 + count
  clear hincreasing
  induction entries with
  | nil => simp [insertEntry]
  | cons entry entries ih =>
    obtain ⟨other, n⟩ := entry
    rw [insertEntry]
    split
    · simp only [List.map_cons, List.foldr_cons]
      omega
    · split
      · simp only [List.map_cons, List.foldr_cons]
        omega
      · simp only [List.map_cons, List.foldr_cons, ih]
        omega

end FactGraph.Counts
