import FactGraph.Config.Store
import FactGraph.Proofs.Files.Tree
import FactGraph.Proofs.Json.Decoder

/-!
# The configuration that is stored is the one that is loaded

A configuration is written to a temporary file, which then takes the place of the old one. Both
files are in the hidden directory, so the move takes no directory away, and the path of the
configuration leads to what was written. It is read back just as it was, but for one thing: a
configuration without a separator is refused, although it is stored without complaint.

## Main results

* `LinkConfig.inverts`: a configuration is read back from its JSON value
* `loadConfig_saveConfig`: what is loaded after a configuration has been stored
-/

namespace FactGraph

namespace LinkConfig

theorem inverts : Decoder.Inverts decode encode :=
  Decoder.inverts_record (fun _ => rfl) fun config left h => by
    simp only [List.forall_mem_cons] at h
    simp [decode, encode, h]

/-- The version is the one number in a configuration. -/
theorem readable {config : LinkConfig} (h : config.version < Decoder.natBound) :
    config.encode.Readable 2 := by
  have hversion : (Json.nat config.version).Readable 1 :=
    ⟨by simpa only [Json.isStorable, decide_eq_true_eq] using h, Nat.zero_le 1⟩
  refine Json.readable_obj ?_
  simp only [List.forall_mem_cons]
  exact ⟨hversion, Json.readable_str _, Json.readable_str _, ⟨rfl, Nat.zero_le 1⟩,
    Json.readable_ofStrings _, Json.readable_ofStrings _, nofun⟩

/-- **A configuration is read back**, if its version has 32 bits. -/
theorem roundTrips {config : LinkConfig} (h : config.version < Decoder.natBound) :
    Decoder.RoundTrips decode encode config :=
  inverts.roundTrips (readable h).storable (Nat.le_trans (readable h).depth_le (by decide))

end LinkConfig

/-! ## Paths -/

/-- The hidden directory has a name, and no slash behind it. -/
theorem configDirectory_spec (root : String) :
    configDirectory root ≠ "" ∧ (configDirectory root).toList.getLast? ≠ some '/' := by
  have hends : (configDirectory root).toList.getLast? = some 'k' := by
    unfold configDirectory joinPath
    split
    · rfl
    · split <;> simp
  refine ⟨fun hempty => ?_, by simp [hends]⟩
  rw [hempty] at hends
  cases hends

theorem joinPath_configDirectory (root : String) {name : String}
    (h : isAbsolutePath name = false) :
    joinPath (configDirectory root) name = configDirectory root ++ "/" ++ name := by
  obtain ⟨hne, hlast⟩ := configDirectory_spec root
  simp [joinPath, h, hne, hlast]

/-! ## Storing and loading -/

open FileTree

/-- A step behind a change is only made if the change was. -/
theorem run_attempt_ok {change : FileTree → Option FileTree}
    {next : StateM FileTree (Except Failure Unit)} {failure : Failure} {tree tree' : FileTree}
    (h : (do
      if ← attempt change then next else return .error failure).run tree = (.ok (), tree')) :
    ∃ changed, change tree = some changed ∧ next.run changed = (.ok (), tree') := by
  have hrun (done : Bool) (state : FileTree) (hdone : (attempt change).run tree = (done, state)) :
      (if done then next else return .error failure).run state = (.ok (), tree') := by
    rw [StateT.run_bind, hdone] at h
    exact h
  cases hchange : change tree with
  | some changed =>
    refine ⟨changed, rfl, hrun true changed ?_⟩
    simp [attempt, hchange]
    rfl
  | none =>
    have hfailed := hrun false tree (by simp [attempt, hchange]; rfl)
    cases hfailed

/-- The steps that storing a configuration is made of, when all of them are made. -/
theorem saveConfig_ok {root : String} {config : LinkConfig} {tree tree' : FileTree}
    (h : (saveConfig root config : StateM FileTree (Except Failure Unit)).run tree =
      (.ok (), tree')) :
    ∃ made written, tree.createDirectories? (configDirectory root) = some made ∧
      made.write? (temporaryConfigPath root) config.encode.pretty = some written ∧
      written.move? (temporaryConfigPath root) (configPath root) = some tree' := by
  obtain ⟨made, hmade, h⟩ := run_attempt_ok h
  obtain ⟨written, hwritten, h⟩ := run_attempt_ok h
  obtain ⟨moved, hmoved, h⟩ := run_attempt_ok h
  cases h
  exact ⟨made, written, hmade, hwritten, hmoved⟩

/-- **What was written is found at the path of the configuration.** -/
theorem read_configPath {root text : String} {made written tree : FileTree}
    (hwrite : made.write? (temporaryConfigPath root) text = some written)
    (hmove : written.move? (temporaryConfigPath root) (configPath root) = some tree) :
    tree.read (configPath root) = .text text := by
  have hdirectory := (configDirectory_spec root).1
  have htemporary : temporaryConfigPath root = configDirectory root ++ "/" ++ "config.tmp" :=
    joinPath_configDirectory root rfl
  have hpath : configPath root = configDirectory root ++ "/" ++ "config.json" :=
    joinPath_configDirectory root rfl
  simp only [write?, Option.bind_eq_bind, Option.bind_eq_some_iff] at hwrite
  obtain ⟨place, hplace, hwrite⟩ := hwrite
  split at hwrite
  · cases hwrite
  next hfile =>
  obtain rfl := Option.some.inj hwrite
  simp only [move?, Option.bind_eq_bind, Option.bind_eq_some_iff] at hmove
  obtain ⟨oldPlace, hold, newPlace, hnew, contents, hcontents, hmove⟩ := hmove
  split at hmove
  · cases hmove
  next hreplaced =>
  obtain rfl := Option.some.inj hmove
  have hkeeps := keeps_putFile made place text
  obtain rfl : oldPlace = place :=
    Option.some.inj (hold.symm.trans (locate?_mono hkeeps rfl hplace))
  obtain rfl : contents = text :=
    Option.some.inj (hcontents.symm.trans (lookup_putFile oldPlace text made.files))
  rw [htemporary] at hplace
  rw [hpath] at hnew ⊢
  obtain ⟨outer, houter, rfl⟩ :=
    exists_of_locate?_join ⟨by decide, by decide, by decide, by decide⟩ hdirectory hplace hfile
  obtain ⟨same, hsame, rfl⟩ :=
    exists_of_locate?_join ⟨by decide, by decide, by decide, by decide⟩ hdirectory hnew hreplaced
  obtain rfl : same = outer :=
    Option.some.inj (hsame.symm.trans (locate?_mono hkeeps rfl houter))
  have hmoved := keeps_move
    { made with files := putFile (same ++ ["config.tmp"]) contents made.files }
    same "config.tmp" "config.json" contents
  have hfound := locate?_mono hmoved rfl hnew
  rw [FileTree.read, hfound]
  simp only [FileTree.file?, lookup_putFile]

/-- **What is loaded after a configuration has been stored** is that configuration, unless it has no
separator: then it is refused. -/
theorem loadConfig_saveConfig {root : String} {config : LinkConfig} {tree tree' : FileTree}
    (hversion : config.version < Decoder.natBound)
    (hsave : (saveConfig root config : StateM FileTree (Except Failure Unit)).run tree =
      (.ok (), tree')) :
    (loadConfig root : StateM FileTree (Except Failure LinkConfig)).run tree' =
      (if config.separator = "" then .error (.separatorEmpty (configPath root)) else .ok config,
        tree') := by
  obtain ⟨made, written, -, hwrite, hmove⟩ := saveConfig_ok hsave
  have hload : (loadConfig root : StateM FileTree (Except Failure LinkConfig)).run tree' =
      (LinkConfig.ofContents (configPath root) (tree'.read (configPath root)), tree') := rfl
  have htext := (LinkConfig.roundTrips hversion).pretty
  rw [hload, read_configPath hwrite hmove, LinkConfig.ofContents, LinkConfig.ofText, htext]

end FactGraph
