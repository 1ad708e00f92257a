import PrivateContinuum.Storage.CommitSafety

namespace PrivateContinuum.Storage

open PrivateContinuum.Library PrivateContinuum.Core

/-- A store whose directories are durable, before its first commit. -/
structure FreshDisk (disk : FileSystem) : Prop where
  settled : ∀ folder, (disk folder).pending = []
  inside : ∀ folder name file, (disk folder).durable name = some file →
    file < (disk folder).nextFile
  uncommitted : (disk .store).durable rootFile = none

theorem FreshDisk.valid {disk : FileSystem} (fresh : FreshDisk disk) : DiskValid ⟨disk, []⟩ := by
  have only : ∀ folder entries, (disk folder).Outcome entries → entries = (disk folder).durable :=
    fun folder entries outcome => (Directory.outcome_settled (fresh.settled folder)).mp outcome
  constructor
  · intro folder entries name file outcome found
    rw [only folder entries outcome] at found
    exact fresh.inside folder name file found
  · intro entries file outcome _
    rw [only .store entries outcome, fresh.uncommitted]
    simp
  · intro entries file _ outcome
    rw [only .store entries outcome, fresh.uncommitted]
    simp
  · intro entries outcome
    rw [only .store entries outcome, fresh.uncommitted]
    exact Or.inl ⟨rfl, by simp [Attempts.NoneAcknowledged]⟩

section Loading

variable {world : DiskWorld} {backend : UnixFsDurabilityBackend}

/-- A manifest that names a synced candidate is loaded as its payload. -/
theorem loadNamed_manifest {file candidate : Nat} {name payload : Bytes}
    (manifest : Manifest world.disk file name candidate payload) :
    (UnixFsDurabilityBackend.loadNamed ⟨.store, file⟩ backend).eval world.disk.serve =
      (.ok (some payload), backend) := by
  obtain ⟨text, trimmed⟩ := manifest_text manifest.named
  have read : world.disk.serve (.readToEnd ⟨.store, file⟩) = .ok (name ++ [10]) := by
    rw [FileSystem.serve, manifest.manifest]
  have opened : world.disk.serve (.openFile .objects name UnixFsDurabilityBackend.readOptions) =
      .ok ⟨.objects, candidate⟩ := by
    rw [FileSystem.serve, manifest.listed _ Directory.outcome_live]
  have encoded : world.disk.serve (.readToEnd ⟨.objects, candidate⟩) =
      .ok (encodeEnvelope payload) := by
    rw [FileSystem.serve, manifest.candidate]
  have decoded : decodeEnvelope (encodeEnvelope payload) = .ok payload := by
    apply decodeEnvelope_encode
    have bound := manifest.addressable
    simp only [Envelope.headerLen, Envelope.checksumLen, Envelope.magic, sizeLimit,
      List.length_cons, List.length_nil]
    omega
  simp only [UnixFsDurabilityBackend.loadNamed, UnixFsDurabilityBackend.readText,
    UnixFsDurabilityBackend.askIo, bind,
    Routine.andThen, Routine.ask, Routine.check, Proc.bind, Proc.eval, read, id, Except.mapError,
    text, ↓reduceIte,
    trimmed]
  simp only [UnixFsDurabilityBackend.loadCandidate, UnixFsDurabilityBackend.askIo, bind,
    Routine.andThen, Routine.ask,
    Routine.check, Proc.bind, Proc.eval, manifest.named, ↓reduceIte, opened, id, Except.mapError,
    encoded, decoded]
  rfl

/-- A load without a failure returns a recent commit. -/
theorem load_recent (valid : DiskValid world) : ∃ found,
    (UnixFsDurabilityBackend.loadCommitted backend).eval world.disk.serve = (.ok found, backend) ∧
      Attempts.Recent none world.log found := by
  have rooted := valid.rooted _ Directory.outcome_live
  cases root : (world.disk .store).live rootFile with
  | none =>
    rw [root] at rooted
    refine ⟨none, ?_, rooted⟩
    have missing :
        world.disk.serve (.openFile .store rootFile UnixFsDurabilityBackend.readOptions) =
        .error .notFound := by
      rw [FileSystem.serve, root]
    simp only [UnixFsDurabilityBackend.loadCommitted, bind, Routine.andThen, Routine.ask,
      Proc.bind, Proc.eval, missing, UnixFsDurabilityBackend.readOpened]
    rfl
  | some file =>
    rw [root] at rooted
    obtain ⟨name, candidate, payload, manifest, recent⟩ := rooted
    refine ⟨some payload, ?_, recent⟩
    have opened : world.disk.serve (.openFile .store rootFile UnixFsDurabilityBackend.readOptions) =
        .ok ⟨.store, file⟩ := by
      rw [FileSystem.serve, root]
    simp only [UnixFsDurabilityBackend.loadCommitted, bind, Routine.andThen, Routine.ask,
      Proc.bind, Proc.eval, opened, UnixFsDurabilityBackend.readOpened]
    exact loadNamed_manifest manifest

end Loading

/-- The call opens the file for writing, or writes it. -/
def Touches (handle : FileHandle) : (op : FsOp) → op.Answer → Prop
  | .openFile _ _ options, answer => options.write = true ∧ answer = .ok handle
  | .writeAll written _, _ => written = handle
  | .createDirAll _, _ | .readDir _, _ | .openDir _, _ | .flush _, _ | .syncAll _,
      _ | .syncAllDir _, _
  | .rename _ _ _, _ | .readToEnd _, _ => False

theorem unpinned_nextFile {world : DiskWorld} {folder : Folder} (valid : DiskValid world) :
    ¬ Pinned world.disk ⟨folder, (world.disk folder).nextFile⟩ := by
  intro pinned
  cases folder with
  | store =>
    obtain ⟨entries, outcome, root⟩ := pinned
    exact lt_irrefl _ (valid.inside .store entries rootFile _ outcome root)
  | objects =>
    obtain ⟨_, _, name, _, _, _, manifest⟩ := pinned
    exact lt_irrefl _ (valid.inside .objects _ name _ Directory.outcome_live
      (manifest.listed _ Directory.outcome_live))

theorem permitted_untouched {world : DiskWorld} {op : FsOp} {answer : op.Answer}
    {after : FileSystem} {handle : FileHandle} (valid : DiskValid world)
    (permitted : DiskPermits world op) (told : world.disk.Answers op answer after)
    (pinned : Pinned world.disk handle) : ¬ Touches handle op answer := by
  intro touches
  cases op with
  | openFile folder name options =>
    obtain ⟨writes, same⟩ := touches
    subst same
    have opens : world.disk.Opens folder name options handle after := told
    unfold FileSystem.Opens at opens
    split at opens
    · rename_i file found
      obtain ⟨existing, same, _⟩ := opens
      rw [same] at pinned
      exact permitted.1 (Or.inl writes) existing file found pinned
    · obtain ⟨_, same, _⟩ := opens
      rw [same] at pinned
      exact unpinned_nextFile valid pinned
  | writeAll written bytes =>
    have same : written = handle := touches
    subst same
    exact permitted.1 pinned
  | createDirAll folder => exact touches
  | readDir folder => exact touches
  | openDir folder => exact touches
  | flush written => exact touches
  | syncAll written => exact touches
  | syncAllDir folder => exact touches
  | rename folder source target => exact touches
  | readToEnd written => exact touches

/-- In every run of opens and commits with failures and crashes: a load returns a
recent commit, no file that a root may name is opened for writing, and every name
in a manifest is a valid one. -/
theorem unixFs_crash_consistent {disk : FileSystem} (fresh : FreshDisk disk)
    {config : Config Unit DiskWorld (Option UnixFsDurabilityBackend) StoreTask FsOp
      FsOp.Answer StoreValue}
    (reached : diskAgents.Reaches ⟨⟨disk, []⟩, fun _ => .idle none⟩ config) :
    (∀ backend, ∃ found,
      (UnixFsDurabilityBackend.loadCommitted backend).eval config.world.disk.serve =
        (.ok found, backend) ∧ Attempts.Recent none config.world.log found) ∧
    (∀ task op next answer after handle, config.phase () = .busy task (.call op next) →
      config.world.disk.Answers op answer after → Pinned config.world.disk handle →
      ¬ Touches handle op answer) ∧
    (∀ task handle bytes next, config.phase () = .busy task (.call (.writeAll handle bytes) next) →
      handle.folder = .store → bytes = [10] ∨ validCandidateName bytes = true) ∧
    (∀ entries file, (config.world.disk .store).Outcome entries → entries rootFile = some file →
      ∃ name candidate, validCandidateName name = true ∧
        (config.world.disk .store).files file = ⟨name ++ [10], true⟩ ∧
        (config.world.disk .objects).live name = some candidate ∧
        Pinned config.world.disk ⟨.objects, candidate⟩) := by
  have holds : diskGuard.Holds ⟨⟨disk, []⟩, fun _ => .idle none⟩ := ⟨fresh.valid, fun _ => trivial⟩
  obtain ⟨valid, phases⟩ := diskGuard_sound.reaches holds reached
  have permits : ∀ task op next, config.phase () = .busy task (.call op next) →
      DiskPermits config.world op := by
    intro task op next calling
    have safe := phases ()
    rw [calling] at safe
    exact (safe config.world rfl valid).1
  refine ⟨fun backend => load_recent valid, ?_, ?_, ?_⟩
  · intro task op next answer after handle calling told pinned
    exact permitted_untouched valid (permits task op next calling) told pinned
  · intro task handle bytes next calling inStore
    exact (permits task (.writeAll handle bytes) next calling).2 inStore
  · intro entries file outcome root
    have rooted := valid.rooted entries outcome
    rw [root] at rooted
    obtain ⟨name, candidate, payload, manifest, _⟩ := rooted
    exact ⟨name, candidate, manifest.named, manifest.manifest,
      manifest.listed _ Directory.outcome_live,
      entries, file, name, payload, outcome, root, manifest⟩

/-- A disk on which nothing fails. -/
def undisturbed (world : DiskWorld) (op : FsOp) : op.Answer × DiskWorld :=
  ((world.disk.perform op).1, ⟨(world.disk.perform op).2, world.log⟩)

section Undisturbed

variable {world : DiskWorld} {memory : Option UnixFsDurabilityBackend}

/-- The writer between two of its tasks. -/
def between (world : DiskWorld) (memory : Option UnixFsDurabilityBackend) :
    Config Unit DiskWorld (Option UnixFsDurabilityBackend) StoreTask FsOp FsOp.Answer StoreValue :=
  ⟨world, fun _ => .idle memory⟩

theorem between_update
    {phases : Unit → Phase (Option UnixFsDurabilityBackend) StoreTask FsOp FsOp.Answer StoreValue} :
    (⟨world, Function.update phases () (.idle memory)⟩ : Config Unit DiskWorld _ _ _ _ _) =
      between world memory := by
  have same : Function.update phases () (.idle memory) = (between world memory).phase :=
    funext fun agent => Function.update_self agent _ _
  rw [same]
  rfl

theorem reaches_open_empty (empty : ∀ name, (world.disk .objects).live name = none) :
    diskAgents.Reaches (between world memory) (between world (some ⟨0⟩)) := by
  have made : world.disk.Answers (.createDirAll .objects)
      (.ok () : Except IoError Unit) world.disk := rfl
  have listed : world.disk.Answers (.readDir .objects)
      (.ok [] : Except IoError (List (Except IoError Bytes))) world.disk := by
    refine ⟨rfl, ?_⟩
    intro listing same
    cases same
    exact Or.inr ⟨[], rfl, fun name => by simp [empty name]⟩
  have ran : (diskGuard.around ()).Runs StoreTask.openProgram world (.ok (), some ⟨0⟩) world :=
    .call ⟨made, rfl⟩ (.call ⟨listed, rfl⟩ (.ret _ world))
  have opened :=
    Agents.reaches_task diskGuard (between world memory) () .openStore rfl ⟨rfl, rfl⟩ ran
    ⟨rfl, rfl, rfl⟩
  rwa [between_update] at opened

theorem reaches_commit {payload : Payload} {backend stored : UnixFsDurabilityBackend}
    {last : DiskWorld}
    (served : (StoreTask.commitProgram payload backend).serve undisturbed ⟨world.disk,
      world.log.begun payload.1⟩ = ((.ok (), some stored), last)) :
    diskAgents.Reaches (between world (some backend))
      (between ⟨last.disk, last.log.acknowledge⟩ (some stored)) := by
  have honest : ∀ (now : DiskWorld) (op : FsOp),
      (diskGuard.around ()).Answers now op (undisturbed now op).1 (undisturbed now op).2 :=
    fun now op => ⟨now.disk.answers_perform op, rfl⟩
  have ran := (diskGuard.around ()).runs_serve honest (StoreTask.commitProgram payload backend)
    ⟨world.disk, world.log.begun payload.1⟩
  rw [served] at ran
  have finishes : diskAgents.Finishes () (.commit payload) (.ok (), some stored) last (some stored)
      ⟨last.disk, last.log.acknowledge⟩ := ⟨rfl, rfl, rfl⟩
  have done := Agents.reaches_task diskGuard (between world (some backend)) () (.commit payload) rfl
    ⟨backend, rfl, rfl, rfl⟩ ran finishes
  rwa [between_update] at done

theorem reaches_crash (settled : ∀ folder, (world.disk folder).pending = []) :
    diskAgents.Reaches (between world memory) (between world none) := by
  have crashing : diskAgents.Crashes () world none world :=
    ⟨rfl,
      fun folder =>
      ⟨Directory.live_settled (settled folder) ▸ Directory.outcome_live, settled folder,
      fun _ _ => rfl, rfl⟩, rfl⟩
  have crashed : diskAgents.Step (between world memory) _ := .crash () none world crashing
  rw [between_update] at crashed
  exact Relation.ReflTransGen.single crashed

end Undisturbed

/-- A whole commit and a crash: the store loads what was acknowledged. -/
theorem unixFs_crash_consistent_reloaded :
    let disk : FileSystem := fun _ => ⟨fun _ => none, [], fun _ => ⟨[], false⟩, 0⟩
    ∃ config, diskAgents.Reaches ⟨⟨disk, []⟩, fun _ => .idle none⟩ config ∧
      config.world.log = [⟨[5], true⟩] ∧ config.phase () = .idle none ∧
      ∀ backend, (UnixFsDurabilityBackend.loadCommitted backend).eval config.world.disk.serve =
        (.ok (some [5]), backend) := by
  intro disk
  have fresh : FreshDisk disk := ⟨fun _ => rfl, fun _ _ _ found => (by cases found), rfl⟩
  let payload : Payload := ⟨[5], by decide⟩
  let ended := (StoreTask.commitProgram payload ⟨0⟩).serve undisturbed ⟨disk, [⟨[5], false⟩]⟩
  have acknowledged : ended.1 = (.ok (), some ⟨1⟩) := by decide +kernel
  have logged : ended.2.log = [⟨[5], false⟩] := by decide +kernel
  have settled : ∀ folder, (ended.2.disk folder).pending = [] := by
    intro folder
    rw [← List.isEmpty_iff]
    cases folder with
    | store => decide +kernel
    | objects => decide +kernel
  have opened : diskAgents.Reaches (between ⟨disk, []⟩ none) (between ⟨disk, []⟩ (some ⟨0⟩)) :=
    reaches_open_empty fun name => rfl
  have committed := opened.trans (reaches_commit (Prod.ext acknowledged rfl))
  have crashed := committed.trans (reaches_crash settled)
  have log : ended.2.log.acknowledge = [⟨[5], true⟩] := by
    rw [logged]
    rfl
  refine ⟨_, crashed, log, rfl, ?_⟩
  intro backend
  obtain ⟨found, loaded, recent⟩ := (unixFs_crash_consistent fresh crashed).1 backend
  have same : found = some [5] :=
    Attempts.Recent.of_acknowledged (log ▸ recent : Attempts.Recent none ([] ++ _) found)
  rw [← same]
  exact loaded

end PrivateContinuum.Storage
