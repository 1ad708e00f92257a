import PrivateContinuum.Storage.UnixFs

/-! What holds of the disk between any two calls of the writer, whichever unsynced
changes a crash loses. -/

namespace PrivateContinuum.Storage

open PrivateContinuum.Library PrivateContinuum.Core

/-- A `Vec<u8>` holds less than half of the address space. -/
abbrev Payload := { bytes : Bytes // bytes.length < 2 ^ 63 }

inductive StoreTask where
  | openStore
  | commit (payload : Payload)

/-- The disk and the commits that were begun. -/
structure DiskWorld where
  disk : FileSystem
  log : Attempts Bytes

abbrev StoreValue := Except FsStorageError Unit × Option UnixFsDurabilityBackend

abbrev StoreProgram := Proc FsOp FsOp.Answer StoreValue

namespace StoreTask

def openProgram : StoreProgram :=
  UnixFsDurabilityBackend.openStore.bind fun outcome =>
    .ret (outcome.map fun _ => (), outcome.toOption)

def commitProgram (payload : Payload) (backend : UnixFsDurabilityBackend) : StoreProgram :=
  (commitDurable UnixFsDurabilityBackend.backend payload.1 backend).bind fun outcome =>
    .ret (outcome.1, some outcome.2)

end StoreTask

/-- One writer that opens the store, commits, and comes back from crashes. It keeps
its backend after a failed commit. -/
def diskAgents :
    Agents Unit DiskWorld (Option UnixFsDurabilityBackend) StoreTask FsOp
      FsOp.Answer StoreValue where
  Begins _ memory world task program after := match task with
    | .openStore => program = StoreTask.openProgram ∧ after = world
    | .commit payload => ∃ backend, memory = some backend ∧
        program = StoreTask.commitProgram payload backend ∧
      after = ⟨world.disk, world.log.begun payload.1⟩
  Answers _ world op answer after := world.disk.Answers op answer after.disk ∧ after.log = world.log
  Finishes _ task value world memory after := memory = value.2 ∧ after.disk = world.disk ∧
    after.log = match task, value.1 with
      | .commit _, .ok () => world.log.acknowledge
      | .commit _, .error _ => world.log
      | .openStore, _ => world.log
  Crashes _ world memory after :=
    memory = none ∧ world.disk.Crashes after.disk ∧ after.log = world.log

/-- The file is a synced manifest that names a candidate which no crash loses. -/
structure Manifest (disk : FileSystem) (file : Nat) (name : Bytes) (candidate : Nat)
    (payload : Bytes) : Prop where
  manifest : (disk .store).files file = ⟨name ++ [10], true⟩
  named : validCandidateName name = true
  listed : ∀ entries, (disk .objects).Outcome entries → entries name = some candidate
  candidate : (disk .objects).files candidate = ⟨encodeEnvelope payload, true⟩
  addressable : payload.length < 2 ^ 63

/-- A root that may come back holds a commit that a load may return. -/
def Rooted (world : DiskWorld) : Option Nat → Prop
  | none => Attempts.Recent none world.log none
  | some file => ∃ name candidate payload, Manifest world.disk file name candidate payload ∧
    Attempts.Recent none world.log (some payload)

/-- The file is a manifest that may come back, or a candidate that one names. -/
def Pinned (disk : FileSystem) : FileHandle → Prop
  | ⟨.store, file⟩ => ∃ entries, (disk .store).Outcome entries ∧ entries rootFile = some file
  | ⟨.objects, candidate⟩ => ∃ entries file name payload, (disk .store).Outcome entries ∧
    entries rootFile = some file ∧ Manifest disk file name candidate payload

structure DiskValid (world : DiskWorld) : Prop where
  inside : ∀ folder entries name file, (world.disk folder).Outcome entries →
    entries name = some file → file < (world.disk folder).nextFile
  apart : ∀ entries file, (world.disk .store).Outcome entries → entries rootNextFile = some file →
    entries rootFile ≠ some file
  liveApart : ∀ entries file, (world.disk .store).live rootNextFile = some file →
    (world.disk .store).Outcome entries → entries rootFile ≠ some file
  rooted : ∀ entries, (world.disk .store).Outcome entries → Rooted world (entries rootFile)

/-- What the writer may call: it never truncates or writes a pinned file, and
replaces the root only by a manifest of a commit that may be returned. -/
def DiskPermits (world : DiskWorld) : FsOp → Prop
  | .openFile folder name options => (options.write = true ∨ options.truncate = true →
      options.createNew = false →
      ∀ file, (world.disk folder).live name = some file → ¬ Pinned world.disk ⟨folder, file⟩) ∧
    (folder = .store → options.create = true ∨ options.createNew = true → name = rootNextFile)
  | .writeAll handle bytes => ¬ Pinned world.disk handle ∧
    (handle.folder = .store → bytes = [10] ∨ validCandidateName bytes = true)
  | .rename folder source target => folder = .store ∧ source = rootNextFile ∧ target = rootFile ∧
    ∃ file, (world.disk .store).live rootNextFile = some file ∧ Rooted world (some file)
  | .createDirAll _ | .readDir _ | .openDir _ | .flush _ | .syncAll _ | .syncAllDir _
      | .readToEnd _ => True

section Preservation

variable {world after : DiskWorld} {disk later : FileSystem} {file candidate : Nat}
  {name payload : Bytes}

theorem Manifest.kept (manifest : Manifest disk file name candidate payload)
    (sameManifest : (later .store).files file = (disk .store).files file)
    (sameCandidate : (later .objects).files candidate = (disk .objects).files candidate)
    (stillListed : ∀ entries, (later .objects).Outcome entries → entries name = some candidate) :
    Manifest later file name candidate payload :=
  ⟨sameManifest.trans manifest.manifest, manifest.named, stillListed,
    sameCandidate.trans manifest.candidate, manifest.addressable⟩

/-- A root stays one that may come back while its manifest stays. -/
theorem Rooted.kept {root : Option Nat} (rooted : Rooted world root)
    (sameLog : after.log = world.log)
    (manifests : ∀ file name candidate payload, root = some file →
      Manifest world.disk file name candidate payload →
      Manifest after.disk file name candidate payload) :
    Rooted after root := by
  cases root with
  | none =>
    rw [Rooted, sameLog]
    exact rooted
  | some file =>
    obtain ⟨name, candidate, payload, manifest, recent⟩ := rooted
    exact ⟨name, candidate, payload, manifests file name candidate payload rfl manifest,
      sameLog ▸ recent⟩

/-- Files that were synced are unchanged and no new entries may come back. -/
structure Shrinks (disk later : FileSystem) : Prop where
  outcomes : ∀ folder entries, (later folder).Outcome entries → (disk folder).Outcome entries
  nextFile : ∀ folder, (later folder).nextFile = (disk folder).nextFile
  files : ∀ folder file, ((disk folder).files file).synced = true →
    (later folder).files file = (disk folder).files file

theorem Shrinks.rooted (shrinks : Shrinks world.disk after.disk) (sameLog : after.log = world.log)
    {root : Option Nat} (rooted : Rooted world root) : Rooted after root := by
  apply rooted.kept sameLog
  intro file name candidate payload _ manifest
  apply manifest.kept
  · exact shrinks.files .store file (by rw [manifest.manifest])
  · exact shrinks.files .objects candidate (by rw [manifest.candidate])
  · exact fun entries outcome => manifest.listed entries (shrinks.outcomes .objects entries outcome)

/-- The live entries are unchanged, or they are all that may come back. -/
theorem Shrinks.valid (shrinks : Shrinks world.disk after.disk) (sameLog : after.log = world.log)
    (live : (after.disk .store).live = (world.disk .store).live ∨
      ∀ entries, (after.disk .store).Outcome entries → entries = (after.disk .store).live)
    (valid : DiskValid world) : DiskValid after where
  inside := by
    intro folder entries name file outcome found
    rw [shrinks.nextFile folder]
    exact valid.inside folder entries name file (shrinks.outcomes folder entries outcome) found
  apart := fun entries file outcome =>
    valid.apart entries file (shrinks.outcomes .store entries outcome)
  liveApart := by
    intro entries file found outcome
    rcases live with same | only
    · rw [same] at found
      exact valid.liveApart entries file found (shrinks.outcomes .store entries outcome)
    · rw [← only entries outcome] at found
      exact valid.apart entries file (shrinks.outcomes .store entries outcome) found
  rooted := fun entries outcome =>
    shrinks.rooted sameLog (valid.rooted entries (shrinks.outcomes .store entries outcome))

theorem shrinks_refl :
    Shrinks disk disk := ⟨fun _ _ outcome => outcome, fun _ => rfl, fun _ _ _ => rfl⟩

theorem shrinks_put {folder : Folder} {directory : Directory}
    (outcomes : ∀ entries, directory.Outcome entries → (disk folder).Outcome entries)
    (nextFile : directory.nextFile = (disk folder).nextFile)
    (files : ∀ file, ((disk folder).files file).synced = true →
      directory.files file = (disk folder).files file) :
    Shrinks disk (disk.put folder directory) := by
  constructor <;> intro other
  · by_cases same : other = folder
    · subst same
      simpa [FileSystem.put] using outcomes
    · simp [FileSystem.put, same]
  · by_cases same : other = folder
    · subst same
      simpa [FileSystem.put] using nextFile
    · simp [FileSystem.put, same]
  · by_cases same : other = folder
    · subst same
      simpa [FileSystem.put] using files
    · simp [FileSystem.put, same]

theorem shrinks_syncFile {folder : Folder} :
    Shrinks disk (disk.put folder ((disk folder).syncFile file)) := by
  refine shrinks_put (fun _ outcome => outcome) rfl ?_
  intro other synced
  by_cases same : other = file
  · subst same
    rw [Directory.syncFile]
    simp [← synced]
  · simp [Directory.syncFile, same]

theorem shrinks_settle {folder : Folder} : Shrinks disk (disk.put folder (disk folder).settle) := by
  refine shrinks_put ?_ rfl fun _ _ => rfl
  intro entries outcome
  rw [(Directory.outcome_settled rfl).mp outcome]
  exact Directory.outcome_live

theorem shrinks_crash (crashes : disk.Crashes later) : Shrinks disk later where
  outcomes := by
    intro folder entries outcome
    rw [(Directory.outcome_settled (crashes folder).settled).mp outcome]
    exact (crashes folder).entries
  nextFile := fun folder => (crashes folder).nextFile
  files := fun folder => (crashes folder).files

/-- Only the contents of one file differ. -/
structure Overwrites (disk later : FileSystem) (handle : FileHandle) : Prop where
  outcomes : ∀ folder entries, (later folder).Outcome entries ↔ (disk folder).Outcome entries
  live : ∀ folder, (later folder).live = (disk folder).live
  nextFile : ∀ folder, (later folder).nextFile = (disk folder).nextFile
  files : ∀ folder file, handle ≠ ⟨folder, file⟩ →
    (later folder).files file = (disk folder).files file

theorem overwrites_write {handle : FileHandle} {content : Bytes} : Overwrites disk
    (disk.put handle.folder ((disk handle.folder).write handle.file content)) handle := by
  constructor <;> intro folder <;> by_cases same : folder = handle.folder
  · subst same
    simp [FileSystem.put, Directory.write, Directory.Outcome]
  · simp [FileSystem.put, same]
  · subst same
    simp [FileSystem.put, Directory.write, Directory.live]
  · simp [FileSystem.put, same]
  · subst same
    simp [FileSystem.put, Directory.write]
  · simp [FileSystem.put, same]
  · subst same
    intro file different
    have other : file ≠ handle.file := fun equal => different (by rw [equal])
    simp [FileSystem.put, Directory.write, other]
  · simp [FileSystem.put, same]

/-- Writing a file that is not pinned loses nothing. -/
theorem valid_write {handle : FileHandle} {content : Bytes}
    (unpinned : ¬ Pinned world.disk handle)
    (changed : after.disk = world.disk.put handle.folder
      ((world.disk handle.folder).write handle.file content))
    (sameLog : after.log = world.log) (valid : DiskValid world) : DiskValid after := by
  have overwrites : Overwrites world.disk after.disk handle := changed ▸ overwrites_write
  constructor
  · intro folder entries name file outcome found
    rw [overwrites.nextFile]
    exact valid.inside folder entries name file
      ((overwrites.outcomes folder entries).mp outcome) found
  · exact fun entries file outcome =>
      valid.apart entries file ((overwrites.outcomes .store entries).mp outcome)
  · intro entries file found outcome
    rw [overwrites.live] at found
    exact valid.liveApart entries file found ((overwrites.outcomes .store entries).mp outcome)
  · intro entries outcome
    have before := (overwrites.outcomes .store entries).mp outcome
    apply (valid.rooted entries before).kept sameLog
    intro file name candidate payload root manifest
    apply manifest.kept
    · apply overwrites.files
      intro same
      subst same
      exact unpinned ⟨entries, before, root⟩
    · apply overwrites.files
      intro same
      subst same
      exact unpinned ⟨entries, file, name, payload, before, root, manifest⟩
    · exact fun other outcome =>
        manifest.listed other ((overwrites.outcomes .objects other).mp outcome)

theorem rootNext_ne_root : rootNextFile ≠ rootFile := by decide

theorem applyChange_created (entries : DirectoryEntries) (name other : Bytes) (file : Nat) :
    applyChange entries [(name, some file)] other = if other = name then some file
      else entries other := by
  simp [applyChange, Function.update_apply]

theorem applyChange_renamed (entries : DirectoryEntries) (name : Bytes) (file : Nat) :
    applyChange entries [(rootFile, some file), (rootNextFile, none)] name =
      if name = rootNextFile then none else if name = rootFile then some file
        else entries name := by
  simp [applyChange, Function.update_apply]

theorem outcome_create {directory : Directory} {entries : DirectoryEntries} :
    (directory.create name).Outcome entries ↔ directory.Outcome entries ∨
      ∃ before, directory.Outcome before ∧
        entries = applyChange before [(name, some directory.nextFile)] :=
  Directory.outcome_record

theorem live_create {directory : Directory} :
    (directory.create name).live = applyChange directory.live [(name, some directory.nextFile)] :=
  Directory.live_record

theorem created_inside {directory : Directory} {entries : DirectoryEntries} {other : Bytes}
    (inside : ∀ entries name file, directory.Outcome entries → entries name = some file →
      file < directory.nextFile)
    (outcome : (directory.create name).Outcome entries) (found : entries other = some file) :
    file < (directory.create name).nextFile := by
  change file < directory.nextFile + 1
  rcases outcome_create.mp outcome with old | ⟨before, beforeOutcome, same⟩
  · have bound := inside entries other file old found
    omega
  · rw [same, applyChange_created] at found
    split at found
    · cases found
      omega
    · have bound := inside before other file beforeOutcome found
      omega

/-- Creating `root.next` leaves every root that may come back as it was. -/
theorem created_root {directory : Directory} {entries : DirectoryEntries}
    (outcome : (directory.create rootNextFile).Outcome entries) :
    ∃ before, directory.Outcome before ∧ entries rootFile = before rootFile ∧
      (entries = before ∨ entries rootNextFile = some directory.nextFile) := by
  rcases outcome_create.mp outcome with old | ⟨before, beforeOutcome, same⟩
  · exact ⟨entries, old, rfl, Or.inl rfl⟩
  · refine ⟨before, beforeOutcome, ?_, Or.inr ?_⟩
    · rw [same, applyChange_created, if_neg rootNext_ne_root.symm]
    · rw [same, applyChange_created, if_pos rfl]

theorem created_not_root {directory : Directory} {entries : DirectoryEntries}
    (inside : ∀ entries name file, directory.Outcome entries → entries name = some file →
      file < directory.nextFile)
    (outcome : (directory.create rootNextFile).Outcome entries) :
    entries rootFile ≠ some directory.nextFile := by
  intro found
  obtain ⟨before, beforeOutcome, same, _⟩ := created_root outcome
  rw [same] at found
  exact lt_irrefl _ (inside before rootFile _ beforeOutcome found)

theorem valid_create_store
    (changed : after.disk = world.disk.put .store ((world.disk .store).create rootNextFile))
    (sameLog : after.log = world.log) (valid : DiskValid world) : DiskValid after := by
  have store : after.disk .store = (world.disk .store).create rootNextFile := by
    simp [changed, FileSystem.put]
  have objects : after.disk .objects = world.disk .objects := by simp [changed, FileSystem.put]
  constructor
  · intro folder entries name file outcome found
    cases folder with
    | store =>
      rw [store] at outcome ⊢
      exact created_inside (valid.inside .store) outcome found
    | objects =>
      rw [objects] at outcome ⊢
      exact valid.inside .objects entries name file outcome found
  · intro entries file outcome found
    rw [store] at outcome
    obtain ⟨before, beforeOutcome, same, old | new⟩ := created_root outcome
    · rw [same]
      exact valid.apart before file beforeOutcome (old ▸ found)
    · rw [new] at found
      cases found
      exact created_not_root (valid.inside .store) outcome
  · intro entries file found outcome
    rw [store, live_create, applyChange_created, if_pos rfl] at found
    cases found
    rw [store] at outcome
    exact created_not_root (valid.inside .store) outcome
  · intro entries outcome
    rw [store] at outcome
    obtain ⟨before, beforeOutcome, same, _⟩ := created_root outcome
    rw [same]
    apply (valid.rooted before beforeOutcome).kept sameLog
    intro file name candidate payload root manifest
    have old : file ≠ (world.disk .store).nextFile :=
      Nat.ne_of_lt (valid.inside .store before rootFile file beforeOutcome root)
    apply manifest.kept
    · rw [store]
      simp [Directory.create, old]
    · rw [objects]
    · rw [objects]
      exact manifest.listed

/-- A new candidate is a fresh file under a name that no manifest uses. -/
theorem valid_create_objects (absent : (world.disk .objects).live name = none)
    (changed : after.disk = world.disk.put .objects ((world.disk .objects).create name))
    (sameLog : after.log = world.log) (valid : DiskValid world) : DiskValid after := by
  have objects : after.disk .objects = (world.disk .objects).create name := by
    simp [changed, FileSystem.put]
  have store : after.disk .store = world.disk .store := by simp [changed, FileSystem.put]
  constructor
  · intro folder entries other file outcome found
    cases folder with
    | store =>
      rw [store] at outcome ⊢
      exact valid.inside .store entries other file outcome found
    | objects =>
      rw [objects] at outcome ⊢
      exact created_inside (valid.inside .objects) outcome found
  · rw [store]
    exact valid.apart
  · rw [store]
    exact valid.liveApart
  · intro entries outcome
    rw [store] at outcome
    apply (valid.rooted entries outcome).kept sameLog
    intro file held candidate payload root manifest
    have visible := manifest.listed _ Directory.outcome_live
    have other : held ≠ name := by
      intro same
      rw [same, absent] at visible
      cases visible
    have old : candidate ≠ (world.disk .objects).nextFile :=
      Nat.ne_of_lt (valid.inside .objects _ held candidate Directory.outcome_live visible)
    apply manifest.kept
    · rw [store]
    · rw [objects]
      simp [Directory.create, old]
    · intro listing listed
      rw [objects] at listed
      rcases outcome_create.mp listed with before | ⟨before, beforeOutcome, same⟩
      · exact manifest.listed listing before
      · rw [same, applyChange_created, if_neg other]
        exact manifest.listed before beforeOutcome

/-- The renamed manifest becomes a root that may come back. -/
theorem valid_rename (found : (world.disk .store).live rootNextFile = some file)
    (ready : Rooted world (some file))
    (changed : after.disk = world.disk.put .store
      ((world.disk .store).record [(rootFile, some file), (rootNextFile, none)]))
    (sameLog : after.log = world.log) (valid : DiskValid world) : DiskValid after := by
  have store : after.disk .store = (world.disk .store).record [(rootFile, some file),
      (rootNextFile, none)] := by
    simp [changed, FileSystem.put]
  have objects : after.disk .objects = world.disk .objects := by simp [changed, FileSystem.put]
  have kept : ∀ root, Rooted world root → Rooted after root := by
    intro root rooted
    apply rooted.kept sameLog
    intro other name candidate payload _ manifest
    apply manifest.kept
    · rw [store]
      rfl
    · rw [objects]
    · rw [objects]
      exact manifest.listed
  constructor
  · intro folder entries name other outcome lookup
    cases folder with
    | store =>
      rw [store] at outcome ⊢
      rcases Directory.outcome_record.mp outcome with old | ⟨before, beforeOutcome, same⟩
      · exact valid.inside .store entries name other old lookup
      · rw [same, applyChange_renamed] at lookup
        split at lookup
        · cases lookup
        · split at lookup
          · cases lookup
            exact valid.inside .store _ rootNextFile file Directory.outcome_live found
          · exact valid.inside .store before name other beforeOutcome lookup
    | objects =>
      rw [objects] at outcome ⊢
      exact valid.inside .objects entries name other outcome lookup
  · intro entries other outcome lookup
    rw [store] at outcome
    rcases Directory.outcome_record.mp outcome with old | ⟨before, _, same⟩
    · exact valid.apart entries other old lookup
    · rw [same, applyChange_renamed, if_pos rfl] at lookup
      cases lookup
  · intro entries other lookup
    rw [store, Directory.live_record, applyChange_renamed, if_pos rfl] at lookup
    cases lookup
  · intro entries outcome
    rw [store] at outcome
    rcases Directory.outcome_record.mp outcome with old | ⟨before, _, same⟩
    · exact kept _ (valid.rooted entries old)
    · rw [same, applyChange_renamed, if_neg rootNext_ne_root.symm, if_pos rfl]
      exact kept _ ready

/-- An opened file leaves the disk valid, whether it was there or is new. -/
theorem valid_opens {folder : Folder} {options : OpenOptions} {handle : FileHandle}
    (valid : DiskValid world) (permitted : DiskPermits world (.openFile folder name options))
    (opens : world.disk.Opens folder name options handle after.disk)
    (sameLog : after.log = world.log) :
    DiskValid after := by
  unfold FileSystem.Opens at opens
  split at opens
  · rename_i file found
    obtain ⟨existing, _, changed⟩ := opens
    split at changed
    · rename_i truncates
      have unpinned : ¬ Pinned world.disk ⟨folder, file⟩ :=
        permitted.1 (Or.inr truncates) existing file found
      exact valid_write unpinned changed sameLog valid
    · exact (changed ▸ shrinks_refl : Shrinks world.disk after.disk).valid sameLog
        (Or.inl (by rw [changed])) valid
  · rename_i absent
    obtain ⟨creates, _, changed⟩ := opens
    cases folder with
    | store =>
      rw [permitted.2 rfl creates] at changed
      exact valid_create_store changed sameLog valid
    | objects => exact valid_create_objects absent changed sameLog valid

theorem valid_same (changed : after.disk = world.disk) (sameLog : after.log = world.log)
    (valid : DiskValid world) :
    DiskValid after := by
  cases after
  cases world
  cases changed
  cases sameLog
  exact valid

theorem valid_renames {folder : Folder} {source target : Bytes} (valid : DiskValid world)
    (permitted : DiskPermits world (.rename folder source target))
    (renames : world.disk.Renames folder source target after.disk)
    (sameLog : after.log = world.log) :
    DiskValid after := by
  obtain ⟨rfl, rfl, rfl, file, live, ready⟩ := permitted
  obtain ⟨other, found, changed⟩ := renames
  rw [live] at found
  cases found
  exact valid_rename live ready changed sameLog valid

theorem valid_syncFile {handle : FileHandle} (valid : DiskValid world)
    (changed : after.disk = world.disk.put handle.folder
      ((world.disk handle.folder).syncFile handle.file))
    (sameLog : after.log = world.log) : DiskValid after := by
  have shrinks : Shrinks world.disk after.disk := changed ▸ shrinks_syncFile
  refine shrinks.valid sameLog (Or.inl ?_) valid
  obtain ⟨folder, file⟩ := handle
  rw [changed]
  cases folder with
  | store => rfl
  | objects => simp [FileSystem.put]

theorem valid_settle {folder : Folder} (valid : DiskValid world)
    (changed : after.disk = world.disk.put folder (world.disk folder).settle)
    (sameLog : after.log = world.log) :
    DiskValid after := by
  have shrinks : Shrinks world.disk after.disk := changed ▸ shrinks_settle
  refine shrinks.valid sameLog ?_ valid
  rw [changed]
  cases folder with
  | store =>
    refine Or.inr ?_
    intro entries outcome
    have settled : ((world.disk.put .store (world.disk .store).settle) .store).pending = [] := by
      simp [FileSystem.put, Directory.settle]
    rw [(Directory.outcome_settled settled).mp outcome, Directory.live_settled settled]
  | objects => exact Or.inl (by simp [FileSystem.put])

theorem valid_crash (crashes : world.disk.Crashes after.disk) (sameLog : after.log = world.log)
    (valid : DiskValid world) : DiskValid after := by
  refine (shrinks_crash crashes).valid sameLog (Or.inr ?_) valid
  intro entries outcome
  have settled := (crashes .store).settled
  rw [(Directory.outcome_settled settled).mp outcome, Directory.live_settled settled]

/-- Every permitted call leaves the disk valid, also when it fails. -/
theorem valid_answered {op : FsOp} {answer : op.Answer} (valid : DiskValid world)
    (permitted : DiskPermits world op) (told : world.disk.Answers op answer after.disk)
    (sameLog : after.log = world.log) : DiskValid after := by
  cases op with
  | createDirAll folder => exact valid_same told sameLog valid
  | readDir folder => exact valid_same told.1 sameLog valid
  | openDir folder => exact valid_same told sameLog valid
  | flush handle => exact valid_same told sameLog valid
  | readToEnd handle => exact valid_same told.1 sameLog valid
  | openFile folder name options =>
    unfold FileSystem.Answers at told
    dsimp only at told
    split at told
    · exact valid_opens valid permitted told sameLog
    · exact valid_same told.2.1 sameLog valid
    · exact valid_same told.1 sameLog valid
    · rcases told with same | ⟨handle, opens⟩
      · exact valid_same same sameLog valid
      · exact valid_opens valid permitted opens sameLog
  | writeAll handle bytes =>
    unfold FileSystem.Answers at told
    dsimp only at told
    split at told
    · exact valid_write permitted.1 told sameLog valid
    · obtain ⟨content, changed⟩ := told
      exact valid_write permitted.1 changed sameLog valid
  | syncAll handle =>
    unfold FileSystem.Answers at told
    dsimp only at told
    split at told
    · exact valid_syncFile valid told sameLog
    · exact valid_same told sameLog valid
  | syncAllDir folder =>
    unfold FileSystem.Answers at told
    dsimp only at told
    split at told
    · exact valid_settle valid told sameLog
    · exact valid_same told sameLog valid
  | rename folder source target =>
    unfold FileSystem.Answers at told
    dsimp only at told
    split at told
    · exact valid_renames valid permitted told sameLog
    · rcases told with same | renames
      · exact valid_same same sameLog valid
      · exact valid_renames valid permitted renames sameLog

end Preservation

end PrivateContinuum.Storage
