import PrivateContinuum.Storage.DiskInvariant

namespace PrivateContinuum.Storage

open PrivateContinuum.Library PrivateContinuum.Core

/-- The commit under way holds the payload under the manifest. -/
def Underway (world : DiskWorld) (payload : Bytes) (file : Nat) : Prop :=
  ∃ name candidate earlier, Manifest world.disk file name candidate payload ∧
    world.log = Attempts.begun earlier payload

def diskGuard : diskAgents.Guard where
  Valid := DiskValid
  Rely _ world now := now = world
  Permits _ := DiskPermits
  Idle _ _ _ := True
  Done _ task value world := match task, value.1 with
    | .commit payload, .ok () => ∃ file, Underway world payload.1 file ∧
      ∀ entries, (world.disk .store).Outcome entries → entries rootFile = some file
    | .commit _, .error _ => True
    | .openStore, _ => True
  rely_refl _ _ := rfl
  rely_trans := by
    intro agent first second third one other
    rw [other, one]

section Commit

variable {world : DiskWorld} {backend : UnixFsDurabilityBackend} {payload name : Bytes}
  {candidate : Nat}

/-- Nobody else moves between two calls of the writer. -/
theorem ensures_askIo {op : FsOp} {Value : Type} {read : op.Answer → Except IoError Value}
    {post : Except FsStorageError Value → UnixFsDurabilityBackend → DiskWorld → Prop}
    (permitted : DiskPermits world op)
    (answered : ∀ answer after, world.disk.Answers op answer after.disk → after.log = world.log →
      DiskValid after → post ((read answer).mapError .io) backend after) :
    (diskGuard.around ()).Ensures (UnixFsDurabilityBackend.askIo op read) backend world post := by
  apply Surroundings.ensures_ask
  intro now same _
  have same : now = world := same
  subst same
  exact ⟨permitted, fun answer after told valid => answered answer after told.1 told.2 valid⟩

/-- The candidate is written under its name. -/
structure Written (world : DiskWorld) (name : Bytes) (candidate : Nat)
    (payload : Bytes) : Prop where
  named : validCandidateName name = true
  live : (world.disk .objects).live name = some candidate
  content : ((world.disk .objects).files candidate).content = encodeEnvelope payload

/-- The candidate is written and synced, and its entry too. -/
structure Kept (world : DiskWorld) (name : Bytes) (candidate : Nat) (payload : Bytes) : Prop where
  named : validCandidateName name = true
  listed : ∀ entries, (world.disk .objects).Outcome entries → entries name = some candidate
  content : (world.disk .objects).files candidate = ⟨encodeEnvelope payload, true⟩

theorem created_unpinned {after : DiskWorld} (valid : DiskValid world)
    (changed : after.disk = world.disk.put .objects ((world.disk .objects).create name)) :
    ¬ Pinned after.disk ⟨.objects, (world.disk .objects).nextFile⟩ := by
  intro pinned
  obtain ⟨_, file, held, payload, _, _, manifest⟩ := pinned
  have objects : after.disk .objects = (world.disk .objects).create name := by
    simp [changed, FileSystem.put]
  have survives : (after.disk .objects).Outcome (world.disk .objects).live := by
    rw [objects]
    exact outcome_create.mpr (Or.inl Directory.outcome_live)
  exact lt_irrefl _
    (valid.inside .objects _ held _ Directory.outcome_live (manifest.listed _ survives))

theorem safe_allocateFrom (id : Nat) (world : DiskWorld) (valid : DiskValid world) :
    (diskGuard.around ()).Safe (fun outcome now => now.log = world.log ∧
        ∀ allocated, outcome.1 = .ok allocated →
        validCandidateName allocated.fileName = true ∧ ∃ candidate,
          (now.disk .objects).live allocated.fileName = some candidate ∧
          ¬ Pinned now.disk ⟨.objects, candidate⟩)
      (UnixFsDurabilityBackend.allocateFrom id) world := by
  induction remaining : sizeLimit - id using Nat.strongRecOn generalizing id world with
  | ind measure ih =>
    unfold UnixFsDurabilityBackend.allocateFrom
    split
    · rename_i addressable
      intro now same _
      have same : now = world := same
      subst same
      have permitted : DiskPermits now (.openFile .objects (candidateName id)
          UnixFsDurabilityBackend.createNewOptions) :=
        ⟨fun _ existing => (by cases existing), fun folder => (by cases folder)⟩
      refine ⟨permitted, ?_⟩
      intro answer after told afterValid
      obtain ⟨told, sameLog⟩ := told
      change Except IoError FileHandle at answer
      cases answer with
      | ok handle =>
        refine ⟨sameLog, ?_⟩
        intro allocated done
        cases done
        refine ⟨validCandidateName_candidateName id, ?_⟩
        have opens : now.disk.Opens .objects
          (candidateName id) UnixFsDurabilityBackend.createNewOptions handle
          after.disk := told
        unfold FileSystem.Opens at opens
        split at opens
        · cases opens.1
        · obtain ⟨_, _, changed⟩ := opens
          refine ⟨(now.disk .objects).nextFile, ?_, created_unpinned valid changed⟩
          have objects : after.disk .objects = (now.disk .objects).create (candidateName id) := by
            simp [changed, FileSystem.put]
          rw [objects, live_create, applyChange_created, if_pos rfl]
      | error failure =>
        cases failure with
        | alreadyExists =>
          have later := ih (sizeLimit - (id + 1)) (by omega) (id + 1) after afterValid rfl
          rw [sameLog] at later
          exact later
        | notFound => exact ⟨sameLog, fun allocated impossible => by cases impossible⟩
        | invalidData => exact ⟨sameLog, fun allocated impossible => by cases impossible⟩
        | other => exact ⟨sameLog, fun allocated impossible => by cases impossible⟩
    · exact ⟨rfl, fun allocated impossible => by cases impossible⟩

/-- A call that keeps the log, and what it leaves when it succeeds. -/
theorem ensures_io {op : FsOp} {Value : Type} {read : op.Answer → Except IoError Value}
    {done : Value → DiskWorld → Prop} (permitted : DiskPermits world op)
    (answered : ∀ answer value after, read answer = .ok value →
      world.disk.Answers op answer after.disk → after.log = world.log → DiskValid after →
      done value after) :
    (diskGuard.around ()).Ensures (UnixFsDurabilityBackend.askIo op read) backend world
      fun outcome _ now =>
      now.log = world.log ∧ ∀ value, outcome = .ok value → done value now := by
  apply ensures_askIo permitted
  intro answer after told sameLog valid
  refine ⟨sameLog, ?_⟩
  intro value succeeded
  exact answered answer value after (mapError_ok_iff.mp succeeded) told sameLog valid

theorem ensures_then {Value Result : Type} {first : FsRoutine Value}
    {rest : Value → FsRoutine Result} {middle : Value → DiskWorld → Prop}
    {done : Result → DiskWorld → Prop} (valid : DiskValid world)
    (before : (diskGuard.around ()).Ensures first backend world fun outcome _ now => now.log =
      world.log ∧ ∀ value, outcome = .ok value → middle value now)
    (after : ∀ value stored now, DiskValid now → now.log = world.log → middle value now →
      (diskGuard.around ()).Ensures (rest value) stored now fun outcome _ last =>
      last.log = now.log ∧ ∀ result, outcome = .ok result → done result last) :
    (diskGuard.around ()).Ensures (first >>= rest) backend world fun outcome _ now =>
      now.log = world.log ∧ ∀ result, outcome = .ok result → done result now := by
  apply Surroundings.Ensures.bind valid before
  · intro value stored now nowValid reached
    obtain ⟨sameLog, facts⟩ := reached
    have ensured := after value stored now nowValid sameLog (facts value rfl)
    rw [sameLog] at ensured
    exact ensured
  · intro failure stored now _ reached
    exact ⟨reached.1, fun result impossible => (by cases impossible)⟩

/-- A candidate with unsynced contents is named by no manifest. -/
theorem unpinned_of_unsynced {disk : FileSystem}
    (unsynced : ((disk .objects).files candidate).synced = false) :
    ¬ Pinned disk ⟨.objects, candidate⟩ := by
  intro pinned
  obtain ⟨_, _, _, _, _, _, manifest⟩ := pinned
  rw [manifest.candidate] at unsynced
  cases unsynced

/-- An open file that exists is the listed one; it is empty when truncated. -/
theorem opens_existing {disk later : FileSystem} {folder : Folder} {options : OpenOptions}
    {handle : FileHandle} {file : Nat} (live : (disk folder).live name = some file)
    (opens : disk.Opens folder name options handle later) :
    handle = ⟨folder, file⟩ ∧
      later = if options.truncate then disk.put folder ((disk folder).write file []) else disk := by
  unfold FileSystem.Opens at opens
  split at opens
  · rename_i found same
    rw [live] at same
    cases same
    exact opens.2
  · rename_i absent
    rw [live] at absent
    cases absent

/-- The allocated candidate is opened again, and is empty. -/
theorem ensures_truncate (live : (world.disk .objects).live name = some candidate)
    (unpinned : ¬ Pinned world.disk ⟨.objects, candidate⟩) :
    (diskGuard.around ()).Ensures (UnixFsDurabilityBackend.askIo
      (.openFile .objects name UnixFsDurabilityBackend.truncateOptions) id) backend world
      fun outcome _ now => now.log = world.log ∧ ∀ handle, outcome = .ok handle →
        handle = ⟨.objects, candidate⟩ ∧
        (now.disk .objects).live name = some candidate ∧
        (now.disk .objects).files candidate = ⟨[], false⟩ := by
  have permitted :
      DiskPermits world (.openFile .objects name UnixFsDurabilityBackend.truncateOptions) := by
    refine ⟨?_, fun folder => (by cases folder)⟩
    intro _ _ file listed
    rw [live] at listed
    cases listed
    exact unpinned
  refine ensures_io permitted ?_
  intro answer handle after same told _ _
  cases same
  obtain ⟨sameHandle, changed⟩ := opens_existing live told
  have objects : after.disk .objects = (world.disk .objects).write candidate [] := by
    simp [changed, UnixFsDurabilityBackend.truncateOptions, FileSystem.put]
  refine ⟨sameHandle, ?_, ?_⟩
  · rw [objects]
    exact live
  · rw [objects]
    simp [Directory.write]

theorem ensures_fill (named : validCandidateName name = true)
    (live : (world.disk .objects).live name = some candidate)
    (truncated : (world.disk .objects).files candidate = ⟨[], false⟩) :
    (diskGuard.around ()).Ensures (UnixFsDurabilityBackend.askIo
      (.writeAll ⟨.objects, candidate⟩ (encodeEnvelope payload)) id) backend world
      fun outcome _ now => now.log = world.log ∧ ∀ _value, outcome = .ok _value →
        Written now name candidate payload := by
  have unsynced : ((world.disk .objects).files candidate).synced = false := by rw [truncated]
  refine ensures_io ⟨unpinned_of_unsynced unsynced, fun folder => (by cases folder)⟩ ?_
  intro answer value after same told _ _
  cases same
  have objects : after.disk .objects = (world.disk .objects).write candidate
      (encodeEnvelope payload) := by
    have changed : after.disk = _ := told
    simp [changed, FileSystem.put, truncated]
  refine ⟨named, ?_, ?_⟩
  · rw [objects]
    exact live
  · rw [objects]
    simp [Directory.write]

theorem ensures_flush (written : Written world name candidate payload) :
    (diskGuard.around ()).Ensures (UnixFsDurabilityBackend.askIo (.flush ⟨.objects, candidate⟩) id)
      backend world fun outcome _ now => now.log = world.log ∧ ∀ _value, outcome = .ok _value →
        Written now name candidate payload := by
  refine ensures_io trivial ?_
  intro answer value after _ told _ _
  have same : after.disk = world.disk := told
  exact ⟨written.named, same ▸ written.live, same ▸ written.content⟩

theorem ensures_writeCandidate (valid : DiskValid world) :
    (diskGuard.around ()).Ensures (UnixFsDurabilityBackend.writeCandidate payload) backend world
      fun outcome _ now => now.log = world.log ∧ ∀ allocated, outcome = .ok allocated →
        ∃ candidate, Written now allocated.fileName candidate payload := by
  refine ensures_then valid (safe_allocateFrom backend.nextCandidate world valid) ?_
  intro allocated _ found foundValid _ ⟨named, candidate, live, unpinned⟩
  refine ensures_then foundValid (ensures_truncate live unpinned) ?_
  intro handle _ empty emptyValid _ ⟨sameHandle, stillLive, truncated⟩
  subst sameHandle
  refine ensures_then emptyValid (ensures_fill named stillLive truncated) ?_
  intro _ _ full fullValid _ written
  refine ensures_then fullValid (ensures_flush written) ?_
  intro _ _ _ _ _ flushed
  refine Surroundings.ensures_pure ⟨rfl, ?_⟩
  intro result done
  cases done
  exact ⟨candidate, flushed⟩

theorem ensures_syncFile (written : Written world name candidate payload) :
    (diskGuard.around ()).Ensures
      (UnixFsDurabilityBackend.askIo (.syncAll ⟨.objects, candidate⟩) id) backend world
      fun outcome _ now => now.log = world.log ∧ ∀ _value, outcome = .ok _value →
        (now.disk .objects).live name = some candidate ∧
          (now.disk .objects).files candidate = ⟨encodeEnvelope payload, true⟩ := by
  refine ensures_io trivial ?_
  intro answer value after same told _ _
  cases same
  have objects : after.disk .objects = (world.disk .objects).syncFile candidate := by
    have changed : after.disk = _ := told
    simp [changed, FileSystem.put]
  rw [objects]
  refine ⟨written.live, ?_⟩
  simp [Directory.syncFile, written.content]

/-- The synced directory has the live entry whatever a crash loses. -/
theorem ensures_syncObjects (named : validCandidateName name = true)
    (live : (world.disk .objects).live name = some candidate)
    (content : (world.disk .objects).files candidate = ⟨encodeEnvelope payload, true⟩) :
    (diskGuard.around ()).Ensures
      (UnixFsDurabilityBackend.askIo (.syncAllDir .objects) id) backend world
      fun outcome _ now => now.log = world.log ∧ ∀ _value, outcome = .ok _value →
        Kept now name candidate payload := by
  refine ensures_io trivial ?_
  intro answer value after done told _ _
  cases done
  have objects : after.disk .objects = (world.disk .objects).settle := by
    have changed : after.disk = _ := told
    simp [changed, FileSystem.put]
  refine ⟨named, ?_, ?_⟩
  · intro entries outcome
    rw [objects] at outcome
    rw [(Directory.outcome_settled rfl).mp outcome]
    exact live
  · rw [objects]
    exact content

theorem ensures_openDir {folder : Folder} :
    (diskGuard.around ()).Ensures (UnixFsDurabilityBackend.askIo (.openDir folder) id) backend world
      fun outcome _ now => now.log = world.log ∧ ∀ _value, outcome = .ok _value →
      now.disk = world.disk := by
  refine ensures_io trivial ?_
  intro answer value after _ told _ _
  exact told

theorem ensures_syncCandidate (valid : DiskValid world)
    (written : Written world name candidate payload) :
    (diskGuard.around ()).Ensures (UnixFsDurabilityBackend.syncCandidate ⟨name⟩) backend world
      fun outcome _ now => now.log = world.log ∧ ∀ _value, outcome = .ok _value →
        Kept now name candidate payload := by
  have opens : (diskGuard.around ()).Ensures (UnixFsDurabilityBackend.askIo
      (.openFile .objects name UnixFsDurabilityBackend.readOptions) id) backend world
        fun outcome _ now =>
        now.log = world.log ∧ ∀ handle, outcome = .ok handle → handle = ⟨.objects, candidate⟩ ∧
          Written now name candidate payload := by
    refine ensures_io ⟨fun writes => (by rcases writes with write | truncate <;> contradiction),
      fun folder => (by cases folder)⟩ ?_
    intro answer handle after same told _ _
    cases same
    obtain ⟨sameHandle, changed⟩ := opens_existing written.live told
    have unchanged : after.disk = world.disk := changed
    exact ⟨sameHandle, written.named, unchanged ▸ written.live, unchanged ▸ written.content⟩
  refine ensures_then valid opens ?_
  intro handle _ opened openedValid _ ⟨sameHandle, still⟩
  subst sameHandle
  refine ensures_then openedValid (ensures_syncFile still) ?_
  intro _ _ synced syncedValid _ ⟨live, content⟩
  refine ensures_then syncedValid ensures_openDir ?_
  intro _ _ folder _ _ same
  rw [← same] at live content
  exact ensures_syncObjects written.named live content

/-- The new manifest while it is written; the candidates stay as they were. -/
structure Drafting (base world : DiskWorld) (file : Nat) (text : Bytes) : Prop where
  live : (world.disk .store).live rootNextFile = some file
  content : ((world.disk .store).files file).content = text
  objects : world.disk .objects = base.disk .objects
  log : world.log = base.log

/-- `root.next` is no root that may come back. -/
theorem unpinned_rootNext {file : Nat} (valid : DiskValid world)
    (live : (world.disk .store).live rootNextFile = some file) :
    ¬ Pinned world.disk ⟨.store, file⟩ := by
  intro pinned
  obtain ⟨entries, outcome, root⟩ := pinned
  exact valid.liveApart entries file live outcome root

theorem opens_rootNext {after : DiskWorld} {handle : FileHandle}
    (sameLog : after.log = world.log)
    (opens : world.disk.Opens .store rootNextFile UnixFsDurabilityBackend.replaceOptions
      handle after.disk) :
    ∃ file, handle = ⟨.store, file⟩ ∧ Drafting world after file [] := by
  unfold FileSystem.Opens at opens
  split at opens
  · rename_i file found
    obtain ⟨_, same, changed⟩ := opens
    have store : after.disk .store = (world.disk .store).write file [] := by
      simp [changed, UnixFsDurabilityBackend.replaceOptions, FileSystem.put]
    refine ⟨file, same, ?_, ?_, ?_, sameLog⟩
    · rw [store]
      exact found
    · rw [store]
      simp [Directory.write]
    · simp [changed, UnixFsDurabilityBackend.replaceOptions, FileSystem.put]
  · obtain ⟨_, same, changed⟩ := opens
    have store : after.disk .store = (world.disk .store).create rootNextFile := by
      simp [changed, FileSystem.put]
    refine ⟨_, same, ?_, ?_, ?_, sameLog⟩
    · rw [store, live_create, applyChange_created, if_pos rfl]
    · rw [store]
      simp [Directory.create]
    · simp [changed, FileSystem.put]

theorem ensures_draft {base : DiskWorld} {file : Nat} {text bytes : Bytes}
    (valid : DiskValid world) (drafting : Drafting base world file text)
    (allowed : bytes = [10] ∨ validCandidateName bytes = true) :
    (diskGuard.around ()).Ensures
      (UnixFsDurabilityBackend.askIo (.writeAll ⟨.store, file⟩ bytes) id) backend world
      fun outcome _ now => now.log = world.log ∧ ∀ _value, outcome = .ok _value →
        Drafting base now file (text ++ bytes) := by
  refine ensures_io ⟨unpinned_rootNext valid drafting.live, fun _ => allowed⟩ ?_
  intro answer value after same told sameLog _
  cases same
  have changed : after.disk = _ := told
  have store : after.disk .store = (world.disk .store).write file (text ++ bytes) := by
    simp [changed, FileSystem.put, drafting.content]
  refine ⟨?_, ?_, ?_, sameLog.trans drafting.log⟩
  · rw [store]
    exact drafting.live
  · rw [store]
    simp [Directory.write]
  · rw [← drafting.objects, changed]
    simp [FileSystem.put]

theorem ensures_openRootNext (valid : DiskValid world) :
    (diskGuard.around ()).Ensures (UnixFsDurabilityBackend.askIo
      (.openFile .store rootNextFile UnixFsDurabilityBackend.replaceOptions) id) backend world
        fun outcome _ now =>
        now.log = world.log ∧ ∀ handle, outcome = .ok handle →
          ∃ file, handle = ⟨.store, file⟩ ∧ Drafting world now file [] := by
  refine ensures_io ⟨fun _ _ _ live => unpinned_rootNext valid live, fun _ _ => rfl⟩ ?_
  intro answer handle after same told sameLog _
  cases same
  exact opens_rootNext sameLog told

/-- The complete manifest is synced and names the kept candidate. -/
theorem ensures_syncManifest {base : DiskWorld} {file : Nat} {earlier : Attempts Bytes}
    (kept : Kept base name candidate payload) (addressable : payload.length < 2 ^ 63)
    (last : base.log = Attempts.begun earlier payload)
    (complete : Drafting base world file (name ++ [10])) :
    (diskGuard.around ()).Ensures
      (UnixFsDurabilityBackend.askIo (.syncAll ⟨.store, file⟩) id) backend world
      fun outcome _ now => now.log = world.log ∧ ∀ _value, outcome = .ok _value →
        (now.disk .store).live rootNextFile = some file ∧ Underway now payload file := by
  refine ensures_io trivial ?_
  intro answer value after same told sameLog _
  cases same
  have changed : after.disk = _ := told
  have store : after.disk .store = (world.disk .store).syncFile file := by
    simp [changed, FileSystem.put]
  have objects : after.disk .objects = base.disk .objects := by
    rw [← complete.objects, changed]
    simp [FileSystem.put]
  refine ⟨?_, name, candidate, earlier, ⟨?_, kept.named, ?_, ?_, addressable⟩, ?_⟩
  · rw [store]
    exact complete.live
  · rw [store]
    simp [Directory.syncFile, complete.content]
  · rw [objects]
    exact kept.listed
  · rw [objects]
    exact kept.content
  · rw [sameLog, complete.log, last]

/-- The rename makes the manifest the visible root. -/
theorem ensures_renameRoot {file : Nat} (live : (world.disk .store).live rootNextFile = some file)
    (underway : Underway world payload file) :
    (diskGuard.around ()).Ensures
      (UnixFsDurabilityBackend.askIo (.rename .store rootNextFile rootFile) id) backend
      world fun outcome _ now => now.log = world.log ∧ ∀ _value, outcome = .ok _value →
        ∃ file, Underway now payload file ∧ (now.disk .store).live rootFile = some file := by
  obtain ⟨name, candidate, earlier, manifest, newest⟩ := underway
  have recent : Attempts.Recent none world.log (some payload) := by
    rw [newest]
    exact Attempts.recent_last none earlier ⟨payload, false⟩
  refine ensures_io ⟨rfl, rfl, rfl, file, live, name, candidate, payload, manifest, recent⟩ ?_
  intro answer value after same told sameLog _
  cases same
  obtain ⟨other, found, changed⟩ : world.disk.Renames .store rootNextFile rootFile after.disk :=
    told
  rw [live] at found
  cases found
  have store : after.disk .store = (world.disk .store).record [(rootFile, some file),
      (rootNextFile, none)] := by
    simp [changed, FileSystem.put]
  have objects : after.disk .objects = world.disk .objects := by simp [changed, FileSystem.put]
  refine ⟨file, ⟨name, candidate, earlier, manifest.kept ?_ ?_ ?_, sameLog.trans newest⟩, ?_⟩
  · rw [store]
    rfl
  · rw [objects]
  · rw [objects]
    exact manifest.listed
  · rw [store, Directory.live_record, applyChange_renamed, if_neg rootNext_ne_root.symm, if_pos rfl]

/-- A published candidate is under way as the visible root. -/
theorem ensures_publishCandidate {earlier : Attempts Bytes} (valid : DiskValid world)
    (kept : Kept world name candidate payload) (addressable : payload.length < 2 ^ 63)
    (last : world.log = Attempts.begun earlier payload) :
    (diskGuard.around ()).Ensures (UnixFsDurabilityBackend.publishCandidate ⟨name⟩) backend world
      fun outcome _ now => now.log = world.log ∧ ∀ _value, outcome = .ok _value →
        ∃ file, Underway now payload file ∧ (now.disk .store).live rootFile = some file := by
  have checks : (diskGuard.around ()).Ensures (.check (if validCandidateName name then .ok () else
      .error FsStorageError.invalidRootManifest)) backend world fun outcome _ now =>
        now.log = world.log ∧ ∀ _value, outcome = .ok _value → now = world :=
    Surroundings.ensures_check ⟨rfl, fun _ _ => rfl⟩
  refine ensures_then valid checks ?_
  intro _ _ checked checkedValid _ same
  subst same
  refine ensures_then checkedValid (ensures_openRootNext checkedValid) ?_
  intro handle _ empty emptyValid _ ⟨file, sameHandle, drafting⟩
  subst sameHandle
  refine ensures_then emptyValid (ensures_draft emptyValid drafting (Or.inr kept.named)) ?_
  intro _ _ started startedValid _ draftingName
  refine ensures_then startedValid (ensures_draft startedValid draftingName (Or.inl rfl)) ?_
  intro _ _ full fullValid _ complete
  refine ensures_then fullValid (ensures_syncManifest kept addressable last complete) ?_
  intro _ _ ready _ _ ⟨live, underway⟩
  exact ensures_renameRoot live underway

theorem ensures_syncCommittedRoot {file : Nat} (valid : DiskValid world)
    (underway : Underway world payload file)
    (live : (world.disk .store).live rootFile = some file) :
    (diskGuard.around ()).Ensures UnixFsDurabilityBackend.syncCommittedRoot backend world
      fun outcome _ now => now.log = world.log ∧ ∀ _value, outcome = .ok _value →
        Underway now payload file ∧
        ∀ entries, (now.disk .store).Outcome entries → entries rootFile = some file := by
  refine ensures_then valid ensures_openDir ?_
  intro _ _ opened openedValid sameLog sameDisk
  refine ensures_io trivial ?_
  intro answer value after done told afterLog _
  cases done
  have changed : after.disk = _ := told
  have store : after.disk .store = (world.disk .store).settle := by
    simp [changed, FileSystem.put, sameDisk]
  have objects : after.disk .objects = world.disk .objects := by
    simp [changed, FileSystem.put, sameDisk]
  obtain ⟨name, candidate, earlier, manifest, newest⟩ := underway
  refine ⟨⟨name, candidate, earlier, manifest.kept ?_ ?_ ?_, (afterLog.trans sameLog).trans newest⟩,
    ?_⟩
  · rw [store]
    rfl
  · rw [objects]
  · rw [objects]
    exact manifest.listed
  · intro entries outcome
    rw [store] at outcome
    rw [(Directory.outcome_settled rfl).mp outcome]
    exact live

theorem ensures_commit {payload : Payload} {earlier : Attempts Bytes} (valid : DiskValid world)
    (last : world.log = Attempts.begun earlier payload.1) :
    (diskGuard.around ()).Ensures
      (commitDurable UnixFsDurabilityBackend.backend payload.1) backend world
      fun outcome _ now => now.log = world.log ∧ ∀ _value, outcome = .ok _value →
        ∃ file, Underway now payload.1 file ∧
          ∀ entries, (now.disk .store).Outcome entries → entries rootFile = some file := by
  refine ensures_then valid (ensures_writeCandidate valid) ?_
  intro allocated _ created createdValid createdLog ⟨candidate, written⟩
  refine ensures_then createdValid (ensures_syncCandidate createdValid written) ?_
  intro _ _ synced syncedValid syncedLog kept
  have newest : synced.log = Attempts.begun earlier payload.1 :=
    (syncedLog.trans createdLog).trans last
  refine ensures_then syncedValid (ensures_publishCandidate syncedValid kept payload.2 newest) ?_
  intro _ _ published publishedValid _ ⟨file, underway, live⟩
  refine (ensures_syncCommittedRoot publishedValid underway live).weaken publishedValid ?_
  intro outcome _ now _ ⟨sameLog, rooted⟩
  exact ⟨sameLog, fun value done => ⟨file, rooted value done⟩⟩

theorem safe_open (task : StoreTask) (opening : task = .openStore) :
    (diskGuard.around ()).Safe (diskGuard.Done () task) StoreTask.openProgram world := by
  subst opening
  intro now _ _
  refine ⟨trivial, ?_⟩
  intro created after _ _
  change Except IoError Unit at created
  cases created with
  | error failure => trivial
  | ok done =>
    intro later _ _
    refine ⟨trivial, ?_⟩
    intro listed last _ _
    change Except IoError (List (Except IoError Bytes)) at listed
    cases listed <;> trivial

/-- The same disk after a commit was begun, or acknowledged. -/
theorem DiskValid.relog {after : DiskWorld} (valid : DiskValid world)
    (same : after.disk = world.disk)
    (rooted : ∀ entries, (world.disk .store).Outcome entries → Rooted after (entries rootFile)) :
    DiskValid after where
  inside := by
    rw [same]
    exact valid.inside
  apart := by
    rw [same]
    exact valid.apart
  liveApart := by
    rw [same]
    exact valid.liveApart
  rooted := by
    rw [same]
    exact rooted

theorem DiskValid.begun (valid : DiskValid world) :
    DiskValid ⟨world.disk, world.log.begun payload⟩ := by
  refine valid.relog rfl ?_
  intro entries outcome
  have rooted := valid.rooted entries outcome
  cases root : entries rootFile with
  | none =>
    rw [root] at rooted
    exact Attempts.Recent.begun rooted
  | some file =>
    rw [root] at rooted
    obtain ⟨name, candidate, held, manifest, recent⟩ := rooted
    exact ⟨name, candidate, held, manifest, recent.begun⟩

/-- The guard holds through every step: opening, commits, failures and crashes. -/
theorem diskGuard_sound : diskGuard.Sound where
  idle_stable := fun _ _ _ _ _ _ _ => trivial
  done_stable := by
    intro agent task value before now same _ done
    have same : now = before := same
    subst same
    exact done
  begins := by
    intro agent memory world task program after valid _ begins
    cases task with
    | openStore =>
      obtain ⟨rfl, rfl⟩ := begins
      exact ⟨valid, safe_open _ rfl, fun other different => absurd rfl different⟩
    | commit payload =>
      obtain ⟨backend, _, rfl, rfl⟩ := begins
      have begun : DiskValid ⟨world.disk, world.log.begun payload.1⟩ := valid.begun
      refine ⟨begun, ?_, fun other different => absurd rfl different⟩
      apply Surroundings.Safe.bind begun (ensures_commit begun rfl)
      intro outcome now _ reached
      obtain ⟨result, stored⟩ := outcome
      cases result with
      | ok done => exact reached.2 done rfl
      | error failure => trivial
  answers := by
    intro agent world op answer after valid permitted told
    exact ⟨valid_answered valid permitted told.1 told.2,
      fun other different => absurd rfl different⟩
  finishes := by
    intro agent task value world memory after valid done finishes
    refine ⟨?_, trivial, fun other different => absurd rfl different⟩
    obtain ⟨result, stored⟩ := value
    obtain ⟨_, sameDisk, log⟩ := finishes
    cases task with
    | openStore => exact valid_same sameDisk log valid
    | commit payload =>
      cases result with
      | error failure => exact valid_same sameDisk log valid
      | ok value =>
        obtain ⟨file, ⟨name, candidate, earlier, manifest, newest⟩, only⟩ := done
        refine valid.relog sameDisk ?_
        intro entries outcome
        rw [only entries outcome]
        refine ⟨name, candidate, payload.1, sameDisk ▸ manifest, ?_⟩
        have acknowledged : after.log = earlier ++ [⟨payload.1, true⟩] := by
          rw [← Attempts.acknowledge_begun, ← newest]
          exact log
        rw [acknowledged]
        exact Attempts.recent_last none earlier ⟨payload.1, true⟩
  crashes := by
    intro agent world memory after valid _ crashes
    exact ⟨valid_crash crashes.2.1 crashes.2.2 valid, trivial,
      fun other different => absurd rfl different⟩

end Commit

end PrivateContinuum.Storage
