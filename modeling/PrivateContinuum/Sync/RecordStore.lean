import PrivateContinuum.Core.Durability
import PrivateContinuum.Sync.Protection
import PrivateContinuum.Sync.RecordCodec

namespace PrivateContinuum.Sync

open PrivateContinuum.Library PrivateContinuum.Core

variable {Op : Type} {Answer : Op → Type} {Backend Failure Candidate World : Type}

inductive ProtectedSyncStoreError (Failure : Type) where
  | backend (failure : Failure)
  | recovery (failure : SyncRecoveryError)
  | protection (failure : ProtectionError)
  | emptyContext

/-- `b"A.P.C. durable sync recovery\0v1\0"` -/
def recordContextDomain : Bytes :=
  [65, 46, 80, 46, 67, 46, 32, 100, 117, 114, 97, 98, 108, 101, 32, 115, 121, 110, 99, 32,
    114, 101, 99, 111, 118, 101, 114, 121, 0, 118, 49, 0]

/-- The key and the context of a store, with the cipher. Its backend is separate. -/
structure ProtectedSyncRecordStore where
  aead : Aead
  key : ContentKey
  context : Bytes
  filled : context ≠ []

namespace ProtectedSyncRecordStore

/-- `ProtectedSyncRecordStore::new` -/
def create (aead : Aead) (key : ContentKey) (context : Bytes) :
    Except (ProtectedSyncStoreError Empty) ProtectedSyncRecordStore :=
  if filled : context ≠ [] then .ok ⟨aead, key, context, filled⟩ else .error .emptyContext

variable (store : ProtectedSyncRecordStore)

def protectionContext : Bytes := recordContextDomain ++ store.context

/-- Authentication and strict decoding of what the backend has committed. -/
def openRecord (envelope : Bytes) : Except (ProtectedSyncStoreError Failure) DurableSyncRecord := do
  let clear ← (unprotect store.aead store.key store.protectionContext envelope).mapError
    ProtectedSyncStoreError.protection
  (decodeDurableSyncRecord clear).mapError ProtectedSyncStoreError.recovery

def openCommitted :
    Option Bytes → Except (ProtectedSyncStoreError Failure) (Option DurableSyncRecord)
  | none => .ok none
  | some envelope => do
    let record ← store.openRecord envelope
    pure (some record)

def loadCommitted (backend : DurabilityBackend Op Answer Backend Failure Bytes Candidate) :
    Routine Op Answer Backend (ProtectedSyncStoreError Failure) (Option DurableSyncRecord) := do
  let committed ← backend.loadCommitted.mapError ProtectedSyncStoreError.backend
  .check (store.openCommitted committed)

/-- The bytes that are committed for a record. -/
def sealRecord (record : DurableSyncRecord) (generated : Option Nonce) :
    Except (ProtectedSyncStoreError Failure) Bytes := do
  let clear ← (encodeDurableSyncRecord record).mapError ProtectedSyncStoreError.recovery
  (protect store.aead store.key store.protectionContext clear generated).mapError
    ProtectedSyncStoreError.protection

def persist (backend : DurabilityBackend Op Answer Backend Failure Bytes Candidate)
    (record : DurableSyncRecord) (generated : Option Nonce) :
    Routine Op Answer Backend (ProtectedSyncStoreError Failure) Unit := do
  let envelope ← .check (store.sealRecord record generated)
  (commitDurable backend envelope).mapError ProtectedSyncStoreError.backend

theorem openRecord_seal {record : DurableSyncRecord} {generated : Option Nonce}
    {envelope : Bytes}
    (done : (store.sealRecord record generated : Except (ProtectedSyncStoreError Failure) Bytes) =
      .ok envelope) :
    (store.openRecord envelope : Except (ProtectedSyncStoreError Failure) DurableSyncRecord) =
      .ok record := by
  simp only [sealRecord, bind_ok_iff, mapError_ok_iff] at done
  obtain ⟨clear, encoded, sealed⟩ := done
  simp only [openRecord, bind_ok_iff, mapError_ok_iff]
  exact ⟨clear, unprotect_protect sealed, decodeDurableSyncRecord_encode encoded⟩

end ProtectedSyncRecordStore

/-- A call of `persist`, with the nonce that the random source yields for it. -/
structure PersistCall where
  record : DurableSyncRecord
  generated : Option Nonce

/-- The backend and the record commits that were begun. -/
structure StoreWorld (World : Type) where
  backend : World
  log : Attempts DurableSyncRecord

/-- One process that persists records, one call of the backend after another. -/
def storeAgents (contract : DurabilityContract World Bytes Candidate Failure)
    (store : ProtectedSyncRecordStore) :
    Agents Unit (StoreWorld World) Unit PersistCall (BackendCall Bytes Candidate)
      (BackendCall.Reply Failure) (Except (ProtectedSyncStoreError Failure) Unit × Unit) where
  Begins _ _ world call program after :=
    program = store.persist (calledBackend Failure Bytes Candidate) call.record call.generated () ∧
      after = ⟨world.backend, world.log.begun call.record⟩
  Answers _ world op answer after :=
    contract.Answers world.backend op answer after.backend ∧ after.log = world.log
  Finishes _ _ value world _ after := after.backend = world.backend ∧
    after.log = match value.1 with
      | .ok () => world.log.acknowledge
      | .error _ => world.log
  Crashes _ world _ after := contract.Crashes world.backend after.backend ∧ after.log = world.log

namespace RecordStore

variable (contract : DurabilityContract World Bytes Candidate Failure)
  (store : ProtectedSyncRecordStore) (initial : Option DurableSyncRecord)

/-- The candidate survives crashes and opens to the record. -/
def Holds (backend : World) (candidate : Candidate) (record : DurableSyncRecord) : Prop :=
  ∃ envelope, contract.Durable backend candidate envelope ∧
    (store.openRecord envelope : Except (ProtectedSyncStoreError Failure) _) = .ok record

/-- A root that may come back is one that a load may return. -/
def Rooted (world : StoreWorld World) : Option Candidate → Prop
  | none => Attempts.Recent initial world.log none
  | some candidate => ∃ record, Holds contract store world.backend candidate record ∧
    Attempts.Recent initial world.log (some record)

/-- The candidate holds the record whose commit is under way. -/
def Ready (world : StoreWorld World) (candidate : Candidate) : Prop :=
  ∃ record earlier, Holds contract store world.backend candidate record ∧
    world.log = Attempts.begun earlier record

def guard : (storeAgents contract store).Guard where
  Valid world := ∀ root, contract.MayRoot world.backend root →
    Rooted contract store initial world root
  Rely _ world now := now = world
  Permits _ world op := match op with
    | .publishCandidate candidate => Ready contract store world candidate
    | .loadCommitted | .writeCandidate _ | .syncCandidate _ | .syncCommittedRoot => True
  Idle _ _ _ := True
  Done _ _ value world := match value.1 with
    | .ok () => ∃ candidate, Ready contract store world candidate ∧
      ∀ root, contract.MayRoot world.backend root → root = some candidate
    | .error _ => True
  rely_refl _ _ := rfl
  rely_trans := by
    intro agent first second third one other
    rw [other, one]

variable {contract store initial} {world after : StoreWorld World} {candidate : Candidate}
  {record : DurableSyncRecord}

theorem Holds.answered {backend later : World} {op : BackendCall Bytes Candidate}
    {answer : op.Reply Failure} (holds : Holds contract store backend candidate record)
    (told : contract.Answers backend op answer later) :
    Holds contract store later candidate record := by
  obtain ⟨envelope, durable, opens⟩ := holds
  exact ⟨envelope, contract.kept told durable, opens⟩

theorem Rooted.kept {root : Option Candidate} (rooted : Rooted contract store initial world root)
    (holds : ∀ candidate record, Holds contract store world.backend candidate record →
      Holds contract store after.backend candidate record)
    (recent : ∀ found, Attempts.Recent initial world.log found →
      Attempts.Recent initial after.log found) :
    Rooted contract store initial after root := by
  cases root with
  | none => exact recent none rooted
  | some candidate =>
    obtain ⟨record, held, last⟩ := rooted
    exact ⟨record, holds candidate record held, recent (some record) last⟩

theorem Ready.rooted (ready : Ready contract store world candidate) :
    Rooted contract store initial world (some candidate) := by
  obtain ⟨record, earlier, held, last⟩ := ready
  refine ⟨record, held, ?_⟩
  rw [last]
  exact Attempts.recent_last initial earlier ⟨record, false⟩

theorem Ready.answered {op : BackendCall Bytes Candidate} {answer : op.Reply Failure}
    (ready : Ready contract store world candidate)
    (told : (storeAgents contract store).Answers () world op answer after) :
    Ready contract store after candidate := by
  obtain ⟨record, earlier, held, last⟩ := ready
  exact ⟨record, earlier, held.answered told.1, told.2.trans last⟩

/-- A permitted call leaves only roots that a load may return. -/
theorem valid_answered {op : BackendCall Bytes Candidate} {answer : op.Reply Failure}
    (valid : (guard contract store initial).Valid world)
    (permitted : (guard contract store initial).Permits () world op)
    (told : (storeAgents contract store).Answers () world op answer after) :
    (guard contract store initial).Valid after := by
  have kept : ∀ root, Rooted contract store initial world root →
      Rooted contract store initial after root := by
    intro root rooted
    exact rooted.kept (fun _ _ held => held.answered told.1) fun found recent => told.2 ▸ recent
  intro root may
  by_cases publishes : ∃ candidate, op = .publishCandidate candidate
  · obtain ⟨candidate, same⟩ := publishes
    subst same
    rcases contract.publish_roots told.1 may with old | new
    · exact kept root (valid root old)
    · subst new
      have ready : Ready contract store world candidate := permitted
      exact kept _ ready.rooted
  · have other : ∀ candidate, op ≠ .publishCandidate candidate :=
      fun candidate same => publishes ⟨candidate, same⟩
    exact kept root (valid root (contract.other_roots other told.1 may))

/-- Nobody else moves between two calls of the process. -/
theorem ensures_call {op : BackendCall Bytes Candidate} {Value : Type}
    {read : op.Reply Failure → Except Failure Value}
    {post : Except Failure Value → Unit → StoreWorld World → Prop}
    (permitted : (guard contract store initial).Permits () world op)
    (answered : ∀ answer after, (storeAgents contract store).Answers () world op answer after →
      post (read answer) () after) :
    ((guard contract store initial).around ()).Ensures (.ask op read) () world post := by
  apply Surroundings.ensures_ask
  intro now same _
  have same : now = world := same
  subst same
  exact ⟨permitted, fun answer after told _ => answered answer after told⟩

/-- A commit that succeeds leaves its own candidate as the only root. -/
theorem ensures_commitDurable {envelope : Bytes} {earlier : Attempts DurableSyncRecord}
    (valid : (guard contract store initial).Valid world)
    (last : world.log = Attempts.begun earlier record)
    (opens : (store.openRecord envelope : Except (ProtectedSyncStoreError Failure) _) =
      .ok record) :
    ((guard contract store initial).around ()).Ensures
      (commitDurable (calledBackend Failure Bytes Candidate) envelope)
      () world fun outcome _ now => outcome = .ok () →
        ∃ candidate, Ready contract store now candidate ∧
        ∀ root, contract.MayRoot now.backend root → root = some candidate := by
  have written : ((guard contract store initial).around ()).Ensures
      ((calledBackend Failure Bytes Candidate).writeCandidate envelope)
        () world fun outcome _ now =>
        now.log = world.log ∧ ∀ candidate, outcome = .ok candidate →
          contract.Written now.backend candidate envelope := by
    refine ensures_call trivial ?_
    intro answer after told
    refine ⟨told.2, ?_⟩
    intro candidate done
    cases done
    exact contract.written told.1
  refine Surroundings.Ensures.bind valid written ?_ (fun failure _ _ _ _ impossible => by
    cases impossible)
  intro candidate _ middle middleValid ⟨sameLog, complete⟩
  have synced : ((guard contract store initial).around ()).Ensures
      ((calledBackend Failure Bytes Candidate).syncCandidate candidate)
        () middle fun outcome _ now =>
        outcome = .ok () → Ready contract store now candidate := by
    refine ensures_call trivial ?_
    intro answer after told done
    cases done
    exact ⟨record, earlier, ⟨envelope, contract.synced told.1 (complete candidate rfl), opens⟩,
      (told.2.trans sameLog).trans last⟩
  refine Surroundings.Ensures.bind middleValid synced ?_ (fun failure _ _ _ _ impossible => by
    cases impossible)
  intro _ _ prepared preparedValid ready
  have published : ((guard contract store initial).around ()).Ensures
      ((calledBackend Failure Bytes Candidate).publishCandidate candidate)
        () prepared fun outcome _ now =>
        outcome = .ok () → Ready contract store now candidate ∧
          contract.visibleRoot now.backend = some candidate := by
    refine ensures_call (ready rfl) ?_
    intro answer after told done
    cases done
    exact ⟨(ready rfl).answered told, contract.published told.1⟩
  refine Surroundings.Ensures.bind preparedValid published ?_ (fun failure _ _ _ _ impossible => by
    cases impossible)
  intro _ _ visible visibleValid shown
  refine ensures_call trivial ?_
  intro answer after told done
  cases done
  obtain ⟨stillReady, root⟩ := shown rfl
  refine ⟨candidate, stillReady.answered told, ?_⟩
  intro found may
  exact (contract.barrier told.1 may).trans root

theorem ensures_persist {earlier : Attempts DurableSyncRecord} {generated : Option Nonce}
    (valid : (guard contract store initial).Valid world)
    (last : world.log = Attempts.begun earlier record) :
    ((guard contract store initial).around ()).Ensures
      (store.persist (calledBackend Failure Bytes Candidate) record generated) () world
      fun outcome _ now => outcome = .ok () → ∃ candidate, Ready contract store now candidate ∧
        ∀ root, contract.MayRoot now.backend root → root = some candidate := by
  have checked : ((guard contract store initial).around ()).Ensures
      (.check (store.sealRecord record generated)) () world fun outcome _ now => now = world ∧
        outcome =
          (store.sealRecord record generated : Except (ProtectedSyncStoreError Failure) Bytes) :=
    Surroundings.ensures_check ⟨rfl, rfl⟩
  refine Surroundings.Ensures.bind valid checked ?_ (fun failure _ _ _ _ impossible => by
    cases impossible)
  intro envelope _ now nowValid ⟨same, done⟩
  subst same
  have opens := store.openRecord_seal done.symm
  refine (ensures_commitDurable nowValid last opens).mapError nowValid ?_
  intro outcome _ later _ reached done
  cases outcome with
  | ok value => exact reached rfl
  | error failure => cases done

/-- The guard holds through every step: begin, call, finish and crash. -/
theorem guard_sound : (guard contract store initial).Sound where
  idle_stable := fun _ _ _ _ _ _ _ => trivial
  done_stable := by
    intro agent task value before now same _ done
    have same : now = before := same
    subst same
    exact done
  begins := by
    intro agent memory world task program after valid _ begins
    obtain ⟨same, started⟩ := begins
    subst same
    subst started
    have stillValid : (guard contract store initial).Valid ⟨world.backend,
        world.log.begun task.record⟩ :=
      fun root may => (valid root may).kept (fun _ _ held => held) fun _ recent => recent.begun
    refine ⟨stillValid, ?_, fun other different => absurd rfl different⟩
    refine Surroundings.Safe.weaken stillValid (ensures_persist stillValid rfl) ?_
    intro value now _ reached
    obtain ⟨outcome, stored⟩ := value
    cases outcome with
    | ok done => exact reached rfl
    | error failure => trivial
  answers := by
    intro agent world op answer after valid permitted told
    exact ⟨valid_answered valid permitted told, fun other different => absurd rfl different⟩
  finishes := by
    intro agent task value world memory after valid done finishes
    refine ⟨?_, trivial, fun other different => absurd rfl different⟩
    obtain ⟨outcome, stored⟩ := value
    obtain ⟨sameBackend, log⟩ := finishes
    cases outcome with
    | error failure =>
      intro root may
      rw [sameBackend] at may
      exact (valid root may).kept (fun _ _ held => sameBackend ▸ held) fun _ recent => log ▸ recent
    | ok value =>
      obtain ⟨candidate, ⟨record, earlier, held, last⟩, only⟩ := done
      intro root may
      rw [sameBackend] at may
      rw [only root may]
      refine ⟨record, sameBackend ▸ held, ?_⟩
      have acknowledged : after.log = earlier ++ [⟨record, true⟩] := by
        rw [← Attempts.acknowledge_begun, ← last]
        exact log
      rw [acknowledged]
      exact Attempts.recent_last initial earlier ⟨record, true⟩
  crashes := by
    intro agent world memory after valid _ crashes
    refine ⟨?_, trivial, fun other different => absurd rfl different⟩
    intro root may
    refine (valid root (contract.crash_roots crashes.1 may)).kept ?_ fun _ recent =>
      crashes.2 ▸ recent
    intro candidate record held
    obtain ⟨envelope, durable, opens⟩ := held
    exact ⟨envelope, contract.crash_kept crashes.1 durable, opens⟩

theorem load_rooted
    {answer : (BackendCall.loadCommitted : BackendCall Bytes Candidate).Reply Failure}
    {later : World} (valid : (guard contract store initial).Valid world)
    (told : contract.Answers world.backend .loadCommitted answer later) :
    ∃ committed found, answer = .ok committed ∧
      (store.openCommitted committed : Except (ProtectedSyncStoreError Failure) _) = .ok found ∧
      Attempts.Recent initial world.log found := by
  rcases contract.load told with ⟨same, may⟩ | ⟨candidate, envelope, same, may, durable⟩
  · exact ⟨none, none, same, rfl, valid none may⟩
  · obtain ⟨record, ⟨kept, keptDurable, opens⟩, recent⟩ := valid (some candidate) may
    have equal := contract.durable_unique durable keptDurable
    subst equal
    refine ⟨some envelope, some record, same, ?_, recent⟩
    rw [ProtectedSyncRecordStore.openCommitted, opens]
    rfl

variable (contract store initial) in
/-- The backend has committed the initial record, or none. -/
def StartsFrom (backend : World) : Prop :=
  ∀ root, contract.MayRoot backend root → Rooted contract store initial ⟨backend, []⟩ root

/-- After any calls, failures and crashes, a load returns the record of the last
acknowledged persist or of one that was attempted after it. -/
theorem load_after_crash_recent {start : World} (starts : StartsFrom contract store initial start)
    {config : Config Unit (StoreWorld World) Unit PersistCall (BackendCall Bytes Candidate)
      (BackendCall.Reply Failure) (Except (ProtectedSyncStoreError Failure) Unit × Unit)}
    (reached : (storeAgents contract store).Reaches ⟨⟨start, []⟩, fun _ => .idle ()⟩ config) :
    (∃ value after,
      contract.around.Runs (store.loadCommitted (calledBackend Failure Bytes Candidate) ())
      config.world.backend value after) ∧
    ∀ value after,
      contract.around.Runs (store.loadCommitted (calledBackend Failure Bytes Candidate) ())
      config.world.backend value after →
        ∃ found, value.1 = .ok found ∧ Attempts.Recent initial config.world.log found := by
  have holds : (guard contract store initial).Holds ⟨⟨start, []⟩, fun _ => .idle ()⟩ :=
    ⟨starts, fun _ => trivial⟩
  obtain ⟨valid, _⟩ := guard_sound.reaches holds reached
  constructor
  · obtain ⟨answer, after, told⟩ := contract.load_answers config.world.backend
    obtain ⟨committed, found, rfl, opened, _⟩ := load_rooted valid told
    refine ⟨(.ok found, ()), after, .call told ?_⟩
    rw [← opened]
    exact .ret _ _
  · intro value after ran
    cases ran with
    | call told rest =>
      obtain ⟨committed, found, rfl, opened, recent⟩ := load_rooted valid told
      cases rest
      exact ⟨found, opened, recent⟩

/-- One record is persisted on the test backend, which then crashes. -/
theorem load_after_crash_recent_persisted :
    let store : ProtectedSyncRecordStore := ⟨.plain, ⟨List.replicate 32 7, rfl⟩, [1], by simp⟩
    let record : DurableSyncRecord := .create [5] none
    ∃ config : Config Unit (StoreWorld (CrashBackend Bytes)) Unit PersistCall
        (BackendCall Bytes Nat)
        (BackendCall.Reply Empty) (Except (ProtectedSyncStoreError Empty) Unit × Unit),
      (storeAgents (CrashBackend.contract Bytes) store).Reaches ⟨⟨.empty, []⟩,
        fun _ => .idle ()⟩ config ∧
      config.world.log = [⟨record, true⟩] ∧
      ∃ value after, (CrashBackend.contract Bytes).around.Runs
        (store.loadCommitted (calledBackend Empty Bytes Nat) ()) config.world.backend value after ∧
        value.1 = .ok (some record) := by
  intro store record
  let system := storeAgents (CrashBackend.contract Bytes) store
  let generated : Option Nonce := some ⟨List.replicate 24 3, rfl⟩
  obtain ⟨envelope, sealed⟩ : ∃ envelope,
      (store.sealRecord record generated : Except (ProtectedSyncStoreError Empty) Bytes) =
        .ok envelope := by
    have some' :
      (store.sealRecord record generated :
        Except (ProtectedSyncStoreError Empty) Bytes).toOption.isSome =
        true := by decide +kernel
    obtain ⟨envelope, found⟩ := Option.isSome_iff_exists.mp some'
    exact ⟨envelope, toOption_eq_some_iff.mp found⟩
  let written : CrashBackend Bytes :=
    ⟨1, Function.update (fun _ => none) 0 (some envelope), fun _ => false, none, none,
    by simp, by simp⟩
  let synced : CrashBackend Bytes :=
    ⟨1, written.candidates, Function.update (fun _ => false) 0 true, none, none,
    by simp [Function.update_apply], by simp⟩
  let published : CrashBackend Bytes := ⟨1, written.candidates, synced.durable, some 0, none,
    synced.below, by simp [synced, written]⟩
  let committed : CrashBackend Bytes := ⟨1, written.candidates, synced.durable, some 0, some 0,
    synced.below, by simp [synced, written]⟩
  let call : PersistCall := ⟨record, generated⟩
  let commit := (commitDurable (calledBackend Empty Bytes Nat) envelope).mapError
    ProtectedSyncStoreError.backend
  have program : store.persist (calledBackend Empty Bytes Nat) record generated () = commit () := by
    simp only [ProtectedSyncRecordStore.persist, bind, Routine.andThen, Routine.check,
      Proc.bind, sealed, commit]
  let log : Attempts DurableSyncRecord := [⟨record, false⟩]
  have begins : system.Begins () () ⟨.empty, []⟩ call (commit ()) ⟨.empty, log⟩ :=
    ⟨program.symm, rfl⟩
  have writes : system.Answers () ⟨.empty, log⟩ (.writeCandidate envelope) (.ok 0) ⟨written, log⟩ :=
    ⟨⟨rfl, rfl, rfl, rfl, rfl, rfl⟩, rfl⟩
  have syncs : system.Answers () ⟨written, log⟩ (.syncCandidate 0) (.ok ()) ⟨synced, log⟩ :=
    ⟨⟨rfl, rfl, rfl, rfl, rfl, rfl⟩, rfl⟩
  have publishes : system.Answers () ⟨synced, log⟩ (.publishCandidate 0) (.ok ())
      ⟨published, log⟩ :=
    ⟨⟨rfl, rfl, rfl, rfl, rfl, rfl⟩, rfl⟩
  have commits : system.Answers () ⟨published, log⟩ .syncCommittedRoot (.ok ()) ⟨committed, log⟩ :=
    ⟨⟨rfl, rfl, rfl, rfl, rfl⟩, rfl⟩
  have finishes : system.Finishes () call (.ok (), ()) ⟨committed, log⟩ () ⟨committed,
      [⟨record, true⟩]⟩ := ⟨rfl, rfl⟩
  have crashes : system.Crashes () ⟨committed, [⟨record, true⟩]⟩ () ⟨committed, [⟨record, true⟩]⟩ :=
    ⟨⟨Or.inl rfl, rfl, rfl, fun _ _ => rfl⟩, rfl⟩
  let start : Config Unit (StoreWorld (CrashBackend Bytes)) Unit PersistCall (BackendCall Bytes Nat)
    (BackendCall.Reply Empty) (Except (ProtectedSyncStoreError Empty) Unit × Unit) :=
    ⟨⟨.empty, []⟩, fun _ => .idle ()⟩
  have begun : system.Reaches start _ :=
    Relation.ReflTransGen.refl.tail (.begin () () call _ _ rfl begins)
  have wrote : system.Reaches start _ := begun.tail (.call () call _ _ _ _ rfl writes)
  have barred : system.Reaches start _ := wrote.tail (.call () call _ _ _ _ rfl syncs)
  have shown : system.Reaches start _ := barred.tail (.call () call _ _ _ _ rfl publishes)
  have rooted : system.Reaches start _ := shown.tail (.call () call _ _ _ _ rfl commits)
  have done : system.Reaches start _ := rooted.tail (.finish () call _ _ _ rfl finishes)
  have crashed : system.Reaches start _ := done.tail (.crash () () _ crashes)
  refine ⟨_, crashed, rfl, ?_⟩
  have starts : StartsFrom (CrashBackend.contract Bytes) store none .empty := by
    intro root may
    have none : root = none := by simpa [CrashBackend.contract, CrashBackend.empty] using may
    subst none
    exact Or.inl ⟨rfl, by simp [Attempts.NoneAcknowledged]⟩
  obtain ⟨⟨value, after, ran⟩, loads⟩ := load_after_crash_recent starts crashed
  obtain ⟨found, same, recent⟩ := loads value after ran
  refine ⟨value, after, ran, ?_⟩
  rcases recent with ⟨_, unacknowledged⟩ | ⟨before, attempt, later, split, last, _⟩
  · have impossible := unacknowledged ⟨record, true⟩ (List.mem_singleton.mpr rfl)
    cases impossible
  · have only : attempt ∈ [(⟨record, true⟩ : Attempt DurableSyncRecord)] := by
      have inside : attempt ∈ before ++ attempt :: later := by simp
      rwa [← split] at inside
    rw [same, last, List.mem_singleton.mp only]

end RecordStore

end PrivateContinuum.Sync
