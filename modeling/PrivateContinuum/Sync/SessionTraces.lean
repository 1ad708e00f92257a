import PrivateContinuum.Library.Execution
import PrivateContinuum.Sync.RecordHistory

namespace PrivateContinuum.Sync

open Std (ExtTreeMap ExtTreeSet)
open PrivateContinuum.Library PrivateContinuum.Core

variable {P : Platform} {Live : Type}

abbrev SessionEvents (P : Platform) := List (Event (SessionOp P) SessionOp.Answer)

/-- `TransportCursorCodec` -/
structure CursorCodec (P : Platform) where
  encode : P.Revision → Except P.CursorError TransportCursor
  decode : TransportCursor → Except P.CursorError P.Revision

namespace CursorCodec

variable (codec : CursorCodec P)

/-- Every cursor call was answered by the codec. -/
def Answered (events : SessionEvents P) : Prop :=
  (∀ revision answer,
    (⟨.encodeCursor revision, answer⟩ : Event (SessionOp P) SessionOp.Answer) ∈ events →
    answer = codec.encode revision) ∧
  ∀ cursor answer,
    (⟨.decodeCursor cursor, answer⟩ : Event (SessionOp P) SessionOp.Answer) ∈ events →
    answer = codec.decode cursor

/-- `cursor.map(decode).transpose()` -/
def decodeOptional : Option TransportCursor → Except P.CursorError (Option P.Revision)
  | none => .ok none
  | some cursor => (codec.decode cursor).map some

variable {codec} in
theorem Answered.encodes {events : SessionEvents P} {head : P.Revision} {cursor : TransportCursor}
    (answered : codec.Answered events)
    (asked : (⟨.encodeCursor head, .ok cursor⟩ : Event (SessionOp P) SessionOp.Answer) ∈ events) :
    codec.encode head = .ok cursor :=
  (answered.1 head _ asked).symm

variable {codec} in
theorem Answered.part {events others : SessionEvents P} (answered : codec.Answered events)
    (inside : ∀ event ∈ others, event ∈ events) : codec.Answered others :=
  ⟨fun revision answer asked => answered.1 revision answer (inside _ asked),
    fun cursor answer asked => answered.2 cursor answer (inside _ asked)⟩

/-- A run whose surroundings hold the codec answers by it. -/
theorem answered_transcript {Value : Type} {reply : (op : SessionOp P) → op.Answer}
    (encodes : ∀ revision, reply (.encodeCursor revision) = codec.encode revision)
    (decodes : ∀ cursor, reply (.decodeCursor cursor) = codec.decode cursor)
    (program : Proc (SessionOp P) SessionOp.Answer Value) :
    codec.Answered (program.transcript reply).1 :=
  ⟨fun revision _ member => (Proc.transcript_told member).trans (encodes revision),
    fun cursor _ member => (Proc.transcript_told member).trans (decodes cursor)⟩

end CursorCodec

def SessionOp.isPublish : SessionOp P → Bool
  | .publish _ _ => true
  | _ => false

/-- Nothing is published. -/
def SessionOp.Quiet (op : SessionOp P) : Prop := op.isPublish = false

/-- The failure is one of the codec or of the transport. -/
def SessionIoError.External : SessionIoError P → Prop
  | .recovery _ => False
  | _ => True

def SessionCommitError.External : SessionCommitError P → Prop
  | .recovery _ => False
  | _ => True

def BatchPublishError.External : BatchPublishError P → Prop
  | .cursor _ => True
  | .transport _ => True
  | _ => False

def BatchCommitError.External : BatchCommitError P → Prop
  | .cursor _ => True
  | .store _ => True
  | _ => False

namespace Session

open Routine Conduct

variable {Failure : Type} {session stored : Session Live} {events : SessionEvents P}

theorem confined_encodeCursor {revision : P.Revision} :
    (encodeCursor revision : SessionRoutine P Live _ _).Confined SessionOp.Quiet fun _ => True :=
  confined_ask rfl fun _ _ _ => trivial

theorem confined_decodeCursor {cursor : TransportCursor} :
    (decodeCursor cursor : SessionRoutine P Live _ _).Confined SessionOp.Quiet fun _ => True :=
  confined_ask rfl fun _ _ _ => trivial

theorem confined_fetchSince {known : Option P.Revision} :
    (fetchSince known : SessionRoutine P Live _ _).Confined SessionOp.Quiet fun _ => True :=
  confined_ask rfl fun _ _ _ => trivial

theorem confined_persist {next : DurableSyncRecord} :
    (persist next : SessionRoutine P Live _ _).Confined SessionOp.Quiet fun _ => True :=
  confined_ask rfl fun _ _ _ => trivial

theorem confined_decodeOptional {cursor : Option TransportCursor} :
    (decodeOptional cursor : SessionRoutine P Live _ _).Confined SessionOp.Quiet fun _ => True := by
  cases cursor with
  | none => exact confined_pure
  | some cursor =>
    apply Confined.bind confined_decodeCursor
    intro revision
    exact confined_pure

theorem confined_swapRecord {fails : Failure → Prop} {next : DurableSyncRecord} :
    (swapRecord next : SessionRoutine P Live Failure Unit).Confined SessionOp.Quiet fails :=
  Confined.bind confined_load fun _ => confined_store

theorem confined_fetchFromDurableCursor :
    (fetchFromDurableCursor : SessionRoutine P Live _ _).Confined SessionOp.Quiet
      SessionIoError.External := by
  apply Confined.bind confined_load
  intro session
  apply Confined.bind (Confined.mapError confined_decodeOptional fun _ _ => trivial)
  intro known
  exact Confined.mapError confined_fetchSince fun _ _ => trivial

theorem confined_commitReceived {trusted : Bytes} {head : P.Revision} :
    (commitReceived trusted head : SessionRoutine P Live _ _).Confined SessionOp.Quiet
      SessionCommitError.External := by
  apply Confined.bind (Confined.mapError confined_encodeCursor fun _ _ => trivial)
  intro cursor
  apply Confined.bind confined_load
  intro session
  apply Confined.bind (Confined.mapError confined_persist fun _ _ => trivial)
  intro _
  exact confined_swapRecord

theorem confined_commitReconciledOutboxBatch {ids : ExtTreeSet PublicationId} {trusted : Bytes}
    {head : P.Revision} :
    (commitReconciledOutboxBatch ids trusted head : SessionRoutine P Live _ _).Confined
      SessionOp.Quiet fun _ => True := by
  unfold commitReconciledOutboxBatch
  by_cases empty : ids.isEmpty = true
  · rw [if_pos empty]
    exact confined_check fun _ _ => trivial
  · rw [if_neg empty]
    apply Confined.bind (Confined.mapError confined_encodeCursor fun _ _ => trivial)
    intro cursor
    apply Confined.bind confined_load
    intro session
    apply Confined.bind (confined_check fun _ _ => trivial)
    intro next
    apply Confined.bind (Confined.mapError confined_persist fun _ _ => trivial)
    intro _
    exact confined_swapRecord

/-- The entries of the batch give one cursor and all their objects. -/
theorem gather_exists {record : DurableSyncRecord} {ids : List PublicationId}
    {start : Option (Option TransportCursor) × List Bytes} {cursor : Option TransportCursor}
    (pending : ∀ id ∈ ids, ∃ entry, record.outbox[id]? = some entry ∧ entry.expectedCursor = cursor)
    (begun : start.1 = none ∨ start.1 = some cursor) :
    ∃ gathered, ids.foldlM (gatherEntry record : _ → _ → Except (BatchPublishError P) _) start =
      .ok gathered := by
  induction ids generalizing start with
  | nil => exact ⟨start, rfl⟩
  | cons id rest ih =>
    obtain ⟨entry, found, same⟩ := pending id List.mem_cons_self
    have stepped : (gatherEntry record start id : Except (BatchPublishError P) _) =
        .ok (some cursor, start.2 ++ entry.objects) := by
      rcases begun with fresh | known
      · simp [gatherEntry, found, fresh, same]
      · simp [gatherEntry, found, known, same]
    obtain ⟨gathered, done⟩ :=
      ih (fun other member => pending other (List.mem_cons_of_mem id member))
      (Or.inr rfl : (some cursor, start.2 ++ entry.objects).1 = none ∨ _)
    exact ⟨gathered, by rw [List.foldlM_cons, stepped]; exact done⟩

/-- What decoding an optional cursor asks and gives. -/
theorem traces_decodeOptional {cursor : Option TransportCursor}
    {outcome : Except P.CursorError (Option P.Revision)}
    (traced : ((decodeOptional cursor : SessionRoutine P Live _ _) session).Traces events
      (outcome, stored)) :
    stored = session ∧ (∀ event ∈ events, ∃ known answer, event = ⟨.decodeCursor known, answer⟩) ∧
      ∀ codec : CursorCodec P, codec.Answered events → outcome = codec.decodeOptional cursor := by
  cases cursor with
  | none =>
    obtain ⟨none, same⟩ := traced
    cases same
    subst none
    exact ⟨rfl, by simp, fun codec _ => rfl⟩
  | some cursor =>
    rcases traces_bind traced with ⟨failure, after, asked, same⟩ | ⟨revision, after, early, late,
      split, asked, ended⟩
    · obtain ⟨answer, only, told⟩ := traces_ask asked
      cases same
      cases told
      subst only
      refine ⟨rfl, fun event member => ⟨cursor, _, List.mem_singleton.mp member⟩, ?_⟩
      intro codec answered
      have known := answered.2 cursor _ List.mem_cons_self
      simp [CursorCodec.decodeOptional, ← known, Except.map]
    · obtain ⟨answer, only, told⟩ := traces_ask asked
      obtain ⟨none, same⟩ := ended
      cases same
      cases told
      subst only
      subst none
      subst split
      refine ⟨rfl, fun event member => ⟨cursor, _, List.mem_singleton.mp member⟩, ?_⟩
      intro codec answered
      have known := answered.2 cursor _ List.mem_cons_self
      simp [CursorCodec.decodeOptional, ← known, Except.map]

/-- A batch of pending entries goes out once, or a cursor failed to decode. -/
theorem traces_publishStagedBatch {ids : ExtTreeSet PublicationId}
    {cursor : Option TransportCursor}
    {outcome : Except (BatchPublishError P) (PublishOutcome P.Revision)}
    (filled : ids.isEmpty = false) (pending : PendingAt session.record ids cursor)
    (traced : (publishStagedBatch ids session).Traces events (outcome, stored)) :
    stored = session ∧
        ((∃ failure, outcome = .error (.cursor failure) ∧ (∀ event ∈ events, event.1.Quiet) ∧
        ∀ codec : CursorCodec P, codec.Answered events →
        codec.decodeOptional cursor = .error failure) ∨
      ∃ early expected answer,
        events = early ++ [⟨.publish expected (batchObjects session.record ids), answer⟩] ∧
        (∀ event ∈ early, ∃ known told, event = ⟨.decodeCursor known, told⟩) ∧
        (∀ codec : CursorCodec P, codec.Answered early →
          codec.decodeOptional cursor = .ok expected) ∧
        outcome = answer.mapError BatchPublishError.transport) := by
  obtain ⟨gathered, done⟩ : ∃ gathered, ids.toList.foldlM
      (gatherEntry session.record : _ → _ →
        Except (BatchPublishError P) _) (none, []) = .ok gathered :=
    gather_exists (fun id member => pending id (by simpa using member)) (Or.inl rfl)
  have exactly := gather_batch filled pending done
  have begun : ((do
      let expected ← (decodeOptional gathered.1.join).mapError BatchPublishError.cursor
      (publish expected gathered.2).mapError BatchPublishError.transport :
        SessionRoutine P Live _ _) session).Traces events (outcome, stored) := by
    have unfolded := traced
    simp only [publishStagedBatch, filled, Bool.false_eq_true, ↓reduceIte] at unfolded
    change ((Routine.check (ids.toList.foldlM (gatherEntry session.record) (none, [])) >>=
      _) session).Traces events (outcome, stored) at unfolded
    rw [done] at unfolded
    exact unfolded
  rw [exactly.1, exactly.2, Option.join_some] at begun
  rcases traces_bind begun with ⟨failure, after, only, same⟩ | ⟨expected, after, early, late,
    split, first, later⟩
  · obtain ⟨decoded, kept, asked, told⟩ := traces_mapError only
    obtain ⟨still, calls, agrees⟩ := traces_decodeOptional asked
    cases same
    cases decoded with
    | ok value => cases told
    | error cause =>
      cases told
      refine ⟨still, Or.inl ⟨cause, rfl, ?_, fun codec answered => (agrees codec answered).symm⟩⟩
      intro event member
      obtain ⟨known, answer, this⟩ := calls event member
      exact this ▸ rfl
  · obtain ⟨decoded, kept, asked, told⟩ := traces_mapError first
    obtain ⟨still, calls, agrees⟩ := traces_decodeOptional asked
    obtain ⟨answer, only, published⟩ := traces_askMapped later
    cases decoded with
    | error cause => cases told
    | ok value =>
      cases told
      cases published
      subst only
      exact ⟨still, Or.inr ⟨early, expected, answer, split, calls, fun codec answered =>
        (agrees codec answered).symm, rfl⟩⟩

theorem traces_commitReconciledOutboxBatch {ids : ExtTreeSet PublicationId} {trusted : Bytes}
    {head : P.Revision} {outcome : Except (BatchCommitError P) Unit}
    (filled : ids.isEmpty = false) (pending : ∀ id ∈ ids, id ∈ session.record.outbox)
    (traced : (commitReconciledOutboxBatch ids trusted head session).Traces events
      (outcome, stored)) :
    (∃ failure, outcome = .error failure ∧ failure.External ∧ stored = session) ∨
      ∃ cursor, outcome = .ok () ∧
        (⟨.encodeCursor head, .ok cursor⟩ : Event (SessionOp P) SessionOp.Answer) ∈ events ∧
        session.record.Retires ids trusted cursor stored.record := by
  simp only [commitReconciledOutboxBatch, filled, Bool.false_eq_true, ↓reduceIte] at traced
  rcases traces_bind traced with ⟨failure, after, only, same⟩ | ⟨cursor, after, early, late,
    split, first, later⟩
  · obtain ⟨reply, _, told⟩ := traces_askMapped only
    cases same
    cases reply with
    | ok value => cases told
    | error cause =>
      cases told
      exact Or.inl ⟨.cursor cause, rfl, trivial, rfl⟩
  · obtain ⟨reply, encodes, told⟩ := traces_askMapped first
    cases reply with
    | error cause => cases told
    | ok value =>
      cases told
      obtain ⟨next, retired⟩ : ∃ next, session.record.retireAll ids trusted cursor = .ok next := by
        apply DurableSyncRecord.retireListed_exists
        · exact set_toList_nodup ids
        · exact fun id member => pending id (by simpa using member)
      have rest : ((do
          (persist next).mapError BatchCommitError.store
          swapRecord next : SessionRoutine P Live (BatchCommitError P) Unit) session).Traces late
            (outcome, stored) := by
        change ((Routine.check ((session.record.retireAll ids trusted cursor).mapError _) >>=
          _) session).Traces late (outcome, stored) at later
        rw [retired] at later
        exact later
      rcases traces_bind rest with ⟨failure, after, only, same⟩ | ⟨_, after, stores, swaps, _,
        written, swapped⟩
      · obtain ⟨reply, _, told⟩ := traces_askMapped only
        cases same
        cases reply with
        | ok value => cases told
        | error cause =>
          cases told
          exact Or.inl ⟨.store cause, rfl, trivial, rfl⟩
      · obtain ⟨reply, _, told⟩ := traces_askMapped written
        cases reply with
        | error cause => cases told
        | ok value =>
          cases told
          obtain ⟨none, last⟩ := swapped
          cases last
          refine Or.inr ⟨cursor, rfl, ?_, DurableSyncRecord.retireAll_retires filled retired⟩
          rw [split, encodes]
          exact List.mem_append_left _ List.mem_cons_self

end Session

end PrivateContinuum.Sync
