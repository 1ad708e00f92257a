import PrivateContinuum.Sync.Conduct

namespace PrivateContinuum.Sync

open Std (ExtTreeMap ExtTreeSet)
open PrivateContinuum.Library PrivateContinuum.Core

variable {P : Platform}

/-- The transitions of the session layer that change a record. -/
inductive RecordCall (P : Platform) where
  | stageOutbound (trusted : Bytes) (id : PublicationId) (objects : List Bytes)
  | commitReceived (trusted : Bytes) (head : P.Revision)
  | commitReconciledOutbox (id : PublicationId) (trusted : Bytes) (head : P.Revision)
  | commitReconciledOutboxBatch (ids : ExtTreeSet PublicationId) (trusted : Bytes)
      (head : P.Revision)
  | commitRebasedOutbox (rebase : Session.OutboxRebase) (head : P.Revision)

inductive RecordCallError (P : Platform) where
  | persist (failure : PersistTransitionError P)
  | commit (failure : SessionCommitError P)
  | batch (failure : BatchCommitError P)

namespace RecordCall

def perform : RecordCall P → SessionRoutine P Unit (RecordCallError P) Unit
  | .stageOutbound trusted id objects =>
    (Session.stageOutbound trusted id objects).mapError .persist
  | .commitReceived trusted head => (Session.commitReceived trusted head).mapError .commit
  | .commitReconciledOutbox id trusted head =>
    (Session.commitReconciledOutbox id trusted head).mapError .commit
  | .commitReconciledOutboxBatch ids trusted head =>
    (Session.commitReconciledOutboxBatch ids trusted head).mapError .batch
  | .commitRebasedOutbox rebase head => (Session.commitRebasedOutbox rebase head).mapError .commit

/-- The call names the publication as one to retire. -/
def Retires : RecordCall P → PublicationId → Prop
  | .stageOutbound _ _ _, _ => False
  | .commitReceived _ _, _ => False
  | .commitReconciledOutbox retired _ _, id => id = retired
  | .commitReconciledOutboxBatch ids _ _, id => id ∈ ids
  | .commitRebasedOutbox rebase _, id => id = rebase.stalePublicationId

/-- The record that a successful call leaves; `events` is what the codec and the
store have answered. -/
def Commits (record next : DurableSyncRecord)
    (events : List (Event (SessionOp P) SessionOp.Answer)) :
    RecordCall P → Prop
  | .stageOutbound trusted id objects =>
    record.prepareOutbox trusted id record.appliedCursor objects = .ok next
  | .commitReceived trusted head => ∃ cursor, ⟨.encodeCursor head, .ok cursor⟩ ∈ events ∧
    next = record.applyReceived trusted cursor
  | .commitReconciledOutbox id trusted head => ∃ cursor, ⟨.encodeCursor head, .ok cursor⟩ ∈ events ∧
    record.Retires {id} trusted cursor next
  | .commitReconciledOutboxBatch ids trusted head =>
    ∃ cursor, ⟨.encodeCursor head, .ok cursor⟩ ∈ events ∧ record.Retires ids trusted cursor next
  | .commitRebasedOutbox rebase head => rebase.stalePublicationId ≠ rebase.newPublicationId ∧
    ∃ cursor retired, ⟨.encodeCursor head, .ok cursor⟩ ∈ events ∧
      record.Retires {rebase.stalePublicationId} rebase.rebasedTrustedState cursor retired ∧
      retired.prepareOutbox rebase.rebasedTrustedState rebase.newPublicationId (some cursor)
        rebase.newProtectedObjects = .ok next

end RecordCall

namespace DurableSyncRecord

/-- One call on the record, with everything that the codec and the store answered. -/
def Steps (record : DurableSyncRecord) (call : RecordCall P)
    (events : List (Event (SessionOp P) SessionOp.Answer))
    (outcome : Except (RecordCallError P) Unit) (next : DurableSyncRecord) : Prop :=
  (call.perform ⟨(), record⟩).Traces events (outcome, ⟨(), next⟩)

variable (P) in
/-- The records of any sequence of calls. -/
inductive Reachable : DurableSyncRecord → Prop
  | create (trusted : Bytes) (applied : Option TransportCursor) : Reachable (create trusted applied)
  | step {record next : DurableSyncRecord} {call : RecordCall P}
      {events : List (Event (SessionOp P) SessionOp.Answer)}
        {outcome : Except (RecordCallError P) Unit}
      (before : Reachable record) (stepped : record.Steps call events outcome next) : Reachable next

end DurableSyncRecord

/-- Nothing is promised. -/
def anyConduct (P : Platform) (Live : Type) :
    Conduct P Live (List (Event (SessionOp P) SessionOp.Answer)) :=
  Conduct.tracing (fun _ _ => True) fun _ _ _ _ _ _ => trivial

theorem anyConduct_mayBecome {Live : Type} {session next : Session Live}
    {world : List (Event (SessionOp P) SessionOp.Answer)} :
    (anyConduct P Live).MayBecome session next world :=
  fun _ _ _ => ⟨trivial, fun _ _ _ => trivial, fun _ _ _ _ => trivial⟩

theorem traced_committed {Failure Wrapped : Type} {commit : SessionRoutine P Unit Failure Unit}
    {wrap : Failure → Wrapped} {record next : DurableSyncRecord} {outcome : Except Wrapped Unit}
    {records : DurableSyncRecord → List (Event (SessionOp P) SessionOp.Answer) → Prop}
    {events : List (Event (SessionOp P) SessionOp.Answer)}
    (committed : (anyConduct P Unit).Ensures commit ⟨(), record⟩ []
      ((anyConduct P Unit).Committed ⟨(), record⟩ () [] records))
    (traced : (commit.mapError wrap ⟨(), record⟩).Traces events (outcome, ⟨(), next⟩)) :
    (∃ failure, outcome = .error failure) ∧ next = record ∨ outcome = .ok () ∧
    records next events := by
  have wrapped : (anyConduct P Unit).Ensures (commit.mapError wrap) ⟨(), record⟩ []
      fun result stored now => (∃ failure, result = .error failure) ∧ stored.record = record ∨
        result = .ok () ∧ records stored.record now := by
    apply Surroundings.Ensures.mapError trivial committed
    intro result stored now _ reached
    cases result with
    | ok value => exact Or.inr ⟨rfl, reached.2.2.2⟩
    | error failure => exact Or.inl ⟨⟨wrap failure, rfl⟩, congrArg Session.record reached.2.1⟩
  exact Conduct.tracing_traces wrapped traced

namespace DurableSyncRecord

variable {record next : DurableSyncRecord} {call : RecordCall P}
  {outcome : Except (RecordCallError P) Unit}
  {events : List (Event (SessionOp P) SessionOp.Answer)}

theorem Steps.cases (stepped : record.Steps call events outcome next) :
    (∃ failure, outcome = .error failure) ∧ next = record ∨
      outcome = .ok () ∧ call.Commits record next events := by
  cases call with
  | stageOutbound trusted id objects =>
    exact traced_committed (Conduct.ensures_stageOutbound trivial trivial
      fun _ _ => anyConduct_mayBecome) stepped
  | commitReceived trusted head =>
    exact traced_committed (Conduct.ensures_commitReceived trivial trivial
      fun _ _ _ _ _ _ => anyConduct_mayBecome) stepped
  | commitReconciledOutbox id trusted head =>
    exact traced_committed (Conduct.ensures_commitReconciledOutbox trivial trivial
      fun _ _ _ _ _ _ => anyConduct_mayBecome) stepped
  | commitReconciledOutboxBatch ids trusted head =>
    exact traced_committed (Conduct.ensures_commitReconciledOutboxBatch trivial trivial
      fun _ _ _ _ _ _ => anyConduct_mayBecome) stepped
  | commitRebasedOutbox rebase head =>
    exact traced_committed (Conduct.ensures_commitRebasedOutbox trivial trivial
      fun _ _ _ _ _ _ => anyConduct_mayBecome) stepped

/-- A committed call leaves a pending entry as it is, or retires it by name. -/
theorem commits_pending (committed : call.Commits record next events) {id : PublicationId}
    {entry : DurableOutboxEntry} (pending : record.outbox[id]? = some entry) :
    next.outbox[id]? = some entry ∨ next.outbox[id]? = none ∧ call.Retires id := by
  cases call with
  | stageOutbound trusted staged objects => exact Or.inl (prepareOutbox_keeps committed pending)
  | commitReceived trusted head =>
    obtain ⟨cursor, _, received⟩ := committed
    subst received
    exact Or.inl pending
  | commitReconciledOutbox retired trusted head =>
    obtain ⟨cursor, _, retires⟩ := committed
    by_cases named : id = retired
    · exact Or.inr ⟨by simp [retires.entries, named], named⟩
    · left
      rw [retires.keeps (by simpa [eq_comm (a := retired)] using named), pending]
  | commitReconciledOutboxBatch ids trusted head =>
    obtain ⟨cursor, _, retires⟩ := committed
    by_cases named : id ∈ ids
    · exact Or.inr ⟨by simp [retires.entries, named], named⟩
    · left
      rw [retires.keeps named, pending]
  | commitRebasedOutbox rebase head =>
    obtain ⟨apart, cursor, middle, _, retires, prepared⟩ := committed
    by_cases named : id = rebase.stalePublicationId
    · refine Or.inr ⟨?_, named⟩
      obtain ⟨_, _, _, entries⟩ := prepareOutbox_ok prepared
      rw [entries, named, if_neg apart, retires.entries, if_pos (by simp)]
    · have kept : middle.outbox[id]? = some entry := by
        rw [retires.keeps (by simpa [eq_comm (a := rebase.stalePublicationId)] using named),
          pending]
      exact Or.inl (prepareOutbox_keeps prepared kept)

/-- The cursor that a call gives to an entry it inserts: the applied cursor of the
record, and of the new record for a rebase. -/
def insertionCursor (record next : DurableSyncRecord) : RecordCall P → Option TransportCursor
  | .commitRebasedOutbox _ _ => next.appliedCursor
  | _ => record.appliedCursor

theorem commits_inserted (committed : call.Commits record next events) {id : PublicationId}
    {entry : DurableOutboxEntry} (absent : record.outbox[id]? = none)
    (inserted : next.outbox[id]? = some entry) :
    entry.expectedCursor = insertionCursor record next call := by
  cases call with
  | stageOutbound trusted staged objects =>
    obtain ⟨_, _, _, entries⟩ := prepareOutbox_ok committed
    rw [entries] at inserted
    split at inserted
    · cases inserted
      rfl
    · simp [absent] at inserted
  | commitReceived trusted head =>
    obtain ⟨cursor, _, received⟩ := committed
    subst received
    rw [show (record.applyReceived trusted cursor).outbox = record.outbox from
      rfl, absent] at inserted
    cases inserted
  | commitReconciledOutbox retired trusted head =>
    obtain ⟨cursor, _, retires⟩ := committed
    simp [retires.entries, absent] at inserted
  | commitReconciledOutboxBatch ids trusted head =>
    obtain ⟨cursor, _, retires⟩ := committed
    simp [retires.entries, absent] at inserted
  | commitRebasedOutbox rebase head =>
    obtain ⟨_, cursor, middle, _, retires, prepared⟩ := committed
    obtain ⟨_, _, applied, entries⟩ := prepareOutbox_ok prepared
    rw [entries] at inserted
    split at inserted
    · cases inserted
      exact (applied.trans retires.applied).symm
    · simp [retires.entries, absent] at inserted

section Undisturbed

variable {Live : Type} {session : Session Live} {reply : (op : SessionOp P) → SessionOp.Answer op}
  {trusted : Bytes} {head : P.Revision} {cursor : TransportCursor}

theorem eval_reconcileEach {ids : List PublicationId}
    (encoded : reply (.encodeCursor head) = .ok cursor)
    (stored : ∀ record, reply (.persist record) = .ok ())
    (retired : ids.foldlM (fun current id => current.retireOutbox id trusted cursor)
      session.record = .ok next) :
    ((forM ids fun id => Session.commitReconciledOutbox id trusted head :
      SessionRoutine P Live (SessionCommitError P) Unit) session).eval reply =
        (.ok (), { session with record := next }) := by
  induction ids generalizing session with
  | nil =>
    cases retired
    rfl
  | cons id rest ih =>
    rw [List.foldlM_cons, bind_ok_iff] at retired
    obtain ⟨middle, first, later⟩ := retired
    have once : (Session.commitReconciledOutbox id trusted head session).eval reply =
        (.ok (), { session with record := middle }) := by
      simp [Session.commitReconciledOutbox, Session.encodeCursor, Session.persist,
        Session.swapRecord,
        Routine.mapError, Routine.ask, Routine.check, Routine.load, Routine.store,
        Routine.andThen, bind,
        Proc.bind, Proc.eval, encoded, stored, first, Except.mapError]
    rw [List.forM_cons]
    change ((Session.commitReconciledOutbox id trusted head session).bind _).eval reply = _
    rw [Proc.eval_bind, once]
    exact ih later

theorem eval_reconcileBatch {ids : ExtTreeSet PublicationId} (nonempty : ids.isEmpty = false)
    (encoded : reply (.encodeCursor head) = .ok cursor)
    (stored : ∀ record, reply (.persist record) = .ok ())
    (retired : session.record.retireAll ids trusted cursor = .ok next) :
    (Session.commitReconciledOutboxBatch ids trusted head session).eval reply =
      (.ok (), { session with record := next }) := by
  simp [Session.commitReconciledOutboxBatch, nonempty, Session.encodeCursor, Session.persist,
    Session.swapRecord, Routine.mapError, Routine.ask, Routine.check, Routine.load, Routine.store,
    Routine.andThen, bind, Proc.bind, Proc.eval, encoded, stored, retired, Except.mapError]

end Undisturbed

/-- After a committed rebase the stale entry is gone and the new one is pending
against the new cursor; the others are as they were. -/
theorem rebased_outbox {rebase : Session.OutboxRebase} {head : P.Revision}
    (committed : (RecordCall.commitRebasedOutbox rebase head).Commits record next events) :
    rebase.stalePublicationId ≠ rebase.newPublicationId ∧
      ∃ cursor, ⟨.encodeCursor head, .ok cursor⟩ ∈ events ∧ next.appliedCursor = some cursor ∧
        next.outbox[rebase.stalePublicationId]? = none ∧
        next.outbox[rebase.newPublicationId]? =
          some ⟨rebase.newPublicationId, some cursor, rebase.newProtectedObjects⟩ ∧
        ∀ id : PublicationId, id ≠ rebase.stalePublicationId → id ≠ rebase.newPublicationId →
          next.outbox[id]? = record.outbox[id]? := by
  obtain ⟨apart, cursor, middle, encoded, retires, prepared⟩ := committed
  obtain ⟨_, _, applied, entries⟩ := prepareOutbox_ok prepared
  refine ⟨apart, cursor, encoded, applied.trans retires.applied, ?_, ?_, ?_⟩
  · rw [entries, if_neg apart, retires.entries, if_pos (by simp)]
  · rw [entries, if_pos rfl]
  · intro id old new
    rw [entries, if_neg new,
      retires.keeps (by simpa [eq_comm (a := rebase.stalePublicationId)] using old)]

/-- Without a failure, a batch leaves the record that its members leave one by one,
in any order. -/
theorem reconcileBatch_eq_each {Live : Type} {session : Session Live}
    {reply : (op : SessionOp P) → SessionOp.Answer op} {trusted : Bytes} {head : P.Revision}
    {cursor : TransportCursor} {ids : ExtTreeSet PublicationId} {order : List PublicationId}
    (encoded : reply (.encodeCursor head) = .ok cursor)
    (stored : ∀ record, reply (.persist record) = .ok ())
    (pending : ∀ id ∈ ids, id ∈ session.record.outbox) (once : order.Nodup)
    (members : ∀ id, id ∈ order ↔ id ∈ ids) :
    ∃ next, (Session.commitReconciledOutboxBatch ids trusted head session).eval reply =
        (if ids.isEmpty then .error .emptyBatch else .ok (), { session with record := next }) ∧
      ((forM order fun id => Session.commitReconciledOutbox id trusted head :
        SessionRoutine P Live (SessionCommitError P) Unit) session).eval reply =
          (.ok (), { session with record := next }) := by
  obtain ⟨next, each⟩ : ∃ next,
      order.foldlM (fun current id => current.retireOutbox id trusted cursor)
      session.record = .ok next :=
    retireListed_exists once fun id member => pending id ((members id).mp member)
  refine ⟨next, ?_, eval_reconcileEach encoded stored each⟩
  cases empty : ids.isEmpty with
  | true =>
    have none : order = [] := by
      apply List.eq_nil_iff_forall_not_mem.mpr
      intro id member
      have filled := set_nonempty_iff.mpr ⟨id, (members id).mp member⟩
      rw [empty] at filled
      cases filled
    subst none
    cases each
    simp only [Session.commitReconciledOutboxBatch, empty, ↓reduceIte]
    rfl
  | false =>
    obtain ⟨id, member⟩ := set_nonempty_iff.mp empty
    have listed : order ≠ [] := List.ne_nil_of_mem ((members id).mpr member)
    obtain ⟨batched, whole⟩ :
        ∃ batched, session.record.retireAll ids trusted cursor = .ok batched :=
      retireListed_exists (set_toList_nodup ids) fun id member => pending id (by simpa using member)
    have same : batched = next := by
      obtain ⟨trustedWhole, appliedWhole, entriesWhole⟩ := retireAll_retires empty whole
      obtain ⟨trustedEach, appliedEach, entriesEach⟩ := retireListed_ok each listed
      apply ext_fields (trustedWhole.trans trustedEach.symm) (appliedWhole.trans appliedEach.symm)
      intro id
      rw [entriesWhole, entriesEach]
      simp only [members]
    exact eval_reconcileBatch empty encoded stored (same ▸ whole)

theorem transitions_preserve_outbox {record : DurableSyncRecord} (reached : Reachable P record) :
    (∀ (call : RecordCall P) events outcome next, record.Steps call events outcome next →
      (∀ failure, outcome = .error failure → next = record) ∧
      (∀ (id : PublicationId) before after, record.outbox[id]? = some before →
        next.outbox[id]? = some after → after = before) ∧
      (∀ id ∈ record.outbox, id ∉ next.outbox → outcome = .ok () ∧ call.Retires id) ∧
      (∀ (id : PublicationId) entry, id ∉ record.outbox → next.outbox[id]? = some entry →
        entry.publicationId = id ∧ entry.expectedCursor = insertionCursor record next call ∧
          entry.objects ≠ [] ∧ ∀ object ∈ entry.objects, object ≠ []) ∧
      (∀ rebase head, call = .commitRebasedOutbox rebase head → outcome = .ok () →
        rebase.stalePublicationId ≠ rebase.newPublicationId ∧
          ∃ cursor, ⟨.encodeCursor head, .ok cursor⟩ ∈ events ∧ next.appliedCursor = some cursor ∧
            next.outbox[rebase.stalePublicationId]? = none ∧
            next.outbox[rebase.newPublicationId]? =
              some ⟨rebase.newPublicationId, some cursor, rebase.newProtectedObjects⟩ ∧
            ∀ id : PublicationId, id ≠ rebase.stalePublicationId → id ≠ rebase.newPublicationId →
              next.outbox[id]? = record.outbox[id]?)) ∧
    (∀ (id : PublicationId) entry, record.outbox[id]? = some entry →
      entry.publicationId = id ∧ entry.objects ≠ [] ∧ ∀ object ∈ entry.objects, object ≠ []) ∧
    (∀ (reply : (op : SessionOp P) → SessionOp.Answer op) trusted head cursor
      (ids : ExtTreeSet PublicationId) (order : List PublicationId),
      reply (.encodeCursor head) = .ok cursor → (∀ stored, reply (.persist stored) = .ok ()) →
      (∀ id ∈ ids, id ∈ record.outbox) → order.Nodup → (∀ id, id ∈ order ↔ id ∈ ids) →
      ∃ next, (Session.commitReconciledOutboxBatch ids trusted head ⟨(), record⟩).eval reply =
          (if ids.isEmpty then .error .emptyBatch else .ok (), ⟨(), next⟩) ∧
        ((forM order fun id => Session.commitReconciledOutbox id trusted head :
          SessionRoutine P Unit (SessionCommitError P) Unit) ⟨(), record⟩).eval reply =
            (.ok (), ⟨(), next⟩)) := by
  have filled : ∀ (record : DurableSyncRecord) (id : PublicationId) entry,
      record.outbox[id]? = some entry →
      entry.publicationId = id ∧ entry.objects ≠ [] ∧ ∀ object ∈ entry.objects, object ≠ [] := by
    intro record id entry found
    obtain ⟨same, validated⟩ := record.keyed id entry found
    exact ⟨same, validateObjects_ok_iff.mp validated⟩
  refine ⟨?_, filled record, ?_⟩
  · intro call events outcome next stepped
    rcases stepped.cases with ⟨⟨failure, failed⟩, same⟩ | ⟨done, committed⟩
    · subst same
      subst failed
      refine ⟨fun _ _ => rfl, ?_, fun id present absent => absurd present absent, ?_, ?_⟩
      · intro id before after found stored
        exact Option.some.inj (stored.symm.trans found)
      · intro id entry absent stored
        exact absurd (map_mem_iff.mpr ⟨entry, stored⟩) absent
      · intro rebase head _ impossible
        cases impossible
    · subst done
      refine ⟨fun failure impossible => (by cases impossible), ?_, ?_, ?_, ?_⟩
      · intro id before after found stored
        rcases commits_pending committed found with kept | ⟨gone, _⟩
        · exact Option.some.inj (stored.symm.trans kept)
        · rw [gone] at stored
          cases stored
      · intro id present absent
        obtain ⟨entry, found⟩ := map_mem_iff.mp present
        rcases commits_pending committed found with kept | ⟨_, named⟩
        · exact absurd (map_mem_iff.mpr ⟨entry, kept⟩) absent
        · exact ⟨rfl, named⟩
      · intro id entry absent stored
        have missing : record.outbox[id]? = none := ExtTreeMap.getElem?_eq_none absent
        obtain ⟨same, objects⟩ := filled next id entry stored
        exact ⟨same, commits_inserted committed missing stored, objects⟩
      · intro rebase head same _
        subst same
        exact rebased_outbox committed
  · intro reply trusted head cursor ids order encoded stored pending once members
    exact reconcileBatch_eq_each encoded stored pending once members

/-- A staged publication, retired with the head that acknowledged it. -/
theorem transitions_preserve_outbox_retired :
    let call : RecordCall ⟨Nat, Unit, Unit, Unit⟩ := .commitReconciledOutbox (.ofByte 7) [2] 3
    ∃ staged events retired, Reachable ⟨Nat, Unit, Unit, Unit⟩ staged ∧ .ofByte 7 ∈ staged.outbox ∧
      staged.Steps call events (.ok ()) retired ∧ .ofByte 7 ∉ retired.outbox ∧
      call.Retires (.ofByte 7) := by
  intro call
  obtain ⟨staged, prepared⟩ :
      ∃ staged, (create [1] none).prepareOutbox [1] (.ofByte 7) none [[5]] = .ok staged :=
    ⟨_, rfl⟩
  obtain ⟨_, _, _, entries⟩ := prepareOutbox_ok prepared
  have pending : LogicalId.ofByte 7 ∈ staged.outbox :=
    map_mem_iff.mpr ⟨_, by rw [entries, if_pos rfl]⟩
  obtain ⟨retired, gone⟩ :
      ∃ retired, staged.retireOutbox (.ofByte 7) [2] ⟨[9], by simp⟩ = .ok retired :=
    retireOutbox_exists pending
  obtain ⟨_, _, _, remaining⟩ := retireOutbox_ok gone
  have absent : LogicalId.ofByte 7 ∉ retired.outbox := by
    intro found
    obtain ⟨entry, stored⟩ := map_mem_iff.mp found
    rw [remaining, if_pos rfl] at stored
    cases stored
  have staging : (create [1] none).Steps
      (.stageOutbound [1] (.ofByte 7) [[5]] : RecordCall ⟨Nat, Unit, Unit, Unit⟩)
      [⟨.persist staged, .ok ()⟩] (.ok ()) staged := by
    simp only [Steps, RecordCall.perform, Session.stageOutbound, Routine.mapError,
      bind, Routine.andThen,
      Routine.load, Routine.check, Proc.bind, show (create [1] none).appliedCursor = none from rfl,
      prepared]
    exact ⟨.ok (), [], rfl, rfl, rfl⟩
  have reached : Reachable ⟨Nat, Unit, Unit, Unit⟩ staged := .step (.create [1] none) staging
  have stepped : staged.Steps call [⟨.encodeCursor 3, .ok ⟨[9], by simp⟩⟩,
    ⟨.persist retired, .ok ()⟩] (.ok ())
      retired := by
    refine ⟨.ok ⟨[9], by simp⟩, [⟨.persist retired, .ok ()⟩], rfl, ?_⟩
    simp only [Session.swapRecord, Routine.mapError, bind, Routine.andThen, Routine.load,
      Routine.check, Proc.bind, Except.mapError, id, gone]
    exact ⟨.ok (), [], rfl, rfl, rfl⟩
  have named :=
    ((transitions_preserve_outbox reached).1 call _ _ _ stepped).2.2.1 (.ofByte 7) pending absent
  exact ⟨staged, _, retired, reached, pending, stepped, absent, named.2⟩

end DurableSyncRecord

end PrivateContinuum.Sync
