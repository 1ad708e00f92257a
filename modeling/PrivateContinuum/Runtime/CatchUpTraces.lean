import PrivateContinuum.Runtime.CatchUp
import PrivateContinuum.Sync.SessionTraces

namespace PrivateContinuum.Runtime

open Std (ExtTreeMap ExtTreeSet)
open PrivateContinuum.Library PrivateContinuum.Core PrivateContinuum.Sync

variable {P : Platform} {TrustedError : Type}

/-- The record after a receive under the head. -/
def ReceivedUnder (record : DurableSyncRecord) (head : P.Revision) (events : SessionEvents P)
    (next : DurableSyncRecord) : Prop :=
  ∃ trusted cursor,
    (⟨.encodeCursor head, .ok cursor⟩ : Event (SessionOp P) SessionOp.Answer) ∈ events ∧
    next = record.applyReceived trusted cursor

/-- A catch-up keeps what is pending, and an applied range moves the cursor to its head. -/
def CaughtUp {Observed Sealed : Type} (record : DurableSyncRecord) (events : SessionEvents P)
    (caughtUp : CatchUpOutcome P.Revision Observed Sealed) (next : DurableSyncRecord) : Prop :=
  next.outbox = record.outbox ∧
    ∀ head count observed sealed, caughtUp = .applied head count observed sealed →
    ∃ cursor, (⟨.encodeCursor head, .ok cursor⟩ : Event (SessionOp P) SessionOp.Answer) ∈ events ∧
      next.appliedCursor = some cursor

section CatchUp

variable {Live Failure Observed Sealed : Type} {io : SessionIoError P → Failure}
  {advance : P.Revision → SessionRoutine P Live Failure Unit}
  {receive : P.Revision → List Bytes → SessionRoutine P Live Failure (Observed × Sealed)}

theorem traces_commitReceived {trusted : Bytes} {head : P.Revision} {session stored : Session Live}
    {events : SessionEvents P}
    (traced : (Session.commitReceived trusted head session).Traces events (.ok (), stored)) :
    ReceivedUnder session.record head events stored.record := by
  have committed : (anyConduct P Live).Ensures (Session.commitReceived trusted head) session []
      ((anyConduct P Live).Committed session session.live []
        ((anyConduct P Live).Receives session.record trusted head)) :=
    Conduct.ensures_commitReceived trivial trivial fun _ _ _ _ _ _ => anyConduct_mayBecome
  obtain ⟨_, _, _, cursor, encoded, same⟩ := Conduct.tracing_traces committed traced
  exact ⟨trusted, cursor, encoded, same⟩

theorem traces_commitCandidate {Result : Type} {candidate : Except Failure (Live × Result)}
    {encode : Live → Except Failure Bytes} {wrap : SessionCommitError P → Failure}
    {head : P.Revision} {session stored : Session Live} {events : SessionEvents P}
    {result : Result}
    (traced : (commitCandidate candidate encode (fun trusted =>
      (Session.commitReceived trusted head).mapError wrap) session).Traces events (.ok result,
      stored)) : ReceivedUnder session.record head events stored.record := by
  have settled : (anyConduct P Live).Ensures
      (commitCandidate candidate encode fun trusted =>
        (Session.commitReceived trusted head).mapError wrap)
      session [] (Settled (anyConduct P Live) [] fun _ stored now =>
        ∃ trusted, (anyConduct P Live).Receives session.record trusted head stored.record now) := by
    have received : ∀ live trusted,
        (anyConduct P Live).Ensures (Session.commitReceived trusted head) session []
        ((anyConduct P Live).Committed session live []
          ((anyConduct P Live).Receives session.record trusted head)) :=
      fun _ _ => Conduct.ensures_commitReceived trivial trivial fun _ _ _ _ _ _ =>
        anyConduct_mayBecome
    apply Surroundings.Ensures.weaken trivial
    · apply ensures_commitCandidate trivial trivial
      intro live result trusted _ _
      exact received live trusted
    · intro outcome stored now _ reached
      refine ⟨reached.1, reached.2.1, ?_⟩
      intro found done
      obtain ⟨trusted, _, _, received⟩ := reached.2.2 found done
      exact ⟨trusted, received⟩
  obtain ⟨_, _, facts⟩ := Conduct.tracing_traces settled traced
  obtain ⟨trusted, cursor, encoded, same⟩ := facts result rfl
  exact ⟨trusted, cursor, encoded, same⟩

theorem traces_fetched {session stored : Session Live} {events : SessionEvents P}
    {outcome : Except Failure (FetchOutcome P.Revision)}
    (traced : (Session.fetchFromDurableCursor.mapError io session).Traces events
      (outcome, stored)) :
    stored = session := by
  have fetched : (anyConduct P Live).Ensures Session.fetchFromDurableCursor session []
      ((anyConduct P Live).Unchanged session [] fun _ _ => True) := by
    apply Conduct.Unchanged.weaken trivial (Conduct.ensures_fetchFromDurableCursor trivial trivial)
    exact fun _ _ _ _ => trivial
  exact (Conduct.tracing_traces (Conduct.Unchanged.mapError io trivial fetched) traced).1

/-- The pass keeps what is pending when its two ways of receiving do. -/
theorem traces_catchUpWith {session stored : Session Live} {events : SessionEvents P}
    {caughtUp : CatchUpOutcome P.Revision Observed Sealed}
    (advanced : ∀ head before events after, (advance head before).Traces events (.ok (), after) →
      ReceivedUnder before.record head events after.record)
    (received : ∀ head objects before events result after,
      (receive head objects before).Traces events (.ok result, after) →
        ReceivedUnder before.record head events after.record)
    (traced : (catchUpWith io advance receive session).Traces events (.ok caughtUp, stored)) :
    CaughtUp session.record events caughtUp stored.record := by
  rcases Routine.traces_bind traced with ⟨_, _, _, impossible⟩ | ⟨fetched, after, early, late,
    split, first, later⟩
  · cases impossible
  have same := traces_fetched first
  subst same
  have nothing : ∀ outcome : CatchUpOutcome P.Revision Observed Sealed, outcome = caughtUp →
      stored = after →
      (∀ head count observed sealed, outcome ≠ .applied head count observed sealed) →
      CaughtUp after.record events caughtUp stored.record := by
    intro outcome same unchanged other
    subst same
    subst unchanged
    exact ⟨rfl, fun head count observed sealed applied =>
      absurd applied (other head count observed sealed)⟩
  have inside : ∀ event ∈ late, event ∈ events :=
    fun event member => split ▸ List.mem_append_right early member
  cases fetched with
  | upToDate head =>
    obtain ⟨_, ended⟩ := later
    cases ended
    exact nothing _ rfl rfl (by simp)
  | baselineUnavailable head =>
    obtain ⟨_, ended⟩ := later
    cases ended
    exact nothing _ rfl rfl (by simp)
  | changed head objects =>
    dsimp only at later
    split at later
    · rcases Routine.traces_bind later with ⟨_, _, _, impossible⟩ | ⟨_, next, begun, rest, _,
        advancing, ended⟩
      · cases impossible
      · obtain ⟨_, ended⟩ := ended
        cases ended
        obtain ⟨trusted, cursor, _, record⟩ := advanced head after begun stored advancing
        rw [CaughtUp, record]
        exact ⟨rfl, by simp⟩
    · rcases Routine.traces_bind later with ⟨_, _, _, impossible⟩ | ⟨result, next, begun, rest,
        parts, receiving, ended⟩
      · cases impossible
      · obtain ⟨_, ended⟩ := ended
        cases ended
        obtain ⟨trusted, cursor, encoded, record⟩ :=
          received head objects after begun result stored receiving
        rw [CaughtUp, record]
        refine ⟨rfl, ?_⟩
        intro other count observed sealed applied
        cases applied
        exact ⟨cursor, inside _ (parts ▸ List.mem_append_left rest encoded), rfl⟩

theorem confined_catchUpWith {fails : Failure → Prop}
    (external : ∀ failure, failure.External → fails (io failure))
    (advances : ∀ head, (advance head).Confined SessionOp.Quiet fails)
    (receives : ∀ head objects, (receive head objects).Confined SessionOp.Quiet fails) :
    (catchUpWith io advance receive).Confined SessionOp.Quiet fails := by
  apply Routine.Confined.bind
    (Routine.Confined.mapError Session.confined_fetchFromDurableCursor external)
  intro fetched
  cases fetched with
  | upToDate head => exact Routine.confined_pure
  | baselineUnavailable head => exact Routine.confined_pure
  | changed head objects =>
    dsimp only
    split
    · exact Routine.Confined.bind (advances head) fun _ => Routine.confined_pure
    · exact Routine.Confined.bind (receives head objects) fun _ => Routine.confined_pure

theorem confined_commitCandidate {Result : Type} {fails : Failure → Prop}
    {candidate : Except Failure (Live × Result)} {encode : Live → Except Failure Bytes}
    {commit : Bytes → SessionRoutine P Live Failure Unit}
    (built : FailsOnly fails candidate) (encoded : ∀ live, FailsOnly fails (encode live))
    (committed : ∀ trusted, (commit trusted).Confined SessionOp.Quiet fails) :
    (commitCandidate candidate encode commit).Confined SessionOp.Quiet fails := by
  apply Routine.Confined.bind (Routine.confined_check built)
  intro pair
  apply Routine.Confined.bind (Routine.confined_check (encoded pair.1))
  intro trusted
  apply Routine.Confined.bind (committed trusted)
  intro _
  apply Routine.Confined.bind Routine.confined_load
  intro session
  exact Routine.Confined.bind Routine.confined_store fun _ => Routine.confined_pure

end CatchUp

/-- The failure is not a refusal of the recovery record. -/
def ScalarReceiveCommitError.External : ScalarReceiveCommitError P TrustedError → Prop
  | .sync failure => failure.External
  | _ => True

def ScalarCatchUpError.External : ScalarCatchUpError P TrustedError → Prop
  | .io failure => failure.External
  | .commit failure => failure.External
  | .receive failure => failure.External
  | _ => True

def ScalarRecoveryCatchUpError.External : ScalarRecoveryCatchUpError P TrustedError → Prop
  | .io failure => failure.External
  | .commit failure => failure.External
  | _ => True

section Instances

variable {Live Failure : Type}

theorem confined_advanceCursor {fails : Failure → Prop} {encode : Live → Except Failure Bytes}
    {commit : SessionCommitError P → Failure} {head : P.Revision}
    (encoded : ∀ live, FailsOnly fails (encode live))
    (external : ∀ failure, failure.External → fails (commit failure)) :
    (advanceCursor encode commit head).Confined SessionOp.Quiet fails := by
  apply Routine.Confined.bind Routine.confined_load
  intro session
  apply Routine.Confined.bind (Routine.confined_check (encoded session.live))
  intro trusted
  exact Routine.Confined.mapError Session.confined_commitReceived external

theorem traces_advanceCursor {encode : Live → Except Failure Bytes}
    {commit : SessionCommitError P → Failure} {head : P.Revision} {session stored : Session Live}
    {events : SessionEvents P}
    (traced : (advanceCursor encode commit head session).Traces events (.ok (), stored)) :
    ReceivedUnder session.record head events stored.record := by
  change ((Routine.check (encode session.live) >>= _) session).Traces events (.ok (),
    stored) at traced
  cases encoded : encode session.live with
  | error failure =>
    rw [encoded] at traced
    cases traced.2
  | ok trusted =>
    rw [encoded] at traced
    obtain ⟨outcome, after, committed, told⟩ := Routine.traces_mapError traced
    cases outcome with
    | error failure => cases told
    | ok value =>
      cases told
      exact traces_commitReceived committed

theorem confined_commitReceivedScalarDomain {codec : ScalarStateCodec TrustedError}
    {remote : ScalarRegister Bytes} {pre : Option RevisionId} {head : P.Revision} :
    (commitReceivedScalarDomain codec remote pre head).Confined SessionOp.Quiet
      ScalarReceiveCommitError.External := by
  apply Routine.Confined.bind Routine.confined_load
  intro session
  apply confined_commitCandidate (failsOnly_mapError fun _ => trivial)
  · exact fun live => failsOnly_mapError fun _ => trivial
  · intro trusted
    exact Routine.Confined.mapError Session.confined_commitReceived fun failure external => external

theorem confined_catchUpSingleScalarDomain {codec : ScalarStateCodec TrustedError}
    {spec : ScalarCatchUpSpec} :
    (catchUpSingleScalarDomain codec spec : SessionRoutine P _ _ _).Confined SessionOp.Quiet
      ScalarCatchUpError.External := by
  apply confined_catchUpWith
  · exact fun failure external => external
  · intro head
    exact confined_advanceCursor (fun live => failsOnly_mapError fun _ =>
      trivial) fun failure external => external
  · intro head objects
    apply Routine.Confined.bind
    · exact Routine.confined_check ((failsOnly_mapError fun _ => trivial).bind fun _ =>
        failsOnly_mapError fun _ => trivial)
    intro remote
    apply Routine.Confined.bind
    · exact Routine.Confined.mapError confined_commitReceivedScalarDomain fun failure external =>
        external
    intro sealed
    exact Routine.confined_pure

theorem Intake.failsOnly_takeAll {Item : Type} {intake : Intake Failure Item} {channel : Channel}
    {fails : Failure → Prop} (wire : ∀ failure, fails (intake.wire failure))
    (protection : ∀ failure, fails (intake.protection failure))
    (check : ∀ part, FailsOnly fails (intake.check part))
    (complete : ∀ items projection, FailsOnly fails (intake.complete items projection))
    {objects : List Bytes} :
    FailsOnly fails (intake.takeAll channel objects) := by
  apply failsOnly_foldlM
  intro assembly encoded
  unfold take
  split
  · exact failsOnly_ok
  apply (failsOnly_mapError wire).bind
  intro part
  apply (check part).bind
  intro _
  apply (failsOnly_mapError protection).bind
  intro ingested
  obtain ⟨inbox, delivered⟩ := ingested
  refine FailsOnly.bind ?_ fun _ => failsOnly_ok
  cases delivered with
  | none => exact failsOnly_ok
  | some projection => exact (complete _ projection).bind fun _ => failsOnly_ok

theorem failsOnly_fetchedProjection {channel : Channel} {objects : List Bytes} :
    FailsOnly ScalarRecoveryCatchUpError.External
      (fetchedProjection channel objects :
        Except (ScalarRecoveryCatchUpError P TrustedError) _) := by
  have taken : FailsOnly ScalarRecoveryCatchUpError.External
      ((recoveryIntake P TrustedError).takeAll channel objects) :=
    Intake.failsOnly_takeAll (fun _ => trivial) (fun _ => trivial)
      (fun _ => failsOnly_ok) fun _ _ => failsOnly_ok
  refine FailsOnly.bind (taken.bind ?_) fun _ => failsOnly_mapError fun _ => trivial
  intro assembly
  dsimp only
  split
  · exact failsOnly_error trivial
  · exact failsOnly_ok

theorem failsOnly_observeProjected {pre : ExtTreeMap DomainKey RevisionId}
    {observation : Observation} {entry : DomainKey × ScalarRegister Bytes} :
    FailsOnly ScalarRecoveryCatchUpError.External
      (observeProjected pre observation entry :
        Except (ScalarRecoveryCatchUpError P TrustedError) _) := by
  refine FailsOnly.bind (failsOnly_mapError fun _ => trivial) ?_
  intro restored
  cases restored with
  | some domain =>
    refine FailsOnly.bind (failsOnly_mapError fun _ => trivial) ?_
    intro observed
    exact FailsOnly.bind (failsOnly_mapError fun _ => trivial) fun _ => failsOnly_ok
  | none =>
    refine FailsOnly.bind (failsOnly_mapError fun _ => trivial) ?_
    intro domain
    exact FailsOnly.bind (failsOnly_mapError fun _ => trivial) fun _ => failsOnly_ok

theorem confined_catchUpScalarRecoveryState {codec : RecoveryStateCodec TrustedError}
    {spec : ScalarRecoveryCatchUpSpec} :
    (catchUpScalarRecoveryState codec spec : SessionRoutine P _ _ _).Confined SessionOp.Quiet
      ScalarRecoveryCatchUpError.External := by
  apply confined_catchUpWith
  · exact fun failure external => external
  · intro head
    exact confined_advanceCursor (fun live => failsOnly_mapError fun _ =>
      trivial) fun failure external => external
  · intro head objects
    apply Routine.Confined.bind Routine.confined_load
    intro session
    apply confined_commitCandidate
    · exact (failsOnly_fetchedProjection.bind fun combined =>
        failsOnly_foldlM fun _ _ => failsOnly_observeProjected).map _
    · exact fun live => failsOnly_mapError fun _ => trivial
    · intro trusted
      exact Routine.Confined.mapError Session.confined_commitReceived fun failure external =>
        external

theorem traces_catchUpSingleScalarDomain {codec : ScalarStateCodec TrustedError}
    {spec : ScalarCatchUpSpec} {session stored : Session (LocalScalarDomain Bytes)}
    {events : SessionEvents P} {caughtUp : ScalarCatchUpOutcome P}
    (traced : (catchUpSingleScalarDomain codec spec session).Traces events (.ok caughtUp, stored)) :
    CaughtUp session.record events caughtUp stored.record := by
  apply traces_catchUpWith _ _ traced
  · exact fun head before events after advanced => traces_advanceCursor advanced
  · intro head objects before events result after received
    rcases Routine.traces_bind received with ⟨_, _, _, impossible⟩ | ⟨remote, checked, early, late,
      split, first, later⟩
    · cases impossible
    obtain ⟨none, same⟩ := first
    have unchanged : checked = before := congrArg Prod.snd same
    subst unchanged
    subst none
    rcases Routine.traces_bind later with ⟨_, _, _, impossible⟩ | ⟨sealed, kept, begun, rest, parts,
      committing, ended⟩
    · cases impossible
    obtain ⟨nothing, ended⟩ := ended
    cases ended
    subst nothing
    rw [List.append_nil] at parts
    subst parts
    subst split
    obtain ⟨outcome, last, committed, told⟩ := Routine.traces_mapError committing
    cases outcome with
    | error failure => cases told
    | ok value =>
      cases told
      exact traces_commitCandidate (Routine.traces_load.mp committed)

theorem traces_catchUpScalarRecoveryState {codec : RecoveryStateCodec TrustedError}
    {spec : ScalarRecoveryCatchUpSpec} {session stored : Session LocalScalarRecoveryState}
    {events : SessionEvents P} {caughtUp : ScalarRecoveryCatchUpOutcome P}
    (traced : (catchUpScalarRecoveryState codec spec session).Traces events
      (.ok caughtUp, stored)) :
    CaughtUp session.record events caughtUp stored.record := by
  apply traces_catchUpWith _ _ traced
  · exact fun head before events after advanced => traces_advanceCursor advanced
  · exact fun head objects before events result after received =>
      traces_commitCandidate (Routine.traces_load.mp received)

end Instances

end PrivateContinuum.Runtime
