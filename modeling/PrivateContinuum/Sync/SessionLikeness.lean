import PrivateContinuum.Library.Simulation
import PrivateContinuum.Sync.Session

namespace PrivateContinuum.Sync

open Std (ExtTreeMap ExtTreeSet)
open PrivateContinuum.Library PrivateContinuum.Core

variable {P : Platform} {Live Other : Type}

/-- The records agree on the cursor and on the outbox. -/
def DurableSyncRecord.Alike (left right : DurableSyncRecord) : Prop :=
  left.appliedCursor = right.appliedCursor ∧ left.outbox = right.outbox

/-- The same call, up to the trusted state of a persisted record. -/
def SessionOp.Alike : SessionOp P → SessionOp P → Prop
  | .persist left, .persist right => left.Alike right
  | left, right => left = right

/-- Calls that store like records count as the same; every fetched range satisfies
the condition. -/
def sessionLikeness (P : Platform) (accepts : List Bytes → Prop) :
    Likeness (SessionOp P) SessionOp.Answer where
  Alike := SessionOp.Alike
  Accepts := fun op answer => ∀ known, op = .fetchSince known → ∀ head objects,
    HEq answer (.ok (.changed head objects) : Except P.TransportError (FetchOutcome P.Revision)) →
      accepts objects

variable {accepts : List Bytes → Prop} {lenient : Prop} {session : Session Live}
  {other : Session Other}

theorem sessionLikeness_refl (op : SessionOp P) : (sessionLikeness P accepts).Alike op op := by
  cases op with
  | persist record => exact ⟨rfl, rfl⟩
  | encodeCursor revision => rfl
  | decodeCursor cursor => rfl
  | fetchSince known => rfl
  | publish expected objects => rfl

namespace SessionLikeness

section Same

variable {Value : Type}

/-- Both sessions give the same and are left as they are. -/
def Together (session : Session Live) (other : Session Other) (first second : Value)
    (kept : Session Live) (held : Session Other) : Prop :=
  first = second ∧ kept = session ∧ held = other

/-- Both sessions are left as they are. -/
def Kept {Failure Failing : Type} (session : Session Live) (other : Session Other) (_ : Failure)
    (_ : Failing) (kept : Session Live) (held : Session Other) : Prop :=
  kept = session ∧ held = other

theorem matches_load {Failure Failing : Type}
    {failed : Failure → Failing → Session Live → Session Other → Prop} :
    (sessionLikeness P accepts).Matches lenient (fun first second kept held => first = session ∧
      second = other ∧
      kept = session ∧ held = other) failed Routine.load Routine.load session other :=
  Or.inr ⟨_, rfl, rfl, rfl, rfl, rfl⟩

theorem matches_check {Failure Failing Result : Type} {first : Except Failure Value}
    {second : Except Failing Result}
    (both : ∀ value, first = .ok value → ∃ result, second = .ok result)
    (neither : ¬ lenient → ∀ failure, first = .error failure → ∃ failing, second = .error failing) :
    (sessionLikeness P accepts).Matches lenient (fun value result kept held => first = .ok value ∧
      second = .ok result ∧ kept = session ∧ held = other) (Kept session other)
        (Routine.check first)
      (Routine.check second) session other := by
  apply Likeness.matches_check
  · intro value succeeded
    obtain ⟨result, also⟩ := both value succeeded
    exact ⟨result, also, succeeded, also, rfl, rfl⟩
  · intro strict failure refused
    obtain ⟨failing, also⟩ := neither strict failure refused
    exact ⟨failing, also, rfl, rfl⟩

theorem agree_together {Failure : Type} (answer : Except Failure Value) :
    Agree (Together session other) (Together session other) (answer, session) (answer, other) := by
  cases answer with
  | ok value => exact ⟨rfl, rfl, rfl⟩
  | error failure => exact ⟨rfl, rfl, rfl⟩

theorem matches_ask {Failure : Type} {op : SessionOp P}
    {read : SessionOp.Answer op → Except Failure Value} :
    (sessionLikeness P accepts).Matches lenient (Together session other) (Together session other)
      (Routine.ask op read) (Routine.ask op read) session other := by
  apply Likeness.matches_ask (sessionLikeness_refl op)
  intro answer answered same _
  cases same
  exact agree_together (read answer)

theorem matches_wrap {Failure Wrapped : Type} {wrap : Failure → Wrapped}
    {done : Value → Value → Session Live → Session Other → Prop}
    {first : SessionRoutine P Live Failure Value} {second : SessionRoutine P Other Failure Value}
    (called : (sessionLikeness P accepts).Matches lenient done
      (Together session other) first second session other) :
    (sessionLikeness P accepts).Matches lenient done (Together session other) (first.mapError wrap)
      (second.mapError wrap) session other := by
  apply Likeness.Matches.mapError called
  rintro failure failing kept held ⟨rfl, rfl, rfl⟩
  exact ⟨rfl, rfl, rfl⟩

theorem matches_decodeOptional (cursor : Option TransportCursor) :
    (sessionLikeness P accepts).Matches lenient (Together session other) (Together session other)
      (Session.decodeOptional cursor) (Session.decodeOptional cursor) session other := by
  cases cursor with
  | none => exact Likeness.matches_pure ⟨rfl, rfl, rfl⟩
  | some cursor =>
    apply Likeness.Matches.bind matches_ask
    rintro revision decoded kept held ⟨rfl, rfl, rfl⟩
    exact Likeness.matches_pure ⟨rfl, rfl, rfl⟩

theorem matches_fetchSince (known : Option P.Revision) :
    (sessionLikeness P accepts).Matches lenient (fun fetched answered kept held =>
        Together session other fetched answered kept held ∧
          ∀ head objects, fetched = .changed head objects → accepts objects)
      (Together session other) (Session.fetchSince known)
        (Session.fetchSince known) session other := by
  apply Likeness.matches_ask (sessionLikeness_refl _)
  intro answer answered same accepted
  cases same
  cases answer with
  | ok fetched =>
    refine ⟨⟨rfl, rfl, rfl⟩, ?_⟩
    intro head objects changed
    subst changed
    exact accepted known rfl head objects HEq.rfl
  | error failure => exact ⟨rfl, rfl, rfl⟩

theorem matches_persist {record next : DurableSyncRecord} (alike : record.Alike next) :
    (sessionLikeness P accepts).Matches lenient (Together session other) (Together session other)
      (Session.persist record) (Session.persist next) session other := by
  apply Likeness.matches_ask alike
  intro answer answered same _
  cases same
  exact agree_together answer

end Same

theorem matches_fetch (alike : session.record.Alike other.record) :
    (sessionLikeness P accepts).Matches lenient (fun fetched answered kept held =>
        Together session other fetched answered kept held ∧
          ∀ head objects, fetched = .changed head objects → accepts objects)
      (Together session other) Session.fetchFromDurableCursor Session.fetchFromDurableCursor
        session other := by
  apply Likeness.Matches.bind matches_load
  rintro first second kept held ⟨rfl, rfl, rfl, rfl⟩
  rw [alike.1]
  apply Likeness.Matches.bind (matches_wrap (matches_decodeOptional _))
  rintro known decoded kept held ⟨rfl, rfl, rfl⟩
  exact matches_wrap (matches_fetchSince _)

theorem matches_commitReceived (trustedState mergedState : Bytes) (head : P.Revision)
    (alike : session.record.Alike other.record) :
    (sessionLikeness P accepts).Matches lenient
      (fun _ _ kept held => kept.live = session.live ∧ held.live = other.live ∧
        kept.record.Alike held.record)
      (Together session other) (Session.commitReceived trustedState head)
        (Session.commitReceived mergedState head)
      session other := by
  apply Likeness.Matches.bind (matches_wrap matches_ask)
  rintro cursor encoded kept held ⟨rfl, rfl, rfl⟩
  apply Likeness.Matches.bind matches_load
  rintro first second kept held ⟨rfl, rfl, rfl, rfl⟩
  have stored : (kept.record.applyReceived trustedState cursor).Alike
      (held.record.applyReceived mergedState cursor) := ⟨rfl, alike.2⟩
  apply Likeness.Matches.bind (matches_wrap (matches_persist stored))
  rintro _ _ kept held ⟨_, rfl, rfl⟩
  exact Or.inr ⟨_, rfl, rfl, rfl, rfl, alike.2⟩

end SessionLikeness

end PrivateContinuum.Sync
