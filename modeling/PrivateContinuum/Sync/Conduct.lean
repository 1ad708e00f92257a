import PrivateContinuum.Sync.Session

/-! What the session functions keep, in surroundings where a promise about the
live state and the record survives every justified commit. -/

namespace PrivateContinuum.Sync

open Std (ExtTreeMap ExtTreeSet)
open PrivateContinuum.Library PrivateContinuum.Core

/-- Surroundings of a session, the promise that the session keeps there, and the
answers that it may rely on from then on. -/
structure Conduct (P : Platform) (Live World : Type) extends
    Surroundings World (SessionOp P) SessionOp.Answer where
  Holds : Session Live → World → Prop
  Seen : (op : SessionOp P) → SessionOp.Answer op → World → Prop
  holds_later : ∀ session, toSurroundings.Stable (Holds session)
  seen_later : ∀ op answer, toSurroundings.Stable (Seen op answer)
  seen_answer : ∀ {now op answer after}, Valid now → Answers now op answer after → Valid after →
    Seen op answer after
  seen_kept : ∀ {now op answer after}, Valid now → Answers now op answer after → Valid after →
    ∀ other told, Seen other told now → Seen other told after
  holds_answer : ∀ {now op answer after session}, (∀ record, op ≠ .persist record) → Valid now →
    Answers now op answer after → Valid after → Holds session now → Holds session after
  permits_encode : ∀ now revision, Permits now (.encodeCursor revision)
  permits_decode : ∀ now cursor, Permits now (.decodeCursor cursor)
  permits_fetch : ∀ now known, Permits now (.fetchSince known)

namespace Conduct

variable {P : Platform} {Live World Failure Value : Type} (conduct : Conduct P Live World)

/-- Everything seen before is still seen. -/
def Knows (before after : World) : Prop :=
  ∀ op told, conduct.Seen op told before → conduct.Seen op told after

/-- An optional cursor has been decoded to an optional revision. -/
def Decoded : Option TransportCursor → Option P.Revision → World → Prop
  | none, none, _ => True
  | some cursor, some revision, world => conduct.Seen (.decodeCursor cursor) (.ok revision) world
  | _, _, _ => False

/-- The session is the one before and keeps its promise; a result is as said. -/
def Unchanged (session : Session Live) (world : World) (facts : Value → World → Prop)
    (outcome : Except Failure Value) (stored : Session Live) (now : World) : Prop :=
  stored = session ∧ conduct.Holds session now ∧ conduct.Knows world now ∧
    ∀ value, outcome = .ok value → facts value now

/-- Storing the next record is permitted now and later; the promise then holds of
the next session, or still of this one when the store fails. -/
def MayBecome (session next : Session Live) (world : World) : Prop :=
  ∀ now, conduct.Rely world now → conduct.Valid now → conduct.Permits now (.persist next.record) ∧
    (∀ after, conduct.Answers now (.persist next.record) (.ok ()) after → conduct.Valid after →
      conduct.Holds next after) ∧
    ∀ failure after, conduct.Answers now (.persist next.record) (.error failure) after →
      conduct.Valid after → conduct.Holds session after

/-- A commit that has stored one of the records for the given live state, while the
live state itself is not swapped yet, or has failed without a change. -/
def Committed (session : Session Live) (live : Live) (world : World)
    (records : DurableSyncRecord → World → Prop) (outcome : Except Failure Value)
    (stored : Session Live) (now : World) : Prop :=
  conduct.Knows world now ∧ match outcome with
    | .ok _ => stored.live = session.live ∧ conduct.Holds ⟨live, stored.record⟩ now ∧
        records stored.record now
    | .error _ => stored = session ∧ conduct.Holds session now

/-- A session alone with surroundings that answer anything. The world is what has
happened so far. -/
def tracing (holds : Session Live → List (Event (SessionOp P) SessionOp.Answer) → Prop)
    (kept : ∀ session events op answer, (∀ record, op ≠ .persist record) → holds session events →
      holds session (events ++ [⟨op, answer⟩])) :
    Conduct P Live (List (Event (SessionOp P) SessionOp.Answer)) where
  Valid _ := True
  Rely before now := before = now
  Permits _ _ := True
  Answers before op answer after := after = before ++ [⟨op, answer⟩]
  rely_refl _ := rfl
  rely_trans first second := first.trans second
  Holds := holds
  Seen op answer events := ⟨op, answer⟩ ∈ events
  holds_later _ _ _ same _ held := same ▸ held
  seen_later _ _ _ _ same _ seen := same ▸ seen
  seen_answer := by
    intro now op answer after _ told _
    subst told
    exact List.mem_append_right now List.mem_cons_self
  seen_kept := by
    intro now op answer after _ told _ other heard seen
    subst told
    exact List.mem_append_left _ seen
  holds_answer := by
    intro now op answer after session other _ told _ held
    subst told
    exact kept session now op answer other held
  permits_encode _ _ := trivial
  permits_decode _ _ := trivial
  permits_fetch _ _ := trivial

/-- What a routine ensures while it is traced holds at the end of each of its traces. -/
theorem tracing_traces
    {holds : Session Live → List (Event (SessionOp P) SessionOp.Answer) → Prop}
    {kept : ∀ session events op answer, (∀ record, op ≠ .persist record) → holds session events →
      holds session (events ++ [⟨op, answer⟩])}
    {routine : SessionRoutine P Live Failure Value} {session stored : Session Live}
    {outcome : Except Failure Value} {events : List (Event (SessionOp P) SessionOp.Answer)}
    {post : Except Failure Value → Session Live →
      List (Event (SessionOp P) SessionOp.Answer) → Prop}
    (ensured : (tracing holds kept).Ensures routine session [] post)
    (traced : (routine session).Traces events (outcome, stored)) : post outcome stored events := by
  have ended := Surroundings.Safe.traces (fun events event => events ++ [event]) (fun _ => trivial)
    (fun _ _ _ => rfl) ensured traced
  rwa [foldl_concat, List.nil_append] at ended

variable {conduct} {session : Session Live} {world : World}

theorem Knows.refl (world : World) : conduct.Knows world world := fun _ _ seen => seen

theorem Knows.trans {first second third : World} (before : conduct.Knows first second)
    (after : conduct.Knows second third) : conduct.Knows first third :=
  fun op told seen => after op told (before op told seen)

theorem Knows.decoded {before after : World} (known : conduct.Knows before after)
    {cursor : Option TransportCursor} {revision : Option P.Revision}
    (decoded : conduct.Decoded cursor revision before) : conduct.Decoded cursor revision after := by
  cases cursor with
  | none =>
    cases revision with
    | none => trivial
    | some _ => exact decoded
  | some cursor =>
    cases revision with
    | none => exact decoded
    | some revision => exact known _ _ decoded

theorem knows_rely {before now : World} (passed : conduct.Rely before now)
    (valid : conduct.Valid now) :
    conduct.Knows before now :=
  fun op told seen => conduct.seen_later op told before now passed valid seen

theorem knows_answer {now after : World} {op : SessionOp P} {answer : SessionOp.Answer op}
    (valid : conduct.Valid now) (told : conduct.Answers now op answer after)
    (afterValid : conduct.Valid after) : conduct.Knows now after :=
  fun other heard seen => conduct.seen_kept valid told afterValid other heard seen

/-- A call other than a commit leaves the session alone and its answer is seen. -/
theorem ensures_call {op : SessionOp P} {read : SessionOp.Answer op → Except Failure Value}
    {facts : Value → World → Prop} (other : ∀ record, op ≠ .persist record)
    (permitted : ∀ now, conduct.Rely world now → conduct.Valid now → conduct.Permits now op)
    (holds : conduct.Holds session world)
    (learned : ∀ answer value now, read answer = .ok value → conduct.Seen op answer now →
      facts value now) :
    conduct.Ensures (Routine.ask op read) session world
      (conduct.Unchanged session world facts) := by
  apply Surroundings.ensures_ask
  intro now passed valid
  refine ⟨permitted now passed valid, ?_⟩
  intro answer after told afterValid
  have still := conduct.holds_later session world now passed valid holds
  refine ⟨rfl, conduct.holds_answer other valid told afterValid still,
    (knows_rely passed valid).trans (knows_answer valid told afterValid), ?_⟩
  intro value same
  exact learned answer value after same (conduct.seen_answer valid told afterValid)

section Sequence

variable {Other Result : Type} {routine : SessionRoutine P Live Failure Value}
  {facts : Value → World → Prop}

theorem Unchanged.mapError (wrap : Failure → Other) (valid : conduct.Valid world)
    (first : conduct.Ensures routine session world (conduct.Unchanged session world facts)) :
    conduct.Ensures (routine.mapError wrap) session world
      (conduct.Unchanged session world facts) := by
  apply Surroundings.Ensures.mapError valid first
  intro outcome stored now _ reached
  obtain ⟨same, holds, knows, fact⟩ := reached
  exact ⟨same, holds, knows, fun value done => fact value (mapError_ok_iff.mp done)⟩

/-- After a part that leaves the session alone, the rest runs from the session. -/
theorem Unchanged.bind {rest : Value → SessionRoutine P Live Failure Result}
    {final : Except Failure Result → Session Live → World → Prop} (valid : conduct.Valid world)
    (first : conduct.Ensures routine session world (conduct.Unchanged session world facts))
    (second : ∀ value now, conduct.Valid now → conduct.Holds session now → conduct.Knows world now →
      facts value now → conduct.Ensures (rest value) session now final)
    (failed : ∀ failure now, conduct.Holds session now → conduct.Knows world now →
      final (.error failure) session now) :
    conduct.Ensures (routine >>= rest) session world final := by
  apply Surroundings.Ensures.bind valid first
  · intro value stored now nowValid reached
    obtain ⟨same, holds, knows, fact⟩ := reached
    subst same
    exact second value now nowValid holds knows (fact value rfl)
  · intro failure stored now _ reached
    obtain ⟨same, holds, knows, _⟩ := reached
    subst same
    exact failed failure now holds knows

theorem Unchanged.then {rest : Value → SessionRoutine P Live Failure Result}
    {final : Result → World → Prop} (valid : conduct.Valid world)
    (first : conduct.Ensures routine session world (conduct.Unchanged session world facts))
    (second : ∀ value now, conduct.Valid now → conduct.Holds session now → conduct.Knows world now →
      facts value now →
      conduct.Ensures (rest value) session now (conduct.Unchanged session now final)) :
    conduct.Ensures (routine >>= rest) session world (conduct.Unchanged session world final) := by
  apply Unchanged.bind valid first
  · intro value now nowValid holds knows fact
    apply Surroundings.Ensures.weaken nowValid (second value now nowValid holds knows fact)
    intro outcome stored later _ reached
    exact ⟨reached.1, reached.2.1, knows.trans reached.2.2.1, reached.2.2.2⟩
  · intro failure now holds knows
    exact ⟨rfl, holds, knows, fun value impossible => by cases impossible⟩

theorem Unchanged.weaken {final : Value → World → Prop} (valid : conduct.Valid world)
    (first : conduct.Ensures routine session world (conduct.Unchanged session world facts))
    (implies : ∀ value now, conduct.Knows world now → facts value now → final value now) :
    conduct.Ensures routine session world (conduct.Unchanged session world final) := by
  apply Surroundings.Ensures.weaken valid first
  intro outcome stored now _ reached
  obtain ⟨same, holds, knows, fact⟩ := reached
  exact ⟨same, holds, knows, fun value done => implies value now knows (fact value done)⟩

theorem unchanged_pure {value : Value} (holds : conduct.Holds session world)
    (fact : facts value world) :
    conduct.Ensures (pure value : SessionRoutine P Live Failure Value) session world
      (conduct.Unchanged session world facts) :=
  ⟨rfl, holds, Knows.refl world, fun found same => by cases same; exact fact⟩

theorem unchanged_check {outcome : Except Failure Value} (holds : conduct.Holds session world)
    (fact : ∀ value, outcome = .ok value → facts value world) :
    conduct.Ensures (Routine.check outcome : SessionRoutine P Live Failure Value) session world
      (conduct.Unchanged session world facts) :=
  ⟨rfl, holds, Knows.refl world, fact⟩

theorem ensures_load {rest : Session Live → SessionRoutine P Live Failure Result}
    {final : Except Failure Result → Session Live → World → Prop}
    (second : conduct.Ensures (rest session) session world final) :
    conduct.Ensures (Routine.load >>= rest) session world final :=
  second

end Sequence

theorem ensures_encodeCursor {revision : P.Revision} (holds : conduct.Holds session world) :
    conduct.Ensures (Session.encodeCursor revision) session world
      (conduct.Unchanged session world fun cursor now =>
        conduct.Seen (.encodeCursor revision) (.ok cursor) now) := by
  apply ensures_call
  · simp
  · exact fun now _ _ => conduct.permits_encode now revision
  · exact holds
  · intro answer cursor now same seen
    exact same ▸ seen

theorem ensures_decodeOptional {cursor : Option TransportCursor} (valid : conduct.Valid world)
    (holds : conduct.Holds session world) :
    conduct.Ensures (Session.decodeOptional cursor) session world
      (conduct.Unchanged session world fun revision now =>
        conduct.Decoded cursor revision now) := by
  cases cursor with
  | none => exact unchanged_pure holds trivial
  | some cursor =>
    have called : conduct.Ensures (Session.decodeCursor cursor) session world
        (conduct.Unchanged session world fun revision now =>
          conduct.Seen (.decodeCursor cursor) (.ok revision) now) := by
      apply ensures_call
      · simp
      · exact fun now _ _ => conduct.permits_decode now cursor
      · exact holds
      · intro answer revision now same seen
        exact same ▸ seen
    apply Unchanged.then valid called
    intro revision now _ still _ seen
    exact unchanged_pure still seen

/-- A fetch starts from the cursor that the record has applied. -/
theorem ensures_fetchFromDurableCursor (valid : conduct.Valid world)
    (holds : conduct.Holds session world) :
    conduct.Ensures Session.fetchFromDurableCursor session world
      (conduct.Unchanged session world fun fetched now =>
        ∃ known, conduct.Decoded session.record.appliedCursor known now ∧
          conduct.Seen (.fetchSince known) (.ok fetched) now) := by
  apply ensures_load
  apply Unchanged.then valid (Unchanged.mapError _ valid (ensures_decodeOptional valid holds))
  intro known now nowValid still _ decoded
  have called : conduct.Ensures (Session.fetchSince known) session now
      (conduct.Unchanged session now fun fetched later =>
        conduct.Seen (.fetchSince known) (.ok fetched) later) := by
    apply ensures_call
    · simp
    · exact fun later _ _ => conduct.permits_fetch later known
    · exact still
    · intro answer fetched later same seen
      exact same ▸ seen
  apply Unchanged.mapError _ nowValid
  apply Unchanged.weaken nowValid called
  intro fetched later knows seen
  exact ⟨known, knows.decoded decoded, seen⟩

/-- The objects of the named entries, in the order of their identities. -/
def batchObjects (record : DurableSyncRecord) (ids : ExtTreeSet PublicationId) : List Bytes :=
  ids.toList.flatMap fun id => (record.outbox[id]?.map DurableOutboxEntry.objects).getD []

/-- Every named entry is pending against the cursor. -/
def PendingAt (record : DurableSyncRecord) (ids : ExtTreeSet PublicationId)
    (cursor : Option TransportCursor) :
    Prop :=
  ∀ id ∈ ids, ∃ entry, record.outbox[id]? = some entry ∧ entry.expectedCursor = cursor

/-- Publishing the named entries against the cursor is permitted now and later. -/
def MayPublish (conduct : Conduct P Live World) (session : Session Live)
    (ids : ExtTreeSet PublicationId) (cursor : Option TransportCursor) (world : World) : Prop :=
  ∀ expected now, conduct.Valid now → conduct.Holds session now → conduct.Knows world now →
    conduct.Decoded cursor expected now →
    conduct.Permits now (.publish expected (batchObjects session.record ids))

theorem gather_ok {record : DurableSyncRecord} {ids : List PublicationId}
    {start gathered : Option (Option TransportCursor) × List Bytes}
    {cursor : Option TransportCursor}
    (pending : ∀ id ∈ ids, ∃ entry, record.outbox[id]? = some entry ∧
      entry.expectedCursor = cursor)
    (begun : start.1 = none ∨ start.1 = some cursor)
    (done : ids.foldlM (Session.gatherEntry record : _ → _ →
      Except (BatchPublishError P) _) start = .ok gathered) :
    (gathered.1 = some cursor ∨ ids = [] ∧ gathered.1 = start.1) ∧ gathered.2 = start.2 ++
      ids.flatMap fun id => (record.outbox[id]?.map DurableOutboxEntry.objects).getD [] := by
  induction ids generalizing start with
  | nil =>
    cases done
    simp
  | cons id rest ih =>
    rw [List.foldlM_cons, bind_ok_iff] at done
    obtain ⟨next, stepped, finished⟩ := done
    obtain ⟨entry, found, same⟩ := pending id List.mem_cons_self
    have reached : next = (some cursor, start.2 ++ entry.objects) := by
      rcases begun with fresh | same'
      · simpa [Session.gatherEntry, found, fresh, same, eq_comm] using stepped
      · simpa [Session.gatherEntry, found, same', same, eq_comm] using stepped
    subst reached
    obtain ⟨common, objects⟩ :=
      ih (fun other member => pending other (List.mem_cons_of_mem id member))
      (Or.inr rfl) finished
    refine ⟨Or.inl ?_, ?_⟩
    · rcases common with known | ⟨_, known⟩
      · exact known
      · exact known
    · rw [objects, List.flatMap_cons, found]
      simp

/-- A batch whose entries share a cursor gives that cursor and all their objects. -/
theorem gather_batch {record : DurableSyncRecord} {ids : ExtTreeSet PublicationId}
    {gathered : Option (Option TransportCursor) × List Bytes} {cursor : Option TransportCursor}
    (filled : ids.isEmpty = false) (pending : PendingAt record ids cursor)
    (done : ids.toList.foldlM (Session.gatherEntry record : _ → _ →
      Except (BatchPublishError P) _) (none, []) = .ok gathered) :
    gathered.1 = some cursor ∧ gathered.2 = batchObjects record ids := by
  obtain ⟨common, objects⟩ :=
    gather_ok (fun id member => pending id (by simpa using member)) (Or.inl rfl) done
  refine ⟨?_, by simpa [batchObjects] using objects⟩
  rcases common with known | ⟨none, _⟩
  · exact known
  · have nothing : ids.isEmpty = true := by
      rw [← ExtTreeSet.isEmpty_toList, none]
      rfl
    rw [filled] at nothing
    cases nothing

/-- What a publication of the named entries against the cursor has been told. -/
def Published (conduct : Conduct P Live World) (record : DurableSyncRecord)
    (ids : ExtTreeSet PublicationId) (cursor : Option TransportCursor)
    (outcome : PublishOutcome P.Revision) (world : World) : Prop :=
  ∃ expected, conduct.Decoded cursor expected world ∧
    conduct.Seen (.publish expected (batchObjects record ids)) (.ok outcome) world

theorem ensures_publish {ids : ExtTreeSet PublicationId} {cursor : Option TransportCursor}
    {expected : Option P.Revision} {objects : List Bytes} (valid : conduct.Valid world)
    (holds : conduct.Holds session world) (exactly : objects = batchObjects session.record ids)
    (may : MayPublish conduct session ids cursor world)
    (decoded : conduct.Decoded cursor expected world) :
    conduct.Ensures (Session.publish expected objects) session world
      (conduct.Unchanged session world (conduct.Published session.record ids cursor)) := by
  subst exactly
  have called :
      conduct.Ensures (Session.publish expected (batchObjects session.record ids)) session world
      (conduct.Unchanged session world fun outcome later =>
        conduct.Seen (.publish expected (batchObjects session.record ids))
          (.ok outcome) later) := by
    apply ensures_call
    · simp
    · intro now passed nowValid
      have knows := knows_rely passed nowValid
      exact may expected now nowValid
        (conduct.holds_later session world now passed nowValid holds) knows
        (knows.decoded decoded)
    · exact holds
    · intro answer outcome later same seen
      exact same ▸ seen
  apply Unchanged.weaken valid called
  intro outcome later knows seen
  exact ⟨expected, knows.decoded decoded, seen⟩

theorem MayPublish.later {ids : ExtTreeSet PublicationId} {cursor : Option TransportCursor}
    {now : World} (may : MayPublish conduct session ids cursor world)
    (knows : conduct.Knows world now) :
    MayPublish conduct session ids cursor now :=
  fun expected later valid holds further => may expected later valid holds (knows.trans further)

theorem batchObjects_singleton {record : DurableSyncRecord} {id : PublicationId}
    {entry : DurableOutboxEntry} (found : record.outbox[id]? = some entry) :
    batchObjects record {id} = entry.objects := by
  rw [batchObjects, set_toList_singleton]
  simp [found]

/-- One staged publication goes out against its own cursor, with its own objects. -/
theorem ensures_publishStaged {id : PublicationId} {entry : DurableOutboxEntry}
    (valid : conduct.Valid world) (holds : conduct.Holds session world)
    (found : session.record.outbox[id]? = some entry)
    (may : MayPublish conduct session {id} entry.expectedCursor world) :
    conduct.Ensures (Session.publishStaged id) session world
      (conduct.Unchanged session world
        (conduct.Published session.record {id} entry.expectedCursor)) := by
  apply ensures_load
  rw [found]
  apply Unchanged.then valid (Unchanged.mapError _ valid (ensures_decodeOptional valid holds))
  intro expected now nowValid still knows decoded
  apply Unchanged.mapError _ nowValid
  exact ensures_publish nowValid still (batchObjects_singleton found).symm (may.later knows) decoded

/-- A batch goes out against the cursor of its entries, with exactly their objects. -/
theorem ensures_publishStagedBatch {ids : ExtTreeSet PublicationId}
    {cursor : Option TransportCursor} (valid : conduct.Valid world)
    (holds : conduct.Holds session world) (pending : PendingAt session.record ids cursor)
    (may : MayPublish conduct session ids cursor world) :
    conduct.Ensures (Session.publishStagedBatch ids) session world
      (conduct.Unchanged session world (conduct.Published session.record ids cursor)) := by
  unfold Session.publishStagedBatch
  by_cases empty : ids.isEmpty
  · rw [if_pos empty]
    exact unchanged_check holds fun value impossible => by cases impossible
  · rw [if_neg empty]
    apply ensures_load
    have gathered :
        conduct.Ensures (Routine.check (ids.toList.foldlM (Session.gatherEntry session.record)
        (none, [])) : SessionRoutine P Live (BatchPublishError P) _) session world
        (conduct.Unchanged session world fun found _ =>
          found.1 = some cursor ∧ found.2 = batchObjects session.record ids) := by
      apply unchanged_check holds
      intro found done
      exact gather_batch (Bool.not_eq_true _ ▸ empty) pending done
    apply Unchanged.then valid gathered
    intro found now nowValid still knows exactly
    rw [exactly.1]
    apply Unchanged.then nowValid
      (Unchanged.mapError _ nowValid (ensures_decodeOptional nowValid still))
    intro expected later laterValid stillLater further decoded
    apply Unchanged.mapError _ laterValid
    exact ensures_publish laterValid stillLater exactly.2 (may.later (knows.trans further)) decoded

theorem ensures_persist {Wrapped : Type} {wrap : P.StoreError → Wrapped} {live : Live}
    {next : DurableSyncRecord} {records : DurableSyncRecord → World → Prop}
    (valid : conduct.Valid world) (may : conduct.MayBecome session ⟨live, next⟩ world)
    (described : ∀ now, conduct.Knows world now → records next now) :
    conduct.Ensures (do
      (Session.persist next).mapError wrap
      Session.swapRecord next : SessionRoutine P Live Wrapped Unit) session world
      (conduct.Committed session live world records) := by
  have stored : conduct.Ensures (Session.persist next) session world fun outcome kept now =>
      kept = session ∧ conduct.Knows world now ∧ match outcome with
        | .ok () => conduct.Holds ⟨live, next⟩ now
        | .error _ => conduct.Holds session now := by
    apply Surroundings.ensures_ask
    intro now passed nowValid
    obtain ⟨permitted, done, failed⟩ := may now passed nowValid
    refine ⟨permitted, ?_⟩
    intro answer after told afterValid
    have knows := (knows_rely passed nowValid).trans (knows_answer nowValid told afterValid)
    match answer, told with
    | .ok (), told => exact ⟨rfl, knows, done after told afterValid⟩
    | .error failure, told => exact ⟨rfl, knows, failed failure after told afterValid⟩
  have wrapped : conduct.Ensures ((Session.persist next).mapError wrap) session world
    fun outcome kept now =>
      kept = session ∧ conduct.Knows world now ∧ match outcome with
        | .ok () => conduct.Holds ⟨live, next⟩ now
        | .error _ => conduct.Holds session now := by
    apply Surroundings.Ensures.mapError valid stored
    intro outcome kept now _ reached
    cases outcome with
    | ok => exact reached
    | error failure => exact reached
  apply Surroundings.Ensures.bind valid wrapped
  · intro _ kept now _ reached
    obtain ⟨same, knows, holds⟩ := reached
    subst same
    exact ⟨knows, rfl, holds, described now knows⟩
  · intro failure kept now _ reached
    obtain ⟨same, knows, holds⟩ := reached
    exact ⟨knows, same, holds⟩

section Commits

variable {live : Live} {records : DurableSyncRecord → World → Prop}
  {rest : Value → SessionRoutine P Live Failure Unit}
  {routine : SessionRoutine P Live Failure Value} {facts : Value → World → Prop}

theorem Committed.after (valid : conduct.Valid world)
    (first : conduct.Ensures routine session world (conduct.Unchanged session world facts))
    (second : ∀ value now, conduct.Valid now → conduct.Holds session now → conduct.Knows world now →
      facts value now →
      conduct.Ensures (rest value) session now (conduct.Committed session live now records)) :
    conduct.Ensures (routine >>= rest) session world
      (conduct.Committed session live world records) := by
  apply Unchanged.bind valid first
  · intro value now nowValid holds knows fact
    apply Surroundings.Ensures.weaken nowValid (second value now nowValid holds knows fact)
    intro outcome stored later _ reached
    exact ⟨knows.trans reached.1, reached.2⟩
  · intro failure now holds knows
    exact ⟨knows, rfl, holds⟩

theorem committed_check {outcome : Except Failure Value}
    (holds : conduct.Holds session world)
    (second : ∀ value, outcome = .ok value →
      conduct.Ensures (rest value) session world (conduct.Committed session live world records)) :
    conduct.Ensures (Routine.check outcome >>= rest) session world
      (conduct.Committed session live world records) := by
  cases outcome with
  | ok value => exact second value rfl
  | error failure => exact ⟨Knows.refl world, rfl, holds⟩

/-- The record that a receive commits. -/
def Receives (conduct : Conduct P Live World) (record : DurableSyncRecord) (trusted : Bytes)
    (head : P.Revision) (next : DurableSyncRecord) (world : World) : Prop :=
  ∃ cursor, conduct.Seen (.encodeCursor head) (.ok cursor) world ∧
    next = record.applyReceived trusted cursor

theorem ensures_commitReceived {trusted : Bytes} {head : P.Revision}
    (valid : conduct.Valid world) (holds : conduct.Holds session world)
    (may : ∀ next now, conduct.Valid now → conduct.Holds session now → conduct.Knows world now →
      conduct.Receives session.record trusted head next now →
      conduct.MayBecome session ⟨live, next⟩ now) :
    conduct.Ensures (Session.commitReceived trusted head) session world
      (conduct.Committed session live world (conduct.Receives session.record trusted head)) := by
  apply Committed.after valid (Unchanged.mapError _ valid (ensures_encodeCursor holds))
  intro cursor now nowValid still knows encoded
  apply ensures_load
  have received : conduct.Receives session.record trusted head
      (session.record.applyReceived trusted cursor) now := ⟨cursor, encoded, rfl⟩
  apply ensures_persist nowValid (may _ now nowValid still knows received)
  intro later further
  exact ⟨cursor, further _ _ encoded, rfl⟩

/-- The record that a reconciliation of the named entries commits. -/
def Reconciles (conduct : Conduct P Live World) (record : DurableSyncRecord)
    (ids : ExtTreeSet PublicationId) (trusted : Bytes) (head : P.Revision)
    (next : DurableSyncRecord) (world : World) : Prop :=
  ∃ cursor, conduct.Seen (.encodeCursor head) (.ok cursor) world ∧
    record.Retires ids trusted cursor next

theorem ensures_commitReconciledOutbox {id : PublicationId} {trusted : Bytes} {head : P.Revision}
    (valid : conduct.Valid world) (holds : conduct.Holds session world)
    (may : ∀ next now, conduct.Valid now → conduct.Holds session now → conduct.Knows world now →
      conduct.Reconciles session.record {id} trusted head next now →
      conduct.MayBecome session ⟨live, next⟩ now) :
    conduct.Ensures (Session.commitReconciledOutbox id trusted head) session world
      (conduct.Committed session live world
        (conduct.Reconciles session.record {id} trusted head)) := by
  apply Committed.after valid (Unchanged.mapError _ valid (ensures_encodeCursor holds))
  intro cursor now nowValid still knows encoded
  apply ensures_load
  apply committed_check still
  intro next retired
  have retires := DurableSyncRecord.retireOutbox_retires (mapError_ok_iff.mp retired)
  apply ensures_persist nowValid (may next now nowValid still knows ⟨cursor, encoded, retires⟩)
  intro later further
  exact ⟨cursor, further _ _ encoded, retires⟩

theorem ensures_commitReconciledOutboxBatch {ids : ExtTreeSet PublicationId} {trusted : Bytes}
    {head : P.Revision} (valid : conduct.Valid world) (holds : conduct.Holds session world)
    (may : ∀ next now, conduct.Valid now → conduct.Holds session now → conduct.Knows world now →
      conduct.Reconciles session.record ids trusted head next now →
      conduct.MayBecome session ⟨live, next⟩ now) :
    conduct.Ensures (Session.commitReconciledOutboxBatch ids trusted head) session world
      (conduct.Committed session live world
        (conduct.Reconciles session.record ids trusted head)) := by
  unfold Session.commitReconciledOutboxBatch
  by_cases empty : ids.isEmpty = true
  · rw [if_pos empty]
    exact ⟨Knows.refl world, rfl, holds⟩
  · rw [if_neg empty]
    apply Committed.after valid (Unchanged.mapError _ valid (ensures_encodeCursor holds))
    intro cursor now nowValid still knows encoded
    apply ensures_load
    apply committed_check still
    intro next retired
    have retires := DurableSyncRecord.retireAll_retires (Bool.not_eq_true _ ▸ empty)
      (mapError_ok_iff.mp retired)
    apply ensures_persist nowValid (may next now nowValid still knows ⟨cursor, encoded, retires⟩)
    intro later further
    exact ⟨cursor, further _ _ encoded, retires⟩

theorem ensures_stageOutbound {trusted : Bytes} {id : PublicationId} {objects : List Bytes}
    (valid : conduct.Valid world) (holds : conduct.Holds session world)
    (may : ∀ next, session.record.prepareOutbox trusted id session.record.appliedCursor objects =
      .ok next → conduct.MayBecome session ⟨live, next⟩ world) :
    conduct.Ensures (Session.stageOutbound trusted id objects) session world
      (conduct.Committed session live world fun next _ =>
        session.record.prepareOutbox trusted id session.record.appliedCursor objects =
          .ok next) := by
  apply ensures_load
  apply committed_check holds
  intro next prepared
  have done := mapError_ok_iff.mp prepared
  apply ensures_persist valid (may next done)
  intro _ _
  exact done

/-- The record that a rebase commits: the stale entry is gone and the new one is
pending against the new head. -/
def Rebases (conduct : Conduct P Live World) (record : DurableSyncRecord)
    (rebase : Session.OutboxRebase) (head : P.Revision) (next : DurableSyncRecord)
    (world : World) : Prop :=
  rebase.stalePublicationId ≠ rebase.newPublicationId ∧
    ∃ cursor retired, conduct.Seen (.encodeCursor head) (.ok cursor) world ∧
      record.Retires {rebase.stalePublicationId} rebase.rebasedTrustedState cursor retired ∧
      retired.prepareOutbox rebase.rebasedTrustedState rebase.newPublicationId (some cursor)
        rebase.newProtectedObjects = .ok next

theorem ensures_commitRebasedOutbox {rebase : Session.OutboxRebase} {head : P.Revision}
    (valid : conduct.Valid world) (holds : conduct.Holds session world)
    (may : ∀ next now, conduct.Valid now → conduct.Holds session now → conduct.Knows world now →
      conduct.Rebases session.record rebase head next now →
      conduct.MayBecome session ⟨live, next⟩ now) :
    conduct.Ensures (Session.commitRebasedOutbox rebase head) session world
      (conduct.Committed session live world (conduct.Rebases session.record rebase head)) := by
  unfold Session.commitRebasedOutbox
  by_cases same : rebase.stalePublicationId = rebase.newPublicationId
  · rw [if_pos same]
    exact ⟨Knows.refl world, rfl, holds⟩
  · rw [if_neg same]
    apply Committed.after valid (Unchanged.mapError _ valid (ensures_encodeCursor holds))
    intro cursor now nowValid still knows encoded
    apply ensures_load
    apply committed_check still
    intro retired gone
    apply committed_check still
    intro next prepared
    have retires := DurableSyncRecord.retireOutbox_retires (mapError_ok_iff.mp gone)
    have done := mapError_ok_iff.mp prepared
    apply ensures_persist nowValid
      (may next now nowValid still knows ⟨same, cursor, retired, encoded, retires, done⟩)
    intro later further
    exact ⟨same, cursor, retired, further _ _ encoded, retires, done⟩

end Commits

end Conduct

end PrivateContinuum.Sync
