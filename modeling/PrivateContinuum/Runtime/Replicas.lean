import PrivateContinuum.Runtime.Coverage
import PrivateContinuum.Runtime.ResumeDiscipline
import PrivateContinuum.Sync.NetworkSafety

/-! One replica of a container in the network: what its record and its live state promise,
and how a catch-up, a staged handoff and a resume pass keep that. -/

namespace PrivateContinuum.Runtime

open Std (ExtTreeMap ExtTreeSet)
open PrivateContinuum.Library PrivateContinuum.Core PrivateContinuum.Sync
open LocalScalarRecoveryState (Statement Site site)

variable {P : Platform} {Agent TrustedError : Type}

section Settled

variable {Live World Failure Wrapped Value Result : Type} {conduct : Conduct P Live World}
  {session : Session Live} {world : World} {routine : SessionRoutine P Live Failure Value}
  {facts : Value → Session Live → World → Prop}

theorem Settled.bind {rest : Value → SessionRoutine P Live Failure Result}
    {final : Result → Session Live → World → Prop} (valid : conduct.Valid world)
    (first : conduct.Ensures routine session world (Settled conduct world facts))
    (second : ∀ value stored now, conduct.Valid now → conduct.Holds stored now →
      conduct.Knows world now → facts value stored now →
      conduct.Ensures (rest value) stored now (Settled conduct now final)) :
    conduct.Ensures (routine >>= rest) session world (Settled conduct world final) := by
  apply Surroundings.Ensures.bind valid first
  · intro value stored now nowValid reached
    obtain ⟨holds, knows, fact⟩ := reached
    apply Surroundings.Ensures.weaken nowValid
      (second value stored now nowValid holds knows (fact value rfl))
    intro outcome last later _ ended
    exact ⟨ended.1, knows.trans ended.2.1, ended.2.2⟩
  · intro failure stored now _ reached
    exact ⟨reached.1, reached.2.1, fun value impossible => by cases impossible⟩

theorem Settled.mapError (wrap : Failure → Wrapped) (valid : conduct.Valid world)
    (first : conduct.Ensures routine session world (Settled conduct world facts)) :
    conduct.Ensures (routine.mapError wrap) session world (Settled conduct world facts) := by
  apply Surroundings.Ensures.mapError valid first
  intro outcome stored now _ reached
  exact ⟨reached.1, reached.2.1, fun value done => reached.2.2 value (mapError_ok_iff.mp done)⟩

theorem Settled.weaken {final : Value → Session Live → World → Prop}
    (valid : conduct.Valid world)
    (first : conduct.Ensures routine session world (Settled conduct world facts))
    (implies : ∀ value stored now, conduct.Knows world now → facts value stored now →
      final value stored now) :
    conduct.Ensures routine session world (Settled conduct world final) := by
  apply Surroundings.Ensures.weaken valid first
  intro outcome stored now _ reached
  exact ⟨reached.1, reached.2.1,
    fun value done => implies value stored now reached.2.1 (reached.2.2 value done)⟩

theorem settled_unchanged {told : Value → World → Prop} (valid : conduct.Valid world)
    (first : conduct.Ensures routine session world (conduct.Unchanged session world told)) :
    conduct.Ensures routine session world (Settled conduct world fun value stored now =>
      stored = session ∧ told value now) := by
  apply Surroundings.Ensures.weaken valid first
  intro outcome stored now _ reached
  obtain ⟨rfl, holds, knows, fact⟩ := reached
  exact ⟨holds, knows, fun value done => ⟨rfl, fact value done⟩⟩

theorem settled_pure {value : Value} (holds : conduct.Holds session world)
    (fact : facts value session world) :
    conduct.Ensures (pure value : SessionRoutine P Live Failure Value) session world
      (Settled conduct world facts) :=
  ⟨holds, Conduct.Knows.refl world, fun found same => by cases same; exact fact⟩

theorem settled_committed {Commit : Type} {commit : SessionRoutine P Live Failure Commit}
    {records : DurableSyncRecord → World → Prop} (valid : conduct.Valid world)
    (committed : conduct.Ensures commit session world
      (conduct.Committed session session.live world records)) :
    conduct.Ensures commit session world (Settled conduct world fun _ stored now =>
      stored.live = session.live ∧ records stored.record now) := by
  apply Surroundings.Ensures.weaken valid committed
  intro outcome stored now _ reached
  obtain ⟨knows, reached⟩ := reached
  cases outcome with
  | ok value =>
    obtain ⟨same, holds, described⟩ := reached
    refine ⟨?_, knows, fun _ _ => ⟨same, described⟩⟩
    cases stored
    cases same
    exact holds
  | error failure =>
    obtain ⟨rfl, holds⟩ := reached
    exact ⟨holds, knows, fun value impossible => by cases impossible⟩

end Settled

section Promises

/-- What the acknowledged publications of a replica state. -/
def announced (channel : Channel) (network : Network P Agent) (agent : Agent) : Set Statement :=
  {statement | ∃ entry, ⟨agent, entry⟩ ∈ network.acknowledged ∧
    statement ∈ statementsOf channel entry.objects}

variable (codec : CursorCodec P) (channel : Channel) (given : Set Statement)

/-- The state accounts for the log up to the cursor of the record, and knows in the open
whatever the replica has announced or is about to. -/
structure Accounts (network : Network P Agent) (agent : Agent) (record : DurableSyncRecord)
    (state : LocalScalarRecoveryState) : Prop where
  covered : Covered codec channel given network.log state record
  discloses : state.knowledge.Discloses site
    (announced channel network agent ∪ outboxStatements channel record)

/-- What a replica may restart from: its outbox is its own, the trusted state accounts for
the record, and no acknowledged publication is lost. -/
structure Recorded (network : Network P Agent) (agent : Agent)
    (record : DurableSyncRecord) : Prop where
  owned : network.Owned agent record
  restores : ∃ base, decodeMultiScalarRecoveryState record.trustedState = .ok base ∧
    Accounts codec channel given network agent record base
  settled : ∀ entry, ⟨agent, entry⟩ ∈ network.acknowledged →
    record.outbox[entry.publicationId]? = some entry ∨
      Delivered codec channel network.log record entry

/-- The live state accounts for the record as the trusted one does. -/
structure Promised (network : Network P Agent) (agent : Agent)
    (session : Session LocalScalarRecoveryState) : Prop where
  recorded : Recorded codec channel given network agent session.record
  accounts : Accounts codec channel given network agent session.record session.live

/-- The log and what was staged grow, and no publications of the replica are acknowledged
but those of the record. -/
structure Grown (agent : Agent) (record : DurableSyncRecord)
    (before after : Network P Agent) : Prop where
  log : before.log <+: after.log
  staged : before.staged ⊆ after.staged
  acknowledged : ∀ entry, ⟨agent, entry⟩ ∈ after.acknowledged →
    ⟨agent, entry⟩ ∈ before.acknowledged ∨ record.outbox[entry.publicationId]? = some entry

end Promises

variable {codec : CursorCodec P} {channel : Channel} {given : Set Statement}
  {network now : Network P Agent} {agent : Agent} {record next : DurableSyncRecord}
  {session : Session LocalScalarRecoveryState} {live : LocalScalarRecoveryState}

theorem Accounts.grown (accounts : Accounts codec channel given network agent record live)
    (grown : Grown agent record network now) :
    Accounts codec channel given now agent record live := by
  refine ⟨accounts.covered.grown grown.log, accounts.discloses.mono ?_⟩
  rintro statement (⟨entry, member, carried⟩ | pending)
  · rcases grown.acknowledged entry member with before | found
    · exact Or.inl ⟨entry, before, carried⟩
    · exact Or.inr ⟨entry.publicationId, entry, found, carried⟩
  · exact Or.inr pending

theorem Recorded.grown (recorded : Recorded codec channel given network agent record)
    (grown : Grown agent record network now) :
    Recorded codec channel given now agent record where
  owned := recorded.owned.later grown.staged
  restores := by
    obtain ⟨base, decoded, accounts⟩ := recorded.restores
    exact ⟨base, decoded, accounts.grown grown⟩
  settled := by
    intro entry member
    rcases grown.acknowledged entry member with before | pending
    · exact (recorded.settled entry before).imp_right fun delivered => delivered.grown grown.log
    · exact Or.inl pending

theorem Promised.grown (held : Promised codec channel given network agent session)
    (grown : Grown agent session.record network now) :
    Promised codec channel given now agent session :=
  ⟨held.recorded.grown grown, held.accounts.grown grown⟩

theorem grown_of_rely (passed : Network.Rely agent network now) : Grown agent record network now :=
  ⟨passed.log, passed.staged, fun entry member => Or.inl ((passed.acknowledged entry).mp member)⟩

section Answers

variable [DecidableEq Agent]

theorem mem_acknowledges {entry : DurableOutboxEntry} (network : Network P Agent) (agent : Agent)
    (record : DurableSyncRecord) :
    ⟨agent, entry⟩ ∈ (network.acknowledges agent record).acknowledged ↔
      ⟨agent, entry⟩ ∈ network.acknowledged ∨ record.outbox[entry.publicationId]? = some entry := by
  rw [Network.acknowledges, List.mem_append]
  refine or_congr_right ⟨fun new => ?_, fun found => ?_⟩
  · obtain ⟨pair, listed, same⟩ := List.mem_map.mp new
    cases same
    have found := ExtTreeMap.mem_toList_iff_getElem?_eq_some.mp listed
    rw [(record.keyed pair.1 pair.2 found).1, found]
  · exact List.mem_map.mpr ⟨(entry.publicationId, entry),
      ExtTreeMap.mem_toList_iff_getElem?_eq_some.mpr found, rfl⟩

theorem grown_acknowledges (network : Network P Agent) (agent : Agent)
    (record : DurableSyncRecord) :
    Grown agent record network (network.acknowledges agent record) :=
  ⟨List.prefix_refl _, fun _ member => member,
    fun _ member => (mem_acknowledges network agent record).mp member⟩

/-- The store has kept or lost another record without saying so. -/
theorem grown_of_unsaid (told : now = network ∨ now = network.stores agent next) :
    Grown agent record network now := by
  rcases told with rfl | rfl <;> exact ⟨List.prefix_refl _, fun _ member => member,
    fun _ member => Or.inl member⟩

theorem grown_of_change {op : SessionOp P} (change : network.Change agent op now)
    (other : ∀ stored, op ≠ .persist stored) :
    Grown agent record network now := by
  cases change with
  | kept => exact ⟨List.prefix_refl _, fun _ member => member, fun _ member => Or.inl member⟩
  | appended expected objects head current fresh =>
    exact ⟨List.prefix_append _ _, fun _ member => member, fun _ member => Or.inl member⟩
  | stored stored => exact absurd rfl (other stored)
  | acknowledged stored => exact absurd rfl (other stored)

end Answers

section Steps

variable {trusted : Bytes} {head : P.Revision} {cursor : TransportCursor} {objects : List Bytes}

theorem Promised.edit (held : Promised codec channel given network agent session)
    (named : live.KeysNamed) (moved : session.live.Moved live ∅ ∅) :
    Promised codec channel given network agent ⟨live, session.record⟩ := by
  obtain ⟨_, start, position, covers⟩ := held.accounts.covered
  refine ⟨held.recorded, ⟨named, start, position, ?_⟩, moved.discloses held.accounts.discloses⟩
  apply covers.move moved Set.subset_union_left (Set.Subset.refl _)
    (Set.empty_subset _) covers.knowsPending Set.subset_union_left
  exact fun statement _ impossible => impossible.elim

/-- A received range brings the live state, the trusted state and the cursor to its head. -/
theorem Promised.receive (held : Promised codec channel given network agent session)
    (valid : network.Valid codec) (trips : RoundTrips codec) {known : Option P.Revision}
    (named : live.KeysNamed) (moved : session.live.Moved live (statementsOf channel objects) ∅)
    (encodes : encodeMultiScalarRecoveryState live = .ok trusted)
    (decoded : codec.decodeOptional session.record.appliedCursor = .ok known)
    (range : network.log.Range known head objects) (encoded : codec.encode head = .ok cursor) :
    Promised codec channel given network agent ⟨live,
      session.record.applyReceived trusted cursor⟩ := by
  have accounts : Accounts codec channel given network agent
      (session.record.applyReceived trusted cursor) live :=
    ⟨held.accounts.covered.receive valid.revisions trips named moved decoded range encoded,
      moved.discloses held.accounts.discloses⟩
  refine ⟨⟨held.recorded.owned, ⟨live, decodeMultiScalarRecoveryState_encode named encodes,
    accounts⟩, ?_⟩, accounts⟩
  intro entry member
  exact (held.recorded.settled entry member).imp_right fun delivered =>
    delivered.receive valid.revisions trips decoded range encoded

/-- A staged handoff puts what it exposes into the outbox. -/
theorem Promised.stage (held : Promised codec channel given network agent session)
    {handoff : PreparedRecoveryHandoff} (kept : Prepared channel session.live handoff)
    (handed : LocalScalarRecoveryState.HandsOff session.live live
      (session.live.closures handoff.revisionIds.toList))
    (encodes : encodeMultiScalarRecoveryState live = .ok trusted)
    (prepared : session.record.prepareOutbox trusted handoff.publicationId
      session.record.appliedCursor handoff.objects = .ok next)
    (staged : ⟨agent, ⟨handoff.publicationId, session.record.appliedCursor, handoff.objects⟩⟩ ∈
      network.staged) :
    Promised codec channel given network agent ⟨live, next⟩ := by
  have accounts : Accounts codec channel given network agent next live := by
    refine ⟨held.accounts.covered.stage kept handed prepared, ?_⟩
    rw [prepared_statements prepared, ← Set.union_assoc]
    exact (handed.moved.discloses held.accounts.discloses).union (staged_discloses kept handed)
  refine ⟨⟨?_, ⟨live, ?_, accounts⟩, ?_⟩, accounts⟩
  · intro id entry found
    rcases prepareOutbox_entries prepared id entry found with old | rfl
    · exact held.recorded.owned id entry old
    · exact staged
  · rw [(DurableSyncRecord.prepareOutbox_ok prepared).2.1]
    exact decodeMultiScalarRecoveryState_encode handed.named encodes
  · intro entry member
    rcases held.recorded.settled entry member with pending | delivered
    · exact Or.inl (prepared_keeps prepared pending)
    · exact Or.inr (delivered.stage prepared)

section Retiring

variable {ids : ExtTreeSet PublicationId} {start reached : Log P}

theorem Accounts.retire (accounts : Accounts codec channel given network agent record live)
    (valid : network.Valid codec) (trips : RoundTrips codec)
    (position : Position codec network.log record start)
    (settling : Settling channel network.log record ids head start reached)
    (retires : record.Retires ids trusted cursor next) (encoded : codec.encode head = .ok cursor) :
    Accounts codec channel given network agent next live := by
  refine ⟨accounts.covered.retire valid.revisions trips position settling retires encoded,
    accounts.discloses.mono ?_⟩
  refine Set.union_subset_union_right _ ?_
  rintro statement ⟨id, entry, found, carried⟩
  exact ⟨id, entry, retires_entries retires id entry found, carried⟩

/-- Retired publications are in the log up to the new cursor. -/
theorem Promised.retire (held : Promised codec channel given network agent session)
    (valid : network.Valid codec) (trips : RoundTrips codec)
    (position : Position codec network.log session.record start)
    (settling : Settling channel network.log session.record ids head start reached)
    (retires : session.record.Retires ids session.record.trustedState cursor next)
    (encoded : codec.encode head = .ok cursor) :
    Promised codec channel given network agent ⟨session.live, next⟩ := by
  refine ⟨⟨?_, ?_, ?_⟩, held.accounts.retire valid trips position settling retires encoded⟩
  · intro id entry found
    exact held.recorded.owned id entry (retires_entries retires id entry found)
  · obtain ⟨base, decoded, accounts⟩ := held.recorded.restores
    refine ⟨base, ?_, accounts.retire valid trips position settling retires encoded⟩
    rw [retires.trusted, decoded]
  · intro entry member
    rcases held.recorded.settled entry member with pending | delivered
    · by_cases gone : entry.publicationId ∈ ids
      · exact Or.inr ⟨reached, position_encoded trips encoded retires.applied settling.upto,
          settling.arrived entry.publicationId gone entry pending⟩
      · exact Or.inl (by rw [retires.entries, if_neg gone, pending])
    · exact Or.inr (delivered.retire valid.revisions trips position settling retires encoded)

end Retiring

end Steps

section Conduct

variable (codec : CursorCodec P) (channel : Channel) (given : Agent → Set Statement)

/-- The store has acknowledged every entry of the record. -/
def Network.Acknowledged (network : Network P Agent) (agent : Agent)
    (record : DurableSyncRecord) : Prop :=
  ∀ (id : PublicationId) (entry : DurableOutboxEntry), record.outbox[id]? = some entry →
    ⟨agent, entry⟩ ∈ network.acknowledged

/-- All may restart from their durable records, and what is in the log was acknowledged
before it got there. -/
structure Consistent (network : Network P Agent) : Prop where
  valid : network.Valid codec
  records : ∀ owner, Recorded codec channel (given owner) network owner (network.durable owner)
  published : ∀ object ∈ network.log.contents, ∃ staging ∈ network.acknowledged,
    object ∈ staging.entry.objects

/-- A record is one to restart from, and whatever is published was acknowledged. -/
structure Allows (agent : Agent) (network : Network P Agent) (op : SessionOp P) : Prop where
  permits : network.Permits codec agent op
  recorded : ∀ record, op = .persist record →
    Recorded codec channel (given agent) network agent record
  acknowledged : ∀ expected objects, op = .publish expected objects → ∀ object ∈ objects,
    ∃ staging ∈ network.acknowledged, object ∈ staging.entry.objects

variable [DecidableEq Agent]

/-- A replica in the network during a call, with the handoffs that it has prepared before
and the entries that the call may stage. -/
def replicaConduct (agent : Agent) (kept : List PreparedRecoveryHandoff)
    (entries : List DurableOutboxEntry) :
    Conduct P LocalScalarRecoveryState (Network P Agent) where
  Valid := Consistent codec channel given
  Rely := Network.Rely agent
  Permits network op := Allows codec channel given agent network op
  Answers := Network.Answers codec agent
  rely_refl := Network.Rely.refl agent
  rely_trans := Network.Rely.trans
  Holds session network := Promised codec channel (given agent) network agent session ∧
    Network.Acknowledged network agent session.record ∧
    (∀ handoff ∈ kept, Prepared channel session.live handoff) ∧
    ∀ entry ∈ entries, ⟨agent, entry⟩ ∈ network.staged
  Seen op answer network := network.Told codec op answer
  holds_later _ _ _ passed _ holds :=
    ⟨holds.1.grown (grown_of_rely passed),
      fun id entry found => (passed.acknowledged entry).mpr (holds.2.1 id entry found),
      holds.2.2.1, fun entry member => passed.staged (holds.2.2.2 entry member)⟩
  seen_later _ _ _ _ passed _ told := told.grown passed.log
  seen_answer _ answered _ := answered.told
  seen_kept _ answered _ _ _ told := told.grown answered.change.log
  holds_answer other _ answered _ holds :=
    ⟨holds.1.grown (grown_of_change answered.change other), fun id entry found =>
      answered.change.acknowledgements (holds.2.1 id entry found), holds.2.2.1, fun entry member =>
      answered.change.staged (holds.2.2.2 entry member)⟩
  permits_encode _ _ := ⟨trivial, fun _ impossible => (by cases impossible),
    fun _ _ impossible => (by cases impossible)⟩
  permits_decode _ _ := ⟨trivial, fun _ impossible => (by cases impossible),
    fun _ _ impossible => (by cases impossible)⟩
  permits_fetch _ _ := ⟨trivial, fun _ impossible => (by cases impossible),
    fun _ _ impossible => (by cases impossible)⟩

variable {codec channel given} {kept : List PreparedRecoveryHandoff}
  {entries : List DurableOutboxEntry} {after : Session LocalScalarRecoveryState}

theorem replica_decoded {cursor : Option TransportCursor} {expected : Option P.Revision}
    (decoded : (replicaConduct codec channel given agent kept entries).Decoded cursor
      expected network) :
    codec.decodeOptional cursor = .ok expected :=
  decoded.decodes fun _ _ told => told

/-- A replica may publish its own entries against their cursor. -/
theorem replica_mayPublish {ids : ExtTreeSet PublicationId} {cursor : Option TransportCursor}
    (pending : Conduct.PendingAt session.record ids cursor) :
    Conduct.MayPublish (replicaConduct codec channel given agent kept entries) session ids
      cursor network := by
  intro expected now consistent holds _ decoded
  refine ⟨holds.1.recorded.owned.batch consistent.valid pending (replica_decoded decoded),
    fun _ impossible => (by cases impossible), ?_⟩
  intro again objects same object member
  cases same
  obtain ⟨id, _, inside⟩ := List.mem_flatMap.mp member
  cases found : session.record.outbox[id]? with
  | none =>
    rw [found] at inside
    cases inside
  | some entry =>
    rw [found] at inside
    exact ⟨⟨agent, entry⟩, holds.2.1 id entry found, inside⟩

/-- A replica may store a record and swap it in if it could hold both already. -/
theorem replica_mayBecome
    (holds : (replicaConduct codec channel given agent kept entries).Holds session network)
    (becomes : Promised codec channel (given agent) network agent after)
    (grows : session.live.knowledge.knows ⊆ after.live.knowledge.knows) :
    (replicaConduct codec channel given agent kept entries).MayBecome session after network := by
  intro now passed consistent
  have still := (replicaConduct codec channel given agent kept entries).holds_later session network
    now passed consistent holds
  obtain ⟨held, acknowledged, prepared, staged⟩ := still
  have later := becomes.grown (grown_of_rely passed)
  have permits : now.Permits codec agent (.persist after.record) := later.recorded.owned
  refine ⟨⟨permits, ?_, fun _ _ impossible => by cases impossible⟩, ?_, ?_⟩
  · intro record same
    cases same
    exact later.recorded
  · intro ended told _
    cases show ended = now.acknowledges agent after.record from told
    refine ⟨later.grown (grown_acknowledges now agent after.record), ?_,
      fun handoff member => (prepared handoff member).later grows, staged⟩
    intro id entry found
    rw [mem_acknowledges, (after.record.keyed id entry found).1]
    exact Or.inr found
  · intro failure ended told _
    have unsaid : ended = now ∨ ended = now.stores agent after.record := told
    refine ⟨held.grown (grown_of_unsaid unsaid), ?_, prepared, ?_⟩
    · rcases unsaid with rfl | rfl <;> exact acknowledged
    · rcases unsaid with rfl | rfl <;> exact staged

theorem ensures_stageHandoff {handoff : PreparedRecoveryHandoff}
    (consistent : Consistent codec channel given network)
    (holds : (replicaConduct codec channel given agent kept entries).Holds session network)
    (prepared : handoff ∈ kept)
    (listed : ⟨handoff.publicationId, session.record.appliedCursor, handoff.objects⟩ ∈ entries) :
    (replicaConduct codec channel given agent kept entries).Ensures
      (stagePreparedRecoveryHandoff developmentMultiScalarTrustedStateCodec handoff) session network
      (Settled (replicaConduct codec channel given agent kept entries) network fun _ _ _ =>
        True) := by
  apply ensures_stagePreparedRecoveryHandoff consistent holds
  intro live trusted next folded encodes staged
  have handed := LocalScalarRecoveryState.handOff_handsOff holds.1.accounts.covered.1 folded
  exact replica_mayBecome holds (holds.1.stage (holds.2.2.1 handoff prepared) handed encodes staged
    (holds.2.2.2 _ listed)) handed.moved.grows

section CatchUp

variable {head : P.Revision} {objects : List Bytes} {known : Option P.Revision} {trusted : Bytes}
  {pre : ExtTreeMap DomainKey RevisionId} {caughtUp : ScalarRecoveryCatchUpOutcome P}

/-- What was observed is only identities of statements of the objects. -/
def Evidence (channel : Channel) (objects : List Bytes)
    (observed : ExtTreeMap DomainKey (ExtTreeSet RevisionId)) : Prop :=
  ∀ (key : DomainKey) ids, observed[key]? = some ids → ∀ id ∈ ids,
    ∃ revision, revision.id = id ∧ (key, revision) ∈ statementsOf channel objects

/-- The record stands at the head of a range that was applied, with evidence from it. -/
def AppliedAt (codec : CursorCodec P) (channel : Channel) (network : Network P Agent)
    (record : DurableSyncRecord) (caughtUp : ScalarRecoveryCatchUpOutcome P) : Prop :=
  ∀ head count observed sealed, caughtUp = .applied head count observed sealed →
    ∃ cursor known objects, codec.encode head = .ok cursor ∧ record.appliedCursor = some cursor ∧
      network.Told codec (.fetchSince known) (.ok (.changed head objects)) ∧
      Evidence channel objects observed

theorem AppliedAt.later (applied : AppliedAt codec channel network record caughtUp)
    (knows : (replicaConduct codec channel given agent kept entries).Knows network now) :
    AppliedAt codec channel now record caughtUp := by
  intro head count observed sealed same
  obtain ⟨cursor, known, objects, encoded, current, told, evidence⟩ :=
    applied head count observed sealed same
  exact ⟨cursor, known, objects, encoded, current,
    knows (.fetchSince known) (.ok (.changed head objects)) told, evidence⟩

/-- A range was fetched from the cursor of the record. -/
def FetchedRange (codec : CursorCodec P) (network : Network P Agent) (record : DurableSyncRecord)
    (head : P.Revision) (objects : List Bytes) : Prop :=
  ∃ known, codec.decodeOptional record.appliedCursor = .ok known ∧
    network.Told codec (.fetchSince known) (.ok (.changed head objects))

theorem FetchedRange.later (fetched : FetchedRange codec network record head objects)
    (knows : (replicaConduct codec channel given agent kept entries).Knows network now) :
    FetchedRange codec now record head objects := by
  obtain ⟨known, decoded, told⟩ := fetched
  exact ⟨known, decoded, knows (.fetchSince known) (.ok (.changed head objects)) told⟩

theorem received_candidate
    {received : ExtTreeMap DomainKey (ExtTreeSet RevisionId) ×
      ExtTreeMap DomainKey (ScalarRevision Bytes)}
    (named : session.live.KeysNamed)
    (built : (receiveProjections ⟨channel, pre⟩ session.live objects :
      Except (ScalarRecoveryCatchUpError P TrustedError) _).map (fun observation =>
      (observation.recovery, observation.observedRevisionIds, observation.sealedLocal)) =
      .ok (live, received)) :
    live.KeysNamed ∧ session.live.Moved live (statementsOf channel objects) ∅ ∧
    Evidence channel objects received.1 := by
  cases done : (receiveProjections ⟨channel, pre⟩ session.live objects :
      Except (ScalarRecoveryCatchUpError P TrustedError) _) with
  | error failure => simp [done, Except.map] at built
  | ok observation =>
    simp only [done, Except.map, Except.ok.injEq, Prod.mk.injEq] at built
    obtain ⟨sameLive, sameReceived⟩ := built
    rw [← sameLive, ← sameReceived]
    obtain ⟨keyed, moved, evidence⟩ := receiveProjections_moved named done
    exact ⟨keyed, moved, fun key ids found => evidence key ids found⟩

variable (trips : RoundTrips codec)
include trips

theorem replica_receives {next : DurableSyncRecord}
    (consistent : Consistent codec channel given network)
    (holds : (replicaConduct codec channel given agent kept entries).Holds session network)
    (named : live.KeysNamed) (moved : session.live.Moved live (statementsOf channel objects) ∅)
    (encodes : encodeMultiScalarRecoveryState live = .ok trusted)
    (fetched : FetchedRange codec network session.record head objects)
    (receives : (replicaConduct codec channel given agent kept entries).Receives session.record
      trusted head next network) :
    (replicaConduct codec channel given agent kept entries).MayBecome session ⟨live,
      next⟩ network := by
  obtain ⟨known, decoded, range⟩ := fetched
  obtain ⟨cursor, encoded, rfl⟩ := receives
  exact replica_mayBecome holds
    (holds.1.receive consistent.valid trips named moved encodes decoded range encoded) moved.grows

theorem ensures_advanceCursor {Failure : Type} {wrap : MultiScalarTrustedStateCodecError → Failure}
    {commit : SessionCommitError P → Failure} (consistent : Consistent codec channel given network)
    (holds : (replicaConduct codec channel given agent kept entries).Holds session network)
    (fetched : FetchedRange codec network session.record head []) :
    (replicaConduct codec channel given agent kept entries).Ensures
      (advanceCursor (fun live => (developmentMultiScalarTrustedStateCodec.encode live).mapError
        wrap) commit head) session network
      (Settled (replicaConduct codec channel given agent kept entries) network fun _ _ _ =>
        True) := by
  apply Conduct.ensures_load
  dsimp only
  cases encodes : encodeMultiScalarRecoveryState session.live with
  | error failure =>
    rw [show developmentMultiScalarTrustedStateCodec.encode session.live = .error failure from
      encodes]
    exact ⟨holds, Conduct.Knows.refl network, fun _ impossible => by cases impossible⟩
  | ok trusted =>
    rw [show developmentMultiScalarTrustedStateCodec.encode session.live = .ok trusted from encodes]
    apply Settled.mapError commit consistent
    apply Settled.weaken consistent
      (settled_committed consistent (Conduct.ensures_commitReceived consistent holds ?_))
    · exact fun _ _ _ _ _ => trivial
    · intro next now sound still knows receives
      have moved : session.live.Moved session.live (statementsOf channel []) ∅ :=
        (Knowledge.Moves.refl session.live.knowledge).weaken statementsOf_nil.symm
          (Set.Subset.refl _)
      exact replica_receives trips sound still still.1.accounts.covered.1 moved encodes
        (fetched.later knows) receives

theorem ensures_receiveRecoveryState (consistent : Consistent codec channel given network)
    (holds : (replicaConduct codec channel given agent kept entries).Holds session network)
    (fetched : FetchedRange codec network session.record head objects) :
    (replicaConduct codec channel given agent kept entries).Ensures
      (receiveRecoveryState developmentMultiScalarTrustedStateCodec ⟨channel, pre⟩ head objects)
        session network
      (Settled (replicaConduct codec channel given agent kept entries) network
        fun received stored now =>
        ∀ count, AppliedAt codec channel now stored.record
          (.applied head count received.1 received.2)) := by
  apply Conduct.ensures_load
  apply Settled.weaken consistent
  · apply ensures_commitCandidate consistent holds
    intro live received trusted built encodes
    obtain ⟨named, moved, _⟩ := received_candidate holds.1.accounts.covered.1 built
    apply Conduct.ensures_commitReceived consistent holds
    intro next now sound still knows receives
    exact replica_receives trips sound still named moved (mapError_ok_iff.mp encodes)
      (fetched.later knows) receives
  · intro received stored now knows reached count other same observed sealed applied
    obtain ⟨trusted, built, _, cursor, encoded, record⟩ := reached
    cases applied
    obtain ⟨known, _, told⟩ := fetched.later knows
    exact ⟨cursor, known, objects, encoded, record ▸ rfl, told,
      (received_candidate holds.1.accounts.covered.1 built).2.2⟩

/-- A catch-up keeps the promises, and an applied range is what it has shown of the log. -/
theorem ensures_catchUpScalarRecoveryState (consistent : Consistent codec channel given network)
    (holds : (replicaConduct codec channel given agent kept entries).Holds session network) :
    (replicaConduct codec channel given agent kept entries).Ensures
      (catchUpScalarRecoveryState developmentMultiScalarTrustedStateCodec ⟨channel, pre⟩)
        session network
      (Settled (replicaConduct codec channel given agent kept entries) network
        fun caughtUp stored now =>
        AppliedAt codec channel now stored.record caughtUp) := by
  have fetching := Conduct.Unchanged.mapError
    (ScalarRecoveryCatchUpError.io : _ →
      ScalarRecoveryCatchUpError P MultiScalarTrustedStateCodecError) consistent
    (Conduct.ensures_fetchFromDurableCursor consistent holds)
  apply Settled.bind consistent (settled_unchanged consistent fetching)
  intro fetched stored now sound still _ reached
  obtain ⟨rfl, known, decoded, told⟩ := reached
  cases fetched with
  | upToDate head => exact settled_pure still fun _ _ _ _ impossible => by cases impossible
  | baselineUnavailable head =>
    exact settled_pure still fun _ _ _ _ impossible => by cases impossible
  | changed head objects =>
    have range : FetchedRange codec now stored.record head objects :=
      ⟨known, replica_decoded decoded, told⟩
    dsimp only
    split
    · rename_i empty
      rw [List.isEmpty_iff.mp empty] at range
      apply Settled.bind sound (ensures_advanceCursor trips sound still range)
      exact fun _ after later _ kept _ _ =>
        settled_pure kept fun _ _ _ _ impossible => by cases impossible
    · apply Settled.bind sound (ensures_receiveRecoveryState trips sound still range)
      exact fun received after later _ kept _ shown => settled_pure kept (shown objects.length)

end CatchUp

section Resume

theorem gatherProof_proven {CatchUpFailure : Type}
    {observed : ExtTreeMap DomainKey (ExtTreeSet RevisionId)}
    {stale proven : ExtTreeSet PublicationId}
    (done : stale.toList.foldlM (gatherProof (recoveryProves channel) record observed : _ → _ →
      Except (OutboxResumeError P CatchUpFailure _) _) ∅ = .ok proven) :
    ∀ id ∈ proven, ∃ entry, record.outbox[id]? = some entry ∧
    recoveryProves channel id entry observed = .ok true := by
  refine foldlM_invariant (fun gathered : ExtTreeSet PublicationId => ∀ id ∈ gathered, ∃ entry,
    record.outbox[id]? = some entry ∧ recoveryProves channel id entry observed = .ok true) ?_
    (fun id impossible => absurd impossible ExtTreeSet.not_mem_empty) done
  intro gathered id next _ held step
  cases found : record.outbox[id]? with
  | none =>
    simp only [gatherProof, found, Except.ok.injEq] at step
    exact step ▸ held
  | some entry =>
    simp only [gatherProof, found, bind_ok_iff, pure_eq_ok, Except.ok.injEq,
      mapError_ok_iff] at step
    obtain ⟨arrived, proved, same⟩ := step
    subst same
    intro other inside
    split at inside
    · rename_i yes
      rcases ExtTreeSet.mem_insert.mp inside with here | there
      · rw [Std.LawfulEqCmp.compare_eq_iff_eq.mp here] at found proved
        exact ⟨entry, found, yes ▸ proved⟩
      · exact held other there
    · exact held other inside

/-- What a range proves to have arrived is in the log up to its head. -/
theorem settling_observed {log reached : Log P} {head : P.Revision}
    {ids : ExtTreeSet PublicationId} {given : Set Statement}
    {observed : ExtTreeMap DomainKey (ExtTreeSet RevisionId)} (distinct : log.revisions.Nodup)
    (covered : Covered codec channel given log live record)
    (position : Position codec log record reached) (upto : log.Upto (some head) reached)
    (evidence : Evidence channel reached.contents observed)
    (proven : ∀ id ∈ ids, ∃ entry, record.outbox[id]? = some entry ∧
      recoveryProves channel id entry observed = .ok true) :
    Settling channel log record ids head reached reached := by
  obtain ⟨_, start, also, covers⟩ := covered
  have same : reached = start := position.unique distinct also
  subst same
  refine ⟨upto, List.prefix_refl _, Set.subset_union_left, ?_⟩
  rintro id member entry found ⟨key, revision⟩ carried
  obtain ⟨again, refound, proves⟩ := proven id member
  rw [found, Option.some.injEq] at refound
  subst refound
  obtain ⟨observedIds, lookup, named⟩ := recoveryProves_names proves carried
  obtain ⟨other, same, stated⟩ := evidence key observedIds lookup revision.id named
  -- both are what the replica knows under that identity
  have one : (live.register key).revision revision.id = some revision :=
    covers.knowsPending ⟨id, entry, found, carried⟩
  have two : (live.register key).revision other.id = some other := covers.knowsReceived stated
  rw [same, one, Option.some.injEq] at two
  exact two ▸ stated

/-- The failures of a resume pass over the development codec. -/
abbrev ReplicaFailure (P : Platform) :=
  ScalarRecoveryResumeError P MultiScalarTrustedStateCodecError

variable (trips : RoundTrips codec)
include trips

theorem replica_retires {ids : ExtTreeSet PublicationId} {head : P.Revision}
    {start reached : Log P} (consistent : Consistent codec channel given network)
    (holds : (replicaConduct codec channel given agent kept entries).Holds session network)
    (position : Position codec network.log session.record start)
    (settling : Settling channel network.log session.record ids head start reached)
    (reconciles : (replicaConduct codec channel given agent kept entries).Reconciles session.record
      ids session.record.trustedState head next network) :
    (replicaConduct codec channel given agent kept entries).MayBecome session ⟨session.live,
      next⟩ network := by
  obtain ⟨cursor, encoded, retires⟩ := reconciles
  exact replica_mayBecome holds
    (holds.1.retire consistent.valid trips position settling retires encoded) (Set.Subset.refl _)

theorem replica_retiresObserved {ids : ExtTreeSet PublicationId} {head : P.Revision}
    {count : Nat} {observed : ExtTreeMap DomainKey (ExtTreeSet RevisionId)}
    {sealed : ExtTreeMap DomainKey (ScalarRevision Bytes)}
    (consistent : Consistent codec channel given network)
    (holds : (replicaConduct codec channel given agent kept entries).Holds session network)
    (applied : AppliedAt codec channel network session.record
      (.applied head count observed sealed))
    (proven : ∀ id ∈ ids, ∃ entry, session.record.outbox[id]? = some entry ∧
      recoveryProves channel id entry observed = .ok true)
    (reconciles : (replicaConduct codec channel given agent kept entries).Reconciles session.record
      ids session.record.trustedState head next network) :
    (replicaConduct codec channel given agent kept entries).MayBecome session ⟨session.live,
      next⟩ network := by
  obtain ⟨cursor, known, objects, encoded, current, told, evidence⟩ :=
    applied head count observed sealed rfl
  obtain ⟨start, later, _, upto, exactly⟩ := told
  have position : Position codec network.log session.record (start ++ later) :=
    position_encoded trips encoded current upto
  have whole : Evidence channel (AppendLog.contents (start ++ later)) observed := by
    intro key ids found id member
    obtain ⟨revision, named, stated⟩ := evidence key ids found id member
    refine ⟨revision, named, ?_⟩
    rw [AppendLog.contents_append, statementsOf_append, ← statementsOf_congr exactly]
    exact Or.inr stated
  have settling := settling_observed consistent.valid.revisions holds.1.accounts.covered position
    upto whole proven
  exact replica_retires trips consistent holds position settling reconciles

omit trips in
/-- A retirement is settled if its record may be stored. -/
theorem ensures_retire {ids : ExtTreeSet PublicationId} {trusted : Bytes} {head : P.Revision}
    (consistent : Consistent codec channel given network)
    (holds : (replicaConduct codec channel given agent kept entries).Holds session network)
    (may : ∀ next now, Consistent codec channel given now →
      (replicaConduct codec channel given agent kept entries).Holds session now →
      (replicaConduct codec channel given agent kept entries).Knows network now →
      (replicaConduct codec channel given agent kept entries).Reconciles session.record ids trusted
      head next now →
      (replicaConduct codec channel given agent kept entries).MayBecome session
      ⟨session.live, next⟩ now) :
    (replicaConduct codec channel given agent kept entries).Ensures
      ((Session.commitReconciledOutboxBatch ids trusted head).mapError
        (OutboxResumeError.reconcile : _ → ReplicaFailure P))
      session network
        (Settled (replicaConduct codec channel given agent kept entries) network fun _ stored _ =>
        ∃ cursor, codec.encode head = .ok cursor ∧
          session.record.Retires ids trusted cursor stored.record) := by
  apply Settled.mapError _ consistent
  apply Settled.weaken consistent
    (settled_committed consistent
      (Conduct.ensures_commitReconciledOutboxBatch consistent holds may))
  exact fun _ stored now _ reached => reached.2

theorem ensures_reconcileObserved {stale : ExtTreeSet PublicationId}
    {caughtUp : ScalarRecoveryCatchUpOutcome P}
    (consistent : Consistent codec channel given network)
    (holds : (replicaConduct codec channel given agent kept entries).Holds session network)
    (applied : AppliedAt codec channel network session.record caughtUp) :
    (replicaConduct codec channel given agent kept entries).Ensures
      (reconcileObserved (recoveryProves channel) stale caughtUp : SessionRoutine P _
        (ReplicaFailure P) _) session network
      (Settled (replicaConduct codec channel given agent kept entries) network
        fun proven stored _ =>
        (∀ id ∈ proven, id ∈ stale) ∧ Settles session.record proven stored.record) := by
  have nothing : (replicaConduct codec channel given agent kept entries).Ensures
      (pure ∅ : SessionRoutine P _ (ReplicaFailure P) (ExtTreeSet PublicationId)) session network
      (Settled (replicaConduct codec channel given agent kept entries) network
        fun proven stored _ =>
        (∀ id ∈ proven, id ∈ stale) ∧ Settles session.record proven stored.record) :=
    settled_pure holds ⟨fun id impossible => absurd impossible ExtTreeSet.not_mem_empty,
      Settles.unchanged ExtTreeSet.isEmpty_empty⟩
  cases caughtUp with
  | upToDate head => exact nothing
  | cursorAdvancedWithoutSemanticObjects head => exact nothing
  | baselineUnavailable head => exact nothing
  | applied head count observed sealed =>
    apply Conduct.ensures_load
    cases gathered :
        (stale.toList.foldlM (gatherProof (recoveryProves channel) session.record observed) ∅ :
        Except (ReplicaFailure P) _) with
    | error failure => exact ⟨holds, Conduct.Knows.refl network,
        fun _ impossible => by cases impossible⟩
    | ok proven =>
      have within := gatherProof_within gathered
      change (replicaConduct codec channel given agent kept entries).Ensures (if proven.isEmpty then
        pure proven else _) session network _
      split
      · rename_i empty
        exact settled_pure holds ⟨within, Settles.unchanged empty⟩
      · apply Settled.bind consistent
          (ensures_retire consistent holds fun next now sound still knows reconciles =>
          replica_retiresObserved trips sound still (applied.later knows)
            (gatherProof_proven gathered) reconciles)
        intro _ stored now sound still _ retired
        obtain ⟨again, reencoded, retires⟩ := retired
        obtain ⟨cursor, _, _, encoded, current, _⟩ := applied head count observed sealed rfl
        have same : again = cursor := Except.ok.inj (reencoded.symm.trans encoded)
        exact settled_pure still ⟨within, by rw [retires.applied, current, same], retires.entries⟩

/-- What was published right after the cursor may be retired. -/
theorem replica_retiresPublished {ids : ExtTreeSet PublicationId} {head : P.Revision}
    (consistent : Consistent codec channel given network)
    (holds : (replicaConduct codec channel given agent kept entries).Holds session network)
    (published : (replicaConduct codec channel given agent kept entries).Published session.record
      ids session.record.appliedCursor (.published head) network)
    (reconciles : (replicaConduct codec channel given agent kept entries).Reconciles session.record
      ids session.record.trustedState head next network) :
    (replicaConduct codec channel given agent kept entries).MayBecome session ⟨session.live,
      next⟩ network := by
  obtain ⟨expected, decoded, landed⟩ := published
  obtain ⟨_, start, position, _⟩ := holds.1.accounts.covered
  obtain ⟨reached, settling⟩ := settling_published channel consistent.valid.revisions position
    (replica_decoded decoded) landed
  exact replica_retires trips consistent holds position settling reconciles

theorem ensures_publishCurrent {current proven : ExtTreeSet PublicationId}
    {caughtUp : ScalarRecoveryCatchUpOutcome P}
    (consistent : Consistent codec channel given network)
    (holds : (replicaConduct codec channel given agent kept entries).Holds session network)
    (pending : Conduct.PendingAt session.record current session.record.appliedCursor) :
    (replicaConduct codec channel given agent kept entries).Ensures
      (publishCurrent caughtUp proven current : SessionRoutine P _ (ReplicaFailure P) _)
        session network
      (Settled (replicaConduct codec channel given agent kept entries) network fun _ _ _ =>
        True) := by
  have publishing := Conduct.Unchanged.mapError (OutboxResumeError.publish : _ →
    ReplicaFailure P) consistent
    (Conduct.ensures_publishStagedBatch consistent holds pending (replica_mayPublish pending))
  apply Settled.bind consistent (settled_unchanged consistent publishing)
  intro outcome stored now sound still _ reached
  obtain ⟨rfl, expected, decoded, told⟩ := reached
  cases outcome with
  | conflict currentHead => exact settled_pure still trivial
  | published head =>
    apply Conduct.ensures_load
    apply Settled.bind sound
      (ensures_retire sound still fun next later steady keeps knows reconciles =>
      replica_retiresPublished trips steady keeps ⟨expected, knows.decoded decoded,
        knows _ _ told⟩ reconciles)
    exact fun _ _ _ _ kept _ _ => settled_pure kept trivial

/-- The second half of a pass: it retires, blocks or publishes. -/
theorem ensures_settleOutbox {pending : ExtTreeSet PublicationId}
    {caughtUp : ScalarRecoveryCatchUpOutcome P}
    (consistent : Consistent codec channel given network)
    (holds : (replicaConduct codec channel given agent kept entries).Holds session network)
    (applied : AppliedAt codec channel network session.record caughtUp) :
    (replicaConduct codec channel given agent kept entries).Ensures
      (settleOutbox (recoveryProves channel) pending caughtUp : SessionRoutine P _
        (ReplicaFailure P) _) session network
      (Settled (replicaConduct codec channel given agent kept entries) network fun _ _ _ =>
        True) := by
  apply Conduct.ensures_load
  apply Settled.bind consistent (ensures_reconcileObserved trips consistent holds applied)
  intro proven stored now sound still _ reached
  obtain ⟨within, settles⟩ := reached
  dsimp only
  split
  · exact settled_pure still trivial
  · split
    · exact settled_pure still trivial
    · apply ensures_publishCurrent trips sound still
      intro id member
      obtain ⟨_, current⟩ := set_mem_filter.mp member
      have kept : id ∉ proven := by
        intro retired
        have stale := (set_mem_filter.mp (within id retired)).2
        simp [current] at stale
      cases found : session.record.outbox[id]? with
      | none => simp [isCurrent, found] at current
      | some entry =>
        refine ⟨entry, by rw [settles.entries, if_neg kept, found], ?_⟩
        rw [settles.cursor]
        exact (isCurrent_iff found).mp current

/-- A resume pass keeps the promises of a replica. -/
theorem ensures_resumeScalarRecoveryOutboxSet {pre : ExtTreeMap DomainKey RevisionId}
    (consistent : Consistent codec channel given network)
    (holds : (replicaConduct codec channel given agent kept entries).Holds session network) :
    (replicaConduct codec channel given agent kept entries).Ensures
      (resumeScalarRecoveryOutboxSet developmentMultiScalarTrustedStateCodec ⟨channel, pre⟩)
        session network
      (Settled (replicaConduct codec channel given agent kept entries) network fun _ _ _ =>
        True) := by
  apply Conduct.ensures_load
  apply Settled.bind consistent (Settled.mapError (OutboxResumeError.catchUp : _ →
    ReplicaFailure P) consistent (ensures_catchUpScalarRecoveryState trips consistent holds))
  intro caughtUp stored now sound still _ applied
  split
  · exact settled_pure still trivial
  · split
    · exact settled_pure still trivial
    · exact ensures_settleOutbox trips sound still applied

theorem ensures_resumeScalarRecoveryOutboxSetBounded {pre : ExtTreeMap DomainKey RevisionId}
    (consistent : Consistent codec channel given network)
    (holds : (replicaConduct codec channel given agent kept entries).Holds session network) :
    (replicaConduct codec channel given agent kept entries).Ensures
      (resumeScalarRecoveryOutboxSetBounded developmentMultiScalarTrustedStateCodec ⟨channel, pre⟩)
        session network
      (Settled (replicaConduct codec channel given agent kept entries) network fun _ _ _ =>
        True) := by
  apply Settled.bind consistent (ensures_resumeScalarRecoveryOutboxSet trips consistent holds)
  intro initial stored now sound still _ _
  split
  · exact settled_pure still trivial
  · apply Settled.bind sound (ensures_resumeScalarRecoveryOutboxSet trips sound still)
    exact fun _ _ _ _ kept _ _ => settled_pure kept trivial

end Resume

end Conduct

end PrivateContinuum.Runtime
