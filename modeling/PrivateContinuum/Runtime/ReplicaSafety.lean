import PrivateContinuum.Runtime.Replicas
import PrivateContinuum.Sync.HonestNetwork

/-! Any number of replicas that edit, stage, publish, catch up and resume, while calls fail
with or without their effect and replicas crash. The cursor never runs ahead of the state,
no publication is lost, what was exposed is never hidden again, and replicas converge. -/

namespace PrivateContinuum.Runtime

open Std (ExtTreeMap ExtTreeSet)
open PrivateContinuum.Library PrivateContinuum.Core PrivateContinuum.Sync
open LocalScalarRecoveryState (Statement Site site)

variable {P : Platform} {Agent : Type}

/-- A new domain that the application adds; an invalid or known key changes nothing. -/
def LocalScalarRecoveryState.createDomain (recovery : LocalScalarRecoveryState) (atomId : AtomId)
    (domain : Bytes) :
    LocalScalarRecoveryState :=
  let created := do
    let key ← (DomainKey.create atomId domain).toOption
    let empty ← (LocalScalarDomain.fromCausal .empty).toOption
    (recovery.insertNew key empty.snapshot).toOption
  created.getD recovery

/-- What a replica has in memory: its session, and the handoffs that it has prepared. -/
structure Replica where
  session : Session LocalScalarRecoveryState
  kept : List PreparedRecoveryHandoff

/-- What an application does with a replica, with any arguments. -/
inductive ReplicaCall where
  | create (atomId : AtomId) (domain : Bytes)
  | edit (key : DomainKey) (change : LocalEdit Bytes)
  | prepare (publicationId : PublicationId)
      (revisionIds : ExtTreeMap DomainKey (ExtTreeSet RevisionId)) (generated : Option Nonce)
  | stage (handoff : PreparedRecoveryHandoff)
  | publishStaged (id : PublicationId)
  | publishStagedBatch (ids : ExtTreeSet PublicationId)
  | catchUp (pre : ExtTreeMap DomainKey RevisionId)
  | resume (pre : ExtTreeMap DomainKey RevisionId)
  | resumeBounded (pre : ExtTreeMap DomainKey RevisionId)

namespace Replica

def withLive (replica : Replica) (live : LocalScalarRecoveryState) :
    Replica := ⟨⟨live, replica.session.record⟩, replica.kept⟩

/-- A routine on the session, whatever its outcome. -/
def run {Failure Value : Type} (replica : Replica)
    (routine : SessionRoutine P LocalScalarRecoveryState Failure Value) :
    Proc (SessionOp P) SessionOp.Answer Replica :=
  (routine replica.session).bind fun ended => .ret ⟨ended.2, replica.kept⟩

/-- Prepares a handoff from the live state and keeps it. -/
def prepare (replica : Replica) (channel : Channel) (publicationId : PublicationId)
    (revisionIds : ExtTreeMap DomainKey (ExtTreeSet RevisionId))
    (generated : Option Nonce) : Replica :=
  ⟨replica.session,
    (prepareRecoveryHandoff replica.session.live channel publicationId revisionIds
      generated).toOption.toList ++
    replica.kept⟩

end Replica

namespace ReplicaCall

def perform (channel : Channel) (replica : Replica) :
    ReplicaCall → Proc (SessionOp P) SessionOp.Answer Replica
  | .create atomId domain =>
    .ret (replica.withLive (replica.session.live.createDomain atomId domain))
  | .edit key change => .ret (replica.withLive (replica.session.live.edit key change))
  | .prepare publicationId revisionIds generated =>
    .ret (replica.prepare channel publicationId revisionIds generated)
  | .stage handoff =>
    replica.run (stagePreparedRecoveryHandoff developmentMultiScalarTrustedStateCodec handoff)
  | .publishStaged id => replica.run (Session.publishStaged id)
  | .publishStagedBatch ids => replica.run (Session.publishStagedBatch ids)
  | .catchUp pre =>
    replica.run (catchUpScalarRecoveryState developmentMultiScalarTrustedStateCodec ⟨channel, pre⟩)
  | .resume pre =>
    replica.run
      (resumeScalarRecoveryOutboxSet developmentMultiScalarTrustedStateCodec ⟨channel, pre⟩)
  | .resumeBounded pre =>
    replica.run (resumeScalarRecoveryOutboxSetBounded developmentMultiScalarTrustedStateCodec
      ⟨channel, pre⟩)

/-- The entries that the call may put into the outbox. -/
def entries (record : DurableSyncRecord) : ReplicaCall → List DurableOutboxEntry
  | .stage handoff => [⟨handoff.publicationId, record.appliedCursor, handoff.objects⟩]
  | _ => []

end ReplicaCall

section Ready

variable (codec : CursorCodec P) (channel : Channel) (given : Agent → Set Statement)

/-- What holds of a replica between two calls. -/
structure Replica.Ready (agent : Agent) (replica : Replica) (network : Network P Agent) : Prop where
  held : Promised codec channel (given agent) network agent replica.session
  acknowledged : Network.Acknowledged network agent replica.session.record
  prepared : ∀ handoff ∈ replica.kept, Prepared channel replica.session.live handoff

variable {codec channel given} {agent : Agent} {network now : Network P Agent} {replica : Replica}

theorem Replica.Ready.later (ready : replica.Ready codec channel given agent network)
    (passed : Network.Rely agent network now) :
    replica.Ready codec channel given agent now where
  held := ready.held.grown (grown_of_rely passed)
  acknowledged id entry found := (passed.acknowledged entry).mpr (ready.acknowledged id entry found)
  prepared := ready.prepared

theorem Replica.Ready.edit (ready : replica.Ready codec channel given agent network)
    {live : LocalScalarRecoveryState} (named : live.KeysNamed)
    (moved : replica.session.live.Moved live ∅ ∅) :
    (replica.withLive live).Ready codec channel given agent network where
  held := ready.held.edit named moved
  acknowledged := ready.acknowledged
  prepared handoff member := (ready.prepared handoff member).later moved.grows

theorem created_moved {recovery : LocalScalarRecoveryState} (named : recovery.KeysNamed)
    (atomId : AtomId) (domain : Bytes) :
    (recovery.createDomain atomId domain).KeysNamed ∧
    recovery.Moved (recovery.createDomain atomId domain) ∅ ∅ := by
  unfold LocalScalarRecoveryState.createDomain
  dsimp only
  generalize created : (do
    let key ← (DomainKey.create atomId domain).toOption
    let empty ← (LocalScalarDomain.fromCausal .empty).toOption
    (recovery.insertNew key empty.snapshot).toOption) = outcome
  cases outcome with
  | none => exact ⟨named, .refl recovery.knowledge⟩
  | some next =>
    simp only [Option.bind_eq_bind, Option.bind_eq_some_iff, toOption_eq_some_iff] at created
    obtain ⟨key, listed, bare, begun, inserted⟩ := created
    refine ⟨LocalScalarRecoveryState.keysNamed_replaced named (DomainKey.create_nonempty listed)
      (LocalScalarRecoveryState.insertNew_ok_iff.mp inserted).2.2, ?_⟩
    refine (LocalScalarRecoveryState.moved_inserted begun inserted).weaken ?_ (Set.Subset.refl _)
    refine Set.eq_empty_of_forall_notMem fun statement gains => ?_
    simp [ScalarRegister.stated, ScalarRegister.revision, ScalarRegister.empty] at gains

theorem Replica.Ready.prepare (ready : replica.Ready codec channel given agent network)
    (publicationId : PublicationId) (revisionIds : ExtTreeMap DomainKey (ExtTreeSet RevisionId))
    (generated : Option Nonce) :
    (replica.prepare channel publicationId revisionIds generated).Ready codec channel given
      agent network where
  held := ready.held
  acknowledged := ready.acknowledged
  prepared := by
    intro handoff member
    rcases List.mem_append.mp member with new | old
    · rw [Option.mem_toList, toOption_eq_some_iff] at new
      exact (prepareRecoveryHandoff_prepared ready.held.accounts.covered.1 new).2
    · exact ready.prepared handoff old

end Ready

section System

variable [DecidableEq Agent] (codec : CursorCodec P) (channel : Channel)

/-- The replicas of a continuum. A replica stages what it has prepared, with objects of
their own; a restart has the durable record and what its trusted state decodes to. -/
def replicas :
    Agents Agent (Network P Agent) Replica ReplicaCall (SessionOp P) SessionOp.Answer Replica where
  Begins agent replica network call program after := program = call.perform channel replica ∧
    (∀ handoff, call = .stage handoff → handoff ∈ replica.kept) ∧
    network.Stages agent (call.entries replica.session.record) after
  Answers := Network.Answers codec
  Finishes _ _ ended network replica after := after = network ∧ replica = ended
  Crashes agent network replica after :=
    after = network.acknowledges agent (network.durable agent) ∧
    ∃ base, decodeMultiScalarRecoveryState (network.durable agent).trustedState = .ok base ∧
      replica = ⟨⟨base, network.durable agent⟩, []⟩

/-- A state of all replicas and their calls. -/
abbrev ReplicaConfig (P : Platform) (Agent : Type) :=
  Config Agent (Network P Agent) Replica ReplicaCall (SessionOp P) SessionOp.Answer Replica

variable (given : Agent → Set Statement)

def replicaGuard : (replicas codec channel : Agents Agent _ _ _ _ _ _).Guard where
  Valid := Consistent codec channel given
  Rely := Network.Rely
  Permits agent network op := Allows codec channel given agent network op
  Idle agent replica network := replica.Ready codec channel given agent network
  Done agent _ replica network := replica.Ready codec channel given agent network
  rely_refl := Network.Rely.refl
  rely_trans _ := Network.Rely.trans

variable {codec channel given} {agent : Agent} {network now : Network P Agent} {replica : Replica}

/-- A routine that settles leaves the replica ready. -/
theorem safe_run {Failure Value : Type}
    {routine : SessionRoutine P LocalScalarRecoveryState Failure Value}
    {entries : List DurableOutboxEntry}
    {facts : Value → Session LocalScalarRecoveryState → Network P Agent → Prop}
    (task : ReplicaCall) (consistent : Consistent codec channel given network)
    (ensured : (replicaConduct codec channel given agent replica.kept entries).Ensures routine
      replica.session network
      (Settled (replicaConduct codec channel given agent replica.kept entries) network facts)) :
    ((replicaGuard codec channel given).around agent).Safe
      ((replicaGuard codec channel given).Done agent task) (replica.run routine) network := by
  apply Surroundings.Safe.bind consistent ensured
  intro ended now _ reached
  exact ⟨reached.1.1, reached.1.2.1, reached.1.2.2.1⟩

theorem safe_perform (trips : RoundTrips codec) {call : ReplicaCall}
    (consistent : Consistent codec channel given network)
    (ready : replica.Ready codec channel given agent network)
    (kept : ∀ handoff, call = .stage handoff → handoff ∈ replica.kept)
    (staged : ∀ entry ∈ call.entries replica.session.record, ⟨agent, entry⟩ ∈ network.staged) :
    ((replicaGuard codec channel given).around agent).Safe
      ((replicaGuard codec channel given).Done agent call)
      (call.perform channel replica) network := by
  have holds :
      (replicaConduct codec channel given agent replica.kept
        (call.entries replica.session.record)).Holds
      replica.session network := ⟨ready.held, ready.acknowledged, ready.prepared, staged⟩
  cases call with
  | create atomId domain =>
    obtain ⟨named, moved⟩ := created_moved ready.held.accounts.covered.1 atomId domain
    exact ready.edit named moved
  | edit key change =>
    exact ready.edit (LocalScalarRecoveryState.edited_named ready.held.accounts.covered.1 change)
      (LocalScalarRecoveryState.moved_edited change)
  | prepare publicationId revisionIds generated =>
    exact ready.prepare publicationId revisionIds generated
  | stage handoff =>
    exact safe_run _ consistent (ensures_stageHandoff consistent holds (kept handoff rfl)
      (List.mem_singleton_self _))
  | publishStaged id =>
    have published := ensures_publishStaged_any id consistent holds fun _ _ => replica_mayPublish
    exact safe_run _ consistent (settled_unchanged consistent published)
  | publishStagedBatch ids =>
    have published := ensures_publishStagedBatch_any ids consistent holds fun _ _ =>
      replica_mayPublish
    exact safe_run _ consistent (settled_unchanged consistent published)
  | catchUp pre =>
    exact safe_run _ consistent (ensures_catchUpScalarRecoveryState trips consistent holds)
  | resume pre =>
    exact safe_run _ consistent (ensures_resumeScalarRecoveryOutboxSet trips consistent holds)
  | resumeBounded pre =>
    exact safe_run _ consistent
      (ensures_resumeScalarRecoveryOutboxSetBounded trips consistent holds)

/-- An allowed call leaves records that all may restart from. -/
theorem Consistent.change {after : Network P Agent} {op : SessionOp P}
    (consistent : Consistent codec channel given network)
    (allows : Allows codec channel given agent network op)
    (change : network.Change agent op after) :
    Consistent codec channel given after where
  valid := consistent.valid.change allows.permits change
  records := by
    intro owner
    by_cases apart : owner = agent
    · subst apart
      have before := consistent.records owner
      cases change with
      | kept => exact before
      | appended expected objects head current fresh =>
        exact before.grown ⟨List.prefix_append _ _, fun _ member => member,
          fun _ member => Or.inl member⟩
      | stored record =>
        rw [Network.stores_self]
        exact (allows.recorded record rfl).grown (grown_of_unsaid (Or.inr rfl))
      | acknowledged record =>
        rw [Network.acknowledges_self]
        exact (allows.recorded record rfl).grown (grown_acknowledges network owner record)
    · have passed := change.rely apart
      rw [passed.durable]
      exact (consistent.records owner).grown (grown_of_rely passed)
  published := by
    have kept : ∀ object ∈ network.log.contents, ∃ staging ∈ after.acknowledged,
        object ∈ staging.entry.objects := by
      intro object member
      obtain ⟨staging, listed, inside⟩ := consistent.published object member
      exact ⟨staging, change.acknowledgements listed, inside⟩
    cases change with
    | kept => exact kept
    | stored record => exact kept
    | acknowledged record => exact kept
    | appended expected objects head current fresh =>
      intro object member
      rw [AppendLog.contents_append] at member
      rcases List.mem_append.mp member with old | new
      · exact kept object old
      · rw [AppendLog.contents, List.flatMap_singleton] at new
        exact allows.acknowledged expected objects rfl object new

omit [DecidableEq Agent] in
theorem Consistent.stages {after : Network P Agent} {entries : List DurableOutboxEntry}
    (consistent : Consistent codec channel given network)
    (stages : network.Stages agent entries after) :
    Consistent codec channel given after := by
  obtain ⟨valid, _, yields⟩ := stages.valid consistent.valid
  refine ⟨valid, ?_, ?_⟩
  · intro owner
    rw [(yields owner).durable]
    exact (consistent.records owner).grown (grown_of_rely (yields owner))
  · cases stages with
    | again known => exact consistent.published
    | new fresh => exact consistent.published

/-- A restart counts the durable record as acknowledged. -/
theorem Consistent.restarts (consistent : Consistent codec channel given network)
    {base : LocalScalarRecoveryState}
    (decoded : decodeMultiScalarRecoveryState (network.durable agent).trustedState = .ok base) :
    Consistent codec channel given (network.acknowledges agent (network.durable agent)) ∧
      (⟨⟨base, network.durable agent⟩, []⟩ : Replica).Ready codec channel given agent
        (network.acknowledges agent (network.durable agent)) := by
  have recorded := consistent.records agent
  have allows : Allows codec channel given agent network (.persist (network.durable agent)) :=
    ⟨recorded.owned, fun record same => (by cases same; exact recorded),
      fun _ _ impossible => (by cases impossible)⟩
  have grown := grown_acknowledges network agent (network.durable agent)
  refine ⟨consistent.change allows (.acknowledged _), ⟨recorded.grown grown, ?_⟩, ?_, ?_⟩
  · obtain ⟨again, redecoded, accounts⟩ := recorded.restores
    rw [decoded, Except.ok.injEq] at redecoded
    exact redecoded ▸ accounts.grown grown
  · intro id entry found
    rw [mem_acknowledges, ((network.durable agent).keyed id entry found).1]
    exact Or.inr found
  · exact fun handoff impossible => absurd impossible List.not_mem_nil

theorem replicaGuard_sound (trips : RoundTrips codec) :
    (replicaGuard codec channel given : (replicas codec channel : Agents Agent _ _ _ _ _
      _).Guard).Sound where
  idle_stable agent replica network now passed _ ready := ready.later passed
  done_stable agent call replica network now passed _ ready := ready.later passed
  begins agent replica network call program after consistent ready begun := by
    obtain ⟨rfl, kept, stages⟩ := begun
    obtain ⟨_, staged, yields⟩ := stages.valid consistent.valid
    have sound := consistent.stages stages
    exact ⟨sound, safe_perform trips sound (ready.later (yields agent)) kept staged,
      fun other _ => yields other⟩
  answers agent network op answer after consistent allows told :=
    ⟨consistent.change allows (Network.Answers.change told),
      fun _ apart => (Network.Answers.change told).rely apart⟩
  finishes agent call ended network replica after consistent ready finished := by
    obtain ⟨rfl, rfl⟩ := finished
    exact ⟨consistent, ready, fun other _ => .refl other _⟩
  crashes agent network replica after consistent _ crashed := by
    obtain ⟨rfl, base, decoded, rfl⟩ := crashed
    obtain ⟨sound, ready⟩ := consistent.restarts decoded
    exact ⟨sound, ready,
      fun _ apart => (Network.Change.acknowledged (network.durable agent)).rely apart⟩

/-- Every replica has just been opened: with a state of what it was given, without a cursor
and with nothing in its outbox, before anything was staged. -/
structure Opened (given : Agent → Set Statement) (start : ReplicaConfig P Agent) : Prop where
  network : start.world.Start
  unacknowledged : start.world.acknowledged = []
  unapplied : ∀ agent, (start.world.durable agent).appliedCursor = none
  restored : ∀ agent, ∃ base,
    decodeMultiScalarRecoveryState (start.world.durable agent).trustedState = .ok base ∧
    base.knowledge.knows = given agent ∧
    start.phase agent = .idle ⟨⟨base, start.world.durable agent⟩, []⟩

variable {start config : ReplicaConfig P Agent}

omit [DecidableEq Agent] in
variable (codec channel) in
theorem Opened.recorded (opened : Opened given start) (agent : Agent)
    {base : LocalScalarRecoveryState}
    (decoded : decodeMultiScalarRecoveryState (start.world.durable agent).trustedState = .ok base)
    (knows : base.knowledge.knows = given agent) :
    Recorded codec channel (given agent) start.world agent (start.world.durable agent) ∧
      Accounts codec channel (given agent) start.world agent (start.world.durable agent) base := by
  have nothing : ∀ {entry : DurableOutboxEntry}, ⟨agent, entry⟩ ∉ start.world.acknowledged := by
    intro entry
    rw [opened.unacknowledged]
    exact List.not_mem_nil
  have unsent : outboxStatements channel (start.world.durable agent) = ∅ := by
    simp [outboxStatements, opened.network.settled agent]
  have silent : announced channel start.world agent = ∅ := by
    simp [announced, nothing]
  have accounts : Accounts codec channel (given agent) start.world agent
      (start.world.durable agent) base := by
    refine ⟨⟨decodeMultiScalarRecoveryState_named decoded, [],
      ⟨none, ?_, AppendLog.upto_nil _⟩, ?_⟩, ?_⟩
    · rw [opened.unapplied agent]
      rfl
    · rw [unsent, show statementsOf channel (AppendLog.contents []) = ∅ from
        statementsOf_nil, ← knows]
      exact Knowledge.covers_start base.knowledge.hidden
    · rw [unsent, silent, Set.union_empty]
      exact fun _ impossible => impossible.elim
  have owned : start.world.Valid codec := opened.network.valid
  exact ⟨⟨owned.owned agent, ⟨base, decoded, accounts⟩, fun entry member => absurd member nothing⟩,
    accounts⟩

theorem Opened.holds (opened : Opened given start) :
    (replicaGuard codec channel given : (replicas codec channel : Agents Agent _ _ _ _ _
      _).Guard).Holds start := by
  refine ⟨⟨opened.network.valid, ?_, ?_⟩, ?_⟩
  · intro agent
    obtain ⟨base, decoded, knows, _⟩ := opened.restored agent
    exact (opened.recorded codec channel agent decoded knows).1
  · intro object member
    obtain ⟨entry, listed, inside⟩ := AppendLog.mem_contents.mp member
    rw [opened.network.bare entry listed] at inside
    cases inside
  · intro agent
    obtain ⟨base, decoded, knows, idle⟩ := opened.restored agent
    obtain ⟨recorded, accounts⟩ := opened.recorded codec channel agent decoded knows
    rw [idle]
    refine ⟨⟨recorded, accounts⟩, ?_, fun handoff impossible => absurd impossible List.not_mem_nil⟩
    intro id entry found
    simp [opened.network.settled agent] at found

theorem replicas_hold (trips : RoundTrips codec) (opened : Opened given start)
    (reached : (replicas codec channel).Reaches start config) :
    (replicaGuard codec channel given).Holds config :=
  (replicaGuard_sound trips).reaches opened.holds reached

end System

section Quiet

variable [DecidableEq Agent]

/-- Replicas between two calls, on a network that never fails. -/
structure Quiet (Agent : Type) where
  network : Network .counted Agent
  memory : Agent → Replica

namespace Quiet

variable (quiet : Quiet Agent) (channel : Channel) (agent : Agent)

def config :
    ReplicaConfig .counted Agent := ⟨quiet.network, fun agent => .idle (quiet.memory agent)⟩

/-- A call that nobody interrupts. -/
def call (task : ReplicaCall) : Quiet Agent :=
  let ended := (task.perform channel (quiet.memory agent)).serve (Network.serve agent) quiet.network
  ⟨ended.2, Function.update quiet.memory agent ended.1⟩

/-- Stages the newest handoff that the replica has prepared. -/
def stageNewest : Quiet Agent :=
  match (quiet.memory agent).kept.head? with
  | none => quiet
  | some handoff =>
    let entry : DurableOutboxEntry :=
      ⟨handoff.publicationId, (quiet.memory agent).session.record.appliedCursor, handoff.objects⟩
    call ⟨quiet.network.stages agent [entry], quiet.memory⟩ channel agent (.stage handoff)

theorem reaches_served {task : ReplicaCall} {after : Network .counted Agent}
    (begins : (replicas .counted channel).Begins agent (quiet.memory agent) quiet.network task
      (task.perform channel (quiet.memory agent)) after) :
    (replicas .counted channel).Reaches quiet.config
      (call ⟨after, quiet.memory⟩ channel agent task).config := by
  have ran := ((replicaGuard .counted channel fun _ => ∅).around agent).runs_serve
    (fun network op => network.serve_answers agent op)
      (task.perform channel (quiet.memory agent)) after
  have reached := Agents.reaches_task (replicaGuard .counted channel fun _ =>
    ∅) quiet.config agent task rfl begins ran ⟨rfl, rfl⟩
  have phases : (call ⟨after, quiet.memory⟩ channel agent task).config.phase =
      Function.update quiet.config.phase agent
      (.idle ((task.perform channel (quiet.memory agent)).serve (Network.serve agent) after).1) :=
    Function.comp_update Phase.idle quiet.memory agent _
  rw [← phases] at reached
  exact reached

theorem reaches_call {task : ReplicaCall} (plain : ∀ handoff, task ≠ .stage handoff) :
    (replicas .counted channel).Reaches quiet.config (quiet.call channel agent task).config := by
  apply reaches_served quiet channel agent
  refine ⟨rfl, fun handoff staged => absurd staged (plain handoff), .again ?_⟩
  cases task with
  | stage handoff => exact absurd rfl (plain handoff)
  | _ => exact fun entry impossible => absurd impossible List.not_mem_nil

theorem reaches_stageNewest (once : ∀ handoff ∈ (quiet.memory agent).kept, handoff.objects.Nodup)
    (unused : ∀ handoff ∈ (quiet.memory agent).kept, ∀ staging ∈ quiet.network.staged,
      staging.entry.objects.Disjoint handoff.objects) :
    (replicas .counted channel).Reaches quiet.config (quiet.stageNewest channel agent).config := by
  unfold stageNewest
  split
  · exact Relation.ReflTransGen.refl
  · rename_i handoff newest
    have kept : handoff ∈ (quiet.memory agent).kept := List.mem_of_mem_head? newest
    apply reaches_served quiet channel agent
    refine ⟨rfl, fun other staged => (by cases staged; exact kept),
      .new ⟨?_, List.pairwise_singleton _ _, ?_⟩⟩
    · intro entry listed
      cases List.mem_singleton.mp listed
      exact once handoff kept
    · intro staging before entry listed
      cases List.mem_singleton.mp listed
      exact unused handoff kept staging before

end Quiet

theorem roundTrips_counted : RoundTrips .counted := by
  intro revision cursor encoded
  cases encoded
  exact congrArg Except.ok (by simp)

end Quiet

section Exchange

/-- The domain that is exchanged. -/
def exchangedKey : DomainKey := ⟨.ofByte 5, [98]⟩

def plainChannel : Channel := ⟨.plain, ⟨List.replicate 32 7, rfl⟩, .ofByte 9⟩

namespace Quiet

/-- Two replicas that know nothing. -/
def opened : Quiet Bool :=
  let record := DurableSyncRecord.create (recoveryImage .empty) none
  ⟨⟨[], fun _ => record, [], []⟩, fun _ => ⟨⟨.empty, record⟩, []⟩⟩

/-- One of them writes a value and prepares it for the other. -/
def written : Quiet Bool :=
  let ids : ExtTreeSet RevisionId := ExtTreeSet.ofList [(.ofByte 2 : RevisionId)] compare
  let created := opened.call plainChannel true (.create exchangedKey.atomId exchangedKey.domain)
  let begun := created.call plainChannel true (.edit exchangedKey (.beginEpoch (.ofByte 1) [42]))
  let sealed := begun.call plainChannel true (.edit exchangedKey (.sealLocal (.ofByte 2)))
  let finalized := sealed.call plainChannel true (.edit exchangedKey (.finalize (.ofByte 2)))
  finalized.call plainChannel true
    (.prepare (.ofByte 3) (ExtTreeMap.ofList [(exchangedKey, ids)] compare)
      (some ⟨List.replicate 24 3, rfl⟩))

/-- It stages and publishes the value, and the other one catches up. -/
def exchanged : Quiet Bool :=
  ((written.stageNewest plainChannel true).call plainChannel true (.resume ∅)).call plainChannel
    false (.catchUp ∅)

theorem opened_opened : Opened (fun _ => ∅) opened.config where
  network := ⟨List.nodup_nil, fun entry impossible => absurd impossible List.not_mem_nil, rfl,
    fun _ => rfl⟩
  unacknowledged := rfl
  unapplied _ := rfl
  restored _ := by
    have named : LocalScalarRecoveryState.empty.KeysNamed := by
      intro key snapshot found
      simp [LocalScalarRecoveryState.get, LocalScalarRecoveryState.empty] at found
    have encoded : encodeMultiScalarRecoveryState .empty = .ok (recoveryImage .empty) :=
      encodeMultiScalarRecoveryState_ok_iff.mpr ⟨by decide +kernel, rfl⟩
    refine ⟨.empty, decodeMultiScalarRecoveryState_encode named encoded, ?_, rfl⟩
    exact Set.eq_empty_of_forall_notMem fun statement known => by
      simp [LocalScalarRecoveryState.knowledge, LocalScalarRecoveryState.register,
        LocalScalarRecoveryState.get,
        LocalScalarRecoveryState.empty, ScalarRegister.stated, ScalarRegister.revision,
        ScalarRegister.empty] at known

theorem exchanged_reached :
    (replicas .counted plainChannel).Reaches opened.config exchanged.config := by
  have plain : ∀ (quiet : Quiet Bool) (agent : Bool) (task : ReplicaCall),
      (∀ handoff, task ≠ .stage handoff) →
      (replicas .counted plainChannel).Reaches quiet.config
        (quiet.call plainChannel agent task).config :=
    fun quiet agent task other => quiet.reaches_call plainChannel agent other
  have wrote : (replicas .counted plainChannel).Reaches opened.config written.config :=
    (((plain _ true (.create _ _) (by simp)).trans (plain _ true (.edit _ _) (by simp))).trans
      ((plain _ true (.edit _ _) (by simp)).trans (plain _ true (.edit _ _) (by simp)))).trans
        (plain _ true (.prepare _ _ _) (by simp))
  have nothing : written.network.staged = [] := List.isEmpty_iff.mp (by decide +kernel)
  have staged := written.reaches_stageNewest plainChannel true (by decide +kernel)
    fun handoff _ staging before => absurd before (nothing ▸ List.not_mem_nil)
  exact (wrote.trans staged).trans
    ((plain _ true (.resume _) (by simp)).trans (plain _ false (.catchUp _) (by simp)))

end Quiet

end Exchange

section Properties

variable [DecidableEq Agent] {codec : CursorCodec P} {channel : Channel}
  {given : Agent → Set Statement} {start config : ReplicaConfig P Agent}

/-- The cursor never runs ahead of the state. Whatever was called and wherever it failed:
the durable record restores a state that knows everything in the log up to its cursor, and
beyond what it was given that and its pending publications only revisions of its own that
it has not exposed. -/
theorem cursor_never_ahead (trips : RoundTrips codec) (opened : Opened given start)
    (reached : (replicas codec channel).Reaches start config) (agent : Agent) :
    ∃ base applied, decodeMultiScalarRecoveryState (config.world.durable agent).trustedState =
      .ok base ∧ Position codec config.world.log (config.world.durable agent) applied ∧
      Knowledge.Covers site (given agent) (outboxStatements channel (config.world.durable agent))
        (statementsOf channel applied.contents) base.knowledge := by
  obtain ⟨consistent, _⟩ := replicas_hold trips opened reached
  obtain ⟨base, decoded, accounts⟩ := (consistent.records agent).restores
  obtain ⟨_, applied, position, covers⟩ := accounts.covered
  exact ⟨base, applied, decoded, position, covers⟩

/-- The replica that has caught up in the exchange. -/
theorem cursor_never_ahead_exchanged : ∃ base applied,
    decodeMultiScalarRecoveryState (Quiet.exchanged.config.world.durable false).trustedState =
      .ok base ∧
      Position .counted Quiet.exchanged.config.world.log
        (Quiet.exchanged.config.world.durable false) applied ∧
      Knowledge.Covers site ∅
        (outboxStatements plainChannel (Quiet.exchanged.config.world.durable false))
        (statementsOf plainChannel applied.contents) base.knowledge :=
  cursor_never_ahead roundTrips_counted Quiet.opened_opened Quiet.exchanged_reached false

/-- Every publication that a store has acknowledged is still pending, or its statements are
in the log up to the cursor; and no object is in the log twice. -/
theorem publications_exactly_once (trips : RoundTrips codec) (opened : Opened given start)
    (reached : (replicas codec channel).Reaches start config) :
    (∀ agent entry, ⟨agent, entry⟩ ∈ config.world.acknowledged →
      (config.world.durable agent).outbox[entry.publicationId]? = some entry ∨
        ∃ applied, Position codec config.world.log (config.world.durable agent) applied ∧
          statementsOf channel entry.objects ⊆ statementsOf channel applied.contents) ∧
      config.world.log.contents.Nodup := by
  obtain ⟨consistent, _⟩ := replicas_hold trips opened reached
  refine ⟨fun agent entry member => (consistent.records agent).settled entry member, ?_⟩
  exact consistent.valid.anchored.contents_nodup consistent.valid.revisions consistent.valid.single

/-- The publication of the exchange. -/
theorem publications_exactly_once_exchanged : Quiet.exchanged.config.world.acknowledged.length = 1 ∧
    (∀ agent entry, ⟨agent, entry⟩ ∈ Quiet.exchanged.config.world.acknowledged →
      (Quiet.exchanged.config.world.durable agent).outbox[entry.publicationId]? = some entry ∨
        ∃ applied, Position .counted Quiet.exchanged.config.world.log
          (Quiet.exchanged.config.world.durable agent) applied ∧
          statementsOf plainChannel entry.objects ⊆ statementsOf plainChannel applied.contents) ∧
      Quiet.exchanged.config.world.log.contents.Nodup :=
  ⟨by decide +kernel,
    publications_exactly_once roundTrips_counted Quiet.opened_opened Quiet.exchanged_reached⟩

/-- What is in the log was acknowledged first, and whoever staged it has durably exposed
every revision in it: a crash never brings back a state that takes it for private. -/
theorem exposure_survives (trips : RoundTrips codec) (opened : Opened given start)
    (reached : (replicas codec channel).Reaches start config) {object : Bytes}
    (member : object ∈ config.world.log.contents) :
    ∃ staging ∈ config.world.acknowledged, object ∈ staging.entry.objects ∧
      ∃ base, decodeMultiScalarRecoveryState (config.world.durable staging.owner).trustedState =
        .ok base ∧ ∀ key revision, ObjectCarries channel object key revision →
          (base.register key).revision revision.id = some revision ∧
            (key, revision.id) ∉ base.knowledge.hidden := by
  obtain ⟨consistent, _⟩ := replicas_hold trips opened reached
  obtain ⟨staging, listed, inside⟩ := consistent.published object member
  obtain ⟨base, decoded, accounts⟩ := (consistent.records staging.owner).restores
  refine ⟨staging, listed, inside, base, decoded, ?_⟩
  intro key revision carried
  exact accounts.discloses (key, revision) (Or.inl ⟨staging.entry, listed, object, inside, carried⟩)

/-- The object of the exchange. -/
theorem exposure_survives_exchanged : ∃ object ∈ Quiet.exchanged.config.world.log.contents,
    ∃ staging ∈ Quiet.exchanged.config.world.acknowledged, object ∈ staging.entry.objects ∧
      ∃ base, decodeMultiScalarRecoveryState
        (Quiet.exchanged.config.world.durable staging.owner).trustedState = .ok base ∧
        ∀ key revision, ObjectCarries plainChannel object key revision →
          (base.register key).revision revision.id = some revision ∧
            (key, revision.id) ∉ base.knowledge.hidden := by
  have filled : Quiet.exchanged.config.world.log.contents ≠ [] :=
    List.length_pos_iff.mp (by decide +kernel)
  obtain ⟨object, member⟩ := List.exists_mem_of_ne_nil _ filled
  exact ⟨object, member,
    exposure_survives roundTrips_counted Quiet.opened_opened Quiet.exchanged_reached member⟩

/-- Replicas that were given the same, have applied the same and have nothing left to
publish or to expose have equal registers in every domain. -/
theorem replicas_converge (trips : RoundTrips codec) (opened : Opened given start)
    (reached : (replicas codec channel).Reaches start config) {one two : Agent}
    {left right : Replica} (idleOne : config.phase one = .idle left)
    (idleTwo : config.phase two = .idle right) (same : given one = given two)
    (applied : left.session.record.appliedCursor = right.session.record.appliedCursor)
    (sentOne : left.session.record.outbox = ∅) (sentTwo : right.session.record.outbox = ∅)
    (shownOne : left.session.live.knowledge.hidden = ∅)
    (shownTwo : right.session.live.knowledge.hidden = ∅) (key : DomainKey) :
    left.session.live.register key = right.session.live.register key := by
  obtain ⟨consistent, ready⟩ := replicas_hold trips opened reached
  have readyOne := ready one
  have readyTwo := ready two
  rw [idleOne] at readyOne
  rw [idleTwo] at readyTwo
  obtain ⟨_, start, ⟨known, decoded, upto⟩, coversOne⟩ := readyOne.held.accounts.covered
  obtain ⟨_, other, position, coversTwo⟩ := readyTwo.held.accounts.covered
  have together : start = other :=
    Position.unique consistent.valid.revisions ⟨known, applied ▸ decoded, upto⟩ position
  subst together
  rw [← same] at coversTwo
  have nothing : ∀ {record : DurableSyncRecord}, record.outbox = ∅ →
      outboxStatements channel record = ∅ := by
    intro record empty
    simp [outboxStatements, empty]
  exact LocalScalarRecoveryState.register_of_knows
    (coversOne.agree coversTwo (nothing sentOne) (nothing sentTwo) shownOne shownTwo) key

/-- Both replicas of the exchange have the value. -/
theorem replicas_converge_exchanged :
    (((Quiet.exchanged.memory false).session.live.register exchangedKey).revision (.ofByte 2)).map
        ScalarRevision.value = some [42] ∧
      (Quiet.exchanged.memory true).session.live.register exchangedKey =
        (Quiet.exchanged.memory false).session.live.register exchangedKey := by
  have sent : ∀ agent, (Quiet.exchanged.memory agent).session.record.outbox = ∅ := by
    intro agent
    apply ExtTreeMap.isEmpty_iff.mp
    cases agent <;> decide +kernel
  have shown : ∀ agent, (Quiet.exchanged.memory agent).session.live.knowledge.hidden = ∅ := by
    intro agent
    apply LocalScalarRecoveryState.hidden_of_allExposed
    cases agent <;> decide +kernel
  have applied : (Quiet.exchanged.memory true).session.record.appliedCursor =
      (Quiet.exchanged.memory false).session.record.appliedCursor := by decide +kernel
  exact ⟨by decide +kernel,
    replicas_converge roundTrips_counted Quiet.opened_opened Quiet.exchanged_reached
    rfl rfl rfl applied (sent true) (sent false) (shown true) (shown false) exchangedKey⟩

end Properties

end PrivateContinuum.Runtime
