import PrivateContinuum.Sync.HonestNetwork

namespace PrivateContinuum.Sync

open Std (ExtTreeMap ExtTreeSet)
open PrivateContinuum.Library PrivateContinuum.Core

variable {P : Platform} {Agent : Type}

/-- The calls of the session layer that an application makes, with any arguments. -/
inductive ClientCall (P : Platform) where
  | transition (call : RecordCall P)
  | publishStaged (id : PublicationId)
  | publishStagedBatch (ids : ExtTreeSet PublicationId)
  | fetchFromDurableCursor

inductive ClientError (P : Platform) where
  | transition (failure : RecordCallError P)
  | io (failure : SessionIoError P)
  | batch (failure : BatchPublishError P)

namespace ClientCall

def perform : ClientCall P → SessionRoutine P Unit (ClientError P) Unit
  | .transition call => call.perform.mapError .transition
  | .publishStaged id => do
    let _ ← (Session.publishStaged id).mapError ClientError.io
    pure ()
  | .publishStagedBatch ids => do
    let _ ← (Session.publishStagedBatch ids).mapError ClientError.batch
    pure ()
  | .fetchFromDurableCursor => do
    let _ ← Session.fetchFromDurableCursor.mapError ClientError.io
    pure ()

/-- The entries that the call may put into the outbox. -/
def entries (codec : CursorCodec P) (record : DurableSyncRecord) :
    ClientCall P → List DurableOutboxEntry
  | .transition (.stageOutbound _ id objects) => [⟨id, record.appliedCursor, objects⟩]
  | .transition (.commitRebasedOutbox rebase head) => match codec.encode head with
    | .ok cursor => [⟨rebase.newPublicationId, some cursor, rebase.newProtectedObjects⟩]
    | .error _ => []
  | _ => []

end ClientCall

section Conduct

variable [DecidableEq Agent] (codec : CursorCodec P) {agent : Agent}
  {entries : List DurableOutboxEntry}

/-- A replica in the network during a call. It has staged everything in its outbox, and
the entries that the call may add to it. -/
def clientConduct (agent : Agent) (entries : List DurableOutboxEntry) :
    Conduct P Unit (Network P Agent) where
  Valid := Network.Valid codec
  Rely := Network.Rely agent
  Permits := Network.Permits codec agent
  Answers := Network.Answers codec agent
  rely_refl := Network.Rely.refl agent
  rely_trans := Network.Rely.trans
  Holds session network :=
    network.Owned agent session.record ∧ ∀ entry ∈ entries, ⟨agent, entry⟩ ∈ network.staged
  Seen op answer network := network.Told codec op answer
  holds_later _ _ _ passed _ holds :=
    ⟨holds.1.later passed.staged, fun entry member => passed.staged (holds.2 entry member)⟩
  seen_later _ _ _ _ passed _ told := told.grown passed.log
  seen_answer _ answered _ := answered.told
  seen_kept _ answered _ _ _ told := told.grown answered.change.log
  holds_answer _ _ answered _ holds :=
    ⟨holds.1.later answered.change.staged,
      fun entry member => answered.change.staged (holds.2 entry member)⟩
  permits_encode _ _ := trivial
  permits_decode _ _ := trivial
  permits_fetch _ _ := trivial

variable {codec} {network : Network P Agent} {session : Session Unit}

/-- A replica may publish its own entries against their cursor. -/
theorem client_mayPublish {ids : ExtTreeSet PublicationId} {cursor : Option TransportCursor}
    (pending : Conduct.PendingAt session.record ids cursor) :
    Conduct.MayPublish (clientConduct codec agent entries) session ids cursor network :=
  fun _ _ valid holds _ decoded =>
    holds.1.batch valid pending (decoded.decodes fun _ _ told => told)

/-- A replica may store a record of entries from its outbox and of the new ones. -/
theorem client_mayBecome {next : DurableSyncRecord}
    (holds : (clientConduct codec agent entries).Holds session network)
    (known : ∀ (id : PublicationId) (entry : DurableOutboxEntry), next.outbox[id]? = some entry →
      session.record.outbox[id]? = some entry ∨ entry ∈ entries) :
    (clientConduct codec agent entries).MayBecome session ⟨(), next⟩ network := by
  intro now passed valid
  have still :=
    (clientConduct codec agent entries).holds_later session network now passed valid holds
  have owned : now.Owned agent next := by
    intro id entry found
    rcases known id entry found with old | new
    · exact still.1 id entry old
    · exact still.2 entry new
  have staged : ∀ answer after, Network.Answers codec agent now (.persist next) answer after →
      now.staged ⊆ after.staged :=
    fun _ _ told => told.change.staged
  refine ⟨owned, fun after told _ => ?_, fun failure after told _ => ?_⟩
  · have more := staged (.ok ()) after told
    exact ⟨owned.later more, fun entry member => more (still.2 entry member)⟩
  · have more := staged (.error failure) after told
    exact ⟨still.1.later more, fun entry member => more (still.2 entry member)⟩

/-- What every call leaves: a session whose outbox the replica has staged. -/
def KeepsOwned (agent : Agent) {Failure Value : Type} (_ : Except Failure Value)
    (stored : Session Unit) (network : Network P Agent) : Prop :=
  network.Owned agent stored.record

theorem keepsOwned_committed {Failure Wrapped : Type}
    {commit : SessionRoutine P Unit Failure Unit} {wrap : Failure → Wrapped}
    {records : DurableSyncRecord → Network P Agent → Prop} (valid : network.Valid codec)
    (committed : (clientConduct codec agent entries).Ensures commit session network
      ((clientConduct codec agent entries).Committed session () network records)) :
    (clientConduct codec agent entries).Ensures (commit.mapError wrap) session network
      (KeepsOwned agent) := by
  apply Surroundings.Ensures.mapError valid committed
  intro outcome stored now _ reached
  cases outcome with
  | ok value => exact reached.2.2.1.1
  | error failure => exact reached.2.1 ▸ reached.2.2.1

theorem keepsOwned_unchanged {Failure Wrapped Value : Type}
    {routine : SessionRoutine P Unit Failure Value} {wrap : Failure → Wrapped}
    {facts : Value → Network P Agent → Prop} (valid : network.Valid codec)
    (unchanged : (clientConduct codec agent entries).Ensures routine session network
      ((clientConduct codec agent entries).Unchanged session network facts)) :
    (clientConduct codec agent entries).Ensures (do
      let _ ← routine.mapError wrap
      pure () : SessionRoutine P Unit Wrapped Unit) session network (KeepsOwned agent) := by
  apply Conduct.Unchanged.bind valid (Conduct.Unchanged.mapError wrap valid unchanged)
  · exact fun _ _ _ holds _ _ => holds.1
  · exact fun _ _ holds _ => holds.1

theorem prepareOutbox_entries {record next : DurableSyncRecord} {trusted : Bytes}
    {id : PublicationId} {expected : Option TransportCursor} {objects : List Bytes}
    (done : record.prepareOutbox trusted id expected objects = .ok next) (other : PublicationId)
    (entry : DurableOutboxEntry) (found : next.outbox[other]? = some entry) :
    record.outbox[other]? = some entry ∨ entry = ⟨id, expected, objects⟩ := by
  obtain ⟨_, _, _, entries⟩ := DurableSyncRecord.prepareOutbox_ok done
  rw [entries] at found
  split at found
  · cases found
    exact Or.inr rfl
  · exact Or.inl found

theorem retires_entries {record next : DurableSyncRecord} {trusted : Bytes}
    {cursor : TransportCursor} {ids : ExtTreeSet PublicationId}
    (retires : record.Retires ids trusted cursor next) (other : PublicationId)
    (entry : DurableOutboxEntry) (found : next.outbox[other]? = some entry) :
    record.outbox[other]? = some entry := by
  rw [retires.entries] at found
  split at found
  · cases found
  · exact found

theorem client_mayRetire {ids : ExtTreeSet PublicationId} {trusted : Bytes} {head : P.Revision}
    {next : DurableSyncRecord}
    (holds : (clientConduct codec agent entries).Holds session network)
    (reconciles : (clientConduct codec agent entries).Reconciles session.record ids trusted
      head next network) :
    (clientConduct codec agent entries).MayBecome session ⟨(), next⟩ network := by
  obtain ⟨cursor, _, retires⟩ := reconciles
  exact client_mayBecome holds fun id entry found => Or.inl (retires_entries retires id entry found)

/-- A transition adds no entries but those that it names. -/
theorem ensures_recordCall {call : RecordCall P} (valid : network.Valid codec)
    (holds : (clientConduct codec agent
      ((ClientCall.transition call).entries codec session.record)).Holds session network) :
    (clientConduct codec agent ((ClientCall.transition call).entries codec session.record)).Ensures
      call.perform session network (KeepsOwned agent) := by
  cases call with
  | stageOutbound trusted id objects =>
    apply keepsOwned_committed valid
    apply Conduct.ensures_stageOutbound valid holds
    intro next prepared
    refine client_mayBecome holds fun other entry found => ?_
    exact (prepareOutbox_entries prepared other entry found).imp_right List.mem_singleton.mpr
  | commitReceived trusted head =>
    apply keepsOwned_committed valid
    apply Conduct.ensures_commitReceived valid holds
    intro next now _ still _ received
    obtain ⟨cursor, _, rfl⟩ := received
    exact client_mayBecome still fun id entry found => Or.inl found
  | commitReconciledOutbox id trusted head =>
    apply keepsOwned_committed valid
    exact Conduct.ensures_commitReconciledOutbox valid holds fun next now _ still _ reconciles =>
      client_mayRetire still reconciles
  | commitReconciledOutboxBatch ids trusted head =>
    apply keepsOwned_committed valid
    exact Conduct.ensures_commitReconciledOutboxBatch valid holds
      fun next now _ still _ reconciles => client_mayRetire still reconciles
  | commitRebasedOutbox rebase head =>
    apply keepsOwned_committed valid
    apply Conduct.ensures_commitRebasedOutbox valid holds
    intro next now _ still _ rebases
    obtain ⟨_, cursor, middle, encoded, retires, prepared⟩ := rebases
    have named :
        (ClientCall.transition (.commitRebasedOutbox rebase head)).entries codec session.record =
        [⟨rebase.newPublicationId, some cursor, rebase.newProtectedObjects⟩] := by
      rw [ClientCall.entries, show codec.encode head = .ok cursor from encoded]
    refine client_mayBecome still fun other entry found => ?_
    rw [named, List.mem_singleton]
    exact (prepareOutbox_entries prepared other entry found).imp_left
      (retires_entries retires other entry)

theorem gatherEntry_ok {record : DurableSyncRecord}
    {start next : Option (Option TransportCursor) × List Bytes} {id : PublicationId}
    (step : (Session.gatherEntry record start id : Except (BatchPublishError P) _) = .ok next) :
    ∃ entry, record.outbox[id]? = some entry ∧ next.1 = some entry.expectedCursor ∧
      (start.1 = none ∨ start.1 = some entry.expectedCursor) := by
  unfold Session.gatherEntry at step
  split at step
  · cases step
  · rename_i entry found
    refine ⟨entry, found, ?_⟩
    split at step
    · rename_i first
      cases step
      exact ⟨rfl, Or.inl first⟩
    · rename_i expected begun
      split at step
      · cases step
      · rename_i same
        cases step
        rw [not_not.mp same] at begun ⊢
        exact ⟨rfl, Or.inr begun⟩

theorem gather_same {record : DurableSyncRecord} {ids : List PublicationId}
    {cursor : Option TransportCursor} {start last : Option (Option TransportCursor) × List Bytes}
    (begun : start.1 = some cursor)
    (done : ids.foldlM (Session.gatherEntry record : _ → _ →
      Except (BatchPublishError P) _) start = .ok last) :
    ∀ id ∈ ids, ∃ entry, record.outbox[id]? = some entry ∧ entry.expectedCursor = cursor := by
  induction ids generalizing start with
  | nil => exact fun id impossible => absurd impossible List.not_mem_nil
  | cons id rest ih =>
    rw [List.foldlM_cons, bind_ok_iff] at done
    obtain ⟨next, stepped, finished⟩ := done
    obtain ⟨entry, found, reached, none | same⟩ := gatherEntry_ok stepped
    · rw [begun] at none
      cases none
    · rw [begun, Option.some.injEq] at same
      rw [List.forall_mem_cons]
      exact ⟨⟨entry, found, same.symm⟩, ih (same ▸ reached) finished⟩

/-- What is gathered without a failure is pending against one cursor. -/
theorem gather_pendingAt {record : DurableSyncRecord} {ids : ExtTreeSet PublicationId}
    {gathered : Option (Option TransportCursor) × List Bytes}
    (done : ids.toList.foldlM (Session.gatherEntry record : _ → _ →
      Except (BatchPublishError P) _) (none, []) = .ok gathered) :
    ∃ cursor, Conduct.PendingAt record ids cursor := by
  have members : ∀ id, id ∈ ids ↔ id ∈ ids.toList := fun id => ExtTreeSet.mem_toList.symm
  simp only [Conduct.PendingAt, members]
  cases listed : ids.toList with
  | nil => exact ⟨none, fun id impossible => absurd impossible List.not_mem_nil⟩
  | cons id rest =>
    rw [listed, List.foldlM_cons, bind_ok_iff] at done
    obtain ⟨next, stepped, finished⟩ := done
    obtain ⟨entry, found, reached, _⟩ := gatherEntry_ok stepped
    refine ⟨entry.expectedCursor, ?_⟩
    rw [List.forall_mem_cons]
    exact ⟨⟨entry, found, rfl⟩, gather_same reached finished⟩

section Publishing

variable {Live World : Type} {conduct : Conduct P Live World} {session : Session Live}
  {world : World}

/-- A batch that cannot be gathered changes nothing, any other one may go out. -/
theorem ensures_publishStagedBatch_any (ids : ExtTreeSet PublicationId)
    (valid : conduct.Valid world) (holds : conduct.Holds session world)
    (may : ∀ ids cursor, Conduct.PendingAt session.record ids cursor →
      conduct.MayPublish session ids cursor world) :
    conduct.Ensures (Session.publishStagedBatch ids) session world
      (conduct.Unchanged session world fun _ _ => True) := by
  cases gathered : (ids.toList.foldlM (Session.gatherEntry session.record) (none, []) :
    Except (BatchPublishError P) _) with
  | ok found =>
    obtain ⟨cursor, pending⟩ := gather_pendingAt gathered
    exact Conduct.Unchanged.weaken valid (Conduct.ensures_publishStagedBatch valid holds pending
      (may ids cursor pending)) fun _ _ _ _ => trivial
  | error failure =>
    unfold Session.publishStagedBatch
    by_cases empty : ids.isEmpty
    · rw [if_pos empty]
      exact Conduct.unchanged_check holds fun _ _ => trivial
    · rw [if_neg empty]
      apply Conduct.ensures_load
      rw [gathered]
      exact ⟨rfl, holds, Conduct.Knows.refl world, fun _ impossible => by cases impossible⟩

theorem ensures_publishStaged_any (id : PublicationId) (valid : conduct.Valid world)
    (holds : conduct.Holds session world)
    (may : ∀ ids cursor, Conduct.PendingAt session.record ids cursor →
      conduct.MayPublish session ids cursor world) :
    conduct.Ensures (Session.publishStaged id) session world
      (conduct.Unchanged session world fun _ _ => True) := by
  cases found : session.record.outbox[id]? with
  | none =>
    apply Conduct.ensures_load
    rw [found]
    exact Conduct.unchanged_check holds fun _ _ => trivial
  | some entry =>
    have pending : Conduct.PendingAt session.record {id} entry.expectedCursor := by
      intro other member
      rw [← ExtTreeSet.mem_toList, set_toList_singleton, List.mem_singleton] at member
      exact ⟨entry, member ▸ found, rfl⟩
    exact Conduct.Unchanged.weaken valid
      (Conduct.ensures_publishStaged valid holds found (may {id} entry.expectedCursor pending))
      fun _ _ _ _ => trivial

end Publishing

/-- Whatever an application calls, its replica still has staged what is in its outbox. -/
theorem ensures_clientCall {call : ClientCall P} (valid : network.Valid codec)
    (holds : (clientConduct codec agent (call.entries codec session.record)).Holds
      session network) :
    (clientConduct codec agent (call.entries codec session.record)).Ensures call.perform session
      network (KeepsOwned agent) := by
  cases call with
  | transition call =>
    exact Surroundings.Ensures.mapError valid (ensures_recordCall valid holds)
      fun _ _ _ _ kept => kept
  | publishStaged id =>
    exact keepsOwned_unchanged valid (ensures_publishStaged_any id valid holds fun _ _ =>
      client_mayPublish)
  | publishStagedBatch ids =>
    exact keepsOwned_unchanged valid (ensures_publishStagedBatch_any ids valid holds fun _ _ =>
      client_mayPublish)
  | fetchFromDurableCursor =>
    exact keepsOwned_unchanged valid (Conduct.ensures_fetchFromDurableCursor valid holds)

end Conduct

section System

variable [DecidableEq Agent] (codec : CursorCodec P)

/-- The replicas of an application. Whatever is newly staged has objects of its own; a
restart finds the durable record. -/
def clients :
    Agents Agent (Network P Agent) (Session Unit) (ClientCall P) (SessionOp P) SessionOp.Answer
    (Except (ClientError P) Unit × Session Unit) where
  Begins agent session network call program after := program = call.perform session ∧
    network.Stages agent (call.entries codec session.record) after
  Answers := Network.Answers codec
  Finishes _ _ ended network session after := after = network ∧ session = ended.2
  Crashes agent network session after := after = network ∧ session = ⟨(), network.durable agent⟩

/-- A state of all replicas and their calls. -/
abbrev ClientConfig (P : Platform) (Agent : Type) :=
  Config Agent (Network P Agent) (Session Unit) (ClientCall P) (SessionOp P) SessionOp.Answer
    (Except (ClientError P) Unit × Session Unit)

/-- No replica has anything in its outbox, and the log holds no objects yet. -/
structure Network.Start (network : Network P Agent) : Prop where
  revisions : network.log.revisions.Nodup
  bare : ∀ entry ∈ network.log, entry.objects = []
  staged : network.staged = []
  settled : ∀ agent, (network.durable agent).outbox = ∅

def clientGuard : (clients codec : Agents Agent _ _ _ _ _ _).Guard where
  Valid := Network.Valid codec
  Rely := Network.Rely
  Permits agent network := Network.Permits codec agent network
  Idle agent session network := network.Owned agent session.record
  Done agent _ ended network := network.Owned agent ended.2.record
  rely_refl := Network.Rely.refl
  rely_trans _ := Network.Rely.trans

theorem clientGuard_sound :
    (clientGuard codec : (clients codec : Agents Agent _ _ _ _ _ _).Guard).Sound where
  idle_stable agent session network now passed _ owned := owned.later passed.staged
  done_stable agent call ended network now passed _ owned := owned.later passed.staged
  begins agent session network call program after valid owned begun := by
    obtain ⟨rfl, stages⟩ := begun
    obtain ⟨staged, named, yields⟩ := stages.valid valid
    exact ⟨staged, ensures_clientCall staged ⟨owned.later (yields agent).staged, named⟩,
      fun other _ => yields other⟩
  answers agent network op answer after valid permitted told :=
    ⟨valid.change permitted (Network.Answers.change told),
      fun _ apart => (Network.Answers.change told).rely apart⟩
  finishes agent call ended network session after valid owned finished := by
    obtain ⟨rfl, rfl⟩ := finished
    exact ⟨valid, owned, fun other _ => .refl other _⟩
  crashes agent network session after valid _ crashed := by
    obtain ⟨rfl, rfl⟩ := crashed
    exact ⟨valid, valid.owned agent, fun other _ => .refl other _⟩

variable {codec} {start config : ClientConfig P Agent}

omit [DecidableEq Agent] in
theorem Network.Start.valid {network : Network P Agent} (starts : network.Start) :
    network.Valid codec := by
  refine ⟨starts.revisions, ?_, ?_, ?_, ?_⟩
  · simp [starts.staged]
  · simp [starts.staged]
  · intro before entry inside
    have empty :=
      starts.bare entry (inside.subset (List.mem_append_right _ (List.mem_singleton_self _)))
    rw [empty]
    exact ⟨List.nodup_nil, fun object impossible => absurd impossible List.not_mem_nil⟩
  · intro agent id entry found
    simp [starts.settled agent] at found

/-- Whatever applications call on whatever replicas, and wherever calls fail, acknowledgements
get lost and replicas crash: no transport object reaches the log twice. -/
theorem at_most_once_delivery (starts : start.world.Start)
    (idle : ∀ agent, start.phase agent = .idle ⟨(), start.world.durable agent⟩)
    (reached : (clients codec).Reaches start config) : config.world.log.contents.Nodup := by
  have sound : start.world.Valid codec := starts.valid
  have held : (clientGuard codec).Holds start := by
    refine ⟨sound, fun agent => ?_⟩
    rw [idle agent]
    exact sound.owned agent
  have valid : config.world.Valid codec := ((clientGuard_sound codec).reaches held reached).1
  exact valid.anchored.contents_nodup valid.revisions valid.single

variable {agent : Agent} {network : Network P Agent} {record next : DurableSyncRecord}
  {id : PublicationId}

theorem runs_stageOutbound {trusted : Bytes} {objects : List Bytes}
    (prepared : record.prepareOutbox trusted id record.appliedCursor objects = .ok next) :
    ((clientGuard codec).around agent).Runs
      ((ClientCall.transition (.stageOutbound trusted id objects)).perform ⟨(), record⟩)
      network (.ok (), ⟨(), next⟩) (network.acknowledges agent next) := by
  have told : ((clientGuard codec).around agent).Answers network (.persist next) (.ok ())
      (network.acknowledges agent next) := rfl
  simp only [ClientCall.perform, RecordCall.perform, Session.stageOutbound, Routine.mapError,
    bind, Routine.andThen,
    Routine.load, Proc.bind, Routine.check, prepared, Except.mapError, Session.persist, Routine.ask]
  exact .call told (.ret _ _)

theorem runs_publishStaged {entry : DurableOutboxEntry} (head : P.Revision)
    (found : record.outbox[id]? = some entry) (first : entry.expectedCursor = none)
    (empty : network.log = []) :
    ((clientGuard codec).around agent).Runs ((ClientCall.publishStaged id).perform ⟨(), record⟩)
      network (.ok (), ⟨(), record⟩) { network with log := [⟨head, entry.objects⟩] } := by
  have told : ((clientGuard codec).around agent).Answers network (.publish none entry.objects)
      (.ok (.published head)) { network with log := [⟨head, entry.objects⟩] } := by
    refine ⟨by rw [empty]; rfl, by simp [empty, AppendLog.revisions], by simp [empty]⟩
  simp only [ClientCall.perform, Session.publishStaged, Routine.mapError, bind, Routine.andThen,
    Routine.load, Proc.bind, found,
    first, Session.decodeOptional, pure, Except.mapError, Session.publish, Routine.ask]
  exact .call told (.ret _ _)

end System

/-- An object that was staged and published. -/
theorem at_most_once_delivery_published : ∃ start config : ClientConfig .counted Unit,
    (clients .counted).Reaches start config ∧ config.world.log.contents = [[7]] ∧
    config.world.log.contents.Nodup := by
  let record := DurableSyncRecord.create [] none
  let entry : DurableOutboxEntry := ⟨.ofByte 1, none, [[7]]⟩
  let bare : Network .counted Unit := ⟨[], fun _ => record, [], []⟩
  have starts : bare.Start :=
    ⟨List.nodup_nil, fun entry impossible => absurd impossible List.not_mem_nil, rfl, fun _ => rfl⟩
  obtain ⟨next, prepared⟩ : ∃ next, record.prepareOutbox [] (.ofByte 1) none [[7]] = .ok next :=
    ⟨_, rfl⟩
  have found : next.outbox[(.ofByte 1 : PublicationId)]? = some entry := by
    rw [(DurableSyncRecord.prepareOutbox_ok prepared).2.2.2, if_pos rfl]
  let stage : ClientCall .counted := .transition (.stageOutbound [] (.ofByte 1) [[7]])
  let publish : ClientCall .counted := .publishStaged (.ofByte 1)
  let start : ClientConfig .counted Unit := ⟨bare, fun _ => .idle ⟨(), record⟩⟩
  have fresh : bare.Fresh (stage.entries .counted record) := by
    refine ⟨?_, List.pairwise_singleton _ _,
      fun staging impossible => absurd impossible List.not_mem_nil⟩
    intro one member
    rw [List.mem_singleton.mp member]
    exact List.nodup_singleton _
  let middle : ClientConfig .counted Unit :=
    ⟨(bare.stages () [entry]).acknowledges () next,
      Function.update start.phase () (.idle ⟨(), next⟩)⟩
  have staged : (clients .counted).Reaches start middle :=
    Agents.reaches_task (clientGuard .counted) start () stage rfl ⟨rfl, .new fresh⟩
      (runs_stageOutbound prepared) ⟨rfl, rfl⟩
  have published := Agents.reaches_task (clientGuard .counted) middle () publish
    (Function.update_self () (Phase.idle ⟨(), next⟩) start.phase)
    ⟨rfl, .again fun entry impossible => absurd impossible List.not_mem_nil⟩
      (runs_publishStaged (0 : Nat) found rfl rfl)
    ⟨rfl, rfl⟩
  exact ⟨start, _, staged.trans published, rfl,
    at_most_once_delivery starts (fun _ => rfl) (staged.trans published)⟩

end PrivateContinuum.Sync
