import PrivateContinuum.Library.Agents
import PrivateContinuum.Library.AppendLog
import PrivateContinuum.Sync.SessionTraces

/-! Replicas around one append-only log. A call may fail with or without its effect,
and a replica that crashes starts again from its durable record. -/

namespace PrivateContinuum.Sync

open Std (ExtTreeMap ExtTreeSet)
open PrivateContinuum.Library PrivateContinuum.Core

variable {P : Platform} {Agent : Type}

/-- An outbox entry with the replica that staged it. -/
structure Staging (Agent : Type) where
  owner : Agent
  entry : DurableOutboxEntry

/-- The log and the durable records of all replicas. What was staged, and which entries
were in a record that the store has acknowledged or handed back, is only kept to speak
about it. -/
structure Network (P : Platform) (Agent : Type) where
  log : AppendLog P.Revision Bytes
  durable : Agent → DurableSyncRecord
  staged : List (Staging Agent)
  acknowledged : List (Staging Agent)

/-- Cursors that are seen to decode as the codec decodes them. -/
theorem Conduct.Decoded.decodes {Live World : Type} {conduct : Conduct P Live World}
    {codec : CursorCodec P} {world : World} {cursor : Option TransportCursor}
    {expected : Option P.Revision} (decoded : conduct.Decoded cursor expected world)
    (told : ∀ cursor revision, conduct.Seen (.decodeCursor cursor) (.ok revision) world →
      codec.decode cursor = .ok revision) :
    codec.decodeOptional cursor = .ok expected := by
  cases cursor with
  | none =>
    cases expected with
    | none => rfl
    | some revision => cases decoded
  | some cursor =>
    cases expected with
    | none => cases decoded
    | some revision =>
      rw [CursorCodec.decodeOptional, told cursor revision decoded]
      rfl

namespace Network

variable {codec : CursorCodec P} {network before after last : Network P Agent}
  {agent other : Agent} {record : DurableSyncRecord} {known expected : Option P.Revision}
  {head : P.Revision} {objects : List Bytes} {object : Bytes}

/-- An honest answer to a fetch: everything after the known revision, or that it is too old. -/
def Fetched (network : Network P Agent) (known : Option P.Revision) : FetchOutcome P.Revision → Prop
  | .upToDate head => head = known ∧ network.log.tip = known
  | .changed head objects => network.log.tip = some head ∧ network.log.Range known head objects
  | .baselineUnavailable _ => True

/-- Compare-and-swap: the objects become one entry under a new revision. -/
def Appends (before : Network P Agent) (expected : Option P.Revision) (head : P.Revision)
    (objects : List Bytes) (after : Network P Agent) : Prop :=
  before.log.tip = expected ∧ head ∉ before.log.revisions ∧
    after = { before with log := before.log ++ [⟨head, objects⟩] }

def stages (network : Network P Agent) (agent : Agent)
    (entries : List DurableOutboxEntry) : Network P Agent :=
  { network with staged := network.staged ++ entries.map fun entry => ⟨agent, entry⟩ }

variable (codec) in
/-- What an answer tells for good. -/
def Told (network : Network P Agent) : (op : SessionOp P) → op.Answer → Prop
  | .encodeCursor revision, .ok cursor => codec.encode revision = .ok cursor
  | .decodeCursor cursor, .ok revision => codec.decode cursor = .ok revision
  | .fetchSince known, .ok (.changed head objects) => network.log.Range known head objects
  | .publish expected objects, .ok (.published head) => network.log.Landed expected head objects
  | _, _ => True

/-- What the others leave alone: the log and what was staged only grow, and a replica
keeps its own store. -/
structure Rely (agent : Agent) (before after : Network P Agent) : Prop where
  log : before.log <+: after.log
  staged : before.staged ⊆ after.staged
  durable : after.durable agent = before.durable agent
  acknowledged : ∀ entry, ⟨agent, entry⟩ ∈ after.acknowledged ↔ ⟨agent, entry⟩ ∈ before.acknowledged

theorem Rely.refl (agent : Agent) (network : Network P Agent) : Rely agent network network :=
  ⟨List.prefix_refl _, fun _ => id, rfl, fun _ => Iff.rfl⟩

theorem Rely.trans (first : Rely agent before after) (second : Rely agent after last) :
    Rely agent before last where
  log := first.log.trans second.log
  staged := fun _ member => second.staged (first.staged member)
  durable := second.durable.trans first.durable
  acknowledged := fun entry => (second.acknowledged entry).trans (first.acknowledged entry)

theorem Told.grown {op : SessionOp P} {answer : op.Answer} (told : before.Told codec op answer)
    (grown : before.log <+: after.log) : after.Told codec op answer := by
  unfold Told at told ⊢
  split at told
  · exact told
  · exact told
  · exact AppendLog.Range.grown told grown
  · exact AppendLog.Landed.grown told grown
  · trivial

section Ownership

/-- Every entry of the record was staged by the replica. -/
def Owned (network : Network P Agent) (agent : Agent) (record : DurableSyncRecord) : Prop :=
  ∀ (id : PublicationId) (entry : DurableOutboxEntry), record.outbox[id]? = some entry →
    ⟨agent, entry⟩ ∈ network.staged

variable (codec) in
/-- The object was staged against the revision. -/
def Expects (network : Network P Agent) (object : Bytes) (known : Option P.Revision) : Prop :=
  ∃ staging ∈ network.staged, object ∈ staging.entry.objects ∧
    codec.decodeOptional staging.entry.expectedCursor = .ok known

/-- The entries share no object with each other or with anything staged before. -/
structure Fresh (network : Network P Agent) (entries : List DurableOutboxEntry) : Prop where
  once : ∀ entry ∈ entries, entry.objects.Nodup
  apart : entries.Pairwise fun one other => one.objects.Disjoint other.objects
  unused : ∀ staging ∈ network.staged, ∀ entry ∈ entries,
    staging.entry.objects.Disjoint entry.objects

/-- A replica that is about to stage entries: they are new, or it has staged them before
and only tries again. -/
inductive Stages (agent : Agent) (entries : List DurableOutboxEntry) (before : Network P Agent) :
    Network P Agent → Prop where
  | again (known : ∀ entry ∈ entries, ⟨agent, entry⟩ ∈ before.staged) :
      Stages agent entries before before
  | new (fresh : before.Fresh entries) : Stages agent entries before (before.stages agent entries)

variable (codec) in
/-- What holds of the log, of what was staged and of the durable records. -/
structure Valid (network : Network P Agent) : Prop where
  revisions : network.log.revisions.Nodup
  once : ∀ staging ∈ network.staged, staging.entry.objects.Nodup
  apart : network.staged.Pairwise fun one other => one.entry.objects.Disjoint other.entry.objects
  anchored : network.log.Anchored (network.Expects codec)
  owned : ∀ agent, network.Owned agent (network.durable agent)

variable (codec) in
/-- A publication has only objects that were staged against its expected head, each
once; a record has only entries that its replica staged. -/
def Permits (agent : Agent) (network : Network P Agent) : SessionOp P → Prop
  | .publish expected objects => objects.Nodup ∧
      ∀ object ∈ objects, network.Expects codec object expected
  | .persist record => network.Owned agent record
  | _ => True

theorem Owned.later (owned : before.Owned agent record) (staged : before.staged ⊆ after.staged) :
    after.Owned agent record :=
  fun id entry found => staged (owned id entry found)

theorem Expects.later (expects : before.Expects codec object known)
    (staged : before.staged ⊆ after.staged) :
    after.Expects codec object known := by
  obtain ⟨staging, member, inside, decoded⟩ := expects
  exact ⟨staging, staged member, inside, decoded⟩

/-- Two stagings with a common object are the same. -/
theorem Valid.same (valid : network.Valid codec) {one two : Staging Agent}
    (first : one ∈ network.staged) (second : two ∈ network.staged)
    (inOne : object ∈ one.entry.objects) (inTwo : object ∈ two.entry.objects) : one = two := by
  by_contra different
  have symmetric : Std.Symm fun left right : Staging Agent =>
      left.entry.objects.Disjoint right.entry.objects :=
    ⟨fun _ _ disjoint => disjoint.symm⟩
  exact valid.apart.forall first second different inOne inTwo

/-- An object expects one head only. -/
theorem Valid.single (valid : network.Valid codec) (object : Bytes) (one two : Option P.Revision)
    (first : network.Expects codec object one)
    (second : network.Expects codec object two) : one = two := by
  obtain ⟨staging, member, inside, decoded⟩ := first
  obtain ⟨other, also, within, redecoded⟩ := second
  rw [valid.same member also inside within, redecoded, Except.ok.injEq] at decoded
  exact decoded.symm

theorem Valid.stages {entries : List DurableOutboxEntry} (valid : network.Valid codec)
    (fresh : network.Fresh entries) (agent : Agent) :
    (network.stages agent entries).Valid codec := by
  have more : network.staged ⊆ (network.stages agent entries).staged := List.subset_append_left _ _
  refine ⟨valid.revisions, ?_, ?_, ?_, fun owner => (valid.owned owner).later more⟩
  · intro staging member
    rcases List.mem_append.mp member with old | new
    · exact valid.once staging old
    · obtain ⟨entry, listed, rfl⟩ := List.mem_map.mp new
      exact fresh.once entry listed
  · refine List.pairwise_append.mpr ⟨valid.apart, List.pairwise_map.mpr fresh.apart, ?_⟩
    intro staging old other new
    obtain ⟨entry, listed, rfl⟩ := List.mem_map.mp new
    exact fresh.unused staging old entry listed
  · exact valid.anchored.weaken fun object known expects => expects.later more

/-- Staging keeps what holds of the network, and puts down what is staged. -/
theorem Stages.valid {entries : List DurableOutboxEntry}
    (stages : Stages agent entries before after) (valid : before.Valid codec) :
    after.Valid codec ∧ (∀ entry ∈ entries, ⟨agent, entry⟩ ∈ after.staged) ∧
      ∀ other, Rely other before after := by
  cases stages with
  | again known => exact ⟨valid, known, fun other => .refl other before⟩
  | new fresh =>
    refine ⟨valid.stages fresh agent,
      fun entry member => List.mem_append_right _ (List.mem_map_of_mem member), ?_⟩
    exact fun other => ⟨List.prefix_refl _, List.subset_append_left _ _, rfl, fun _ => Iff.rfl⟩

/-- The objects of a batch against one cursor: each once, and all expect its revision. -/
theorem Owned.batch (owned : network.Owned agent record) (valid : network.Valid codec)
    {ids : ExtTreeSet PublicationId} {cursor : Option TransportCursor}
    (pending : Conduct.PendingAt record ids cursor)
    (decoded : codec.decodeOptional cursor = .ok expected) :
    (Conduct.batchObjects record ids).Nodup ∧
      ∀ object ∈ Conduct.batchObjects record ids, network.Expects codec object expected := by
  have listed : ∀ id ∈ ids.toList, ∃ entry, record.outbox[id]? = some entry ∧
      ⟨agent, entry⟩ ∈ network.staged ∧ entry.expectedCursor = cursor := by
    intro id member
    obtain ⟨entry, found, same⟩ := pending id (ExtTreeSet.mem_toList.mp member)
    exact ⟨entry, found, owned id entry found, same⟩
  constructor
  · rw [Conduct.batchObjects, List.nodup_flatMap]
    constructor
    · intro id member
      obtain ⟨entry, found, staged, _⟩ := listed id member
      rw [found]
      exact valid.once _ staged
    · refine List.Pairwise.imp_of_mem ?_ (set_toList_nodup ids)
      intro one two inOne inTwo different object first second
      obtain ⟨entry, found, staged, _⟩ := listed one inOne
      obtain ⟨other, also, restaged, _⟩ := listed two inTwo
      simp only [found, Option.map_some, Option.getD_some] at first
      simp only [also, Option.map_some, Option.getD_some] at second
      have same : entry = other := congrArg Staging.entry (valid.same staged restaged first second)
      subst same
      exact different ((record.keyed one entry found).1.symm.trans (record.keyed two entry also).1)
  · intro object member
    rw [Conduct.batchObjects, List.mem_flatMap] at member
    obtain ⟨id, named, inside⟩ := member
    obtain ⟨entry, found, staged, same⟩ := listed id named
    rw [found] at inside
    exact ⟨_, staged, inside, same ▸ decoded⟩

end Ownership

section Calls

variable [DecidableEq Agent]

def stores (network : Network P Agent) (agent : Agent)
    (record : DurableSyncRecord) : Network P Agent :=
  { network with durable := Function.update network.durable agent record }

/-- The store has acknowledged the record. -/
def acknowledges (network : Network P Agent) (agent : Agent)
    (record : DurableSyncRecord) : Network P Agent :=
  { network.stores agent record with
    acknowledged := network.acknowledged ++ record.outbox.toList.map fun entry => ⟨agent, entry.2⟩ }

theorem stores_self (network : Network P Agent) (agent : Agent) (record : DurableSyncRecord) :
    (network.stores agent record).durable agent = record := by
  simp [stores]

theorem acknowledges_self (network : Network P Agent) (agent : Agent) (record : DurableSyncRecord) :
    (network.acknowledges agent record).durable agent = record := by
  simp [acknowledges, stores]

variable (codec) in
/-- What a call may be answered, and what it may leave. -/
def Answers (agent : Agent) (before : Network P Agent) :
    (op : SessionOp P) → op.Answer → Network P Agent → Prop
  | .encodeCursor revision, answer, after => after = before ∧ ∀ cursor, answer = .ok cursor →
      codec.encode revision = .ok cursor
  | .decodeCursor cursor, answer, after => after = before ∧ ∀ revision, answer = .ok revision →
      codec.decode cursor = .ok revision
  | .fetchSince known, answer, after => after = before ∧ ∀ outcome, answer = .ok outcome →
      before.Fetched known outcome
  | .publish expected objects, .ok (.published head), after =>
    before.Appends expected head objects after
  | .publish _ _, .ok (.conflict _), after => after = before
  | .publish expected objects, .error _, after => after = before ∨
      ∃ head, before.Appends expected head objects after
  | .persist record, .ok (), after => after = before.acknowledges agent record
  | .persist record, .error _, after => after = before ∨ after = before.stores agent record

/-- Everything that a call can do to the network. -/
inductive Change (agent : Agent) (before : Network P Agent) :
    SessionOp P → Network P Agent → Prop where
  | kept (op : SessionOp P) : Change agent before op before
  | appended (expected : Option P.Revision) (objects : List Bytes) (head : P.Revision)
      (current : before.log.tip = expected) (fresh : head ∉ before.log.revisions) :
      Change agent before (.publish expected objects) { before with log :=
        before.log ++ [⟨head, objects⟩] }
  | stored (record : DurableSyncRecord) :
      Change agent before (.persist record) (before.stores agent record)
  | acknowledged (record : DurableSyncRecord) :
      Change agent before (.persist record) (before.acknowledges agent record)

theorem Answers.change {op : SessionOp P} {answer : op.Answer}
    (told : before.Answers codec agent op answer after) :
    before.Change agent op after := by
  unfold Answers at told
  split at told
  · exact told.1 ▸ .kept _
  · exact told.1 ▸ .kept _
  · exact told.1 ▸ .kept _
  · obtain ⟨current, fresh, rfl⟩ := told
    exact .appended _ _ _ current fresh
  · exact told ▸ .kept _
  · rcases told with rfl | ⟨head, current, fresh, rfl⟩
    · exact .kept _
    · exact .appended _ _ _ current fresh
  · exact told ▸ .acknowledged _
  · rcases told with rfl | rfl
    · exact .kept _
    · exact .stored _

/-- An answer tells something that holds from then on. -/
theorem Answers.told {op : SessionOp P} {answer : op.Answer}
    (told : before.Answers codec agent op answer after) :
    after.Told codec op answer := by
  unfold Told
  split
  · exact told.2 _ rfl
  · exact told.2 _ rfl
  · obtain ⟨rfl, fetched⟩ := told
    exact (fetched _ rfl).2
  · obtain ⟨rfl, _, rfl⟩ := told
    exact AppendLog.landed_append _ _ _
  · trivial

theorem Change.staged {op : SessionOp P} (change : before.Change agent op after) :
    before.staged ⊆ after.staged := by
  cases change with
  | kept => exact fun _ => id
  | appended expected objects head current fresh => exact fun _ => id
  | stored record => exact fun _ => id
  | acknowledged record => exact fun _ => id

theorem Change.acknowledgements {op : SessionOp P} (change : before.Change agent op after) :
    before.acknowledged ⊆ after.acknowledged := by
  cases change with
  | kept => exact fun _ => id
  | appended expected objects head current fresh => exact fun _ => id
  | stored record => exact fun _ => id
  | acknowledged record => exact List.subset_append_left _ _

/-- The others may rely on every call of a replica. -/
theorem Change.rely {op : SessionOp P} (change : before.Change agent op after)
    (apart : other ≠ agent) :
    Rely other before after := by
  cases change with
  | kept => exact .refl other before
  | appended expected objects head current fresh => exact ⟨List.prefix_append _ _, fun _ => id, rfl,
      fun _ => Iff.rfl⟩
  | stored record => exact ⟨List.prefix_refl _, fun _ => id, Function.update_of_ne apart _ _,
      fun _ => Iff.rfl⟩
  | acknowledged record =>
    refine ⟨List.prefix_refl _, fun _ => id, Function.update_of_ne apart _ _, fun entry => ?_⟩
    simp [acknowledges, apart.symm]

theorem Change.log {op : SessionOp P} (change : before.Change agent op after) :
    before.log <+: after.log := by
  cases change with
  | appended expected objects head current fresh => exact List.prefix_append _ _
  | kept => exact List.prefix_refl _
  | stored record => exact List.prefix_refl _
  | acknowledged record => exact List.prefix_refl _

theorem Valid.owned_update (valid : network.Valid codec) (owned : network.Owned agent record)
    (owner : Agent) :
    network.Owned owner (Function.update network.durable agent record owner) := by
  rw [Function.update_apply]
  split
  · rename_i mine
    exact mine ▸ owned
  · exact valid.owned owner

/-- A permitted call keeps what holds of the network. -/
theorem Valid.change (valid : before.Valid codec) {op : SessionOp P}
    (permitted : before.Permits codec agent op) (change : before.Change agent op after) :
    after.Valid codec := by
  cases change with
  | kept => exact valid
  | appended expected objects head current fresh =>
    refine ⟨?_, valid.once, valid.apart, valid.anchored.append permitted.1 ?_ head, valid.owned⟩
    · change (List.map _ (before.log ++ _)).Nodup
      rw [List.map_append, List.map_singleton]
      exact List.nodup_append'.mpr ⟨valid.revisions, List.nodup_singleton _, by
        simpa [AppendLog.revisions] using fresh⟩
    · intro object member
      rw [current]
      exact permitted.2 object member
  | stored record => exact ⟨valid.revisions, valid.once, valid.apart, valid.anchored,
      valid.owned_update permitted⟩
  | acknowledged record => exact ⟨valid.revisions, valid.once, valid.apart, valid.anchored,
      valid.owned_update permitted⟩

end Calls

end Network

end PrivateContinuum.Sync
