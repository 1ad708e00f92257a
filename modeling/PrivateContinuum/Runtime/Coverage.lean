import PrivateContinuum.Runtime.PublicationKnowledge
import PrivateContinuum.Sync.Network

/-! What a record promises about the log: its state accounts for everything up to its
cursor, and an acknowledged publication is in the outbox or in the log up to there. -/

namespace PrivateContinuum.Runtime

open Std (ExtTreeMap ExtTreeSet)
open PrivateContinuum.Library PrivateContinuum.Core PrivateContinuum.Sync
open LocalScalarRecoveryState (Statement Site site)

variable {P : Platform} {Agent : Type}

abbrev Log (P : Platform) := AppendLog P.Revision Bytes

/-- A cursor decodes to the revision that it was encoded from. -/
def RoundTrips (codec : CursorCodec P) : Prop :=
  ∀ revision cursor, codec.encode revision = .ok cursor → codec.decode cursor = .ok revision

/-- The beginning of the log that the record has applied. -/
def Position (codec : CursorCodec P) (log : Log P) (record : DurableSyncRecord)
    (start : Log P) : Prop :=
  ∃ known, codec.decodeOptional record.appliedCursor = .ok known ∧ log.Upto known start

/-- What the pending publications of a record state. -/
def outboxStatements (channel : Channel) (record : DurableSyncRecord) : Set Statement :=
  {statement | ∃ (id : PublicationId) (entry : DurableOutboxEntry),
    record.outbox[id]? = some entry ∧ statement ∈ statementsOf channel entry.objects}

/-- The state accounts for the log up to the cursor of the record. -/
def Covered (codec : CursorCodec P) (channel : Channel) (given : Set Statement) (log : Log P)
    (live : LocalScalarRecoveryState) (record : DurableSyncRecord) : Prop :=
  live.KeysNamed ∧ ∃ start, Position codec log record start ∧ Knowledge.Covers site given
    (outboxStatements channel record) (statementsOf channel start.contents) live.knowledge

/-- The statements of the entry are in the log up to the cursor of the record. -/
def Delivered (codec : CursorCodec P) (channel : Channel) (log : Log P) (record : DurableSyncRecord)
    (entry : DurableOutboxEntry) : Prop :=
  ∃ start, Position codec log record start ∧
    statementsOf channel entry.objects ⊆ statementsOf channel start.contents

variable {codec : CursorCodec P} {channel : Channel} {given : Set Statement}
  {log later start : Log P} {live next : LocalScalarRecoveryState}
  {record after : DurableSyncRecord} {entry : DurableOutboxEntry} {cursor : TransportCursor}
  {head : P.Revision} {objects : List Bytes} {trusted : Bytes}

theorem Position.grown (position : Position codec log record start) (grown : log <+: later) :
    Position codec later record start := by
  obtain ⟨known, decoded, upto⟩ := position
  exact ⟨known, decoded, upto.grown grown⟩

theorem Position.unique (distinct : log.revisions.Nodup) (one : Position codec log record start)
    {other : Log P} (two : Position codec log record other) : start = other := by
  obtain ⟨known, decoded, upto⟩ := one
  obtain ⟨again, redecoded, also⟩ := two
  rw [decoded, Except.ok.injEq] at redecoded
  exact upto.unique distinct (redecoded ▸ also)

/-- A record under an encoded head stands where the log has that head. -/
theorem position_encoded (trips : RoundTrips codec) (encoded : codec.encode head = .ok cursor)
    (applied : after.appliedCursor = some cursor) (upto : log.Upto (some head) start) :
    Position codec log after start := by
  refine ⟨some head, ?_, upto⟩
  rw [applied, CursorCodec.decodeOptional, trips head cursor encoded]
  rfl

theorem Covered.grown (covered : Covered codec channel given log live record)
    (grown : log <+: later) :
    Covered codec channel given later live record := by
  obtain ⟨named, start, position, covers⟩ := covered
  exact ⟨named, start, position.grown grown, covers⟩

theorem Delivered.grown (delivered : Delivered codec channel log record entry)
    (grown : log <+: later) :
    Delivered codec channel later record entry := by
  obtain ⟨start, position, inside⟩ := delivered
  exact ⟨start, position.grown grown, inside⟩

/-- How the log goes on from the cursor of a record to a head. Everything in between was
pending, and so was nothing of the retired publications that is not there. -/
structure Settling (channel : Channel) (log : Log P) (record : DurableSyncRecord)
    (ids : ExtTreeSet PublicationId) (head : P.Revision) (start reached : Log P) : Prop where
  upto : log.Upto (some head) reached
  onward : start <+: reached
  within : statementsOf channel reached.contents ⊆ statementsOf channel start.contents ∪
    outboxStatements channel record
  arrived : ∀ id ∈ ids, ∀ entry, record.outbox[id]? = some entry →
    statementsOf channel entry.objects ⊆ statementsOf channel reached.contents

theorem contents_onward {reached : Log P} (onward : start <+: reached) :
    statementsOf channel start.contents ⊆ statementsOf channel reached.contents := by
  obtain ⟨rest, rfl⟩ := onward
  rw [AppendLog.contents_append, statementsOf_append]
  exact Set.subset_union_left

section Receiving

variable (channel) in
/-- The range after the cursor of a record leads to a head, and brings what it states. -/
theorem range_reached {known : Option P.Revision} (distinct : log.revisions.Nodup)
    (position : Position codec log record start)
    (decoded : codec.decodeOptional record.appliedCursor = .ok known)
    (range : log.Range known head objects) :
    ∃ reached, log.Upto (some head) reached ∧ start <+: reached ∧
      statementsOf channel reached.contents = statementsOf channel start.contents ∪
        statementsOf channel objects := by
  obtain ⟨begun, rest, upto, ended, exactly⟩ := range
  have same : start = begun := position.unique distinct ⟨known, decoded, upto⟩
  subst same
  refine ⟨start ++ rest, ended, List.prefix_append _ _, ?_⟩
  rw [AppendLog.contents_append, statementsOf_append, statementsOf_congr exactly]

/-- A state that moves by what a range states accounts for the log up to its head. -/
theorem Covered.receive {known : Option P.Revision}
    (covered : Covered codec channel given log live record) (distinct : log.revisions.Nodup)
    (trips : RoundTrips codec) (named : next.KeysNamed)
    (moved : live.Moved next (statementsOf channel objects) ∅)
    (decoded : codec.decodeOptional record.appliedCursor = .ok known)
    (range : log.Range known head objects) (encoded : codec.encode head = .ok cursor) :
    Covered codec channel given log next (record.applyReceived trusted cursor) := by
  obtain ⟨_, start, position, covers⟩ := covered
  obtain ⟨reached, upto, _, states⟩ := range_reached channel distinct position decoded range
  refine ⟨named, reached, position_encoded trips encoded rfl upto, ?_⟩
  rw [states]
  apply covers.move moved (Set.Subset.refl _) Set.subset_union_left Set.subset_union_right
    covers.knowsPending Set.subset_union_left
  exact fun statement _ impossible => impossible.elim

theorem Delivered.receive {known : Option P.Revision}
    (delivered : Delivered codec channel log record entry) (distinct : log.revisions.Nodup)
    (trips : RoundTrips codec) (decoded : codec.decodeOptional record.appliedCursor = .ok known)
    (range : log.Range known head objects) (encoded : codec.encode head = .ok cursor) :
    Delivered codec channel log (record.applyReceived trusted cursor) entry := by
  obtain ⟨start, position, inside⟩ := delivered
  obtain ⟨reached, upto, onward, _⟩ := range_reached channel distinct position decoded range
  exact ⟨reached, position_encoded trips encoded rfl upto, inside.trans (contents_onward onward)⟩

end Receiving

section Staging

variable {id : PublicationId}

theorem prepared_position {expected : Option TransportCursor}
    (prepared : record.prepareOutbox trusted id expected objects = .ok after)
    (position : Position codec log record start) : Position codec log after start := by
  obtain ⟨known, decoded, upto⟩ := position
  exact ⟨known, (DurableSyncRecord.prepareOutbox_ok prepared).2.2.1 ▸ decoded, upto⟩

/-- Staging keeps every pending entry as it is. -/
theorem prepared_keeps {expected : Option TransportCursor}
    (prepared : record.prepareOutbox trusted id expected objects = .ok after)
    {other : PublicationId} (found : record.outbox[other]? = some entry) :
    after.outbox[other]? = some entry := by
  have entries := (DurableSyncRecord.prepareOutbox_ok prepared).2.2.2
  rw [entries]
  split
  · rename_i here
    subst here
    unfold DurableSyncRecord.prepareOutbox at prepared
    split at prepared
    · cases prepared
    · dsimp only at prepared
      split at prepared
      · rename_i existing stored
        rw [found, Option.some.injEq] at stored
        subst stored
        split at prepared
        · rename_i same
          rw [same]
        · cases prepared
      · rename_i absent
        rw [found] at absent
        cases absent
  · exact found

theorem prepared_statements {expected : Option TransportCursor}
    (prepared : record.prepareOutbox trusted id expected objects = .ok after) :
    outboxStatements channel after = outboxStatements channel record ∪
      statementsOf channel objects := by
  have entries := (DurableSyncRecord.prepareOutbox_ok prepared).2.2.2
  ext statement
  constructor
  · rintro ⟨other, entry, found, carried⟩
    rw [entries] at found
    split at found
    · cases found
      exact Or.inr carried
    · exact Or.inl ⟨other, entry, found, carried⟩
  · rintro (⟨other, entry, found, carried⟩ | carried)
    · exact ⟨other, entry, prepared_keeps prepared found, carried⟩
    · exact ⟨id, ⟨id, expected, objects⟩, by rw [entries, if_pos rfl], carried⟩

/-- A staged handoff releases what its objects state, and that is pending from then on. -/
theorem Covered.stage {handoff : PreparedRecoveryHandoff} {expected : Option TransportCursor}
    (covered : Covered codec channel given log live record)
    (kept : Prepared channel live handoff)
    (handed : LocalScalarRecoveryState.HandsOff live next
      (live.closures handoff.revisionIds.toList))
    (prepared : record.prepareOutbox trusted id expected handoff.objects = .ok after) :
    Covered codec channel given log next after := by
  obtain ⟨_, start, position, covers⟩ := covered
  refine ⟨handed.named, start, prepared_position prepared position, ?_⟩
  rw [prepared_statements prepared]
  apply covers.move handed.moved Set.subset_union_left (Set.Subset.refl _) (Set.empty_subset _)
  · rw [kept.states]
    exact Set.union_subset covers.knowsPending fun statement known => known.1
  · exact fun statement pending => Or.inl (Or.inl pending)
  · intro statement known released
    right
    rw [(kept.later handed.moved.grows).states, closures_later kept.known handed.moved.grows]
    exact ⟨known, released⟩

/-- What a staged handoff puts into the outbox is in the open. -/
theorem staged_discloses {handoff : PreparedRecoveryHandoff}
    (kept : Prepared channel live handoff)
    (handed : LocalScalarRecoveryState.HandsOff live next
      (live.closures handoff.revisionIds.toList)) :
    next.knowledge.Discloses site (statementsOf channel handoff.objects) := by
  intro statement carried
  rw [kept.states] at carried
  exact ⟨handed.moved.grows carried.1, (handed.shown (site statement) carried.2).2⟩

theorem Delivered.stage {expected : Option TransportCursor}
    (delivered : Delivered codec channel log record entry)
    (prepared : record.prepareOutbox trusted id expected objects = .ok after) :
    Delivered codec channel log after entry := by
  obtain ⟨start, position, inside⟩ := delivered
  exact ⟨start, prepared_position prepared position, inside⟩

end Staging

section Settled

variable {ids : ExtTreeSet PublicationId} {reached : Log P}

/-- Retired publications are accounted for by the log, the others stay pending. -/
theorem Covered.retire (covered : Covered codec channel given log live record)
    (distinct : log.revisions.Nodup) (trips : RoundTrips codec)
    (position : Position codec log record start)
    (settling : Settling channel log record ids head start reached)
    (retires : record.Retires ids trusted cursor after)
    (encoded : codec.encode head = .ok cursor) : Covered codec channel given log live after := by
  obtain ⟨named, begun, also, covers⟩ := covered
  have same : start = begun := position.unique distinct also
  subst same
  refine ⟨named, reached, position_encoded trips encoded retires.applied settling.upto, ?_⟩
  apply covers.settle
  · rintro statement ⟨id, entry, found, carried⟩
    rw [retires.entries] at found
    split at found
    · cases found
    · exact ⟨id, entry, found, carried⟩
  · exact settling.within.trans (Set.union_subset covers.knowsReceived covers.knowsPending)
  · exact contents_onward settling.onward
  · rintro statement ⟨id, entry, found, carried⟩
    by_cases gone : id ∈ ids
    · exact Or.inr (settling.arrived id gone entry found carried)
    · exact Or.inl ⟨id, entry, by rw [retires.entries, if_neg gone, found], carried⟩

theorem Delivered.retire (delivered : Delivered codec channel log record entry)
    (distinct : log.revisions.Nodup) (trips : RoundTrips codec)
    (position : Position codec log record start)
    (settling : Settling channel log record ids head start reached)
    (retires : record.Retires ids trusted cursor after)
    (encoded : codec.encode head = .ok cursor) : Delivered codec channel log after entry := by
  obtain ⟨begun, also, inside⟩ := delivered
  have same : start = begun := position.unique distinct also
  subst same
  exact ⟨reached, position_encoded trips encoded retires.applied settling.upto,
    inside.trans (contents_onward settling.onward)⟩

variable (channel) in
/-- A publication that landed right after the cursor of its record. -/
theorem settling_published {known : Option P.Revision} (distinct : log.revisions.Nodup)
    (position : Position codec log record start)
    (decoded : codec.decodeOptional record.appliedCursor = .ok known)
    (landed : log.Landed known head (Conduct.batchObjects record ids)) :
    ∃ reached, Settling channel log record ids head start reached := by
  obtain ⟨begun, upto, inside⟩ := landed
  have same : start = begun := position.unique distinct ⟨known, decoded, upto⟩
  subst same
  have brings : statementsOf channel
      (AppendLog.contents (start ++ [⟨head, Conduct.batchObjects record ids⟩])) =
      statementsOf channel start.contents ∪ statementsOf channel
        (Conduct.batchObjects record ids) := by
    rw [AppendLog.contents_append, statementsOf_append]
    simp [AppendLog.contents]
  refine ⟨start ++ [⟨head, Conduct.batchObjects record ids⟩],
    ⟨inside, AppendLog.tip_append_entry _ _⟩, List.prefix_append _ _, ?_, ?_⟩
  · rw [brings]
    refine Set.union_subset_union_right _ ?_
    rintro statement ⟨object, member, carried⟩
    obtain ⟨id, _, held⟩ := List.mem_flatMap.mp member
    cases found : record.outbox[id]? with
    | none =>
      rw [found] at held
      cases held
    | some entry =>
      rw [found] at held
      exact ⟨id, entry, found, object, held, carried⟩
  · intro id member entry found
    rw [brings]
    refine (statementsOf_mono ?_).trans Set.subset_union_right
    intro object held
    exact List.mem_flatMap.mpr ⟨id, ExtTreeSet.mem_toList.mpr member, by rw [found]; exact held⟩

end Settled

end PrivateContinuum.Runtime
