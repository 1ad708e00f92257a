import PrivateContinuum.Library.Formats
import PrivateContinuum.Sync.RecordCodec

namespace PrivateContinuum.Sync

open Std (ExtTreeMap)
open PrivateContinuum.Library PrivateContinuum.Core

theorem parses_id {Failure : Type} [FramingFailure Failure] {kind : IdKind} :
    Parses (readId : Parser Failure (LogicalId kind)) fun chunk id => chunk = id.bytes := by
  refine ((parses_fixed logicalIdBytes).map fun chunk =>
    (⟨chunk.1, chunk.2⟩ : LogicalId kind)).congr ?_
  intro chunk id _
  constructor
  · intro found
    obtain ⟨fixed, same, named⟩ := found
    subst named
    exact same
  · intro same
    exact ⟨⟨id.bytes, id.width⟩, same, rfl⟩

theorem parses_vecImage {Failure : Type} [FramingFailure Failure] :
    Parses (readVec : Parser Failure Bytes) fun chunk value => chunk = vecImage value := parses_vec

theorem createCursor_ok_iff {bytes : Bytes} {cursor : TransportCursor} :
    TransportCursor.create bytes = .ok cursor ↔ cursor.1 = bytes := by
  unfold TransportCursor.create
  split
  · rw [Except.ok.injEq, Subtype.ext_iff, eq_comm]
  · rename_i refused
    constructor
    · intro done
      cases done
    · intro same
      exact absurd (same ▸ cursor.2) refused

theorem parses_optionalCursor :
    Parses readOptionalCursor fun chunk cursor => chunk = cursorImage cursor := by
  have present : Parses (do
      let bytes ← readVec
      let cursor ← liftM (TransportCursor.create bytes)
      pure (some cursor) : RecordParser (Option TransportCursor))
      fun chunk found => ∃ cursor, found = some cursor ∧ chunk = vecImage cursor.1 := by
    refine (parses_vecImage.bind fun bytes =>
      (parses_check (TransportCursor.create bytes)).map some).congr ?_
    intro chunk found _
    constructor
    · intro taken
      obtain ⟨bytes, left, right, halves, shown, cursor, ⟨empty, created⟩, named⟩ := taken
      refine ⟨cursor, named.symm, ?_⟩
      rw [halves, shown, empty, List.append_nil, createCursor_ok_iff.mp created]
    · intro taken
      obtain ⟨cursor, named, shown⟩ := taken
      exact ⟨cursor.1, chunk, [], by simp, shown, cursor, ⟨rfl, createCursor_ok_iff.mpr rfl⟩,
        named.symm⟩
  refine (parses_optional SyncRecoveryError.invalidBoolean present).congr ?_
  intro chunk cursor _
  cases cursor with
  | none => simp [cursorImage]
  | some cursor => simp [cursorImage]

/-- Appends an object that is not empty. -/
def addObject (objects : List Bytes) (object : Bytes) : Option (List Bytes) :=
  if object.isEmpty then none else some (objects ++ [object])

theorem foldlM_addObject {objects before gathered : List Bytes} :
    objects.foldlM addObject before = some gathered ↔
      (∀ object ∈ objects, object ≠ []) ∧ gathered = before ++ objects := by
  induction objects generalizing before with
  | nil => simp [eq_comm]
  | cons object rest ih =>
    rw [List.foldlM_cons, addObject, List.forall_mem_cons]
    by_cases empty : object = []
    · simp [empty]
    · rw [if_neg (by simpa using empty)]
      change rest.foldlM addObject (before ++ [object]) = some gathered ↔ _
      rw [ih]
      simp [empty]

theorem parses_object (objects : List Bytes) : Parses (readObject objects) fun chunk next =>
    ∃ object, chunk = vecImage object ∧ addObject objects object = some next := by
  refine (parses_vecImage.bind fun object =>
    parses_refusal _ (parses_pure (objects ++ [object]))).congr ?_
  intro chunk next _
  constructor
  · intro taken
    obtain ⟨object, left, right, halves, shown, filled, empty, same⟩ := taken
    refine ⟨object, by rw [halves, shown, empty, List.append_nil], ?_⟩
    rw [addObject, if_neg filled, same]
  · intro taken
    obtain ⟨object, shown, added⟩ := taken
    unfold addObject at added
    split at added
    · cases added
    · rename_i filled
      exact ⟨object, chunk, [], by simp, shown, filled, rfl, Option.some.inj added⟩

theorem parses_objects (id : PublicationId) (cursor : Option TransportCursor) (count : Nat) :
    Parses (do
      let objects ← readTimes readObject count []
      pure ⟨id, cursor, objects⟩ : RecordParser DurableOutboxEntry)
    fun chunk entry => chunk = entry.objects.flatMap vecImage ∧
      entry = ⟨id, cursor, entry.objects⟩ ∧
      entry.objects.length = count ∧ ∀ object ∈ entry.objects, object ≠ [] := by
  refine ((parses_times parses_object count []).map
    fun objects => (⟨id, cursor, objects⟩ : DurableOutboxEntry)).congr ?_
  intro chunk entry _
  constructor
  · intro taken
    obtain ⟨objects, ⟨items, counted, shown, gathered⟩, same⟩ := taken
    obtain ⟨filled, named⟩ := foldlM_addObject.mp gathered
    rw [List.nil_append] at named
    subst named
    subst same
    exact ⟨shown, rfl, counted, filled⟩
  · intro taken
    obtain ⟨shown, same, counted, filled⟩ := taken
    exact ⟨entry.objects, ⟨entry.objects, counted, shown, foldlM_addObject.mpr ⟨filled, rfl⟩⟩,
      same.symm⟩

theorem parses_entry : Parses readEntry fun chunk entry =>
    chunk = entryImage entry ∧ validateObjects entry.objects = .ok () := by
  refine (parses_id.bind fun id => parses_optionalCursor.bind fun cursor =>
    parses_len.bind fun count =>
    parses_refusal SyncRecoveryError.emptyOutbox (parses_objects id cursor count)).congr ?_
  intro chunk entry fits
  rw [validateObjects_ok_iff]
  constructor
  · intro taken
    obtain ⟨id, left, right, halves, shownId, cursor, middle, others, split, shownCursor,
      count, digits, objects,
      parts, ⟨shownCount, _⟩, positive, shownObjects, same, counted, filled⟩ := taken
    refine ⟨?_, ?_, filled⟩
    · rw [same, halves, shownId, split, shownCursor, parts, shownCount, shownObjects, ← counted]
      rfl
    · intro empty
      rw [empty] at counted
      exact positive counted.symm
  · intro taken
    obtain ⟨shown, nonempty, filled⟩ := taken
    have shorter : entry.objects.length ≤ (entry.objects.flatMap vecImage).length :=
      length_le_flatMap fun object _ => vecImage_ne_nil object
    have positive : ¬ entry.objects.length = 0 :=
      fun none => nonempty (List.length_eq_zero_iff.mp none)
    simp only [shown, entryImage, List.length_append] at fits
    exact ⟨entry.publicationId, _, _, shown, rfl, entry.expectedCursor, _, _, rfl, rfl,
      entry.objects.length, _, _, rfl, ⟨rfl, by omega⟩, positive, rfl, rfl, rfl, filled⟩

/-- Reading an entry into the outbox, where its identity is new. -/
theorem insertEntry_ok_iff {image next : OutboxImage} {entry : DurableOutboxEntry} :
    image.insertEntry entry = .ok next ↔ validateObjects entry.objects = .ok () ∧
      insertNewEntry image.entries (entry.publicationId, entry) = some next.entries := by
  unfold OutboxImage.insertEntry insertNewEntry
  split
  · rename_i failure refused
    simp [refused]
  · rename_i validated
    by_cases taken : entry.publicationId ∈ image.entries
    · simp [taken]
    · simp only [taken, ↓reduceIte, Except.ok.injEq, Option.some.injEq]
      constructor
      · intro same
        rw [← same]
        exact ⟨validated, rfl⟩
      · intro both
        cases next
        cases both.2
        rfl

theorem OutboxImage.exists_insert {image : OutboxImage} {entry : DurableOutboxEntry}
    {entries : ExtTreeMap PublicationId DurableOutboxEntry}
    (validated : validateObjects entry.objects = .ok ())
    (stored : insertNewEntry image.entries (entry.publicationId, entry) = some entries) :
    ∃ next : OutboxImage, next.entries = entries := by
  unfold insertNewEntry at stored
  split at stored
  · cases stored
  · refine ⟨⟨entries, ?_⟩, rfl⟩
    cases stored
    intro id kept found
    rw [ExtTreeMap.getElem?_insert] at found
    split at found
    · rename_i here
      cases found
      exact ⟨Std.LawfulEqCmp.eq_of_compare here, validated⟩
    · exact image.keyed id kept found

def OutboxImage.adding? (image : OutboxImage) (entry : DurableOutboxEntry) : Option OutboxImage :=
  (image.insertEntry entry).toOption

theorem foldlM_insertEntry {entries : List DurableOutboxEntry} {image last : OutboxImage} :
    entries.foldlM OutboxImage.adding? image = some last ↔
      (∀ entry ∈ entries, validateObjects entry.objects = .ok ()) ∧
        (entries.map fun entry => (entry.publicationId, entry)).foldlM
          insertNewEntry image.entries = some last.entries := by
  induction entries generalizing image with
  | nil =>
    simp only [List.foldlM_nil, List.map_nil, List.not_mem_nil, false_implies,
      implies_true, true_and]
    constructor
    · intro same
      cases same
      rfl
    · intro same
      cases image
      cases last
      cases (Option.some.inj same)
      rfl
  | cons entry rest ih =>
    rw [List.foldlM_cons, List.map_cons, List.foldlM_cons, List.forall_mem_cons]
    constructor
    · intro collected
      obtain ⟨next, inserted, others⟩ := Option.bind_eq_some_iff.mp collected
      obtain ⟨validated, stored⟩ := insertEntry_ok_iff.mp (toOption_eq_some_iff.mp inserted)
      obtain ⟨restValidated, kept⟩ := ih.mp others
      rw [stored]
      exact ⟨⟨validated, restValidated⟩, kept⟩
    · intro collected
      obtain ⟨⟨validated, restValidated⟩, kept⟩ := collected
      obtain ⟨entries, stored, others⟩ := Option.bind_eq_some_iff.mp kept
      obtain ⟨next, same⟩ := OutboxImage.exists_insert validated stored
      subst same
      rw [OutboxImage.adding?, insertEntry_ok_iff.mpr ⟨validated, stored⟩]
      exact ih.mpr ⟨restValidated, others⟩

/-- The bytes that list these fields, the entries in the given order. -/
def recordFrame (trustedState : Bytes) (appliedCursor : Option TransportCursor)
    (entries : List DurableOutboxEntry) : Bytes :=
  (RecordCodec.magic ++ bigEndian 2 RecordCodec.version) ++ (vecImage trustedState ++
    (cursorImage appliedCursor ++ (bigEndian 8 entries.length ++ entries.flatMap entryImage)))

/-- The entries are the outbox of the record, each listed once. -/
structure ListsOutbox (record : DurableSyncRecord) (entries : List DurableOutboxEntry) : Prop where
  distinct : entries.Pairwise fun left right => left.publicationId ≠ right.publicationId
  nonempty : ∀ entry ∈ entries, entry.objects ≠ [] ∧ ∀ object ∈ entry.objects, object ≠ []
  holds : ∀ (id : PublicationId) (entry : DurableOutboxEntry),
    record.outbox[id]? = some entry ↔ entry ∈ entries ∧ entry.publicationId = id

theorem listsOutbox_iff {record : DurableSyncRecord} {entries : List DurableOutboxEntry} :
    ListsOutbox record entries ↔ (∀ entry ∈ entries, validateObjects entry.objects = .ok ()) ∧
      (entries.map fun entry => (entry.publicationId, entry)).foldlM insertNewEntry ∅ =
        some record.outbox := by
  rw [collect_iff, List.pairwise_map]
  simp only [validateObjects_ok_iff, List.mem_map, Prod.mk.injEq]
  have held : ∀ (id : PublicationId) (entry : DurableOutboxEntry),
      (∃ listed ∈ entries, listed.publicationId = id ∧ listed = entry) ↔
      entry ∈ entries ∧ entry.publicationId = id := by
    intro id entry
    constructor
    · intro found
      obtain ⟨listed, member, named, same⟩ := found
      exact same ▸ ⟨member, named⟩
    · intro found
      exact ⟨entry, found.1, found.2, rfl⟩
  simp only [held]
  exact ⟨fun lists => ⟨lists.nonempty, lists.distinct, lists.holds⟩,
    fun lists => ⟨lists.2.1, lists.1, lists.2.2⟩⟩

theorem parses_nextEntry (image : OutboxImage) : Parses (readNextEntry image) fun chunk next =>
    ∃ entry, chunk = entryImage entry ∧ image.adding? entry = some next := by
  refine (parses_entry.bind fun entry => parses_check (image.insertEntry entry)).congr ?_
  intro chunk next _
  constructor
  · intro taken
    obtain ⟨entry, left, right, halves, ⟨shown, _⟩, empty, inserted⟩ := taken
    exact ⟨entry, by rw [halves, shown, empty, List.append_nil], toOption_eq_some_iff.mpr inserted⟩
  · intro taken
    obtain ⟨entry, shown, inserted⟩ := taken
    have done := toOption_eq_some_iff.mp inserted
    exact ⟨entry, chunk, [], by simp, ⟨shown, (insertEntry_ok_iff.mp done).1⟩, rfl, done⟩

/-- Behind the magic stands the rest of a listing of the record. -/
theorem parses_record :
    Parses readRecord fun chunk record => ∃ entries, RecordCodec.magic ++ chunk =
    recordFrame record.trustedState record.appliedCursor entries ∧ ListsOutbox record entries := by
  refine ((parses_nat 2).bind fun version =>
    parses_refusal (SyncRecoveryError.unsupportedVersion version)
    (parses_vecImage.bind fun trusted => parses_optionalCursor.bind fun applied =>
      parses_counted entryImage_ne_nil parses_nextEntry .empty fun _ image =>
        parses_pure (⟨trusted, applied, image.entries, image.keyed⟩ : DurableSyncRecord))).congr ?_
  intro chunk record _
  constructor
  · intro taken
    obtain ⟨version, first, rest, halves, ⟨shownVersion, _⟩, supported, trusted,
      trustedBytes, later, split,
      shownTrusted, applied, appliedBytes, outboxBytes, parts, shownApplied, entries, image,
      right, shownOutbox,
      collected, empty, same⟩ := taken
    subst same
    refine ⟨entries, ?_, listsOutbox_iff.mpr (foldlM_insertEntry.mp collected)⟩
    rw [halves, shownVersion, not_not.mp supported, split, shownTrusted, parts, shownApplied,
      shownOutbox, empty, List.append_nil, recordFrame, List.append_assoc]
  · intro listed
    obtain ⟨entries, shown, lists⟩ := listed
    rw [recordFrame, List.append_assoc, List.append_cancel_left_eq] at shown
    have collected : entries.foldlM OutboxImage.adding? .empty =
        some ⟨record.outbox, record.keyed⟩ :=
      foldlM_insertEntry.mpr (listsOutbox_iff.mp lists)
    exact ⟨RecordCodec.version, _, _, shown, ⟨rfl, by decide⟩, by simp, record.trustedState, _, _,
      rfl, rfl,
      record.appliedCursor, _, _, rfl, rfl, entries, ⟨record.outbox, record.keyed⟩,
      [], by rw [List.append_nil],
      collected, rfl, rfl⟩

/-- Exactly the listings of a record decode to it. -/
theorem decodeDurableSyncRecord_ok_iff {bytes : Bytes} (fits : bytes.length < sizeLimit)
    {record : DurableSyncRecord} :
    decodeDurableSyncRecord bytes = .ok record ↔ ∃ entries,
      bytes = recordFrame record.trustedState record.appliedCursor entries ∧
      ListsOutbox record entries := by
  unfold decodeDurableSyncRecord
  split
  · rename_i short
    constructor
    · intro done
      cases done
    · intro listed
      obtain ⟨entries, shown, _⟩ := listed
      rw [shown] at short
      simp only [recordFrame, List.length_append, bigEndian_length] at short
      omega
  · split
    · rename_i other
      constructor
      · intro done
        cases done
      · intro listed
        obtain ⟨entries, shown, _⟩ := listed
        rw [shown, recordFrame, List.append_assoc, List.take_left' rfl] at other
        exact absurd rfl other
    · rename_i starts
      have whole := List.take_append_drop RecordCodec.magic.length bytes
      rw [not_not.mp starts] at whole
      have bodyFits : (bytes.drop RecordCodec.magic.length).length < sizeLimit := by
        rw [List.length_drop]
        omega
      rw [parses_record.complete_ok_iff _ bodyFits, whole]

theorem ListsOutbox.perm {record : DurableSyncRecord} {entries others : List DurableOutboxEntry}
    (first : ListsOutbox record entries) (second : ListsOutbox record others) :
    entries.Perm others := by
  have once : ∀ {listed : List DurableOutboxEntry}, ListsOutbox record listed → listed.Nodup := by
    intro listed lists
    exact lists.distinct.imp fun different same => different (by rw [same])
  apply (List.perm_ext_iff_of_nodup (once first) (once second)).mpr
  intro entry
  have here := first.holds entry.publicationId entry
  have there := second.holds entry.publicationId entry
  simp only [and_true] at here there
  rw [← here, there]

/-- The record codec is faithful: records survive it, exactly the listings of a record
decode to it, and two of them differ in the order of the entries only. -/
theorem record_codec_faithful :
    (∀ record, (recordImage record).length < sizeLimit → ∃ encoded,
      encodeDurableSyncRecord record = .ok encoded ∧ decodeDurableSyncRecord encoded = .ok record) ∧
    (∀ (bytes : Bytes) (record : DurableSyncRecord), bytes.length < sizeLimit →
      (decodeDurableSyncRecord bytes = .ok record ↔ ∃ entries,
        bytes = recordFrame record.trustedState record.appliedCursor entries ∧
        ListsOutbox record entries)) ∧
    ∀ (bytes others : Bytes) (record : DurableSyncRecord), bytes.length < sizeLimit →
      others.length < sizeLimit →
      decodeDurableSyncRecord bytes = .ok record → decodeDurableSyncRecord others = .ok record →
        ∃ entries rearranged : List DurableOutboxEntry, entries.Perm rearranged ∧
          bytes = recordFrame record.trustedState record.appliedCursor entries ∧
          others = recordFrame record.trustedState record.appliedCursor rearranged := by
  refine ⟨?_, ?_, ?_⟩
  · intro record fits
    have done := encodeDurableSyncRecord_ok_iff.mpr ⟨fits, rfl⟩
    exact ⟨recordImage record, done, decodeDurableSyncRecord_encode done⟩
  · intro bytes record fits
    exact decodeDurableSyncRecord_ok_iff fits
  · intro bytes others record fits othersFit first second
    obtain ⟨entries, shown, lists⟩ := (decodeDurableSyncRecord_ok_iff fits).mp first
    obtain ⟨rearranged, shownAgain, listsAgain⟩ :=
      (decodeDurableSyncRecord_ok_iff othersFit).mp second
    exact ⟨entries, rearranged, lists.perm listsAgain, shown, shownAgain⟩

/-- A record with one pending publication survives its encoding. -/
theorem record_codec_faithful_one_entry :
    let entry : DurableOutboxEntry := ⟨.ofByte 3, none, [[7], [8, 9]]⟩
    ∃ record : DurableSyncRecord, record.outbox[(.ofByte 3 : PublicationId)]? = some entry ∧
      (∃ encoded, encodeDurableSyncRecord record = .ok encoded ∧
        decodeDurableSyncRecord encoded = .ok record) ∧
      decodeDurableSyncRecord (recordFrame [4] none [entry]) = .ok record := by
  intro entry
  have held : ∀ (id : PublicationId) (found : DurableOutboxEntry),
      ((∅ : ExtTreeMap PublicationId DurableOutboxEntry).insert (.ofByte 3) entry)[id]? =
        some found ↔ found = entry ∧ .ofByte 3 = id := by
    intro id found
    rw [ExtTreeMap.getElem?_insert]
    by_cases same : (.ofByte 3 : PublicationId) = id
    · simp [same, eq_comm]
    · simp [same]
  have keyed : ∀ (id : PublicationId) (found : DurableOutboxEntry),
      ((∅ : ExtTreeMap PublicationId DurableOutboxEntry).insert (.ofByte 3) entry)[id]? =
        some found → found.publicationId = id ∧ validateObjects found.objects = .ok () := by
    intro id found stored
    obtain ⟨same, named⟩ := (held id found).mp stored
    subst same
    exact ⟨named, by decide⟩
  let record : DurableSyncRecord := ⟨[4], none, _, keyed⟩
  have lists : ListsOutbox record [entry] := by
    refine ⟨by simp, by simp [entry], ?_⟩
    intro id found
    rw [held]
    constructor
    · intro here
      exact ⟨by simp [here.1], here.1 ▸ here.2⟩
    · intro here
      have same : found = entry := by simpa using here.1
      rw [same] at here
      exact ⟨same, here.2⟩
  have fits : (recordImage record).length < sizeLimit := by
    have listed : record.outbox.toList.map Prod.snd = [entry] :=
      congrArg (List.map Prod.snd) (map_toList_singleton _ _)
    have shown : recordImage record = recordFrame [4] none [entry] := by
      rw [recordImage, listed]; rfl
    rw [shown]
    decide +kernel
  refine ⟨record, (held _ _).mpr ⟨rfl, rfl⟩, ?_, ?_⟩
  · exact record_codec_faithful.1 record fits
  · exact (record_codec_faithful.2.1 _ record (by decide +kernel)).mpr ⟨[entry], rfl, lists⟩

end PrivateContinuum.Sync
