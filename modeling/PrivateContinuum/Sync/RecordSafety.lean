import PrivateContinuum.Library.Panics
import PrivateContinuum.Sync.RecordFormat

/-! Decoding a durable record with its accesses and reservations made explicit: what
makes it panic. -/

namespace PrivateContinuum.Sync

open Std (ExtTreeMap)
open PrivateContinuum.Library PrivateContinuum.Core

/-- A decoding step that may panic. -/
abbrev RecordReader := Guarded SyncRecoveryError

/-- Size of a `Vec<u8>`, on a machine whose sizes have 64 bits. -/
def vecBytes : Nat := 24

namespace RecordReader

open Guarded

def readLen : RecordReader Nat := number 8

def readBytes : RecordReader Bytes := do
  let length ← readLen
  ofParser (readExact length)

def readId : RecordReader PublicationId := do
  let ⟨bytes, width⟩ ← array logicalIdBytes
  pure ⟨bytes, width⟩

def readOptionalCursor : RecordReader (Option TransportCursor) := do
  let tag ← byte
  if tag = 0 then pure none
  else if tag = 1 then do
    let bytes ← readBytes
    let cursor ← ofParser (liftM (TransportCursor.create bytes))
    pure (some cursor)
  else fail .invalidBoolean

/-- Loop body over the objects of an entry. -/
def readObject (objects : List Bytes) : RecordReader (List Bytes) := do
  let object ← readBytes
  if object.isEmpty then fail .emptyOutboxObject
  else pure (objects ++ [object])

/-- The announced number of objects is reserved as it was read. -/
def readEntry : RecordReader DurableOutboxEntry := do
  let publicationId ← readId
  let expectedCursor ← readOptionalCursor
  let objectCount ← readLen
  if objectCount = 0 then fail .emptyOutbox
  else do
    reserve vecBytes objectCount
    let objects ← readTimes readObject objectCount []
    pure ⟨publicationId, expectedCursor, objects⟩

/-- Loop body over the outbox. -/
def readNextEntry (image : OutboxImage) : RecordReader OutboxImage := do
  let entry ← readEntry
  ofParser (liftM (image.insertEntry entry))

/-- What follows the magic. -/
def readBody : RecordReader DurableSyncRecord := do
  let version ← number 2
  if version ≠ RecordCodec.version then fail (.unsupportedVersion version)
  else do
    let trustedState ← readBytes
    let appliedCursor ← readOptionalCursor
    let outboxLen ← readLen
    let image ← readTimes readNextEntry outboxLen .empty
    let left ← remaining
    if left ≠ 0 then fail .trailingBytes
    else pure ⟨trustedState, appliedCursor, image.entries, image.keyed⟩

end RecordReader

/-- `decode_durable_sync_record`, with everything that it indexes and reserves. -/
def attemptDurableSyncRecord (encoded : Bytes) : Attempt SyncRecoveryError DurableSyncRecord := do
  if encoded.length < RecordCodec.magic.length + 2 then .fail .unexpectedEof
  else do
    let head ← sliceRange encoded 0 RecordCodec.magic.length
    if head ≠ RecordCodec.magic then .fail .invalidMagic
    else do
      let body ← sliceRange encoded RecordCodec.magic.length encoded.length
      let (record, _) ← RecordReader.readBody ⟨body, 0⟩
      pure record

namespace RecordReader

open Guarded

theorem readLen_eq : readLen = ofParser Library.readLen := number_eq 8

theorem readBytes_eq : readBytes = ofParser readVec := by
  rw [readBytes, readLen_eq]
  exact (ofParser_bind Library.readLen fun length => readExact length).symm

theorem readId_eq : readId = ofParser Sync.readId := by
  rw [readId, array_eq]
  exact (ofParser_bind (readFixed logicalIdBytes) fun chunk =>
    pure (⟨chunk.1, chunk.2⟩ : PublicationId)).symm

theorem readOptionalCursor_eq : readOptionalCursor = ofParser Sync.readOptionalCursor := by
  rw [readOptionalCursor, byte_eq, Sync.readOptionalCursor, ofParser_bind]
  congr 1
  funext tag
  by_cases none : tag = 0
  · rw [if_pos none, if_pos none]
    rfl
  · rw [if_neg none, if_neg none]
    by_cases some : tag = 1
    · rw [if_pos some, if_pos some, readBytes_eq, ofParser_bind]
      congr 1
      funext bytes
      rw [ofParser_bind]
      rfl
    · rw [if_neg some, if_neg some]
      rfl

theorem readObject_eq (objects : List Bytes) :
    readObject objects = ofParser (Sync.readObject objects) := by
  rw [readObject, readBytes_eq, Sync.readObject, ofParser_bind]
  congr 1
  funext object
  by_cases empty : object.isEmpty = true
  · rw [if_pos empty, if_pos empty]
    rfl
  · rw [if_neg empty, if_neg empty]
    rfl

/-- The reads that lead to the announced number of objects of an entry. -/
def readAnnouncement : RecordParser Nat := do
  let _ ← (Sync.readId : RecordParser PublicationId)
  let _ ← Sync.readOptionalCursor
  Library.readLen

/-- The rest of the input has a byte for each element, and memory has room for them. -/
def Affordable (elements left : Nat) : Prop :=
  elements ≤ left ∧ elements * vecBytes ≤ allocationLimit

theorem affordable_zero (left : Nat) : Affordable 0 left := by
  constructor
  · exact Nat.zero_le left
  · rw [Nat.zero_mul]
    exact Nat.zero_le _

/-- The objects of an entry and the entry that they make. -/
def readObjects (id : PublicationId) (cursor : Option TransportCursor) (count : Nat) :
    RecordReader DurableOutboxEntry := do
  let objects ← readTimes readObject count []
  pure ⟨id, cursor, objects⟩

theorem readObjects_eq {id : PublicationId} {cursor : Option TransportCursor} {count : Nat} :
    readObjects id cursor count = ofParser (do
      let objects ← Library.readTimes Sync.readObject count []
      pure ⟨id, cursor, objects⟩) := by
  have same : readObject = fun objects => ofParser (Sync.readObject objects) := funext readObject_eq
  rw [readObjects, same, ← ofParser_readTimes]
  exact (ofParser_bind (Library.readTimes Sync.readObject count []) fun objects =>
    pure (⟨id, cursor, objects⟩ : DurableOutboxEntry)).symm

theorem readEntry_eq :
    readEntry = ofParser Sync.readId >>= fun id =>
    ofParser Sync.readOptionalCursor >>= fun cursor =>
    ofParser Library.readLen >>= fun count => if count = 0 then fail .emptyOutbox
      else reserve vecBytes count >>= fun _ => readObjects id cursor count := by
  rw [readEntry, readId_eq, readOptionalCursor_eq, readLen_eq]
  rfl

theorem mirrors_readEntry : readEntry.Mirrors Sync.readEntry := by
  rw [readEntry_eq]
  refine (mirrors_ofParser parses_id).bind fun id =>
    (mirrors_ofParser parses_optionalCursor).bind fun cursor =>
    (mirrors_ofParser parses_len).bind fun count => ?_
  change Mirrors _ (if count = 0 then throw SyncRecoveryError.emptyOutbox else _)
  by_cases none : count = 0
  · rw [if_pos none, if_pos none]
    exact mirrors_fail _
  · rw [if_neg none, if_neg none, readObjects_eq]
    exact (mirrors_reserve vecBytes count).bind fun _ =>
      mirrors_ofParser (parses_objects id cursor count)

/-- Reading an entry is clean if what it announces is affordable. -/
theorem clean_readEntry_iff {reader : Reader} : (readEntry reader).Clean ↔
    ∀ announced rest, readAnnouncement reader = .ok (announced, rest) →
      Affordable announced rest.left := by
  have branch :
      ∀ (id : PublicationId) (cursor : Option TransportCursor) (count : Nat) (rest : Reader),
      ((if count = 0 then fail .emptyOutbox
        else reserve vecBytes count >>= fun _ => readObjects id cursor count :
          RecordReader DurableOutboxEntry) rest).Clean ↔ Affordable count rest.left := by
    intro id cursor count rest
    by_cases none : count = 0
    · rw [if_pos none, none]
      exact iff_of_true (clean_ofParser _ _) (affordable_zero _)
    · rw [if_neg none, clean_reserve_bind_iff, readObjects_eq]
      exact and_iff_left (clean_ofParser _ _)
  rw [readEntry_eq, clean_ofParser_bind_iff]
  simp only [clean_ofParser_bind_iff, branch]
  constructor
  · intro every announced rest ran
    obtain ⟨id, first, readId, ran⟩ := parser_bind_ok_iff.mp ran
    obtain ⟨cursor, second, readCursor, readLen⟩ := parser_bind_ok_iff.mp ran
    exact every id first readId cursor second readCursor announced rest readLen
  · intro every id first readId cursor second readCursor announced rest readLen
    exact every announced rest (parser_bind_ok_iff.mpr ⟨id, first, readId,
      parser_bind_ok_iff.mpr ⟨cursor, second, readCursor, readLen⟩⟩)

theorem readNextEntry_mirrors (image : OutboxImage) :
    (readNextEntry image).Mirrors (Sync.readNextEntry image) :=
  mirrors_readEntry.bind fun entry => mirrors_ofParser (parses_check (image.insertEntry entry))

theorem clean_readNextEntry_iff {image : OutboxImage} {reader : Reader} (inside : reader.InRange) :
    (readNextEntry image reader).Clean ↔
      ∀ announced rest, readAnnouncement reader = .ok (announced, rest) →
        Affordable announced rest.left := by
  rw [readNextEntry, clean_bind_iff mirrors_readEntry inside, clean_readEntry_iff]
  exact and_iff_left fun entry middle _ => clean_ofParser _ _

/-- The reads that lead to what the entry behind the given number of entries announces. -/
def readPrefix (entries : Nat) : RecordParser (Nat × Nat) := do
  let version ← readNat 2
  if version ≠ RecordCodec.version then throw (SyncRecoveryError.unsupportedVersion version)
  else do
    let _ ← readVec
    let _ ← Sync.readOptionalCursor
    let outboxLen ← Library.readLen
    let _ ← Library.readTimes Sync.readNextEntry entries .empty
    let announced ← readAnnouncement
    pure (outboxLen, announced)

/-- The check of what is left over, once the outbox is read. -/
def finish (trusted : Bytes) (applied : Option TransportCursor) (image : OutboxImage) :
    RecordReader DurableSyncRecord := do
  let left ← remaining
  if left ≠ 0 then fail .trailingBytes
  else pure ⟨trusted, applied, image.entries, image.keyed⟩

theorem clean_finish {trusted : Bytes} {applied : Option TransportCursor} {image : OutboxImage}
    {reader : Reader} (inside : reader.InRange) : (finish trusted applied image reader).Clean := by
  apply clean_remaining_bind inside
  by_cases left : reader.left ≠ 0
  · rw [if_pos left]
    exact clean_ofParser _ _
  · rw [if_neg left]
    exact Attempt.clean_pure _

theorem readBody_eq : readBody = ofParser (readNat 2) >>= fun version =>
    if version ≠ RecordCodec.version then fail (.unsupportedVersion version)
    else ofParser readVec >>= fun trusted => ofParser Sync.readOptionalCursor >>= fun applied =>
      ofParser Library.readLen >>= fun outboxLen => readTimes readNextEntry outboxLen .empty >>=
        finish trusted applied := by
  rw [readBody, number_eq, readBytes_eq, readOptionalCursor_eq, readLen_eq]
  rfl

theorem clean_readBody_iff {reader : Reader} (inside : reader.InRange) : (readBody reader).Clean ↔
    ∀ entries outboxLen announced rest, readPrefix entries reader =
      .ok ((outboxLen, announced), rest) →
      entries < outboxLen → Affordable announced rest.left := by
  have loop :
      ∀ (trusted : Bytes) (applied : Option TransportCursor) (outboxLen : Nat) (start : Reader),
      start.InRange →
        (((readTimes readNextEntry outboxLen .empty >>= finish trusted applied) start).Clean ↔
        ∀ entries < outboxLen, ∀ image middle,
          Library.readTimes Sync.readNextEntry entries .empty start =
          .ok (image, middle) → ∀ announced rest, readAnnouncement middle = .ok (announced, rest) →
            Affordable announced rest.left) := by
    intro trusted applied outboxLen start begins
    have mirrors := mirrors_readTimes readNextEntry_mirrors outboxLen .empty
    rw [clean_bind_iff mirrors begins, clean_readTimes_iff readNextEntry_mirrors begins]
    have ends : ∀ image middle, Library.readTimes Sync.readNextEntry outboxLen .empty start =
        .ok (image, middle) → (finish trusted applied image middle).Clean := by
      intro image middle ran
      exact clean_finish ((mirrors start begins).2 image middle ran)
    rw [and_iff_left ends]
    refine forall₂_congr fun entries _ => forall₂_congr fun image middle =>
      forall_congr' fun ran => ?_
    have stays :=
      (mirrors_readTimes readNextEntry_mirrors entries .empty start begins).2 image middle ran
    exact clean_readNextEntry_iff stays
  rw [readBody_eq, clean_ofParser_bind_iff]
  constructor
  · intro clean entries outboxLen announced rest ran below
    obtain ⟨version, first, readVersion, ran⟩ := parser_bind_ok_iff.mp ran
    by_cases other : version ≠ RecordCodec.version
    · rw [if_pos other] at ran
      cases ran
    rw [if_neg other] at ran
    obtain ⟨trusted, second, readTrusted, ran⟩ := parser_bind_ok_iff.mp ran
    obtain ⟨applied, third, readApplied, ran⟩ := parser_bind_ok_iff.mp ran
    obtain ⟨count, fourth, readCount, ran⟩ := parser_bind_ok_iff.mp ran
    obtain ⟨image, fifth, readEntries, ran⟩ := parser_bind_ok_iff.mp ran
    obtain ⟨number, sixth, readNumber, ran⟩ := parser_bind_ok_iff.mp ran
    obtain ⟨same, stands⟩ := parser_pure_ok_iff.mp ran
    cases same
    cases stands
    have one := (mirrors_ofParser (parses_nat 2) reader inside).2 version first readVersion
    have two := (mirrors_ofParser parses_vecImage first one).2 trusted second readTrusted
    have three := (mirrors_ofParser parses_optionalCursor second two).2 applied third readApplied
    have four := (mirrors_ofParser parses_len third three).2 outboxLen fourth readCount
    have turns := clean version first readVersion
    rw [if_neg other, clean_ofParser_bind_iff] at turns
    have turns := turns trusted second readTrusted
    rw [clean_ofParser_bind_iff] at turns
    have turns := turns applied third readApplied
    rw [clean_ofParser_bind_iff] at turns
    exact (loop trusted applied outboxLen fourth four).mp (turns outboxLen fourth readCount) entries
      below image fifth readEntries announced rest readNumber
  · intro every version first readVersion
    by_cases other : version ≠ RecordCodec.version
    · rw [if_pos other]
      exact clean_ofParser _ _
    rw [if_neg other, clean_ofParser_bind_iff]
    intro trusted second readTrusted
    rw [clean_ofParser_bind_iff]
    intro applied third readApplied
    rw [clean_ofParser_bind_iff]
    intro outboxLen fourth readCount
    have one := (mirrors_ofParser (parses_nat 2) reader inside).2 version first readVersion
    have two := (mirrors_ofParser parses_vecImage first one).2 trusted second readTrusted
    have three := (mirrors_ofParser parses_optionalCursor second two).2 applied third readApplied
    have four := (mirrors_ofParser parses_len third three).2 outboxLen fourth readCount
    apply (loop trusted applied outboxLen fourth four).mpr
    intro entries below image fifth readEntries announced rest readNumber
    refine every entries outboxLen announced rest
      (parser_bind_ok_iff.mpr ⟨version, first, readVersion, ?_⟩) below
    rw [if_neg other]
    exact parser_bind_ok_iff.mpr ⟨trusted, second, readTrusted,
      parser_bind_ok_iff.mpr ⟨applied, third, readApplied,
      parser_bind_ok_iff.mpr ⟨outboxLen, fourth, readCount,
        parser_bind_ok_iff.mpr ⟨image, fifth, readEntries,
        parser_bind_ok_iff.mpr ⟨announced, rest, readNumber, rfl⟩⟩⟩⟩⟩

theorem exists_image_iff {listed : List DurableOutboxEntry} {start : OutboxImage} :
    (∃ image, listed.foldlM OutboxImage.adding? start = some image) ↔
      (∀ entry ∈ listed, validateObjects entry.objects = .ok ()) ∧
        listed.Pairwise (fun left right => left.publicationId ≠ right.publicationId) ∧
        ∀ entry ∈ listed, entry.publicationId ∉ start.entries := by
  induction listed generalizing start with
  | nil => simp
  | cons entry rest ih =>
    have added : ∀ next, start.adding? entry = some next ↔ validateObjects entry.objects = .ok () ∧
        insertNewEntry start.entries (entry.publicationId, entry) = some next.entries :=
      fun next => toOption_eq_some_iff.trans insertEntry_ok_iff
    rw [List.pairwise_cons, List.forall_mem_cons, List.forall_mem_cons]
    constructor
    · rintro ⟨image, collected⟩
      obtain ⟨next, inserted, others⟩ := Option.bind_eq_some_iff.mp collected
      obtain ⟨validated, stored⟩ := (added next).mp inserted
      obtain ⟨restValid, distinct, fresh⟩ := ih.mp ⟨image, others⟩
      unfold insertNewEntry at stored
      split at stored
      · cases stored
      rename_i unknown
      have grown := Option.some.inj stored
      have apart : ∀ other ∈ rest, entry.publicationId ≠ other.publicationId ∧
          other.publicationId ∉ start.entries := by
        intro other member
        have outside := fresh other member
        rw [← grown, ExtTreeMap.mem_insert, Std.LawfulEqCmp.compare_eq_iff_eq, not_or] at outside
        exact outside
      exact ⟨⟨validated, restValid⟩,
        ⟨fun other member => (apart other member).1, distinct⟩, unknown,
        fun other member => (apart other member).2⟩
    · rintro ⟨⟨validated, restValid⟩, ⟨apart, distinct⟩, unknown, fresh⟩
      have stored : insertNewEntry start.entries (entry.publicationId, entry) =
          some (start.entries.insert entry.publicationId entry) := if_neg unknown
      obtain ⟨next, grown⟩ := OutboxImage.exists_insert validated stored
      have restFresh : ∀ other ∈ rest, other.publicationId ∉ next.entries := by
        intro other member
        rw [grown, ExtTreeMap.mem_insert, Std.LawfulEqCmp.compare_eq_iff_eq, not_or]
        exact ⟨apart other member, fresh other member⟩
      obtain ⟨image, others⟩ := ih.mpr ⟨restValid, distinct, restFresh⟩
      refine ⟨image, ?_⟩
      rw [List.foldlM_cons, (added next).mpr ⟨validated, by rw [stored, grown]⟩]
      exact others

/-- The bytes of a body up to what the entry behind the listed ones announces. -/
structure Announces (chunk : Bytes) (listed : List DurableOutboxEntry)
    (outboxLen announced : Nat) : Prop where
  shown : ∃ trusted applied, ∃ (id : PublicationId), ∃ expected,
    chunk = bigEndian 2 RecordCodec.version ++
    (vecImage trusted ++
      (cursorImage applied ++ (bigEndian 8 outboxLen ++ (listed.flatMap entryImage ++
      (id.bytes ++ (cursorImage expected ++ bigEndian 8 announced))))))
  outboxLen_lt : outboxLen < sizeLimit
  announced_lt : announced < sizeLimit
  valid : ∀ entry ∈ listed, validateObjects entry.objects = .ok ()
  distinct : listed.Pairwise fun left right => left.publicationId ≠ right.publicationId

theorem parses_announcement : Parses readAnnouncement fun chunk announced =>
    (∃ (id : PublicationId), ∃ expected,
      chunk = id.bytes ++ (cursorImage expected ++ bigEndian 8 announced)) ∧
      announced < sizeLimit := by
  refine (parses_id.bind fun _ => parses_optionalCursor.bind fun _ => parses_len).congr ?_
  intro chunk announced _
  constructor
  · rintro ⟨id, left, others, halves, shownId, expected, middle, right, split, shownCursor,
      shownLen, bounded⟩
    exact ⟨⟨id, expected, by rw [halves, shownId, split, shownCursor, shownLen]⟩, bounded⟩
  · rintro ⟨⟨id, expected, shown⟩, bounded⟩
    exact ⟨id, _, _, shown, rfl, expected, _, _, rfl, rfl, rfl, bounded⟩

theorem parses_prefix (entries : Nat) : Parses (readPrefix entries) fun chunk pair =>
    ∃ listed, listed.length = entries ∧ Announces chunk listed pair.1 pair.2 := by
  refine ((parses_nat 2).bind fun version =>
    parses_refusal (SyncRecoveryError.unsupportedVersion version)
    (parses_vecImage.bind fun _ => parses_optionalCursor.bind fun _ =>
      parses_len.bind fun outboxLen =>
      (parses_times parses_nextEntry entries .empty).bind fun _ =>
        parses_announcement.map fun announced =>
        (outboxLen, announced))).congr ?_
  rintro chunk ⟨outboxLen, announced⟩ _
  constructor
  · rintro ⟨version, first, others, halves, ⟨shownVersion, _⟩, same, trusted, second, others',
      halves', shownTrusted,
      applied, third, others'', halves'', shownApplied, count, fourth, fifth, last,
      ⟨shownCount, bounded⟩, image,
      sixth, seventh, more, ⟨listed, counted, shownEntries, collected⟩, number,
      ⟨⟨id, expected, shownNumber⟩, numberBounded⟩, pair⟩
    cases pair
    have built := exists_image_iff.mp ⟨image, collected⟩
    refine ⟨listed, counted, ⟨trusted, applied, id, expected, ?_⟩, bounded, numberBounded,
      built.1, built.2.1⟩
    rw [halves, shownVersion, not_not.mp same, halves', shownTrusted, halves'', shownApplied, last,
      shownCount, more, shownEntries, shownNumber]
  · rintro ⟨listed, counted, ⟨trusted, applied, id, expected, shown⟩, bounded,
      numberBounded, valid, distinct⟩
    obtain ⟨image, collected⟩ : ∃ image, listed.foldlM OutboxImage.adding? .empty = some image :=
      exists_image_iff.mpr ⟨valid, distinct, fun entry _ => ExtTreeMap.not_mem_empty⟩
    exact ⟨RecordCodec.version, _, _, shown, ⟨rfl, by decide⟩, by simp, trusted, _, _, rfl, rfl,
      applied, _, _, rfl,
      rfl, outboxLen, _, _, rfl, ⟨rfl, bounded⟩, image, _, _, rfl,
      ⟨listed, counted, rfl, collected⟩, announced,
      ⟨⟨id, expected, rfl⟩, numberBounded⟩, rfl⟩

/-- The check of what is left over, next to the record. -/
def exhausted (record : DurableSyncRecord) : RecordParser DurableSyncRecord := fun reader =>
  if reader.left ≠ 0 then .error .trailingBytes else .ok (record, reader)

/-- The reads of `readBody`, without what may panic. -/
def bodyRecord : RecordParser DurableSyncRecord := readRecord >>= exhausted

theorem bodyRecord_eq : bodyRecord = readNat 2 >>= fun version =>
    if version ≠ RecordCodec.version then throw (SyncRecoveryError.unsupportedVersion version)
    else readVec >>= fun trusted => Sync.readOptionalCursor >>= fun applied =>
      Library.readLen >>= fun outboxLen =>
      Library.readTimes Sync.readNextEntry outboxLen .empty >>= fun image =>
        exhausted ⟨trusted, applied, image.entries, image.keyed⟩ := by
  rw [bodyRecord, readRecord, bind_assoc]
  congr 1
  funext version
  by_cases other : version ≠ RecordCodec.version
  · rw [if_pos other, if_pos other]
    rfl
  · rw [if_neg other, if_neg other]
    simp only [bind_assoc, pure_bind]

theorem mirrors_finish (trusted : Bytes) (applied : Option TransportCursor) (image : OutboxImage) :
    (finish trusted applied image).Mirrors
      (exhausted ⟨trusted, applied, image.entries, image.keyed⟩) := by
  have same : exhausted ⟨trusted, applied, image.entries, image.keyed⟩ =
      ((fun reader => .ok (reader.left, reader) : RecordParser Nat) >>= fun left =>
        if left ≠ 0 then throw SyncRecoveryError.trailingBytes
        else pure ⟨trusted, applied, image.entries, image.keyed⟩) := by
    funext reader
    by_cases left : reader.left ≠ 0
    · change (if _ then _ else _) = (if reader.left ≠ 0 then _
        else _ : RecordParser DurableSyncRecord) reader
      rw [if_pos left, if_pos left]
      rfl
    · change (if _ then _ else _) = (if reader.left ≠ 0 then _
        else _ : RecordParser DurableSyncRecord) reader
      rw [if_neg left, if_neg left]
      rfl
  rw [same]
  refine mirrors_remaining.bind fun left => ?_
  by_cases more : left ≠ 0
  · rw [if_pos more, if_pos more]
    exact mirrors_fail _
  · rw [if_neg more, if_neg more]
    exact mirrors_pure _

theorem mirrors_readBody : readBody.Mirrors bodyRecord := by
  rw [readBody_eq, bodyRecord_eq]
  refine (mirrors_ofParser (parses_nat 2)).bind fun version => ?_
  by_cases other : version ≠ RecordCodec.version
  · rw [if_pos other, if_pos other]
    exact mirrors_fail _
  · rw [if_neg other, if_neg other]
    exact (mirrors_ofParser parses_vecImage).bind fun trusted =>
      (mirrors_ofParser parses_optionalCursor).bind
      fun applied => (mirrors_ofParser parses_len).bind fun outboxLen =>
        (mirrors_readTimes readNextEntry_mirrors outboxLen .empty).bind fun image =>
          mirrors_finish trusted applied image

theorem parsesAll_exhausted (record : DurableSyncRecord) :
    ParsesAll (exhausted record) fun remaining found =>
    remaining = [] ∧ record = found := by
  intro before remaining _ found rest
  have left : (Reader.mk (before ++ remaining) before.length).left = remaining.length := by
    rw [Reader.left, List.length_append, Nat.add_sub_cancel_left]
  rw [exhausted, left]
  by_cases more : remaining.length ≠ 0
  · rw [if_pos more]
    constructor
    · intro done
      cases done
    · rintro ⟨⟨none, _⟩, _⟩
      exact absurd (none ▸ rfl) more
  · have none : remaining = [] := List.eq_nil_of_length_eq_zero (not_not.mp more)
    rw [if_neg more, none, List.append_nil]
    constructor
    · intro done
      cases done
      exact ⟨⟨rfl, rfl⟩, rfl⟩
    · rintro ⟨⟨_, same⟩, stands⟩
      rw [same, stands]

theorem parsesAll_body :
    ParsesAll bodyRecord fun chunk record => ∃ entries, RecordCodec.magic ++ chunk =
    recordFrame record.trustedState record.appliedCursor entries ∧ ListsOutbox record entries := by
  refine (parses_record.bindAll parsesAll_exhausted).congr ?_
  intro chunk record _
  constructor
  · rintro ⟨read, first, others, halves, listed, none, same⟩
    subst same
    rwa [halves, none, List.append_nil]
  · intro listed
    exact ⟨record, chunk, [], by rw [List.append_nil], listed, rfl, rfl⟩

end RecordReader

open RecordReader

variable {encoded : Bytes}

/-- Wherever the bytes are a record up to the number of objects of an entry, as many
bytes follow as objects are announced, and memory has room for them. -/
def AnnouncementsAffordable (encoded : Bytes) : Prop :=
  ∀ chunk rest listed outboxLen announced, encoded = RecordCodec.magic ++ (chunk ++ rest) →
    Announces chunk listed outboxLen announced → listed.length < outboxLen →
    Affordable announced rest.length

theorem RecordReader.Announces.two_le {chunk : Bytes} {listed : List DurableOutboxEntry}
    {outboxLen announced : Nat} (announces : Announces chunk listed outboxLen announced) :
    2 ≤ chunk.length := by
  obtain ⟨trusted, applied, id, expected, shown⟩ := announces.shown
  rw [shown, List.length_append, bigEndian_length]
  omega

theorem attemptDurableSyncRecord_body {body : Bytes} (long : 2 ≤ body.length) :
    attemptDurableSyncRecord (RecordCodec.magic ++ body) =
      readBody ⟨body, 0⟩ >>= fun both => pure both.1 := by
  have eight : RecordCodec.magic.length = 8 := rfl
  have whole : (RecordCodec.magic ++ body).length = 8 + body.length := by
    rw [List.length_append, eight]
  have filled : ¬ (RecordCodec.magic ++ body).length < RecordCodec.magic.length + 2 := by omega
  have head : slice (RecordCodec.magic ++ body) 0 (8 - 0) = RecordCodec.magic := by
    rw [slice, List.drop_zero]
    exact List.take_left' eight
  have tail : slice (RecordCodec.magic ++ body) 8 ((RecordCodec.magic ++ body).length - 8) =
      body := by
    rw [slice, List.drop_left' eight, whole, Nat.add_sub_cancel_left, List.take_length]
  rw [attemptDurableSyncRecord, if_neg filled, eight, sliceRange_eq (by omega) (by omega),
    Attempt.pure_bind, head,
    if_neg (by simp), sliceRange_eq (by omega) (le_refl _), Attempt.pure_bind, tail]

/-- A clean decoding ends with a record as `decodeDurableSyncRecord` does. -/
theorem attemptDurableSyncRecord_ok_iff {record : DurableSyncRecord}
    (fits : encoded.length < sizeLimit) (clean : (attemptDurableSyncRecord encoded).Clean) :
    (attemptDurableSyncRecord encoded).ended = .ok record ↔
    decodeDurableSyncRecord encoded = .ok record := by
  rw [decodeDurableSyncRecord_ok_iff fits]
  have eight : RecordCodec.magic.length = 8 := rfl
  have started : ∀ entries, encoded = recordFrame record.trustedState record.appliedCursor entries →
      encoded = RecordCodec.magic ++ encoded.drop 8 ∧ 2 ≤ (encoded.drop 8).length := by
    intro entries shown
    rw [recordFrame, List.append_assoc] at shown
    have behind : encoded.drop 8 = _ := (congrArg (List.drop 8) shown).trans (List.drop_left' eight)
    refine ⟨behind ▸ shown, ?_⟩
    rw [behind, List.length_append, bigEndian_length]
    omega
  by_cases stands : encoded = RecordCodec.magic ++ encoded.drop 8 ∧ 2 ≤ (encoded.drop 8).length
  · obtain ⟨split, long⟩ := stands
    have begun := attemptDurableSyncRecord_body long
    rw [← split] at begun
    rw [begun, Attempt.clean_map_iff] at clean
    have bodyFits : (encoded.drop 8).length < sizeLimit := by
      rw [List.length_drop]
      omega
    have ended := clean.follows (mirrors_readBody ⟨encoded.drop 8, 0⟩ ⟨Nat.zero_le _, bodyFits⟩).1
    have format : (∃ rest, bodyRecord ⟨encoded.drop 8, 0⟩ = .ok (record, rest)) ↔ _ :=
      parsesAll_body.whole_iff bodyFits
    rw [← split] at format
    rw [begun, ← format, Attempt.ended_bind_ok_iff, ended]
    constructor
    · rintro ⟨⟨found, rest⟩, done, same⟩
      cases same
      exact ⟨rest, Attempt.ended_ofExcept_ok_iff.mp done⟩
    · rintro ⟨rest, done⟩
      exact ⟨(record, rest), Attempt.ended_ofExcept_ok_iff.mpr done, rfl⟩
  · have stops : ∀ found, (attemptDurableSyncRecord encoded).ended ≠ .ok found := by
      intro found done
      rw [attemptDurableSyncRecord] at done
      by_cases short : encoded.length < RecordCodec.magic.length + 2
      · rw [if_pos short] at done
        cases done
      rw [if_neg short, eight, sliceRange_eq (by omega) (by omega), Attempt.pure_bind] at done
      by_cases other : slice encoded 0 8 ≠ RecordCodec.magic
      · rw [if_pos other] at done
        cases done
      apply stands
      rw [List.length_drop]
      refine ⟨?_, by omega⟩
      rw [← not_not.mp other, slice, List.drop_zero, List.take_append_drop]
    constructor
    · intro done
      exact absurd done (stops record)
    · rintro ⟨entries, shown, _⟩
      exact absurd (started entries shown) stands

/-- Decoding is clean exactly on the bytes whose announcements are affordable. -/
theorem attemptDurableSyncRecord_clean_iff (fits : encoded.length < sizeLimit) :
    (attemptDurableSyncRecord encoded).Clean ↔ AnnouncementsAffordable encoded := by
  by_cases short : encoded.length < RecordCodec.magic.length + 2
  · rw [attemptDurableSyncRecord, if_pos short]
    refine iff_of_true (Attempt.clean_ofExcept _) ?_
    intro chunk rest listed outboxLen announced shown announces
    have long := announces.two_le
    rw [shown, List.length_append, List.length_append] at short
    omega
  have eight : RecordCodec.magic.length = 8 := rfl
  by_cases other : slice encoded 0 8 ≠ RecordCodec.magic
  · have stopped : attemptDurableSyncRecord encoded = .fail .invalidMagic := by
      rw [attemptDurableSyncRecord, if_neg short, eight, sliceRange_eq (by omega) (by omega),
        Attempt.pure_bind, if_pos other]
    rw [stopped]
    refine iff_of_true (Attempt.clean_ofExcept _) ?_
    intro chunk rest listed outboxLen announced shown
    refine absurd ?_ other
    rw [shown, slice, List.drop_zero]
    exact List.take_left' eight
  · have split : encoded = RecordCodec.magic ++ encoded.drop 8 := by
      rw [← not_not.mp other, slice, List.drop_zero, List.take_append_drop]
    have long : 2 ≤ (encoded.drop 8).length := by
      rw [List.length_drop]
      omega
    have bodyFits : (encoded.drop 8).length < sizeLimit := by
      rw [List.length_drop]
      omega
    have inside : (Reader.mk (encoded.drop 8) 0).InRange := ⟨Nat.zero_le _, bodyFits⟩
    have begun : attemptDurableSyncRecord encoded = readBody ⟨encoded.drop 8, 0⟩ >>= fun both =>
        pure both.1 := by
      rw [← attemptDurableSyncRecord_body long, ← split]
    rw [begun, Attempt.clean_map_iff, clean_readBody_iff inside]
    have taken := fun entries => parses_prefix entries [] (encoded.drop 8) bodyFits
    simp only [List.nil_append, List.length_nil, Nat.zero_add] at taken
    constructor
    · intro every chunk rest listed outboxLen announced shown announces below
      have remains : encoded.drop 8 = chunk ++ rest := by
        rw [shown]
        exact List.drop_left' eight
      have affordable := every listed.length outboxLen announced ⟨encoded.drop 8, chunk.length⟩
        ((taken listed.length _ _).mpr ⟨chunk, rest, remains, ⟨listed, rfl, announces⟩, rfl⟩) below
      rwa [Reader.left, remains, List.length_append, Nat.add_sub_cancel_left] at affordable
    · intro every entries outboxLen announced rest ran below
      obtain ⟨chunk, after, remains, ⟨listed, counted, announces⟩, stands⟩ :=
        (taken entries _ _).mp ran
      subst counted
      have affordable :=
        every chunk after listed outboxLen announced (by rw [← remains, ← split]) announces below
      rwa [stands, Reader.left, remains, List.length_append, Nat.add_sub_cancel_left]

/-- The listing of one entry with one object. -/
theorem attemptDurableSyncRecord_clean_iff_one_entry :
    (recordFrame [4] none [⟨.ofByte 3, none, [[7]]⟩]).length < sizeLimit ∧
      AnnouncementsAffordable (recordFrame [4] none [⟨.ofByte 3, none, [[7]]⟩]) := by
  have fits : (recordFrame [4] none [⟨.ofByte 3, none, [[7]]⟩]).length < sizeLimit := by
    decide +kernel
  refine ⟨fits, (attemptDurableSyncRecord_clean_iff fits).mp ⟨?_, ?_⟩⟩
  · intro panicked
    have returns :
        (attemptDurableSyncRecord (recordFrame [4] none [⟨.ofByte 3, none, [[7]]⟩])).panics =
          false := by
      decide +kernel
    rw [Attempt.panics, panicked] at returns
    cases returns
  · have covers :
        ((attemptDurableSyncRecord (recordFrame [4] none [⟨.ofByte 3, none, [[7]]⟩])).reserved.all
        fun reservation => reservation.elements ≤ reservation.remaining) = true := by decide +kernel
    intro reservation member
    exact of_decide_eq_true (List.all_eq_true.mp covers reservation member)

/-- An entry that announces `2 ^ 63` objects and has none. -/
def hugeAnnouncement : Bytes :=
  RecordCodec.magic ++
    (bigEndian 2 RecordCodec.version ++ (vecImage [] ++ (cursorImage none ++ (bigEndian 8 1 ++
    ((LogicalId.ofByte 3 : PublicationId).bytes ++ (cursorImage none ++ bigEndian 8 (2 ^ 63)))))))

/-- The reservation for it overflows. -/
theorem attemptDurableSyncRecord_panics : hugeAnnouncement.length < sizeLimit ∧
    (attemptDurableSyncRecord hugeAnnouncement).panics = true ∧
    ¬ (attemptDurableSyncRecord hugeAnnouncement).Clean := by
  have panicked : (attemptDurableSyncRecord hugeAnnouncement).panics = true := by decide +kernel
  refine ⟨by decide +kernel, panicked, ?_⟩
  intro clean
  rw [Attempt.panics_eq_false clean] at panicked
  cases panicked

end PrivateContinuum.Sync
