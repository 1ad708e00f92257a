import PrivateContinuum.Sync.Recovery
import PrivateContinuum.Sync.ScalarFraming

/-! The recovery encoding `APCSREC1` of a durable record. -/

namespace PrivateContinuum.Sync

open Std (ExtTreeMap ExtTreeSet)
open PrivateContinuum.Library PrivateContinuum.Core

instance : FramingFailure SyncRecoveryError where
  unexpectedEof := .unexpectedEof
  lengthOverflow := .lengthOverflow

abbrev RecordEmitter := Emitter SyncRecoveryError Unit
abbrev RecordParser := Parser SyncRecoveryError

namespace RecordCodec

/-- `b"APCSREC1"` -/
def magic : Bytes := [65, 80, 67, 83, 82, 69, 67, 49]

def version : Nat := 1

end RecordCodec

def writeOptionalCursor : Option TransportCursor → RecordEmitter
  | some cursor => do
    emit [1]
    writeBytes cursor.1
  | none => emit [0]

/-- Loop body over the outbox. -/
def writeEntry (entry : DurableOutboxEntry) : RecordEmitter := do
  writeId entry.publicationId
  writeOptionalCursor entry.expectedCursor
  writeCounted entry.objects writeBytes

def writeRecord (record : DurableSyncRecord) : RecordEmitter := do
  writeHeader RecordCodec.magic RecordCodec.version
  writeBytes record.trustedState
  writeOptionalCursor record.appliedCursor
  writeCounted (record.outbox.toList.map Prod.snd) writeEntry

def encodeDurableSyncRecord (record : DurableSyncRecord) : Except SyncRecoveryError Bytes :=
  (writeRecord record).finish

def readOptionalCursor : RecordParser (Option TransportCursor) := do
  let tag ← readNat 1
  if tag = 0 then pure none
  else if tag = 1 then do
    let bytes ← readVec
    let cursor ← liftM (TransportCursor.create bytes)
    pure (some cursor)
  else throw SyncRecoveryError.invalidBoolean

/-- Loop body over the objects of an entry. -/
def readObject (objects : List Bytes) : RecordParser (List Bytes) := do
  let object ← readVec
  if object.isEmpty then throw SyncRecoveryError.emptyOutboxObject
  else pure (objects ++ [object])

def readEntry : RecordParser DurableOutboxEntry := do
  let publicationId ← readId
  let expectedCursor ← readOptionalCursor
  let objectCount ← readLen
  if objectCount = 0 then throw SyncRecoveryError.emptyOutbox
  let objects ← readTimes readObject objectCount []
  pure ⟨publicationId, expectedCursor, objects⟩

/-- The entries read so far, with what a record asks of its outbox. -/
structure OutboxImage where
  entries : ExtTreeMap PublicationId DurableOutboxEntry
  keyed : ∀ (id : PublicationId) (entry : DurableOutboxEntry), entries[id]? = some entry →
    entry.publicationId = id ∧ validateObjects entry.objects = .ok ()

namespace OutboxImage

theorem keyed_empty : ∀ (id : PublicationId) (entry : DurableOutboxEntry),
    (∅ : ExtTreeMap PublicationId DurableOutboxEntry)[id]? = some entry →
      entry.publicationId = id ∧ validateObjects entry.objects = .ok () := by
  simp

def empty : OutboxImage := ⟨∅, keyed_empty⟩

/-- Refuses a second entry under one identity. The reader has checked the objects
before, so that this check of them always passes. -/
def insertEntry (image : OutboxImage) (entry : DurableOutboxEntry) :
    Except SyncRecoveryError OutboxImage :=
  match validated : validateObjects entry.objects with
  | .error failure => .error failure
  | .ok () =>
    if entry.publicationId ∈ image.entries then .error .duplicatePublication
    else .ok
      { entries := image.entries.insert entry.publicationId entry
        keyed := by
          intro id stored found
          rw [ExtTreeMap.getElem?_insert] at found
          split at found
          · rename_i here
            cases found
            exact ⟨Std.LawfulEqCmp.eq_of_compare here, validated⟩
          · exact image.keyed id stored found }

end OutboxImage

/-- Loop body over the outbox. -/
def readNextEntry (image : OutboxImage) : RecordParser OutboxImage := do
  let entry ← readEntry
  liftM (image.insertEntry entry)

/-- What follows the magic. -/
def readRecord : RecordParser DurableSyncRecord := do
  let version ← readNat 2
  if version ≠ RecordCodec.version then throw (SyncRecoveryError.unsupportedVersion version)
  else do
    let trustedState ← readVec
    let appliedCursor ← readOptionalCursor
    let outboxLen ← readLen
    let image ← readTimes readNextEntry outboxLen .empty
    pure ⟨trustedState, appliedCursor, image.entries, image.keyed⟩

/-- The reader starts behind the magic. -/
def decodeDurableSyncRecord (encoded : Bytes) : Except SyncRecoveryError DurableSyncRecord :=
  if encoded.length < RecordCodec.magic.length + 2 then .error .unexpectedEof
  else if encoded.take RecordCodec.magic.length ≠ RecordCodec.magic then .error .invalidMagic
  else readRecord.complete .trailingBytes (encoded.drop RecordCodec.magic.length)

def cursorImage : Option TransportCursor → Bytes
  | some cursor => [1] ++ vecImage cursor.1
  | none => [0]

def entryImage (entry : DurableOutboxEntry) : Bytes :=
  entry.publicationId.bytes ++ (cursorImage entry.expectedCursor ++
    (bigEndian 8 entry.objects.length ++ entry.objects.flatMap vecImage))

/-- The bytes of a record. -/
def recordImage (record : DurableSyncRecord) : Bytes :=
  (RecordCodec.magic ++ bigEndian 2 RecordCodec.version) ++ (vecImage record.trustedState ++
    (cursorImage record.appliedCursor ++ (bigEndian 8 (record.outbox.toList.map Prod.snd).length ++
      (record.outbox.toList.map Prod.snd).flatMap entryImage)))

/-- Past the checks of its start, a record is read from behind the magic. -/
theorem decodeDurableSyncRecord_body {body : Bytes} (long : 2 ≤ body.length) :
    decodeDurableSyncRecord (RecordCodec.magic ++ body) =
      readRecord.complete .trailingBytes body := by
  have filled : ¬ (RecordCodec.magic ++ body).length < RecordCodec.magic.length + 2 := by
    rw [List.length_append]
    omega
  have head : (RecordCodec.magic ++ body).take RecordCodec.magic.length = RecordCodec.magic :=
    List.take_left' rfl
  rw [decodeDurableSyncRecord, if_neg filled, head, if_neg (by simp), List.drop_left' rfl]

theorem emits_optionalCursor (cursor : Option TransportCursor) :
    Emits (writeOptionalCursor cursor) (cursorImage cursor) := by
  cases cursor with
  | none => exact emits_emit [0]
  | some cursor => exact (emits_emit [1]).seq (emits_vec cursor.1)

theorem vecImage_ne_nil (chunk : Bytes) : vecImage chunk ≠ [] := by
  intro empty
  have none := congrArg List.length (List.append_eq_nil_iff.mp empty).1
  rw [bigEndian_length] at none
  cases none

theorem entryImage_ne_nil (entry : DurableOutboxEntry) : entryImage entry ≠ [] := by
  intro empty
  exact id_bytes_ne_nil entry.publicationId (List.append_eq_nil_iff.mp empty).1

theorem emits_entry (entry : DurableOutboxEntry) : Emits (writeEntry entry) (entryImage entry) :=
  (emits_id _).seq ((emits_optionalCursor _).seq
    (emits_writeCounted (fun object _ => emits_vec object) fun object _ => vecImage_ne_nil object))

/-- Encoding fails only when the image does not fit. -/
theorem encodeDurableSyncRecord_ok_iff {record : DurableSyncRecord} {encoded : Bytes} :
    encodeDurableSyncRecord record = .ok encoded ↔
      (recordImage record).length < sizeLimit ∧ encoded = recordImage record :=
  ((emits_header _ _).seq ((emits_vec _).seq ((emits_optionalCursor _).seq
    (emits_writeCounted (fun entry _ => emits_entry entry) fun entry _ =>
      entryImage_ne_nil entry)))).finish_ok_iff

theorem reads_optionalCursor (cursor : Option TransportCursor) :
    Reads readOptionalCursor (cursorImage cursor) cursor := by
  cases cursor with
  | none => exact (reads_nat (show 0 < 256 ^ 1 by decide)).last (reads_pure none)
  | some cursor =>
    refine (reads_nat (show 1 < 256 ^ 1 by decide)).bind ?_
    refine (reads_vecImage cursor.1).last ?_
    have created : TransportCursor.create cursor.1 = .ok cursor := by
      rw [TransportCursor.create, dif_pos cursor.2]
    exact (reads_check created).after (reads_pure _)

theorem reads_objects {objects : List Bytes} (filled : ∀ object ∈ objects, object ≠ []) :
    Reads (readTimes readObject objects.length []) (objects.flatMap vecImage) objects := by
  have looped : Reads (readTimes readObject objects.length []) (objects.flatMap vecImage)
      (objects.foldl (fun read object => read ++ [object]) []) := by
    apply reads_times fun _ rest => ∀ object ∈ rest, object ≠ []
    · intro read object rest good
      refine ⟨(reads_vecImage object).last ?_,
        fun other member => good other (List.mem_cons_of_mem object member)⟩
      have present : object.isEmpty = false := by
        simpa using good object List.mem_cons_self
      rw [present]
      exact reads_pure _
    · exact filled
  rwa [foldl_concat, List.nil_append] at looped

theorem reads_entry {entry : DurableOutboxEntry}
    (validated : validateObjects entry.objects = .ok ()) :
    Reads readEntry (entryImage entry) entry := by
  obtain ⟨nonempty, filled⟩ := validateObjects_ok_iff.mp validated
  refine (reads_id _).bind ((reads_optionalCursor _).bind ?_)
  apply reads_counted fun object _ => vecImage_ne_nil object
  have positive : entry.objects.length ≠ 0 := by simpa using nonempty
  simp only [positive, ↓reduceIte]
  exact (reads_objects filled).last (reads_pure _)

/-- The entries still to be read have distinct identities that are not yet stored,
and objects that pass validation. -/
private def Unlisted (image : OutboxImage) (rest : List DurableOutboxEntry) : Prop :=
  rest.Pairwise (fun left right => left.publicationId ≠ right.publicationId) ∧
    ∀ entry ∈ rest, entry.publicationId ∉ image.entries ∧ validateObjects entry.objects = .ok ()

/-- The image with one more entry, where it has none under that identity. -/
private def OutboxImage.adding (image : OutboxImage) (entry : DurableOutboxEntry) : OutboxImage :=
  match image.insertEntry entry with
  | .ok next => next
  | .error _ => image

private theorem insertEntry_ok {image : OutboxImage} {entry : DurableOutboxEntry}
    (fresh : entry.publicationId ∉ image.entries)
    (validated : validateObjects entry.objects = .ok ()) :
    image.insertEntry entry = .ok (image.adding entry) ∧
      (image.adding entry).entries = image.entries.insert entry.publicationId entry := by
  have inserted : ∃ next, image.insertEntry entry = .ok next ∧
      next.entries = image.entries.insert entry.publicationId entry := by
    unfold OutboxImage.insertEntry
    split
    · rename_i failure refused
      rw [refused] at validated
      cases validated
    · rw [if_neg fresh]
      exact ⟨_, rfl, rfl⟩
  obtain ⟨next, done, entries⟩ := inserted
  rw [OutboxImage.adding, done]
  exact ⟨rfl, entries⟩

private theorem Unlisted.next {image : OutboxImage} {entry : DurableOutboxEntry}
    {rest : List DurableOutboxEntry} (unlisted : Unlisted image (entry :: rest)) :
    Unlisted (image.adding entry) rest := by
  obtain ⟨apart, restDistinct⟩ := List.pairwise_cons.mp unlisted.1
  obtain ⟨fresh, validated⟩ := unlisted.2 entry List.mem_cons_self
  refine ⟨restDistinct, ?_⟩
  intro other member
  obtain ⟨otherFresh, otherValidated⟩ := unlisted.2 other (List.mem_cons_of_mem entry member)
  refine ⟨?_, otherValidated⟩
  rw [(insertEntry_ok fresh validated).2, ExtTreeMap.mem_insert, Std.LawfulEqCmp.compare_eq_iff_eq]
  exact not_or.mpr ⟨apart other member, otherFresh⟩

private theorem entries_foldl {image : OutboxImage} {rest : List DurableOutboxEntry}
    (unlisted : Unlisted image rest) : (rest.foldl OutboxImage.adding image).entries =
      rest.foldl (fun stored entry => stored.insert entry.publicationId entry) image.entries := by
  induction rest generalizing image with
  | nil => rfl
  | cons entry rest ih =>
    obtain ⟨fresh, validated⟩ := unlisted.2 entry List.mem_cons_self
    rw [List.foldl_cons, List.foldl_cons, ih unlisted.next, (insertEntry_ok fresh validated).2]

private theorem unlisted_record (record : DurableSyncRecord) :
    Unlisted .empty (record.outbox.toList.map Prod.snd) := by
  have stored : ∀ pair ∈ record.outbox.toList, pair.2.publicationId = pair.1 ∧
      validateObjects pair.2.objects = .ok () :=
    fun pair member =>
      record.keyed pair.1 pair.2 (ExtTreeMap.mem_toList_iff_getElem?_eq_some.mp member)
  constructor
  · rw [List.pairwise_map]
    refine (toList_distinct record.outbox).imp_of_mem ?_
    intro left right leftMember rightMember different
    rw [(stored left leftMember).1, (stored right rightMember).1]
    exact different
  · intro entry listed
    obtain ⟨pair, member, rfl⟩ := List.mem_map.mp listed
    exact ⟨by simp [OutboxImage.empty], (stored pair member).2⟩

theorem reads_outbox (record : DurableSyncRecord) :
    ∃ image : OutboxImage, image.entries = record.outbox ∧
      Reads (readTimes readNextEntry (record.outbox.toList.map Prod.snd).length .empty)
        ((record.outbox.toList.map Prod.snd).flatMap entryImage) image := by
  refine ⟨(record.outbox.toList.map Prod.snd).foldl OutboxImage.adding .empty, ?_, ?_⟩
  · rw [entries_foldl (unlisted_record record), List.foldl_map]
    have keyed : ∀ (pairs : List (PublicationId × DurableOutboxEntry))
        (stored : ExtTreeMap PublicationId DurableOutboxEntry),
        (∀ pair ∈ pairs, pair.2.publicationId = pair.1) →
        pairs.foldl (fun stored pair => stored.insert pair.2.publicationId pair.2) stored =
          pairs.foldl (fun stored pair => stored.insert pair.1 pair.2) stored := by
      intro pairs stored named
      apply List.foldl_ext
      intro kept pair member
      rw [named pair member]
    rw [keyed]
    · exact foldl_insert_toList record.outbox
    · intro pair member
      exact (record.keyed pair.1 pair.2 (ExtTreeMap.mem_toList_iff_getElem?_eq_some.mp member)).1
  · apply reads_times Unlisted ?_ (unlisted_record record)
    intro image entry rest unlisted
    obtain ⟨fresh, validated⟩ := unlisted.2 entry List.mem_cons_self
    exact ⟨(reads_entry validated).last (reads_check (insertEntry_ok fresh validated).1),
      unlisted.next⟩

/-- Reading a record from its own image, behind the magic, gives the record back. -/
theorem reads_record (record : DurableSyncRecord) :
    Reads readRecord ((recordImage record).drop RecordCodec.magic.length) record := by
  have loop : ∃ image : OutboxImage, image.entries = record.outbox ∧
      Reads (readTimes readNextEntry (record.outbox.toList.map Prod.snd).length .empty)
        ((record.outbox.toList.map Prod.snd).flatMap entryImage) image := reads_outbox record
  obtain ⟨image, same, looped⟩ := loop
  rw [recordImage, List.append_assoc, List.drop_left' rfl]
  refine (reads_nat (by decide)).bind ?_
  rw [if_neg (by simp)]
  refine (reads_vecImage _).bind ((reads_optionalCursor _).bind ?_)
  apply reads_counted fun entry _ => entryImage_ne_nil entry
  have rebuilt :
    (⟨record.trustedState, record.appliedCursor, image.entries, image.keyed⟩ : DurableSyncRecord) =
      record := DurableSyncRecord.ext_fields rfl rfl fun id => congrArg (·[id]?) same
  exact looped.last (rebuilt ▸ reads_pure _)

theorem decodeDurableSyncRecord_encode {record : DurableSyncRecord} {encoded : Bytes}
    (done : encodeDurableSyncRecord record = .ok encoded) :
    decodeDurableSyncRecord encoded = .ok record := by
  obtain ⟨fits, rfl⟩ := encodeDurableSyncRecord_ok_iff.mp done
  have read := reads_record record
  rw [recordImage, List.append_assoc] at fits ⊢
  rw [recordImage, List.append_assoc, List.drop_left' rfl] at read
  rw [List.length_append] at fits
  rw [decodeDurableSyncRecord_body (by rw [List.length_append, bigEndian_length]; omega)]
  exact read.complete _ (by omega)

end PrivateContinuum.Sync
