import PrivateContinuum.Sync.ScalarFraming

/-! The projection encoding `APCSYNC1`. -/

namespace PrivateContinuum.Sync

open Std (ExtTreeMap)
open PrivateContinuum.Library PrivateContinuum.Core

namespace Codec

/-- `b"APCSYNC1"` -/
def magic : Bytes := [65, 80, 67, 83, 89, 78, 67, 49]

def version : Nat := 1

end Codec

inductive SyncCodecError where
  | invalidMagic
  | unsupportedVersion (version : Nat)
  | unexpectedEof
  | lengthOverflow
  | trailingBytes
  | duplicateDomain
  | duplicateRevisionInSet
  | projection (failure : ProjectionError)
  | core (failure : CoreError)
deriving DecidableEq

instance : ScalarFailure SyncCodecError where
  unexpectedEof := .unexpectedEof
  lengthOverflow := .lengthOverflow
  duplicateRevisionInSet := .duplicateRevisionInSet
  core := .core

/-- One domain: the register is validated before its key is written. -/
def writeProjected (entry : DomainKey × ScalarRegister Bytes) : Emitter SyncCodecError Unit := do
  liftM (entry.2.validate.mapError SyncCodecError.core)
  writeId entry.1.atomId
  writeBytes entry.1.domain
  writeRevisions entry.2

def encodeScalarProjection (projection : ScalarSyncProjection) : Except SyncCodecError Bytes :=
  Emitter.finish do
    writeHeader Codec.magic Codec.version
    writeCounted projection.domains.toList writeProjected

/-- Loop body of the decoder. -/
def readProjected (domains : ExtTreeMap DomainKey (ScalarRegister Bytes)) :
    Parser SyncCodecError (ExtTreeMap DomainKey (ScalarRegister Bytes)) := do
  let atomId ← readId
  let domain ← readVec
  let key ← liftM ((DomainKey.create atomId domain).mapError SyncCodecError.projection)
  let register ← readRegister
  if key ∈ domains then throw SyncCodecError.duplicateDomain else pure (domains.insert key register)

def readProjection : Parser SyncCodecError ScalarSyncProjection := do
  readHeader Codec.magic Codec.version .invalidMagic .unsupportedVersion
  let count ← readLen
  let domains ← readTimes readProjected count ∅
  pure ⟨domains⟩

def decodeScalarProjection (encoded : Bytes) : Except SyncCodecError ScalarSyncProjection :=
  readProjection.complete .trailingBytes encoded

def projectedImage (entry : DomainKey × ScalarRegister Bytes) : Bytes :=
  entry.1.atomId.bytes ++ (vecImage entry.1.domain ++ registerImage entry.2)

def projectionImage (projection : ScalarSyncProjection) : Bytes :=
  (Codec.magic ++ bigEndian 2 Codec.version) ++
    (bigEndian 8 projection.domains.toList.length ++
      projection.domains.toList.flatMap projectedImage)

theorem projectedImage_ne_nil (entry : DomainKey × ScalarRegister Bytes) :
    projectedImage entry ≠ [] := by
  intro empty
  exact id_bytes_ne_nil entry.1.atomId (List.append_eq_nil_iff.mp empty).1

namespace ScalarSyncProjection

variable {projection : ScalarSyncProjection}

/-- Every key of the projection names a domain, as decoded keys do. -/
def KeysNamed (projection : ScalarSyncProjection) : Prop :=
  ∀ key register, projection.get key = some register → key.domain ≠ []

theorem get_of_mem {entry : DomainKey × ScalarRegister Bytes}
    (member : entry ∈ projection.domains.toList) :
    projection.get entry.1 = some entry.2 :=
  ExtTreeMap.mem_toList_iff_getElem?_eq_some.mp member

/-- Every register of the projection is valid and every key names a domain. -/
structure Sound (projection : ScalarSyncProjection) : Prop where
  valid : projection.AllValid
  named : projection.KeysNamed

end ScalarSyncProjection

theorem emits_projected {entry : DomainKey × ScalarRegister Bytes} (valid : entry.2.Valid) :
    Emits (writeProjected entry) (projectedImage entry) := by
  have passes : entry.2.validate.mapError SyncCodecError.core = .ok () := mapError_ok_iff.mpr valid
  exact Emits.checked passes
    ((emits_id entry.1.atomId).seq ((emits_vec entry.1.domain).seq (emits_revisions entry.2)))

/-- Encoding valid registers fails only when the image does not fit. -/
theorem encodeScalarProjection_ok_iff {projection : ScalarSyncProjection} {encoded : Bytes}
    (valid : projection.AllValid) : encodeScalarProjection projection = .ok encoded ↔
      (projectionImage projection).length < sizeLimit ∧ encoded = projectionImage projection :=
  ((emits_header _ _).seq (emits_writeCounted
    (fun entry member =>
      emits_projected (valid entry.1 entry.2 (ScalarSyncProjection.get_of_mem member)))
    fun entry _ => projectedImage_ne_nil entry)).finish_ok_iff

theorem reads_projected {domains : ExtTreeMap DomainKey (ScalarRegister Bytes)}
    {entry : DomainKey × ScalarRegister Bytes} (fresh : entry.1 ∉ domains)
    (named : entry.1.domain ≠ []) (valid : entry.2.Valid) :
    Reads (readProjected domains) (projectedImage entry) (domains.insert entry.1 entry.2) := by
  refine (reads_id entry.1.atomId).bind ((reads_vecImage entry.1.domain).bind ?_)
  refine (reads_check (mapError_ok_iff.mpr (DomainKey.create_ok named))).after ?_
  refine (reads_register valid).last ?_
  rw [if_neg fresh]
  exact reads_pure _

/-- The domains still to be read are distinct, absent so far, named and valid. -/
private def Unprojected (domains : ExtTreeMap DomainKey (ScalarRegister Bytes))
    (rest : List (DomainKey × ScalarRegister Bytes)) : Prop :=
  rest.Pairwise (fun left right => left.1 ≠ right.1) ∧
    ∀ entry ∈ rest, entry.1 ∉ domains ∧ entry.1.domain ≠ [] ∧ entry.2.Valid

theorem reads_projection {projection : ScalarSyncProjection} (sound : projection.Sound) :
    Reads readProjection (projectionImage projection) projection := by
  have looped : Reads (readTimes readProjected projection.domains.toList.length ∅)
      (projection.domains.toList.flatMap projectedImage)
      (projection.domains.toList.foldl (fun stored entry => stored.insert entry.1 entry.2) ∅) := by
    apply reads_times Unprojected
    · intro domains entry rest unread
      obtain ⟨apart, restDistinct⟩ := List.pairwise_cons.mp unread.1
      obtain ⟨fresh, named, valid⟩ := unread.2 entry List.mem_cons_self
      refine ⟨reads_projected fresh named valid, restDistinct, ?_⟩
      intro other member
      obtain ⟨otherFresh, others⟩ := unread.2 other (List.mem_cons_of_mem entry member)
      refine ⟨?_, others⟩
      rw [ExtTreeMap.mem_insert, Std.LawfulEqCmp.compare_eq_iff_eq]
      exact not_or.mpr ⟨apart other member, otherFresh⟩
    · refine ⟨toList_distinct projection.domains, ?_⟩
      intro entry member
      have found := ScalarSyncProjection.get_of_mem member
      exact ⟨by simp, sound.named entry.1 entry.2 found, sound.valid entry.1 entry.2 found⟩
  rw [foldl_insert_toList] at looped
  refine (reads_header _ (by decide) _ _).bind ?_
  apply reads_counted (fun entry _ => projectedImage_ne_nil entry)
  exact looped.last (reads_pure _)

theorem decodeScalarProjection_encode {projection : ScalarSyncProjection} {encoded : Bytes}
    (sound : projection.Sound) (done : encodeScalarProjection projection = .ok encoded) :
    decodeScalarProjection encoded = .ok projection := by
  obtain ⟨fits, rfl⟩ := (encodeScalarProjection_ok_iff sound.valid).mp done
  exact (reads_projection sound).complete _ fits

private theorem readProjected_sound {domains next : ExtTreeMap DomainKey (ScalarRegister Bytes)}
    {reader rest : Reader} (sound : ScalarSyncProjection.Sound ⟨domains⟩)
    (done : readProjected domains reader = .ok (next, rest)) :
    ScalarSyncProjection.Sound ⟨next⟩ := by
  simp only [readProjected, parser_bind_ok_iff, parser_check_ok_iff, mapError_ok_iff] at done
  obtain ⟨_, _, _, _, _, _, key, _, ⟨created, _⟩, register, _, registered, placed⟩ := done
  split at placed
  · cases placed
  · obtain ⟨rfl, _⟩ := parser_pure_ok_iff.mp placed
    have stored : ∀ other found, (domains.insert key register)[other]? = some found →
        (key = other ∧ register = found) ∨ domains[other]? = some found := by
      intro other found lookup
      rw [ExtTreeMap.getElem?_insert] at lookup
      split at lookup
      · rename_i here
        exact Or.inl ⟨Std.LawfulEqCmp.eq_of_compare here, Option.some.inj lookup⟩
      · exact Or.inr lookup
    constructor
    · intro other found lookup
      rcases stored other found lookup with ⟨_, rfl⟩ | old
      · exact readRegister_valid registered
      · exact sound.valid other found old
    · intro other found lookup
      rcases stored other found lookup with ⟨rfl, _⟩ | old
      · exact DomainKey.create_nonempty created
      · exact sound.named other found old

theorem decodeScalarProjection_sound {encoded : Bytes} {projection : ScalarSyncProjection}
    (done : decodeScalarProjection encoded = .ok projection) : projection.Sound := by
  obtain ⟨rest, ran, _⟩ := Parser.complete_ok done
  simp only [readProjection, parser_bind_ok_iff, parser_pure_ok_iff] at ran
  obtain ⟨_, _, _, _, _, _, domains, _, looped, rfl, _⟩ := ran
  apply readTimes_invariant (fun domains => ScalarSyncProjection.Sound ⟨domains⟩) ?_ ?_ looped
  · intro current next before after sound stepped
    exact readProjected_sound sound stepped
  · constructor
    · intro key register found
      simp [SyncProjection.get] at found
    · intro key register found
      simp [SyncProjection.get] at found

end PrivateContinuum.Sync
