import PrivateContinuum.Runtime.TrustedState

namespace PrivateContinuum.Runtime

open Std (ExtTreeSet ExtTreeMap)
open PrivateContinuum.Library PrivateContinuum.Core PrivateContinuum.Sync

/-- Snapshots by domain key. The map is private to the source type and every
constructor validates what it stores. -/
structure LocalScalarRecoveryState where
  domains : ExtTreeMap DomainKey (LocalScalarSnapshot Bytes)
  restores : ∀ (key : DomainKey) (snapshot : LocalScalarSnapshot Bytes),
    domains[key]? = some snapshot → ∃ domain, LocalScalarDomain.restore snapshot = .ok domain

inductive LocalScalarRecoveryStateError where
  | duplicateDomain
  | core (failure : CoreError)
deriving DecidableEq

namespace LocalScalarRecoveryState

instance : DecidableEq LocalScalarRecoveryState := fun left right =>
  decidable_of_iff (left.domains = right.domains)
    ⟨fun same => by cases left; cases right; cases same; rfl, fun same => by rw [same]⟩

def empty : LocalScalarRecoveryState := ⟨∅, by simp⟩

def get (recovery : LocalScalarRecoveryState) (key : DomainKey) :
    Option (LocalScalarSnapshot Bytes) :=
  recovery.domains[key]?

theorem ext_get {left right : LocalScalarRecoveryState}
    (same : ∀ key, left.get key = right.get key) : left = right := by
  have maps : left.domains = right.domains := ExtTreeMap.ext_getElem? same
  cases left
  cases right
  cases maps
  rfl

/-- Stores a snapshot that restores. -/
def put (recovery : LocalScalarRecoveryState) (key : DomainKey)
    (snapshot : LocalScalarSnapshot Bytes)
    (valid : ∃ domain, LocalScalarDomain.restore snapshot = .ok domain) :
    LocalScalarRecoveryState where
  domains := recovery.domains.insert key snapshot
  restores := by
    intro other stored found
    rw [ExtTreeMap.getElem?_insert] at found
    split at found
    · cases found
      exact valid
    · exact recovery.restores other stored found

theorem get_put {recovery : LocalScalarRecoveryState} {key : DomainKey}
    {snapshot : LocalScalarSnapshot Bytes}
    {valid : ∃ domain, LocalScalarDomain.restore snapshot = .ok domain} (other : DomainKey) :
    (recovery.put key snapshot valid).get other = if key = other then some snapshot
      else recovery.get other := by
  simp [get, put, ExtTreeMap.getElem?_insert]

/-- The value of a computation with the proof that it is that value. -/
def attach {Failure Value : Type} : (outcome : Except Failure Value) →
    Except Failure { value // outcome = .ok value }
  | .ok value => .ok ⟨value, rfl⟩
  | .error failure => .error failure

def replaceDomain (recovery : LocalScalarRecoveryState) (key : DomainKey)
    (snapshot : LocalScalarSnapshot Bytes) :
    Except LocalScalarRecoveryStateError LocalScalarRecoveryState := do
  let restored ← (attach (LocalScalarDomain.restore snapshot)).mapError
    LocalScalarRecoveryStateError.core
  pure (recovery.put key snapshot ⟨restored.1, restored.2⟩)

/-- Every snapshot is validated, in key order. -/
def fromDomains (domains : ExtTreeMap DomainKey (LocalScalarSnapshot Bytes)) :
    Except LocalScalarRecoveryStateError LocalScalarRecoveryState := do
  let checked ← attach (forM domains.toList fun entry =>
    ((LocalScalarDomain.restore entry.2).mapError LocalScalarRecoveryStateError.core).map fun _ =>
    ())
  pure ⟨domains, by
    intro key snapshot found
    have restored := forM_ok_iff.mp checked.2 (key, snapshot)
      (ExtTreeMap.mem_toList_iff_getElem?_eq_some.mpr found)
    cases outcome : LocalScalarDomain.restore snapshot with
    | ok domain => exact ⟨domain, rfl⟩
    | error failure =>
      rw [outcome] at restored
      cases restored⟩

def insertNew (recovery : LocalScalarRecoveryState) (key : DomainKey)
    (snapshot : LocalScalarSnapshot Bytes) :
    Except LocalScalarRecoveryStateError LocalScalarRecoveryState :=
  if key ∈ recovery.domains then .error .duplicateDomain else recovery.replaceDomain key snapshot

def restoreDomain (recovery : LocalScalarRecoveryState) (key : DomainKey) :
    Except CoreError (Option (LocalScalarDomain Bytes)) :=
  match recovery.get key with
  | none => .ok none
  | some snapshot => (LocalScalarDomain.restore snapshot).map some

end LocalScalarRecoveryState

namespace TrustedStateSet

/-- `b"APCLSET1"` -/
def magic : Bytes := [65, 80, 67, 76, 83, 69, 84, 49]

def version : Nat := 1

end TrustedStateSet

inductive MultiScalarTrustedStateCodecError where
  | invalidMagic
  | unsupportedVersion (version : Nat)
  | unexpectedEof
  | lengthOverflow
  | trailingBytes
  | duplicateDomain
  | domain (failure : ProjectionError)
  | scalar (failure : TrustedStateCodecError)
deriving DecidableEq

instance : FramingFailure MultiScalarTrustedStateCodecError where
  unexpectedEof := .unexpectedEof
  lengthOverflow := .lengthOverflow

abbrev SetEmitter := Emitter MultiScalarTrustedStateCodecError Unit

abbrev SetParser := Parser MultiScalarTrustedStateCodecError

/-- One domain: its key and the nested scalar bytes. -/
def writeDomain (entry : DomainKey × LocalScalarSnapshot Bytes) : SetEmitter := do
  writeId entry.1.atomId
  writeBytes entry.1.domain
  let scalar ← liftM
    ((encodeLocalScalarSnapshot entry.2).mapError MultiScalarTrustedStateCodecError.scalar)
  writeBytes scalar

def encodeMultiScalarRecoveryState (recovery : LocalScalarRecoveryState) :
    Except MultiScalarTrustedStateCodecError Bytes :=
  Emitter.finish do
    writeHeader TrustedStateSet.magic TrustedStateSet.version
    writeCounted recovery.domains.toList writeDomain

/-- Loop body of the decoder. The nested decoder has validated the snapshot. -/
def readDomain (recovery : LocalScalarRecoveryState) : SetParser LocalScalarRecoveryState := do
  let atomId ← readId
  let domain ← readVec
  let key ← liftM
    ((DomainKey.create atomId domain).mapError MultiScalarTrustedStateCodecError.domain)
  let scalarBytes ← readVec
  let snapshot ← liftM
    ((LocalScalarRecoveryState.attach (decodeLocalScalarSnapshot scalarBytes)).mapError
    MultiScalarTrustedStateCodecError.scalar)
  if key ∈ recovery.domains then throw MultiScalarTrustedStateCodecError.duplicateDomain
  else pure (recovery.put key snapshot.1 (decodeLocalScalarSnapshot_restores snapshot.2))

def readRecoveryState : SetParser LocalScalarRecoveryState := do
  readHeader TrustedStateSet.magic TrustedStateSet.version .invalidMagic .unsupportedVersion
  let count ← readLen
  readTimes readDomain count .empty

def decodeMultiScalarRecoveryState (encoded : Bytes) :
    Except MultiScalarTrustedStateCodecError LocalScalarRecoveryState :=
  readRecoveryState.complete .trailingBytes encoded

def domainImage (entry : DomainKey × LocalScalarSnapshot Bytes) : Bytes :=
  entry.1.atomId.bytes ++ (vecImage entry.1.domain ++ vecImage (snapshotImage entry.2))

def recoveryImage (recovery : LocalScalarRecoveryState) : Bytes :=
  (TrustedStateSet.magic ++ bigEndian 2 TrustedStateSet.version) ++
    (bigEndian 8 recovery.domains.toList.length ++ recovery.domains.toList.flatMap domainImage)

theorem domainImage_ne_nil (entry : DomainKey × LocalScalarSnapshot Bytes) :
    domainImage entry ≠ [] := by
  intro empty
  exact id_bytes_ne_nil entry.1.atomId (List.append_eq_nil_iff.mp empty).1

theorem emits_domain {entry : DomainKey × LocalScalarSnapshot Bytes}
    (restores : ∃ domain, LocalScalarDomain.restore entry.2 = .ok domain) :
    Emits (writeDomain entry) (domainImage entry) := by
  refine (emits_id entry.1.atomId).seq ((emits_vec entry.1.domain).seq ?_)
  by_cases fits : (snapshotImage entry.2).length < sizeLimit
  · have encoded := encodeLocalScalarSnapshot_ok_iff.mpr ⟨restores, fits, rfl⟩
    exact Emits.checked (mapError_ok_iff.mpr encoded) (emits_vec (snapshotImage entry.2))
  · apply emits_overflow
    · intro out result
      cases encoded : encodeLocalScalarSnapshot entry.2 with
      | ok bytes => exact absurd (encodeLocalScalarSnapshot_ok_iff.mp encoded).2.1 fits
      | error failure =>
        intro impossible
        cases impossible
    · simp only [vecImage, List.length_append]
      omega

theorem restores_of_mem {recovery : LocalScalarRecoveryState}
    {entry : DomainKey × LocalScalarSnapshot Bytes} (member : entry ∈ recovery.domains.toList) :
    ∃ domain, LocalScalarDomain.restore entry.2 = .ok domain :=
  recovery.restores entry.1 entry.2 (ExtTreeMap.mem_toList_iff_getElem?_eq_some.mp member)

/-- Encoding a container fails only when its image does not fit. -/
theorem encodeMultiScalarRecoveryState_ok_iff {recovery : LocalScalarRecoveryState}
    {encoded : Bytes} :
    encodeMultiScalarRecoveryState recovery = .ok encoded ↔
      (recoveryImage recovery).length < sizeLimit ∧ encoded = recoveryImage recovery :=
  ((emits_header _ _).seq
    (emits_writeCounted (fun _ member => emits_domain (restores_of_mem member))
    fun entry _ => domainImage_ne_nil entry)).finish_ok_iff

/-- Every key of the container names a domain, as decoded keys do. -/
def LocalScalarRecoveryState.KeysNamed (recovery : LocalScalarRecoveryState) : Prop :=
  ∀ key snapshot, recovery.get key = some snapshot → key.domain ≠ []

/-- The domains still to be read are distinct, absent so far, named and restorable. -/
private def Unplaced (recovery : LocalScalarRecoveryState)
    (rest : List (DomainKey × LocalScalarSnapshot Bytes)) : Prop :=
  rest.Pairwise (fun left right => left.1 ≠ right.1) ∧
    ∀ entry ∈ rest, entry.1 ∉ recovery.domains ∧ entry.1.domain ≠ [] ∧
      ∃ domain, LocalScalarDomain.restore entry.2 = .ok domain

/-- Stores one read entry; an entry that does not restore is never read. -/
private def storeEntry (recovery : LocalScalarRecoveryState)
    (entry : DomainKey × LocalScalarSnapshot Bytes) : LocalScalarRecoveryState :=
  match restored : LocalScalarDomain.restore entry.2 with
  | .ok domain => recovery.put entry.1 entry.2 ⟨domain, restored⟩
  | .error _ => recovery

private theorem storeEntry_eq (recovery : LocalScalarRecoveryState)
    {entry : DomainKey × LocalScalarSnapshot Bytes}
    (restores : ∃ domain, LocalScalarDomain.restore entry.2 = .ok domain) :
    storeEntry recovery entry = recovery.put entry.1 entry.2 restores := by
  obtain ⟨domain, restored⟩ := restores
  unfold storeEntry
  split
  · rfl
  · rename_i failed
    rw [restored] at failed
    cases failed

private theorem foldl_storeEntry {entries : List (DomainKey × LocalScalarSnapshot Bytes)}
    (restores : ∀ entry ∈ entries, ∃ domain, LocalScalarDomain.restore entry.2 = .ok domain)
    (start : LocalScalarRecoveryState) : (entries.foldl storeEntry start).domains =
      entries.foldl (fun stored entry => stored.insert entry.1 entry.2) start.domains := by
  induction entries generalizing start with
  | nil => rfl
  | cons entry rest ih =>
    have first := restores entry List.mem_cons_self
    rw [List.foldl_cons, List.foldl_cons,
      ih (fun other member => restores other (List.mem_cons_of_mem entry member)),
      storeEntry_eq start first]
    rfl

theorem attach_ok {Failure Value : Type} {outcome : Except Failure Value} {value : Value}
    (done : outcome = .ok value) :
    LocalScalarRecoveryState.attach outcome = .ok ⟨value, done⟩ := by
  subst done
  rfl

private theorem reads_domain {recovery : LocalScalarRecoveryState}
    {entry : DomainKey × LocalScalarSnapshot Bytes} (fresh : entry.1 ∉ recovery.domains)
    (named : entry.1.domain ≠ [])
    (restores : ∃ domain, LocalScalarDomain.restore entry.2 = .ok domain) :
    Reads (readDomain recovery) (domainImage entry) (storeEntry recovery entry) := by
  apply Reads.ofFits
  intro fits
  simp only [domainImage, vecImage, List.length_append] at fits
  have encoded := encodeLocalScalarSnapshot_ok_iff.mpr ⟨restores, (by omega), rfl⟩
  have decoded := decodeLocalScalarSnapshot_encode encoded
  rw [storeEntry_eq recovery restores]
  refine (reads_id entry.1.atomId).bind ((reads_vecImage entry.1.domain).bind ?_)
  refine (reads_check (mapError_ok_iff.mpr (DomainKey.create_ok named))).after ?_
  refine (reads_vecImage (snapshotImage entry.2)).last ?_
  refine (reads_check (mapError_ok_iff.mpr (attach_ok decoded))).last ?_
  rw [if_neg fresh]
  exact reads_pure _

theorem decodeMultiScalarRecoveryState_encode {recovery : LocalScalarRecoveryState}
    {encoded : Bytes} (named : recovery.KeysNamed)
    (done : encodeMultiScalarRecoveryState recovery = .ok encoded) :
    decodeMultiScalarRecoveryState encoded = .ok recovery := by
  obtain ⟨fits, rfl⟩ := encodeMultiScalarRecoveryState_ok_iff.mp done
  have looped : Reads (readTimes readDomain recovery.domains.toList.length .empty)
      (recovery.domains.toList.flatMap domainImage)
        (recovery.domains.toList.foldl storeEntry .empty) := by
    apply reads_times Unplaced
    · intro current entry rest unplaced
      obtain ⟨apart, restDistinct⟩ := List.pairwise_cons.mp unplaced.1
      obtain ⟨fresh, entryNamed, restores⟩ := unplaced.2 entry List.mem_cons_self
      refine ⟨reads_domain fresh entryNamed restores, restDistinct, ?_⟩
      intro other member
      obtain ⟨otherFresh, others⟩ := unplaced.2 other (List.mem_cons_of_mem entry member)
      refine ⟨?_, others⟩
      rw [storeEntry_eq current restores]
      change other.1 ∉ current.domains.insert entry.1 entry.2
      rw [ExtTreeMap.mem_insert, Std.LawfulEqCmp.compare_eq_iff_eq]
      exact not_or.mpr ⟨apart other member, otherFresh⟩
    · refine ⟨toList_distinct recovery.domains, ?_⟩
      intro entry member
      have found := ExtTreeMap.mem_toList_iff_getElem?_eq_some.mp member
      exact ⟨by simp [LocalScalarRecoveryState.empty], named entry.1 entry.2 found,
        restores_of_mem member⟩
  have rebuilt : recovery.domains.toList.foldl storeEntry .empty = recovery := by
    apply LocalScalarRecoveryState.ext_get
    intro key
    change (recovery.domains.toList.foldl storeEntry .empty).domains[key]? = recovery.domains[key]?
    rw [foldl_storeEntry (fun entry member => restores_of_mem member)]
    exact congrArg (·[key]?) (foldl_insert_toList recovery.domains)
  rw [rebuilt] at looped
  exact ((reads_header _ (by decide) _ _).bind
    (reads_counted (fun entry _ => domainImage_ne_nil entry) looped)).complete _ fits

private theorem readDomain_named {recovery next : LocalScalarRecoveryState} {reader rest : Reader}
    (named : recovery.KeysNamed) (done : readDomain recovery reader = .ok (next, rest)) :
    next.KeysNamed := by
  simp only [readDomain, parser_bind_ok_iff, parser_check_ok_iff, mapError_ok_iff] at done
  obtain ⟨_, _, _, _, _, _, key, _, ⟨created, _⟩, _, _, _, snapshot, _, _, placed⟩ := done
  split at placed
  · cases placed
  · obtain ⟨same, _⟩ := parser_pure_ok_iff.mp placed
    subst same
    intro other stored found
    rw [LocalScalarRecoveryState.get_put] at found
    split at found
    · rename_i here
      exact here ▸ DomainKey.create_nonempty created
    · exact named other stored found

theorem decodeMultiScalarRecoveryState_named {encoded : Bytes} {recovery : LocalScalarRecoveryState}
    (done : decodeMultiScalarRecoveryState encoded = .ok recovery) : recovery.KeysNamed := by
  obtain ⟨rest, ran, _⟩ := Parser.complete_ok done
  simp only [readRecoveryState, parser_bind_ok_iff] at ran
  obtain ⟨_, _, _, _, _, _, looped⟩ := ran
  apply readTimes_invariant LocalScalarRecoveryState.KeysNamed ?_ ?_ looped
  · intro current next before after named stepped
    exact readDomain_named named stepped
  · intro key snapshot found
    simp [LocalScalarRecoveryState.get, LocalScalarRecoveryState.empty] at found

namespace LocalScalarRecoveryState

variable {recovery next : LocalScalarRecoveryState} {key : DomainKey}
  {snapshot : LocalScalarSnapshot Bytes}

/-- The containers that the constructors build over keys from `DomainKey::new`. -/
inductive Built : LocalScalarRecoveryState → Prop
  | fromDomains {domains : ExtTreeMap DomainKey (LocalScalarSnapshot Bytes)}
      {recovery : LocalScalarRecoveryState}
      (created : ∀ key ∈ domains, DomainKey.create key.atomId key.domain = .ok key)
      (done : fromDomains domains = .ok recovery) : Built recovery
  | insertNew {recovery next : LocalScalarRecoveryState} {key : DomainKey}
      {snapshot : LocalScalarSnapshot Bytes}
      (before : Built recovery) (created : DomainKey.create key.atomId key.domain = .ok key)
      (done : recovery.insertNew key snapshot = .ok next) : Built next
  | replaceDomain {recovery next : LocalScalarRecoveryState} {key : DomainKey}
      {snapshot : LocalScalarSnapshot Bytes} (before : Built recovery)
      (created : DomainKey.create key.atomId key.domain = .ok key)
      (done : recovery.replaceDomain key snapshot = .ok next) : Built next
  | decoded {encoded : Bytes} {recovery : LocalScalarRecoveryState}
      (done : decodeMultiScalarRecoveryState encoded = .ok recovery) : Built recovery

theorem fromDomains_ok {domains : ExtTreeMap DomainKey (LocalScalarSnapshot Bytes)}
    (done : fromDomains domains = .ok recovery) : recovery.domains = domains := by
  simp only [fromDomains, bind_ok_iff, pure_eq_ok, Except.ok.injEq] at done
  obtain ⟨_, _, rfl⟩ := done
  rfl

theorem replaceDomain_ok_iff : recovery.replaceDomain key snapshot = .ok next ↔
    (∃ domain, LocalScalarDomain.restore snapshot = .ok domain) ∧
      next.domains = recovery.domains.insert key snapshot := by
  simp only [replaceDomain, bind_ok_iff, mapError_ok_iff, pure_eq_ok, Except.ok.injEq]
  constructor
  · intro done
    obtain ⟨restored, _, rfl⟩ := done
    exact ⟨⟨restored.1, restored.2⟩, rfl⟩
  · intro done
    obtain ⟨⟨domain, restored⟩, stored⟩ := done
    refine ⟨⟨domain, restored⟩, attach_ok restored, ?_⟩
    cases next
    cases stored
    rfl

theorem insertNew_ok_iff : recovery.insertNew key snapshot = .ok next ↔
    key ∉ recovery.domains ∧ (∃ domain, LocalScalarDomain.restore snapshot = .ok domain) ∧
      next.domains = recovery.domains.insert key snapshot := by
  unfold insertNew
  split
  · rename_i present
    simp [present]
  · rename_i absent
    rw [replaceDomain_ok_iff]
    simp [absent]

theorem keysNamed_of_insert (named : recovery.KeysNamed)
    (created : DomainKey.create key.atomId key.domain = .ok key)
    (stored : next.domains = recovery.domains.insert key snapshot) : next.KeysNamed := by
  intro other found looked
  rw [get, stored, ExtTreeMap.getElem?_insert] at looked
  split at looked
  · rename_i same
    rw [← Std.LawfulEqCmp.eq_of_compare same]
    exact DomainKey.create_nonempty created
  · exact named other found looked

theorem Built.keysNamed (built : Built recovery) : recovery.KeysNamed := by
  induction built with
  | fromDomains created done =>
    intro key snapshot found
    rw [get, fromDomains_ok done] at found
    exact DomainKey.create_nonempty (created key (map_mem_iff.mpr ⟨snapshot, found⟩))
  | insertNew _ created done named =>
    exact keysNamed_of_insert named created (insertNew_ok_iff.mp done).2.2
  | replaceDomain _ created done named =>
    exact keysNamed_of_insert named created (replaceDomain_ok_iff.mp done).2
  | decoded done => exact decodeMultiScalarRecoveryState_named done

/-- One call of `insert_new` of a list of calls. -/
def insertEntry (recovery : LocalScalarRecoveryState)
    (entry : DomainKey × LocalScalarSnapshot Bytes) :
    Except LocalScalarRecoveryStateError LocalScalarRecoveryState :=
  recovery.insertNew entry.1 entry.2

theorem insertEntry_twice {one two : DomainKey × LocalScalarSnapshot Bytes}
    {last : LocalScalarRecoveryState}
    (done : (recovery.insertEntry one >>= fun next => next.insertEntry two) = .ok last) :
    (recovery.insertEntry two >>= fun next => next.insertEntry one) = .ok last := by
  simp only [bind_ok_iff, insertEntry, insertNew_ok_iff] at done ⊢
  obtain ⟨next, ⟨oneAbsent, oneRestores, oneStored⟩, twoAbsent, twoRestores, twoStored⟩ := done
  rw [oneStored, ExtTreeMap.mem_insert, Std.LawfulEqCmp.compare_eq_iff_eq, not_or] at twoAbsent
  refine ⟨recovery.put two.1 two.2 twoRestores, ⟨twoAbsent.2, twoRestores, rfl⟩,
    ?_, oneRestores, ?_⟩
  · change one.1 ∉ recovery.domains.insert two.1 two.2
    rw [ExtTreeMap.mem_insert, Std.LawfulEqCmp.compare_eq_iff_eq, not_or]
    exact ⟨fun same => twoAbsent.1 same.symm, oneAbsent⟩
  · rw [twoStored, oneStored]
    change _ = (recovery.domains.insert two.1 two.2).insert one.1 one.2
    apply ExtTreeMap.ext_getElem?
    intro key
    simp only [ExtTreeMap.getElem?_insert, Std.LawfulEqCmp.compare_eq_iff_eq]
    by_cases first : one.1 = key
    · have apart : two.1 ≠ key := fun same => twoAbsent.1 (first.trans same.symm)
      simp [first, apart]
    · simp [first]

/-- New domains arrive in any order. -/
theorem insertEntry_perm {entries others : List (DomainKey × LocalScalarSnapshot Bytes)}
    (permuted : entries.Perm others) (start : LocalScalarRecoveryState) :
    SameResult (entries.foldlM insertEntry start) (others.foldlM insertEntry start) :=
  @foldlM_perm _ _ _ insertEntry _ _
    (fun _ _ _ => sameResult_iff.mpr fun _ => ⟨insertEntry_twice, insertEntry_twice⟩) permuted start

end LocalScalarRecoveryState

/-- Both recovery codecs are faithful on what the code can hold: snapshots encode
exactly when they restore, containers always do, and decoding gives back what was
encoded. The image of what fits in memory fits in the address space. -/
theorem recovery_codecs_faithful :
    (∀ snapshot : LocalScalarSnapshot Bytes, (snapshotImage snapshot).length < sizeLimit →
      ((∃ encoded, encodeLocalScalarSnapshot snapshot = .ok encoded) ↔
        ∃ domain, LocalScalarDomain.restore snapshot = .ok domain)) ∧
    (∀ snapshot encoded, encodeLocalScalarSnapshot snapshot = .ok encoded →
      decodeLocalScalarSnapshot encoded = .ok snapshot) ∧
    (∀ encoded snapshot, decodeLocalScalarSnapshot encoded = .ok snapshot →
      ∃ domain, LocalScalarDomain.restore snapshot = .ok domain) ∧
    (∀ one two encoded, encodeLocalScalarSnapshot one = .ok encoded →
      encodeLocalScalarSnapshot two = .ok encoded → one = two) ∧
    (∀ recovery : LocalScalarRecoveryState, recovery.Built →
      (recoveryImage recovery).length < sizeLimit →
      ∃ encoded, encodeMultiScalarRecoveryState recovery = .ok encoded ∧
        decodeMultiScalarRecoveryState encoded = .ok recovery) ∧
    ∀ (start left : LocalScalarRecoveryState)
      (entries others : List (DomainKey × LocalScalarSnapshot Bytes)),
      entries.Perm others → entries.foldlM LocalScalarRecoveryState.insertEntry start = .ok left →
        ∃ right, others.foldlM LocalScalarRecoveryState.insertEntry start = .ok right ∧
          encodeMultiScalarRecoveryState right = encodeMultiScalarRecoveryState left := by
  refine ⟨?_, fun _ _ => decodeLocalScalarSnapshot_encode,
    fun _ _ => decodeLocalScalarSnapshot_restores, ?_, ?_, ?_⟩
  · intro snapshot fits
    constructor
    · intro success
      obtain ⟨encoded, done⟩ := success
      exact (encodeLocalScalarSnapshot_ok_iff.mp done).1
    · intro restores
      exact ⟨snapshotImage snapshot, encodeLocalScalarSnapshot_ok_iff.mpr ⟨restores, fits, rfl⟩⟩
  · intro one two encoded first second
    have decodedOne := decodeLocalScalarSnapshot_encode first
    have decodedTwo := decodeLocalScalarSnapshot_encode second
    exact Except.ok.inj (decodedOne.symm.trans decodedTwo)
  · intro recovery built fits
    have done := encodeMultiScalarRecoveryState_ok_iff.mpr ⟨fits, rfl⟩
    exact ⟨recoveryImage recovery, done, decodeMultiScalarRecoveryState_encode built.keysNamed done⟩
  · intro start left entries others permuted done
    have same := sameResult_iff.mp (LocalScalarRecoveryState.insertEntry_perm permuted start) left
    exact ⟨left, same.mp done, rfl⟩

/-- A container with one finalized domain survives its encoding. -/
theorem recovery_codecs_faithful_finalized :
    let causal : ScalarRegister Bytes := ScalarRegister.empty.put ⟨.ofByte 1, [10], ∅⟩
    let finalized : ExtTreeMap RevisionId (FinalizedStatement Bytes) :=
      (∅ : ExtTreeMap RevisionId (FinalizedStatement Bytes)).insert (.ofByte 1) ⟨.ofByte 1, [10], ∅⟩
    let snapshot : LocalScalarSnapshot Bytes := ⟨⟨causal, none⟩, ⟨{.ofByte 1}, finalized, ∅, ∅⟩⟩
    (∃ encoded, encodeLocalScalarSnapshot snapshot = .ok encoded) ∧
      ∃ recovery, LocalScalarRecoveryState.empty.insertNew ⟨.ofByte 5, [98]⟩ snapshot =
        .ok recovery ∧ ∃ encoded, encodeMultiScalarRecoveryState recovery = .ok encoded ∧
          decodeMultiScalarRecoveryState encoded = .ok recovery := by
  intro causal finalized snapshot
  have restores : ∃ domain, LocalScalarDomain.restore snapshot = .ok domain :=
    ⟨⟨⟨causal, none⟩, ⟨{.ofByte 1}, finalized, ∅, ∅⟩⟩, by decide +kernel⟩
  have inserted : LocalScalarRecoveryState.empty.insertNew ⟨.ofByte 5, [98]⟩ snapshot =
      .ok (LocalScalarRecoveryState.empty.put ⟨.ofByte 5, [98]⟩ snapshot restores) :=
    LocalScalarRecoveryState.insertNew_ok_iff.mpr ⟨by decide +kernel, restores, rfl⟩
  have started : LocalScalarRecoveryState.empty.Built :=
    @LocalScalarRecoveryState.Built.fromDomains ∅ _ (by simp) rfl
  have fits : (recoveryImage (LocalScalarRecoveryState.empty.put ⟨.ofByte 5, [98]⟩ snapshot
      ⟨⟨⟨causal, none⟩, ⟨{.ofByte 1}, finalized, ∅, ∅⟩⟩, by decide +kernel⟩)).length <
        sizeLimit := by
    decide +kernel
  refine ⟨(recovery_codecs_faithful.1 snapshot (by decide +kernel)).mpr restores, _, inserted, ?_⟩
  exact recovery_codecs_faithful.2.2.2.2.1 _ (.insertNew started rfl inserted) fits

end PrivateContinuum.Runtime
