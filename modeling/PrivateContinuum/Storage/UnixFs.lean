import PrivateContinuum.Core.Durability
import PrivateContinuum.Storage.Envelope
import PrivateContinuum.Storage.FileSystem

/-! The development file store: immutable candidate files and one manifest that is
replaced atomically. -/

namespace PrivateContinuum.Storage

open PrivateContinuum.Library PrivateContinuum.Core

inductive FsStorageError where
  | io (failure : IoError)
  | invalidRootManifest
  | invalidRecoveryRecord
  | candidateIdExhausted
deriving DecidableEq

/-- `b"root"` -/
def rootFile : Bytes := [114, 111, 111, 116]

/-- `b"root.next"` -/
def rootNextFile : Bytes := [114, 111, 111, 116, 46, 110, 101, 120, 116]

/-- `b"candidate-"` -/
def candidatePrefix : Bytes := [99, 97, 110, 100, 105, 100, 97, 116, 101, 45]

/-- `b".bin"` -/
def candidateSuffix : Bytes := [46, 98, 105, 110]

def stripPrefix (text leading : Bytes) : Option Bytes :=
  if leading.isPrefixOf text then some (text.drop leading.length) else none

def stripSuffix (text ending : Bytes) : Option Bytes :=
  if ending.isSuffixOf text then some (text.take (text.length - ending.length)) else none

def isAsciiDigit (byte : UInt8) : Bool := 48 ≤ byte ∧ byte ≤ 57

def validCandidateName (fileName : Bytes) : Bool :=
  match (stripPrefix fileName candidatePrefix).bind fun name =>
    stripSuffix name candidateSuffix with
  | none => false
  | some number => number.length == 20 && number.all isAsciiDigit

/-- A number in decimal digits, padded with zeros. -/
def decimalDigits : Nat → Nat → Bytes
  | 0, _ => []
  | width + 1, value => decimalDigits width (value / 10) ++ [UInt8.ofNat (48 + value % 10)]

/-- The file name of a candidate number: twenty digits hold every number of 64 bits. -/
def candidateName (id : Nat) : Bytes := candidatePrefix ++ (decimalDigits 20 id ++ candidateSuffix)

/-- `parse::<u64>` of a text of decimal digits. -/
def parseU64 (digits : Bytes) : Option Nat :=
  let value := digits.foldl (fun total byte => total * 10 + (byte.toNat - 48)) 0
  if value < sizeLimit then some value else none

def isUtf8 (bytes : Bytes) : Bool := bytes.toByteArray.validateUTF8

/-- `checked_add(1)` on a number of 64 bits. -/
def checkedSucc (value : Nat) :
    Option Nat := if value + 1 < sizeLimit then some (value + 1) else none

structure FsCandidate where
  fileName : Bytes

/-- The root path is that of the store directory, and is not repeated here. -/
structure UnixFsDurabilityBackend where
  nextCandidate : Nat
deriving DecidableEq

abbrev FsRoutine (Value : Type) :=
  Routine FsOp FsOp.Answer UnixFsDurabilityBackend FsStorageError Value

namespace UnixFsDurabilityBackend

/-- A call whose failure is returned as it is. -/
def askIo {Value : Type} (op : FsOp) (read : op.Answer → Except IoError Value) : FsRoutine Value :=
  .ask op fun answer => (read answer).mapError .io

/-- Loop body of `scan_next_candidate`. -/
def scanEntry (maximum : Option Nat) (entry : Except IoError Bytes) :
    Except FsStorageError (Option Nat) :=
  match entry with
  | .error failure => .error (.io failure)
  | .ok fileName =>
    if ¬ isUtf8 fileName ∨ ¬ validCandidateName fileName then .ok maximum
    else match parseU64 (slice fileName candidatePrefix.length
        (fileName.length - candidateSuffix.length - candidatePrefix.length)) with
      | none => .ok maximum
      | some value => .ok (some (maximum.elim value (max value)))

def scanListing (listing : List (Except IoError Bytes)) : Except FsStorageError Nat := do
  let maximum ← listing.foldlM scanEntry none
  match maximum with
  | none => pure 0
  | some value => match checkedSucc value with
    | none => throw .candidateIdExhausted
    | some next => pure next

/-- `UnixFsDurabilityBackend::open` -/
def openStore : Proc FsOp FsOp.Answer (Except FsStorageError UnixFsDurabilityBackend) :=
  .call (.createDirAll .objects) fun created => match (created : Except IoError Unit) with
    | .error failure => .ret (.error (.io failure))
    | .ok () => .call (.readDir .objects) fun listed =>
      match (listed : Except IoError (List (Except IoError Bytes))) with
      | .error failure => .ret (.error (.io failure))
      | .ok listing => .ret ((scanListing listing).map fun nextCandidate => ⟨nextCandidate⟩)

def createNewOptions : OpenOptions := ⟨true, false, true, false⟩

def truncateOptions : OpenOptions := ⟨true, false, false, true⟩

def replaceOptions : OpenOptions := ⟨true, true, false, true⟩

def readOptions : OpenOptions := ⟨false, false, false, false⟩

/-- The loop of `allocate_candidate`, from the next number on. -/
def allocateFrom (id : Nat) :
    Proc FsOp FsOp.Answer (Except FsStorageError FsCandidate × UnixFsDurabilityBackend) :=
  if id + 1 < sizeLimit then
    .call (.openFile .objects (candidateName id) createNewOptions) fun answer =>
      match (answer : Except IoError FileHandle) with
      | .ok _ => .ret (.ok ⟨candidateName id⟩, ⟨id + 1⟩)
      | .error .alreadyExists => allocateFrom (id + 1)
      | .error failure => .ret (.error (.io failure), ⟨id + 1⟩)
  else .ret (.error .candidateIdExhausted, ⟨id⟩)
termination_by sizeLimit - id

def allocateCandidate : FsRoutine FsCandidate := fun backend => allocateFrom backend.nextCandidate

def writeCandidate (state : Bytes) : FsRoutine FsCandidate := do
  let candidate ← allocateCandidate
  let file ← askIo (.openFile .objects candidate.fileName truncateOptions) id
  askIo (.writeAll file (encodeEnvelope state)) id
  askIo (.flush file) id
  pure candidate

def syncCandidate (candidate : FsCandidate) : FsRoutine Unit := do
  let file ← askIo (.openFile .objects candidate.fileName readOptions) id
  askIo (.syncAll file) id
  askIo (.openDir .objects) id
  askIo (.syncAllDir .objects) id

/-- The manifest is synced before the rename. -/
def publishCandidate (candidate : FsCandidate) : FsRoutine Unit := do
  .check (if validCandidateName candidate.fileName then .ok () else .error .invalidRootManifest)
  let next ← askIo (.openFile .store rootNextFile replaceOptions) id
  askIo (.writeAll next candidate.fileName) id
  askIo (.writeAll next [10]) id
  askIo (.syncAll next) id
  askIo (.rename .store rootNextFile rootFile) id

def syncCommittedRoot : FsRoutine Unit := do
  askIo (.openDir .store) id
  askIo (.syncAllDir .store) id

/-- `read_to_string` -/
def readText (file : FileHandle) : FsRoutine Bytes := do
  let text ← askIo (.readToEnd file) id
  .check (if isUtf8 text then .ok text else .error (.io .invalidData))

/-- `trim_end_matches('\n')` -/
def trimNewlines (text : Bytes) : Bytes := (text.reverse.dropWhile (· == 10)).reverse

/-- A missing manifest is a store without a commit. -/
def readOpened (answer : Except IoError FileHandle) : Except FsStorageError (Option FileHandle) :=
  match answer with
  | .ok file => .ok (some file)
  | .error .notFound => .ok none
  | .error failure => .error (.io failure)

def loadCandidate (fileName : Bytes) : FsRoutine (Option Bytes) := do
  .check (if validCandidateName fileName then .ok () else .error .invalidRootManifest)
  let file ← askIo (.openFile .objects fileName readOptions) id
  let encoded ← askIo (.readToEnd file) id
  let state ← .check ((decodeEnvelope encoded).mapError fun _ => .invalidRecoveryRecord)
  pure (some state)

def loadNamed (manifest : FileHandle) : FsRoutine (Option Bytes) := do
  let text ← readText manifest
  loadCandidate (trimNewlines text)

def loadCommitted : FsRoutine (Option Bytes) := do
  let manifest ← .ask (.openFile .store rootFile readOptions) readOpened
  match manifest with
  | none => pure none
  | some file => loadNamed file

/-- `impl DurabilityBackend<Vec<u8>> for UnixFsDurabilityBackend` -/
def backend :
    DurabilityBackend FsOp FsOp.Answer UnixFsDurabilityBackend FsStorageError Bytes
      FsCandidate where
  loadCommitted := loadCommitted
  writeCandidate := writeCandidate
  syncCandidate := syncCandidate
  publishCandidate := publishCandidate
  syncCommittedRoot := syncCommittedRoot

end UnixFsDurabilityBackend

theorem decimalDigits_length (width value : Nat) : (decimalDigits width value).length = width := by
  induction width generalizing value with
  | zero => rfl
  | succ width ih => simp [decimalDigits, ih]

theorem decimalDigits_ascii (width value : Nat) :
    (decimalDigits width value).all isAsciiDigit = true := by
  induction width generalizing value with
  | zero => rfl
  | succ width ih =>
    have digit : ∀ last < 10, isAsciiDigit (UInt8.ofNat (48 + last)) = true := by decide
    rw [decimalDigits, List.all_append, ih, List.all_cons, digit _ (Nat.mod_lt value (by decide))]
    rfl

theorem stripPrefix_append (leading rest : Bytes) :
    stripPrefix (leading ++ rest) leading = some rest := by
  have starts : leading.isPrefixOf (leading ++ rest) = true := by
    rw [List.isPrefixOf_iff_prefix]
    exact List.prefix_append leading rest
  rw [stripPrefix, if_pos starts, List.drop_left]

theorem stripSuffix_append (rest ending : Bytes) :
    stripSuffix (rest ++ ending) ending = some rest := by
  have ends : ending.isSuffixOf (rest ++ ending) = true := by
    rw [List.isSuffixOf_iff_suffix]
    exact List.suffix_append rest ending
  rw [stripSuffix, if_pos ends, List.length_append, Nat.add_sub_cancel, List.take_left]

theorem validCandidateName_candidateName (id : Nat) :
    validCandidateName (candidateName id) = true := by
  rw [validCandidateName, candidateName, stripPrefix_append, Option.bind_some, stripSuffix_append]
  simp only [decimalDigits_length, decimalDigits_ascii, BEq.rfl, Bool.and_self]

theorem stripPrefix_eq {text leading rest : Bytes}
    (stripped : stripPrefix text leading = some rest) :
    text = leading ++ rest := by
  unfold stripPrefix at stripped
  split at stripped
  · rename_i starts
    obtain ⟨after, whole⟩ := List.isPrefixOf_iff_prefix.mp starts
    subst whole
    rw [List.drop_left] at stripped
    rw [Option.some.inj stripped]
  · cases stripped

theorem stripSuffix_eq {text ending rest : Bytes} (stripped : stripSuffix text ending = some rest) :
    text = rest ++ ending := by
  unfold stripSuffix at stripped
  split at stripped
  · rename_i ends
    obtain ⟨before, whole⟩ := List.isSuffixOf_iff_suffix.mp ends
    subst whole
    rw [List.length_append, Nat.add_sub_cancel, List.take_left] at stripped
    rw [Option.some.inj stripped]
  · cases stripped

theorem validCandidateName_split {name : Bytes} (valid : validCandidateName name = true) :
    ∃ number, name = candidatePrefix ++ (number ++ candidateSuffix) ∧
    number.all isAsciiDigit = true := by
  unfold validCandidateName at valid
  split at valid
  · cases valid
  · rename_i number found
    obtain ⟨rest, prefixed, suffixed⟩ := Option.bind_eq_some_iff.mp found
    rw [Bool.and_eq_true] at valid
    exact ⟨number, by rw [stripPrefix_eq prefixed, stripSuffix_eq suffixed], valid.2⟩

theorem isUtf8_ascii {bytes : Bytes} (ascii : ∀ byte ∈ bytes, byte < 128) :
    isUtf8 bytes = true := by
  have single : ∀ byte : UInt8, byte < 128 →
      String.utf8EncodeChar (Char.ofNat byte.toNat) = [byte] := by
    decide +kernel
  have valid : bytes.toByteArray.IsValidUTF8 := by
    induction bytes with
    | nil => exact ByteArray.isValidUTF8_empty
    | cons byte rest ih =>
      have first : [byte].toByteArray.IsValidUTF8 := by
        rw [← single byte (ascii byte List.mem_cons_self)]
        exact Char.isValidUTF8_toByteArray_utf8EncodeChar
      rw [← List.singleton_append, List.toByteArray_append]
      exact first.append (ih fun other member => ascii other (List.mem_cons_of_mem byte member))
  exact ByteArray.validateUTF8_eq_true_iff.mpr valid

/-- A manifest that holds a valid name is read back as that name. -/
theorem manifest_text {name : Bytes} (valid : validCandidateName name = true) :
    isUtf8 (name ++ [10]) = true ∧ UnixFsDurabilityBackend.trimNewlines (name ++ [10]) = name := by
  obtain ⟨number, rfl, digits⟩ := validCandidateName_split valid
  constructor
  · apply isUtf8_ascii
    have small : ∀ byte, isAsciiDigit byte = true → byte < 128 := by decide +kernel
    have first : ∀ byte ∈ candidatePrefix, byte < 128 := by decide +kernel
    have last : ∀ byte ∈ candidateSuffix, byte < 128 := by decide +kernel
    intro byte member
    simp only [List.mem_append, List.mem_singleton] at member
    rcases member with (inPrefix | inNumber | inSuffix) | rfl
    · exact first byte inPrefix
    · exact small byte (List.all_eq_true.mp digits byte inNumber)
    · exact last byte inSuffix
    · decide
  · simp [UnixFsDurabilityBackend.trimNewlines, candidateSuffix, candidatePrefix]

end PrivateContinuum.Storage
