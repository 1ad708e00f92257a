import PrivateContinuum.Library.Bytes

namespace PrivateContinuum.Reference

open Std (ExtTreeSet)
open PrivateContinuum.Library

/-- What the reference model raises, by message. `keyError` is a failed dictionary
lookup, `exhausted` a loop or a recursion past its bound. -/
inductive ModelError where
  | emptyIdentifier
  | invalidHexadecimalIdentifier (value : String)
  | revisionParentsItself
  | causalParentsMissing (missing : List String)
  | causalCycle
  | revisionCollision
  | unknownCausalRevisions
  | unknownBaseline
  | deltaDependencyMissing
  | unresolvedCausalParent
  | retainedAndCovered
  | compactedParentsUnknown (missing : List String)
  | retainedCycle
  | coveredIdReused
  | mappingKeyMismatch
  | historicalParentMissing (missing : List String)
  | positionParentsItself
  | positionCollision
  | positionParentMissing
  | positionCycle
  | positionExists
  | unknownNeighbor
  | leftNotBeforeRight
  | createdNotAfterLeft
  | createdNotBeforeRight
  | comparingUnknown
  | invalidPositionDepth
  | invalidAncestorComparison
  | noCommonRoot
  | duplicateActivePosition
  | revisionObservesItself
  | atomParentsItself
  | unknownParent
  | parentDeleted
  | atomDeleted
  | deletingUnknown
  | noCurrentPlacement
  | currentParentUnknown
  | rootFallbackFailed
  | witnessUnknown
  | witnessParentsItself
  | fallbackBoundExceeded
  | placementsExhausted
  | resolvedParentUnknown
  | resolvedParentsItself
  | noProgress
  | emptySequence
  | keyError (key : String)
  | exhausted
deriving DecidableEq

/-- `str.isspace` -/
def isSpace (char : Char) : Bool :=
  char.toNat ∈ [9, 10, 11, 12, 13, 28, 29, 30, 31, 32, 133, 160, 5760, 8192, 8193, 8194, 8195,
    8196, 8197, 8198, 8199, 8200, 8201, 8202, 8232, 8233, 8239, 8287, 12288]

/-- `str.strip` -/
def strip (text : List Char) : List Char :=
  ((text.dropWhile isSpace).reverse.dropWhile isSpace).reverse

def hexDigit (char : Char) : Option Nat :=
  if '0' ≤ char ∧ char ≤ '9' then some (char.toNat - 48)
  else if 'a' ≤ char ∧ char ≤ 'f' then some (char.toNat - 87)
  else if 'A' ≤ char ∧ char ≤ 'F' then some (char.toNat - 55)
  else none

/-- `bytes.fromhex`: two digits make a byte, white space may stand between bytes. -/
def fromHex : List Char → Option Bytes
  | [] => some []
  | [char] => if char.toNat ∈ [9, 10, 11, 12, 13, 32] then some [] else none
  | char :: next :: rest =>
    if char.toNat ∈ [9, 10, 11, 12, 13, 32] then fromHex (next :: rest)
    else do
      let high ← hexDigit char
      let low ← hexDigit next
      let bytes ← fromHex rest
      pure (UInt8.ofNat (high * 16 + low) :: bytes)

/-- `canonical_id` -/
def canonicalId (value : String) : Except ModelError Bytes :=
  let text := strip value.toList
  if text = [] then .error .emptyIdentifier
  else
    let even := if text.length % 2 = 0 then text else '0' :: text
    match fromHex even with
    | some bytes => .ok bytes
    | none => .error (.invalidHexadecimalIdentifier value)

example : canonicalId " F0a " = .ok [15, 10] := by decide +kernel

instance decidableForallMem {holds : String → Prop} [DecidablePred holds]
    (set : ExtTreeSet String) : Decidable (∀ value ∈ set, holds value) :=
  decidable_of_iff (∀ value ∈ set.toList, holds value) (by simp only [ExtTreeSet.mem_toList])

/-- The identifier denotes bytes. -/
def Canonical (value : String) : Prop := ∃ bytes, canonicalId value = .ok bytes

instance (value : String) : Decidable (Canonical value) :=
  match found : canonicalId value with
  | .ok bytes => isTrue ⟨bytes, found⟩
  | .error _ => isFalse fun ⟨_, canonical⟩ => by cases found.symm.trans canonical

/-- The bytes of an identifier that denotes some. -/
def Canonical.bytes {value : String} (canonical : Canonical value) : Bytes :=
  (canonicalId value).toOption.get (by
    obtain ⟨bytes, found⟩ := canonical
    rw [found]
    rfl)

theorem Canonical.bytes_eq {value : String} (canonical : Canonical value) :
    canonicalId value = .ok canonical.bytes := by
  have taken : ∀ (outcome : Except ModelError Bytes) (present : outcome.toOption.isSome = true),
      outcome = .ok (outcome.toOption.get present) := by
    intro outcome present
    cases outcome with
    | ok bytes => rfl
    | error failure => cases present
  exact taken _ _

/-- `canonical_id`, called for its failure. -/
def checkCanonical (value : String) : Except ModelError (PLift (Canonical value)) :=
  match found : canonicalId value with
  | .ok bytes => .ok ⟨bytes, found⟩
  | .error failure => .error failure

/-- `canonical_id` of one identifier after the other. -/
def checkAllCanonical :
    (values : List String) → Except ModelError (PLift (∀ value ∈ values, Canonical value))
  | [] => .ok ⟨by simp⟩
  | value :: rest => do
    let ⟨first⟩ ← checkCanonical value
    let ⟨others⟩ ← checkAllCanonical rest
    pure ⟨List.forall_mem_cons.mpr ⟨first, others⟩⟩

theorem checkCanonical_ok_iff {value : String} :
    (∃ proof, checkCanonical value = .ok proof) ↔ Canonical value := by
  rw [checkCanonical]
  constructor
  · rintro ⟨⟨canonical⟩, _⟩
    exact canonical
  · rintro ⟨bytes, found⟩
    refine ⟨⟨bytes, found⟩, ?_⟩
    split
    · rfl
    · rename_i failed
      cases found.symm.trans failed

theorem checkAllCanonical_ok_iff {values : List String} :
    (∃ proof, checkAllCanonical values = .ok proof) ↔ ∀ value ∈ values, Canonical value := by
  constructor
  · rintro ⟨⟨canonical⟩, _⟩
    exact canonical
  · intro canonical
    induction values with
    | nil => exact ⟨_, rfl⟩
    | cons value rest ih =>
      rw [List.forall_mem_cons] at canonical
      obtain ⟨first, checked⟩ := checkCanonical_ok_iff.mpr canonical.1
      obtain ⟨others, passed⟩ := ih canonical.2
      refine ⟨⟨List.forall_mem_cons.mpr ⟨first.down, others.down⟩⟩, ?_⟩
      rw [checkAllCanonical, checked, passed]
      rfl

end PrivateContinuum.Reference
