import PrivateContinuum.Library.Extremum
import PrivateContinuum.Reference.Causality

namespace PrivateContinuum.Reference

open Std (ExtTreeSet)
open PrivateContinuum.Library

/-- A revision observes canonical identifiers other than its own. -/
structure ScalarRevision (Value : Type) where
  revisionId : String
  value : Value
  context : ExtTreeSet String
  canonical : Canonical revisionId
  otherObserved : revisionId ∉ context
  canonicalContext : ∀ observed ∈ context, Canonical observed

section Revisions

variable {Value : Type}

theorem ScalarRevision.eq_iff {left right : ScalarRevision Value} :
    left.revisionId = right.revisionId ∧ left.value = right.value ∧ left.context = right.context ↔
      left = right := by
  constructor
  · cases left
    cases right
    rintro ⟨rfl, rfl, rfl⟩
    rfl
  · rintro rfl
    exact ⟨rfl, rfl, rfl⟩

instance ScalarRevision.decidableEq [DecidableEq Value] :
    DecidableEq (ScalarRevision Value) := fun _ _ =>
  decidable_of_iff _ ScalarRevision.eq_iff

/-- `__post_init__` -/
def ScalarRevision.create (revisionId : String) (value : Value) (context : ExtTreeSet String) :
    Except ModelError (ScalarRevision Value) := do
  let canonical ← checkCanonical revisionId
  if own : revisionId ∈ context then throw .revisionObservesItself
  else do
    let canonicalContext ← checkAllCanonical context.toList
    pure ⟨revisionId, value, context, canonical.down, own, fun observed member =>
      canonicalContext.down observed (ExtTreeSet.mem_toList.mpr member)⟩

/-- The bytes of `canonical_id`, by which revisions are ordered. -/
def ScalarRevision.key (revision : ScalarRevision Value) : Bytes := revision.canonical.bytes

theorem ScalarRevision.create_ok {revisionId : String} {value : Value}
    {context : ExtTreeSet String} {revision : ScalarRevision Value}
    (done : ScalarRevision.create revisionId value context = .ok revision) :
    revision.revisionId = revisionId ∧ revision.value = value ∧ revision.context = context := by
  unfold ScalarRevision.create at done
  rw [bind_ok_iff] at done
  obtain ⟨canonical, _, done⟩ := done
  split at done
  · cases done
  · rw [bind_ok_iff] at done
    obtain ⟨canonicalContext, _, done⟩ := done
    cases done
    exact ⟨rfl, rfl, rfl⟩

end Revisions

/-- Revisions by identifier. -/
structure ScalarRegister (Value : Type) where
  revisions : Dict String (ScalarRevision Value)

namespace ScalarRegister

variable {Value : Type}

def empty : ScalarRegister Value := ⟨Dict.empty⟩

def observedContext (register : ScalarRegister Value) : ExtTreeSet String :=
  ExtTreeSet.ofList (register.revisions.values.flatMap fun revision =>
    revision.revisionId :: revision.context.toList)

/-- The identifiers that some revision has observed. -/
def dominated (register : ScalarRegister Value) : List String :=
  register.revisions.values.flatMap fun revision => revision.context.toList

def frontier (register : ScalarRegister Value) : Dict String (ScalarRevision Value) :=
  register.revisions.filter fun revisionId => revisionId ∉ register.dominated

def materializedRevision (register : ScalarRegister Value) : Option (ScalarRevision Value) :=
  greatest ScalarRevision.key register.frontier.values

def materializedValue (register : ScalarRegister Value) : Option Value :=
  register.materializedRevision.map ScalarRevision.value

variable [DecidableEq Value]

def assign (register : ScalarRegister Value) (revisionId : String) (value : Value) :
    Except ModelError (ScalarRegister Value) := do
  let revision ← ScalarRevision.create revisionId value register.observedContext
  let revisions ← register.revisions.keep .revisionCollision (revisionId, revision)
  pure ⟨revisions⟩

def merge (register other : ScalarRegister Value) : Except ModelError (ScalarRegister Value) := do
  let merged ← register.revisions.keepAll .revisionCollision other.revisions
  pure ⟨merged⟩

end ScalarRegister

end PrivateContinuum.Reference
