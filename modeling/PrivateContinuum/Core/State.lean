import PrivateContinuum.Core.ScalarMerge
import PrivateContinuum.Library.KeyedUnion

namespace PrivateContinuum.Core

open Std (ExtTreeMap)
open PrivateContinuum.Library

/-- `MergeState` -/
class MergeState (State : Type) where
  mergeState : State → State → Except CoreError State

instance {Value : Type} [DecidableEq Value] : MergeState (ScalarRegister Value) :=
  ⟨ScalarRegister.merge⟩

/-- Atoms by stable identity. -/
structure AtomMap (Atom : Type) where
  atoms : ExtTreeMap AtomId Atom

namespace AtomMap

variable {Atom : Type}

def empty : AtomMap Atom := ⟨∅⟩

def get (map : AtomMap Atom) (atomId : AtomId) : Option Atom := map.atoms[atomId]?

def insertNew (map : AtomMap Atom) (atomId : AtomId) (atom : Atom) :
    Except CoreError (AtomMap Atom) :=
  if atomId ∈ map.atoms then .error (.duplicateAtomId atomId)
    else .ok ⟨map.atoms.insert atomId atom⟩

variable [MergeState Atom]

/-- Loop body of `merge_state`. -/
def mergeAtom (merged : ExtTreeMap AtomId Atom) (entry : AtomId × Atom) :
    Except CoreError (ExtTreeMap AtomId Atom) :=
  match merged[entry.1]? with
  | some left => do
    let value ← MergeState.mergeState left entry.2
    pure (merged.insert entry.1 value)
  | none => pure (merged.insert entry.1 entry.2)

def mergeState (map other : AtomMap Atom) : Except CoreError (AtomMap Atom) := do
  let merged ← other.atoms.toList.foldlM mergeAtom map.atoms
  pure ⟨merged⟩

instance : MergeState (AtomMap Atom) := ⟨mergeState⟩

theorem mergeState_eq (map other : AtomMap Atom) :
    map.mergeState other = (mergeMaps MergeState.mergeState map.atoms other.atoms).map AtomMap.mk :=
    rfl

theorem mergeState_ok_iff {map other merged : AtomMap Atom} :
    map.mergeState other = .ok merged ↔
      mergeMaps MergeState.mergeState map.atoms other.atoms = .ok merged.atoms := by
  rw [mergeState_eq]
  cases mergeMaps MergeState.mergeState map.atoms other.atoms with
  | error failure => simp [Except.map]
  | ok atoms =>
    cases merged
    simp [Except.map]

end AtomMap

/-- A continuum: its identity and its atoms. -/
structure ContinuumState (Atom : Type) where
  continuumId : ContinuumId
  atoms : AtomMap Atom

namespace ContinuumState

variable {Atom : Type}

def create (continuumId : ContinuumId) : ContinuumState Atom := ⟨continuumId, .empty⟩

def mergeState [MergeState Atom] (state other : ContinuumState Atom) :
    Except CoreError (ContinuumState Atom) :=
  if state.continuumId ≠ other.continuumId then
    .error (.continuumMismatch state.continuumId other.continuumId)
  else do
    let atoms ← state.atoms.mergeState other.atoms
    pure ⟨state.continuumId, atoms⟩

instance [MergeState Atom] : MergeState (ContinuumState Atom) := ⟨mergeState⟩

theorem mergeState_ok [MergeState Atom] {state other merged : ContinuumState Atom}
    (done : state.mergeState other = .ok merged) :
    merged.continuumId = state.continuumId ∧
    state.atoms.mergeState other.atoms = .ok merged.atoms := by
  unfold mergeState at done
  split at done
  · cases done
  · rw [bind_ok_iff] at done
    obtain ⟨atoms, inner, named⟩ := done
    cases named
    exact ⟨rfl, inner⟩

end ContinuumState

section Registers

variable {Value : Type}

/-- Every atom is a valid register. -/
def AtomMap.AllValid (map : AtomMap (ScalarRegister Value)) : Prop :=
  ∀ atomId register, map.get atomId = some register → register.Valid

/-- The registers of both sides agree on shared revisions, atom by atom. -/
def AtomMap.Agree (left right : AtomMap (ScalarRegister Value)) : Prop :=
  ∀ atomId first second, left.get atomId = some first → right.get atomId = some second →
    first.Agree second

theorem AtomMap.allValid_empty : (AtomMap.empty : AtomMap (ScalarRegister Value)).AllValid := by
  intro atomId register found
  simp [AtomMap.get, AtomMap.empty] at found

theorem AtomMap.insertNew_allValid {map next : AtomMap (ScalarRegister Value)} {atomId : AtomId}
    {register : ScalarRegister Value} (valid : map.AllValid) (registerValid : register.Valid)
    (inserted : map.insertNew atomId register = .ok next) : next.AllValid := by
  intro other found stored
  unfold AtomMap.insertNew at inserted
  split at inserted
  · cases inserted
  · cases inserted
    rw [AtomMap.get, ExtTreeMap.getElem?_insert] at stored
    split at stored
    · cases stored
      exact registerValid
    · exact valid other found stored

variable [DecidableEq Value]

/-- Merging atom maps builds the union of their atoms. -/
def AtomMap.union : UnionMerge (AtomMap (ScalarRegister Value))
    (KeyedFact AtomId (RevisionId × ScalarRevision Value)) CoreError :=
  UnionMerge.through ScalarRegister.union.keyed AtomMap.atoms AtomMap.mergeState
    (by
      intro left right same
      cases left
      cases right
      cases same
      rfl)
    (by
      intro left right
      rw [AtomMap.mergeState_eq]
      change (Except.map AtomMap.mk (mergeMaps ScalarRegister.merge left.atoms right.atoms)).map
        AtomMap.atoms = mergeMaps ScalarRegister.merge left.atoms right.atoms
      cases mergeMaps ScalarRegister.merge left.atoms right.atoms <;> rfl)

/-- Merging continua builds the union of their atoms under one identity. -/
def ContinuumState.union : UnionMerge (ContinuumState (ScalarRegister Value))
    (ContinuumId ⊕ KeyedFact AtomId (RevisionId × ScalarRevision Value)) CoreError :=
  UnionMerge.through (AtomMap.union.labelled .continuumMismatch)
    (fun state => (state.continuumId, state.atoms)) ContinuumState.mergeState
    (by
      intro left right same
      cases left
      cases right
      cases same
      rfl)
    (by
      intro left right
      change (left.mergeState right).map _ = mergeLabelled AtomMap.mergeState .continuumMismatch
        (left.continuumId, left.atoms) (right.continuumId, right.atoms)
      unfold ContinuumState.mergeState mergeLabelled
      split
      · rfl
      · cases left.atoms.mergeState right.atoms <;> rfl)

end Registers

end PrivateContinuum.Core
