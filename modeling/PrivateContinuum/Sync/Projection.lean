import PrivateContinuum.Core.DomainHistory
import PrivateContinuum.Core.State
import PrivateContinuum.Library.Bytes

namespace PrivateContinuum.Sync

open Std (ExtTreeMap TransOrd LawfulEqOrd TransCmp LawfulEqCmp)
open PrivateContinuum.Library PrivateContinuum.Core

/-- Key of one independently mergeable atom domain. Its fields are public in the
source, so an empty domain is a value of the type. -/
structure DomainKey where
  atomId : AtomId
  domain : Bytes
deriving DecidableEq

inductive ProjectionError where
  | emptyDomainIdentifier
deriving DecidableEq

/-- `DomainKey::new` -/
def DomainKey.create (atomId : AtomId) (domain : Bytes) : Except ProjectionError DomainKey :=
  if domain.isEmpty then .error .emptyDomainIdentifier else .ok ⟨atomId, domain⟩

theorem DomainKey.create_ok {key : DomainKey} (nonempty : key.domain ≠ []) :
    DomainKey.create key.atomId key.domain = .ok key := by
  simp [DomainKey.create, nonempty]

theorem DomainKey.create_nonempty {atomId : AtomId} {domain : Bytes} {key : DomainKey}
    (created : DomainKey.create atomId domain = .ok key) : key.domain ≠ [] := by
  unfold DomainKey.create at created
  split at created
  · cases created
  · rename_i filled
    cases created
    simpa using filled

/-- Lexicographic order of the fields, as derived in the source. -/
instance : Ord DomainKey :=
  ⟨compareLex (compareOn fun key => key.atomId) (compareOn fun key => key.domain)⟩

instance : TransOrd DomainKey :=
  inferInstanceAs (TransCmp (compareLex (compareOn fun key : DomainKey => key.atomId)
    (compareOn fun key : DomainKey => key.domain)))

instance : LawfulEqOrd DomainKey where
  eq_of_compare := by
    intro left right same
    obtain ⟨atoms, domains⟩ := compareLex_eq_eq.mp same
    have sameAtom : left.atomId = right.atomId := LawfulEqCmp.eq_of_compare atoms
    have sameDomain : left.domain = right.domain := LawfulEqCmp.eq_of_compare domains
    cases left
    cases right
    simp_all

/-- Domain state only; a projection has no identifier of its own. -/
structure SyncProjection (Key State : Type) [Ord Key] where
  domains : ExtTreeMap Key State

namespace SyncProjection

variable {Key State : Type} [Ord Key] [TransOrd Key]

def empty : SyncProjection Key State := ⟨∅⟩

def isEmpty (projection : SyncProjection Key State) : Bool := projection.domains.isEmpty

def get (projection : SyncProjection Key State) (key : Key) :
    Option State := projection.domains[key]?

/-- The projection of one domain. -/
def single (key : Key) (state : State) : SyncProjection Key State :=
  ⟨(∅ : ExtTreeMap Key State).insert key state⟩

theorem get_single [LawfulEqOrd Key] {key other : Key} {state found : State} :
    (single key state).get other = some found ↔ other = key ∧ found = state := by
  rw [single, get, ExtTreeMap.getElem?_insert]
  split
  · rename_i same
    have equal : key = other := LawfulEqCmp.eq_of_compare same
    simp [equal, eq_comm]
  · rename_i different
    have unequal : other ≠ key := by
      intro same
      subst same
      exact different (Std.ReflCmp.compare_self)
    simp [unequal]

variable [MergeState State]

/-- Loop body of `merge`. -/
def mergeDomain (merged : ExtTreeMap Key State) (entry : Key × State) :
    Except CoreError (ExtTreeMap Key State) :=
  match merged[entry.1]? with
  | some current => do
    let joined ← MergeState.mergeState current entry.2
    pure (merged.insert entry.1 joined)
  | none => pure (merged.insert entry.1 entry.2)

def merge (left right : SyncProjection Key State) :
    Except CoreError (SyncProjection Key State) := do
  let domains ← right.domains.toList.foldlM mergeDomain left.domains
  pure ⟨domains⟩

theorem merge_ok_iff {left right merged : SyncProjection Key State} :
    left.merge right = .ok merged ↔
      mergeMaps MergeState.mergeState left.domains right.domains = .ok merged.domains := by
  change (mergeMaps MergeState.mergeState left.domains right.domains).map SyncProjection.mk =
    .ok merged ↔ _
  cases mergeMaps MergeState.mergeState left.domains right.domains with
  | error failure => simp [Except.map]
  | ok domains =>
    cases merged
    simp [Except.map]

variable [LawfulEqOrd Key] {left right merged : SyncProjection Key State}

theorem merge_get_right (done : left.merge right = .ok merged) {key : Key} {incoming : State}
    (found : right.get key = some incoming) :
    (∃ current joined, left.get key = some current ∧
      MergeState.mergeState current incoming = .ok joined ∧ merged.get key = some joined) ∨
    (left.get key = none ∧ merged.get key = some incoming) := by
  have result : MergedAt MergeState.mergeState (left.get key) (right.get key) (merged.get key) :=
    mergeMaps_at (merge_ok_iff.mp done) key
  rw [found] at result
  cases stored : left.get key with
  | none =>
    rw [stored, mergedAt_none_left] at result
    exact Or.inr ⟨rfl, result⟩
  | some current =>
    rw [stored] at result
    obtain ⟨joined, combined, named⟩ := result
    exact Or.inl ⟨current, joined, rfl, combined, named⟩

theorem merge_get_other (done : left.merge right = .ok merged) {key : Key}
    (absent : right.get key = none) : merged.get key = left.get key := by
  have result : MergedAt MergeState.mergeState (left.get key) (right.get key) (merged.get key) :=
    mergeMaps_at (merge_ok_iff.mp done) key
  rw [absent] at result
  cases stored : left.get key with
  | none => rwa [stored, mergedAt_none_left] at result
  | some current => rwa [stored, mergedAt_none_right] at result

end SyncProjection

abbrev ScalarSyncProjection := SyncProjection DomainKey (ScalarRegister Bytes)

namespace ScalarSyncProjection

/-- The projection carries the statement in the domain. -/
def Carries (projection : ScalarSyncProjection) (key : DomainKey)
    (revision : ScalarRevision Bytes) : Prop :=
  ∃ register, projection.get key = some register ∧ register.revision revision.id = some revision

/-- Every register of the projection passes validation. -/
def AllValid (projection : ScalarSyncProjection) : Prop :=
  ∀ key register, projection.get key = some register → register.Valid

variable {left right merged : ScalarSyncProjection}

theorem merge_carries (done : left.merge right = .ok merged) (key : DomainKey)
    (revision : ScalarRevision Bytes) :
    merged.Carries key revision ↔ left.Carries key revision ∨ right.Carries key revision := by
  cases incoming : right.get key with
  | none =>
    have kept := SyncProjection.merge_get_other done incoming
    simp only [Carries, kept, incoming, reduceCtorEq, false_and, exists_false, or_false]
  | some register =>
    rcases SyncProjection.merge_get_right done incoming with
      ⟨current, joined, found, combined, stored⟩ | ⟨absent, stored⟩
    · simp only [Carries, stored, found, incoming, Option.some.injEq, exists_eq_left']
      exact ScalarRegister.merge_revision combined revision.id revision
    · simp only [Carries, stored, absent, incoming, reduceCtorEq, false_and, exists_false, false_or]

theorem merge_allValid (done : left.merge right = .ok merged) (leftValid : left.AllValid)
    (rightValid : right.AllValid) : merged.AllValid := by
  intro key register stored
  cases incoming : right.get key with
  | none =>
    rw [SyncProjection.merge_get_other done incoming] at stored
    exact leftValid key register stored
  | some other =>
    rcases SyncProjection.merge_get_right done incoming with
      ⟨current, joined, _, combined, found⟩ | ⟨_, found⟩
    · rw [found] at stored
      cases stored
      exact ScalarRegister.merge_valid combined
    · rw [found] at stored
      cases stored
      exact rightValid key register incoming

end ScalarSyncProjection

end PrivateContinuum.Sync
