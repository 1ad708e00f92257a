import PrivateContinuum.Sync.Projection

namespace PrivateContinuum.Sync.ScalarSyncProjection

open Std (ExtTreeMap ExtTreeSet)
open PrivateContinuum.Library PrivateContinuum.Core

variable {left right merged : ScalarSyncProjection}

/-- The projection has a register for the domain, be it without a statement. -/
def Has (projection : ScalarSyncProjection) (key : DomainKey) : Prop :=
  ∃ register, projection.get key = some register

/-- What a projection states. -/
inductive Fact where
  | has (key : DomainKey)
  | carries (key : DomainKey) (revision : ScalarRevision Bytes)

def States (projection : ScalarSyncProjection) : Fact → Prop
  | .has key => projection.Has key
  | .carries key revision => projection.Carries key revision

/-- The registers of both sides agree on shared revisions, in every domain. -/
def Agree (left right : ScalarSyncProjection) : Prop :=
  ∀ key first second, left.get key = some first → right.get key = some second → first.Agree second

theorem carries_iff {projection : ScalarSyncProjection} {key : DomainKey}
    {register : ScalarRegister Bytes} (found : projection.get key = some register)
    {revision : ScalarRevision Bytes} :
    projection.Carries key revision ↔ register.revision revision.id = some revision := by
  simp [Carries, found]

theorem ext_states (same : ∀ fact, left.States fact ↔ right.States fact) : left = right := by
  have equal : ∀ key, left.get key = right.get key := by
    intro key
    cases found : left.get key with
    | none =>
      cases other : right.get key with
      | none => rfl
      | some register =>
        obtain ⟨stored, impossible⟩ := (same (.has key)).mpr ⟨register, other⟩
        rw [found] at impossible
        cases impossible
    | some register =>
      obtain ⟨stored, other⟩ := (same (.has key)).mp ⟨register, found⟩
      rw [other, Option.some.injEq]
      have statements : ∀ revision : ScalarRevision Bytes,
          register.revision revision.id = some revision ↔
          stored.revision revision.id = some revision := by
        intro revision
        rw [← carries_iff found, ← carries_iff other]
        exact same (.carries key revision)
      apply ScalarRegister.ext_revision
      intro id
      apply Option.ext
      intro revision
      constructor
      · intro lookup
        have named := register.keyed id revision lookup
        subst named
        exact (statements revision).mp lookup
      · intro lookup
        have named := stored.keyed id revision lookup
        subst named
        exact (statements revision).mpr lookup
  cases left
  cases right
  congr 1
  exact ExtTreeMap.ext_getElem? equal

theorem not_states_empty {fact : Fact} : ¬ States .empty fact := by
  cases fact with
  | has key =>
    intro has
    obtain ⟨register, found⟩ := has
    simp [SyncProjection.get, SyncProjection.empty] at found
  | carries key revision =>
    intro carried
    obtain ⟨register, found, _⟩ := carried
    simp [SyncProjection.get, SyncProjection.empty] at found

theorem allValid_empty : AllValid .empty := by
  intro key register found
  simp [SyncProjection.get, SyncProjection.empty] at found

theorem merge_has (done : left.merge right = .ok merged) (key : DomainKey) :
    merged.Has key ↔ left.Has key ∨ right.Has key := by
  cases incoming : right.get key with
  | none =>
    have kept := SyncProjection.merge_get_other done incoming
    simp [Has, kept, incoming]
  | some register =>
    rcases SyncProjection.merge_get_right done incoming with ⟨_, joined, _, _, stored⟩ | ⟨_, stored⟩
    · simp [Has, stored, incoming]
    · simp [Has, stored, incoming]

theorem merge_states (done : left.merge right = .ok merged) (fact : Fact) :
    merged.States fact ↔ left.States fact ∨ right.States fact := by
  cases fact with
  | has key => exact merge_has done key
  | carries key revision => exact merge_carries done key revision

/-- Valid projections that agree always merge. -/
theorem merge_exists (leftValid : left.AllValid) (rightValid : right.AllValid)
    (agree : left.Agree right) :
    ∃ merged, left.merge right = .ok merged := by
  have joins : ∃ domains, mergeMaps MergeState.mergeState left.domains right.domains =
      .ok domains := by
    apply mergeMaps_isOk_iff.mpr
    intro key current incoming found stored
    exact ScalarRegister.merge_isOk (leftValid key current found) (rightValid key incoming stored)
      (agree key current incoming found stored)
  obtain ⟨domains, done⟩ := joins
  exact ⟨⟨domains⟩, SyncProjection.merge_ok_iff.mpr done⟩

theorem agree_bounded {bound : ScalarSyncProjection}
    (first : ∀ fact, left.States fact → bound.States fact)
    (second : ∀ fact, right.States fact → bound.States fact) : left.Agree right := by
  intro key one other found stored id revision incoming lookup looked
  have named := one.keyed id revision lookup
  have alsoNamed := other.keyed id incoming looked
  subst named
  obtain ⟨register, has, holds⟩ := first (.carries key revision) ((carries_iff found).mpr lookup)
  obtain ⟨again, hasToo, holdsToo⟩ := second (.carries key incoming)
    ((carries_iff stored).mpr (alsoNamed ▸ looked))
  rw [has] at hasToo
  cases hasToo
  rw [alsoNamed, holds] at holdsToo
  exact Option.some.inj holdsToo

theorem agree_merge {other : ScalarSyncProjection} (done : left.merge right = .ok merged)
    (first : left.Agree other) (second : right.Agree other) : merged.Agree other := by
  intro key joined register found stored id revision incoming lookup looked
  have named := joined.keyed id revision lookup
  subst named
  rcases (merge_carries done key revision).mp ((carries_iff found).mpr lookup) with
    ⟨one, has, holds⟩ | ⟨one, has, holds⟩
  · exact first key one register has stored revision.id revision incoming holds looked
  · exact second key one register has stored revision.id revision incoming holds looked

/-- `merge` builds the union of what both projections state. -/
def union : UnionMerge ScalarSyncProjection Fact CoreError where
  merge := SyncProjection.merge
  Good := AllValid
  States := States
  Agree := Agree
  ext := ext_states
  merge_states done fact := merge_states done fact
  merge_good leftValid rightValid done := merge_allValid done leftValid rightValid
  merge_exists := merge_exists
  agree_bounded := agree_bounded
  agree_merge := agree_merge
  agree_symm agree := fun key first second found stored =>
    (agree key second first stored found).symm

section MergeAll

variable {members : List ScalarSyncProjection}

theorem good_cons_empty (valid : ∀ member ∈ members, member.AllValid) :
    ∀ member ∈ .empty :: members, union.Good member := by
  intro member listed
  rcases List.mem_cons.mp listed with same | later
  · exact same ▸ allValid_empty
  · exact valid member later

theorem mergeAll_ok_iff (valid : ∀ member ∈ members, member.AllValid) :
    members.foldlM SyncProjection.merge .empty = .ok merged ↔
      ∀ fact, merged.States fact ↔ union.Stated members fact := by
  have folded : members.foldlM SyncProjection.merge .empty = .ok merged ↔ _ :=
    union.fold_ok_iff (good_cons_empty valid)
  rw [folded]
  have nothing : ∀ fact, union.Stated (.empty :: members) fact ↔ union.Stated members fact := by
    intro fact
    rw [UnionMerge.stated_cons]
    exact ⟨fun either => either.resolve_left not_states_empty, Or.inr⟩
  simp only [nothing]
  rfl

theorem mergeAll_valid (valid : ∀ member ∈ members, member.AllValid)
    (done : members.foldlM SyncProjection.merge .empty = .ok merged) : merged.AllValid :=
  union.fold_good (good_cons_empty valid) done

theorem empty_agree {other : ScalarSyncProjection} : Agree .empty other :=
  agree_bounded (fun _ holds => absurd holds not_states_empty) fun _ holds => holds

theorem mergeAll_agree {other : ScalarSyncProjection}
    (agree : ∀ member ∈ members, member.Agree other)
    (done : members.foldlM SyncProjection.merge .empty = .ok merged) : merged.Agree other := by
  refine union.fold_agree ?_ done
  intro member listed
  rcases List.mem_cons.mp listed with same | later
  · exact same ▸ empty_agree
  · exact agree member later

theorem mergeAll_exists (valid : ∀ member ∈ members, member.AllValid)
    (agree : ∀ left ∈ members, ∀ right ∈ members, left.Agree right) :
    ∃ merged, members.foldlM SyncProjection.merge .empty = .ok merged := by
  refine union.fold_exists (good_cons_empty valid) ?_
  intro left leftListed right rightListed
  rcases List.mem_cons.mp leftListed with leftSame | leftLater
  · exact leftSame ▸ empty_agree
  · rcases List.mem_cons.mp rightListed with rightSame | rightLater
    · exact rightSame ▸ union.agree_symm empty_agree
    · exact agree left leftLater right rightLater

end MergeAll

end PrivateContinuum.Sync.ScalarSyncProjection

namespace PrivateContinuum.Sync

open PrivateContinuum.Library PrivateContinuum.Core

/-- Atom maps, continua and projections of valid registers merge exactly when their
registers agree under every shared key, into the union of the keys, and satisfy the
laws of a partial join over every finite family. -/
theorem composite_merge {Value : Type} [DecidableEq Value] :
    (∀ left right : AtomMap (ScalarRegister Value), left.AllValid → right.AllValid →
      ((∃ merged, left.mergeState right = .ok merged) ↔ ∀ atomId first second,
        left.get atomId = some first → right.get atomId = some second → first.Agree second) ∧
      ∀ merged, left.mergeState right = .ok merged → merged.AllValid ∧
        ∀ atomId, MergedAt ScalarRegister.merge (left.get atomId) (right.get atomId)
          (merged.get atomId)) ∧
    (∀ left right : ContinuumState (ScalarRegister Value), left.atoms.AllValid →
      right.atoms.AllValid →
      ((∃ merged, left.mergeState right = .ok merged) ↔ left.continuumId = right.continuumId ∧
        ∀ atomId first second, left.atoms.get atomId = some first →
          right.atoms.get atomId = some second → first.Agree second) ∧
      ∀ merged, left.mergeState right = .ok merged → merged.continuumId = left.continuumId ∧
        merged.atoms.AllValid ∧ ∀ atomId, MergedAt ScalarRegister.merge (left.atoms.get atomId)
          (right.atoms.get atomId) (merged.atoms.get atomId)) ∧
    (∀ left right : ScalarSyncProjection, left.AllValid → right.AllValid →
      ((∃ merged, left.merge right = .ok merged) ↔ ∀ key first second,
        left.get key = some first → right.get key = some second → first.Agree second) ∧
      ∀ merged, left.merge right = .ok merged → ScalarSyncProjection.AllValid merged ∧
        ∀ key, MergedAt ScalarRegister.merge (left.get key) (right.get key) (merged.get key)) ∧
    MergeLaws (AtomMap.mergeState : AtomMap (ScalarRegister Value) → _ → _) AtomMap.AllValid ∧
    MergeLaws (ContinuumState.mergeState : ContinuumState (ScalarRegister Value) → _ → _)
      (fun state => state.atoms.AllValid) ∧
    MergeLaws (SyncProjection.merge : ScalarSyncProjection → _ → _)
      ScalarSyncProjection.AllValid := by
  refine ⟨?_, ?_, ?_, AtomMap.union.laws, ContinuumState.union.laws,
    ScalarSyncProjection.union.laws⟩
  · intro left right leftValid rightValid
    refine ⟨AtomMap.union.merge_isOk_iff leftValid rightValid, ?_⟩
    intro merged done
    exact ⟨AtomMap.union.merge_good leftValid rightValid done,
      mergeMaps_at (AtomMap.mergeState_ok_iff.mp done)⟩
  · intro left right leftValid rightValid
    refine ⟨ContinuumState.union.merge_isOk_iff leftValid rightValid, ?_⟩
    intro merged done
    obtain ⟨kept, atoms⟩ := ContinuumState.mergeState_ok done
    exact ⟨kept, ContinuumState.union.merge_good leftValid rightValid done,
      mergeMaps_at (AtomMap.mergeState_ok_iff.mp atoms)⟩
  · intro left right leftValid rightValid
    refine ⟨ScalarSyncProjection.union.merge_isOk_iff leftValid rightValid, ?_⟩
    intro merged done
    exact ⟨ScalarSyncProjection.merge_allValid done leftValid rightValid,
      mergeMaps_at (SyncProjection.merge_ok_iff.mp done)⟩

/-- Two continua that share an atom with one root merge, and in both orders alike. -/
theorem composite_merge_shared_atom :
    let root : ScalarRegister Nat := ScalarRegister.empty.put ⟨.ofByte 1, 10, ∅⟩
    let left : ContinuumState (ScalarRegister Nat) :=
      ⟨.ofByte 9,
        ⟨(∅ : Std.ExtTreeMap AtomId _).insert (.ofByte 5) (root.put ⟨.ofByte 2, 20, {.ofByte 1}⟩)⟩⟩
    let right : ContinuumState (ScalarRegister Nat) :=
      ⟨.ofByte 9,
        ⟨(∅ : Std.ExtTreeMap AtomId _).insert (.ofByte 5) (root.put ⟨.ofByte 3, 30, {.ofByte 1}⟩)⟩⟩
    left.mergeState left = .ok left ∧
      SameResult (left.mergeState right) (right.mergeState left) := by
  intro root left right
  have single : ∀ register : ScalarRegister Nat, register.Valid →
      AtomMap.AllValid ⟨(∅ : Std.ExtTreeMap AtomId _).insert (.ofByte 5) register⟩ := by
    intro register valid
    exact AtomMap.insertNew_allValid AtomMap.allValid_empty valid rfl
  have leftValid : left.atoms.AllValid := single _ (by decide +kernel)
  have rightValid : right.atoms.AllValid := single _ (by decide +kernel)
  have laws := (@composite_merge Nat _).2.2.2.2.1
  exact ⟨laws.idempotent left leftValid, laws.commutative left right leftValid rightValid⟩

end PrivateContinuum.Sync
