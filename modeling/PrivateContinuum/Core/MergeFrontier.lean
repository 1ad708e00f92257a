import PrivateContinuum.Core.ScalarMerge

namespace PrivateContinuum.Core.ScalarRegister

open Std (ExtTreeSet)
open PrivateContinuum.Library

variable {Value : Type} {register left right merged : ScalarRegister Value} {id : RevisionId}

theorem materializedRevision_eq_some_iff {revision : ScalarRevision Value} :
    register.materializedRevision = some revision ↔ register.revision revision.id = some revision ∧
      revision.id ∈ register.frontierIds ∧
      ∀ other ∈ register.frontierIds, (compare other revision.id).isLE := by
  rw [materializedRevision, Option.bind_eq_bind, Option.bind_eq_some_iff]
  constructor
  · intro found
    obtain ⟨greatest, maximal, stored⟩ := found
    have same := register.keyed greatest revision stored
    subst same
    obtain ⟨member, bound⟩ := ExtTreeSet.max?_eq_some_iff_mem_and_forall.mp maximal
    exact ⟨stored, member, bound⟩
  · intro found
    obtain ⟨stored, member, bound⟩ := found
    exact ⟨revision.id, ExtTreeSet.max?_eq_some_iff_mem_and_forall.mpr ⟨member, bound⟩, stored⟩

theorem materializedRevision_eq_none_iff :
    register.materializedRevision = none ↔ ∀ id, id ∉ register.frontierIds := by
  constructor
  · intro hidden id member
    cases greatest : register.frontierIds.max? with
    | none =>
      have empty := ExtTreeSet.max?_eq_none_iff.mp greatest
      simp [empty] at member
    | some top =>
      obtain ⟨inside, _⟩ := ExtTreeSet.max?_eq_some_iff_mem_and_forall.mp greatest
      obtain ⟨revision, stored⟩ := mem_iff.mp (mem_frontierIds.mp inside).1
      rw [materializedRevision, greatest, Option.bind_eq_bind, Option.bind_some, stored] at hidden
      cases hidden
  · intro none
    have greatest : register.frontierIds.max? = Option.none := by
      cases found : register.frontierIds.max? with
      | none => rfl
      | some top => exact absurd (ExtTreeSet.max?_eq_some_iff_mem_and_forall.mp found).1 (none top)
    rw [materializedRevision, greatest]
    rfl

theorem not_ancestor_of_unknown (valid : register.Valid) (unknown : id ∉ register)
    (descendant : RevisionId) :
    ¬ register.Ancestor id descendant :=
  fun path => unknown (valid.closed.ancestor_mem path)

section Merged

variable [DecidableEq Value]

theorem isAncestor_merge_left (leftValid : left.Valid) (done : left.merge right = .ok merged)
    {ancestor descendant : RevisionId} (known : descendant ∈ left) :
    merged.isAncestor ancestor descendant = left.isAncestor ancestor descendant := by
  apply Bool.eq_iff_iff.mpr
  rw [isAncestor_iff, isAncestor_iff]
  exact ancestor_iff_of_le leftValid.closed (left_le_merge done) known

theorem isAncestor_merge_right (rightValid : right.Valid) (done : left.merge right = .ok merged)
    {ancestor descendant : RevisionId} (known : descendant ∈ right) :
    merged.isAncestor ancestor descendant = right.isAncestor ancestor descendant := by
  apply Bool.eq_iff_iff.mpr
  rw [isAncestor_iff, isAncestor_iff]
  exact ancestor_iff_of_le rightValid.closed (right_le_merge done) known

theorem mem_merge (done : left.merge right = .ok merged) :
    id ∈ merged ↔ id ∈ left ∨ id ∈ right := by
  simp only [mem_iff, merge_revision done, exists_or]

/-- What lies below a merged revision lies below it on the side that knows it. -/
theorem ancestor_merge (leftValid : left.Valid) (rightValid : right.Valid)
    (done : left.merge right = .ok merged) {ancestor descendant : RevisionId} :
    merged.Ancestor ancestor descendant ↔ left.Ancestor ancestor descendant ∨
    right.Ancestor ancestor descendant := by
  constructor
  · intro path
    rcases (mem_merge done).mp path.descendant_mem with known | known
    · exact Or.inl (ancestor_of_le leftValid.closed (left_le_merge done) known path)
    · exact Or.inr (ancestor_of_le rightValid.closed (right_le_merge done) known path)
  · intro either
    rcases either with path | path
    · exact path.mono (left_le_merge done)
    · exact path.mono (right_le_merge done)

/-- The frontier of a merge: what is in both frontiers, and what is in one of them
and unknown to the other side. -/
theorem mem_frontierIds_merge (leftValid : left.Valid) (rightValid : right.Valid)
    (done : left.merge right = .ok merged) :
    id ∈ merged.frontierIds ↔ (id ∈ left.frontierIds ∧ id ∈ right.frontierIds) ∨
      (id ∈ left.frontierIds ∧ id ∉ right) ∨ (id ∈ right.frontierIds ∧ id ∉ left) := by
  have below : (∀ descendant, ¬ merged.Ancestor id descendant) ↔
      (∀ descendant, ¬ left.Ancestor id descendant) ∧
        ∀ descendant, ¬ right.Ancestor id descendant := by
    simp only [ancestor_merge leftValid rightValid done, not_or, forall_and]
  simp only [mem_frontierIds, mem_merge done, below]
  by_cases inLeft : id ∈ left
  · by_cases inRight : id ∈ right
    · simp [inLeft, inRight]
    · have free := not_ancestor_of_unknown rightValid inRight
      simp [inLeft, inRight, free]
  · by_cases inRight : id ∈ right
    · have free := not_ancestor_of_unknown leftValid inLeft
      simp [inLeft, inRight, free]
    · simp [inLeft, inRight]

theorem not_visible_of_ancestor (done : left.merge right = .ok merged) {descendant : RevisionId}
    (below : left.Ancestor id descendant ∨ right.Ancestor id descendant)
    {revision : ScalarRevision Value} (visible : merged.materializedRevision = some revision) :
    revision.id ≠ id := by
  intro same
  subst same
  obtain ⟨_, maximal, _⟩ := materializedRevision_eq_some_iff.mp visible
  rcases below with path | path
  · exact (mem_frontierIds.mp maximal).2 descendant (path.mono (left_le_merge done))
  · exact (mem_frontierIds.mp maximal).2 descendant (path.mono (right_le_merge done))

theorem merge_part (valid : register.Valid) {part : ScalarRegister Value} (partValid : part.Valid)
    (included : part ≤ register) :
    register.merge part = .ok register ∧ part.merge register = .ok register := by
  rw [merge_eq_ok_iff valid partValid, merge_eq_ok_iff partValid valid]
  constructor
  · intro id revision
    constructor
    · exact Or.inl
    · intro either
      exact either.elim (fun found => found) (included id revision)
  · intro id revision
    constructor
    · exact Or.inr
    · intro either
      exact either.elim (included id revision) fun found => found

/-- What is visible after a merge of valid registers that agree, and that nothing is
rolled back. -/
theorem merge_visible (left right : ScalarRegister Value) (leftValid : left.Valid)
    (rightValid : right.Valid) (agree : left.Agree right) :
    ∃ merged, left.merge right = .ok merged ∧
      (∀ id, id ∈ merged.frontierIds ↔ (id ∈ left.frontierIds ∧ id ∈ right.frontierIds) ∨
        (id ∈ left.frontierIds ∧ id ∉ right) ∨ (id ∈ right.frontierIds ∧ id ∉ left)) ∧
      (∀ ancestor ∈ left, ∀ descendant ∈ left,
        merged.isAncestor ancestor descendant = left.isAncestor ancestor descendant) ∧
      (∀ ancestor ∈ right, ∀ descendant ∈ right,
        merged.isAncestor ancestor descendant = right.isAncestor ancestor descendant) ∧
      (∀ revision, merged.materializedRevision = some revision ↔
        merged.revision revision.id = some revision ∧
        revision.id ∈ merged.frontierIds ∧
        ∀ other ∈ merged.frontierIds, (compare other revision.id).isLE) ∧
      (merged.materializedRevision = none ↔ ∀ id, id ∉ merged.frontierIds) ∧
      (∀ id descendant, left.isAncestor id descendant = true ∨
        right.isAncestor id descendant = true →
        ∀ revision, merged.materializedRevision = some revision → revision.id ≠ id) ∧
      ∀ part : ScalarRegister Value, part.Valid → part ≤ left →
        left.merge part = .ok left ∧ part.merge left = .ok left := by
  obtain ⟨merged, done⟩ := merge_isOk leftValid rightValid agree
  refine ⟨merged, done, fun id => mem_frontierIds_merge leftValid rightValid done, ?_, ?_,
    fun revision => materializedRevision_eq_some_iff, materializedRevision_eq_none_iff, ?_, ?_⟩
  · exact fun ancestor _ descendant known => isAncestor_merge_left leftValid done known
  · exact fun ancestor _ descendant known => isAncestor_merge_right rightValid done known
  · intro id descendant below revision visible
    rw [isAncestor_iff, isAncestor_iff] at below
    exact not_visible_of_ancestor done below visible
  · exact fun part partValid included => merge_part leftValid partValid included

/-- A stale state merged into one that has gone on: the descendant stays visible
although its identity is the smaller one. -/
theorem merge_visible_stale :
    let stale : ScalarRegister Nat := empty.put ⟨.ofByte 9, 10, ∅⟩
    let current := stale.put ⟨.ofByte 1, 11, {.ofByte 9}⟩
    ∃ merged, current.merge stale = .ok merged ∧ .ofByte 9 ∉ merged.frontierIds ∧
      merged.materialized = some 11 := by
  intro stale current
  have currentValid : current.Valid := by decide +kernel
  have staleValid : stale.Valid := by decide +kernel
  have again : current.merge stale = .ok current := by decide +kernel
  have included : stale ≤ current := right_le_merge again
  have agree : current.Agree stale := agree_of_le le_rfl included
  obtain ⟨merged, done, _, _, _, shown, _, hidden, part⟩ :=
    merge_visible current stale currentValid staleValid agree
  have same : merged = current := Except.ok.inj (done.symm.trans (part stale staleValid included).1)
  subst same
  have below : current.isAncestor (.ofByte 9) (.ofByte 1) = true := by decide +kernel
  have top : LogicalId.ofByte 1 ∈ current.frontierIds := by decide +kernel
  have covered : (LogicalId.ofByte 9 : RevisionId) ∉ current.frontierIds := by decide +kernel
  refine ⟨current, done, covered, ?_⟩
  have visible : current.materializedRevision = some ⟨.ofByte 1, 11, {.ofByte 9}⟩ := by
    rw [shown]
    refine ⟨by decide +kernel, top, ?_⟩
    intro other member
    have known : .ofByte 1 = other ∨ .ofByte 9 = other := by
      have listed := (mem_frontierIds.mp member).1
      rw [mem_put, mem_put] at listed
      rcases listed with first | second | absent
      · exact Or.inl first
      · exact Or.inr second
      · obtain ⟨_, found⟩ := mem_iff.mp absent
        simp at found
    rcases known with same | same
    · subst same
      exact Std.ReflCmp.isLE_rfl
    · exact absurd (same ▸ member) covered
  rw [materialized, visible]
  rfl

end Merged

end PrivateContinuum.Core.ScalarRegister
