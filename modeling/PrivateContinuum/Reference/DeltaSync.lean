import PrivateContinuum.Reference.CausalityInvariant

namespace PrivateContinuum.Reference

open Std (ExtTreeSet)
open PrivateContinuum.Library

namespace FrontierCausalRegister

variable {Value : Type} {sender receiver result : FrontierCausalRegister Value}
  {known : ExtTreeSet String} {delta : FrontierDelta Value}

/-- The revisions of the sender outside of the baseline, and what they refer to
outside of themselves. -/
structure Delta (sender : FrontierCausalRegister Value) (known : ExtTreeSet String)
    (delta : FrontierDelta Value) : Prop where
  revisions : delta.revisions = sender.revisions.filter fun revisionId => revisionId ∉ known
  external : ∀ parent, parent ∈ delta.externalParents ↔
    (∃ child, Names delta.revisions parent child) ∧ parent ∉ delta.revisions.keys

theorem baseline_iff : known.toList.any (· ∉ sender.revisions.keys) = false ↔
    ∀ revisionId ∈ known, revisionId ∈ sender.revisions.keys := by
  simp [ExtTreeSet.mem_toList]

theorem missingFrom_exists (baseline : ∀ revisionId ∈ known, revisionId ∈ sender.revisions.keys) :
    ∃ delta, sender.missingFrom known = .ok delta := by
  rw [missingFrom, baseline_iff.mpr baseline]
  exact ⟨_, rfl⟩

theorem missingFrom_ok (done : sender.missingFrom known = .ok delta) :
    sender.Delta known delta := by
  unfold missingFrom at done
  split at done
  · cases done
  cases done
  refine ⟨rfl, fun parent => ?_⟩
  rw [ExtTreeSet.mem_ofList, List.contains_iff_mem, List.mem_filter, List.mem_flatMap]
  simp only [Dict.mem_values, ExtTreeSet.mem_toList, decide_eq_true_eq]
  refine and_congr_left fun _ => ?_
  constructor
  · rintro ⟨revision, ⟨child, found⟩, member⟩
    exact ⟨child, revision, found, member⟩
  · rintro ⟨child, revision, found, member⟩
    exact ⟨revision, ⟨child, found⟩, member⟩

theorem Delta.available (cut : sender.Delta known delta)
    (external : ∀ parent ∈ delta.externalParents, parent ∈ receiver.revisions.keys)
    {parent child : String} (names : Names delta.revisions parent child) :
    parent ∈ receiver.revisions.keys ++ delta.revisions.keys := by
  rw [List.mem_append]
  by_cases inside : parent ∈ delta.revisions.keys
  · exact Or.inr inside
  · exact Or.inl (external parent ((cut.external parent).mpr ⟨⟨child, names⟩, inside⟩))

theorem Delta.get_iff (cut : sender.Delta known delta) {revisionId : String}
    {revision : FrontierRevision Value} :
    delta.revisions.get revisionId = some revision ↔
      sender.revisions.get revisionId = some revision ∧ revisionId ∉ known := by
  rw [cut.revisions, Dict.get_filter, decide_eq_true_eq]

variable [DecidableEq Value]

/-- A delta is applied where its outer parents are known and all of its parents are
available, like a merge with its revisions. -/
theorem applyDelta_eq
    (external : ∀ parent ∈ delta.externalParents, parent ∈ receiver.revisions.keys)
    (available : ∀ parent child, Names delta.revisions parent child →
      parent ∈ receiver.revisions.keys ++ delta.revisions.keys) :
    receiver.applyDelta delta = receiver.merge ⟨delta.revisions⟩ := by
  have passes : (forM delta.revisions.values fun revision =>
      if missingParents (receiver.revisions.keys ++ delta.revisions.keys) revision ≠ [] then
        throw .unresolvedCausalParent else pure () : Except ModelError Unit) = .ok () := by
    rw [forM_ok_iff]
    intro revision member
    rw [if_neg (not_not.mpr (closed_iff.mpr available revision member))]
    rfl
  unfold applyDelta merge
  dsimp only
  rw [baseline_iff.mpr external, passes]
  rfl

theorem applyDelta_external (done : receiver.applyDelta delta = .ok result) :
    ∀ parent ∈ delta.externalParents, parent ∈ receiver.revisions.keys := by
  rw [← baseline_iff]
  cases lacks : delta.externalParents.toList.any (· ∉ receiver.revisions.keys) with
  | false => rfl
  | true =>
    unfold applyDelta at done
    dsimp only at done
    rw [lacks] at done
    cases done

theorem applyDelta_ok_iff (cut : sender.Delta known delta) :
    receiver.applyDelta delta = .ok result ↔
      (∀ parent ∈ delta.externalParents, parent ∈ receiver.revisions.keys) ∧
        Dict.keepAll ModelError.revisionCollision receiver.revisions delta.revisions =
          .ok result.revisions ∧
        result.Valid := by
  constructor
  · intro done
    have external := applyDelta_external done
    rw [applyDelta_eq external fun _ _ => cut.available external] at done
    exact ⟨external, merge_ok_iff.mp done⟩
  · rintro ⟨external, merged⟩
    rw [applyDelta_eq external fun _ _ => cut.available external]
    exact merge_ok_iff.mpr merged

/-- With known outer parents, a delta of a register that the receiver agrees with is
applied. -/
theorem applyDelta_exists (valid : receiver.Valid) (also : sender.Valid)
    (agree : receiver.revisions.Agree sender.revisions) (cut : sender.Delta known delta)
    (external : ∀ parent ∈ delta.externalParents, parent ∈ receiver.revisions.keys) :
    ∃ result, receiver.applyDelta delta = .ok result := by
  have shares : receiver.revisions.Agree delta.revisions := fun revisionId first second held sent =>
    agree revisionId first second held (cut.get_iff.mp sent).1
  obtain ⟨merged, kept⟩ := Dict.keepAll_exists_iff.mpr shares
  obtain ⟨_, union⟩ := Dict.keepAll_ok kept
  refine ⟨⟨merged⟩, (applyDelta_ok_iff cut).mpr ⟨external, kept, ?_⟩⟩
  refine valid.extended also (fun _ _ held => (union _ _).mpr (Or.inl held)) ?_ ?_
  · intro revisionId revision found
    rcases (union revisionId revision).mp found with held | sent
    · exact Or.inl held
    · exact Or.inr (cut.get_iff.mp sent).1
  · rintro parent child ⟨revision, found, member⟩
    rw [Dict.mem_keys]
    have among : parent ∈ receiver.revisions.keys ++ delta.revisions.keys := by
      rcases (union child revision).mp found with held | sent
      · exact List.mem_append_left _ (valid.closed parent child ⟨revision, held, member⟩)
      · exact cut.available external ⟨revision, sent, member⟩
    rcases List.mem_append.mp among with held | sent
    · obtain ⟨item, stored⟩ := Dict.mem_keys.mp held
      exact ⟨item, (union parent item).mpr (Or.inl stored)⟩
    · obtain ⟨item, stored⟩ := Dict.mem_keys.mp sent
      exact ⟨item, (union parent item).mpr (Or.inr stored)⟩

/-- With a baseline that both sides hold, the delta has known outer parents, and merging
with it is merging with the sender. -/
theorem applyDelta_eq_merge (also : sender.Valid)
    (agree : receiver.revisions.Agree sender.revisions)
    (baseline : ∀ revisionId ∈ known, revisionId ∈ sender.revisions.keys ∧
      revisionId ∈ receiver.revisions.keys)
    (cut : sender.Delta known delta) : receiver.applyDelta delta = receiver.merge sender := by
  have external : ∀ parent ∈ delta.externalParents, parent ∈ receiver.revisions.keys := by
    intro parent outer
    obtain ⟨⟨child, revision, sent, member⟩, absent⟩ := (cut.external parent).mp outer
    obtain ⟨item, stored⟩ :=
      Dict.mem_keys.mp (also.closed parent child ⟨revision, (cut.get_iff.mp sent).1, member⟩)
    by_contra unknown
    refine absent (Dict.mem_keys.mpr ⟨item, cut.get_iff.mpr ⟨stored, fun held => ?_⟩⟩)
    exact unknown (baseline parent held).2
  have there : ∀ revisionId revision, sender.revisions.get revisionId = some revision →
      decide (revisionId ∉ known) = false → receiver.revisions.get revisionId = some revision := by
    intro revisionId revision sent dropped
    have held : revisionId ∈ known := by simpa using dropped
    obtain ⟨item, stored⟩ := Dict.mem_keys.mp (baseline revisionId held).2
    rw [stored, agree revisionId item revision stored sent]
  have same : Dict.keepAll ModelError.revisionCollision receiver.revisions delta.revisions =
      Dict.keepAll ModelError.revisionCollision receiver.revisions sender.revisions := by
    rw [cut.revisions]
    exact Dict.keepAll_filter there
  rw [applyDelta_eq external fun _ _ => cut.available external, merge, merge, same]

/-- Synchronizing by a delta equals the full merge, and a delta is applied as a whole or
not at all. -/
theorem delta_equals_merge :
    (∀ (sender receiver : FrontierCausalRegister Value) (known : ExtTreeSet String),
      sender.validate = .ok () → receiver.validate = .ok () →
      receiver.revisions.Agree sender.revisions →
      (∀ revisionId ∈ known, revisionId ∈ sender.revisions.keys ∧
        revisionId ∈ receiver.revisions.keys) →
      ∃ delta result, sender.missingFrom known = .ok delta ∧
        receiver.applyDelta delta = .ok result ∧ receiver.merge sender = .ok result) ∧
    (∀ (sender receiver : FrontierCausalRegister Value) (known : ExtTreeSet String),
      sender.validate = .ok () → receiver.validate = .ok () →
      receiver.revisions.Agree sender.revisions →
      (∀ revisionId ∈ known, revisionId ∈ sender.revisions.keys) →
      ∃ delta, sender.missingFrom known = .ok delta ∧
        ((∃ result, receiver.applyDelta delta = .ok result) ↔
          ∀ parent ∈ delta.externalParents, parent ∈ receiver.revisions.keys) ∧
        ∀ result, receiver.applyDelta delta = .ok result →
          (∀ revisionId revision, result.revisions.get revisionId = some revision ↔
            receiver.revisions.get revisionId = some revision ∨
              delta.revisions.get revisionId = some revision) ∧
          result.Valid) := by
  constructor
  · intro sender receiver known validated also agree baseline
    have sound := validate_ok_iff.mp validated
    obtain ⟨delta, cut⟩ :=
      missingFrom_exists fun revisionId member => (baseline revisionId member).1
    obtain ⟨result, merged⟩ := merge_exists (validate_ok_iff.mp also) sound agree
    refine ⟨delta, result, cut, ?_, merged⟩
    rw [applyDelta_eq_merge sound agree baseline (missingFrom_ok cut), merged]
  · intro sender receiver known validated also agree baseline
    obtain ⟨delta, done⟩ := missingFrom_exists baseline
    have cut := missingFrom_ok done
    refine ⟨delta, done, ⟨?_, ?_⟩, ?_⟩
    · rintro ⟨result, applied⟩
      exact applyDelta_external applied
    · exact applyDelta_exists (validate_ok_iff.mp also) (validate_ok_iff.mp validated) agree cut
    · intro result applied
      obtain ⟨_, kept, sound⟩ := (applyDelta_ok_iff cut).mp applied
      exact ⟨(Dict.keepAll_ok kept).2, sound⟩

/-- A sender with a chain of two revisions, and a receiver with the first of them. -/
theorem delta_equals_merge_chain :
    let first : FrontierRevision Nat := ⟨"11", 7, ∅, by decide +kernel, by simp, by simp⟩
    let second : FrontierRevision Nat :=
      ⟨"12", 8, ExtTreeSet.ofList ["11"], by decide +kernel, by decide +kernel,
      by decide +kernel⟩
    let receiver : FrontierCausalRegister Nat := ⟨Dict.empty.set "11" first⟩
    let sender : FrontierCausalRegister Nat := ⟨(Dict.empty.set "11" first).set "12" second⟩
    ∃ delta result, sender.missingFrom (ExtTreeSet.ofList ["11"]) = .ok delta ∧
      receiver.applyDelta delta = .ok result ∧ receiver.merge sender = .ok result := by
  intro first second receiver sender
  refine (@delta_equals_merge Nat _).1 sender receiver (ExtTreeSet.ofList ["11"])
    (by decide +kernel) (by decide +kernel) ?_ (by decide +kernel)
  have merges :
      (Dict.keepAll ModelError.revisionCollision receiver.revisions
        sender.revisions).toOption.isSome = true := by
    decide +kernel
  obtain ⟨merged, some⟩ := Option.isSome_iff_exists.mp merges
  exact (Dict.keepAll_ok (toOption_eq_some_iff.mp some)).1

end FrontierCausalRegister

end PrivateContinuum.Reference
