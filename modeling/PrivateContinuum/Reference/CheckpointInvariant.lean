import PrivateContinuum.Reference.CausalityInvariant
import PrivateContinuum.Reference.Checkpoint

namespace PrivateContinuum.Reference

open Std (ExtTreeSet)
open Relation PrivateContinuum.Library

variable {Value : Type} {order : SetOrder}

section Picking

variable {revisions picked : Dict String (FrontierRevision Value)} {ids : List String}

theorem pick_exists (known : ∀ revisionId ∈ ids, revisionId ∈ revisions.keys) :
    ∃ picked, pick order revisions ids = .ok picked := by
  refine foldlM_exists (fun _ => True) ?_ trivial
  intro held revisionId member _
  obtain ⟨revision, found⟩ :=
    Dict.mem_keys.mp (known revisionId ((order.perm ids).mem_iff.mp member))
  exact ⟨held.set revisionId revision, by rw [pickOne, found], trivial⟩

theorem foldlM_pickOne {held last : Dict String (FrontierRevision Value)}
    (done : ids.foldlM (pickOne revisions) held = .ok last) {revisionId : String}
    {revision : FrontierRevision Value} : last.get revisionId = some revision ↔
      (revisionId ∈ ids ∧ revisions.get revisionId = some revision) ∨
        (revisionId ∉ ids ∧ held.get revisionId = some revision) := by
  induction ids generalizing held with
  | nil =>
    cases done
    simp
  | cons first rest ih =>
    rw [List.foldlM_cons, bind_ok_iff] at done
    obtain ⟨next, stepped, finished⟩ := done
    unfold pickOne at stepped
    split at stepped
    · rename_i item found
      cases stepped
      rw [ih finished, Dict.get_set, List.mem_cons]
      by_cases here : first = revisionId
      · subst here
        by_cases again : first ∈ rest
        · simp [again]
        · simp [again, found]
      · have other : ¬ revisionId = first := fun same => here same.symm
        simp [here, other]
    · cases stepped

theorem pick_ok (done : pick order revisions ids = .ok picked) {revisionId : String}
    {revision : FrontierRevision Value} :
    picked.get revisionId = some revision ↔ revisions.get revisionId = some revision ∧
    revisionId ∈ ids := by
  rw [foldlM_pickOne done, (order.perm ids).mem_iff]
  simp [and_comm]

end Picking

namespace ExactCoverageRegister

variable {register : ExactCoverageRegister Value} {revisionId parent child : String}

/-- A retained revision names a retained parent. -/
def RetainedNames (register : ExactCoverageRegister Value) (parent child : String) : Prop :=
  Names register.retained parent child ∧ parent ∈ register.retained.keys

/-- What `_validate` accepts. -/
structure Valid (register : ExactCoverageRegister Value) : Prop where
  disjoint : ∀ revisionId ∈ register.retained.keys, revisionId ∉ register.coveredIds
  canonical : ∀ revisionId ∈ register.coveredIds, Canonical revisionId
  closed : ∀ parent child, Names register.retained parent child →
    parent ∈ register.retained.keys ∨ parent ∈ register.coveredIds
  acyclic : ∀ revisionId, ¬ TransGen register.RetainedNames revisionId revisionId

theorem ascent_parent_iff :
    register.ascent.Parent parent child ↔ register.RetainedNames parent child := by
  have shown : ∀ parents, register.retainedParents child = .ok parents ↔
      ∃ revision, register.retained.get child = some revision ∧
        revision.parents.toList.filter (· ∈ register.retained.keys) = parents := by
    intro parents
    rw [retainedParents]
    cases register.retained.get child with
    | none => simp
    | some revision => simp
  constructor
  · rintro ⟨parents, listed, member⟩
    obtain ⟨revision, found, same⟩ := (shown parents).mp listed
    rw [← same, List.mem_filter, decide_eq_true_eq, ExtTreeSet.mem_toList] at member
    exact ⟨⟨revision, found, member.1⟩, member.2⟩
  · rintro ⟨⟨revision, found, member⟩, known⟩
    refine ⟨_, (shown _).mpr ⟨revision, found, rfl⟩, ?_⟩
    rw [List.mem_filter, decide_eq_true_eq, ExtTreeSet.mem_toList]
    exact ⟨member, known⟩

theorem available_iff {retained : List String} {covered : ExtTreeSet String} :
    parent ∈ retained ++ covered.toList ↔ parent ∈ retained ∨ parent ∈ covered := by
  rw [List.mem_append, ExtTreeSet.mem_toList]

theorem acyclic_iff : (∃ after, register.ascent.visitAll register.retained.keys = .ok after) ↔
    ∀ revisionId, ¬ TransGen register.RetainedNames revisionId revisionId := by
  have same : register.ascent.Parent = register.RetainedNames := by
    funext parent child
    exact propext ascent_parent_iff
  have complete : register.ascent.Complete register.retained.keys := by
    intro child known
    obtain ⟨revision, found⟩ := Dict.mem_keys.mp known
    refine ⟨revision.parents.toList.filter (· ∈ register.retained.keys), ?_, ?_⟩
    · change register.retainedParents child = _
      rw [retainedParents, found]
    · intro parent member
      exact of_decide_eq_true (List.mem_filter.mp member).2
  rw [Ascent.visitAll_ok_iff complete]
  simp only [Ascent.Acyclic, Ascent.Ancestor, same]
  refine ⟨fun every revisionId round => ?_, fun every revisionId _ => every revisionId⟩
  obtain ⟨_, _, ⟨revision, found, _⟩, _⟩ := TransGen.tail'_iff.mp round
  exact every revisionId (Dict.mem_keys.mpr ⟨revision, found⟩) round

theorem validate_ok_iff : register.validate = .ok () ↔ register.Valid := by
  have apart : register.retained.keys.any (· ∈ register.coveredIds) = false ↔
      ∀ revisionId ∈ register.retained.keys, revisionId ∉ register.coveredIds := by simp
  unfold validate
  cases shared : register.retained.keys.any (· ∈ register.coveredIds) with
  | true =>
    constructor
    · intro done
      cases done
    · intro valid
      rw [apart.mpr valid.disjoint] at shared
      cases shared
  | false =>
    change (checkAllCanonical register.coveredIds.toList >>= fun _ => _) = _ ↔ _
    rw [bind_ok_iff]
    constructor
    · rintro ⟨passed, checked, continued⟩
      rw [bind_ok_iff] at continued
      obtain ⟨_, named, continued⟩ := continued
      rw [bind_ok_iff] at continued
      obtain ⟨after, visited, _⟩ := continued
      refine ⟨apart.mp shared, ?_, ?_, acyclic_iff.mp ⟨after, visited⟩⟩
      · intro revisionId member
        exact passed.down revisionId (ExtTreeSet.mem_toList.mpr member)
      · intro parent child names
        exact available_iff.mp
          ((FrontierCausalRegister.parentsChecked_iff _).mp named parent child names)
    · intro valid
      obtain ⟨passed, checked⟩ := checkAllCanonical_ok_iff.mpr fun revisionId member =>
        valid.canonical revisionId (ExtTreeSet.mem_toList.mp member)
      obtain ⟨after, visited⟩ := acyclic_iff.mpr valid.acyclic
      have named := (FrontierCausalRegister.parentsChecked_iff .compactedParentsUnknown).mpr
        fun parent child names =>
        available_iff.mpr (valid.closed parent child names)
      exact ⟨passed, checked, by dsimp only at named ⊢; rw [named, visited]; rfl⟩

end ExactCoverageRegister

end PrivateContinuum.Reference
