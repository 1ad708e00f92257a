import Mathlib
import PrivateContinuum.Reference.PositionOrder

namespace PrivateContinuum.Reference

open Relation PrivateContinuum.Library

namespace FuguePositionTree

variable {tree other result : FuguePositionTree} {positionId a b : String}
  {positionIds : List String}

section Growth

theorem Grows.keeps (grows : tree.Grows result) (valid : tree.validate = .ok ()) :
    tree.Included result ∧ result.validate = .ok () := by
  cases grows with
  | create positionId left right done =>
    obtain ⟨_, stays, inside, _⟩ := createBetween_ok valid done
    exact ⟨inside, stays⟩
  | merge other done =>
    obtain ⟨stays, held⟩ := merge_ok done
    exact ⟨fun positionId position found => (held positionId position).mpr (Or.inl found), stays⟩
  | merged other done =>
    obtain ⟨stays, held⟩ := merge_ok done
    exact ⟨fun positionId position found => (held positionId position).mpr (Or.inr found), stays⟩

theorem grown_keeps (grown : ReflTransGen Grows tree result) (valid : tree.validate = .ok ()) :
    tree.Included result ∧ result.validate = .ok () := by
  induction grown with
  | refl => exact ⟨Included.refl, valid⟩
  | tail _ grows ih =>
    obtain ⟨inside, stays⟩ := grows.keeps ih.2
    exact ⟨ih.1.trans inside, stays⟩

/-- What is made of some trees by merging them, in some order. -/
inductive MergeOf : List FuguePositionTree → FuguePositionTree → Prop where
  | one (tree : FuguePositionTree) : MergeOf [tree] tree
  | merge {sources others : List FuguePositionTree} {tree other result : FuguePositionTree}
      (left : MergeOf sources tree)
      (right : MergeOf others other) (done : tree.merge other = .ok result) :
      MergeOf (sources ++ others) result

theorem MergeOf.get_iff {sources : List FuguePositionTree} (made : MergeOf sources result)
    {position : FuguePosition} :
    result.positions.get positionId = some position ↔
    ∃ source ∈ sources, source.positions.get positionId = some position := by
  induction made with
  | one tree => simp only [List.mem_singleton, exists_eq_left]
  | merge left right done leftIH rightIH =>
    rw [(merge_ok done).2, leftIH, rightIH]
    simp only [List.mem_append, or_and_right, exists_or]

theorem MergeOf.valid {sources : List FuguePositionTree} (made : MergeOf sources result)
    (sound : ∀ source ∈ sources, source.validate = .ok ()) : result.validate = .ok () := by
  cases made with
  | one => exact sound result (List.mem_singleton_self result)
  | merge _ _ done => exact (merge_ok done).1

/-- The two trees hold the same positions, each in an order of its own. -/
def Same (tree other : FuguePositionTree) : Prop :=
  ∀ positionId, tree.positions.get positionId = other.positions.get positionId

theorem MergeOf.same {sources others : List FuguePositionTree} (made : MergeOf sources tree)
    (remade : MergeOf others other)
    (alike : ∀ source, source ∈ sources ↔ source ∈ others) : tree.Same other := by
  intro positionId
  ext position
  simp only [made.get_iff, remade.get_iff, alike]

theorem Same.keys (same : tree.Same other) :
    positionId ∈ tree.positions.keys ↔ positionId ∈ other.positions.keys := by
  rw [Dict.mem_keys, Dict.mem_keys, same]

/-- Trees with the same positions compare everything alike, also what neither of them holds. -/
theorem Same.compare_eq (same : tree.Same other) (valid : tree.validate = .ok ()) :
    tree.compare a b = other.compare a b := by
  by_cases known : a ∈ tree.positions.keys ∧ b ∈ tree.positions.keys
  · have inside : tree.Included other := fun positionId position found => same positionId ▸ found
    exact (inside.compare_eq valid known.1 known.2).symm
  · rw [not_and_or] at known
    rw [compare, compare]
    by_cases equal : a = b
    · rw [if_pos equal, if_pos equal]
    · rw [if_neg equal, if_neg equal, if_pos known, if_pos]
      rwa [← same.keys, ← same.keys]

end Growth

section Sorting

theorem StrictlyOrdered.flip (ordered : tree.StrictlyOrdered) (inA : a ∈ tree.positions.keys)
    (inB : b ∈ tree.positions.keys) (apart : a ≠ b) :
    tree.Before a b ∨ tree.compare a b = .ok 1 ∧ tree.Before b a := by
  rcases ordered.total a inA b inB with before | same | after
  · exact Or.inl before
  · exact absurd ((ordered.equal a inA b inB).mp same) apart
  · exact Or.inr ⟨after, ordered.swap a inA b inB 1 after⟩

theorem StrictlyOrdered.asymm (ordered : tree.StrictlyOrdered) (inA : a ∈ tree.positions.keys)
    (inB : b ∈ tree.positions.keys) (before : tree.Before a b)
    (after : tree.Before b a) : a = b := by
  have back : tree.compare b a = .ok (- -1) := ordered.swap a inA b inB (-1) before
  rw [Before, back] at after
  cases after

theorem StrictlyOrdered.insertSorted (ordered : tree.StrictlyOrdered)
    (known : positionId ∈ tree.positions.keys)
    (among : ∀ member ∈ positionIds, member ∈ tree.positions.keys)
    (fresh : positionId ∉ positionIds) (sorted : positionIds.Pairwise tree.Before) :
    ∃ placed, tree.insertSorted positionId positionIds = .ok placed ∧
      placed.Perm (positionId :: positionIds) ∧ placed.Pairwise tree.Before := by
  induction positionIds with
  | nil => exact ⟨[positionId], rfl, List.Perm.refl _, List.pairwise_singleton _ _⟩
  | cons next rest ih =>
    rw [List.forall_mem_cons] at among
    rw [List.mem_cons, not_or] at fresh
    have tailed := List.pairwise_cons.mp sorted
    rcases ordered.flip known among.1 fresh.1 with before | ⟨after, behind⟩
    · refine ⟨positionId :: next :: rest, ?_, List.Perm.refl _, List.pairwise_cons.mpr ⟨?_, sorted⟩⟩
      · rw [FuguePositionTree.insertSorted, show tree.compare positionId next = .ok (-1) from
          before]
        rfl
      · intro member within
        rcases List.mem_cons.mp within with rfl | later
        · exact before
        · exact ordered.trans _ known _ among.1 _ (among.2 _ later) before (tailed.1 member later)
    · obtain ⟨placed, done, permuted, inOrder⟩ := ih among.2 fresh.2 tailed.2
      refine ⟨next :: placed, ?_, (permuted.cons next).trans (List.Perm.swap _ _ _),
        List.pairwise_cons.mpr ⟨?_, inOrder⟩⟩
      · rw [FuguePositionTree.insertSorted, after, done]
        rfl
      · intro member within
        rcases List.mem_cons.mp (permuted.mem_iff.mp within) with rfl | later
        · exact behind
        · exact tailed.1 member later

/-- Sorted positions with some more, put in one by one. -/
theorem StrictlyOrdered.foldlM_insertSorted (ordered : tree.StrictlyOrdered)
    {sorted : List String} (distinct : (positionIds ++ sorted).Nodup)
    (among : ∀ member ∈ positionIds ++ sorted, member ∈ tree.positions.keys)
    (inOrder : sorted.Pairwise tree.Before) : ∃ last,
      positionIds.foldlM (fun sorted positionId => tree.insertSorted positionId sorted) sorted =
        .ok last ∧ last.Perm (positionIds ++ sorted) ∧ last.Pairwise tree.Before := by
  induction positionIds generalizing sorted with
  | nil => exact ⟨sorted, rfl, List.Perm.refl _, inOrder⟩
  | cons next rest ih =>
    rw [List.cons_append] at distinct among
    obtain ⟨fresh, apart⟩ := List.nodup_cons.mp distinct
    rw [List.mem_append, not_or] at fresh
    rw [List.forall_mem_cons] at among
    obtain ⟨placed, done, permuted, placedInOrder⟩ := ordered.insertSorted among.1
      (fun member within => among.2 member (List.mem_append_right rest within)) fresh.2 inOrder
    have moved : (rest ++ placed).Perm (next :: (rest ++ sorted)) :=
      (permuted.append_left rest).trans List.perm_middle
    have known : ∀ member ∈ rest ++ placed, member ∈ tree.positions.keys := by
      intro member within
      rcases List.mem_cons.mp (moved.mem_iff.mp within) with rfl | before
      · exact among.1
      · exact among.2 member before
    obtain ⟨last, ran, lastPermuted, lastInOrder⟩ :=
      ih (moved.nodup_iff.mpr distinct) known placedInOrder
    refine ⟨last, ?_, lastPermuted.trans moved, lastInOrder⟩
    rw [List.foldlM_cons, done]
    exact ran

theorem StrictlyOrdered.sortedPositions (ordered : tree.StrictlyOrdered)
    (distinct : positionIds.Nodup) (among : ∀ member ∈ positionIds, member ∈ tree.positions.keys) :
    ∃ sorted, tree.sortedPositions positionIds = .ok sorted ∧
      sorted.Perm positionIds ∧ sorted.Pairwise tree.Before := by
  rw [FuguePositionTree.sortedPositions, if_neg (not_not.mpr distinct)]
  have filled := ordered.foldlM_insertSorted (by rwa [List.append_nil])
    (by rwa [List.append_nil]) List.Pairwise.nil
  rwa [List.append_nil] at filled

/-- A sorted list does not depend on the order in which its positions are given. -/
theorem StrictlyOrdered.sortedPositions_perm (ordered : tree.StrictlyOrdered) {others : List String}
    (permuted : positionIds.Perm others) (distinct : positionIds.Nodup)
    (among : ∀ member ∈ positionIds, member ∈ tree.positions.keys) :
    tree.sortedPositions positionIds = tree.sortedPositions others := by
  obtain ⟨sorted, done, same, inOrder⟩ := ordered.sortedPositions distinct among
  obtain ⟨again, redone, alike, alsoInOrder⟩ :=
    ordered.sortedPositions (permuted.nodup_iff.mp distinct)
    fun member within => among member (permuted.mem_iff.mpr within)
  have known : ∀ {member}, member ∈ sorted → member ∈ tree.positions.keys :=
    fun within => among _ (same.mem_iff.mp within)
  have reordered : sorted.Perm again := same.trans (permuted.trans alike.symm)
  rw [done, redone, List.Perm.eq_of_pairwise (fun one two here there => ordered.asymm (known here)
    (known (reordered.mem_iff.mpr there))) inOrder alsoInOrder reordered]

theorem Same.sortedPositions_eq (same : tree.Same other) (valid : tree.validate = .ok ()) :
    tree.sortedPositions = other.sortedPositions := by
  have comparisons : tree.compare = other.compare := by
    funext one two
    exact same.compare_eq valid
  have insertions : tree.insertSorted = other.insertSorted := by
    funext positionId list
    induction list with
    | nil => rfl
    | cons next rest ih =>
      rw [FuguePositionTree.insertSorted, FuguePositionTree.insertSorted, comparisons, ih]
  funext list
  rw [FuguePositionTree.sortedPositions, FuguePositionTree.sortedPositions, insertions]

end Sorting

/-- The positions of a valid tree whose identifiers are all different are in one strict total
order. Growth does not change it, a new position enters it between its neighbours, and
replicas that merge the same trees in any order sort by it alike. -/
theorem positions_stable_total_order :
    (∀ tree : FuguePositionTree, tree.validate = .ok () → tree.Distinct → tree.StrictlyOrdered) ∧
    (∀ tree result : FuguePositionTree, tree.validate = .ok () → ReflTransGen Grows tree result →
      ∀ a ∈ tree.positions.keys, ∀ b ∈ tree.positions.keys, result.compare a b = tree.compare a b) ∧
    (∀ (tree : FuguePositionTree) (positionId : String) (left right : Option String),
      tree.validate = .ok () →
      FailsOnly (fun failure => refusesArguments failure = true)
        (tree.createBetween positionId left right) ∧
      (tree.Fits positionId left right →
        (∀ text ∈ positionId :: (left.toList ++ right.toList), Canonical text) →
        ∃ result, tree.createBetween positionId left right = .ok result) ∧
      ∀ result, tree.createBetween positionId left right = .ok result →
        (∀ leftId, left = some leftId → result.Before leftId positionId) ∧
          ∀ rightId, right = some rightId → result.Before positionId rightId) ∧
    ∀ (sources others : List FuguePositionTree) (tree other : FuguePositionTree),
      (∀ source ∈ sources, source.validate = .ok ()) →
      (∀ source, source ∈ sources ↔ source ∈ others) →
      MergeOf sources tree → MergeOf others other →
      (∀ positionIds, tree.sortedPositions positionIds = other.sortedPositions positionIds) ∧
      (tree.Distinct → ∀ positionIds : List String, positionIds.Nodup →
        (∀ positionId ∈ positionIds, positionId ∈ tree.positions.keys) →
        ∃ sorted, sorted.Perm positionIds ∧ sorted.Pairwise tree.Before ∧
          ∀ permuted, positionIds.Perm permuted → tree.sortedPositions permuted = .ok sorted ∧
            other.sortedPositions permuted = .ok sorted) := by
  refine ⟨fun tree => strictlyOrdered, ?_, ?_, ?_⟩
  · intro tree result valid grown a inA b inB
    exact (grown_keeps grown valid).1.compare_eq valid inA inB
  · intro tree positionId left right valid
    refine ⟨createBetween_failsOnly valid,
      fun fits canonical => fits.createBetween_exists valid canonical, ?_⟩
    intro result done
    exact (createBetween_ok valid done).2.2.2
  · intro sources others tree other sound alike made remade
    have valid : tree.validate = .ok () := made.valid sound
    have equal : tree.sortedPositions = other.sortedPositions :=
      (made.same remade alike).sortedPositions_eq valid
    refine ⟨fun positionIds => by rw [equal], ?_⟩
    intro distinct positionIds single among
    have ordered : tree.StrictlyOrdered := strictlyOrdered valid distinct
    obtain ⟨sorted, done, permuted, inOrder⟩ := ordered.sortedPositions single among
    refine ⟨sorted, permuted, inOrder, fun others reordered => ?_⟩
    rw [← equal, ← ordered.sortedPositions_perm reordered single among]
    exact ⟨done, done⟩

/-- Two replicas place a position each, one between the two that both have and one behind
them, and sort all four alike after they have merged. -/
theorem positions_stable_total_order_merged :
    let root : FuguePosition := ⟨"20", none, false, by decide +kernel, by simp, by simp⟩
    let last : FuguePosition :=
      ⟨"0f", some "20", false, by decide +kernel, by decide +kernel, by decide +kernel⟩
    let inner : FuguePosition :=
      ⟨"30", some "0f", true, by decide +kernel, by decide +kernel, by decide +kernel⟩
    let behind : FuguePosition :=
      ⟨"40", some "0f", false, by decide +kernel, by decide +kernel, by decide +kernel⟩
    let base : FuguePositionTree := ⟨(Dict.empty.set "20" root).set "0f" last⟩
    let one : FuguePositionTree := ⟨base.positions.set "30" inner⟩
    let two : FuguePositionTree := ⟨base.positions.set "40" behind⟩
    let tree : FuguePositionTree := ⟨one.positions.set "40" behind⟩
    let other : FuguePositionTree := ⟨two.positions.set "30" inner⟩
    base.createBetween "30" (some "20") (some "0f") = .ok one ∧ one.merge two = .ok tree ∧
      two.merge one = .ok other ∧ one.StrictlyOrdered ∧ one.Before "20" "30" ∧
      one.Before "30" "0f" ∧
      one.compare "0f" "20" = base.compare "0f" "20" ∧
      ∃ sorted, sorted.Perm ["0f", "20", "30", "40"] ∧ sorted.Pairwise tree.Before ∧
        tree.sortedPositions ["40", "30", "0f", "20"] = .ok sorted ∧
        other.sortedPositions ["40", "30", "0f", "20"] = .ok sorted := by
  intro root last inner behind base one two tree other
  obtain ⟨strict, stable, placed, merged⟩ := positions_stable_total_order
  have valid : base.validate = .ok () := by decide +kernel
  have created : base.createBetween "30" (some "20") (some "0f") = .ok one := by decide +kernel
  have forth : one.merge two = .ok tree := by decide +kernel
  have back : two.merge one = .ok other := by decide +kernel
  have between := (placed base "30" (some "20") (some "0f") valid).2.2 one created
  have grown : ReflTransGen Grows base one := .single (.create "30" _ _ created)
  have sources : ∀ source ∈ [one] ++ [two], source.validate = .ok () := by decide +kernel
  have alike : ∀ source, source ∈ [one] ++ [two] ↔ source ∈ [two] ++ [one] := by simp [or_comm]
  have sorts := (merged _ _ tree other sources alike (.merge (.one one) (.one two) forth)
    (.merge (.one two) (.one one) back)).2 (distinct_iff.mpr (by decide +kernel)) ["0f",
    "20", "30", "40"]
    (by decide +kernel) (by decide +kernel)
  obtain ⟨sorted, permuted, ordered, both⟩ := sorts
  exact ⟨created, forth, back,
    strict one (by decide +kernel) (distinct_iff.mpr (by decide +kernel)),
    between.1 "20" rfl, between.2 "0f" rfl,
    stable base one valid grown "0f" (by decide +kernel) "20" (by decide +kernel),
    sorted, permuted, ordered, both _ (by decide +kernel)⟩

end FuguePositionTree

end PrivateContinuum.Reference
