import PrivateContinuum.Library.CycleSearch

/-! Cycles that are broken one node at a time: the node with the least key on a cycle falls
back to its next choice. The order in which the cycles are broken does not matter. -/

namespace PrivateContinuum.Library

open Relation
open Std (OrientedOrd)

/-- What each node points to after so many fallbacks, and the key that it has then. -/
structure Fallback (Node Key : Type) where
  parent : Node → Nat → Option Node
  key : Node → Nat → Key

namespace Fallback

variable {Node Key : Type}

section Relations

variable (fallback : Fallback Node Key) (taken : Node → Nat)

def Edge (node other : Node) : Prop := fallback.parent node (taken node) = some other

def Reaches : Node → Node → Prop := ReflTransGen (fallback.Edge taken)

def OnCycle (node : Node) : Prop := TransGen (fallback.Edge taken) node node

def Settled : Prop := ∀ node, ¬ fallback.OnCycle taken node

/-- A node on a cycle whose key is less than that of every other node on it. -/
structure Loses [Ord Key] (node : Node) : Prop where
  round : fallback.OnCycle taken node
  least : ∀ other, fallback.Reaches taken node other → other ≠ node →
    compare (fallback.key node (taken node)) (fallback.key other (taken other)) = .lt

end Relations

variable {fallback : Fallback Node Key} {taken next last : Node → Nat} {node other : Node}

theorem edge_unique : Relator.RightUnique (fallback.Edge taken) := by
  intro node left right first second
  rw [Edge, first, Option.some.injEq] at second
  exact second

section Congruence

/-- A change outside of what a node reaches is not seen from the node. -/
theorem reaches_congr
    (same : ∀ other, fallback.Reaches taken node other → next other = taken other) :
    fallback.Reaches next node other ↔ fallback.Reaches taken node other := by
  constructor
  · intro path
    induction path with
    | refl => exact .refl
    | tail _ step ih =>
      rw [Edge, same _ ih] at step
      exact .tail ih step
  · intro path
    induction path with
    | refl => exact .refl
    | tail before step ih =>
      rw [Edge, ← same _ before] at step
      exact .tail ih step

theorem onCycle_congr
    (same : ∀ other, fallback.Reaches taken node other → next other = taken other) :
    fallback.OnCycle next node ↔ fallback.OnCycle taken node := by
  rw [OnCycle, OnCycle, TransGen.tail'_iff, TransGen.tail'_iff]
  refine exists_congr fun last => ?_
  have agree : ReflTransGen (fallback.Edge next) node last ↔
      ReflTransGen (fallback.Edge taken) node last := reaches_congr same
  rw [agree]
  refine and_congr_right fun path => ?_
  rw [Edge, Edge, same last path]

theorem loses_congr [Ord Key]
    (same : ∀ other, fallback.Reaches taken node other → next other = taken other) :
    fallback.Loses next node ↔ fallback.Loses taken node := by
  have shared : (∀ other, fallback.Reaches next node other → other ≠ node →
      compare (fallback.key node (next node)) (fallback.key other (next other)) = .lt) ↔
        ∀ other, fallback.Reaches taken node other → other ≠ node →
          compare (fallback.key node (taken node)) (fallback.key other (taken other)) = .lt := by
    refine forall_congr' fun other => ?_
    rw [reaches_congr same]
    refine imp_congr_right fun path => ?_
    rw [same node .refl, same other path]
  constructor
  · intro loses
    exact ⟨(onCycle_congr same).mp loses.round, shared.mp loses.least⟩
  · intro loses
    exact ⟨(onCycle_congr same).mpr loses.round, shared.mpr loses.least⟩

end Congruence

variable [Ord Key]

/-- Each cycle has one loser at most. -/
theorem Loses.unique [OrientedOrd Key] (loses : fallback.Loses taken node)
    (also : fallback.Loses taken other)
    (path : fallback.Reaches taken node other) : node = other := by
  by_contra apart
  have back : fallback.Reaches taken other node := reaches_back edge_unique loses.round path
  have greater := Std.OrientedCmp.gt_of_lt (loses.least other path (Ne.symm apart))
  rw [also.least node back apart] at greater
  cases greater

variable [DecidableEq Node]

/-- The loser of some cycle takes its next choice. -/
def Step (fallback : Fallback Node Key) (taken next : Node → Nat) : Prop :=
  ∃ node, fallback.Loses taken node ∧ next = Function.update taken node (taken node + 1)

def Run (fallback : Fallback Node Key) :
    (Node → Nat) → (Node → Nat) → Prop := ReflTransGen fallback.Step

theorem Settled.not_step (settled : fallback.Settled taken) : ¬ fallback.Step taken next := by
  rintro ⟨node, loses, _⟩
  exact settled node loses.round

theorem Settled.run_eq (settled : fallback.Settled taken)
    (run : fallback.Run taken next) : next = taken := by
  rcases ReflTransGen.cases_head run with same | ⟨_, step, _⟩
  · exact same.symm
  · exact absurd step settled.not_step

section Confluence

variable [OrientedOrd Key]

/-- The loser of one cycle remains one when the loser of another cycle falls back. -/
theorem Loses.stays (loses : fallback.Loses taken node)
    (other_loses : fallback.Loses taken other) (apart : node ≠ other) (level : Nat) :
    fallback.Loses (Function.update taken other level) node := by
  apply (loses_congr _).mpr loses
  intro third path
  apply Function.update_of_ne
  rintro rfl
  exact apart (loses.unique other_loses path)

theorem step_diamond (first : fallback.Step taken next) (second : fallback.Step taken last) :
    next = last ∨ ∃ joined, fallback.Step next joined ∧ fallback.Step last joined := by
  obtain ⟨node, loses, rfl⟩ := first
  obtain ⟨other, also, rfl⟩ := second
  by_cases same : node = other
  · subst same
    exact Or.inl rfl
  · refine Or.inr ⟨_, ⟨other, also.stays loses (Ne.symm same) _, rfl⟩,
      ⟨node, loses.stays also same _, ?_⟩⟩
    rw [Function.update_of_ne same, Function.update_of_ne (Ne.symm same), Function.update_comm same]

/-- Where some run settles, every run goes on to where it does. -/
theorem run_settled (settled : fallback.Settled last) (ended : fallback.Run taken last)
    (run : fallback.Run taken next) :
    fallback.Run next last := by
  have joins : Join fallback.Run next last := by
    refine church_rosser ?_ run ended
    intro start left right first second
    rcases step_diamond first second with same | ⟨joined, fromLeft, fromRight⟩
    · exact ⟨left, .refl, same ▸ .refl⟩
    · exact ⟨joined, .single fromLeft, .single fromRight⟩
  obtain ⟨joined, onward, stays⟩ := joins
  rwa [settled.run_eq stays] at onward

theorem settled_unique (settled : fallback.Settled last) (ended : fallback.Run taken last)
    (rests : fallback.Settled next) (run : fallback.Run taken next) : next = last :=
  (rests.run_eq (run_settled settled ended run)).symm

end Confluence

theorem Step.taken_le (step : fallback.Step taken next) (node : Node) : taken node ≤ next node := by
  obtain ⟨loser, _, rfl⟩ := step
  by_cases here : node = loser
  · rw [here, Function.update_self]
    exact Nat.le_succ _
  · rw [Function.update_of_ne here]

theorem Run.taken_le (run : fallback.Run taken next) (node : Node) : taken node ≤ next node := by
  induction run with
  | refl => exact Nat.le_refl _
  | tail _ step ih => exact Nat.le_trans ih (step.taken_le node)

/-- The nodes that point somewhere are listed, and point nowhere from some level on. -/
structure Bounded (fallback : Fallback Node Key) (nodes : Finset Node)
    (limit : Node → Nat) : Prop where
  listed : ∀ node level other, fallback.parent node level = some other → node ∈ nodes
  rooted : ∀ node level, limit node ≤ level → fallback.parent node level = none

section Bounds

omit [Ord Key] in
theorem sum_update_succ {nodes : Finset Node} (listed : node ∈ nodes) :
    ∑ other ∈ nodes, Function.update taken node (taken node + 1) other = ∑ other ∈ nodes,
    taken other + 1 := by
  rw [Finset.sum_update_of_mem listed, ← Finset.sum_sdiff (Finset.singleton_subset_iff.mpr listed),
    Finset.sum_singleton]
  omega

variable {nodes : Finset Node} {limit : Node → Nat}

omit [Ord Key] [DecidableEq Node] in
theorem Bounded.onCycle (bounded : fallback.Bounded nodes limit)
    (round : fallback.OnCycle taken node) :
    node ∈ nodes ∧ taken node < limit node := by
  obtain ⟨other, step, _⟩ := TransGen.head'_iff.mp round
  refine ⟨bounded.listed node _ other step, ?_⟩
  by_contra beyond
  rw [Edge, bounded.rooted node _ (Nat.not_lt.mp beyond)] at step
  cases step

theorem Bounded.run_le (bounded : fallback.Bounded nodes limit) (run : fallback.Run taken next)
    (start : ∀ node, taken node ≤ limit node) (node : Node) : next node ≤ limit node := by
  induction run with
  | refl => exact start node
  | tail _ step ih =>
    obtain ⟨loser, loses, rfl⟩ := step
    by_cases here : node = loser
    · rw [here, Function.update_self]
      exact (bounded.onCycle loses.round).2
    · rwa [Function.update_of_ne here]

theorem Bounded.sum_step (bounded : fallback.Bounded nodes limit)
    (step : fallback.Step taken next) :
    ∑ node ∈ nodes, next node = ∑ node ∈ nodes, taken node + 1 := by
  obtain ⟨loser, loses, rfl⟩ := step
  exact sum_update_succ (bounded.onCycle loses.round).1

theorem Bounded.outside (bounded : fallback.Bounded nodes limit) (run : fallback.Run taken next)
    (absent : node ∉ nodes) :
    next node = taken node := by
  induction run with
  | refl => rfl
  | tail _ step ih =>
    obtain ⟨loser, loses, rfl⟩ := step
    rw [Function.update_of_ne, ih]
    rintro rfl
    exact absent (bounded.onCycle loses.round).1

end Bounds

section Once

/-- Where the first fallback leads nowhere, only the losers at the start fall back. -/
theorem run_once (rooted : ∀ node level, fallback.parent node (level + 1) = none)
    (run : fallback.Run (fun _ => 0) taken) (node : Node) :
    taken node = 0 ∨ taken node = 1 ∧ fallback.Loses (fun _ => 0) node := by
  induction run generalizing node with
  | refl => exact Or.inl rfl
  | @tail before _ run step ih =>
    obtain ⟨loser, loses, rfl⟩ := step
    by_cases here : node = loser
    · subst here
      have untouched : ∀ other, fallback.Reaches before node other →
          (fun _ => 0) other = before other := by
        intro other path
        rcases ih other with none | ⟨one, _⟩
        · exact none.symm
        · obtain ⟨target, step, _⟩ :=
            TransGen.head'_iff.mp (round_of_reaches edge_unique loses.round path)
          rw [Edge, one, rooted] at step
          cases step
      rw [Function.update_self, ← untouched node .refl]
      exact Or.inr ⟨rfl, (loses_congr untouched).mpr loses⟩
    · rw [Function.update_of_ne here]
      exact ih node

/-- There, a settled run has made exactly the losers at the start fall back. -/
theorem settled_once [OrientedOrd Key]
    (rooted : ∀ node level, fallback.parent node (level + 1) = none)
    (run : fallback.Run (fun _ => 0) taken) (settled : fallback.Settled taken) (node : Node) :
    (fallback.Loses (fun _ => 0) node → taken node = 1) ∧ (¬ fallback.Loses (fun _ => 0) node →
      taken node = 0) := by
  constructor
  · intro loses
    by_contra kept
    have untouched : ∀ other, fallback.Reaches (fun _ => 0) node other →
        taken other = (fun _ => 0) other := by
      intro other path
      rcases run_once rooted run other with none | ⟨one, also⟩
      · exact none
      · rw [← loses.unique also path] at one
        exact absurd one kept
    exact settled node ((onCycle_congr untouched).mpr loses.round)
  · intro keeps
    rcases run_once rooted run node with none | ⟨_, loses⟩
    · exact none
    · exact absurd loses keeps

end Once

end Fallback

end PrivateContinuum.Library
