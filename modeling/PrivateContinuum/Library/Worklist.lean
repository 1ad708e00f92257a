import Mathlib

/-! Exploration of a finite directed graph with an explicit stack: the popped
node may stop the walk, a node seen before is skipped, and every other node is
marked and its successors are pushed. -/

namespace PrivateContinuum.Library

open Std (ExtTreeSet TransOrd LawfulEqOrd)

/-- Total weight of the listed nodes that are not in the seen set. -/
def unseenWeight {Node : Type} [Ord Node] [TransOrd Node] (weight : Node → Nat) (nodes : List Node)
    (seen : ExtTreeSet Node) : Nat :=
  ((nodes.filter (· ∉ seen)).map weight).sum

/-- What one walk does with a node. Only the listed nodes have successors, so
the walk ends on every stack. -/
structure Worklist (Node Failure : Type) where
  /-- Test made on every popped node, before the seen test. -/
  halt : Node → Option Failure
  expand : Node → Except Failure (List Node)
  nodes : List Node
  finite : ∀ node successors, expand node = .ok successors → successors ≠ [] → node ∈ nodes

theorem unseenWeight_insert_le {Node : Type} [Ord Node] [TransOrd Node] (weight : Node → Nat)
    (nodes : List Node) (seen : ExtTreeSet Node) (node : Node) :
    unseenWeight weight nodes (seen.insert node) ≤ unseenWeight weight nodes seen := by
  apply List.Sublist.sum_le_sum
  · apply List.Sublist.map
    apply List.monotone_filter_right
    intro other
    simp only [decide_eq_true_eq, ExtTreeSet.mem_insert, not_or]
    exact And.right
  · simp

theorem unseenWeight_insert_add {Node : Type} [Ord Node] [TransOrd Node] (weight : Node → Nat)
    {nodes : List Node} {seen : ExtTreeSet Node} {node : Node} (member : node ∈ nodes)
    (unseen : node ∉ seen) :
    unseenWeight weight nodes (seen.insert node) + weight node ≤
      unseenWeight weight nodes seen := by
  obtain ⟨before, after, split⟩ := List.append_of_mem member
  have left := unseenWeight_insert_le weight before seen node
  have right := unseenWeight_insert_le weight after seen node
  have gone : node ∈ seen.insert node := by simp
  subst split
  simp only [unseenWeight, List.filter_append, List.map_append, List.sum_append, List.filter_cons,
    unseen, gone, not_true_eq_false, not_false_eq_true, decide_true, decide_false, ↓reduceIte,
    Bool.false_eq_true, List.map_cons, List.sum_cons] at *
  omega

namespace Worklist

variable {Node Failure : Type}

/-- One successor step of the walk. -/
def Edge (walk : Worklist Node Failure) (source target : Node) : Prop :=
  ∃ successors, walk.expand source = .ok successors ∧ target ∈ successors

def Reach (walk : Worklist Node Failure) : Node → Node → Prop :=
  Relation.ReflTransGen walk.Edge

/-- The node stops the walk, when popped or when expanded. -/
def Fails (walk : Worklist Node Failure) (node : Node) (failure : Failure) : Prop :=
  walk.halt node = some failure ∨ walk.expand node = .error failure

variable [Ord Node] [TransOrd Node]

/-- Every successor of a seen node is itself seen. -/
def Closed (walk : Worklist Node Failure) (seen : ExtTreeSet Node) : Prop :=
  ∀ source ∈ seen, ∀ target, walk.Edge source target → target ∈ seen

/-- The loop with an explicit bound on its iterations; the head of the list is
the top of the stack. -/
def run (walk : Worklist Node Failure) :
    Nat → ExtTreeSet Node → List Node → Option (Except Failure (ExtTreeSet Node))
  | _, seen, [] => some (.ok seen)
  | 0, _, _ :: _ => none
  | fuel + 1, seen, node :: rest =>
    match walk.halt node with
    | some failure => some (.error failure)
    | none =>
      if node ∈ seen then run walk fuel seen rest
      else match walk.expand node with
        | .error failure => some (.error failure)
        | .ok successors => run walk fuel (seen.insert node) (successors.reverse ++ rest)

/-- Number of successors a node would push. -/
def fanout (walk : Worklist Node Failure) (node : Node) : Nat :=
  match walk.expand node with
  | .ok successors => successors.length
  | .error _ => 0

/-- A bound on the remaining iterations: the stack, and the pushes of every
listed node that is still unseen. -/
def budget (walk : Worklist Node Failure) (seen : ExtTreeSet Node) (stack : List Node) : Nat :=
  stack.length + unseenWeight walk.fanout walk.nodes seen

private theorem budget_expand (walk : Worklist Node Failure) {seen : ExtTreeSet Node}
    {node : Node} {successors : List Node} (rest : List Node) (unseen : node ∉ seen)
    (expanded : walk.expand node = .ok successors) :
    walk.budget (seen.insert node) (successors.reverse ++ rest) < walk.budget seen
      (node :: rest) := by
  have shrinks := unseenWeight_insert_le walk.fanout walk.nodes seen node
  simp only [budget, List.length_append, List.length_reverse, List.length_cons]
  by_cases empty : successors = []
  · simp only [empty, List.length_nil]
    omega
  · have listed := walk.finite node successors expanded empty
    have consumed := unseenWeight_insert_add walk.fanout listed unseen
    have pushed : walk.fanout node = successors.length := by simp [fanout, expanded]
    omega

/-- The budget is enough: the loop always ends within it. -/
theorem run_isSome (walk : Worklist Node Failure) (fuel : Nat) (seen : ExtTreeSet Node)
    (stack : List Node) (enough : walk.budget seen stack ≤ fuel) :
    (walk.run fuel seen stack).isSome := by
  induction fuel generalizing seen stack with
  | zero =>
    have empty : stack = [] := List.length_eq_zero_iff.mp (by simp only [budget] at enough; omega)
    simp [empty, run]
  | succ fuel ih =>
    cases stack with
    | nil => simp [run]
    | cons node rest =>
      rw [run]
      cases walk.halt node with
      | some failure => rfl
      | none =>
        dsimp only
        split
        · exact ih seen rest (by simp only [budget, List.length_cons] at *; omega)
        · rename_i unseen
          cases expanded : walk.expand node with
          | error failure => rfl
          | ok successors =>
            have smaller := walk.budget_expand rest unseen expanded
            exact ih _ _ (by omega)

/-- The whole walk from a seen set and a stack. -/
def explore (walk : Worklist Node Failure) (seen : ExtTreeSet Node) (stack : List Node) :
    Except Failure (ExtTreeSet Node) :=
  (walk.run (walk.budget seen stack) seen stack).get (walk.run_isSome _ seen stack (Nat.le_refl _))

theorem run_more {walk : Worklist Node Failure} {fuel more : Nat} {seen : ExtTreeSet Node}
    {stack : List Node} {result : Except Failure (ExtTreeSet Node)}
    (ended : walk.run fuel seen stack = some result) (room : fuel ≤ more) :
    walk.run more seen stack = some result := by
  induction fuel generalizing more seen stack with
  | zero =>
    cases stack with
    | nil => simpa [run] using ended
    | cons node rest => simp [run] at ended
  | succ fuel ih =>
    obtain ⟨more, rfl⟩ : ∃ less, more = less + 1 := ⟨more - 1, by omega⟩
    have room : fuel ≤ more := by omega
    cases stack with
    | nil => simpa [run] using ended
    | cons node rest =>
      rw [run] at ended ⊢
      cases passes : walk.halt node with
      | some failure => simpa only [passes] using ended
      | none =>
        simp only [passes] at ended ⊢
        split at ended
        · rename_i visited
          rw [if_pos visited]
          exact ih ended room
        · rename_i unseen
          rw [if_neg unseen]
          cases expanded : walk.expand node with
          | error failure => simpa only [expanded] using ended
          | ok successors =>
            simp only [expanded] at ended ⊢
            exact ih ended room

/-- From every seen set and stack, the loop ends with the walk's result. -/
def Ends (walk : Worklist Node Failure) : Prop :=
  ∀ seen stack, ∃ bound, ∀ fuel, bound ≤ fuel →
    walk.run fuel seen stack = some (walk.explore seen stack)

theorem ends (walk : Worklist Node Failure) : walk.Ends := by
  intro seen stack
  have ended : walk.run (walk.budget seen stack) seen stack = some (walk.explore seen stack) :=
    (Option.some_get (walk.run_isSome _ seen stack (Nat.le_refl _))).symm
  exact ⟨walk.budget seen stack, fun fuel room => run_more ended room⟩

/-- The walk as a derivation, one constructor for each branch of the loop. -/
inductive Walks (walk : Worklist Node Failure) :
    ExtTreeSet Node → List Node → Except Failure (ExtTreeSet Node) → Prop where
  | done {seen : ExtTreeSet Node} : Walks walk seen [] (.ok seen)
  | halted {seen : ExtTreeSet Node} {node : Node} {rest : List Node} {failure : Failure}
      (halts : walk.halt node = some failure) : Walks walk seen (node :: rest) (.error failure)
  | skipped {seen : ExtTreeSet Node} {node : Node} {rest : List Node}
      {result : Except Failure (ExtTreeSet Node)} (passes : walk.halt node = none)
      (visited : node ∈ seen) (next : Walks walk seen rest result) :
      Walks walk seen (node :: rest) result
  | failed {seen : ExtTreeSet Node} {node : Node} {rest : List Node} {failure : Failure}
      (passes : walk.halt node = none) (unseen : node ∉ seen)
      (stops : walk.expand node = .error failure) : Walks walk seen (node :: rest) (.error failure)
  | expanded {seen : ExtTreeSet Node} {node : Node} {rest successors : List Node}
      {result : Except Failure (ExtTreeSet Node)} (passes : walk.halt node = none)
      (unseen : node ∉ seen) (pushes : walk.expand node = .ok successors)
      (next : Walks walk (seen.insert node) (successors.reverse ++ rest) result) :
      Walks walk seen (node :: rest) result

private theorem run_walks {walk : Worklist Node Failure} {fuel : Nat} {seen : ExtTreeSet Node}
    {stack : List Node} {result : Except Failure (ExtTreeSet Node)}
    (ended : walk.run fuel seen stack = some result) : walk.Walks seen stack result := by
  induction fuel generalizing seen stack with
  | zero =>
    cases stack with
    | nil => cases ended; exact .done
    | cons node rest => simp [run] at ended
  | succ fuel ih =>
    cases stack with
    | nil => cases ended; exact .done
    | cons node rest =>
      rw [run] at ended
      cases passes : walk.halt node with
      | some failure => simp only [passes, Option.some.injEq] at ended; exact ended ▸ .halted passes
      | none =>
        simp only [passes] at ended
        split at ended
        · rename_i visited
          exact .skipped passes visited (ih ended)
        · rename_i unseen
          cases expanded : walk.expand node with
          | error failure =>
            simp only [expanded, Option.some.injEq] at ended
            exact ended ▸ .failed passes unseen expanded
          | ok successors =>
            simp only [expanded] at ended
            exact .expanded passes unseen expanded (ih ended)

theorem explore_walks (walk : Worklist Node Failure) (seen : ExtTreeSet Node) (stack : List Node) :
    walk.Walks seen stack (walk.explore seen stack) :=
  run_walks (Option.some_get (walk.run_isSome _ seen stack (Nat.le_refl _))).symm

theorem Closed.reach {walk : Worklist Node Failure} {seen : ExtTreeSet Node}
    (closed : walk.Closed seen) {source target : Node} (known : source ∈ seen)
    (path : walk.Reach source target) : target ∈ seen := by
  induction path with
  | refl => exact known
  | tail _ edge ih => exact closed _ ih _ edge

theorem closed_empty (walk : Worklist Node Failure) : walk.Closed ∅ := by
  intro source known
  simp at known

namespace Walks

variable {walk : Worklist Node Failure} {seen final : ExtTreeSet Node} {stack : List Node}

theorem stopped {failure : Failure} {result : Except Failure (ExtTreeSet Node)}
    (trace : walk.Walks seen stack result) (ended : result = .error failure) :
    ∃ start ∈ stack, ∃ node, walk.Reach start node ∧ walk.Fails node failure := by
  induction trace with
  | done => cases ended
  | halted halts => cases ended; exact ⟨_, List.mem_cons_self, _, .refl, Or.inl halts⟩
  | failed _ _ stops => cases ended; exact ⟨_, List.mem_cons_self, _, .refl, Or.inr stops⟩
  | skipped _ _ _ ih =>
    obtain ⟨start, member, found⟩ := ih ended
    exact ⟨start, List.mem_cons_of_mem _ member, found⟩
  | @expanded seen node rest successors result _ _ pushes _ ih =>
    obtain ⟨start, member, target, path, fails⟩ := ih ended
    rcases List.mem_append.mp member with pushed | below
    · have edge : walk.Edge node start := ⟨successors, pushes, List.mem_reverse.mp pushed⟩
      exact ⟨node, List.mem_cons_self, target, .head edge path, fails⟩
    · exact ⟨start, List.mem_cons_of_mem node below, target, path, fails⟩

variable [LawfulEqOrd Node]

theorem keeps {result : Except Failure (ExtTreeSet Node)} (trace : walk.Walks seen stack result)
    (ended : result = .ok final) :
    (∀ node ∈ seen, node ∈ final) ∧ ∀ node ∈ stack, node ∈ final ∧ walk.halt node = none := by
  induction trace with
  | done => cases ended; simp
  | halted => cases ended
  | failed => cases ended
  | skipped passes visited _ ih =>
    obtain ⟨kept, stacked⟩ := ih ended
    exact ⟨kept, List.forall_mem_cons.mpr ⟨⟨kept _ visited, passes⟩, stacked⟩⟩
  | @expanded seen node rest successors result passes unseen pushes _ ih =>
    obtain ⟨kept, stacked⟩ := ih ended
    refine ⟨fun other member => kept other (by simp [ExtTreeSet.mem_insert, member]), ?_⟩
    exact List.forall_mem_cons.mpr
      ⟨⟨kept node (by simp), passes⟩, fun other member => stacked other (by simp [member])⟩

/-- A node of the result was seen before, or is reached from the stack and
does not fail. -/
theorem origin {result : Except Failure (ExtTreeSet Node)} (trace : walk.Walks seen stack result)
    (ended : result = .ok final) :
    ∀ node ∈ final, node ∈ seen ∨
      ((∃ start ∈ stack, walk.Reach start node) ∧ ∀ failure, ¬ walk.Fails node failure) := by
  induction trace with
  | done => cases ended; exact fun node member => Or.inl member
  | halted => cases ended
  | failed => cases ended
  | skipped _ _ _ ih =>
    intro other member
    rcases ih ended other member with old | ⟨⟨start, stacked, path⟩, sound⟩
    · exact Or.inl old
    · exact Or.inr ⟨⟨start, List.mem_cons_of_mem _ stacked, path⟩, sound⟩
  | @expanded seen node rest successors result passes unseen pushes _ ih =>
    intro other member
    rcases ih ended other member with old | ⟨⟨start, stacked, path⟩, sound⟩
    · rcases ExtTreeSet.mem_insert.mp old with same | old
      · have same : node = other := Std.LawfulEqCmp.eq_of_compare same
        subst other
        exact Or.inr ⟨⟨node, List.mem_cons_self, .refl⟩, by simp [Fails, passes, pushes]⟩
      · exact Or.inl old
    · refine Or.inr ⟨?_, sound⟩
      rcases List.mem_append.mp stacked with pushed | below
      · have edge : walk.Edge node start := ⟨successors, pushes, List.mem_reverse.mp pushed⟩
        exact ⟨node, List.mem_cons_self, .head edge path⟩
      · exact ⟨start, List.mem_cons_of_mem node below, path⟩

/-- Nodes whose successors are seen or still stacked stay so until the stack
is empty. -/
theorem closed {result : Except Failure (ExtTreeSet Node)} (trace : walk.Walks seen stack result)
    (ended : result = .ok final)
    (almost : ∀ source ∈ seen, ∀ target, walk.Edge source target → target ∈ seen ∨ target ∈ stack) :
    walk.Closed final := by
  induction trace with
  | done =>
    cases ended
    intro source known target edge
    simpa using almost source known target edge
  | halted => cases ended
  | failed => cases ended
  | skipped _ visited _ ih =>
    apply ih ended
    intro source known target edge
    rcases almost source known target edge with old | stacked
    · exact Or.inl old
    · rcases List.mem_cons.mp stacked with same | below
      · exact Or.inl (same ▸ visited)
      · exact Or.inr below
  | @expanded seen node rest successors result _ unseen pushes _ ih =>
    apply ih ended
    intro source known target edge
    rcases ExtTreeSet.mem_insert.mp known with same | known
    · have same : node = source := Std.LawfulEqCmp.eq_of_compare same
      subst source
      obtain ⟨targets, found, member⟩ := edge
      rw [pushes] at found
      cases found
      exact Or.inr (by simp [member])
    · rcases almost source known target edge with old | stacked
      · exact Or.inl (by simp [ExtTreeSet.mem_insert, old])
      · rcases List.mem_cons.mp stacked with same | below
        · exact Or.inl (by simp [same])
        · exact Or.inr (by simp [below])

end Walks

/-- A stopped walk reached a failing node. -/
theorem explore_fails {walk : Worklist Node Failure} {seen : ExtTreeSet Node} {stack : List Node}
    {failure : Failure} (stopped : walk.explore seen stack = .error failure) :
    ∃ start ∈ stack, ∃ node, walk.Reach start node ∧ walk.Fails node failure :=
  (walk.explore_walks seen stack).stopped stopped

variable [LawfulEqOrd Node]

theorem explore_closed {walk : Worklist Node Failure} {seen final : ExtTreeSet Node}
    {stack : List Node} (closed : walk.Closed seen) (done : walk.explore seen stack = .ok final) :
    walk.Closed final :=
  (walk.explore_walks seen stack).closed done
    fun source known target edge => Or.inl (closed source known target edge)

/-- A completed walk adds exactly what the stack reaches. -/
theorem mem_explore_iff {walk : Worklist Node Failure} {seen final : ExtTreeSet Node}
    {stack : List Node} (closed : walk.Closed seen) (done : walk.explore seen stack = .ok final)
    (node : Node) :
    node ∈ final ↔ node ∈ seen ∨ ∃ start ∈ stack, walk.Reach start node := by
  have trace := walk.explore_walks seen stack
  constructor
  · intro member
    rcases trace.origin done node member with old | ⟨reached, _⟩
    · exact Or.inl old
    · exact Or.inr reached
  · intro known
    obtain ⟨kept, stacked⟩ := trace.keeps done
    rcases known with old | ⟨start, member, path⟩
    · exact kept node old
    · exact (explore_closed closed done).reach (stacked start member).1 path

theorem explore_not_fails {walk : Worklist Node Failure} {final : ExtTreeSet Node}
    {stack : List Node} (done : walk.explore ∅ stack = .ok final) {start node : Node}
    (member : start ∈ stack) (path : walk.Reach start node) (failure : Failure) :
    ¬ walk.Fails node failure := by
  have reached : node ∈ final :=
    (mem_explore_iff walk.closed_empty done node).mpr (Or.inr ⟨start, member, path⟩)
  rcases (walk.explore_walks ∅ stack).origin done node reached with old | ⟨_, sound⟩
  · simp at old
  · exact sound failure

end Worklist

end PrivateContinuum.Library
