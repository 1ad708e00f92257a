import Mathlib.Logic.Relation
import PrivateContinuum.Library.Outcome

/-! A recursive walk towards the parents of nodes that refuses to come back to a node
on its way: it accepts exactly what has no cycle. -/

namespace PrivateContinuum.Library

open Relation

/-- Nodes on the way to the current one, and nodes that are done. -/
structure Marks (Node : Type) where
  visiting : List Node
  visited : List Node

/-- The parents of a node, and the failures of the walk. -/
structure Ascent (Node Failure : Type) where
  parents : Node → Except Failure (List Node)
  cycle : Failure
  tooDeep : Failure

namespace Ascent

variable {Node Failure : Type}

section Relations

variable (walk : Ascent Node Failure)

def Parent (parent child : Node) : Prop :=
  ∃ parents, walk.parents child = .ok parents ∧ parent ∈ parents

/-- Being reached from a node through one parent or more. -/
def Ancestor : Node → Node → Prop := TransGen walk.Parent

/-- The nodes have parents, all of them among the nodes. -/
def Complete (nodes : List Node) : Prop :=
  ∀ node ∈ nodes, ∃ parents, walk.parents node = .ok parents ∧ ∀ parent ∈ parents, parent ∈ nodes

def Acyclic (nodes : List Node) : Prop :=
  ∀ node ∈ nodes, ¬ walk.Ancestor node node

/-- Each node is listed in front of its parents. -/
def Settled : List Node → Prop
  | [] => True
  | node :: rest => (∃ parents, walk.parents node = .ok parents ∧
      ∀ parent ∈ parents, parent ∈ rest) ∧ Settled rest

end Relations

variable {walk : Ascent Node Failure} {nodes list : List Node} {node : Node}

theorem Settled.parent {parent : Node} (settled : walk.Settled list) (member : node ∈ list)
    (edge : walk.Parent parent node) : parent ∈ list := by
  induction list with
  | nil => cases member
  | cons first rest ih =>
    obtain ⟨⟨parents, listed, behind⟩, others⟩ := settled
    rcases List.mem_cons.mp member with here | later
    · obtain ⟨known, found, among⟩ := edge
      rw [here, listed] at found
      cases found
      exact List.mem_cons_of_mem first (behind parent among)
    · exact List.mem_cons_of_mem first (ih others later)

theorem Settled.reaches {above : Node} (settled : walk.Settled list) (member : node ∈ list)
    (path : ReflTransGen walk.Parent above node) : above ∈ list := by
  induction path using ReflTransGen.head_induction_on with
  | refl => exact member
  | head edge _ ih => exact settled.parent ih edge

theorem Settled.induction {Holds : Node → Prop} (settled : walk.Settled list)
    (each : ∀ node parents, walk.parents node = .ok parents → (∀ parent ∈ parents, Holds parent) →
      Holds node) :
    ∀ node ∈ list, Holds node := by
  induction list with
  | nil => simp
  | cons first rest ih =>
    obtain ⟨⟨parents, listed, behind⟩, others⟩ := settled
    rw [List.forall_mem_cons]
    exact ⟨each first parents listed fun parent member => ih others parent (behind parent member),
      ih others⟩

theorem Settled.acyclic (settled : walk.Settled list) : walk.Acyclic list := by
  induction list with
  | nil =>
    intro node member
    cases member
  | cons first rest ih =>
    obtain ⟨⟨parents, listed, behind⟩, others⟩ := settled
    intro node member round
    by_cases later : node ∈ rest
    · exact ih others node later round
    · have here : node = first := (List.mem_cons.mp member).resolve_right later
      obtain ⟨above, path, edge⟩ := TransGen.tail'_iff.mp round
      obtain ⟨known, found, among⟩ := edge
      rw [here, listed] at found
      cases found
      exact later (others.reaches (behind above among) path)

variable {marks after : Marks Node}

/-- What a completed visit makes of the marks. -/
structure Extends (walk : Ascent Node Failure) (before after : Marks Node) : Prop where
  visiting : after.visiting = before.visiting
  visited : ∀ node ∈ before.visited, node ∈ after.visited
  settled : walk.Settled after.visited

theorem extends_foldlM {step : Marks Node → Node → Except Failure (Marks Node)}
    (each : ∀ marks node after, walk.Settled marks.visited → step marks node = .ok after →
      walk.Extends marks after ∧ node ∈ after.visited)
    (settled : walk.Settled marks.visited) (done : list.foldlM step marks = .ok after) :
    walk.Extends marks after ∧ ∀ node ∈ list, node ∈ after.visited := by
  induction list generalizing marks with
  | nil =>
    cases done
    exact ⟨⟨rfl, fun _ member => member, settled⟩, by simp⟩
  | cons first rest ih =>
    rw [List.foldlM_cons, bind_ok_iff] at done
    obtain ⟨middle, stepped, finished⟩ := done
    obtain ⟨grown, visited⟩ := each marks first middle settled stepped
    obtain ⟨later, others⟩ := ih grown.settled finished
    refine ⟨⟨later.visiting.trans grown.visiting,
      fun node member => later.visited node (grown.visited node member),
      later.settled⟩, ?_⟩
    rw [List.forall_mem_cons]
    exact ⟨later.visited first visited, others⟩

section Walks

variable [DecidableEq Node]

/-- The bound is on the depth of the recursion. -/
def visit (walk : Ascent Node Failure) : Nat → Marks Node → Node → Except Failure (Marks Node)
  | 0, _, _ => .error walk.tooDeep
  | depth + 1, marks, node =>
    if node ∈ marks.visited then .ok marks
    else if node ∈ marks.visiting then .error walk.cycle
    else do
      let parents ← walk.parents node
      let after ← parents.foldlM (visit walk depth) { marks with visiting :=
        node :: marks.visiting }
      pure ⟨after.visiting.erase node, node :: after.visited⟩

/-- Visits all nodes, with room for a way through every one of them. -/
def visitAll (walk : Ascent Node Failure) (nodes : List Node) : Except Failure (Marks Node) :=
  nodes.foldlM (visit walk (nodes.length + 1)) ⟨[], []⟩

variable {depth : Nat}

/-- A completed visit of a node settles it and all its ancestors. -/
theorem extends_visit (settled : walk.Settled marks.visited)
    (done : walk.visit depth marks node = .ok after) :
    walk.Extends marks after ∧ node ∈ after.visited := by
  induction depth generalizing marks node after with
  | zero => cases done
  | succ depth ih =>
    rw [visit] at done
    by_cases known : node ∈ marks.visited
    · rw [if_pos known] at done
      cases done
      exact ⟨⟨rfl, fun _ member => member, settled⟩, known⟩
    by_cases under : node ∈ marks.visiting
    · rw [if_neg known, if_pos under] at done
      cases done
    rw [if_neg known, if_neg under, bind_ok_iff] at done
    obtain ⟨parents, listed, continued⟩ := done
    rw [bind_ok_iff] at continued
    obtain ⟨middle, walked, finished⟩ := continued
    cases finished
    obtain ⟨grown, visited⟩ : walk.Extends ⟨node :: marks.visiting, marks.visited⟩ middle ∧ _ :=
      extends_foldlM (fun _ _ _ => ih) settled walked
    refine ⟨⟨?_, fun other member => List.mem_cons_of_mem node (grown.visited other member),
      ⟨parents, listed, visited⟩, grown.settled⟩, List.mem_cons_self⟩
    change middle.visiting.erase node = marks.visiting
    rw [grown.visiting, List.erase_cons_head]

/-- Marks under which a node of an acyclic graph can be visited. -/
structure Under (walk : Ascent Node Failure) (nodes : List Node) (marks : Marks Node)
    (node : Node) : Prop where
  distinct : marks.visiting.Nodup
  among : ∀ other ∈ marks.visiting, other ∈ nodes
  below : ∀ other ∈ marks.visiting, walk.Ancestor node other

/-- Without a cycle, and with enough room, every visit completes. -/
theorem visit_exists (complete : walk.Complete nodes) (acyclic : walk.Acyclic nodes)
    (member : node ∈ nodes) (under : walk.Under nodes marks node)
    (settled : walk.Settled marks.visited) (room : nodes.length < depth + marks.visiting.length) :
    ∃ after, walk.visit depth marks node = .ok after := by
  induction depth generalizing marks node with
  | zero =>
    have shorter := (List.subperm_of_subset under.distinct under.among).length_le
    omega
  | succ depth ih =>
    rw [visit]
    by_cases known : node ∈ marks.visited
    · exact ⟨marks, if_pos known⟩
    have fresh : node ∉ marks.visiting :=
      fun visiting => acyclic node member (under.below node visiting)
    obtain ⟨parents, listed, inside⟩ := complete node member
    obtain ⟨last, done⟩ : ∃ last, parents.foldlM (visit walk depth) ⟨node :: marks.visiting,
        marks.visited⟩ = .ok last := by
      apply foldlM_exists (fun middle =>
        middle.visiting = node :: marks.visiting ∧ walk.Settled middle.visited) ?_ ⟨rfl, settled⟩
      intro middle parent held ⟨visiting, ordered⟩
      have above : walk.Under nodes middle parent := by
        constructor
        · rw [visiting, List.nodup_cons]
          exact ⟨fresh, under.distinct⟩
        · rw [visiting, List.forall_mem_cons]
          exact ⟨member, under.among⟩
        · rw [visiting, List.forall_mem_cons]
          have edge : walk.Parent parent node := ⟨parents, listed, held⟩
          exact ⟨.single edge, fun other stacked => TransGen.head edge (under.below other stacked)⟩
      obtain ⟨next, visited⟩ := ih (inside parent held) above ordered (by
        rw [visiting, List.length_cons]
        omega)
      obtain ⟨grown, _⟩ := extends_visit ordered visited
      exact ⟨next, visited, grown.visiting.trans visiting, grown.settled⟩
    refine ⟨⟨last.visiting.erase node, node :: last.visited⟩, ?_⟩
    rw [if_neg known, if_neg fresh, listed]
    change (parents.foldlM (visit walk depth) _ >>= _) = _
    rw [done]
    rfl

theorem visitAll_settled (done : walk.visitAll nodes = .ok after) :
    walk.Settled after.visited ∧ ∀ node ∈ nodes, node ∈ after.visited := by
  obtain ⟨grown, visited⟩ := extends_foldlM (fun _ _ _ => extends_visit) (by exact trivial) done
  exact ⟨grown.settled, visited⟩

/-- The walk accepts exactly the nodes without a cycle. -/
theorem visitAll_ok_iff (complete : walk.Complete nodes) :
    (∃ after, walk.visitAll nodes = .ok after) ↔ walk.Acyclic nodes := by
  constructor
  · rintro ⟨after, done⟩
    obtain ⟨settled, visited⟩ := visitAll_settled done
    exact fun node member => settled.acyclic node (visited node member)
  · intro acyclic
    have empty : walk.Settled (Marks.mk [] [] : Marks Node).visited := trivial
    apply foldlM_exists (fun marks : Marks Node => marks.visiting = [] ∧
      walk.Settled marks.visited) ?_ ⟨rfl, empty⟩
    intro marks node member ⟨visiting, ordered⟩
    have under : walk.Under nodes marks node :=
      ⟨by simp [visiting], by simp [visiting], by simp [visiting]⟩
    obtain ⟨next, visited⟩ := visit_exists complete acyclic member under ordered
      (show nodes.length < nodes.length + 1 + marks.visiting.length by omega)
    obtain ⟨grown, _⟩ := extends_visit ordered visited
    exact ⟨next, visited, grown.visiting.trans visiting, grown.settled⟩

/-- Induction from the parents of a node to the node. -/
theorem Acyclic.induction {Holds : Node → Prop} (acyclic : walk.Acyclic nodes)
    (complete : walk.Complete nodes)
    (each : ∀ node parents, walk.parents node = .ok parents → (∀ parent ∈ parents, Holds parent) →
      Holds node) :
    ∀ node ∈ nodes, Holds node := by
  obtain ⟨after, done⟩ := (visitAll_ok_iff complete).mpr acyclic
  obtain ⟨settled, visited⟩ := visitAll_settled done
  exact fun node member => settled.induction each node (visited node member)

end Walks

end Ascent

end PrivateContinuum.Library
