import PrivateContinuum.Library.Outcome

/-! The cycles of a mapping in which every node names at most one next node. They are found
by following the nodes from each start, until the way ends, comes back to itself or meets
a node that was followed before. -/

namespace PrivateContinuum.Library

open Relation

section Functional

variable {Node : Type} {edge : Node → Node → Prop} {node other : Node}

/-- Where every node has at most one next node, what is reached from a cycle leads back. -/
theorem reaches_back (unique : Relator.RightUnique edge) (round : TransGen edge node node)
    (path : ReflTransGen edge node other) : ReflTransGen edge other node := by
  induction path with
  | refl => exact .refl
  | tail _ step ih =>
    rcases ReflTransGen.cases_head ih with same | ⟨next, first, rest⟩
    · obtain ⟨next, first, rest⟩ := TransGen.head'_iff.mp round
      rw [same] at step
      rwa [unique step first]
    · rwa [unique step first]

theorem round_of_reaches (unique : Relator.RightUnique edge) (round : TransGen edge node node)
    (path : ReflTransGen edge node other) : TransGen edge other other :=
  (TransGen.trans_right (reaches_back unique round path) round).trans_left path

end Functional

/-- A finite mapping of nodes, each to a next node or to none. -/
structure Pointers (Node : Type) where
  next : Node → Option (Option Node)
  nodes : List Node
  listed : ∀ node, node ∈ nodes ↔ ∃ target, next node = some target

namespace Pointers

variable {Node : Type}

section Relations

variable (graph : Pointers Node)

def Edge (node other : Node) : Prop := graph.next node = some (some other)

def Reaches : Node → Node → Prop := ReflTransGen graph.Edge

def OnCycle (node : Node) : Prop := TransGen graph.Edge node node

def Acyclic : Prop := ∀ node, ¬ graph.OnCycle node

/-- A list of the nodes of one cycle: each of them reaches exactly the listed ones. -/
structure IsCycle (cycle : List Node) : Prop where
  nonempty : cycle ≠ []
  distinct : cycle.Nodup
  round : ∀ node ∈ cycle, graph.OnCycle node
  exactly : ∀ node ∈ cycle, ∀ other, graph.Reaches node other ↔ other ∈ cycle

/-- Each node points to the following one, and the last one to the current place. -/
def Way (current : Option Node) : List Node → Prop
  | [] => True
  | node :: rest => graph.next node = some (rest.head?.or current) ∧ Way current rest

/-- What is next to a node that was followed is one as well, or is not in the mapping. -/
def Closed (done : List Node) : Prop :=
  ∀ node ∈ done, ∀ other, graph.Edge node other → other ∈ done ∨ graph.next other = none

end Relations

variable {graph : Pointers Node} {node other : Node} {current : Option Node}
  {path front back cycle done : List Node}

theorem edge_unique : Relator.RightUnique graph.Edge := by
  intro node left right first second
  rw [Edge, first, Option.some.injEq, Option.some.injEq] at second
  exact second

theorem OnCycle.known (round : graph.OnCycle node) :
    ∃ target, graph.next node = some (some target) := by
  obtain ⟨target, step, _⟩ := TransGen.head'_iff.mp round
  exact ⟨target, step⟩

theorem OnCycle.listed (round : graph.OnCycle node) : node ∈ graph.nodes := by
  obtain ⟨target, found⟩ := round.known
  exact (graph.listed node).mpr ⟨some target, found⟩

theorem way_append {target : Option Node} :
    graph.Way target (path ++ [node]) ↔ graph.Way (some node) path ∧
    graph.next node = some target := by
  induction path with
  | nil => simp [Way]
  | cons first rest ih =>
    rw [List.cons_append, Way, ih, Way]
    cases rest with
    | nil => simp [Way]
    | cons second later => simp [and_assoc]

theorem Way.suffix (way : graph.Way current (front ++ back)) : graph.Way current back := by
  induction front with
  | nil => exact way
  | cons first rest ih => exact ih way.2

theorem Way.reaches_current (way : graph.Way (some other) path) (member : node ∈ path) :
    TransGen graph.Edge node other := by
  induction path generalizing node with
  | nil => cases member
  | cons first rest ih =>
    obtain ⟨points, later⟩ := way
    rcases List.mem_cons.mp member with here | behind
    · subst here
      cases rest with
      | nil => exact .single points
      | cons second following => exact .head points (ih later List.mem_cons_self)
    · exact ih later behind

theorem Way.reaches_later (way : graph.Way current (node :: path)) (member : other ∈ path) :
    graph.Reaches node other := by
  induction path generalizing node with
  | nil => cases member
  | cons first rest ih =>
    obtain ⟨points, later⟩ := way
    rcases List.mem_cons.mp member with here | behind
    · subst here
      exact .single points
    · exact .head points (ih later behind)

theorem Way.successor (way : graph.Way current path) (member : node ∈ path)
    (step : graph.Edge node other) :
    other ∈ path ∨ current = some other := by
  induction path with
  | nil => cases member
  | cons first rest ih =>
    obtain ⟨points, later⟩ := way
    rcases List.mem_cons.mp member with here | behind
    · subst here
      rw [Edge, points, Option.some.injEq] at step
      cases rest with
      | nil => exact Or.inr step
      | cons second following =>
        cases step
        exact Or.inl (by simp)
    · exact (ih later behind).imp_left (List.mem_cons_of_mem first)

theorem Way.not_onCycle_of_end (way : graph.Way none path) :
    ∀ node ∈ path, ¬ graph.OnCycle node := by
  induction path with
  | nil => simp
  | cons first rest ih =>
    obtain ⟨points, later⟩ := way
    rw [List.forall_mem_cons]
    refine ⟨fun round => ?_, ih later⟩
    cases rest with
    | nil =>
      obtain ⟨target, found⟩ := round.known
      rw [points] at found
      cases found
    | cons second following =>
      exact ih later second List.mem_cons_self (round_of_reaches edge_unique round (.single points))

theorem Way.onCycle_current (way : graph.Way (some other) path) (member : node ∈ path)
    (round : graph.OnCycle node) :
    graph.OnCycle other :=
  round_of_reaches edge_unique round (way.reaches_current member).to_reflTransGen

/-- A way that comes back to its first node lists a cycle. -/
theorem Way.isCycle (way : graph.Way (some node) (node :: path)) (distinct : (node :: path).Nodup) :
    graph.IsCycle (node :: path) := by
  have reached : ∀ other ∈ node :: path, graph.Reaches node other := by
    rw [List.forall_mem_cons]
    exact ⟨.refl, fun other => way.reaches_later⟩
  refine ⟨by simp, distinct, ?_, ?_⟩
  · intro other member
    exact (way.reaches_current member).trans_left (reached other member)
  · intro other member third
    constructor
    · intro led
      induction led with
      | refl => exact member
      | tail _ step ih =>
        rcases way.successor ih step with inside | back
        · exact inside
        · cases back
          exact List.mem_cons_self
    · intro inside
      exact (way.reaches_current member).to_reflTransGen.trans (reached third inside)

/-- What is reached from closed nodes is one of them, or is not in the mapping. -/
theorem Closed.reaches (closed : graph.Closed done) (member : node ∈ done)
    (led : graph.Reaches node other) :
    other ∈ done ∨ graph.next other = none := by
  induction led with
  | refl => exact Or.inl member
  | tail _ step ih =>
    rcases ih with inside | unknown
    · exact closed _ inside _ step
    · rw [Edge, unknown] at step
      cases step

theorem Closed.onCycle_mem (closed : graph.Closed done) (member : other ∈ done)
    (round : graph.OnCycle node) (led : graph.Reaches node other) : node ∈ done := by
  rcases closed.reaches member (reaches_back edge_unique round led) with inside | unknown
  · exact inside
  · obtain ⟨target, found⟩ := round.known
    rw [unknown] at found
    cases found

theorem nodup_concat (distinct : path.Nodup) (met : node ∉ path) : (path ++ [node]).Nodup :=
  List.nodup_append_comm.mp (List.nodup_cons.mpr ⟨met, distinct⟩)

/-- What following the nodes from one start finds, next to the nodes that are done. -/
structure Followed (graph : Pointers Node) (done path : List Node)
    (cycle : Option (List Node)) : Prop where
  fresh : ∀ node ∈ path, node ∉ done
  closed : graph.Closed (done ++ path)
  isCycle : ∀ found ∈ cycle, graph.IsCycle found ∧ ∀ node ∈ found, node ∈ path
  onlyCycle : ∀ node ∈ path, graph.OnCycle node → ∃ found ∈ cycle, node ∈ found

variable [DecidableEq Node]

/-- One start: the loop goes on until there is no next node, or it was met before. -/
def follow (graph : Pointers Node) (done : List Node) :
    Nat → List Node → Option Node → Option (List Node × Option (List Node))
  | 0, _, _ => none
  | fuel + 1, path, current =>
    match current with
    | none => some (path, none)
    | some node =>
      match graph.next node with
      | none => some (path, none)
      | some parent =>
        if node ∈ path then some (path, some (path.drop (path.idxOf node)))
        else if node ∈ done then some (path, none)
        else follow graph done fuel (path ++ [node]) parent

/-- The way so far has no node twice, and room for what is left. -/
theorem follow_isSome {fuel : Nat} (distinct : path.Nodup)
    (known : ∀ node ∈ path, node ∈ graph.nodes) (room : graph.nodes.length < fuel + path.length) :
    (graph.follow done fuel path current).isSome := by
  induction fuel generalizing path current with
  | zero =>
    have shorter := (List.subperm_of_subset distinct known).length_le
    omega
  | succ fuel ih =>
    cases current with
    | none => rfl
    | some node =>
      cases points : graph.next node with
      | none => simp only [follow, points, Option.isSome_some]
      | some parent =>
        simp only [follow, points]
        by_cases met : node ∈ path
        · rw [if_pos met]
          rfl
        rw [if_neg met]
        by_cases past : node ∈ done
        · rw [if_pos past]
          rfl
        rw [if_neg past]
        apply ih
        · exact nodup_concat distinct met
        · intro other member
          rcases List.mem_append.mp member with old | added
          · exact known other old
          · rw [List.mem_singleton.mp added]
            exact (graph.listed node).mpr ⟨parent, points⟩
        · rw [List.length_append, List.length_singleton]
          omega

/-- The nodes followed from a start, and the cycle that they come to. -/
def trail (graph : Pointers Node) (done : List Node) (start : Node) :
    List Node × Option (List Node) :=
  (graph.follow done (graph.nodes.length + 1) [] (some start)).get
    (follow_isSome List.nodup_nil (by simp) (by simp))

/-- One turn of the loop past the starts. -/
def survey (graph : Pointers Node) (state : List (List Node) × List Node) (start : Node) :
    List (List Node) × List Node :=
  if start ∈ state.2 then state
  else
    let found := graph.trail state.2 start
    (state.1 ++ found.2.toList, state.2 ++ found.1)

/-- The cycles, in the order in which they are come to. -/
def allCycles (graph : Pointers Node) : List (List Node) :=
  (graph.nodes.foldl graph.survey ([], [])).1

/-- The loop past the starts that ends with the first cycle. -/
def findFrom (graph : Pointers Node) (done : List Node) : List Node → Option (List Node)
  | [] => none
  | start :: rest =>
    if start ∈ done then findFrom graph done rest
    else
      match graph.trail done start with
      | (_, some cycle) => some cycle
      | (path, none) => findFrom graph (done ++ path) rest

def findCycle (graph : Pointers Node) : Option (List Node) := graph.findFrom [] graph.nodes

/-- The loop ends with a longer way, and finds the cycle that the way comes to. -/
theorem follow_ends {fuel : Nat} {result : List Node × Option (List Node)}
    (closed : graph.Closed done) (way : graph.Way current path) (distinct : path.Nodup)
    (fresh : ∀ node ∈ path, node ∉ done)
    (ended : graph.follow done fuel path current = some result) :
    graph.Followed done result.1 result.2 ∧ ∀ node ∈ path, node ∈ result.1 := by
  induction fuel generalizing path current with
  | zero => cases ended
  | succ fuel ih =>
    have shut : (∀ other, current = some other → other ∈ path ∨ other ∈ done ∨
      graph.next other = none) → graph.Closed (done ++ path) := by
      intro stops node member other step
      rw [List.mem_append]
      rcases List.mem_append.mp member with old | followed
      · exact (closed node old other step).imp_left Or.inl
      · rcases way.successor followed step with inside | here
        · exact Or.inl (Or.inr inside)
        · rcases stops other here with inside | past | unknown
          · exact Or.inl (Or.inr inside)
          · exact Or.inl (Or.inl past)
          · exact Or.inr unknown
    cases current with
    | none =>
      cases ended
      refine ⟨⟨fresh, shut (by simp), by simp, ?_⟩, fun _ => id⟩
      exact fun node member round => absurd round (way.not_onCycle_of_end node member)
    | some node =>
      cases points : graph.next node with
      | none =>
        simp only [follow, points] at ended
        cases ended
        refine ⟨⟨fresh, shut ?_, by simp, ?_⟩, fun _ => id⟩
        · rintro other ⟨⟩
          exact Or.inr (Or.inr points)
        · intro other member round
          obtain ⟨target, found⟩ := (way.onCycle_current member round).known
          rw [points] at found
          cases found
      | some parent =>
        simp only [follow, points] at ended
        by_cases met : node ∈ path
        · rw [if_pos met] at ended
          cases ended
          obtain ⟨front, back, split, absent⟩ := List.eq_append_cons_of_mem met
          have cut : path.drop (path.idxOf node) = node :: back := by
            rw [split, List.idxOf_append_of_notMem absent, List.idxOf_cons_self,
              Nat.add_zero, List.drop_left]
          have cycle : graph.IsCycle (node :: back) := by
            rw [split] at way distinct
            exact way.suffix.isCycle (List.nodup_append.mp distinct).2.1
          refine ⟨⟨fresh, shut ?_, ?_, ?_⟩, fun _ => id⟩
          · rintro other ⟨⟩
            exact Or.inl met
          · rintro found ⟨⟩
            dsimp only
            rw [cut]
            refine ⟨cycle, fun other member => ?_⟩
            rw [split]
            exact List.mem_append_right front member
          · intro other member round
            refine ⟨_, rfl, ?_⟩
            rw [cut, ← cycle.exactly node List.mem_cons_self]
            exact reaches_back edge_unique round (way.reaches_current member).to_reflTransGen
        rw [if_neg met] at ended
        by_cases past : node ∈ done
        · rw [if_pos past] at ended
          cases ended
          refine ⟨⟨fresh, shut ?_, by simp, ?_⟩, fun _ => id⟩
          · rintro other ⟨⟩
            exact Or.inr (Or.inl past)
          · intro other member round
            exact absurd (closed.onCycle_mem past round
              (way.reaches_current member).to_reflTransGen) (fresh other member)
        rw [if_neg past] at ended
        obtain ⟨followed, longer⟩ := ih (way_append.mpr ⟨way, points⟩) (nodup_concat distinct met)
          (List.forall_mem_append.mpr ⟨fresh, List.forall_mem_singleton.mpr past⟩) ended
        exact ⟨followed, fun other member => longer other (List.mem_append_left _ member)⟩

theorem trail_followed (closed : graph.Closed done) {start : Node} :
    graph.Followed done (graph.trail done start).1 (graph.trail done start).2 := by
  have nowhere : graph.Way (some start) [] := trivial
  exact (follow_ends closed nowhere List.nodup_nil (by simp) (Option.some_get _).symm).1

theorem start_mem_trail {start : Node} (closed : graph.Closed done) (known : start ∈ graph.nodes)
    (fresh : start ∉ done) :
    start ∈ (graph.trail done start).1 := by
  obtain ⟨parent, points⟩ := (graph.listed start).mp known
  have ended : graph.follow done (graph.nodes.length + 1) [] (some start) =
      some (graph.trail done start) :=
    (Option.some_get _).symm
  simp only [follow, points] at ended
  rw [if_neg List.not_mem_nil, if_neg fresh] at ended
  have way : graph.Way parent [start] := ⟨points, trivial⟩
  exact (follow_ends closed way (by simp) (by simpa using fresh) ended).2 start (by simp)

/-- The cycles found so far, and the nodes that were followed. -/
structure Surveyed (graph : Pointers Node) (state : List (List Node) × List Node) : Prop where
  closed : graph.Closed state.2
  isCycle : ∀ cycle ∈ state.1, graph.IsCycle cycle ∧ ∀ node ∈ cycle, node ∈ state.2
  complete : ∀ node ∈ state.2, graph.OnCycle node → ∃ cycle ∈ state.1, node ∈ cycle
  apart : state.1.Pairwise List.Disjoint

theorem Surveyed.next {state : List (List Node) × List Node} {start : Node}
    (surveyed : graph.Surveyed state) :
    graph.Surveyed (graph.survey state start) := by
  rw [survey]
  split
  · exact surveyed
  · have followed : graph.Followed state.2 (graph.trail state.2 start).1
        (graph.trail state.2 start).2 :=
      trail_followed surveyed.closed
    refine ⟨followed.closed, ?_, ?_, ?_⟩
    · intro cycle member
      rcases List.mem_append.mp member with old | found
      · obtain ⟨isCycle, inside⟩ := surveyed.isCycle cycle old
        exact ⟨isCycle, fun node here => List.mem_append_left _ (inside node here)⟩
      · obtain ⟨isCycle, inside⟩ := followed.isCycle cycle (Option.mem_toList.mp found)
        exact ⟨isCycle, fun node here => List.mem_append_right _ (inside node here)⟩
    · intro node member round
      rcases List.mem_append.mp member with old | added
      · obtain ⟨cycle, known, inside⟩ := surveyed.complete node old round
        exact ⟨cycle, List.mem_append_left _ known, inside⟩
      · obtain ⟨cycle, found, inside⟩ := followed.onlyCycle node added round
        exact ⟨cycle, List.mem_append_right _ (Option.mem_toList.mpr found), inside⟩
    · rw [List.pairwise_append]
      refine ⟨surveyed.apart, ?_, ?_⟩
      · cases (graph.trail state.2 start).2 with
        | none => simp
        | some found => simp
      · intro cycle old other found node inside also
        have followedNode := (followed.isCycle other (Option.mem_toList.mp found)).2 node also
        exact followed.fresh node followedNode ((surveyed.isCycle cycle old).2 node inside)

theorem mem_survey {state : List (List Node) × List Node} {start : Node}
    (surveyed : graph.Surveyed state) (known : start ∈ graph.nodes) :
    start ∈ (graph.survey state start).2 ∧
      ∀ node ∈ state.2, node ∈ (graph.survey state start).2 := by
  rw [survey]
  split
  · rename_i past
    exact ⟨past, fun _ => id⟩
  · rename_i fresh
    exact ⟨List.mem_append_right _ (start_mem_trail surveyed.closed known fresh),
      fun node member => List.mem_append_left _ member⟩

theorem foldl_survey {starts : List Node} {state : List (List Node) × List Node}
    (surveyed : graph.Surveyed state) (known : ∀ start ∈ starts, start ∈ graph.nodes) :
    graph.Surveyed (starts.foldl graph.survey state) ∧
      (∀ node ∈ state.2, node ∈ (starts.foldl graph.survey state).2) ∧
        ∀ start ∈ starts, start ∈ (starts.foldl graph.survey state).2 := by
  induction starts generalizing state with
  | nil => exact ⟨surveyed, fun _ => id, by simp⟩
  | cons start rest ih =>
    rw [List.forall_mem_cons] at known
    obtain ⟨met, kept⟩ := mem_survey surveyed known.1
    obtain ⟨last, still, others⟩ := ih surveyed.next known.2
    rw [List.foldl_cons, List.forall_mem_cons]
    exact ⟨last, fun node member => still node (kept node member), still start met, others⟩

/-- All cycles are found, each of them once. -/
theorem allCycles_exact : (∀ cycle ∈ graph.allCycles, graph.IsCycle cycle) ∧
    (∀ node, graph.OnCycle node → ∃ cycle ∈ graph.allCycles, node ∈ cycle) ∧
    graph.allCycles.Pairwise List.Disjoint := by
  have empty : graph.Surveyed ([], []) := by
    refine ⟨?_, by simp, by simp, List.Pairwise.nil⟩
    intro node member
    cases member
  obtain ⟨surveyed, _, followed⟩ := foldl_survey empty fun start member => member
  exact ⟨fun cycle member => (surveyed.isCycle cycle member).1,
    fun node round => surveyed.complete node (followed node round.listed) round, surveyed.apart⟩

theorem allCycles_nil_iff : graph.allCycles = [] ↔ graph.Acyclic := by
  obtain ⟨isCycle, complete, _⟩ := graph.allCycles_exact
  constructor
  · intro none node round
    obtain ⟨cycle, member, _⟩ := complete node round
    rw [none] at member
    cases member
  · intro acyclic
    rw [List.eq_nil_iff_forall_not_mem]
    intro cycle member
    obtain ⟨node, inside⟩ := List.exists_mem_of_ne_nil cycle (isCycle cycle member).nonempty
    exact acyclic node ((isCycle cycle member).round node inside)

theorem mem_map_toFinset {nodes : Finset Node} : nodes ∈ graph.allCycles.map List.toFinset ↔
    ∃ node, graph.OnCycle node ∧ ∀ other, other ∈ nodes ↔ graph.Reaches node other := by
  obtain ⟨isCycle, complete, _⟩ := graph.allCycles_exact
  rw [List.mem_map]
  constructor
  · rintro ⟨cycle, member, rfl⟩
    obtain ⟨node, inside⟩ := List.exists_mem_of_ne_nil cycle (isCycle cycle member).nonempty
    refine ⟨node, (isCycle cycle member).round node inside, fun other => ?_⟩
    rw [List.mem_toFinset, (isCycle cycle member).exactly node inside]
  · rintro ⟨node, round, exactly⟩
    obtain ⟨cycle, member, inside⟩ := complete node round
    refine ⟨cycle, member, Finset.ext fun other => ?_⟩
    rw [List.mem_toFinset, exactly, (isCycle cycle member).exactly node inside]

theorem nodup_map_toFinset : (graph.allCycles.map List.toFinset).Nodup := by
  obtain ⟨isCycle, _, apart⟩ := graph.allCycles_exact
  rw [List.Nodup, List.pairwise_map]
  refine List.Pairwise.imp_of_mem ?_ apart
  intro left right member _ disjoint same
  obtain ⟨node, inside⟩ := List.exists_mem_of_ne_nil left (isCycle left member).nonempty
  exact disjoint inside (List.mem_toFinset.mp (same ▸ List.mem_toFinset.mpr inside))

/-- The number of cycles depends on the edges only, not on the order of the nodes. -/
theorem length_allCycles_eq {other : Pointers Node} (same : graph.Edge = other.Edge) :
    graph.allCycles.length = other.allCycles.length := by
  have permuted : (graph.allCycles.map List.toFinset).Perm (other.allCycles.map List.toFinset) := by
    apply (List.perm_ext_iff_of_nodup nodup_map_toFinset nodup_map_toFinset).mpr
    intro nodes
    rw [mem_map_toFinset, mem_map_toFinset]
    simp only [OnCycle, Reaches, same]
  simpa using permuted.length_eq

theorem findFrom_cases {starts : List Node} (closed : graph.Closed done)
    (none : ∀ node ∈ done, ¬ graph.OnCycle node) (known : ∀ start ∈ starts, start ∈ graph.nodes) :
    (∃ cycle, graph.findFrom done starts = some cycle ∧ graph.IsCycle cycle) ∨
      (graph.findFrom done starts = .none ∧ ∀ start ∈ starts, ¬ graph.OnCycle start) := by
  induction starts generalizing done with
  | nil => exact Or.inr ⟨rfl, by simp⟩
  | cons start rest ih =>
    rw [List.forall_mem_cons] at known
    rw [findFrom, List.forall_mem_cons]
    split
    · rename_i past
      refine (ih closed none known.2).imp_right ?_
      rintro ⟨ended, others⟩
      exact ⟨ended, none start past, others⟩
    · rename_i fresh
      have followed : graph.Followed done (graph.trail done start).1 (graph.trail done start).2 :=
        trail_followed closed
      have met := start_mem_trail closed known.1 fresh
      cases found : graph.trail done start with
      | mk path cycle =>
        rw [found] at followed met
        cases cycle with
        | some cycle => exact Or.inl ⟨cycle, rfl, (followed.isCycle cycle rfl).1⟩
        | none =>
          have free : ∀ node ∈ path, ¬ graph.OnCycle node := by
            intro node member round
            obtain ⟨cycle, impossible, _⟩ := followed.onlyCycle node member round
            cases impossible
          have others : ∀ node ∈ done ++ path, ¬ graph.OnCycle node :=
            List.forall_mem_append.mpr ⟨none, free⟩
          refine (ih followed.closed others known.2).imp_right ?_
          rintro ⟨ended, later⟩
          exact ⟨ended, free start met, later⟩

/-- The first cycle is one of the cycles, and none is found only where there is none. -/
theorem findCycle_cases : (∃ cycle, graph.findCycle = some cycle ∧ graph.IsCycle cycle) ∨
    (graph.findCycle = none ∧ graph.Acyclic) := by
  have closed : graph.Closed [] := by
    intro node member
    cases member
  rcases findFrom_cases closed (by simp) fun start member => member with found | ⟨none, free⟩
  · exact Or.inl found
  · exact Or.inr ⟨none, fun node round => free node round.listed round⟩

end Pointers

end PrivateContinuum.Library
