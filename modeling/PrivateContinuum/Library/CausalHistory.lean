import Mathlib
import PrivateContinuum.Library.Replicated

/-! Events that refer to earlier events. The same history can be told by what every event
directly refers to, and by all that came before it. -/

namespace PrivateContinuum.Library

open Relation

/-- Events by identity, each with a value and with the identities that it refers to. -/
@[ext]
structure CausalGraph (Id Value : Type) where
  event : Id → Option (Value × Set Id)

namespace CausalGraph

variable {Id Value : Type}

def empty : CausalGraph Id Value := ⟨fun _ => none⟩

def known (graph : CausalGraph Id Value) : Set Id := {id | ∃ event, graph.event id = some event}

def Refers (graph : CausalGraph Id Value) (target source : Id) : Prop :=
  ∃ value targets, graph.event source = some (value, targets) ∧ target ∈ targets

def Ancestor (graph : CausalGraph Id Value) : Id → Id → Prop := TransGen graph.Refers

/-- What no event refers to. -/
def frontier (graph : CausalGraph Id Value) :
    Set Id := {id | id ∈ graph.known ∧ ∀ source, ¬ graph.Refers id source}

/-- Shared events are equal. -/
def Agree (left right : CausalGraph Id Value) : Prop :=
  ∀ id first second, left.event id = some first → right.event id = some second → first = second

def union (left right : CausalGraph Id Value) :
    CausalGraph Id Value := ⟨fun id => (left.event id).or (right.event id)⟩

/-- The same events, each with all of its ancestors. -/
def history (graph : CausalGraph Id Value) : CausalGraph Id Value :=
  ⟨fun id => (graph.event id).map fun event => (event.1, {ancestor | graph.Ancestor ancestor id})⟩

open Classical in
noncomputable def put (graph : CausalGraph Id Value) (id : Id) (event : Value × Set Id) :
    CausalGraph Id Value :=
  ⟨fun other => if other = id then some event else graph.event other⟩

open Classical in
/-- A new event refers to everything before it. -/
noncomputable def recordAll (graph : CausalGraph Id Value) (id : Id) (value : Value) :
    Option (CausalGraph Id Value) :=
  if id ∉ graph.known then some (graph.put id (value, graph.known)) else none

open Classical in
/-- A new event refers to the frontier. -/
noncomputable def recordFrontier (graph : CausalGraph Id Value) (id : Id) (value : Value) :
    Option (CausalGraph Id Value) :=
  if id ∉ graph.known then some (graph.put id (value, graph.frontier)) else none

open Classical in
/-- Graphs that agree become one. -/
noncomputable def merge (left right : CausalGraph Id Value) : Option (CausalGraph Id Value) :=
  if left.Agree right then some (left.union right) else none

variable {graph left right : CausalGraph Id Value} {id other target source : Id}
  {event : Value × Set Id}

section References

theorem mem_known : id ∈ graph.known ↔ ∃ event, graph.event id = some event := Iff.rfl

theorem Refers.known (refers : graph.Refers target source) : source ∈ graph.known := by
  obtain ⟨value, targets, found, _⟩ := refers
  exact ⟨_, found⟩

theorem refers_event (found : graph.event source = some event) :
    graph.Refers target source ↔ target ∈ event.2 := by
  constructor
  · rintro ⟨value, targets, again, member⟩
    rw [found, Option.some.injEq] at again
    exact again ▸ member
  · intro member
    exact ⟨event.1, event.2, found, member⟩

theorem Ancestor.known (path : graph.Ancestor target source) : source ∈ graph.known := by
  obtain ⟨_, _, last⟩ := TransGen.tail'_iff.mp path
  exact last.known

theorem put_self : (graph.put id event).event id = some event := if_pos rfl

theorem put_other (different : other ≠ id) :
    (graph.put id event).event other = graph.event other := if_neg different

theorem known_put : other ∈ (graph.put id event).known ↔ other = id ∨ other ∈ graph.known := by
  by_cases same : other = id
  · subst same
    exact iff_of_true ⟨event, put_self⟩ (Or.inl rfl)
  · rw [mem_known, put_other same]
    exact (or_iff_right same).symm

theorem refers_put (fresh : id ∉ graph.known) : (graph.put id event).Refers target source ↔
    graph.Refers target source ∨ (source = id ∧ target ∈ event.2) := by
  by_cases same : source = id
  · subst same
    have none : ¬ graph.Refers target source := fun refers => fresh refers.known
    rw [or_iff_right none, refers_event put_self]
    exact (and_iff_right rfl).symm
  · rw [Refers, put_other same]
    exact (or_iff_left fun added => same added.1).symm

theorem mem_union : (left.union right).event id = some event ↔
    left.event id = some event ∨ (left.event id = none ∧ right.event id = some event) :=
      Option.or_eq_some_iff

theorem Agree.event_union (agree : left.Agree right) : (left.union right).event id = some event ↔
    left.event id = some event ∨ right.event id = some event := by
  rw [mem_union]
  constructor
  · exact Or.imp_right And.right
  · rintro (known | known)
    · exact Or.inl known
    · cases held : left.event id with
      | none => exact Or.inr ⟨rfl, known⟩
      | some first => exact Or.inl (congrArg some (agree id first event held known))

theorem Agree.known_union (agree : left.Agree right) :
    id ∈ (left.union right).known ↔ id ∈ left.known ∨ id ∈ right.known := by
  simp only [mem_known, agree.event_union, exists_or]

theorem Agree.refers_union (agree : left.Agree right) :
    (left.union right).Refers target source ↔ left.Refers target source ∨
    right.Refers target source := by
  simp only [Refers, agree.event_union, or_and_right, exists_or]

theorem Agree.symm (agree : left.Agree right) : right.Agree left :=
  fun id first second found held => (agree id second first held found).symm

end References

/-- Finitely many events that refer to known events, without a cycle. -/
structure Sound (graph : CausalGraph Id Value) : Prop where
  finite : graph.known.Finite
  closed : ∀ target source, graph.Refers target source → target ∈ graph.known
  acyclic : ∀ id, ¬ graph.Ancestor id id

/-- No event refers to what another event that it refers to descends from. -/
structure Reduced (graph : CausalGraph Id Value) : Prop extends Sound graph where
  direct : ∀ target source, graph.Refers target source → ∀ between, graph.Ancestor target between →
    ¬ graph.Ancestor between source

namespace Sound

theorem ancestor_known (sound : graph.Sound) (path : graph.Ancestor target source) :
    target ∈ graph.known := by
  obtain ⟨_, first, _⟩ := TransGen.head'_iff.mp path
  exact sound.closed _ _ first

/-- Every way up ends. -/
theorem upward (sound : graph.Sound) :
    WellFounded fun above below : graph.known => graph.Ancestor below.1 above.1 := by
  have finite : Finite graph.known := sound.finite
  have irreflexive : Std.Irrefl fun above below : graph.known => graph.Ancestor below.1 above.1 :=
    ⟨fun event => sound.acyclic event.1⟩
  have transitive : IsTrans graph.known fun above below => graph.Ancestor below.1 above.1 :=
    ⟨fun _ _ _ first second => second.trans first⟩
  exact Finite.wellFounded_of_trans_of_irrefl _

/-- Every way down ends. -/
theorem downward (sound : graph.Sound) :
    WellFounded fun below above : graph.known => graph.Ancestor below.1 above.1 := by
  have finite : Finite graph.known := sound.finite
  have irreflexive : Std.Irrefl fun below above : graph.known => graph.Ancestor below.1 above.1 :=
    ⟨fun event => sound.acyclic event.1⟩
  have transitive : IsTrans graph.known fun below above => graph.Ancestor below.1 above.1 :=
    ⟨fun _ _ _ first second => first.trans second⟩
  exact Finite.wellFounded_of_trans_of_irrefl _

theorem exists_frontier (sound : graph.Sound) (known : id ∈ graph.known) :
    ∃ above ∈ graph.frontier, id = above ∨ graph.Ancestor id above := by
  have every : ∀ event : graph.known, ∃ above ∈ graph.frontier, event.1 = above ∨
      graph.Ancestor event.1 above := by
    intro event
    induction event using sound.upward.induction with
    | _ event ih =>
      by_cases followed : ∃ source, graph.Refers event.1 source
      · obtain ⟨source, edge⟩ := followed
        obtain ⟨above, front, reached⟩ := ih ⟨source, edge.known⟩ (.single edge)
        refine ⟨above, front, Or.inr ?_⟩
        rcases reached with same | path
        · exact same ▸ .single edge
        · exact .head edge path
      · exact ⟨event.1, ⟨event.2, not_exists.mp followed⟩, Or.inl rfl⟩
  exact every ⟨id, known⟩

end Sound

/-- An event directly refers to its ancestors that nothing separates from it. -/
theorem Reduced.refers_iff (reduced : graph.Reduced) : graph.Refers target source ↔
    graph.Ancestor target source ∧ ∀ between, graph.Ancestor target between →
      ¬ graph.Ancestor between source := by
  constructor
  · exact fun edge => ⟨.single edge, reduced.direct target source edge⟩
  · rintro ⟨path, nothing⟩
    obtain ⟨next, first, rest⟩ := TransGen.head'_iff.mp path
    rcases reflTransGen_iff_eq_or_transGen.mp rest with same | longer
    · exact same ▸ first
    · exact absurd longer (nothing next (.single first))

theorem reduced_empty : (empty : CausalGraph Id Value).Reduced := by
  have nothing : ∀ target source, ¬ (empty : CausalGraph Id Value).Refers target source := by
    rintro target source ⟨value, targets, found, _⟩
    cases found
  refine ⟨⟨?_, fun target source edge => absurd edge (nothing target source), ?_⟩,
    fun target source edge => absurd edge (nothing target source)⟩
  · convert Set.finite_empty
    ext id
    simp [known, empty]
  · intro id round
    obtain ⟨_, _, last⟩ := TransGen.tail'_iff.mp round
    exact nothing _ _ last

theorem event_history : graph.history.event id =
    (graph.event id).map fun event => (event.1, {ancestor | graph.Ancestor ancestor id}) := rfl

section Recording

variable {value : Value}

/-- A new event leaves the ancestors of known events alone. -/
theorem ancestor_put_of_known (sound : graph.Sound) (fresh : id ∉ graph.known)
    (member : source ∈ graph.known) :
    (graph.put id event).Ancestor target source ↔ graph.Ancestor target source := by
  constructor
  · intro path
    induction path with
    | single edge =>
      rcases (refers_put fresh).mp edge with old | ⟨here, _⟩
      · exact .single old
      · exact absurd (here ▸ member) fresh
    | tail _ edge ih =>
      rcases (refers_put fresh).mp edge with old | ⟨here, _⟩
      · exact (ih (sound.closed _ _ old)).tail old
      · exact absurd (here ▸ member) fresh
  · intro path
    exact TransGen.mono (fun _ _ edge => (refers_put fresh).mpr (Or.inl edge)) _ _ path

/-- An event that refers to the frontier has everything before it. -/
theorem ancestor_put_frontier (sound : graph.Sound) (fresh : id ∉ graph.known) :
    (graph.put id (value, graph.frontier)).Ancestor target id ↔ target ∈ graph.known := by
  constructor
  · intro path
    obtain ⟨between, rest, last⟩ := TransGen.tail'_iff.mp path
    have front : between ∈ graph.frontier := ((refers_put fresh).mp last).elim
      (fun old => absurd old.known fresh) And.right
    rcases reflTransGen_iff_eq_or_transGen.mp rest with same | longer
    · exact same ▸ front.1
    · exact sound.ancestor_known ((ancestor_put_of_known sound fresh front.1).mp longer)
  · intro known
    obtain ⟨above, front, reached⟩ := sound.exists_frontier known
    have last : (graph.put id (value, graph.frontier)).Refers above id :=
      (refers_put fresh).mpr (Or.inr ⟨rfl, front⟩)
    rcases reached with same | path
    · exact same ▸ .single last
    · exact ((ancestor_put_of_known sound fresh front.1).mpr path).tail last

theorem Reduced.recorded (reduced : graph.Reduced) (fresh : id ∉ graph.known) :
    (graph.put id (value, graph.frontier)).Reduced := by
  have old : ∀ {target source}, source ∈ graph.known →
      ((graph.put id (value, graph.frontier)).Ancestor target source ↔
        graph.Ancestor target source) :=
    fun member => ancestor_put_of_known reduced.toSound fresh member
  have below : ∀ {target}, (graph.put id (value, graph.frontier)).Ancestor target id ↔
      target ∈ graph.known :=
    ancestor_put_frontier reduced.toSound fresh
  refine ⟨⟨?_, ?_, ?_⟩, ?_⟩
  · refine (reduced.finite.insert id).subset fun other member => ?_
    exact (known_put.mp member).imp_right fun kept => kept
  · intro target source edge
    rcases (refers_put fresh).mp edge with before | ⟨_, front⟩
    · exact known_put.mpr (Or.inr (reduced.closed _ _ before))
    · exact known_put.mpr (Or.inr front.1)
  · intro other round
    rcases known_put.mp round.known with rfl | member
    · exact fresh (below.mp round)
    · exact reduced.acyclic other ((old member).mp round)
  · intro target source edge between before after
    rcases (refers_put fresh).mp edge with kept | ⟨rfl, front⟩
    · have inside := (old kept.known).mp after
      exact reduced.direct target source kept between
        ((old (reduced.ancestor_known inside)).mp before) inside
    · obtain ⟨_, first, _⟩ := TransGen.head'_iff.mp ((old (below.mp after)).mp before)
      exact front.2 _ first

/-- Recording at the frontier is recording after everything. -/
theorem Reduced.history_recorded (reduced : graph.Reduced) (fresh : id ∉ graph.known) :
    (graph.put id (value, graph.frontier)).history = graph.history.put id (value, graph.known) := by
  apply CausalGraph.ext
  funext other
  by_cases same : other = id
  · subst same
    have past : {target | (graph.put other (value, graph.frontier)).Ancestor target other} =
        graph.known :=
      Set.ext fun target => ancestor_put_frontier reduced.toSound fresh
    rw [event_history, put_self, put_self, Option.map_some, past]
  · rw [put_other same, event_history, event_history, put_other same]
    cases held : graph.event other with
    | none => rfl
    | some found =>
      have past : {target | (graph.put id (value, graph.frontier)).Ancestor target other} =
          {target | graph.Ancestor target other} :=
        Set.ext fun target => ancestor_put_of_known reduced.toSound fresh ⟨found, held⟩
      rw [Option.map_some, Option.map_some, past]

end Recording

section Histories

theorem known_history : graph.history.known = graph.known := by
  ext id
  simp only [mem_known, event_history, Option.map_eq_some_iff]
  exact ⟨fun ⟨_, event, found, _⟩ => ⟨event, found⟩, fun ⟨event, found⟩ => ⟨_, event, found, rfl⟩⟩

theorem refers_history : graph.history.Refers target source ↔ graph.Ancestor target source := by
  constructor
  · rintro ⟨value, targets, found, member⟩
    obtain ⟨event, _, same⟩ := Option.map_eq_some_iff.mp found
    cases same
    exact member
  · intro path
    obtain ⟨event, found⟩ := path.known
    exact ⟨event.1, _, Option.map_eq_some_iff.mpr ⟨event, found, rfl⟩, path⟩

theorem frontier_history : graph.history.frontier = graph.frontier := by
  ext id
  change id ∈ graph.history.known ∧ _ ↔ id ∈ graph.known ∧ _
  simp only [known_history, refers_history]
  have same : (∀ source, ¬ graph.Ancestor id source) ↔ ∀ source, ¬ graph.Refers id source := by
    constructor
    · exact fun free source edge => free source (.single edge)
    · intro free source path
      obtain ⟨_, first, _⟩ := TransGen.head'_iff.mp path
      exact free _ first
  rw [same]

/-- The side that knows an event knows its ancestors. -/
theorem Agree.ancestor_left (agree : left.Agree right) (sound : left.Sound)
    (member : source ∈ left.known) :
    (left.union right).Ancestor target source ↔ left.Ancestor target source := by
  have step : ∀ {target source}, source ∈ left.known → (left.union right).Refers target source →
      left.Refers target source := by
    rintro target source ⟨first, held⟩ ⟨value, targets, found, listed⟩
    rw [(agree.event_union).mpr (Or.inl held), Option.some.injEq] at found
    exact ⟨value, targets, held.trans (congrArg some found), listed⟩
  constructor
  · intro path
    induction path with
    | single edge => exact .single (step member edge)
    | tail _ edge ih => exact (ih (sound.closed _ _ (step member edge))).tail (step member edge)
  · intro path
    exact TransGen.mono (fun _ _ edge => agree.refers_union.mpr (Or.inl edge)) _ _ path

theorem Agree.union_comm (agree : left.Agree right) : left.union right = right.union left := by
  apply CausalGraph.ext
  funext id
  change (left.event id).or (right.event id) = (right.event id).or (left.event id)
  cases first : left.event id with
  | none => cases second : right.event id with
    | none => rfl
    | some event => rfl
  | some event => cases second : right.event id with
    | none => rfl
    | some other => exact congrArg some (agree id event other first second)

theorem Agree.ancestor_right (agree : left.Agree right) (sound : right.Sound)
    (member : source ∈ right.known) :
    (left.union right).Ancestor target source ↔ right.Ancestor target source := by
  rw [agree.union_comm]
  exact agree.symm.ancestor_left sound member

theorem Sound.union (sound : left.Sound) (also : right.Sound) (agree : left.Agree right) :
    (left.union right).Sound := by
  refine ⟨?_, ?_, ?_⟩
  · exact (sound.finite.union also.finite).subset fun id member => agree.known_union.mp member
  · intro target source edge
    rcases agree.refers_union.mp edge with old | new
    · exact agree.known_union.mpr (Or.inl (sound.closed _ _ old))
    · exact agree.known_union.mpr (Or.inr (also.closed _ _ new))
  · intro id round
    rcases agree.known_union.mp round.known with member | member
    · exact sound.acyclic id ((agree.ancestor_left sound member).mp round)
    · exact also.acyclic id ((agree.ancestor_right also member).mp round)

theorem Reduced.union (reduced : left.Reduced) (also : right.Reduced) (agree : left.Agree right) :
    (left.union right).Reduced := by
  refine ⟨reduced.toSound.union also.toSound agree, ?_⟩
  intro target source edge between before after
  rcases agree.refers_union.mp edge with old | new
  · have inside := (agree.ancestor_left reduced.toSound old.known).mp after
    have below := (agree.ancestor_left reduced.toSound (reduced.ancestor_known inside)).mp before
    exact reduced.direct target source old between below inside
  · have inside := (agree.ancestor_right also.toSound new.known).mp after
    have below := (agree.ancestor_right also.toSound (also.ancestor_known inside)).mp before
    exact also.direct target source new between below inside

/-- The union of graphs tells the union of their histories. -/
theorem Agree.history_union (agree : left.Agree right) (reduced : left.Reduced)
    (also : right.Reduced) :
    (left.union right).history = left.history.union right.history := by
  apply CausalGraph.ext
  funext id
  change ((left.union right).event id).map _ = ((left.event id).map _).or ((right.event id).map _)
  cases first : left.event id with
  | some event =>
    have past : {target | (left.union right).Ancestor target id} =
        {target | left.Ancestor target id} :=
      Set.ext fun target => agree.ancestor_left reduced.toSound ⟨event, first⟩
    rw [agree.event_union.mpr (Or.inl first), Option.map_some, Option.map_some,
      Option.some_or, past]
  | none => cases second : right.event id with
    | some event =>
      have past : {target | (left.union right).Ancestor target id} =
          {target | right.Ancestor target id} :=
        Set.ext fun target => agree.ancestor_right also.toSound ⟨event, second⟩
      rw [agree.event_union.mpr (Or.inr second), Option.map_some, Option.map_some, Option.map_none,
        Option.none_or, past]
    | none =>
      have absent : (left.union right).event id = none := by
        change (left.event id).or (right.event id) = none
        rw [first, second, Option.or_none]
      rw [absent]
      rfl

theorem Agree.history (agree : left.Agree right) (reduced : left.Reduced) (also : right.Reduced) :
    left.history.Agree right.history := by
  intro id first second found held
  obtain ⟨event, here, same⟩ := Option.map_eq_some_iff.mp found
  obtain ⟨other, there, alike⟩ := Option.map_eq_some_iff.mp held
  subst same
  subst alike
  rw [agree id event other here there]
  congr 1
  ext target
  exact (agree.ancestor_left reduced.toSound ⟨event, here⟩).symm.trans
    (agree.ancestor_right also.toSound ⟨other, there⟩)

/-- Direct references can be read off a history, so graphs that tell histories that agree
agree themselves. -/
theorem Agree.of_history (agree : left.history.Agree right.history) (reduced : left.Reduced)
    (also : right.Reduced) :
    left.Agree right := by
  have shared : ∀ {id}, id ∈ left.known → id ∈ right.known → ∀ {target}, left.Ancestor target id ↔
      right.Ancestor target id := by
    rintro id ⟨first, found⟩ ⟨second, held⟩ target
    have same := agree id _ _ (Option.map_eq_some_iff.mpr ⟨first, found, rfl⟩)
      (Option.map_eq_some_iff.mpr ⟨second, held, rfl⟩)
    exact Set.ext_iff.mp (congrArg Prod.snd same) target
  have values : ∀ {id first second}, left.event id = some first → right.event id = some second →
      first.1 = second.1 := by
    intro id first second found held
    have same := agree id _ _ (Option.map_eq_some_iff.mpr ⟨first, found, rfl⟩)
      (Option.map_eq_some_iff.mpr ⟨second, held, rfl⟩)
    exact (Prod.mk.inj same).1
  intro id first second found held
  have here : id ∈ left.known := ⟨first, found⟩
  have there : id ∈ right.known := ⟨second, held⟩
  have references : ∀ target, left.Refers target id ↔ right.Refers target id := by
    intro target
    rw [reduced.refers_iff, also.refers_iff, shared here there]
    refine and_congr_right fun _ => forall_congr' fun between => ?_
    -- an event in between is an ancestor on both sides, so both sides know it
    constructor
    · intro apart before after
      have inside := (shared here there).mpr after
      exact apart
        ((shared (reduced.ancestor_known inside) (also.ancestor_known after)).mpr before) inside
    · intro apart before after
      have inside := (shared here there).mp after
      exact apart
        ((shared (reduced.ancestor_known after) (also.ancestor_known inside)).mp before) inside
  refine Prod.ext (values found held) (Set.ext fun target => ?_)
  rw [← refers_event found, ← refers_event held, references]

end Histories

section Items

variable {Item : Type} {value : Item → Value} {targets : Item → Set Id}
  {lookup others next : Id → Option Item} {item : Item}

/-- The graph of items that hold a value and references. -/
def ofItems (lookup : Id → Option Item) (value : Item → Value) (targets : Item → Set Id) :
    CausalGraph Id Value :=
  ⟨fun id => (lookup id).map fun item => (value item, targets item)⟩

theorem event_ofItems (found : lookup id = some item) :
    (ofItems lookup value targets).event id = some (value item, targets item) :=
  Option.map_eq_some_iff.mpr ⟨item, found, rfl⟩

theorem known_ofItems :
    id ∈ (ofItems lookup value targets).known ↔ ∃ item, lookup id = some item := by
  simp only [mem_known, ofItems, Option.map_eq_some_iff]
  exact ⟨fun ⟨_, item, found, _⟩ => ⟨item, found⟩, fun ⟨item, found⟩ => ⟨_, item, found, rfl⟩⟩

theorem ofItems_none (nothing : ∀ id, lookup id = none) : ofItems lookup value targets = empty := by
  apply CausalGraph.ext
  funext id
  change (lookup id).map _ = none
  rw [nothing, Option.map_none]

theorem refers_ofItems : (ofItems lookup value targets).Refers target source ↔
    ∃ item, lookup source = some item ∧ target ∈ targets item := by
  constructor
  · rintro ⟨_, _, found, member⟩
    obtain ⟨item, held, same⟩ := Option.map_eq_some_iff.mp found
    cases same
    exact ⟨item, held, member⟩
  · rintro ⟨item, found, member⟩
    exact ⟨_, _, event_ofItems found, member⟩

theorem put_ofItems (stored : next id = some item)
    (kept : ∀ other, other ≠ id → next other = lookup other) :
    ofItems next value targets = (ofItems lookup value targets).put id (value item,
      targets item) := by
  apply CausalGraph.ext
  funext other
  by_cases same : other = id
  · rw [same, put_self, event_ofItems stored]
  · rw [put_other same]
    change (next other).map _ = (lookup other).map _
    rw [kept other same]

theorem union_ofItems (stored : ∀ id, next id = (lookup id).or (others id)) :
    ofItems next value targets = (ofItems lookup value targets).union
      (ofItems others value targets) := by
  apply CausalGraph.ext
  funext id
  change (next id).map _ = ((lookup id).map _).or ((others id).map _)
  rw [stored, Option.map_or]

theorem agree_of_items
    (same : ∀ id first second, lookup id = some first → others id = some second → first = second) :
    (ofItems lookup value targets).Agree (ofItems others value targets) := by
  intro id first second found held
  obtain ⟨one, here, rfl⟩ := Option.map_eq_some_iff.mp found
  obtain ⟨two, there, rfl⟩ := Option.map_eq_some_iff.mp held
  rw [same id one two here there]

theorem agree_ofItems (shown : ∀ id first second, lookup id = some first → others id = some second →
    value first = value second → targets first = targets second → first = second) :
    (ofItems lookup value targets).Agree (ofItems others value targets) ↔
      ∀ id first second, lookup id = some first → others id = some second → first = second := by
  refine ⟨fun agree id first second found held => ?_, agree_of_items⟩
  have same := agree id _ _ (event_ofItems found) (event_ofItems held)
  obtain ⟨values, references⟩ := Prod.mk.inj same
  exact shown id first second found held values references

end Items

section Codes

variable {Code : Type} {code : Id → Code} {stored first second : CausalGraph Code Value}

/-- A graph whose events and references are named by codes. -/
structure Coded (code : Id → Code) (stored : CausalGraph Code Value)
    (graph : CausalGraph Id Value) : Prop where
  named : ∀ name ∈ stored.known, ∃ id, name = code id
  event : ∀ id, stored.event (code id) = (graph.event id).map fun event =>
    (event.1, code '' event.2)

namespace Coded

theorem mem_known (coded : stored.Coded code graph) :
    code id ∈ stored.known ↔ id ∈ graph.known := by
  rw [CausalGraph.mem_known, CausalGraph.mem_known, coded.event]
  cases graph.event id with
  | none => simp
  | some event => simp

theorem event_iff (coded : stored.Coded code graph) {value : Value} {references : Set Code} :
    stored.event (code id) = some (value, references) ↔
      ∃ targets, graph.event id = some (value, targets) ∧ code '' targets = references := by
  rw [coded.event, Option.map_eq_some_iff, Prod.exists]
  simp only [Prod.mk.injEq]
  constructor
  · rintro ⟨_, targets, found, rfl, same⟩
    exact ⟨targets, found, same⟩
  · rintro ⟨targets, found, same⟩
    exact ⟨value, targets, found, rfl, same⟩

theorem refers_named (coded : stored.Coded code graph) {source target : Code}
    (edge : stored.Refers target source) :
    ∃ child parent, source = code child ∧ target = code parent ∧ graph.Refers parent child := by
  obtain ⟨child, rfl⟩ := coded.named _ edge.known
  obtain ⟨value, references, found, member⟩ := edge
  obtain ⟨targets, held, rfl⟩ := coded.event_iff.mp found
  obtain ⟨parent, inside, rfl⟩ := member
  exact ⟨child, parent, rfl, rfl, value, targets, held, inside⟩

theorem refers_of (coded : stored.Coded code graph) (edge : graph.Refers target source) :
    stored.Refers (code target) (code source) := by
  obtain ⟨value, targets, found, member⟩ := edge
  exact ⟨value, _, coded.event_iff.mpr ⟨targets, found, rfl⟩, Set.mem_image_of_mem code member⟩

theorem known_eq (coded : stored.Coded code graph) : stored.known = code '' graph.known := by
  ext name
  constructor
  · intro member
    obtain ⟨id, rfl⟩ := coded.named name member
    exact Set.mem_image_of_mem code (coded.mem_known.mp member)
  · rintro ⟨id, member, rfl⟩
    exact coded.mem_known.mpr member

variable (injective : Function.Injective code)
include injective

theorem refers_iff (coded : stored.Coded code graph) :
    stored.Refers (code target) (code source) ↔ graph.Refers target source := by
  refine ⟨fun edge => ?_, coded.refers_of⟩
  obtain ⟨child, parent, same, alike, found⟩ := coded.refers_named edge
  rw [injective same, injective alike]
  exact found

theorem ancestor_iff (coded : stored.Coded code graph) :
    stored.Ancestor (code target) (code source) ↔ graph.Ancestor target source := by
  constructor
  · intro path
    have every : ∀ {name}, stored.Ancestor (code target) name → ∃ id, name = code id ∧
        graph.Ancestor target id := by
      intro name path
      induction path with
      | single edge =>
        obtain ⟨child, parent, same, alike, found⟩ := coded.refers_named edge
        exact ⟨child, same, injective alike ▸ .single found⟩
      | tail _ edge ih =>
        obtain ⟨before, same, reached⟩ := ih
        obtain ⟨child, parent, last, alike, found⟩ := coded.refers_named edge
        have here : before = parent := injective (same.symm.trans alike)
        exact ⟨child, last, reached.tail (here ▸ found)⟩
    obtain ⟨id, same, reached⟩ := every path
    exact injective same ▸ reached
  · intro path
    induction path with
    | single edge => exact .single (coded.refers_of edge)
    | tail _ edge ih => exact ih.tail (coded.refers_of edge)

theorem mem_frontier (coded : stored.Coded code graph) :
    code id ∈ stored.frontier ↔ id ∈ graph.frontier := by
  refine and_congr coded.mem_known ?_
  constructor
  · exact fun free source edge => free _ (coded.refers_of edge)
  · intro free source edge
    obtain ⟨child, parent, _, same, found⟩ := coded.refers_named edge
    exact free child (injective same ▸ found)

theorem frontier_eq (coded : stored.Coded code graph) :
    stored.frontier = code '' graph.frontier := by
  ext name
  constructor
  · intro front
    obtain ⟨id, rfl⟩ := coded.named name front.1
    exact Set.mem_image_of_mem code ((coded.mem_frontier injective).mp front)
  · rintro ⟨id, front, rfl⟩
    exact (coded.mem_frontier injective).mpr front

theorem put (coded : stored.Coded code graph) (id : Id) (value : Value) (targets : Set Id) :
    (stored.put (code id) (value, code '' targets)).Coded code (graph.put id (value, targets)) := by
  constructor
  · intro name member
    rcases known_put.mp member with same | old
    · exact ⟨id, same⟩
    · exact coded.named name old
  · intro other
    by_cases same : other = id
    · rw [same, put_self, put_self, Option.map_some]
    · rw [put_other fun alike => same (injective alike), put_other same, coded.event]

theorem agree_iff {left right : CausalGraph Id Value} (one : first.Coded code left)
    (two : second.Coded code right) :
    first.Agree second ↔ left.Agree right := by
  constructor
  · intro agree id event other found held
    have same := agree (code id) _ _ ((one.event id).trans (by rw [found, Option.map_some]))
      ((two.event id).trans (by rw [held, Option.map_some]))
    obtain ⟨values, references⟩ := Prod.mk.inj same
    exact Prod.ext values (Set.image_injective.mpr injective references)
  · intro agree name event other found held
    obtain ⟨id, rfl⟩ := one.named name ⟨event, found⟩
    rw [one.event, Option.map_eq_some_iff] at found
    rw [two.event, Option.map_eq_some_iff] at held
    obtain ⟨before, here, rfl⟩ := found
    obtain ⟨after, there, rfl⟩ := held
    rw [agree id before after here there]

omit injective in
theorem union {left right : CausalGraph Id Value} (one : first.Coded code left)
    (two : second.Coded code right) :
    (first.union second).Coded code (left.union right) := by
  constructor
  · rintro name ⟨event, found⟩
    rcases mem_union.mp found with here | ⟨_, there⟩
    · exact one.named name ⟨event, here⟩
    · exact two.named name ⟨event, there⟩
  · intro id
    change (first.event (code id)).or (second.event (code id)) =
      ((left.event id).or (right.event id)).map _
    rw [one.event, two.event, Option.map_or]

end Coded

end Codes

section Winners

open Std (TransOrd LawfulEqOrd OrientedCmp LawfulEqCmp)

variable {Key : Type} [Ord Key] {key : Id → Key}

/-- The event of the frontier that has the greatest key, if there is any. -/
def Latest (graph : CausalGraph Id Value) (key : Id → Key) : Option (Id × Value) → Prop
  | none => graph.frontier = ∅
  | some (id, value) => id ∈ graph.frontier ∧ (∃ targets, graph.event id = some (value, targets)) ∧
    ∀ other ∈ graph.frontier, (compare (key other) (key id)).isLE

theorem Latest.unique [TransOrd Key] [LawfulEqOrd Key] (injective : Function.Injective key)
    {one two : Option (Id × Value)} (first : graph.Latest key one)
    (second : graph.Latest key two) : one = two := by
  cases one with
  | none => cases two with
    | none => rfl
    | some entry =>
      have nothing : graph.frontier = ∅ := first
      exact absurd (nothing ▸ second.1) (Set.notMem_empty entry.1)
  | some entry => cases two with
    | none =>
      have nothing : graph.frontier = ∅ := second
      exact absurd (nothing ▸ first.1) (Set.notMem_empty entry.1)
    | some other =>
      obtain ⟨front, ⟨targets, found⟩, most⟩ := first
      obtain ⟨also, ⟨references, held⟩, best⟩ := second
      have same : entry.1 = other.1 :=
        injective
          (LawfulEqCmp.eq_of_compare (OrientedCmp.isLE_antisymm (best _ front) (most _ also)))
      rw [same, held, Option.some.injEq] at found
      exact congrArg some (Prod.ext same (Prod.mk.inj found).1.symm)

theorem latest_history {found : Option (Id × Value)} :
    graph.history.Latest key found ↔ graph.Latest key found := by
  cases found with
  | none =>
    change graph.history.frontier = ∅ ↔ graph.frontier = ∅
    rw [frontier_history]
  | some entry =>
    change entry.1 ∈ graph.history.frontier ∧ _ ∧ (∀ other ∈ graph.history.frontier, _) ↔
      entry.1 ∈ graph.frontier ∧ _ ∧ ∀ other ∈ graph.frontier, _
    rw [frontier_history]
    refine and_congr_right fun _ => and_congr_left fun _ => ?_
    simp only [event_history, Option.map_eq_some_iff, Prod.mk.injEq]
    constructor
    · rintro ⟨_, event, found, same, _⟩
      exact ⟨event.2, by rw [found, ← same]⟩
    · rintro ⟨targets, found⟩
      exact ⟨_, _, found, rfl, rfl⟩

theorem Coded.latest {Code : Type} {code : Id → Code} {stored : CausalGraph Code Value}
    {codeKey : Code → Key} {found : Option (Code × Value)} (injective : Function.Injective code)
    (coded : stored.Coded code graph) (keys : ∀ id, codeKey (code id) = key id)
    (latest : stored.Latest codeKey found) :
    ∃ entry : Option (Id × Value), graph.Latest key entry ∧ found = entry.map fun entry =>
    (code entry.1, entry.2) := by
  cases found with
  | none =>
    refine ⟨none, ?_, rfl⟩
    have nothing : stored.frontier = ∅ := latest
    rw [coded.frontier_eq injective, Set.image_eq_empty] at nothing
    exact nothing
  | some entry =>
    obtain ⟨front, ⟨references, held⟩, most⟩ := latest
    obtain ⟨id, same⟩ := coded.named entry.1 front.1
    rw [same] at front held most
    obtain ⟨targets, found, _⟩ := coded.event_iff.mp held
    refine ⟨some (id, entry.2), ⟨(coded.mem_frontier injective).mp front, ⟨targets, found⟩,
      fun other member => ?_⟩, ?_⟩
    · rw [← keys, ← keys]
      exact most _ ((coded.mem_frontier injective).mpr member)
    · rw [Option.map_some, ← same]

end Winners

section Registers

/-- Registers whose events refer to the frontier. -/
noncomputable def direct :
    Replicated (CausalGraph Id Value) Id Value := ⟨empty, recordFrontier, merge⟩

/-- Registers whose events refer to everything before them. -/
noncomputable def past : Replicated (CausalGraph Id Value) Id Value := ⟨empty, recordAll, merge⟩

/-- Direct references are enough: they tell the same history. -/
theorem direct_simulates_past : (direct : Replicated (CausalGraph Id Value) Id Value).Simulates past
    fun graph history => graph.Reduced ∧ graph.history = history where
  start := ⟨reduced_empty, rfl⟩
  assign := by
    rintro graph _ id value ⟨reduced, rfl⟩
    change Option.Rel _ (graph.recordFrontier id value) (graph.history.recordAll id value)
    rw [recordFrontier, recordAll, known_history]
    by_cases fresh : id ∉ graph.known
    · rw [if_pos fresh, if_pos fresh]
      exact .some ⟨reduced.recorded fresh, reduced.history_recorded fresh⟩
    · rw [if_neg fresh, if_neg fresh]
      exact .none
  merge := by
    rintro left _ right _ ⟨reduced, rfl⟩ ⟨also, rfl⟩
    change Option.Rel _ (left.merge right) (left.history.merge right.history)
    rw [merge, merge]
    by_cases agree : left.Agree right
    · rw [if_pos agree, if_pos (agree.history reduced also)]
      exact .some ⟨reduced.union also agree, agree.history_union reduced also⟩
    · rw [if_neg agree, if_neg fun alike => agree (alike.of_history reduced also)]
      exact .none

section Codes

variable {Code : Type} {code : Id → Code} {first second : CausalGraph Code Value}

theorem coded_empty : (empty : CausalGraph Code Value).Coded code empty := by
  refine ⟨?_, fun _ => rfl⟩
  rintro name ⟨event, found⟩
  cases found

theorem coded_merge (injective : Function.Injective code) (one : first.Coded code left)
    (two : second.Coded code right) :
    Option.Rel (Coded code) (first.merge second) (left.merge right) := by
  rw [CausalGraph.merge, CausalGraph.merge]
  by_cases agree : left.Agree right
  · rw [if_pos agree, if_pos ((Coded.agree_iff injective one two).mpr agree)]
    exact .some (one.union two)
  · rw [if_neg agree, if_neg fun alike => agree ((Coded.agree_iff injective one two).mp alike)]
    exact .none

theorem coded_direct (injective : Function.Injective code) :
    ((direct : Replicated (CausalGraph Code Value) Code Value).named code).Simulates direct
      (Coded code) where
  start := coded_empty
  assign := by
    intro stored graph id value coded
    change Option.Rel _ (stored.recordFrontier (code id) value) (graph.recordFrontier id value)
    rw [recordFrontier, recordFrontier, coded.frontier_eq injective]
    by_cases fresh : id ∉ graph.known
    · rw [if_pos fresh, if_pos fun member => fresh (coded.mem_known.mp member)]
      exact .some (coded.put injective id value graph.frontier)
    · rw [if_neg fresh, if_neg fun absent => fresh fun member =>
        absent (coded.mem_known.mpr member)]
      exact .none
  merge := fun _ _ _ _ one two => coded_merge injective one two

theorem coded_past (injective : Function.Injective code) :
    ((past : Replicated (CausalGraph Code Value) Code Value).named code).Simulates past
      (Coded code) where
  start := coded_empty
  assign := by
    intro stored graph id value coded
    change Option.Rel _ (stored.recordAll (code id) value) (graph.recordAll id value)
    rw [recordAll, recordAll, coded.known_eq]
    by_cases fresh : id ∉ graph.known
    · rw [if_pos fresh, if_pos fun member => fresh (injective.mem_set_image.mp member)]
      exact .some (coded.put injective id value graph.known)
    · rw [if_neg fresh, if_neg fun absent => fresh fun member =>
        absent (Set.mem_image_of_mem code member)]
      exact .none
  merge := fun _ _ _ _ one two => coded_merge injective one two

end Codes

end Registers

end CausalGraph

end PrivateContinuum.Library
