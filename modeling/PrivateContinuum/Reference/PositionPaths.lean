import PrivateContinuum.Library.InOrder
import PrivateContinuum.Reference.Positions

/-! Positions by the steps that lead to them from the root: what `validate` accepts, and
what `compare` computes. -/

namespace PrivateContinuum.Reference

open Relation PrivateContinuum.Library

/-- A step down to a position, with what siblings are ordered by. -/
structure PositionStep where
  positionId : String
  leftChild : Bool
  key : Bytes
deriving DecidableEq

def FuguePosition.step (position : FuguePosition) (positionId : String) : PositionStep :=
  ⟨positionId, position.leftChild, position.key⟩

def positionSides : Sides PositionStep :=
  ⟨PositionStep.leftChild, fun step other => step.key < other.key⟩

/-- What `compare` returns for an order. -/
def sign : Ordering → Int
  | .lt => -1
  | .eq => 0
  | .gt => 1

namespace FuguePositionTree

/-- The steps to a position, or to the root. -/
inductive HasPath (tree : FuguePositionTree) : Option String → List PositionStep → Prop where
  | top : HasPath tree none []
  | down {positionId : String} {position : FuguePosition} {path : List PositionStep}
      (found : tree.positions.get positionId = some position)
        (above : HasPath tree position.parentPositionId path) :
      HasPath tree (some positionId) (path ++ [position.step positionId])

/-- All positions are reached from the root. -/
def Rooted (tree : FuguePositionTree) : Prop :=
  ∀ positionId ∈ tree.positions.keys, ∃ path, tree.HasPath (some positionId) path

variable {tree result : FuguePositionTree} {place other : Option String} {positionId : String}
  {path way front back : List PositionStep} {step : PositionStep}

theorem HasPath.unique (here : tree.HasPath place path)
    (there : tree.HasPath place way) : path = way := by
  induction here generalizing way with
  | top =>
    cases there
    rfl
  | down found _ ih =>
    cases there with
    | down again above =>
      rw [found] at again
      cases again
      rw [ih above]

theorem HasPath.last (here : tree.HasPath place (front ++ [step])) : place = some step.positionId ∧
    ∃ position, tree.positions.get step.positionId = some position ∧
      step = position.step step.positionId ∧ tree.HasPath position.parentPositionId front := by
  generalize same : front ++ [step] = path at here
  cases here with
  | top => simp at same
  | down found above =>
    obtain ⟨rfl, last⟩ := List.append_inj' same rfl
    cases last
    exact ⟨rfl, _, found, rfl, above⟩

theorem HasPath.named (here : tree.HasPath place path) (led : path ≠ []) :
    ∃ positionId, place = some positionId := by
  cases here with
  | top => exact absurd rfl led
  | down => exact ⟨_, rfl⟩

theorem HasPath.known (here : tree.HasPath (some positionId) path) :
    positionId ∈ tree.positions.keys := by
  cases here with
  | down found _ => exact Dict.mem_keys.mpr ⟨_, found⟩

theorem HasPath.split (here : tree.HasPath (some positionId) path) :
    ∃ front position, tree.positions.get positionId = some position ∧
      path = front ++ [position.step positionId] ∧
      tree.HasPath position.parentPositionId front := by
  cases here with
  | down found above => exact ⟨_, _, found, rfl, above⟩

/-- A place is told by its path. -/
theorem HasPath.injective (here : tree.HasPath place path)
    (there : tree.HasPath other path) : place = other := by
  cases here with
  | top =>
    generalize same : ([] : List PositionStep) = path at there
    cases there with
    | top => rfl
    | down => simp at same
  | down found above => exact (HasPath.last there).1.symm

/-- The positions on the way to a place have the beginnings of its path. -/
theorem HasPath.through (here : tree.HasPath place (front ++ step :: back)) :
    tree.HasPath (some step.positionId) (front ++ [step]) := by
  induction back using List.reverseRecOn generalizing place with
  | nil => exact here.last.1 ▸ here
  | append_singleton back last ih =>
    rw [← List.cons_append, ← List.append_assoc] at here
    obtain ⟨_, position, _, _, above⟩ := here.last
    exact ih above

theorem HasPath.beginning (here : tree.HasPath place (front ++ back)) :
    ∃ above, tree.HasPath above front := by
  induction back using List.reverseRecOn generalizing place with
  | nil => exact ⟨place, by rwa [List.append_nil] at here⟩
  | append_singleton back last ih =>
    rw [← List.append_assoc] at here
    obtain ⟨_, position, _, _, above⟩ := here.last
    exact ih above

theorem HasPath.distinct (here : tree.HasPath place path) :
    (path.map PositionStep.positionId).Nodup := by
  induction here with
  | top => exact List.nodup_nil
  | down found above ih =>
    rw [List.map_append, List.nodup_append]
    refine ⟨ih, List.nodup_singleton _, ?_⟩
    intro onWay member last same same'
    obtain ⟨earlier, among, rfl⟩ := List.mem_map.mp member
    obtain ⟨front, back, parted⟩ := List.append_of_mem among
    rw [List.map_singleton, List.mem_singleton] at same
    subst same'
    have again := HasPath.through (parted ▸ above)
    rw [same] at again
    have lengths := congrArg List.length (again.unique (.down found above))
    rw [parted] at lengths
    simp at lengths

theorem HasPath.among (here : tree.HasPath place path) :
    ∀ step ∈ path, step.positionId ∈ tree.positions.keys := by
  intro step member
  obtain ⟨front, back, parted⟩ := List.append_of_mem member
  exact (HasPath.through (parted ▸ here)).known

/-- The bound of all loops. -/
theorem HasPath.length_le (here : tree.HasPath place path) :
    path.length ≤ tree.positions.keys.length := by
  have inside : path.map PositionStep.positionId ⊆ tree.positions.keys := by
    intro positionId member
    obtain ⟨step, among, rfl⟩ := List.mem_map.mp member
    exact here.among step among
  have shorter := (List.subperm_of_subset here.distinct inside).length_le
  rwa [List.length_map] at shorter

/-- All positions are in another tree, as they are. -/
def Included (tree result : FuguePositionTree) : Prop :=
  ∀ positionId position, tree.positions.get positionId = some position →
    result.positions.get positionId = some position

theorem HasPath.included (here : tree.HasPath place path) (inside : tree.Included result) :
    result.HasPath place path := by
  induction here with
  | top => exact .top
  | down found _ ih => exact .down (inside _ _ found) ih

section Validation

theorem lookup_ok_iff {position : FuguePosition} :
    tree.lookup positionId = .ok position ↔ tree.positions.get positionId = some position := by
  unfold lookup
  cases tree.positions.get positionId with
  | none => simp
  | some found => simp

theorem ascent_parents_ok_iff {parents : List String} :
    tree.ascent.parents positionId = .ok parents ↔
    ∃ position, tree.positions.get positionId = some position ∧
      position.parentPositionId.toList = parents := by
  change (tree.lookup positionId >>= fun position => pure position.parentPositionId.toList) = _ ↔ _
  rw [bind_ok_iff]
  simp only [lookup_ok_iff]
  constructor
  · rintro ⟨position, found, listed⟩
    exact ⟨position, found, Except.ok.inj listed⟩
  · rintro ⟨position, found, listed⟩
    exact ⟨position, found, congrArg Except.ok listed⟩

theorem parentsChecked_iff : (forM tree.positions.values fun position : FuguePosition =>
      if position.parentPositionId.any (· ∉ tree.positions.keys) then
        throw ModelError.positionParentMissing else (pure () : Except ModelError Unit)) = .ok () ↔
    tree.ascent.Complete tree.positions.keys := by
  rw [forM_ok_iff]
  constructor
  · intro checked positionId member
    obtain ⟨position, found⟩ := Dict.mem_keys.mp member
    refine ⟨_, ascent_parents_ok_iff.mpr ⟨position, found, rfl⟩, ?_⟩
    intro parent listed
    have passed := checked position (Dict.mem_values.mpr ⟨positionId, found⟩)
    by_contra absent
    rw [if_pos] at passed
    · cases passed
    · rw [Option.any_eq_true]
      exact ⟨parent, Option.mem_toList.mp listed, decide_eq_true absent⟩
  · intro complete position member
    obtain ⟨positionId, found⟩ := Dict.mem_values.mp member
    obtain ⟨parents, listed, inside⟩ := complete positionId (Dict.mem_keys.mpr ⟨position, found⟩)
    obtain ⟨same, again, rfl⟩ := ascent_parents_ok_iff.mp listed
    rw [found] at again
    cases again
    rw [if_neg]
    · rfl
    · rw [Option.any_eq_true]
      rintro ⟨parent, named, absent⟩
      exact of_decide_eq_true absent (inside parent (Option.mem_toList.mpr named))

theorem HasPath.shorter {ancestor : String} (reached : tree.ascent.Ancestor ancestor positionId)
    (here : tree.HasPath (some positionId) path) :
    ∃ way, tree.HasPath (some ancestor) way ∧ way.length < path.length := by
  have parent : ∀ {parent child : String} {path : List PositionStep},
      tree.ascent.Parent parent child →
      tree.HasPath (some child) path → ∃ way, tree.HasPath (some parent) way ∧
        way.length < path.length := by
    rintro parent child path ⟨parents, listed, named⟩ below
    obtain ⟨position, found, rfl⟩ := ascent_parents_ok_iff.mp listed
    obtain ⟨front, same, again, rfl, above⟩ := below.split
    rw [found] at again
    cases again
    rw [Option.mem_toList] at named
    exact ⟨front, named ▸ above, by simp⟩
  induction reached generalizing path with
  | single edge => exact parent edge here
  | tail _ edge ih =>
    obtain ⟨way, above, less⟩ := parent edge here
    obtain ⟨route, first, lesser⟩ := ih above
    exact ⟨route, first, lesser.trans less⟩

/-- The validation accepts exactly the trees whose positions are all reached. -/
theorem validate_ok_iff : tree.validate = .ok () ↔ tree.Rooted := by
  rw [validate, bind_ok_iff]
  constructor
  · rintro ⟨_, checked, continued⟩
    have complete := parentsChecked_iff.mp checked
    rw [bind_ok_iff] at continued
    obtain ⟨after, visited, _⟩ := continued
    refine ((Ascent.visitAll_ok_iff complete).mp ⟨after, visited⟩).induction complete ?_
    intro positionId parents listed above
    obtain ⟨position, found, rfl⟩ := ascent_parents_ok_iff.mp listed
    obtain ⟨path, reached⟩ : ∃ path, tree.HasPath position.parentPositionId path := by
      cases named : position.parentPositionId with
      | none => exact ⟨[], .top⟩
      | some parent => exact above parent (by simp [named])
    exact ⟨_, .down found reached⟩
  · intro rooted
    have complete : tree.ascent.Complete tree.positions.keys := by
      intro positionId member
      obtain ⟨path, reached⟩ := rooted positionId member
      obtain ⟨front, position, found, _, above⟩ := reached.split
      refine ⟨_, ascent_parents_ok_iff.mpr ⟨position, found, rfl⟩, ?_⟩
      intro parent named
      rw [Option.mem_toList] at named
      rw [named] at above
      exact above.known
    have acyclic : tree.ascent.Acyclic tree.positions.keys := by
      intro positionId member round
      obtain ⟨path, reached⟩ := rooted positionId member
      obtain ⟨way, again, less⟩ := HasPath.shorter round reached
      rw [again.unique reached] at less
      exact absurd less (lt_irrefl _)
    obtain ⟨after, visited⟩ := (Ascent.visitAll_ok_iff complete).mpr acyclic
    refine ⟨(), parentsChecked_iff.mpr complete, ?_⟩
    rw [visited]
    rfl

end Validation

section Comparison

variable {a b : String}

/-- The loop of `_depth` adds the steps that lead to the parent. -/
theorem depthFrom_eq {position : FuguePosition} {fuel depth : Nat}
    (above : tree.HasPath position.parentPositionId path) (room : path.length < fuel) :
    tree.depthFrom fuel depth position = .ok (depth + path.length) := by
  induction path using List.reverseRecOn generalizing position fuel depth with
  | nil =>
    obtain ⟨fuel, rfl⟩ := Nat.exists_eq_succ_of_ne_zero (Nat.ne_of_gt room)
    have top : position.parentPositionId = none := above.injective .top
    rw [depthFrom, top]
    rfl
  | append_singleton path step ih =>
    rw [List.length_append, List.length_singleton] at room
    obtain ⟨fuel, rfl⟩ := Nat.exists_eq_succ_of_ne_zero (Nat.ne_of_gt (Nat.zero_lt_of_lt room))
    obtain ⟨named, parent, found, _, higher⟩ := above.last
    rw [depthFrom, named]
    change (tree.lookup step.positionId >>= fun above => tree.depthFrom fuel (depth + 1) above) = _
    rw [lookup_ok_iff.mpr found]
    change tree.depthFrom fuel (depth + 1) parent = _
    rw [ih higher (by omega), List.length_append, List.length_singleton]
    congr 1
    omega

theorem depth_eq (here : tree.HasPath (some positionId) path) :
    tree.depth positionId = .ok path.length := by
  have room := here.length_le
  obtain ⟨front, position, found, rfl, above⟩ := here.split
  rw [List.length_append, List.length_singleton] at room
  rw [depth, lookup_ok_iff.mpr found]
  change tree.depthFrom tree.positions.keys.length 1 position = _
  rw [depthFrom_eq above (by omega), List.length_append, List.length_singleton, Nat.add_comm]

/-- Going up by some steps leads to the beginning of the path, and the last move is along
the first of these steps. -/
theorem climb_eq (climber : Climber) (lastMove : Option (Climber × Bool)) {above : String}
    (here : tree.HasPath (some positionId) (front ++ back))
    (there : tree.HasPath (some above) front) :
    tree.climb climber back.length positionId lastMove =
      .ok (above, (back.head?.map fun step => (climber, step.leftChild)).or lastMove) := by
  induction back using List.reverseRecOn generalizing positionId lastMove with
  | nil =>
    rw [List.append_nil] at here
    cases here.injective there
    rfl
  | append_singleton back step ih =>
    rw [← List.append_assoc] at here
    obtain ⟨named, position, found, same, higher⟩ := here.last
    cases named
    have led : front ++ back ≠ [] := by
      obtain ⟨_, _, _, cut, _⟩ := there.split
      simp [cut]
    obtain ⟨parent, upper⟩ := higher.named led
    rw [upper] at higher
    rw [List.length_append, List.length_singleton, climb, lookup_ok_iff.mpr found]
    simp only [bind, Except.bind, upper]
    rw [ih _ higher]
    cases back with
    | nil =>
      rw [same]
      rfl
    | cons => rfl

/-- From two places at one depth, the loop ends where their paths part. -/
theorem toSiblings_eq {step other : PositionStep} {fuel : Nat}
    (here : tree.HasPath (some a) (front ++ step :: path))
    (there : tree.HasPath (some b) (front ++ other :: way)) (level : path.length = way.length)
    (apart : step ≠ other) (room : path.length < fuel) :
    ∃ position opposite, tree.toSiblings fuel a b = .ok (position, opposite) ∧
      step = position.step step.positionId ∧ other = opposite.step other.positionId := by
  induction path using List.reverseRecOn generalizing a b way fuel with
  | nil =>
    obtain ⟨fuel, rfl⟩ := Nat.exists_eq_succ_of_ne_zero (Nat.ne_of_gt room)
    obtain rfl := List.length_eq_zero_iff.mp level.symm
    obtain ⟨named, position, found, same, above⟩ := here.last
    obtain ⟨also, opposite, again, alike, higher⟩ := there.last
    cases named
    cases also
    refine ⟨position, opposite, ?_, same, alike⟩
    rw [toSiblings, lookup_ok_iff.mpr found, lookup_ok_iff.mpr again]
    change (if position.parentPositionId = opposite.parentPositionId then _ else _) = _
    rw [if_pos (above.injective higher)]
    rfl
  | append_singleton path last ih =>
    rw [List.length_append, List.length_singleton] at level room
    obtain ⟨fuel, rfl⟩ := Nat.exists_eq_succ_of_ne_zero (Nat.ne_of_gt (Nat.zero_lt_of_lt room))
    obtain ⟨way, final, rfl⟩ : ∃ before final, way = before ++ [final] := by
      refine (List.eq_nil_or_concat' way).resolve_left ?_
      rintro rfl
      cases level
    rw [List.length_append, List.length_singleton] at level
    rw [← List.cons_append, ← List.append_assoc] at here there
    obtain ⟨named, position, found, _, above⟩ := here.last
    obtain ⟨also, opposite, again, _, higher⟩ := there.last
    cases named
    cases also
    have parted : position.parentPositionId ≠ opposite.parentPositionId := by
      intro same
      have aligned := above.unique (same ▸ higher)
      rw [List.append_cancel_left_eq] at aligned
      exact apart (List.cons.inj aligned).1
    obtain ⟨aParent, upper⟩ := above.named (by simp)
    obtain ⟨bParent, upperOther⟩ := higher.named (by simp)
    rw [upper] at above
    rw [upperOther] at higher
    rw [toSiblings, lookup_ok_iff.mpr found, lookup_ok_iff.mpr again]
    simp only [bind, Except.bind, if_neg parted]
    rw [upper, upperOther]
    exact ih above higher (by omega) (by omega)

/-- What `compare` makes of the places that the loops over the depths end at. -/
theorem compare_climbed {aId bId : String} {aMove lastMove : Option (Climber × Bool)}
    (here : tree.HasPath (some a) path) (there : tree.HasPath (some b) way) (apart : a ≠ b)
    (up : tree.climb .a (path.length - way.length) a none = .ok (aId, aMove))
    (also : tree.climb .b (way.length - path.length) b aMove = .ok (bId, lastMove)) :
    tree.compare a b =
      if aId = bId then
        match lastMove with
        | none => throw .invalidAncestorComparison
        | some (descendant, isLeft) =>
          pure ((if descendant = .a then 1 else -1) * (if isLeft then -1 else 1))
      else tree.toSiblings tree.positions.keys.length aId bId >>= fun pair =>
        if pair.1.leftChild ≠ pair.2.leftChild then pure (if pair.1.leftChild then -1 else 1)
        else pure (if pair.1.key < pair.2.key then -1 else 1) := by
  rw [compare, if_neg apart, if_neg (by simp [here.known, there.known]),
    depth_eq here, depth_eq there]
  change (tree.climb .a (path.length - way.length) a none >>= fun moved =>
    tree.climb .b (way.length - path.length) b moved.2 >>= fun other => _) = _
  rw [up]
  change (tree.climb .b (way.length - path.length) b aMove >>= fun other => _) = _
  rw [also]
  rfl

/-- A position below another one is on the side of the step to it. -/
theorem compare_below {step : PositionStep} (here : tree.HasPath (some a) (way ++ step :: path))
    (there : tree.HasPath (some b) way) :
    tree.compare a b = .ok (if step.leftChild then -1 else 1) := by
  have apart : a ≠ b := by
    rintro rfl
    simpa using here.unique there
  have up := climb_eq .a none here there
  rw [compare_climbed here there apart (by simpa using up)
    (by rw [List.length_append, Nat.sub_add_eq]; simp; rfl), if_pos rfl]
  change Except.ok (1 * (if step.leftChild then -1 else 1)) = _
  rw [one_mul]

theorem compare_above {step : PositionStep} (here : tree.HasPath (some a) path)
    (there : tree.HasPath (some b) (path ++ step :: way)) :
    tree.compare a b = .ok (if step.leftChild then 1 else -1) := by
  have apart : a ≠ b := by
    rintro rfl
    simpa using here.unique there
  have up := climb_eq .b none there here
  rw [compare_climbed here there apart (by rw [List.length_append, Nat.sub_add_eq]; simp; rfl)
    (by simpa using up), if_pos rfl]
  change Except.ok (-1 * (if step.leftChild then -1 else 1)) = _
  cases step.leftChild with
  | true => rfl
  | false => rfl

/-- Both places are brought up to one depth, and from there to where the paths part. -/
theorem compare_parted {step other : PositionStep}
    (here : tree.HasPath (some a) (front ++ step :: path))
    (there : tree.HasPath (some b) (front ++ other :: way)) (parted : step ≠ other) :
    tree.compare a b = .ok (sign (positionSides.siblings step other)) := by
  have apart : a ≠ b := by
    rintro rfl
    have aligned := here.unique there
    rw [List.append_cancel_left_eq] at aligned
    exact parted (List.cons.inj aligned).1
  have cut (longer shorter : List PositionStep) (first : PositionStep) {place : String}
      (reached : tree.HasPath (some place) (front ++ first :: longer)) : ∃ above,
      tree.HasPath (some above) (front ++ first :: longer.take shorter.length) ∧
        ∀ climber lastMove, ∃ moved,
        tree.climb climber ((front ++ first :: longer).length - (front ++ other :: shorter).length)
          place lastMove = .ok (above, moved) := by
    rw [← List.take_append_drop shorter.length longer, ← List.cons_append, ← List.append_assoc]
      at reached
    obtain ⟨above, higher⟩ := reached.beginning
    obtain ⟨aboveId, rfl⟩ := higher.named (by simp)
    refine ⟨aboveId, higher, ?_⟩
    intro climber lastMove
    have levels : (front ++ first :: longer).length - (front ++ other :: shorter).length =
        (longer.drop shorter.length).length := by
      simp only [List.length_append, List.length_cons, List.length_drop]
      omega
    rw [levels]
    exact ⟨_, climb_eq climber lastMove reached higher⟩
  obtain ⟨aId, aPath, up⟩ := cut path way step here
  obtain ⟨bId, bPath, also⟩ := cut way path other there
  obtain ⟨aMove, moved⟩ := up .a none
  obtain ⟨lastMove, last⟩ := also .b aMove
  have different : aId ≠ bId := by
    rintro rfl
    have aligned := aPath.unique bPath
    rw [List.append_cancel_left_eq] at aligned
    exact parted (List.cons.inj aligned).1
  have room := aPath.length_le
  rw [List.length_append, List.length_cons] at room
  obtain ⟨position, opposite, found, same, alike⟩ := toSiblings_eq aPath bPath
    (by rw [List.length_take, List.length_take, Nat.min_comm]) parted
      (Nat.lt_of_lt_of_le (by omega) room)
  rw [compare_climbed here there apart moved (by simpa using last), if_neg different, found]
  rw [same, alike]
  change (if position.leftChild ≠ opposite.leftChild then _ else _) = Except.ok (sign
    (if position.leftChild ≠ opposite.leftChild then if position.leftChild then .lt else .gt
      else if decide (position.key < opposite.key) then .lt else .gt))
  by_cases sides : position.leftChild = opposite.leftChild
  · rw [if_neg (not_not.mpr sides), if_neg (not_not.mpr sides)]
    by_cases before : position.key < opposite.key
    · simp [before, sign]
    · simp [before, sign]
  · rw [if_pos sides, if_pos sides]
    cases position.leftChild with
    | true => rfl
    | false => rfl

/-- The comparison is that of the paths. -/
theorem compare_eq (here : tree.HasPath (some a) path) (there : tree.HasPath (some b) way) :
    tree.compare a b = .ok (sign (positionSides.inOrder path way)) := by
  by_cases same : a = b
  · subst same
    rw [compare, if_pos rfl, here.unique there, Sides.inOrder_eq_iff.mpr rfl]
    rfl
  obtain ⟨common, rest, rfl, rfl | ⟨other, remaining, rfl, apart⟩⟩ := Sides.paths_part path way
  · cases rest with
    | nil =>
      rw [List.append_nil] at here
      exact absurd (Option.some.inj (here.injective there)) same
    | cons step rest =>
      rw [compare_below here there, Sides.inOrder_above]
      change _ = Except.ok (sign (if step.leftChild then .lt else .gt))
      cases step.leftChild with
      | true => rfl
      | false => rfl
  · cases rest with
    | nil =>
      rw [List.append_nil] at here ⊢
      rw [compare_above here there, Sides.inOrder_below]
      change _ = Except.ok (sign (if other.leftChild then .gt else .lt))
      cases other.leftChild with
      | true => rfl
      | false => rfl
    | cons step rest =>
      have parted : step ≠ other := apart step rfl
      rw [compare_parted here there parted, Sides.inOrder_append, Sides.inOrder, if_neg parted]

theorem isAncestorFrom_eq {fuel : Nat} (here : tree.HasPath place path)
    (room : path.length ≤ fuel) :
    tree.isAncestorFrom a fuel place = .ok (decide (a ∈ path.map PositionStep.positionId)) := by
  induction here generalizing fuel with
  | top =>
    rw [isAncestorFrom]
    rfl
  | down found above ih =>
    rename_i current position path
    rw [List.length_append, List.length_singleton] at room
    obtain ⟨fuel, rfl⟩ :=
      Nat.exists_eq_succ_of_ne_zero (Nat.ne_of_gt (Nat.lt_of_lt_of_le (Nat.succ_pos _) room))
    rw [isAncestorFrom]
    by_cases same : current = a
    · rw [if_pos same, same, List.map_append]
      simp [FuguePosition.step]
    · rw [if_neg same, lookup_ok_iff.mpr found]
      change tree.isAncestorFrom a fuel position.parentPositionId = _
      rw [ih (Nat.le_of_succ_le_succ room), List.map_append]
      simp [FuguePosition.step, Ne.symm same]

theorem isAncestor_eq (here : tree.HasPath (some a) path) (there : tree.HasPath (some b) way) :
    tree.isAncestor a b = .ok (decide (path <+: way)) := by
  rw [isAncestor, isAncestorFrom_eq there there.length_le]
  congr 1
  rw [decide_eq_decide, List.mem_map]
  constructor
  · rintro ⟨step, among, rfl⟩
    obtain ⟨front, back, parted⟩ := List.append_of_mem among
    rw [here.unique (HasPath.through (parted ▸ there)), parted]
    exact ⟨back, by simp⟩
  · rintro ⟨rest, rfl⟩
    obtain ⟨front, position, _, rfl, _⟩ := here.split
    exact ⟨position.step a, by simp, rfl⟩

end Comparison

end FuguePositionTree

end PrivateContinuum.Reference
