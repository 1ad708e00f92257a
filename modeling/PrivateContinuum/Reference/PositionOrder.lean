import Mathlib
import PrivateContinuum.Reference.PositionPaths

namespace PrivateContinuum.Reference

open Relation PrivateContinuum.Library

namespace FuguePositionTree

variable {tree other result : FuguePositionTree} {place : Option String} {positionId a b c : String}
  {path way : List PositionStep} {left right : Option String}

/-- No two positions have the same bytes as their identifier. -/
def Distinct (tree : FuguePositionTree) : Prop :=
  ∀ one two first second, tree.positions.get one = some first →
    tree.positions.get two = some second →
    first.key = second.key → one = two

theorem distinct_iff :
    tree.Distinct ↔ ∀ first ∈ tree.positions.items, ∀ second ∈ tree.positions.items,
    first.2.key = second.2.key → first.1 = second.1 := by
  constructor
  · intro distinct first listed second also same
    exact distinct first.1 second.1 first.2 second.2 (Dict.get_iff.mpr listed)
      (Dict.get_iff.mpr also) same
  · intro distinct one two first second found stored same
    exact distinct (one, first) (Dict.get_iff.mp found) (two, second) (Dict.get_iff.mp stored) same

/-- The one position sorts before the other. -/
def Before (tree : FuguePositionTree) (a b : String) : Prop := tree.compare a b = .ok (-1)

section Order

def StepOf (tree : FuguePositionTree) (step : PositionStep) : Prop :=
  ∃ position, tree.positions.get step.positionId = some position ∧
    step = position.step step.positionId

theorem HasPath.steps (here : tree.HasPath place path) : ∀ step ∈ path, tree.StepOf step := by
  intro step member
  obtain ⟨front, back, parted⟩ := List.append_of_mem member
  obtain ⟨_, position, found, same, _⟩ := (HasPath.through (parted ▸ here)).last
  exact ⟨position, found, same⟩

theorem key_lt_total {one two : Bytes} (apart : one ≠ two) : one < two ∨ two < one := by
  by_contra none
  rw [not_or, List.not_lt, List.not_lt] at none
  exact apart (List.le_antisymm none.2 none.1)

theorem Distinct.ranked (distinct : tree.Distinct) : positionSides.Ranked tree.StepOf := by
  refine ⟨?_, ?_, ?_⟩
  · intro step other _ _ before
    have less : step.key < other.key := of_decide_eq_true before
    exact decide_eq_false fun after => absurd (List.lt_trans less after) (List.lt_irrefl _)
  · rintro step other ⟨first, found, same⟩ ⟨second, stored, alike⟩ _ apart
    have keys : step.key ≠ other.key := by
      intro equal
      rw [same, alike] at equal
      have ids : step.positionId = other.positionId := distinct _ _ first second found stored equal
      rw [ids, stored, Option.some.injEq] at found
      rw [same, alike, ids, found] at apart
      exact apart rfl
    exact (key_lt_total keys).imp (fun less => decide_eq_true less) fun less => decide_eq_true less
  · intro step other third _ _ _ before after
    exact decide_eq_true (List.lt_trans (of_decide_eq_true before) (of_decide_eq_true after))

theorem sign_swap (order : Ordering) : sign order.swap = -sign order := by
  cases order with
  | lt => rfl
  | eq => rfl
  | gt => rfl

theorem sign_lt_iff {order : Ordering} : sign order = -1 ↔ order = .lt := by
  cases order with
  | lt => simp [sign]
  | eq => simp [sign]
  | gt => simp [sign]

theorem before_iff (here : tree.HasPath (some a) path) (there : tree.HasPath (some b) way) :
    tree.Before a b ↔ positionSides.inOrder path way = .lt := by
  rw [Before, compare_eq here there, Except.ok.injEq, sign_lt_iff]

/-- The comparison is a strict total order on the positions, and never fails on them. -/
structure StrictlyOrdered (tree : FuguePositionTree) : Prop where
  total : ∀ a ∈ tree.positions.keys, ∀ b ∈ tree.positions.keys,
    tree.Before a b ∨ tree.compare a b = .ok 0 ∨ tree.compare a b = .ok 1
  equal : ∀ a ∈ tree.positions.keys, ∀ b ∈ tree.positions.keys, tree.compare a b = .ok 0 ↔ a = b
  swap : ∀ a ∈ tree.positions.keys, ∀ b ∈ tree.positions.keys, ∀ order,
    tree.compare a b = .ok order → tree.compare b a = .ok (-order)
  trans : ∀ a ∈ tree.positions.keys, ∀ b ∈ tree.positions.keys, ∀ c ∈ tree.positions.keys,
    tree.Before a b → tree.Before b c → tree.Before a c

theorem strictlyOrdered (valid : tree.validate = .ok ()) (distinct : tree.Distinct) :
    tree.StrictlyOrdered := by
  have rooted := validate_ok_iff.mp valid
  refine ⟨?_, ?_, ?_, ?_⟩
  · intro a inA b inB
    obtain ⟨path, here⟩ := rooted a inA
    obtain ⟨way, there⟩ := rooted b inB
    rw [Before, compare_eq here there]
    cases positionSides.inOrder path way with
    | lt => exact Or.inl rfl
    | eq => exact Or.inr (Or.inl rfl)
    | gt => exact Or.inr (Or.inr rfl)
  · intro a inA b inB
    obtain ⟨path, here⟩ := rooted a inA
    obtain ⟨way, there⟩ := rooted b inB
    constructor
    · intro zero
      have same : positionSides.inOrder path way = .eq := by
        rw [compare_eq here there, Except.ok.injEq] at zero
        cases order : positionSides.inOrder path way with
        | lt =>
          rw [order] at zero
          cases zero
        | eq => rfl
        | gt =>
          rw [order] at zero
          cases zero
      rw [Sides.inOrder_eq_iff.mp same] at here
      exact Option.some.inj (here.injective there)
    · rintro rfl
      rw [compare, if_pos rfl]
  · intro a inA b inB order done
    obtain ⟨path, here⟩ := rooted a inA
    obtain ⟨way, there⟩ := rooted b inB
    rw [compare_eq here there, Except.ok.injEq] at done
    rw [compare_eq there here, distinct.ranked.inOrder_swap here.steps there.steps, sign_swap, done]
  · intro a inA b inB c inC before after
    obtain ⟨path, here⟩ := rooted a inA
    obtain ⟨way, there⟩ := rooted b inB
    obtain ⟨route, yonder⟩ := rooted c inC
    rw [before_iff here there] at before
    rw [before_iff there yonder] at after
    rw [before_iff here yonder]
    exact distinct.ranked.inOrder_trans here.steps there.steps yonder.steps before after

end Order

section Growth

/-- What is made of a tree by a new position or by a merge with another tree. -/
inductive Grows : FuguePositionTree → FuguePositionTree → Prop where
  | create {tree result : FuguePositionTree} (positionId : String) (left right : Option String)
      (done : tree.createBetween positionId left right = .ok result) : Grows tree result
  | merge {tree result : FuguePositionTree} (other : FuguePositionTree)
      (done : tree.merge other = .ok result) : Grows tree result
  | merged {tree result : FuguePositionTree} (other : FuguePositionTree)
      (done : other.merge tree = .ok result) : Grows tree result

theorem Included.refl : tree.Included tree := fun _ _ => id

theorem Included.trans (first : tree.Included other) (second : other.Included result) :
    tree.Included result :=
  fun positionId position found => second positionId position (first positionId position found)

theorem included_set {position : FuguePosition} (fresh : positionId ∉ tree.positions.keys) :
    tree.Included ⟨tree.positions.set positionId position⟩ := by
  intro known held found
  rw [Dict.get_set, if_neg, found]
  rintro rfl
  exact fresh (Dict.mem_keys.mpr ⟨held, found⟩)

theorem merge_ok (done : tree.merge other = .ok result) : result.validate = .ok () ∧
    ∀ positionId position, result.positions.get positionId = some position ↔
      tree.positions.get positionId = some position ∨
        other.positions.get positionId = some position := by
  rw [merge, bind_ok_iff] at done
  obtain ⟨merged, kept, done⟩ := done
  rw [bind_ok_iff] at done
  obtain ⟨_, valid, same⟩ := done
  cases same
  exact ⟨valid, (Dict.keepAll_ok kept).2⟩

/-- Positions compare as before in every tree that holds them. -/
theorem Included.compare_eq (inside : tree.Included result) (valid : tree.validate = .ok ())
    (inA : a ∈ tree.positions.keys) (inB : b ∈ tree.positions.keys) :
    result.compare a b = tree.compare a b := by
  obtain ⟨path, here⟩ := validate_ok_iff.mp valid a inA
  obtain ⟨way, there⟩ := validate_ok_iff.mp valid b inB
  rw [FuguePositionTree.compare_eq here there, FuguePositionTree.compare_eq (here.included inside)
    (there.included inside)]

end Growth

section Creation

/-- What `create_between` has checked of its arguments. -/
structure Fits (tree : FuguePositionTree) (positionId : String)
    (left right : Option String) : Prop where
  fresh : positionId ∉ tree.positions.keys
  known : ∀ neighbor ∈ left.toList ++ right.toList, neighbor ∈ tree.positions.keys
  before : ∀ leftId rightId, left = some leftId → right = some rightId → tree.Before leftId rightId

/-- The side of a new position is that of the neighbour it becomes a child of. -/
theorem leftIsAncestor_ok (rooted : tree.Rooted) (fits : tree.Fits positionId left right) :
    ∃ leftChild, tree.leftIsAncestor left right = .ok leftChild ∧
      ((leftChild = true ∧ ∃ rightId way, right = some rightId ∧ tree.HasPath right way ∧
          ∀ leftId path, left = some leftId → tree.HasPath left path → path <+: way) ∨
        (leftChild = false ∧ ∃ path, tree.HasPath left path ∧
          ∀ rightId way, right = some rightId → tree.HasPath right way → ¬ path <+: way)) := by
  cases right with
  | none =>
    refine ⟨false, by cases left <;> rfl, Or.inr ⟨rfl, ?_⟩⟩
    cases left with
    | none => exact ⟨[], .top, fun _ _ impossible => by cases impossible⟩
    | some leftId =>
      obtain ⟨path, here⟩ := rooted leftId (fits.known leftId (by simp))
      exact ⟨path, here, fun _ _ impossible => by cases impossible⟩
  | some rightId =>
    obtain ⟨way, there⟩ := rooted rightId (fits.known rightId (by simp))
    cases left with
    | none =>
      exact ⟨true, rfl, Or.inl ⟨rfl, rightId, way, rfl, there,
        fun _ _ impossible => by cases impossible⟩⟩
    | some leftId =>
      obtain ⟨path, here⟩ := rooted leftId (fits.known leftId (by simp))
      refine ⟨decide (path <+: way), isAncestor_eq here there, ?_⟩
      by_cases above : path <+: way
      · refine Or.inl ⟨decide_eq_true above, rightId, way, rfl, there, ?_⟩
        rintro _ other ⟨⟩ also
        rwa [also.unique here]
      · refine Or.inr ⟨decide_eq_false above, path, here, ?_⟩
        rintro _ other ⟨⟩ also
        rwa [also.unique there]

/-- A new child is after the left neighbour and before the right one. -/
theorem Fits.placed (fits : tree.Fits positionId left right) (rooted : tree.Rooted)
    {leftChild : Bool} {position : FuguePosition}
    (side : tree.leftIsAncestor left right = .ok leftChild)
    (above : position.parentPositionId = if leftChild then right else left)
    (below : position.leftChild = leftChild)
    (same : result = ⟨tree.positions.set positionId position⟩) :
    result.Rooted ∧ (∀ leftId, left = some leftId → result.Before leftId positionId) ∧
      ∀ rightId, right = some rightId → result.Before positionId rightId := by
  subst same
  have inside : tree.Included ⟨tree.positions.set positionId position⟩ := included_set fits.fresh
  have found : (tree.positions.set positionId position).get positionId = some position := by
    rw [Dict.get_set, if_pos rfl]
  obtain ⟨taken, decided, cases⟩ := leftIsAncestor_ok rooted fits
  rw [side, Except.ok.injEq] at decided
  subst decided
  have added : ∀ {route}, tree.HasPath position.parentPositionId route →
      HasPath ⟨tree.positions.set positionId position⟩ (some positionId)
        (route ++ [position.step positionId]) :=
    fun parent => .down found (parent.included inside)
  have others : ∀ {route}, tree.HasPath position.parentPositionId route →
      Rooted ⟨tree.positions.set positionId position⟩ := by
    intro route parent known member
    by_cases new : known = positionId
    · rw [new]
      exact ⟨_, added parent⟩
    · obtain ⟨held, stored⟩ := Dict.mem_keys.mp member
      rw [Dict.get_set, if_neg (Ne.symm new)] at stored
      obtain ⟨path, here⟩ := rooted known (Dict.mem_keys.mpr ⟨held, stored⟩)
      exact ⟨path, here.included inside⟩
  have ordered : ∀ leftId rightId path way, left = some leftId → right = some rightId →
      tree.HasPath left path → tree.HasPath right way → positionSides.inOrder path way = .lt := by
    rintro leftId rightId path way rfl rfl here there
    exact (before_iff here there).mp (fits.before leftId rightId rfl rfl)
  rcases cases with ⟨rfl, rightId, way, rfl, there, prefixed⟩ | ⟨rfl, path, here, apart⟩
  · rw [if_pos rfl] at above
    have parent : tree.HasPath position.parentPositionId way := above ▸ there
    refine ⟨others parent, ?_, ?_⟩
    · rintro leftId rfl
      obtain ⟨path, here⟩ := rooted leftId (fits.known leftId (by simp))
      have order := ordered leftId rightId path way rfl rfl here there
      have distinct : path ≠ way := by
        rintro rfl
        rw [Sides.inOrder_eq_iff.mpr rfl] at order
        cases order
      rw [before_iff (here.included inside) (added parent),
        Sides.inOrder_extend_below (prefixed leftId path rfl here) distinct]
      exact order
    · rintro _ ⟨⟩
      rw [before_iff (added parent) (there.included inside), Sides.inOrder_above]
      exact if_pos below
  · rw [if_neg Bool.false_ne_true] at above
    have parent : tree.HasPath position.parentPositionId path := above ▸ here
    refine ⟨others parent, ?_, ?_⟩
    · rintro leftId rfl
      rw [before_iff (here.included inside) (added parent), Sides.inOrder_below]
      have right : positionSides.left (position.step positionId) = false := below
      exact if_neg (by rw [right]; exact Bool.false_ne_true)
    · rintro rightId rfl
      obtain ⟨way, there⟩ := rooted rightId (fits.known rightId (by simp))
      rw [before_iff (added parent) (there.included inside),
        Sides.inOrder_extend (apart rightId way rfl there)]
      cases left with
      | none =>
        cases here
        exact absurd List.nil_prefix (apart rightId way rfl there)
      | some leftId => exact ordered leftId rightId path way rfl rfl here there

/-- The check passes exactly where the first position sorts before the second. -/
theorem checkBefore_ok_iff {failure : ModelError} (valid : tree.validate = .ok ())
    (known : ∀ neighbor ∈ left.toList ++ right.toList, neighbor ∈ tree.positions.keys) :
    tree.checkBefore failure left right = .ok () ↔
      ∀ leftId rightId, left = some leftId → right = some rightId → tree.Before leftId rightId := by
  cases left with
  | none => simp [checkBefore]
  | some leftId =>
    cases right with
    | none => simp [checkBefore]
    | some rightId =>
      obtain ⟨path, here⟩ := validate_ok_iff.mp valid leftId (known leftId (by simp))
      obtain ⟨way, there⟩ := validate_ok_iff.mp valid rightId (known rightId (by simp))
      have one : (∀ first second, some leftId = some first → some rightId = some second →
        tree.Before first second) ↔ positionSides.inOrder path way = .lt := by
        rw [← before_iff here there]
        constructor
        · intro every
          exact every leftId rightId rfl rfl
        · rintro before _ _ ⟨⟩ ⟨⟩
          exact before
      rw [checkBefore, compare_eq here there, one]
      cases positionSides.inOrder path way with
      | lt => exact iff_of_true rfl rfl
      | eq =>
        refine iff_of_false ?_ ?_
        · intro impossible
          cases impossible
        · intro impossible
          cases impossible
      | gt =>
        refine iff_of_false ?_ ?_
        · intro impossible
          cases impossible
        · intro impossible
          cases impossible

theorem createPosition_ok {parent : Option String} {leftChild : Bool} {position : FuguePosition}
    (done : FuguePosition.create positionId parent leftChild = .ok position) :
    position.positionId = positionId ∧ position.parentPositionId = parent ∧
    position.leftChild = leftChild := by
  rw [FuguePosition.create, bind_ok_iff] at done
  obtain ⟨⟨canonical⟩, _, done⟩ := done
  rw [bind_ok_iff] at done
  obtain ⟨⟨canonicalParent⟩, _, done⟩ := done
  dsimp only at done
  split at done
  · cases done
  · cases done
    exact ⟨rfl, rfl, rfl⟩

theorem createPosition_exists {parent : Option String} (leftChild : Bool)
    (canonical : Canonical positionId)
    (canonicalParent : ∀ parentId ∈ parent.toList, Canonical parentId)
    (other : parent ≠ some positionId) :
    ∃ position, FuguePosition.create positionId parent leftChild = .ok position := by
  obtain ⟨one, checked⟩ := checkCanonical_ok_iff.mpr canonical
  obtain ⟨all, passed⟩ := checkAllCanonical_ok_iff.mpr canonicalParent
  refine ⟨⟨positionId, parent, leftChild, one.down,
    fun parentId member => all.down parentId (Option.mem_toList.mpr member), other⟩, ?_⟩
  rw [FuguePosition.create, checked, passed]
  change (if own : parent = some positionId then _ else _) = _
  rw [dif_neg other]
  rfl

/-- Once the position is made, nothing of what follows fails. -/
theorem Fits.created (fits : tree.Fits positionId left right) (valid : tree.validate = .ok ())
    {leftChild : Bool} {position : FuguePosition}
    (side : tree.leftIsAncestor left right = .ok leftChild)
    (made : FuguePosition.create positionId (if leftChild then right
      else left) leftChild = .ok position) :
    ∃ result : FuguePositionTree, result = ⟨tree.positions.set positionId position⟩ ∧
      result.validate = .ok () ∧
      result.checkBefore .createdNotAfterLeft left (some positionId) = .ok () ∧
      result.checkBefore .createdNotBeforeRight (some positionId) right = .ok () ∧
      (∀ leftId, left = some leftId → result.Before leftId positionId) ∧
      ∀ rightId, right = some rightId → result.Before positionId rightId := by
  obtain ⟨_, above, below⟩ := createPosition_ok made
  obtain ⟨rooted, after, before⟩ := fits.placed (validate_ok_iff.mp valid) side above below rfl
  have grown : ∀ known ∈ tree.positions.keys,
      known ∈ (tree.positions.set positionId position).keys := by
    intro known member
    obtain ⟨held, found⟩ := Dict.mem_keys.mp member
    exact Dict.mem_keys.mpr ⟨held, included_set fits.fresh known held found⟩
  have new : positionId ∈ (tree.positions.set positionId position).keys :=
    Dict.mem_keys.mpr ⟨position, by rw [Dict.get_set, if_pos rfl]⟩
  have stays := validate_ok_iff.mpr rooted
  refine ⟨_, rfl, stays, ?_, ?_, after, before⟩
  · rw [checkBefore_ok_iff stays]
    · rintro leftId rightId found ⟨⟩
      exact after leftId found
    · intro neighbor member
      rw [List.mem_append, Option.toList_some, List.mem_singleton] at member
      rcases member with old | rfl
      · exact grown neighbor (fits.known neighbor (List.mem_append_left _ old))
      · exact new
  · rw [checkBefore_ok_iff stays]
    · rintro leftId rightId ⟨⟩ found
      exact before rightId found
    · intro neighbor member
      rw [List.mem_append, Option.toList_some, List.mem_singleton] at member
      rcases member with rfl | old
      · exact new
      · exact grown neighbor (fits.known neighbor (List.mem_append_right _ old))

/-- What is refused before a position is made. -/
def refusesArguments : ModelError → Bool
  | .emptyIdentifier | .invalidHexadecimalIdentifier _ | .positionExists | .unknownNeighbor
      | .leftNotBeforeRight => true
  | _ => false

theorem canonicalId_refuses {text : String} {failure : ModelError}
    (failed : canonicalId text = .error failure) :
    refusesArguments failure = true := by
  unfold canonicalId at failed
  dsimp only at failed
  split at failed
  · cases failed
    rfl
  · split at failed
    · cases failed
    · cases failed
      rfl

theorem checkCanonical_refuses {text : String} {failure : ModelError}
    (failed : checkCanonical text = .error failure) :
    refusesArguments failure = true := by
  unfold checkCanonical at failed
  split at failed
  · cases failed
  · rename_i found
    cases failed
    exact canonicalId_refuses found

theorem checkAllCanonical_refuses {texts : List String} {failure : ModelError}
    (failed : checkAllCanonical texts = .error failure) :
    refusesArguments failure = true := by
  induction texts with
  | nil => cases failed
  | cons text rest ih =>
    rw [checkAllCanonical, bind_error_iff] at failed
    rcases failed with first | ⟨_, _, failed⟩
    · exact checkCanonical_refuses first
    · rw [bind_error_iff] at failed
      rcases failed with later | ⟨_, _, impossible⟩
      · exact ih later
      · cases impossible

theorem checkBefore_failsOnly {failure : ModelError} (valid : tree.validate = .ok ())
    (known : ∀ neighbor ∈ left.toList ++ right.toList, neighbor ∈ tree.positions.keys) :
    FailsOnly (fun other => other = failure) (tree.checkBefore failure left right) := by
  cases left with
  | none => exact failsOnly_ok
  | some leftId =>
    cases right with
    | none => exact failsOnly_ok
    | some rightId =>
      obtain ⟨path, here⟩ := validate_ok_iff.mp valid leftId (known leftId (by simp))
      obtain ⟨way, there⟩ := validate_ok_iff.mp valid rightId (known rightId (by simp))
      rw [checkBefore, compare_eq here there]
      change FailsOnly _ (if sign (positionSides.inOrder path way) ≥ 0 then _ else _)
      split
      · exact failsOnly_error rfl
      · exact failsOnly_ok

theorem createPosition_refuses {parent : Option String} {leftChild : Bool}
    (other : parent ≠ some positionId) :
    FailsOnly (fun failure => refusesArguments failure = true)
      (FuguePosition.create positionId parent leftChild) := by
  rw [FuguePosition.create]
  refine FailsOnly.bind (fun _ => checkCanonical_refuses) fun canonical => ?_
  refine FailsOnly.bind (fun _ => checkAllCanonical_refuses) fun canonicalParent => ?_
  change FailsOnly _ (if own : parent = some positionId then _ else _)
  rw [dif_neg other]
  exact failsOnly_ok

theorem among_of_checked
    (known : ¬ (left.toList ++ right.toList).any (· ∉ tree.positions.keys) = true) :
    ∀ neighbor ∈ left.toList ++ right.toList, neighbor ∈ tree.positions.keys := by
  intro neighbor member
  by_contra missing
  exact known (List.any_eq_true.mpr ⟨neighbor, member, decide_eq_true missing⟩)

theorem Fits.otherParent (fits : tree.Fits positionId left right) {leftChild : Bool} :
    (if leftChild then right else left) ≠ some positionId := by
  intro own
  refine fits.fresh (fits.known positionId (List.mem_append.mpr ?_))
  cases leftChild with
  | false => exact Or.inl (Option.mem_toList.mpr own)
  | true => exact Or.inr (Option.mem_toList.mpr own)

/-- A creation fails for its arguments only: none of its last checks does. -/
theorem createBetween_failsOnly (valid : tree.validate = .ok ()) :
    FailsOnly (fun failure => refusesArguments failure = true)
      (tree.createBetween positionId left right) := by
  rw [createBetween]
  refine FailsOnly.bind (fun _ => canonicalId_refuses) fun _ => ?_
  dsimp only
  by_cases used : positionId ∈ tree.positions.keys
  · rw [if_pos used]
    exact failsOnly_error rfl
  by_cases unknown : (left.toList ++ right.toList).any (· ∉ tree.positions.keys) = true
  · rw [if_neg used, if_pos unknown]
    exact failsOnly_error rfl
  rw [if_neg used, if_neg unknown]
  have among : ∀ neighbor ∈ left.toList ++ right.toList, neighbor ∈ tree.positions.keys :=
    among_of_checked unknown
  refine FailsOnly.andThen (fun failure failed => ?_) fun _ passed => ?_
  · rw [checkBefore_failsOnly valid among failure failed]
    rfl
  have fits : tree.Fits positionId left right :=
    ⟨used, among, (checkBefore_ok_iff valid among).mp passed⟩
  obtain ⟨leftChild, side, _⟩ := leftIsAncestor_ok (validate_ok_iff.mp valid) fits
  refine failsOnly_next side
    (FailsOnly.andThen (createPosition_refuses fits.otherParent) fun position made => ?_)
  obtain ⟨result, rfl, stays, isAfter, isBefore, _⟩ := fits.created valid side made
  exact failsOnly_next stays (failsOnly_next isAfter (failsOnly_next isBefore failsOnly_ok))

theorem createBetween_ok (valid : tree.validate = .ok ())
    (done : tree.createBetween positionId left right = .ok result) :
    tree.Fits positionId left right ∧ result.validate = .ok () ∧ tree.Included result ∧
      (∀ leftId, left = some leftId → result.Before leftId positionId) ∧
      ∀ rightId, right = some rightId → result.Before positionId rightId := by
  rw [createBetween, bind_ok_iff] at done
  obtain ⟨_, _, done⟩ := done
  dsimp only at done
  by_cases used : positionId ∈ tree.positions.keys
  · rw [if_pos used] at done
    cases done
  by_cases unknown : (left.toList ++ right.toList).any (· ∉ tree.positions.keys) = true
  · rw [if_neg used, if_pos unknown] at done
    cases done
  rw [if_neg used, if_neg unknown, bind_ok_iff] at done
  obtain ⟨_, passed, done⟩ := done
  have among : ∀ neighbor ∈ left.toList ++ right.toList, neighbor ∈ tree.positions.keys :=
    among_of_checked unknown
  have fits : tree.Fits positionId left right :=
    ⟨used, among, (checkBefore_ok_iff valid among).mp passed⟩
  rw [bind_ok_iff] at done
  obtain ⟨leftChild, side, done⟩ := done
  rw [bind_ok_iff] at done
  obtain ⟨position, made, done⟩ := done
  obtain ⟨placed, rfl, stays, _, _, after, before⟩ := fits.created valid side made
  simp only [bind_ok_iff, pure_eq_ok, Except.ok.injEq] at done
  obtain ⟨_, _, _, _, _, _, rfl⟩ := done
  exact ⟨fits, stays, included_set used, after, before⟩

/-- A creation with fitting arguments succeeds. -/
theorem Fits.createBetween_exists (fits : tree.Fits positionId left right)
    (valid : tree.validate = .ok ())
    (canonical : ∀ text ∈ positionId :: (left.toList ++ right.toList), Canonical text) :
    ∃ result, tree.createBetween positionId left right = .ok result := by
  obtain ⟨bytes, named⟩ := canonical positionId List.mem_cons_self
  have known : ¬ (left.toList ++ right.toList).any (· ∉ tree.positions.keys) = true := by
    intro unknown
    obtain ⟨neighbor, member, missing⟩ := List.any_eq_true.mp unknown
    exact of_decide_eq_true missing (fits.known neighbor member)
  obtain ⟨leftChild, side, _⟩ := leftIsAncestor_ok (validate_ok_iff.mp valid) fits
  have parents : ∀ parentId ∈ (if leftChild then right else left).toList, Canonical parentId := by
    intro parentId member
    refine canonical parentId (List.mem_cons_of_mem _ (List.mem_append.mpr ?_))
    cases leftChild with
    | false => exact Or.inl member
    | true => exact Or.inr member
  obtain ⟨position, made⟩ :=
    createPosition_exists leftChild
      (canonical positionId List.mem_cons_self) parents fits.otherParent
  obtain ⟨placed, rfl, stays, isAfter, isBefore, _⟩ := fits.created valid side made
  refine ⟨⟨tree.positions.set positionId position⟩, ?_⟩
  rw [createBetween, bind_ok_iff]
  refine ⟨bytes, named, ?_⟩
  dsimp only
  rw [if_neg fits.fresh, if_neg known]
  simp only [bind_ok_iff]
  exact ⟨(), (checkBefore_ok_iff valid fits.known).mpr fits.before, leftChild, side, position, made,
    (), stays, (), isAfter, (), isBefore, rfl⟩

end Creation

end FuguePositionTree

end PrivateContinuum.Reference
