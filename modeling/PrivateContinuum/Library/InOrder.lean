import Mathlib.Data.List.Infix

/-! The nodes of a tree whose children stand on the left or on the right of their
parent, in the order in which they are walked over from left to right. A node is given by
the steps that lead to it. -/

namespace PrivateContinuum.Library

/-- Which steps go to the left, and which of two steps to one side comes first. -/
structure Sides (Step : Type) where
  left : Step → Bool
  first : Step → Step → Bool

namespace Sides

variable {Step : Type} (sides : Sides Step)

/-- The order of two children of one node. -/
def siblings (step other : Step) : Ordering :=
  if sides.left step ≠ sides.left other then if sides.left step then .lt else .gt
  else if sides.first step other then .lt else .gt

/-- Among these steps, `first` is a strict total order on the steps to one side. -/
structure Ranked (among : Step → Prop) : Prop where
  asymm : ∀ step other, among step → among other → sides.first step other = true →
    sides.first other step = false
  total : ∀ step other, among step → among other → sides.left step = sides.left other →
    step ≠ other → sides.first step other = true ∨ sides.first other step = true
  trans : ∀ step other third, among step → among other → among third →
    sides.first step other = true → sides.first other third = true → sides.first step third = true

variable [DecidableEq Step]

/-- What is on the left of a node comes before it, what is on its right after it. -/
def inOrder : List Step → List Step → Ordering
  | [], [] => .eq
  | [], step :: _ => if sides.left step then .gt else .lt
  | step :: _, [] => if sides.left step then .lt else .gt
  | step :: path, other :: way => if step = other then inOrder path way
      else sides.siblings step other

variable {sides : Sides Step} {among : Step → Prop} {path way route common : List Step}
  {step other third : Step}

omit [DecidableEq Step] in
theorem siblings_ne_eq : sides.siblings step other ≠ .eq := by
  unfold siblings
  split
  · split
    · simp
    · simp
  · split
    · simp
    · simp

omit [DecidableEq Step] in
theorem siblings_lt_iff : sides.siblings step other = .lt ↔
    (sides.left step = true ∧ sides.left other = false) ∨
      (sides.left step = sides.left other ∧ sides.first step other = true) := by
  unfold siblings
  cases sides.left step with
  | true => cases sides.left other with
    | true => simp
    | false => simp
  | false => cases sides.left other with
    | true => simp
    | false => simp

omit [DecidableEq Step] in
theorem Ranked.siblings_swap (ranked : sides.Ranked among) (here : among step) (there : among other)
    (apart : step ≠ other) : sides.siblings other step = (sides.siblings step other).swap := by
  unfold siblings
  by_cases side : sides.left step = sides.left other
  · rw [if_neg (not_not.mpr side), if_neg (not_not.mpr side.symm)]
    cases forth : sides.first step other with
    | true =>
      rw [ranked.asymm step other here there forth]
      rfl
    | false =>
      have back := (ranked.total step other here there side apart).resolve_left (by simp [forth])
      rw [back]
      rfl
  · rw [if_pos side, if_pos (Ne.symm side)]
    cases forth : sides.left step with
    | true =>
      rw [forth] at side
      rw [Bool.of_not_eq_true (Ne.symm side)]
      rfl
    | false =>
      rw [forth] at side
      rw [Bool.of_not_eq_false (Ne.symm side)]
      rfl

omit [DecidableEq Step] in
theorem Ranked.siblings_trans (ranked : sides.Ranked among) (here : among step)
    (there : among other) (yonder : among third) (before : sides.siblings step other = .lt)
    (after : sides.siblings other third = .lt) :
    sides.siblings step third = .lt := by
  rw [siblings_lt_iff] at before after ⊢
  rcases before with ⟨left, right⟩ | ⟨side, forth⟩
  · rcases after with ⟨again, _⟩ | ⟨side, _⟩
    · rw [right] at again
      cases again
    · exact Or.inl ⟨left, side ▸ right⟩
  · rcases after with ⟨left, right⟩ | ⟨also, on⟩
    · exact Or.inl ⟨side.trans left, right⟩
    · exact Or.inr ⟨side.trans also, ranked.trans step other third here there yonder forth on⟩

@[simp] theorem inOrder_append :
    sides.inOrder (common ++ path) (common ++ way) = sides.inOrder path way := by
  induction common with
  | nil => rfl
  | cons step rest ih =>
    rw [List.cons_append, List.cons_append, inOrder, if_pos rfl, ih]

theorem inOrder_below :
    sides.inOrder path (path ++ step :: way) = if sides.left step then .gt else .lt := by
  have aligned : sides.inOrder (path ++ []) (path ++ step :: way) = sides.inOrder []
      (step :: way) := inOrder_append
  rw [List.append_nil] at aligned
  rw [aligned, inOrder]

theorem inOrder_above :
    sides.inOrder (path ++ step :: way) path = if sides.left step then .lt else .gt := by
  have aligned : sides.inOrder (path ++ step :: way) (path ++ []) = sides.inOrder (step :: way)
      [] := inOrder_append
  rw [List.append_nil] at aligned
  rw [aligned, inOrder]

theorem inOrder_eq_iff : sides.inOrder path way = .eq ↔ path = way := by
  constructor
  · intro same
    induction path generalizing way with
    | nil =>
      cases way with
      | nil => rfl
      | cons step rest =>
        rw [inOrder] at same
        split at same
        · cases same
        · cases same
    | cons step path ih =>
      cases way with
      | nil =>
        rw [inOrder] at same
        split at same
        · cases same
        · cases same
      | cons other rest =>
        rw [inOrder] at same
        by_cases here : step = other
        · rw [if_pos here] at same
          rw [here, ih same]
        · rw [if_neg here] at same
          exact absurd same siblings_ne_eq
  · intro same
    subst same
    induction path with
    | nil => rfl
    | cons step rest ih => rw [inOrder, if_pos rfl, ih]

/-- Seen from the other side, the order is reversed. -/
theorem Ranked.inOrder_swap (ranked : sides.Ranked among) (here : ∀ step ∈ path, among step)
    (there : ∀ step ∈ way, among step) :
    sides.inOrder way path = (sides.inOrder path way).swap := by
  induction path generalizing way with
  | nil =>
    cases way with
    | nil => rfl
    | cons step rest =>
      rw [inOrder, inOrder]
      split
      · rfl
      · rfl
  | cons step path ih =>
    cases way with
    | nil =>
      rw [inOrder, inOrder]
      split
      · rfl
      · rfl
    | cons other rest =>
      rw [List.forall_mem_cons] at here there
      rw [inOrder, inOrder]
      by_cases same : step = other
      · rw [if_pos same, if_pos same.symm, ih here.2 there.2]
      · rw [if_neg same, if_neg (Ne.symm same), ranked.siblings_swap here.1 there.1 same]

/-- Induction on the first path: the three paths part at one step, or one after the
other. -/
theorem Ranked.inOrder_trans (ranked : sides.Ranked among) (here : ∀ step ∈ path, among step)
    (there : ∀ step ∈ way, among step) (yonder : ∀ step ∈ route, among step)
    (before : sides.inOrder path way = .lt) (after : sides.inOrder way route = .lt) :
    sides.inOrder path route = .lt := by
  induction path generalizing way route with
  | nil =>
    cases way with
    | nil => cases before
    | cons other way =>
      have right : sides.left other = false := by
        by_contra left
        rw [inOrder, if_pos (Bool.of_not_eq_false left)] at before
        cases before
      cases route with
      | nil =>
        rw [inOrder, right] at after
        cases after
      | cons third route =>
        have also : sides.left third = false := by
          rw [inOrder] at after
          by_cases same : other = third
          · rw [← same, right]
          · rw [if_neg same, siblings_lt_iff, right] at after
            rcases after with ⟨left, _⟩ | ⟨side, _⟩
            · cases left
            · exact side.symm
        rw [inOrder, also]
        rfl
  | cons step path ih =>
    rw [List.forall_mem_cons] at here
    cases way with
    | nil =>
      have left : sides.left step = true := by
        by_contra right
        rw [inOrder, if_neg right] at before
        cases before
      cases route with
      | nil => cases after
      | cons third route =>
        have right : sides.left third = false := by
          by_contra left
          rw [inOrder, if_pos (Bool.of_not_eq_false left)] at after
          cases after
        have apart : step ≠ third := by
          intro same
          rw [same, right] at left
          cases left
        rw [inOrder, if_neg apart, siblings_lt_iff]
        exact Or.inl ⟨left, right⟩
    | cons other way =>
      rw [List.forall_mem_cons] at there
      rw [inOrder] at before
      cases route with
      | nil =>
        have left : sides.left other = true := by
          by_contra right
          rw [inOrder, if_neg right] at after
          cases after
        have also : sides.left step = true := by
          by_cases same : step = other
          · rw [same, left]
          · rw [if_neg same, siblings_lt_iff, left] at before
            rcases before with ⟨left, _⟩ | ⟨side, _⟩
            · exact left
            · exact side
        rw [inOrder, also]
        rfl
      | cons third route =>
        rw [List.forall_mem_cons] at yonder
        rw [inOrder] at after ⊢
        by_cases first : step = other
        · subst first
          rw [if_pos rfl] at before
          by_cases second : step = third
          · rw [if_pos second] at after ⊢
            exact ih here.2 there.2 yonder.2 before after
          · rw [if_neg second] at after ⊢
            exact after
        · rw [if_neg first] at before
          by_cases second : other = third
          · subst second
            rw [if_neg first]
            exact before
          · rw [if_neg second] at after
            by_cases round : step = third
            · subst round
              rw [ranked.siblings_swap here.1 there.1 first, before] at after
              cases after
            · rw [if_neg round]
              exact ranked.siblings_trans here.1 there.1 yonder.1 before after

/-- A new child of a node that is not above the other one is on the same side of it. -/
theorem inOrder_extend (apart : ¬ path <+: way) :
    sides.inOrder (path ++ route) way = sides.inOrder path way := by
  induction path generalizing way with
  | nil => exact absurd List.nil_prefix apart
  | cons step path ih =>
    cases way with
    | nil => rfl
    | cons other rest =>
      rw [List.cons_append, inOrder, inOrder]
      by_cases same : step = other
      · rw [if_pos same, if_pos same]
        exact ih fun inside => apart (same ▸ (List.prefix_cons_inj step).mpr inside)
      · rw [if_neg same, if_neg same]

/-- Below a node on its path, the other one can be led on. -/
theorem inOrder_extend_below (inside : path <+: way) (apart : path ≠ way) :
    sides.inOrder path (way ++ route) = sides.inOrder path way := by
  obtain ⟨rest, rfl⟩ := inside
  cases rest with
  | nil => exact absurd (List.append_nil path).symm apart
  | cons step rest => rw [List.append_assoc, List.cons_append, inOrder_below, inOrder_below]

/-- Two nodes part at one step, or one is above the other. -/
theorem paths_part (path way : List Step) : ∃ common rest, path = common ++ rest ∧
    (way = common ∨ ∃ other remaining, way = common ++ other :: remaining ∧
      ∀ step ∈ rest.head?, step ≠ other) := by
  induction path generalizing way with
  | nil =>
    cases way with
    | nil => exact ⟨[], [], rfl, Or.inl rfl⟩
    | cons other rest => exact ⟨[], [], rfl, Or.inr ⟨other, rest, rfl, by simp⟩⟩
  | cons step path ih =>
    cases way with
    | nil => exact ⟨[], step :: path, rfl, Or.inl rfl⟩
    | cons other way =>
      by_cases same : step = other
      · obtain ⟨common, rest, aligned, ends⟩ := ih way
        refine ⟨step :: common, rest, by rw [aligned, List.cons_append], ?_⟩
        rcases ends with above | ⟨third, remaining, parted, apart⟩
        · exact Or.inl (by rw [same, above])
        · exact Or.inr ⟨third, remaining, by rw [same, parted, List.cons_append], apart⟩
      · exact ⟨[], step :: path, rfl, Or.inr ⟨other, way, rfl, by simpa using same⟩⟩

end Sides

end PrivateContinuum.Library
