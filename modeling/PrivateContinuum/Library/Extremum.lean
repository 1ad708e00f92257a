import PrivateContinuum.Library.Outcome

/-! The first of the largest and the first of the smallest items of a list, by a key. -/

namespace PrivateContinuum.Library

open Std (TransOrd LawfulEqOrd)

variable {Item Key Failure : Type} [Ord Key]

section Greatest

variable (key : Item → Key)

/-- An item replaces one with a smaller key. -/
def larger (best : Option Item) (item : Item) : Option Item :=
  match best with
  | none => some item
  | some held => if compare (key held) (key item) = .lt then some item else some held

/-- `max(.., key=..)`: the first of the largest ones. -/
def greatest (items : List Item) : Option Item := items.foldl (larger key) none

variable {key} {items others : List Item}

section Bounds

variable [TransOrd Key]

theorem foldl_larger (held : Item) :
    ∃ best, items.foldl (larger key) (some held) = some best ∧ (best = held ∨ best ∈ items) ∧
      ∀ item ∈ held :: items, (compare (key item) (key best)).isLE := by
  induction items generalizing held with
  | nil => exact ⟨held, rfl, Or.inl rfl, by simp⟩
  | cons item rest ih =>
    by_cases smaller : compare (key held) (key item) = .lt
    · obtain ⟨best, ended, origin, most⟩ := ih item
      refine ⟨best, ?_, Or.inr (List.mem_cons.mpr origin), ?_⟩
      · rw [List.foldl_cons, larger, if_pos smaller]
        exact ended
      · rw [List.forall_mem_cons]
        refine ⟨Std.TransCmp.isLE_trans ?_ (most item List.mem_cons_self), most⟩
        rw [smaller]
        rfl
    · obtain ⟨best, ended, origin, most⟩ := ih held
      rw [List.forall_mem_cons] at most
      refine ⟨best, ?_, origin.imp_right (List.mem_cons_of_mem item), ?_⟩
      · rw [List.foldl_cons, larger, if_neg smaller]
        exact ended
      · rw [List.forall_mem_cons, List.forall_mem_cons]
        refine ⟨most.1, Std.TransCmp.isLE_trans ?_ most.1, most.2⟩
        apply Std.OrientedCmp.isLE_of_isGE
        cases ordered : compare (key held) (key item) with
        | lt => exact absurd ordered smaller
        | eq => rfl
        | gt => rfl

variable (key) in
theorem greatest_some (present : items ≠ []) :
    ∃ best, greatest key items = some best ∧ best ∈ items ∧
    ∀ item ∈ items, (compare (key item) (key best)).isLE := by
  cases items with
  | nil => exact absurd rfl present
  | cons first rest =>
    obtain ⟨best, ended, origin, most⟩ : ∃ best, rest.foldl (larger key) (some first) = some best ∧
        _ := foldl_larger first
    exact ⟨best, ended, List.mem_cons.mpr origin, most⟩

end Bounds

theorem greatest_none_iff [TransOrd Key] : greatest key items = none ↔ items = [] := by
  constructor
  · intro none
    by_contra present
    obtain ⟨best, found, _⟩ := greatest_some key present
    rw [none] at found
    cases found
  · rintro rfl
    rfl

theorem greatest_mem [TransOrd Key] {best : Item}
    (found : greatest key items = some best) : best ∈ items := by
  have present : items ≠ [] := by
    rintro rfl
    cases found
  obtain ⟨other, same, member, _⟩ := greatest_some key present
  rw [found] at same
  cases same
  exact member

variable [TransOrd Key] [LawfulEqOrd Key]

/-- The greatest of the same items in another order has the same key. -/
theorem greatest_key_eq (same : ∀ item, item ∈ items ↔ item ∈ others) :
    (greatest key items).map key = (greatest key others).map key := by
  by_cases present : items = []
  · have none : others = [] := by
      apply List.eq_nil_iff_forall_not_mem.mpr
      intro item member
      have absent := (same item).mpr member
      rw [present] at absent
      cases absent
    rw [present, none]
  · obtain ⟨best, found, member, most⟩ := greatest_some key present
    have also : others ≠ [] := fun none => by
      have absent := (same best).mp member
      rw [none] at absent
      cases absent
    obtain ⟨other, foundOther, memberOther, mostOther⟩ := greatest_some key also
    have keys := Std.LawfulEqCmp.eq_of_compare
      (Std.OrientedCmp.isLE_antisymm (mostOther best ((same best).mp member))
      (most other ((same other).mpr memberOther)))
    rw [found, foundOther, Option.map_some, Option.map_some, keys]

/-- With distinct keys, it is the same item. -/
theorem greatest_eq (same : ∀ item, item ∈ items ↔ item ∈ others)
    (distinct : ∀ left ∈ items, ∀ right ∈ items, key left = key right → left = right) :
    greatest key items = greatest key others := by
  have keys : (greatest key items).map key = (greatest key others).map key := greatest_key_eq same
  cases found : greatest key items with
  | none =>
    rw [found] at keys
    exact (Option.map_eq_none_iff.mp keys.symm).symm
  | some best =>
    rw [found, Option.map_some] at keys
    obtain ⟨other, foundOther, alike⟩ := Option.map_eq_some_iff.mp keys.symm
    rw [foundOther, distinct best (greatest_mem found) other
      ((same other).mpr (greatest_mem foundOther)) alike.symm]

end Greatest

section Least

variable (key : Item → Except Failure Key)

/-- The loop of `min`: an item replaces one with a larger key. -/
def leastFrom (held : Item) (heldKey : Key) : List Item → Except Failure Item
  | [] => .ok held
  | item :: rest => do
    let itemKey ← key item
    if compare itemKey heldKey = .lt then leastFrom item itemKey rest
      else leastFrom held heldKey rest

/-- `min(.., key=..)`: the first of the smallest ones; the key may fail. -/
def least (absent : Failure) : List Item → Except Failure Item
  | [] => .error absent
  | item :: rest => do
    let itemKey ← key item
    leastFrom key item itemKey rest

variable {key} [TransOrd Key] {order : Item → Key} {items : List Item}

theorem leastFrom_ok (held : Item) (keyed : ∀ item ∈ items, key item = .ok (order item)) :
    ∃ best, leastFrom key held (order held) items = .ok best ∧ (best = held ∨ best ∈ items) ∧
      ∀ item ∈ held :: items, (compare (order best) (order item)).isLE := by
  induction items generalizing held with
  | nil => exact ⟨held, rfl, Or.inl rfl, by simp⟩
  | cons item rest ih =>
    rw [List.forall_mem_cons] at keyed
    by_cases smaller : compare (order item) (order held) = .lt
    · obtain ⟨best, ended, origin, fewest⟩ := ih item keyed.2
      refine ⟨best, ?_, Or.inr (List.mem_cons.mpr origin), ?_⟩
      · rw [leastFrom, keyed.1]
        simp only [bind, Except.bind, if_pos smaller]
        exact ended
      · rw [List.forall_mem_cons]
        refine ⟨Std.TransCmp.isLE_trans (fewest item List.mem_cons_self) ?_, fewest⟩
        rw [smaller]
        rfl
    · obtain ⟨best, ended, origin, fewest⟩ := ih held keyed.2
      rw [List.forall_mem_cons] at fewest
      refine ⟨best, ?_, origin.imp_right (List.mem_cons_of_mem item), ?_⟩
      · rw [leastFrom, keyed.1]
        simp only [bind, Except.bind, if_neg smaller]
        exact ended
      · rw [List.forall_mem_cons, List.forall_mem_cons]
        refine ⟨fewest.1, Std.TransCmp.isLE_trans fewest.1 ?_, fewest.2⟩
        apply Std.OrientedCmp.isLE_of_isGE
        cases ordered : compare (order item) (order held) with
        | lt => exact absurd ordered smaller
        | eq => rfl
        | gt => rfl

theorem least_ok (absent : Failure) (present : items ≠ [])
    (keyed : ∀ item ∈ items, key item = .ok (order item)) :
    ∃ best ∈ items, least key absent items = .ok best ∧
    ∀ item ∈ items, (compare (order best) (order item)).isLE := by
  cases items with
  | nil => exact absurd rfl present
  | cons first rest =>
    rw [List.forall_mem_cons] at keyed
    obtain ⟨best, ended, origin, fewest⟩ := leastFrom_ok first keyed.2
    refine ⟨best, List.mem_cons.mpr origin, ?_, fewest⟩
    rw [least, keyed.1]
    exact ended

end Least

end PrivateContinuum.Library
