import PrivateContinuum.Library.Outcome

namespace PrivateContinuum.Library

/-- Entries in the order in which their keys were first set. -/
structure Dict (Key Item : Type) where
  items : List (Key × Item)
  distinct : (items.map Prod.fst).Nodup
deriving DecidableEq

namespace Dict

variable {Key Item : Type}

def empty : Dict Key Item := ⟨[], List.nodup_nil⟩

def keys (dict : Dict Key Item) : List Key := dict.items.map Prod.fst

def values (dict : Dict Key Item) : List Item := dict.items.map Prod.snd

/-- The entries whose keys are kept, in their order. -/
def filter (keeps : Key → Bool) (dict : Dict Key Item) : Dict Key Item where
  items := dict.items.filter fun entry => keeps entry.1
  distinct := (List.filter_sublist.map Prod.fst).nodup dict.distinct

/-- The same keys, with other items. -/
def mapItems {Other : Type} (convert : Item → Other) (dict : Dict Key Item) : Dict Key Other where
  items := dict.items.map fun entry => (entry.1, convert entry.2)
  distinct := by
    rw [List.map_map]
    exact dict.distinct

variable [DecidableEq Key]

def get (dict : Dict Key Item) (key : Key) : Option Item :=
  (dict.items.find? fun entry => entry.1 = key).map Prod.snd

/-- A known key keeps its place, a new one goes to the end. -/
def set (dict : Dict Key Item) (key : Key) (item : Item) : Dict Key Item :=
  if known : key ∈ dict.keys then
    { items := dict.items.map fun entry => if entry.1 = key then (key, item) else entry
      distinct := by
        have same : (dict.items.map fun entry => if entry.1 = key then (key, item)
            else entry).map Prod.fst = dict.items.map Prod.fst := by
          rw [List.map_map]
          apply List.map_congr_left
          intro entry _
          by_cases here : entry.1 = key
          · simp [here]
          · simp [here]
        rw [same]
        exact dict.distinct }
  else
    { items := dict.items ++ [(key, item)]
      distinct := by
        rw [List.map_append, List.nodup_append]
        refine ⟨dict.distinct, by simp, ?_⟩
        intro other member added last same
        rw [List.map_singleton, List.mem_singleton] at last
        rw [same, last] at member
        exact known member }

variable {dict : Dict Key Item} {key other : Key} {item : Item}

theorem get_iff : dict.get key = some item ↔ (key, item) ∈ dict.items := by
  rw [get, Option.map_eq_some_iff]
  constructor
  · intro found
    obtain ⟨entry, first, same⟩ := found
    have here : entry.1 = key := by simpa using List.find?_some first
    rw [← here, ← same]
    exact List.mem_of_find?_eq_some first
  · intro member
    cases first : dict.items.find? fun entry => entry.1 = key with
    | none => exact absurd (List.find?_eq_none.mp first (key, item) member) (by simp)
    | some entry =>
      have here : entry.1 = key := by simpa using List.find?_some first
      have alike :=
        List.inj_on_of_nodup_map dict.distinct (List.mem_of_find?_eq_some first) member here
      exact ⟨entry, rfl, by rw [alike]⟩

theorem mem_keys : key ∈ dict.keys ↔ ∃ item, dict.get key = some item := by
  simp [keys, get_iff]

theorem get_none_iff : dict.get key = none ↔ key ∉ dict.keys := by
  rw [mem_keys, Option.eq_none_iff_forall_ne_some, not_exists]

@[simp] theorem get_empty : (empty : Dict Key Item).get key = none := rfl

theorem mem_values : item ∈ dict.values ↔ ∃ key, dict.get key = some item := by
  simp [values, get_iff]

theorem get_filter {keeps : Key → Bool} :
    (dict.filter keeps).get key = some item ↔ dict.get key = some item ∧ keeps key = true := by
  rw [get_iff, get_iff, filter, List.mem_filter]

omit [DecidableEq Key] in
theorem filter_congr {keeps others : Key → Bool}
    (same : ∀ key ∈ dict.keys, keeps key = others key) :
    dict.filter keeps = dict.filter others := by
  have kept : (dict.items.filter fun entry => keeps entry.1) = dict.items.filter fun entry =>
      others entry.1 := by
    apply List.filter_congr
    intro entry member
    exact same entry.1 (List.mem_map_of_mem member)
  simp only [filter, kept]

theorem items_perm {left right : Dict Key Item} (same : ∀ key, left.get key = right.get key) :
    left.items.Perm right.items := by
  apply (List.perm_ext_iff_of_nodup left.distinct.of_map right.distinct.of_map).mpr
  intro entry
  rw [← get_iff, ← get_iff, same]

theorem get_mapItems {Other : Type} {convert : Item → Other} :
    (dict.mapItems convert).get key = (dict.get key).map convert := by
  apply Option.ext
  intro found
  rw [get_iff, mapItems, List.mem_map, Option.map_eq_some_iff]
  constructor
  · rintro ⟨entry, member, same⟩
    cases same
    exact ⟨entry.2, get_iff.mpr member, rfl⟩
  · rintro ⟨held, stored, rfl⟩
    exact ⟨(key, held), get_iff.mp stored, rfl⟩

theorem get_set :
    (dict.set key item).get other = if key = other then some item else dict.get other := by
  apply Option.ext
  intro found
  rw [get_iff, set]
  split
  · rename_i known
    obtain ⟨old, stored⟩ := mem_keys.mp known
    rw [List.mem_map]
    constructor
    · intro listed
      obtain ⟨entry, member, same⟩ := listed
      by_cases here : entry.1 = key
      · rw [if_pos here] at same
        cases same
        simp
      · rw [if_neg here] at same
        subst same
        rw [if_neg (Ne.symm here)]
        exact get_iff.mpr member
    · intro looked
      by_cases here : key = other
      · subst here
        rw [if_pos rfl, Option.some.injEq] at looked
        exact ⟨(key, old), get_iff.mp stored, by simp [looked]⟩
      · rw [if_neg here] at looked
        exact ⟨(other, found), get_iff.mp looked, by simp [Ne.symm here]⟩
  · rename_i fresh
    rw [List.mem_append, List.mem_singleton, ← get_iff]
    by_cases here : key = other
    · subst here
      simp [get_none_iff.mpr fresh, eq_comm]
    · simp [here, eq_comm]

theorem set_same (stored : dict.get key = some item) : dict.set key item = dict := by
  have known : key ∈ dict.keys := mem_keys.mpr ⟨item, stored⟩
  have kept : (dict.items.map fun entry => if entry.1 = key then (key, item)
      else entry) = dict.items := by
    apply Eq.trans (List.map_congr_left _) (List.map_id dict.items)
    intro entry member
    by_cases here : entry.1 = key
    · have found : dict.get key = some entry.2 := get_iff.mpr (by rw [← here]; exact member)
      rw [stored, Option.some.injEq] at found
      rw [if_pos here, found, ← here]
      rfl
    · rw [if_neg here]
      rfl
  rw [set, dif_pos known]
  simp only [kept]

theorem items_set (fresh : dict.get key = none) :
    (dict.set key item).items = dict.items ++ [(key, item)] := by
  rw [set, dif_neg (get_none_iff.mp fresh)]

theorem foldl_set_origin {entries : List (Key × Item)}
    (found : (entries.foldl (fun grown entry => grown.set entry.1 entry.2) dict).get key =
      some item) :
    (key, item) ∈ entries ∨ dict.get key = some item := by
  induction entries generalizing dict with
  | nil => exact Or.inr found
  | cons entry rest ih =>
    rcases ih found with later | before
    · exact Or.inl (List.mem_cons_of_mem entry later)
    · rw [get_set] at before
      split at before
      · rename_i here
        cases before
        exact Or.inl (here ▸ List.mem_cons_self)
      · exact Or.inr before

theorem foldl_set_known {entries : List (Key × Item)}
    (member : key ∈ entries.map Prod.fst ∨ key ∈ dict.keys) :
    key ∈ (entries.foldl (fun grown entry => grown.set entry.1 entry.2) dict).keys := by
  induction entries generalizing dict with
  | nil => exact member.resolve_left List.not_mem_nil
  | cons entry rest ih =>
    apply ih
    rw [List.map_cons, List.mem_cons, or_right_comm] at member
    rcases member with new | later
    · right
      rw [mem_keys]
      by_cases here : entry.1 = key
      · exact ⟨entry.2, by rw [get_set, if_pos here]⟩
      · obtain ⟨held, stored⟩ := mem_keys.mp (new.resolve_left (Ne.symm here))
        exact ⟨held, by rw [get_set, if_neg here, stored]⟩
    · exact Or.inl later

/-- Sets all entries of another dictionary, in its order. -/
def update (dict other : Dict Key Item) : Dict Key Item :=
  other.items.foldl (fun grown entry => grown.set entry.1 entry.2) dict

theorem get_foldl_set {entries : List (Key × Item)} (distinct : (entries.map Prod.fst).Nodup) :
    (entries.foldl (fun grown entry => grown.set entry.1 entry.2) dict).get key = some item ↔
      (key, item) ∈ entries ∨ (key ∉ entries.map Prod.fst ∧ dict.get key = some item) := by
  induction entries generalizing dict with
  | nil => simp
  | cons entry rest ih =>
    rw [List.map_cons, List.nodup_cons] at distinct
    rw [List.foldl_cons, ih distinct.2, get_set, List.map_cons, List.mem_cons,
      List.mem_cons, not_or]
    by_cases here : entry.1 = key
    · subst here
      have behind : (entry.1, item) ∉ rest :=
        fun member => distinct.1 (List.mem_map.mpr ⟨_, member, rfl⟩)
      rw [if_pos rfl, Option.some.injEq]
      constructor
      · rintro (member | ⟨_, same⟩)
        · exact absurd member behind
        · exact Or.inl (Or.inl (by rw [← same]))
      · rintro ((same | member) | ⟨⟨other, _⟩, _⟩)
        · exact Or.inr ⟨distinct.1, (congrArg Prod.snd same).symm⟩
        · exact absurd member behind
        · exact absurd rfl other
    · have apart : (key, item) ≠ entry := fun same => here (congrArg Prod.fst same).symm
      have other : ¬ key = entry.1 := fun same => here same.symm
      simp [here, apart, other]

theorem get_update {other : Dict Key Item} : (dict.update other).get key = some item ↔
    other.get key = some item ∨ (key ∉ other.keys ∧ dict.get key = some item) := by
  rw [update, get_foldl_set other.distinct, ← get_iff]
  rfl

section Collision

variable [DecidableEq Item] {Failure : Type} {collision : Failure}

/-- Sets an entry unless the key is known with another item. -/
def keep (collision : Failure) (dict : Dict Key Item) (entry : Key × Item) :
    Except Failure (Dict Key Item) :=
  match dict.get entry.1 with
  | some previous => if previous ≠ entry.2 then .error collision else .ok (dict.set entry.1 entry.2)
  | none => .ok (dict.set entry.1 entry.2)

/-- Keeps all entries of another dictionary, in its order. -/
def keepAll (collision : Failure) (dict other : Dict Key Item) : Except Failure (Dict Key Item) :=
  other.items.foldlM (keep collision) dict

/-- Shared keys hold equal items. -/
def Agree (left right : Dict Key Item) : Prop :=
  ∀ key first second, left.get key = some first → right.get key = some second → first = second

theorem keep_ok_iff {entry : Key × Item} {next : Dict Key Item} :
    keep collision dict entry = .ok next ↔
    (∀ previous, dict.get entry.1 = some previous → previous = entry.2) ∧
      next = dict.set entry.1 entry.2 := by
  unfold keep
  cases found : dict.get entry.1 with
  | none => simp [eq_comm]
  | some previous =>
    by_cases same : previous = entry.2
    · simp [same, eq_comm]
    · simp [same]

theorem get_keep {entry : Key × Item} {next : Dict Key Item}
    (kept : keep collision dict entry = .ok next) :
    next.get key = some item ↔ dict.get key = some item ∨ (key, item) = entry := by
  obtain ⟨agrees, rfl⟩ := keep_ok_iff.mp kept
  rw [get_set]
  by_cases here : entry.1 = key
  · subst here
    rw [if_pos rfl, Option.some.injEq]
    constructor
    · rintro rfl
      exact Or.inr rfl
    · rintro (found | same)
      · exact (agrees item found).symm
      · exact congrArg Prod.snd same.symm
  · have apart : (key, item) ≠ entry := fun same => here (congrArg Prod.fst same).symm
    simp [here, apart]

theorem foldlM_keep_ok {entries : List (Key × Item)} {first last : Dict Key Item}
    (distinct : (entries.map Prod.fst).Nodup)
    (done : entries.foldlM (keep collision) first = .ok last) :
    (∀ entry ∈ entries, ∀ previous, first.get entry.1 = some previous → previous = entry.2) ∧
      ∀ key item, last.get key = some item ↔ first.get key = some item ∨ (key, item) ∈ entries := by
  induction entries generalizing first with
  | nil =>
    cases done
    simp
  | cons entry rest ih =>
    rw [List.map_cons, List.nodup_cons] at distinct
    rw [List.foldlM_cons, bind_ok_iff] at done
    obtain ⟨next, kept, finished⟩ := done
    obtain ⟨agrees, stored⟩ := keep_ok_iff.mp kept
    subst stored
    obtain ⟨restAgrees, union⟩ := ih distinct.2 finished
    constructor
    · intro other member previous found
      rcases List.mem_cons.mp member with here | later
      · exact here ▸ agrees previous (here ▸ found)
      · apply restAgrees other later previous
        rw [get_set, if_neg, found]
        intro same
        exact distinct.1 (same ▸ List.mem_map_of_mem later)
    · intro key item
      rw [union, get_set, List.mem_cons]
      by_cases here : entry.1 = key
      · subst here
        have later : (entry.1, item) ∉ rest :=
          fun member => distinct.1 (List.mem_map.mpr ⟨_, member, rfl⟩)
        rw [if_pos rfl, Option.some.injEq]
        constructor
        · intro either
          rcases either with same | member
          · exact Or.inr (Or.inl (by rw [← same]))
          · exact absurd member later
        · intro either
          rcases either with found | same | member
          · exact Or.inl (agrees item found).symm
          · exact Or.inl (congrArg Prod.snd same).symm
          · exact absurd member later
      · have apart : (key, item) ≠ entry := fun same => here (congrArg Prod.fst same).symm
        simp [here, apart]

theorem foldlM_keep_exists {entries : List (Key × Item)} {first : Dict Key Item}
    (distinct : (entries.map Prod.fst).Nodup)
    (agree : ∀ entry ∈ entries, ∀ previous, first.get entry.1 = some previous →
      previous = entry.2) :
    ∃ last, entries.foldlM (keep collision) first = .ok last := by
  induction entries generalizing first with
  | nil => exact ⟨first, rfl⟩
  | cons entry rest ih =>
    rw [List.map_cons, List.nodup_cons] at distinct
    have kept : keep collision first entry = .ok (first.set entry.1 entry.2) :=
      keep_ok_iff.mpr ⟨agree entry List.mem_cons_self, rfl⟩
    obtain ⟨last, done⟩ : ∃ last, rest.foldlM (keep collision) (first.set entry.1 entry.2) =
        .ok last := by
      apply ih distinct.2
      intro other member previous found
      rw [get_set, if_neg] at found
      · exact agree other (List.mem_cons_of_mem entry member) previous found
      · intro same
        exact distinct.1 (same ▸ List.mem_map_of_mem member)
    exact ⟨last, by rw [List.foldlM_cons, kept]; exact done⟩

/-- Entries that are there already are kept without a change. -/
theorem foldlM_keep_filter {entries : List (Key × Item)} {keeps : Key → Bool}
    {first : Dict Key Item}
    (there : ∀ entry ∈ entries, keeps entry.1 = false → first.get entry.1 = some entry.2) :
    (entries.filter fun entry => keeps entry.1).foldlM (keep collision) first = entries.foldlM
      (keep collision) first := by
  induction entries generalizing first with
  | nil => rfl
  | cons entry rest ih =>
    have later : ∀ next, keep collision first entry = .ok next →
        ∀ other ∈ rest, keeps other.1 = false → next.get other.1 = some other.2 := by
      intro next kept other member dropped
      obtain ⟨agrees, stored⟩ := keep_ok_iff.mp kept
      have held := there other (List.mem_cons_of_mem entry member) dropped
      rw [stored, get_set]
      by_cases here : entry.1 = other.1
      · rw [if_pos here, agrees other.2 (here ▸ held)]
      · rw [if_neg here, held]
    cases taken : keeps entry.1 with
    | true =>
      rw [List.filter_cons, taken, if_pos rfl, List.foldlM_cons, List.foldlM_cons]
      cases kept : keep collision first entry with
      | error failure => rfl
      | ok next => exact ih (later next kept)
    | false =>
      have held := there entry List.mem_cons_self taken
      have kept : keep collision first entry = .ok first := by
        refine keep_ok_iff.mpr ⟨fun previous found => ?_, (set_same held).symm⟩
        rw [held] at found
        exact (Option.some.inj found).symm
      rw [List.filter_cons, taken, if_neg Bool.false_ne_true, List.foldlM_cons, kept]
      exact ih (later first kept)

variable {left right last : Dict Key Item}

/-- The entries that the other dictionary holds need not be kept again. -/
theorem keepAll_filter {keeps : Key → Bool}
    (there : ∀ key item, right.get key = some item → keeps key = false → left.get key = some item) :
    keepAll collision left (right.filter keeps) = keepAll collision left right := by
  apply foldlM_keep_filter
  intro entry member dropped
  exact there entry.1 entry.2 (get_iff.mpr member) dropped

theorem keepAll_ok (done : keepAll collision left right = .ok last) : left.Agree right ∧
    ∀ key item, last.get key = some item ↔ left.get key = some item ∨
    right.get key = some item := by
  obtain ⟨agrees, union⟩ := foldlM_keep_ok right.distinct done
  refine ⟨?_, fun key item => (union key item).trans (or_congr_right get_iff.symm)⟩
  intro key first second known other
  exact agrees (key, second) (get_iff.mp other) first known

/-- The left side wins where both know a key, though they agree there. -/
theorem get_keepAll (done : keepAll collision left right = .ok last) :
    last.get key = (left.get key).or (right.get key) := by
  obtain ⟨agree, union⟩ := keepAll_ok done
  apply Option.ext
  intro item
  rw [union, Option.or_eq_some_iff]
  constructor
  · rintro (here | there)
    · exact Or.inl here
    · cases held : left.get key with
      | none => exact Or.inr ⟨rfl, there⟩
      | some known => exact Or.inl (congrArg some (agree key known item held there))
  · exact Or.imp_right And.right

theorem keepAll_exists_iff :
    (∃ last, keepAll collision left right = .ok last) ↔ left.Agree right := by
  constructor
  · intro done
    obtain ⟨last, done⟩ := done
    exact (keepAll_ok done).1
  · intro agree
    apply foldlM_keep_exists right.distinct
    intro entry member previous found
    exact agree entry.1 previous entry.2 found (get_iff.mpr member)

end Collision

end Dict

end PrivateContinuum.Library
