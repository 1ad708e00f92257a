import Mathlib

namespace PrivateContinuum.Library

open Std (ExtTreeMap ExtTreeSet TransOrd LawfulEqOrd LawfulEqCmp)

variable {Key Found : Type} [Ord Key] [TransOrd Key]

theorem map_mem_iff {map : ExtTreeMap Key Found} {key : Key} :
    key ∈ map ↔ ∃ value, map[key]? = some value := by
  rw [ExtTreeMap.mem_iff_isSome_getElem?, Option.isSome_iff_exists]

theorem set_not_contains_iff {set : ExtTreeSet Key} {key : Key} :
    (!set.contains key) = true ↔ key ∉ set := by
  rw [Bool.not_eq_true', ← Bool.not_eq_true, ← ExtTreeSet.mem_iff_contains]

theorem set_empty_not_mem {set : ExtTreeSet Key} (empty : set.isEmpty = true)
    (key : Key) : key ∉ set := by
  have none : set = ∅ := ExtTreeSet.isEmpty_iff.mp empty
  rw [none]
  exact ExtTreeSet.not_mem_empty

/-- The early exit of `all` decides the same as going through the listed keys. -/
theorem set_all_toList (set : ExtTreeSet Key) (holds : Key → Bool) :
    set.all holds = set.toList.all holds := by
  obtain ⟨⟨map⟩⟩ := set
  induction map with
  | mk map =>
    let look : ((_ : Key) × Unit) → Option Bool × Unit → Id (ForInStep (Option Bool × Unit)) :=
      fun entry _ =>
      if holds entry.1 = false then pure (.done (some false, ())) else pure (.yield (none, ()))
    have looped : map.all (fun key _ => holds key) =
        (Id.run (ForIn.forIn map (none, ()) look)).1.getD true := by
      change map.inner.all _ = _
      unfold Std.DTreeMap.Internal.Impl.all Option.getD
      rfl
    change map.all (fun key _ => holds key) = map.keys.all holds
    rw [← Std.DTreeMap.map_fst_toList_eq_keys, looped, Std.DTreeMap.forIn_eq_forIn_toList]
    generalize map.toList = items
    induction items with
    | nil => rfl
    | cons item rest ih =>
      rw [List.forIn_cons]
      cases held : holds item.1 with
      | false => simp [held, look]
      | true => simpa [held, look] using ih

variable [LawfulEqOrd Key]

theorem set_all_iff {set : ExtTreeSet Key} {holds : Key → Bool} :
    set.all holds = true ↔ ∀ key ∈ set, holds key = true := by
  rw [set_all_toList, List.all_eq_true]
  exact forall_congr' fun key => imp_congr_left ExtTreeSet.mem_toList

theorem toList_distinct (map : ExtTreeMap Key Found) :
    map.toList.Pairwise fun left right => left.1 ≠ right.1 := by
  apply List.Pairwise.imp _ map.distinct_keys_toList
  intro left right different same
  exact different (by rw [same]; exact Std.ReflCmp.compare_self)

theorem set_toList_nodup (set : ExtTreeSet Key) : set.toList.Nodup := by
  apply List.Pairwise.imp _ set.distinct_toList
  intro left right different same
  exact different (by rw [same]; exact Std.ReflCmp.compare_self)

theorem set_nonempty_iff {set : ExtTreeSet Key} : set.isEmpty = false ↔ ∃ item, item ∈ set := by
  have listed : ∀ item, item ∈ set ↔ item ∈ set.toList := by simp
  rw [← ExtTreeSet.isEmpty_toList]
  simp only [listed, List.isEmpty_eq_false_iff_exists_mem]

theorem set_mem_filter {set : ExtTreeSet Key} {keeps : Key → Bool} {key : Key} :
    key ∈ set.filter keeps ↔ key ∈ set ∧ keeps key = true := by
  rw [ExtTreeSet.mem_filter]
  constructor
  · intro found
    obtain ⟨member, kept⟩ := found
    rw [ExtTreeSet.get_eq] at kept
    exact ⟨member, kept⟩
  · intro found
    obtain ⟨member, kept⟩ := found
    exact ⟨member, by rwa [ExtTreeSet.get_eq]⟩

/-- A map inside another one of the same size is that map. -/
theorem map_eq_of_submap {small large : ExtTreeMap Key Found}
    (inside : ∀ (key : Key) (value : Found), small[key]? = some value → large[key]? = some value)
    (sizes : small.size = large.size) : small = large := by
  have distinct : small.toList.Nodup := by
    apply List.Pairwise.imp _ (toList_distinct small)
    intro left right different same
    exact different (by rw [same])
  have included : small.toList ⊆ large.toList := by
    intro entry member
    rw [ExtTreeMap.mem_toList_iff_getElem?_eq_some] at member ⊢
    exact inside entry.1 entry.2 member
  have lengths : large.toList.length ≤ small.toList.length := by
    rw [ExtTreeMap.length_toList, ExtTreeMap.length_toList, sizes]
  have perm := (distinct.subperm included).perm_of_length_le lengths
  apply ExtTreeMap.ext_getElem?
  intro key
  apply Option.ext
  intro value
  have members := perm.mem_iff (a := (key, value))
  rwa [ExtTreeMap.mem_toList_iff_getElem?_eq_some,
    ExtTreeMap.mem_toList_iff_getElem?_eq_some] at members

theorem getElem?_foldl_insert {entries : List (Key × Found)}
    (distinct : entries.Pairwise fun left right => left.1 ≠ right.1) (start : ExtTreeMap Key Found)
    (key : Key) (value : Found) :
    (entries.foldl (fun stored entry => stored.insert entry.1 entry.2) start)[key]? = some value ↔
      (key, value) ∈ entries ∨ (∀ entry ∈ entries, entry.1 ≠ key) ∧ start[key]? = some value := by
  induction entries generalizing start with
  | nil => simp
  | cons head rest ih =>
    obtain ⟨apart, restDistinct⟩ := List.pairwise_cons.mp distinct
    rw [List.foldl_cons, ih restDistinct]
    by_cases same : head.1 = key
    · subst same
      have absent : (head.1, value) ∉ rest := fun member => apart _ member rfl
      have others : ∀ entry ∈ rest, entry.1 ≠ head.1 :=
        fun entry member => (apart entry member).symm
      simp only [absent, ExtTreeMap.getElem?_insert_self, Option.some.injEq,
        false_or, List.mem_cons]
      constructor
      · intro stored
        exact Or.inl (Or.inl (by rw [← stored.2]))
      · rintro ((equal | impossible) | ⟨different, _⟩)
        · exact ⟨others, by rw [← equal]⟩
        · exact impossible.elim
        · exact absurd rfl (different head (Or.inl rfl))
    · have other : (key, value) ≠ head := fun equal => same (by rw [← equal])
      have unchanged : (start.insert head.1 head.2)[key]? = start[key]? := by
        rw [ExtTreeMap.getElem?_insert, if_neg fun equal => same (LawfulEqCmp.eq_of_compare equal)]
      simp [unchanged, other, same]

theorem getElem?_ofList {entries : List (Key × Found)}
    (distinct : entries.Pairwise fun left right => left.1 ≠ right.1) (key : Key) (value : Found) :
    (ExtTreeMap.ofList entries)[key]? = some value ↔ (key, value) ∈ entries := by
  have apart : entries.Pairwise fun left right => ¬ compare left.1 right.1 = .eq :=
    distinct.imp fun different same => different (LawfulEqCmp.eq_of_compare same)
  have listed : ∀ found, (key, found) ∈ entries → (ExtTreeMap.ofList entries)[key]? = some found :=
    fun found member => ExtTreeMap.getElem?_ofList_of_mem Std.ReflCmp.compare_self apart member
  constructor
  · intro stored
    have present : key ∈ ExtTreeMap.ofList entries := map_mem_iff.mpr ⟨value, stored⟩
    classical
    rw [ExtTreeMap.mem_ofList, List.contains_iff_mem, List.mem_map] at present
    obtain ⟨⟨other, found⟩, member, same⟩ := present
    subst same
    rw [listed found member, Option.some.injEq] at stored
    exact stored ▸ member
  · exact listed value

theorem size_foldl_insert {entries : List (Key × Found)}
    (distinct : entries.Pairwise fun left right => left.1 ≠ right.1) {start : ExtTreeMap Key Found}
    (fresh : ∀ entry ∈ entries, entry.1 ∉ start) :
    (entries.foldl (fun stored entry => stored.insert entry.1 entry.2) start).size =
      start.size + entries.length := by
  induction entries generalizing start with
  | nil => simp
  | cons head rest ih =>
    obtain ⟨apart, restDistinct⟩ := List.pairwise_cons.mp distinct
    have absent : head.1 ∉ start := fresh head List.mem_cons_self
    have restFresh : ∀ entry ∈ rest, entry.1 ∉ start.insert head.1 head.2 := by
      intro entry member stored
      rw [ExtTreeMap.mem_insert, LawfulEqCmp.compare_eq_iff_eq] at stored
      rcases stored with same | old
      · exact apart entry member same
      · exact fresh entry (List.mem_cons_of_mem head member) old
    rw [List.foldl_cons, ih restDistinct restFresh, ExtTreeMap.size_insert,
      if_neg (by rwa [ExtTreeMap.contains_iff_mem]), List.length_cons]
    omega

theorem foldl_insert_toList (map : ExtTreeMap Key Found) :
    map.toList.foldl (fun stored entry => stored.insert entry.1 entry.2) ∅ = map := by
  apply ExtTreeMap.ext_getElem?
  intro key
  apply Option.ext
  intro value
  rw [getElem?_foldl_insert (toList_distinct map)]
  simp [ExtTreeMap.mem_toList_iff_getElem?_eq_some]

theorem mem_foldl_insert (members : List Key) (start : ExtTreeSet Key) (key : Key) :
    key ∈ members.foldl (fun set member => set.insert member) start ↔
    key ∈ members ∨ key ∈ start := by
  induction members generalizing start with
  | nil => simp
  | cons head rest ih =>
    rw [List.foldl_cons, ih, ExtTreeSet.mem_insert, LawfulEqCmp.compare_eq_iff_eq, List.mem_cons,
      eq_comm]
    tauto

theorem set_foldl_insert_toList (set : ExtTreeSet Key) :
    set.toList.foldl (fun built member => built.insert member) ∅ = set := by
  apply ExtTreeSet.ext_mem
  intro key
  simp [mem_foldl_insert]

/-- Stores an entry under a key that is not taken. -/
def insertNewEntry (map : ExtTreeMap Key Found) (entry : Key × Found) :
    Option (ExtTreeMap Key Found) :=
  if entry.1 ∈ map then none else some (map.insert entry.1 entry.2)

theorem foldlM_insertNewEntry {entries : List (Key × Found)} {start last : ExtTreeMap Key Found} :
    entries.foldlM insertNewEntry start = some last ↔
      entries.Pairwise (fun left right => left.1 ≠ right.1) ∧ (∀ entry ∈ entries, entry.1 ∉ start) ∧
        last = entries.foldl (fun stored entry => stored.insert entry.1 entry.2) start := by
  induction entries generalizing start with
  | nil => simp [eq_comm]
  | cons head rest ih =>
    rw [List.foldlM_cons, insertNewEntry]
    by_cases taken : head.1 ∈ start
    · simp [taken]
    · rw [if_neg taken]
      change rest.foldlM insertNewEntry (start.insert head.1 head.2) = some last ↔ _
      rw [ih, List.pairwise_cons, List.forall_mem_cons, List.foldl_cons]
      simp only [ExtTreeMap.mem_insert, LawfulEqCmp.compare_eq_iff_eq, not_or]
      constructor
      · intro collected
        obtain ⟨distinct, fresh, same⟩ := collected
        exact ⟨⟨fun other member => (fresh other member).1, distinct⟩,
          ⟨taken, fun other member => (fresh other member).2⟩, same⟩
      · intro collected
        obtain ⟨⟨apart, distinct⟩, ⟨_, fresh⟩, same⟩ := collected
        exact ⟨distinct, fun other member => ⟨apart other member, fresh other member⟩, same⟩

/-- Collecting entries succeeds exactly on distinct keys, and holds exactly the entries. -/
theorem collect_iff {entries : List (Key × Found)} {last : ExtTreeMap Key Found} :
    entries.foldlM insertNewEntry ∅ = some last ↔
      entries.Pairwise (fun left right => left.1 ≠ right.1) ∧
        ∀ key value, last[key]? = some value ↔ (key, value) ∈ entries := by
  rw [foldlM_insertNewEntry]
  constructor
  · intro collected
    obtain ⟨distinct, _, same⟩ := collected
    refine ⟨distinct, ?_⟩
    intro key value
    rw [same, getElem?_foldl_insert distinct]
    simp
  · intro held
    obtain ⟨distinct, holds⟩ := held
    refine ⟨distinct, by simp, ?_⟩
    apply ExtTreeMap.ext_getElem?
    intro key
    apply Option.ext
    intro value
    rw [holds, getElem?_foldl_insert distinct]
    simp

/-- Adds a member that is not there. -/
def insertNewMember (set : ExtTreeSet Key) (member : Key) : Option (ExtTreeSet Key) :=
  if member ∈ set then none else some (set.insert member)

theorem foldlM_insertNewMember {members : List Key} {start last : ExtTreeSet Key} :
    members.foldlM insertNewMember start = some last ↔
      members.Nodup ∧ (∀ member ∈ members, member ∉ start) ∧
        ∀ key, key ∈ last ↔ key ∈ members ∨ key ∈ start := by
  induction members generalizing start with
  | nil =>
    simp only [List.foldlM_nil, List.nodup_nil, List.not_mem_nil, false_implies, implies_true,
      true_and, false_or]
    constructor
    · intro same key
      cases same
      exact Iff.rfl
    · intro same
      exact congrArg some (ExtTreeSet.ext_mem fun key => (same key).symm)
  | cons head rest ih =>
    rw [List.foldlM_cons, insertNewMember]
    by_cases taken : head ∈ start
    · simp [taken]
    · rw [if_neg taken]
      change rest.foldlM insertNewMember (start.insert head) = some last ↔ _
      rw [ih, List.nodup_cons, List.forall_mem_cons]
      simp only [ExtTreeSet.mem_insert, LawfulEqCmp.compare_eq_iff_eq, not_or, List.mem_cons]
      constructor
      · intro collected
        obtain ⟨distinct, fresh, holds⟩ := collected
        refine ⟨⟨fun member => (fresh head member).1 rfl, distinct⟩,
          ⟨taken, fun other member => (fresh other member).2⟩, ?_⟩
        intro key
        rw [holds, eq_comm]
        tauto
      · intro collected
        obtain ⟨⟨absent, distinct⟩, ⟨_, fresh⟩, holds⟩ := collected
        refine ⟨distinct,
          fun other member => ⟨fun same => absent (same ▸ member), fresh other member⟩, ?_⟩
        intro key
        rw [holds, eq_comm]
        tauto

theorem map_toList_singleton (key : Key) (value : Found) :
    ((∅ : ExtTreeMap Key Found).insert key value).toList = [(key, value)] := by
  have distinct : ((∅ : ExtTreeMap Key Found).insert key value).toList.Nodup := by
    apply List.Pairwise.imp _ (toList_distinct _)
    intro left right different same
    exact different (by rw [same])
  apply List.perm_singleton.mp
  apply (List.perm_ext_iff_of_nodup distinct (List.nodup_singleton _)).mpr
  intro entry
  rw [ExtTreeMap.mem_toList_iff_getElem?_eq_some, ExtTreeMap.getElem?_insert, List.mem_singleton]
  split
  · rename_i here
    have same : key = entry.1 := LawfulEqCmp.eq_of_compare here
    subst same
    rw [Option.some.injEq, Prod.ext_iff]
    simp [eq_comm]
  · rename_i elsewhere
    simp only [ExtTreeMap.getElem?_empty, reduceCtorEq, false_iff]
    intro same
    subst same
    exact elsewhere Std.ReflCmp.compare_self

theorem set_toList_singleton {Item : Type} [Ord Item] [TransOrd Item] [LawfulEqOrd Item]
    (item : Item) :
    ({item} : ExtTreeSet Item).toList = [item] := by
  apply List.perm_singleton.mp
  apply (List.perm_ext_iff_of_nodup (set_toList_nodup _) (List.nodup_singleton item)).mpr
  intro other
  rw [ExtTreeSet.mem_toList, List.mem_singleton]
  simp [eq_comm (a := item)]

end PrivateContinuum.Library
