import PrivateContinuum.Library.Union
import PrivateContinuum.Library.Ordered

namespace PrivateContinuum.Library

open Std (ExtTreeMap TransOrd LawfulEqOrd LawfulEqCmp)

variable {Key State Fact Failure : Type} [Ord Key] [TransOrd Key]

/-- One entry into a map: merged with the state under its key, or put there. -/
def mergeEntry (merge : State → State → Except Failure State) (merged : ExtTreeMap Key State)
    (entry : Key × State) : Except Failure (ExtTreeMap Key State) :=
  match merged[entry.1]? with
  | some current => do
    let joined ← merge current entry.2
    pure (merged.insert entry.1 joined)
  | none => pure (merged.insert entry.1 entry.2)

/-- All entries of the right map into the left one, in key order. -/
def mergeMaps (merge : State → State → Except Failure State) (left right : ExtTreeMap Key State) :
    Except Failure (ExtTreeMap Key State) :=
  right.toList.foldlM (mergeEntry merge) left

/-- What a merge leaves under a key: the merge of both states, or the only one. -/
def MergedAt (merge : State → State → Except Failure State) :
    Option State → Option State → Option State → Prop
  | some current, some incoming, merged => ∃ joined, merge current incoming = .ok joined ∧
      merged = some joined
  | some current, none, merged => merged = some current
  | none, incoming, merged => merged = incoming

@[simp] theorem mergedAt_none_left {merge : State → State → Except Failure State}
    {incoming merged : Option State} :
    MergedAt merge none incoming merged ↔ merged = incoming := by
  cases incoming <;> exact Iff.rfl

@[simp] theorem mergedAt_none_right {merge : State → State → Except Failure State}
    {current : State} {merged : Option State} :
    MergedAt merge (some current) none merged ↔ merged = some current := Iff.rfl

@[simp] theorem mergedAt_both {merge : State → State → Except Failure State}
    {current incoming : State} {merged : Option State} :
    MergedAt merge (some current) (some incoming) merged ↔
      ∃ joined, merge current incoming = .ok joined ∧ merged = some joined := Iff.rfl

theorem MergedAt.unique {merge : State → State → Except Failure State}
    {current incoming merged other : Option State}
    (first : MergedAt merge current incoming merged)
    (second : MergedAt merge current incoming other) :
    merged = other := by
  cases current with
  | none => rw [mergedAt_none_left.mp first, mergedAt_none_left.mp second]
  | some one =>
    cases incoming with
    | none => rw [mergedAt_none_right.mp first, mergedAt_none_right.mp second]
    | some two =>
      obtain ⟨joined, done, named⟩ := first
      obtain ⟨again, doneAgain, namedAgain⟩ := second
      rw [done] at doneAgain
      cases doneAgain
      rw [named, namedAgain]

variable [LawfulEqOrd Key] {merge : State → State → Except Failure State}
  {left right merged next : ExtTreeMap Key State}

theorem getElem?_insert_other {key other : Key} {state : State} (different : other ≠ key) :
    (left.insert key state)[other]? = left[other]? := by
  rw [ExtTreeMap.getElem?_insert, if_neg]
  intro same
  exact different (LawfulEqCmp.eq_of_compare same).symm

theorem mergeEntry_frame {entry : Key × State} (done : mergeEntry merge left entry = .ok next)
    {other : Key} (different : other ≠ entry.1) : next[other]? = left[other]? := by
  unfold mergeEntry at done
  split at done
  · rw [bind_ok_iff] at done
    obtain ⟨joined, _, stored⟩ := done
    cases stored
    exact getElem?_insert_other different
  · cases done
    exact getElem?_insert_other different

theorem mergeEntry_at {entry : Key × State} (done : mergeEntry merge left entry = .ok next) :
    MergedAt merge left[entry.1]? (some entry.2) next[entry.1]? := by
  unfold mergeEntry at done
  split at done
  · rename_i current found
    rw [bind_ok_iff] at done
    obtain ⟨joined, combined, stored⟩ := done
    cases stored
    rw [found]
    exact ⟨joined, combined, by simp⟩
  · rename_i absent
    cases done
    rw [absent]
    simp [MergedAt]

theorem mergeMaps_at (done : mergeMaps merge left right = .ok merged) (key : Key) :
    MergedAt merge left[key]? right[key]? merged[key]? := by
  have frame :
      ∀ (state : ExtTreeMap Key State) (entry : Key × State) (after : ExtTreeMap Key State),
      mergeEntry merge state entry = .ok after → ∀ other, other ≠ entry.1 →
      after[other]? = state[other]? :=
    fun _ _ _ stepped _ different => mergeEntry_frame stepped different
  cases incoming : right[key]? with
  | none =>
    have kept : merged[key]? = left[key]? := by
      apply foldlM_other (fun map key => map[key]?) frame done
      intro entry member same
      have found : right[entry.1]? = some entry.2 :=
        ExtTreeMap.mem_toList_iff_getElem?_eq_some.mp member
      rw [same, found] at incoming
      cases incoming
    rw [kept]
    cases left[key]? with
    | none => exact mergedAt_none_left.mpr rfl
    | some current => exact mergedAt_none_right.mpr rfl
  | some state =>
    have listed : (key, state) ∈ right.toList :=
      ExtTreeMap.mem_toList_iff_getElem?_eq_some.mpr incoming
    obtain ⟨earlier, later, before, stepped, after⟩ :=
      foldlM_entry (fun map key => map[key]?) frame (toList_distinct right) done listed
    have stored := mergeEntry_at stepped
    rw [after, ← before]
    exact stored

/-- A merge that stops at an entry has merged the smaller keys and left the rest. -/
theorem mergeMaps_stopped {before after : List (Key × State)} {entry : Key × State}
    {failure : Failure} (split : right.toList = before ++ entry :: after)
    (ran : before.foldlM (mergeEntry merge) left = .ok next)
    (failed : mergeEntry merge next entry = .error failure) :
    right[entry.1]? = some entry.2 ∧
      (∃ current, left[entry.1]? = some current ∧ merge current entry.2 = .error failure) ∧
      (∀ key, compare key entry.1 = .lt → MergedAt merge left[key]? right[key]? next[key]?) ∧
      ∀ key, compare key entry.1 ≠ .lt → next[key]? = left[key]? := by
  have frame :
      ∀ (state : ExtTreeMap Key State) (entry : Key × State) (after : ExtTreeMap Key State),
      mergeEntry merge state entry = .ok after → ∀ other, other ≠ entry.1 →
      after[other]? = state[other]? :=
    fun _ _ _ stepped _ different => mergeEntry_frame stepped different
  have sorted : right.toList.Pairwise fun one other => compare one.1 other.1 = .lt :=
    right.ordered_keys_toList
  have distinct := toList_distinct right
  rw [split, List.pairwise_append] at sorted distinct
  have smaller : ∀ other ∈ before, compare other.1 entry.1 = .lt :=
    fun other member => sorted.2.2 other member entry List.mem_cons_self
  have untouched : ∀ key, compare key entry.1 ≠ .lt → next[key]? = left[key]? := by
    intro key larger
    apply foldlM_other (fun map key => map[key]?) frame ran
    intro other member same
    exact larger (same ▸ smaller other member)
  have stored : ∀ other : Key × State, right[other.1]? = some other.2 ↔
      other ∈ before ++ entry :: after := by
    intro other
    rw [← split]
    exact ExtTreeMap.mem_toList_iff_getElem?_eq_some.symm
  have incoming : right[entry.1]? = some entry.2 := (stored entry).mpr (by simp)
  refine ⟨incoming, ?_, ?_, untouched⟩
  · have here : next[entry.1]? = left[entry.1]? :=
      untouched entry.1 (by simp [Std.ReflCmp.compare_self])
    unfold mergeEntry at failed
    rw [here] at failed
    cases found : left[entry.1]? with
    | none =>
      rw [found] at failed
      cases failed
    | some current =>
      simp only [found, bind_error_iff] at failed
      rcases failed with refused | ⟨joined, _, impossible⟩
      · exact ⟨current, rfl, refused⟩
      · cases impossible
  · intro key below
    cases given : right[key]? with
    | none =>
      have kept : next[key]? = left[key]? := by
        apply foldlM_other (fun map key => map[key]?) frame ran
        intro other member same
        have found := (stored other).mpr (List.mem_append_left _ member)
        rw [← same, given] at found
        cases found
      rw [kept]
      cases left[key]? with
      | none => exact mergedAt_none_left.mpr rfl
      | some current => exact mergedAt_none_right.mpr rfl
    | some state =>
      have listed : (key, state) ∈ before := by
        have inside := (stored (key, state)).mp given
        rw [List.mem_append, List.mem_cons] at inside
        rcases inside with ahead | same | behind
        · exact ahead
        · subst same
          simp [Std.ReflCmp.compare_self] at below
        · have above := (List.pairwise_cons.mp sorted.2.1).1 (key, state) behind
          have swapped : compare key entry.1 = (compare entry.1 key).swap := Std.OrientedCmp.eq_swap
          rw [swapped, above] at below
          cases below
      obtain ⟨earlier, later, start, stepped, finish⟩ :=
        foldlM_entry (fun map key => map[key]?) frame distinct.1 ran listed
      have merged := mergeEntry_at stepped
      rw [finish, ← start]
      exact merged

/-- The merge of two maps succeeds exactly when it does under every shared key. -/
theorem mergeMaps_isOk_iff : (∃ merged, mergeMaps merge left right = .ok merged) ↔
    ∀ (key : Key) current incoming, left[key]? = some current → right[key]? = some incoming →
      ∃ joined, merge current incoming = .ok joined := by
  constructor
  · intro success key current incoming found stored
    obtain ⟨merged, done⟩ := success
    have result := mergeMaps_at done key
    rw [found, stored] at result
    obtain ⟨joined, combined, _⟩ := result
    exact ⟨joined, combined⟩
  · intro shared
    cases outcome : mergeMaps merge left right with
    | ok merged => exact ⟨merged, rfl⟩
    | error failure =>
      obtain ⟨before, entry, after, state, split, ran, failed⟩ := foldlM_error outcome
      obtain ⟨incoming, ⟨current, found, refused⟩, _⟩ := mergeMaps_stopped split ran failed
      obtain ⟨joined, combined⟩ := shared entry.1 current entry.2 found incoming
      rw [combined] at refused
      cases refused

/-- What a map of mergeable states states: its keys, and the facts under them. -/
inductive KeyedFact (Key Fact : Type) where
  | has (key : Key)
  | under (key : Key) (fact : Fact)

namespace UnionMerge

variable (union : UnionMerge State Fact Failure)

def KeyedGood (map : ExtTreeMap Key State) : Prop :=
  ∀ (key : Key) state, map[key]? = some state → union.Good state

def KeyedStates (map : ExtTreeMap Key State) : KeyedFact Key Fact → Prop
  | .has key => ∃ state, map[key]? = some state
  | .under key fact => ∃ state, map[key]? = some state ∧ union.States state fact

def KeyedAgree (left right : ExtTreeMap Key State) : Prop :=
  ∀ (key : Key) current incoming, left[key]? = some current → right[key]? = some incoming →
    union.Agree current incoming

theorem keyed_ext
    (same : ∀ fact, union.KeyedStates left fact ↔ union.KeyedStates right fact) : left = right := by
  apply ExtTreeMap.ext_getElem?
  intro key
  cases found : left[key]? with
  | none =>
    cases other : right[key]? with
    | none => rfl
    | some state =>
      obtain ⟨stored, impossible⟩ := (same (.has key)).mpr ⟨state, other⟩
      rw [found] at impossible
      cases impossible
  | some state =>
    obtain ⟨stored, other⟩ := (same (.has key)).mp ⟨state, found⟩
    rw [other, Option.some.injEq]
    apply union.ext
    intro fact
    have under := same (.under key fact)
    simpa [KeyedStates, found, other] using under

theorem keyed_states (done : mergeMaps union.merge left right = .ok merged)
    (fact : KeyedFact Key Fact) :
    union.KeyedStates merged fact ↔ union.KeyedStates left fact ∨ union.KeyedStates right fact := by
  have at_key := fun key => mergeMaps_at done key
  cases fact with
  | has key =>
    have here := at_key key
    simp only [KeyedStates]
    cases found : left[key]? with
    | none =>
      rw [found, mergedAt_none_left] at here
      simp [here]
    | some current =>
      cases stored : right[key]? with
      | none =>
        rw [found, stored, mergedAt_none_right] at here
        simp [here]
      | some incoming =>
        rw [found, stored] at here
        obtain ⟨joined, _, named⟩ := here
        simp [named]
  | under key fact =>
    have here := at_key key
    simp only [KeyedStates]
    cases found : left[key]? with
    | none =>
      rw [found, mergedAt_none_left] at here
      simp [here]
    | some current =>
      cases stored : right[key]? with
      | none =>
        rw [found, stored, mergedAt_none_right] at here
        simp [here]
      | some incoming =>
        rw [found, stored] at here
        obtain ⟨joined, combined, named⟩ := here
        simp [named, union.merge_states combined]

theorem keyed_good (leftGood : union.KeyedGood left) (rightGood : union.KeyedGood right)
    (done : mergeMaps union.merge left right = .ok merged) : union.KeyedGood merged := by
  intro key state found
  have here := mergeMaps_at done key
  rw [found] at here
  cases current : left[key]? with
  | none =>
    rw [current, mergedAt_none_left] at here
    exact rightGood key state here.symm
  | some one =>
    cases incoming : right[key]? with
    | none =>
      rw [current, incoming, mergedAt_none_right] at here
      cases here
      exact leftGood key state current
    | some two =>
      rw [current, incoming] at here
      obtain ⟨joined, combined, named⟩ := here
      cases named
      exact union.merge_good (leftGood key one current) (rightGood key two incoming) combined

omit [LawfulEqOrd Key] in
theorem keyed_bounded {bound : ExtTreeMap Key State}
    (first : ∀ fact, union.KeyedStates left fact → union.KeyedStates bound fact)
    (second : ∀ fact, union.KeyedStates right fact → union.KeyedStates bound fact) :
    union.KeyedAgree left right := by
  intro key current incoming found stored
  obtain ⟨above, has⟩ := first (.has key) ⟨current, found⟩
  have below : ∀ fact, (∃ state, bound[key]? = some state ∧ union.States state fact) →
      union.States above fact := by
    intro fact holds
    obtain ⟨state, same, holds⟩ := holds
    rw [has] at same
    cases same
    exact holds
  apply @agree_bounded State Fact Failure union current incoming above
  · exact fun fact holds => below fact (first (.under key fact) ⟨current, found, holds⟩)
  · exact fun fact holds => below fact (second (.under key fact) ⟨incoming, stored, holds⟩)

theorem keyed_agree_merge {other : ExtTreeMap Key State}
    (done : mergeMaps union.merge left right = .ok merged) (first : union.KeyedAgree left other)
    (second : union.KeyedAgree right other) :
    union.KeyedAgree merged other := by
  intro key state incoming found stored
  have here := mergeMaps_at done key
  rw [found] at here
  cases current : left[key]? with
  | none =>
    rw [current, mergedAt_none_left] at here
    exact second key state incoming here.symm stored
  | some one =>
    cases added : right[key]? with
    | none =>
      rw [current, added, mergedAt_none_right] at here
      cases here
      exact first key state incoming current stored
    | some two =>
      rw [current, added] at here
      obtain ⟨joined, combined, named⟩ := here
      cases named
      exact union.agree_merge combined (first key one incoming current stored)
        (second key two incoming added stored)

/-- Merging maps key by key builds the union again. -/
def keyed : UnionMerge (ExtTreeMap Key State) (KeyedFact Key Fact) Failure where
  merge := mergeMaps union.merge
  Good := union.KeyedGood
  States := union.KeyedStates
  Agree := union.KeyedAgree
  ext same := union.keyed_ext same
  merge_states done fact := union.keyed_states done fact
  merge_good leftGood rightGood done := union.keyed_good leftGood rightGood done
  merge_exists leftGood rightGood agree :=
    mergeMaps_isOk_iff.mpr fun key current incoming found stored =>
    union.merge_exists (leftGood key current found) (rightGood key incoming stored)
      (agree key current incoming found stored)
  agree_bounded first second := union.keyed_bounded first second
  agree_merge done first second := union.keyed_agree_merge done first second
  agree_symm agree := fun key current incoming found stored =>
    union.agree_symm (agree key incoming current stored found)

end UnionMerge

end PrivateContinuum.Library
