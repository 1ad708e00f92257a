import PrivateContinuum.Library.Outcome

/-! Partial merges that build the union of what both sides state. -/

namespace PrivateContinuum.Library

/-- A merge of good states that succeeds on agreeing ones, with a result that is
determined by the facts of both. -/
structure UnionMerge (State Fact Failure : Type) where
  merge : State → State → Except Failure State
  Good : State → Prop
  States : State → Fact → Prop
  Agree : State → State → Prop
  ext : ∀ {left right}, (∀ fact, States left fact ↔ States right fact) → left = right
  merge_states : ∀ {left right merged}, merge left right = .ok merged →
    ∀ fact, States merged fact ↔ States left fact ∨ States right fact
  merge_good : ∀ {left right merged}, Good left → Good right → merge left right = .ok merged →
    Good merged
  merge_exists : ∀ {left right}, Good left → Good right → Agree left right →
    ∃ merged, merge left right = .ok merged
  agree_bounded : ∀ {left right bound}, (∀ fact, States left fact → States bound fact) →
    (∀ fact, States right fact → States bound fact) → Agree left right
  agree_merge : ∀ {left right merged other}, merge left right = .ok merged → Agree left other →
    Agree right other → Agree merged other
  agree_symm : ∀ {left right}, Agree left right → Agree right left

namespace UnionMerge

variable {State Fact Failure : Type} {union : UnionMerge State Fact Failure} {first merged : State}
  {others : List State}

/-- What the members of a list state together. -/
def Stated (union : UnionMerge State Fact Failure) (members : List State) (fact : Fact) : Prop :=
  ∃ member ∈ members, union.States member fact

theorem stated_cons {first : State} {rest : List State} {fact : Fact} :
    union.Stated (first :: rest) fact ↔ union.States first fact ∨ union.Stated rest fact := by
  simp [Stated]

theorem good_cons {next joined : State} {rest : List State}
    (good : ∀ member ∈ first :: next :: rest, union.Good member)
    (done : union.merge first next = .ok joined) :
    ∀ member ∈ joined :: rest, union.Good member := by
  intro member listed
  rcases List.mem_cons.mp listed with same | later
  · exact same ▸ union.merge_good (good first (by simp)) (good next (by simp)) done
  · exact good member (by simp [later])

variable (union)

theorem merge_isOk_iff {left right : State} (leftGood : union.Good left)
    (rightGood : union.Good right) :
    (∃ merged, union.merge left right = .ok merged) ↔ union.Agree left right := by
  constructor
  · intro success
    obtain ⟨merged, done⟩ := success
    have both := union.merge_states done
    exact union.agree_bounded (fun fact holds => (both fact).mpr (Or.inl holds))
      fun fact holds => (both fact).mpr (Or.inr holds)
  · exact union.merge_exists leftGood rightGood

theorem merge_ok_iff {left right : State} (leftGood : union.Good left)
    (rightGood : union.Good right) :
    union.merge left right = .ok merged ↔
      ∀ fact, union.States merged fact ↔ union.States left fact ∨ union.States right fact := by
  constructor
  · exact union.merge_states
  · intro same
    have agree : union.Agree left right :=
      union.agree_bounded (fun fact holds => (same fact).mpr (Or.inl holds))
      fun fact holds => (same fact).mpr (Or.inr holds)
    obtain ⟨joined, done⟩ := union.merge_exists leftGood rightGood agree
    have equal : joined = merged := by
      apply union.ext
      intro fact
      rw [union.merge_states done, same]
    rw [done, equal]

theorem merge_self {state : State} (good : union.Good state) :
    union.merge state state = .ok state := by
  rw [union.merge_ok_iff good good]
  simp

end UnionMerge

section Through

variable {Whole State Fact Failure : Type}

/-- A wrapper around mergeable states merges as they do. -/
def UnionMerge.through (union : UnionMerge State Fact Failure) (content : Whole → State)
    (merge : Whole → Whole → Except Failure Whole)
    (same : ∀ {left right}, content left = content right → left = right)
    (merges : ∀ left right,
      (merge left right).map content = union.merge (content left) (content right)) :
    UnionMerge Whole Fact Failure where
  merge := merge
  Good whole := union.Good (content whole)
  States whole := union.States (content whole)
  Agree left right := union.Agree (content left) (content right)
  ext equal := same (union.ext equal)
  merge_states {left right merged} done := by
    apply union.merge_states
    rw [← merges left right, done]
    rfl
  merge_good {left right merged} leftGood rightGood done := by
    apply union.merge_good leftGood rightGood
    rw [← merges left right, done]
    rfl
  merge_exists {left right} leftGood rightGood agree := by
    obtain ⟨state, done⟩ := union.merge_exists leftGood rightGood agree
    rw [← merges left right] at done
    cases outcome : merge left right with
    | ok merged => exact ⟨merged, rfl⟩
    | error failure =>
      rw [outcome] at done
      cases done
  agree_bounded first second := union.agree_bounded first second
  agree_merge {left right merged other} done first second := by
    have inner : union.merge (content left) (content right) = .ok (content merged) := by
      rw [← merges left right, done]
      rfl
    exact union.agree_merge inner first second
  agree_symm agree := union.agree_symm agree

variable {Label : Type} [DecidableEq Label]

/-- States under a label merge under one label only. -/
def mergeLabelled (merge : State → State → Except Failure State)
    (mismatch : Label → Label → Failure) (left right : Label × State) :
    Except Failure (Label × State) :=
  if left.1 ≠ right.1 then .error (mismatch left.1 right.1)
  else do
    let merged ← merge left.2 right.2
    pure (left.1, merged)

theorem mergeLabelled_ok_iff {merge : State → State → Except Failure State}
    {mismatch : Label → Label → Failure} {left right merged : Label × State} :
    mergeLabelled merge mismatch left right = .ok merged ↔
      left.1 = right.1 ∧ merged.1 = left.1 ∧ merge left.2 right.2 = .ok merged.2 := by
  unfold mergeLabelled
  split
  · rename_i different
    simp [different]
  · rename_i same
    simp only [bind_ok_iff, pure_eq_ok, Except.ok.injEq]
    constructor
    · intro done
      obtain ⟨joined, inner, named⟩ := done
      cases named
      exact ⟨not_not.mp same, rfl, inner⟩
    · intro done
      exact ⟨merged.2, done.2.2, Prod.ext done.2.1.symm rfl⟩

def UnionMerge.labelled (union : UnionMerge State Fact Failure)
    (mismatch : Label → Label → Failure) :
    UnionMerge (Label × State) (Label ⊕ Fact) Failure where
  merge := mergeLabelled union.merge mismatch
  Good whole := union.Good whole.2
  States whole fact := fact.elim (fun label => label = whole.1) (union.States whole.2)
  Agree left right := left.1 = right.1 ∧ union.Agree left.2 right.2
  ext {left right} equal := by
    have labels : left.1 = right.1 := (equal (.inl left.1)).mp rfl
    have states : left.2 = right.2 := union.ext fun fact => equal (.inr fact)
    exact Prod.ext labels states
  merge_states {left right merged} done fact := by
    obtain ⟨labels, named, inner⟩ := mergeLabelled_ok_iff.mp done
    cases fact with
    | inl label => simp [named, ← labels]
    | inr fact => exact union.merge_states inner fact
  merge_good leftGood rightGood done :=
    union.merge_good leftGood rightGood (mergeLabelled_ok_iff.mp done).2.2
  merge_exists {left right} leftGood rightGood agree := by
    obtain ⟨joined, inner⟩ := union.merge_exists leftGood rightGood agree.2
    exact ⟨(left.1, joined), mergeLabelled_ok_iff.mpr ⟨agree.1, rfl, inner⟩⟩
  agree_bounded {left right bound} first second := by
    have leftLabel : left.1 = bound.1 := first (.inl left.1) rfl
    have rightLabel : right.1 = bound.1 := second (.inl right.1) rfl
    exact ⟨leftLabel.trans rightLabel.symm,
      union.agree_bounded (fun fact holds => first (.inr fact) holds) fun fact holds =>
      second (.inr fact) holds⟩
  agree_merge {left right merged other} done first second := by
    obtain ⟨_, named, inner⟩ := mergeLabelled_ok_iff.mp done
    exact ⟨named.trans first.1, union.agree_merge inner first.2 second.2⟩
  agree_symm agree := ⟨agree.1.symm, union.agree_symm agree.2⟩

end Through

/-- A way to merge a family: in which order, in which grouping, how often each member. -/
inductive Grouping (State : Type) where
  | member (state : State)
  | join (left right : Grouping State)

namespace Grouping

variable {State Failure : Type}

def members : Grouping State → List State
  | .member state => [state]
  | .join left right => left.members ++ right.members

def evaluate (merge : State → State → Except Failure State) : Grouping State → Except Failure State
  | .member state => pure state
  | .join left right => do
    let first ← left.evaluate merge
    let second ← right.evaluate merge
    merge first second

/-- One member after the other, from the left. -/
def folded (first : State) (others : List State) : Grouping State :=
  others.foldl (fun grouped next => .join grouped (.member next)) (.member first)

theorem evaluate_foldl (merge : State → State → Except Failure State) (others : List State)
    (grouped : Grouping State) :
    (others.foldl (fun grouped next => .join grouped (.member next)) grouped).evaluate merge =
      grouped.evaluate merge >>= fun first => others.foldlM merge first := by
  induction others generalizing grouped with
  | nil => simp [-pure_eq_ok]
  | cons next rest ih =>
    rw [List.foldl_cons, ih]
    simp [evaluate, -pure_eq_ok]

theorem evaluate_folded (merge : State → State → Except Failure State) (first : State)
    (others : List State) :
    (folded first others).evaluate merge = others.foldlM merge first := by
  rw [folded, evaluate_foldl]
  exact pure_bind first _

theorem members_foldl (others : List State) (grouped : Grouping State) :
    (others.foldl (fun grouped next => .join grouped (.member next)) grouped).members =
      grouped.members ++ others := by
  induction others generalizing grouped with
  | nil => simp
  | cons next rest ih =>
    rw [List.foldl_cons, ih]
    simp [members]

theorem members_folded (first : State) (others : List State) :
    (folded first others).members = first :: others := by
  rw [folded, members_foldl]
  rfl

end Grouping

namespace UnionMerge

variable {State Fact Failure : Type} (union : UnionMerge State Fact Failure) {first merged : State}
  {others : List State}

/-- A family below a common bound merges in any grouping, into a good union. -/
theorem evaluate_exists {grouping : Grouping State} {bound : State}
    (good : ∀ member ∈ grouping.members, union.Good member)
    (bounded : ∀ member ∈ grouping.members, ∀ fact, union.States member fact →
      union.States bound fact) :
    ∃ merged, grouping.evaluate union.merge = .ok merged ∧ union.Good merged ∧
      ∀ fact, union.States merged fact ↔ union.Stated grouping.members fact := by
  induction grouping with
  | member state => exact ⟨state, rfl, good state (by simp [Grouping.members]), by
      simp [Stated, Grouping.members]⟩
  | join left right leftIH rightIH =>
    simp only [Grouping.members, List.mem_append, or_imp, forall_and] at good bounded
    obtain ⟨first, firstDone, firstGood, firstStates⟩ := leftIH good.1 bounded.1
    obtain ⟨second, secondDone, secondGood, secondStates⟩ := rightIH good.2 bounded.2
    have agree : union.Agree first second := by
      apply union.agree_bounded
      · intro fact holds
        obtain ⟨member, listed, stated⟩ := (firstStates fact).mp holds
        exact bounded.1 member listed fact stated
      · intro fact holds
        obtain ⟨member, listed, stated⟩ := (secondStates fact).mp holds
        exact bounded.2 member listed fact stated
    obtain ⟨merged, done⟩ := union.merge_exists firstGood secondGood agree
    refine ⟨merged, ?_, union.merge_good firstGood secondGood done, ?_⟩
    · simp only [Grouping.evaluate, firstDone, secondDone]
      exact done
    · intro fact
      rw [union.merge_states done, firstStates, secondStates]
      simp [Stated, Grouping.members, or_and_right, exists_or]

theorem evaluate_states {grouping : Grouping State} {merged : State}
    (done : grouping.evaluate union.merge = .ok merged) (fact : Fact) :
    union.States merged fact ↔ union.Stated grouping.members fact := by
  induction grouping generalizing merged with
  | member state =>
    cases done
    simp [Stated, Grouping.members]
  | join left right leftIH rightIH =>
    simp only [Grouping.evaluate, bind_ok_iff] at done
    obtain ⟨first, firstDone, second, secondDone, joined⟩ := done
    rw [union.merge_states joined, leftIH firstDone, rightIH secondDone]
    simp [Stated, Grouping.members, or_and_right, exists_or]

/-- Merging in any grouping builds exactly the union of the members. -/
theorem evaluate_ok_iff {grouping : Grouping State} {merged : State}
    (good : ∀ member ∈ grouping.members, union.Good member) :
    grouping.evaluate union.merge = .ok merged ↔
      ∀ fact, union.States merged fact ↔ union.Stated grouping.members fact := by
  constructor
  · exact union.evaluate_states
  · intro same
    have bounded : ∀ member ∈ grouping.members, ∀ fact, union.States member fact →
        union.States merged fact :=
      fun member listed fact holds => (same fact).mpr ⟨member, listed, holds⟩
    obtain ⟨built, done, _, states⟩ := union.evaluate_exists good bounded
    have equal : built = merged := by
      apply union.ext
      intro fact
      rw [states, same]
    rw [done, equal]

/-- The outcome depends on the set of members only, also when it is a failure. -/
theorem evaluate_sameResult {first second : Grouping State}
    (good : ∀ member ∈ first.members, union.Good member)
    (members : ∀ member, member ∈ first.members ↔ member ∈ second.members) :
    SameResult (first.evaluate union.merge) (second.evaluate union.merge) := by
  apply sameResult_iff.mpr
  intro merged
  have secondGood : ∀ member ∈ second.members, union.Good member :=
    fun member listed => good member ((members member).mpr listed)
  rw [union.evaluate_ok_iff good, union.evaluate_ok_iff secondGood]
  simp only [Stated, members]

theorem fold_ok_iff (good : ∀ member ∈ first :: others, union.Good member) :
    others.foldlM union.merge first = .ok merged ↔
      ∀ fact, union.States merged fact ↔ union.Stated (first :: others) fact := by
  have built := @evaluate_ok_iff State Fact Failure union (Grouping.folded first others) merged
  rw [Grouping.evaluate_folded, Grouping.members_folded] at built
  exact built good

theorem fold_exists (good : ∀ member ∈ first :: others, union.Good member)
    (agree : ∀ left ∈ first :: others, ∀ right ∈ first :: others, union.Agree left right) :
    ∃ merged, others.foldlM union.merge first = .ok merged := by
  induction others generalizing first with
  | nil => exact ⟨first, rfl⟩
  | cons next rest ih =>
    obtain ⟨joined, merges⟩ := union.merge_exists (good first (by simp)) (good next (by simp))
      (agree first (by simp) next (by simp))
    have joinedAgree : ∀ member ∈ rest, union.Agree joined member := by
      intro member listed
      exact union.agree_merge merges (agree first (by simp) member (by simp [listed]))
        (agree next (by simp) member (by simp [listed]))
    have restAgree : ∀ left ∈ joined :: rest, ∀ right ∈ joined :: rest, union.Agree left right := by
      intro left leftListed right rightListed
      rcases List.mem_cons.mp leftListed with leftSame | leftLater
      · rcases List.mem_cons.mp rightListed with rightSame | rightLater
        · rw [leftSame, rightSame]
          exact union.agree_bounded (fun _ holds => holds) (fun _ holds => holds)
        · exact leftSame ▸ joinedAgree right rightLater
      · rcases List.mem_cons.mp rightListed with rightSame | rightLater
        · exact rightSame ▸ union.agree_symm (joinedAgree left leftLater)
        · exact agree left (by simp [leftLater]) right (by simp [rightLater])
    obtain ⟨merged, folded⟩ := ih (good_cons good merges) restAgree
    refine ⟨merged, ?_⟩
    rw [List.foldlM_cons, merges]
    exact folded

theorem fold_good (good : ∀ member ∈ first :: others, union.Good member)
    (done : others.foldlM union.merge first = .ok merged) : union.Good merged :=
  foldlM_invariant union.Good
    (fun _ member _ listed holds merges =>
      union.merge_good holds (good member (List.mem_cons_of_mem first listed)) merges)
    (good first List.mem_cons_self) done

/-- What agrees with every member agrees with their merge. -/
theorem fold_agree {other : State} (agree : ∀ member ∈ first :: others, union.Agree member other)
    (done : others.foldlM union.merge first = .ok merged) : union.Agree merged other :=
  foldlM_invariant (fun state => union.Agree state other)
    (fun _ member _ listed holds merges =>
      union.agree_merge merges holds (agree member (List.mem_cons_of_mem first listed)))
    (agree first List.mem_cons_self) done

theorem fold_sameResult {start : State} {further : List State}
    (good : ∀ member ∈ first :: others, union.Good member)
    (members : ∀ member, member ∈ first :: others ↔ member ∈ start :: further) :
    SameResult (others.foldlM union.merge first) (further.foldlM union.merge start) := by
  rw [← Grouping.evaluate_folded, ← Grouping.evaluate_folded]
  apply union.evaluate_sameResult
  · rwa [Grouping.members_folded]
  · rwa [Grouping.members_folded, Grouping.members_folded]

theorem merge_comm {left right : State} (leftGood : union.Good left)
    (rightGood : union.Good right) :
    SameResult (union.merge left right) (union.merge right left) := by
  apply sameResult_iff.mpr
  intro merged
  rw [union.merge_ok_iff leftGood rightGood, union.merge_ok_iff rightGood leftGood]
  simp only [or_comm]

theorem merge_assoc {left middle right : State} (leftGood : union.Good left)
    (middleGood : union.Good middle) (rightGood : union.Good right) :
    SameResult (union.merge left middle >>= fun joined => union.merge joined right)
      (union.merge middle right >>= fun joined => union.merge left joined) := by
  have grouped : SameResult
      (Grouping.evaluate union.merge
        (.join (.join (.member left) (.member middle)) (.member right)))
      (Grouping.evaluate union.merge
        (.join (.member left) (.join (.member middle) (.member right)))) := by
    apply union.evaluate_sameResult
    · simp only [Grouping.members, List.cons_append, List.nil_append, List.forall_mem_cons,
        List.not_mem_nil, false_implies, implies_true, and_true]
      exact ⟨leftGood, middleGood, rightGood⟩
    · intro member
      simp [Grouping.members]
  simpa [Grouping.evaluate, -pure_eq_ok] using grouped

end UnionMerge

/-- What a merge that may fail satisfies on good states, also in whether it fails. -/
structure MergeLaws {State Failure : Type} (merge : State → State → Except Failure State)
    (Good : State → Prop) : Prop where
  idempotent : ∀ state, Good state → merge state state = .ok state
  commutative : ∀ left right, Good left → Good right →
    SameResult (merge left right) (merge right left)
  associative : ∀ left middle right, Good left → Good middle → Good right →
    SameResult (merge left middle >>= fun joined => merge joined right)
      (merge middle right >>= fun joined => merge left joined)
  folding : ∀ first others start further, (∀ member ∈ first :: others, Good member) →
    (∀ member, member ∈ first :: others ↔ member ∈ start :: further) →
    SameResult (others.foldlM merge first) (further.foldlM merge start)
  grouping : ∀ first second : Grouping State, (∀ member ∈ first.members, Good member) →
    (∀ member, member ∈ first.members ↔ member ∈ second.members) →
    SameResult (first.evaluate merge) (second.evaluate merge)

theorem UnionMerge.laws {State Fact Failure : Type} (union : UnionMerge State Fact Failure) :
    MergeLaws union.merge union.Good where
  idempotent _ good := union.merge_self good
  commutative _ _ leftGood rightGood := union.merge_comm leftGood rightGood
  associative _ _ _ leftGood middleGood rightGood := union.merge_assoc leftGood middleGood rightGood
  folding _ _ _ _ good members := union.fold_sameResult good members
  grouping _ _ good members := union.evaluate_sameResult good members

end PrivateContinuum.Library
