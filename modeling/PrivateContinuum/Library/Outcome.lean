import Mathlib

/-! Loops over a list in the error monad: what a completed loop has checked and
what a stopped one ran into. -/

namespace PrivateContinuum.Library

variable {Failure Item State : Type}

@[simp] theorem bind_ok_iff {Value Result : Type} {first : Except Failure Value}
    {next : Value → Except Failure Result} {result : Result} :
    (first >>= next) = .ok result ↔ ∃ value, first = .ok value ∧ next value = .ok result := by
  cases first with
  | error failure => simp [bind, Except.bind]
  | ok value => simp [bind, Except.bind]

theorem bind_error_iff {Value Result : Type} {first : Except Failure Value}
    {next : Value → Except Failure Result} {failure : Failure} :
    (first >>= next) = .error failure ↔
      first = .error failure ∨ ∃ value, first = .ok value ∧ next value = .error failure := by
  cases first with
  | error other => simp [bind, Except.bind]
  | ok value => simp [bind, Except.bind]

@[simp] theorem pure_eq_ok {Value : Type} (value : Value) :
    (pure value : Except Failure Value) = .ok value := rfl

@[simp] theorem mapError_ok_iff {Value Other : Type} {wrap : Failure → Other}
    {outcome : Except Failure Value} {value : Value} :
    outcome.mapError wrap = .ok value ↔ outcome = .ok value := by
  cases outcome <;> simp [Except.mapError]

/-- The state that a method leaves in a copy, if it succeeds. -/
def onSuccess {Value : Type} : Except Failure Value × State → Except Failure (State × Value)
  | (.ok value, state) => .ok (state, value)
  | (.error failure, _) => .error failure

@[simp] theorem onSuccess_ok_iff {Value : Type} {called : Except Failure Value × State}
    {state : State} {value : Value} :
    onSuccess called = .ok (state, value) ↔ called = (.ok value, state) := by
  obtain ⟨outcome, left⟩ := called
  cases outcome with
  | ok found => simp [onSuccess, and_comm]
  | error failure => simp [onSuccess]

/-- Both computations finish with the same value, or both fail. -/
def SameResult {Value : Type} (first second : Except Failure Value) : Prop :=
  (∃ value, first = .ok value ∧ second = .ok value) ∨
    ∃ left right, first = .error left ∧ second = .error right

theorem sameResult_iff {Value : Type} {first second : Except Failure Value} :
    SameResult first second ↔ ∀ value, first = .ok value ↔ second = .ok value := by
  unfold SameResult
  cases first with
  | ok value =>
    cases second with
    | ok other => simp [eq_comm]
    | error right => simp
  | error left =>
    cases second with
    | ok other => simp
    | error right => simp

theorem forM_ok_iff {check : Item → Except Failure Unit} {items : List Item} :
    forM items check = .ok () ↔ ∀ item ∈ items, check item = .ok () := by
  induction items with
  | nil => simp
  | cons item rest ih =>
    rw [List.forM_cons, bind_ok_iff, List.forall_mem_cons, ← ih]
    exact ⟨fun ⟨_, first, later⟩ => ⟨first, later⟩, fun ⟨first, later⟩ => ⟨(), first, later⟩⟩

theorem forM_error {check : Item → Except Failure Unit} {items : List Item} {failure : Failure}
    (stopped : forM items check = .error failure) :
    ∃ item ∈ items, check item = .error failure := by
  induction items with
  | nil => simp at stopped
  | cons item rest ih =>
    rw [List.forM_cons, bind_error_iff] at stopped
    rcases stopped with first | ⟨_, _, later⟩
    · exact ⟨item, List.mem_cons_self, first⟩
    · obtain ⟨other, member, found⟩ := ih later
      exact ⟨other, List.mem_cons_of_mem item member, found⟩

theorem mapM_ok {Value : Type} {step : Item → Except Failure Value} {items : List Item}
    {values : List Value} (done : items.mapM step = .ok values) (value : Value) :
    value ∈ values ↔ ∃ item ∈ items, step item = .ok value := by
  induction items generalizing values with
  | nil =>
    cases done
    simp
  | cons item rest ih =>
    rw [List.mapM_cons, bind_ok_iff] at done
    obtain ⟨first, stepped, continued⟩ := done
    rw [bind_ok_iff] at continued
    obtain ⟨later, finished, same⟩ := continued
    cases same
    rw [List.mem_cons, ih finished]
    simp [stepped, eq_comm]

theorem mapM_eq_map {Value : Type} {step : Item → Except Failure Value} {value : Item → Value}
    {items : List Item} (every : ∀ item ∈ items, step item = .ok (value item)) :
    items.mapM step = .ok (items.map value) := by
  induction items with
  | nil => rfl
  | cons item rest ih =>
    rw [List.forall_mem_cons] at every
    rw [List.mapM_cons, every.1, ih every.2]
    rfl

section Tests

variable {test : Item → Except Failure Bool} {holds : Item → Prop} {items : List Item}

/-- Tests that always answer find out whether an item passes. -/
theorem anyM_ok
    (told : ∀ item ∈ items, ∃ answer, test item = .ok answer ∧ (answer = true ↔ holds item)) :
    ∃ answer, items.anyM test = .ok answer ∧ (answer = true ↔ ∃ item ∈ items, holds item) := by
  induction items with
  | nil => exact ⟨false, rfl, by simp⟩
  | cons item rest ih =>
    obtain ⟨first, passed, meaning⟩ := told item List.mem_cons_self
    obtain ⟨answer, found, rests⟩ :=
      ih fun other member => told other (List.mem_cons_of_mem item member)
    rw [List.anyM_cons, passed]
    cases first with
    | true => exact ⟨true, rfl, iff_of_true rfl ⟨item, List.mem_cons_self, meaning.mp rfl⟩⟩
    | false =>
      refine ⟨answer, found, rests.trans ?_⟩
      rw [List.exists_mem_cons_iff, or_iff_right fun passes =>
        Bool.false_ne_true (meaning.mpr passes)]

theorem filterM_ok
    (told : ∀ item ∈ items, ∃ answer, test item = .ok answer ∧ (answer = true ↔ holds item)) :
    ∃ kept, items.filterM test = .ok kept ∧ ∀ item, item ∈ kept ↔ item ∈ items ∧ holds item := by
  have collects : ∀ held : List Item, ∃ kept, items.filterAuxM test held = .ok kept ∧
      ∀ item, item ∈ kept ↔ item ∈ held ∨ (item ∈ items ∧ holds item) := by
    induction items with
    | nil => exact fun held => ⟨held, rfl, by simp⟩
    | cons item rest ih =>
      intro held
      obtain ⟨answer, passed, meaning⟩ := told item List.mem_cons_self
      obtain ⟨kept, done, members⟩ :=
        ih (fun other member => told other (List.mem_cons_of_mem item member))
          (cond answer (item :: held) held)
      refine ⟨kept, by rw [List.filterAuxM, passed]; exact done, fun other => ?_⟩
      rw [members]
      cases answer with
      | true =>
        rw [cond_true, List.mem_cons, List.mem_cons]
        constructor
        · rintro ((rfl | before) | later)
          · exact Or.inr ⟨Or.inl rfl, meaning.mp rfl⟩
          · exact Or.inl before
          · exact Or.inr ⟨Or.inr later.1, later.2⟩
        · rintro (before | ⟨rfl | later, passes⟩)
          · exact Or.inl (Or.inr before)
          · exact Or.inl (Or.inl rfl)
          · exact Or.inr ⟨later, passes⟩
      | false =>
        rw [cond_false, List.mem_cons]
        constructor
        · exact Or.imp_right fun later => ⟨Or.inr later.1, later.2⟩
        · rintro (before | ⟨rfl | later, passes⟩)
          · exact Or.inl before
          · exact absurd (meaning.mpr passes) Bool.false_ne_true
          · exact Or.inr ⟨later, passes⟩
  obtain ⟨kept, done, members⟩ := collects []
  refine ⟨kept.reverse, by rw [List.filterM, done]; rfl, fun item => ?_⟩
  rw [List.mem_reverse, members, or_iff_right List.not_mem_nil]

end Tests

theorem foldlM_invariant {step : State → Item → Except Failure State} {items : List Item}
    {first last : State} (Holds : State → Prop)
    (keeps : ∀ state item next, item ∈ items → Holds state → step state item = .ok next →
      Holds next)
    (initial : Holds first) (done : items.foldlM step first = .ok last) : Holds last := by
  induction items generalizing first with
  | nil => simp at done; exact done ▸ initial
  | cons item rest ih =>
    rw [List.foldlM_cons, bind_ok_iff] at done
    obtain ⟨next, stepped, finished⟩ := done
    exact ih (fun state other after member =>
      keeps state other after (List.mem_cons_of_mem item member))
      (keeps first item next List.mem_cons_self initial stepped) finished

/-- A fold completes if every step does from the states that its items lead to. -/
theorem foldlM_exists {step : State → Item → Except Failure State} {items : List Item}
    {first : State} (Holds : State → Prop)
    (each : ∀ state item, item ∈ items → Holds state →
      ∃ next, step state item = .ok next ∧ Holds next)
    (initial : Holds first) : ∃ last, items.foldlM step first = .ok last := by
  induction items generalizing first with
  | nil => exact ⟨first, rfl⟩
  | cons item rest ih =>
    obtain ⟨next, stepped, holds⟩ := each first item List.mem_cons_self initial
    obtain ⟨last, done⟩ :=
      ih (fun state other member => each state other (List.mem_cons_of_mem item member)) holds
    exact ⟨last, by rw [List.foldlM_cons, stepped]; exact done⟩

/-- A stopped loop ran some prefix and failed on the next item. -/
theorem foldlM_error {step : State → Item → Except Failure State} {items : List Item}
    {first : State} {failure : Failure} (stopped : items.foldlM step first = .error failure) :
    ∃ before item after state, items = before ++ item :: after ∧
      before.foldlM step first = .ok state ∧ step state item = .error failure := by
  induction items generalizing first with
  | nil => simp at stopped
  | cons item rest ih =>
    rw [List.foldlM_cons, bind_error_iff] at stopped
    rcases stopped with failed | ⟨next, stepped, later⟩
    · exact ⟨[], item, rest, first, rfl, rfl, failed⟩
    · obtain ⟨before, other, after, state, split, ran, failed⟩ := ih later
      refine ⟨item :: before, other, after, state, by simp [split], ?_, failed⟩
      simp [stepped, ran]

/-- A loop over a state that it mutates: a failing step ends it, what the steps
before did stays. -/
def foldInPlace (step : State → Item → Except Failure State) :
    List Item → State → Except Failure Unit × State
  | [], state => (.ok (), state)
  | item :: rest, state =>
    match step state item with
    | .ok next => foldInPlace step rest next
    | .error failure => (.error failure, state)

theorem foldInPlace_ok_iff {step : State → Item → Except Failure State} {items : List Item}
    {first last : State} :
    foldInPlace step items first = (.ok (), last) ↔ items.foldlM step first = .ok last := by
  induction items generalizing first with
  | nil => simp [foldInPlace]
  | cons item rest ih =>
    rw [foldInPlace, List.foldlM_cons]
    cases step first item with
    | ok next => exact ih
    | error failure => simp

theorem foldInPlace_error {step : State → Item → Except Failure State} {items : List Item}
    {first last : State} {failure : Failure}
    (stopped : foldInPlace step items first = (.error failure, last)) :
    ∃ before item after, items = before ++ item :: after ∧
      before.foldlM step first = .ok last ∧ step last item = .error failure := by
  induction items generalizing first with
  | nil => simp [foldInPlace] at stopped
  | cons item rest ih =>
    rw [foldInPlace] at stopped
    cases stepped : step first item with
    | ok next =>
      rw [stepped] at stopped
      obtain ⟨before, other, after, split, ran, failed⟩ := ih stopped
      refine ⟨item :: before, other, after, by rw [split, List.cons_append], ?_, failed⟩
      rw [List.foldlM_cons, stepped]
      exact ran
    | error other =>
      rw [stepped] at stopped
      cases stopped
      exact ⟨[], item, rest, rfl, rfl, stepped⟩

/-- A failure, if there is one, is of the given kind. -/
def FailsOnly {Value : Type} (fails : Failure → Prop) (outcome : Except Failure Value) : Prop :=
  ∀ failure, outcome = .error failure → fails failure

section FailsOnly

variable {Value Result Other : Type} {fails : Failure → Prop}

theorem failsOnly_ok {value : Value} :
    FailsOnly fails (.ok value) := fun _ impossible => nomatch impossible

theorem failsOnly_error {failure : Failure} (allowed : fails failure) :
    FailsOnly fails (.error failure : Except Failure Value) := by
  intro other same
  cases same
  exact allowed

theorem failsOnly_mapError {wrap : Other → Failure} {outcome : Except Other Value}
    (wrapped : ∀ failure, fails (wrap failure)) : FailsOnly fails (outcome.mapError wrap) := by
  cases outcome with
  | ok value => exact failsOnly_ok
  | error failure => exact failsOnly_error (wrapped failure)

theorem FailsOnly.bind {outcome : Except Failure Value} {next : Value → Except Failure Result}
    (first : FailsOnly fails outcome) (second : ∀ value, FailsOnly fails (next value)) :
    FailsOnly fails (outcome >>= next) := by
  cases outcome with
  | ok value => exact second value
  | error failure => exact failsOnly_error (first failure rfl)

/-- What runs after a success may use that it was one. -/
theorem FailsOnly.andThen {outcome : Except Failure Value} {next : Value → Except Failure Result}
    (first : FailsOnly fails outcome)
    (second : ∀ value, outcome = .ok value → FailsOnly fails (next value)) :
    FailsOnly fails (outcome >>= next) := by
  cases outcome with
  | ok value => exact second value rfl
  | error failure => exact failsOnly_error (first failure rfl)

theorem failsOnly_next {outcome : Except Failure Value} {next : Value → Except Failure Result}
    {value : Value} (done : outcome = .ok value) (later : FailsOnly fails (next value)) :
    FailsOnly fails (outcome >>= next) := by
  rw [done]
  exact later

theorem FailsOnly.map {outcome : Except Failure Value} (convert : Value → Result)
    (first : FailsOnly fails outcome) : FailsOnly fails (outcome.map convert) := by
  cases outcome with
  | ok value => exact failsOnly_ok
  | error failure => exact failsOnly_error (first failure rfl)

theorem failsOnly_foldlM {step : State → Item → Except Failure State} {items : List Item}
    {first : State} (steps : ∀ state item, FailsOnly fails (step state item)) :
    FailsOnly fails (items.foldlM step first) := by
  intro failure stopped
  obtain ⟨_, item, _, state, _, _, failed⟩ := foldlM_error stopped
  exact steps state item failure failed

end FailsOnly

/-- A loop whose steps commute depends on the items only, not on their order. -/
theorem foldlM_perm {step : State → Item → Except Failure State} {items others : List Item}
    (commutes : ∀ state one two, SameResult (step state one >>= fun next => step next two)
      (step state two >>= fun next => step next one))
    (permuted : items.Perm others) (start : State) :
    SameResult (items.foldlM step start) (others.foldlM step start) := by
  rw [sameResult_iff]
  intro last
  induction permuted generalizing start with
  | nil => exact Iff.rfl
  | cons item _ ih => simp only [List.foldlM_cons, bind_ok_iff, ih]
  | swap one two rest =>
    have swapped := fun middle => sameResult_iff.mp (commutes start two one) middle
    simp only [bind_ok_iff] at swapped
    simp only [List.foldlM_cons, bind_ok_iff]
    constructor
    · intro ran
      obtain ⟨first, firstDone, middle, secondDone, later⟩ := ran
      obtain ⟨other, otherDone, again⟩ := (swapped middle).mp ⟨first, firstDone, secondDone⟩
      exact ⟨other, otherDone, middle, again, later⟩
    · intro ran
      obtain ⟨first, firstDone, middle, secondDone, later⟩ := ran
      obtain ⟨other, otherDone, again⟩ := (swapped middle).mpr ⟨first, firstDone, secondDone⟩
      exact ⟨other, otherDone, middle, again, later⟩
  | trans _ _ firstIH secondIH => rw [firstIH, secondIH]

theorem forall₂_mem_left {Other : Type} {related : Item → Other → Prop} {items : List Item}
    {others : List Other} (both : List.Forall₂ related items others) {item : Item}
    (member : item ∈ items) :
    ∃ other ∈ others, related item other := by
  induction both with
  | nil => cases member
  | cons first rest ih =>
    rcases List.mem_cons.mp member with same | later
    · exact ⟨_, List.mem_cons_self, same ▸ first⟩
    · obtain ⟨other, listed, holds⟩ := ih later
      exact ⟨other, List.mem_cons_of_mem _ listed, holds⟩

theorem forall₂_mem_right {Other : Type} {related : Item → Other → Prop} {items : List Item}
    {others : List Other} (both : List.Forall₂ related items others) {other : Other}
    (member : other ∈ others) :
    ∃ item ∈ items, related item other :=
  forall₂_mem_left both.flip member

section Keyed

variable {Key Data Found : Type} (lookup : State → Key → Option Found)
  {step : State → Key × Data → Except Failure State} {items : List (Key × Data)}
  {first last : State}

/-- A loop whose steps each touch their own key leaves every other key alone. -/
theorem foldlM_other
    (frame : ∀ state entry next, step state entry = .ok next → ∀ other, other ≠ entry.1 →
      lookup next other = lookup state other)
    (done : items.foldlM step first = .ok last) {key : Key}
    (absent : ∀ entry ∈ items, key ≠ entry.1) :
    lookup last key = lookup first key := by
  apply foldlM_invariant (fun state => lookup state key = lookup first key) ?_ rfl done
  intro state entry next member same stepped
  rw [frame state entry next stepped key (absent entry member), same]

/-- A loop over distinct keys runs each entry from what its key held at the start
and keeps what that entry made of it. -/
theorem foldlM_entry
    (frame : ∀ state entry next, step state entry = .ok next →
      ∀ other, other ≠ entry.1 → lookup next other = lookup state other)
    (distinct : items.Pairwise fun left right => left.1 ≠ right.1)
    (done : items.foldlM step first = .ok last) {entry : Key × Data} (member : entry ∈ items) :
    ∃ state next, lookup state entry.1 = lookup first entry.1 ∧ step state entry = .ok next ∧
      lookup last entry.1 = lookup next entry.1 := by
  induction items generalizing first with
  | nil => cases member
  | cons head rest ih =>
    rw [List.foldlM_cons, bind_ok_iff] at done
    obtain ⟨next, stepped, finished⟩ := done
    obtain ⟨apart, restDistinct⟩ := List.pairwise_cons.mp distinct
    rcases List.mem_cons.mp member with same | later
    · subst same
      exact ⟨first, next, rfl, stepped, foldlM_other lookup frame finished apart⟩
    · obtain ⟨state, after, same, ran, kept⟩ := ih restDistinct finished later
      exact ⟨state, after,
        same.trans (frame first head next stepped entry.1 (apart entry later).symm),
        ran, kept⟩

end Keyed

theorem toOption_eq_some_iff {Failure Value : Type} {outcome : Except Failure Value}
    {value : Value} :
    outcome.toOption = some value ↔ outcome = .ok value := by
  cases outcome <;> simp [Except.toOption]

theorem foldl_concat {Item : Type} (items before : List Item) :
    items.foldl (fun gathered item => gathered ++ [item]) before = before ++ items := by
  induction items generalizing before with
  | nil => rw [List.foldl_nil, List.append_nil]
  | cons item rest ih => rw [List.foldl_cons, ih, List.append_assoc, List.singleton_append]

end PrivateContinuum.Library
