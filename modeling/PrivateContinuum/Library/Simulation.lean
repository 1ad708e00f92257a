import PrivateContinuum.Library.Interaction

namespace PrivateContinuum.Library

variable {Op : Type} {Answer : Op → Type} {Value Result : Type}

/-- The run against surroundings that answer by what has happened so far. -/
def Proc.run (surroundings : List (Event Op Answer) → (op : Op) → Answer op) :
    List (Event Op Answer) → Proc Op Answer Value → List (Event Op Answer) × Value
  | history, .ret value => (history, value)
  | history, .call op next =>
    (next (surroundings history op)).run surroundings (history ++ [⟨op, surroundings history op⟩])

/-- Which calls count as the same, and which answers are considered. -/
structure Likeness (Op : Type) (Answer : Op → Type) where
  Alike : Op → Op → Prop
  Accepts : (op : Op) → Answer op → Prop

namespace Likeness

variable (like : Likeness Op Answer)

def SameEvent (first second : Event Op Answer) : Prop :=
  like.Alike first.1 second.1 ∧ HEq first.2 second.2

/-- The second program makes the calls of the first one and ends in a related
value, unless the first one ends in an excused value. -/
def Follows (excused : Value → Prop) (related : Value → Result → Prop) :
    Proc Op Answer Value → Proc Op Answer Result → Prop
  | .ret value, second => excused value ∨ ∃ result, second = .ret result ∧ related value result
  | .call op next, second => ∃ other further, second = .call other further ∧ like.Alike op other ∧
      ∀ answer told, HEq answer told → like.Accepts op answer →
        Follows excused related (next answer) (further told)

/-- Calls that count as the same get the same answer, after histories that do. -/
def Insensitive (surroundings : List (Event Op Answer) → (op : Op) → Answer op) : Prop :=
  ∀ before after, List.Forall₂ like.SameEvent before after → ∀ op other, like.Alike op other →
    HEq (surroundings before op) (surroundings after other)

variable {like} {excused : Value → Prop} {related : Value → Result → Prop}

/-- Against the same surroundings, the two programs make the same calls and end in
related values. -/
theorem Follows.run {surroundings : List (Event Op Answer) → (op : Op) → Answer op}
    (insensitive : like.Insensitive surroundings)
    (accepted : ∀ history op, like.Accepts op (surroundings history op))
    {first : Proc Op Answer Value} {second : Proc Op Answer Result}
    {before after : List (Event Op Answer)} (same : List.Forall₂ like.SameEvent before after)
    (follows : like.Follows excused related first second)
    (counts : ¬ excused (first.run surroundings before).2) :
    List.Forall₂ like.SameEvent (first.run surroundings before).1
      (second.run surroundings after).1 ∧
      related (first.run surroundings before).2 (second.run surroundings after).2 := by
  induction first generalizing second before after with
  | ret value =>
    rcases follows with free | ⟨result, ends, holds⟩
    · exact absurd free counts
    · subst ends
      exact ⟨same, holds⟩
  | call op next ih =>
    obtain ⟨other, further, calls, alike, later⟩ := follows
    subst calls
    have told := insensitive before after same op other alike
    apply ih (surroundings before op) _ (later _ _ told (accepted before op)) counts
    exact List.rel_append same (List.Forall₂.cons ⟨alike, told⟩ List.Forall₂.nil)

theorem Follows.weaken {other : Value → Result → Prop} {first : Proc Op Answer Value}
    {second : Proc Op Answer Result} (follows : like.Follows excused related first second)
    (implies : ∀ value result, related value result → other value result) :
    like.Follows excused other first second := by
  induction first generalizing second with
  | ret value =>
    rcases follows with free | ⟨result, ends, holds⟩
    · exact Or.inl free
    · exact Or.inr ⟨result, ends, implies value result holds⟩
  | call op next ih =>
    obtain ⟨called, further, calls, alike, later⟩ := follows
    refine ⟨called, further, calls, alike, ?_⟩
    intro answer told same accepted
    exact ih answer (later answer told same accepted)

theorem Follows.mapFirst {Mapped : Type} {map : Value → Mapped} {excusedMapped : Mapped → Prop}
    {other : Mapped → Result → Prop} {first : Proc Op Answer Value} {second : Proc Op Answer Result}
    (follows : like.Follows excused related first second)
    (allows : ∀ value, excused value → excusedMapped (map value))
    (implies : ∀ value result, related value result → other (map value) result) :
    like.Follows excusedMapped other (first.bind fun value => .ret (map value)) second := by
  induction first generalizing second with
  | ret value =>
    rcases follows with free | ⟨result, ends, holds⟩
    · exact Or.inl (allows value free)
    · exact Or.inr ⟨result, ends, implies value result holds⟩
  | call op next ih =>
    obtain ⟨called, further, calls, alike, later⟩ := follows
    refine ⟨called, further, calls, alike, ?_⟩
    intro answer told same accepted
    exact ih answer (later answer told same accepted)

variable {Middle Reached : Type} {excusedFirst : Middle → Prop} {middle : Middle → Reached → Prop}

theorem Follows.bind {first : Proc Op Answer Middle} {second : Proc Op Answer Reached}
    {rest : Middle → Proc Op Answer Value} {further : Reached → Proc Op Answer Result}
    (begins : like.Follows excusedFirst middle first second)
    (ends : ∀ value result, middle value result →
      like.Follows excused related (rest value) (further result))
    (excuse : ∀ value, excusedFirst value → ∃ last, rest value = .ret last ∧ excused last) :
    like.Follows excused related (first.bind rest) (second.bind further) := by
  induction first generalizing second with
  | ret value =>
    rcases begins with free | ⟨result, same, holds⟩
    · obtain ⟨last, returns, allowed⟩ := excuse value free
      change like.Follows excused related (rest value) _
      rw [returns]
      exact Or.inl allowed
    · subst same
      exact ends value result holds
  | call op next ih =>
    obtain ⟨other, others, calls, alike, later⟩ := begins
    subst calls
    refine ⟨other, _, rfl, alike, ?_⟩
    intro answer told same accepted
    exact ih answer (later answer told same accepted)

end Likeness

section Routines

variable {Memory Store Failure Failing : Type}

/-- Two outcomes that both succeed or both fail, as said, with their memories. -/
def Agree (done : Value → Result → Memory → Store → Prop)
    (failed : Failure → Failing → Memory → Store → Prop) :
    Except Failure Value × Memory → Except Failing Result × Store → Prop
  | (.ok value, memory), (.ok result, store) => done value result memory store
  | (.error failure, memory), (.error failing, store) => failed failure failing memory store
  | _, _ => False

theorem Agree.ok_inv {done : Value → Result → Memory → Store → Prop}
    {failed : Failure → Failing → Memory → Store → Prop} {ended : Except Failure Value × Memory}
    {reached : Except Failing Result × Store} (agree : Agree done failed ended reached)
    {value : Value} {kept : Memory} (succeeded : ended = (.ok value, kept)) :
    ∃ result held, reached = (.ok result, held) ∧ done value result kept held := by
  subst succeeded
  obtain ⟨outcome, held⟩ := reached
  cases outcome with
  | ok result => exact ⟨result, held, rfl, agree⟩
  | error failing => exact agree.elim

theorem Agree.error_inv {done : Value → Result → Memory → Store → Prop}
    {failed : Failure → Failing → Memory → Store → Prop} {ended : Except Failure Value × Memory}
    {reached : Except Failing Result × Store}
    (agree : Agree done failed ended reached) {failure : Failure} {kept : Memory}
    (refused : ended = (.error failure, kept)) :
    ∃ failing held, reached = (.error failing, held) ∧ failed failure failing kept held := by
  subst refused
  obtain ⟨outcome, held⟩ := reached
  cases outcome with
  | ok result => exact agree.elim
  | error failing => exact ⟨failing, held, rfl, agree⟩

/-- A failure of the first routine excuses the second one where this is allowed. -/
def Excused (lenient : Prop) (ended : Except Failure Value × Memory) : Prop :=
  lenient ∧ ∃ failure, ended.1 = .error failure

namespace Likeness

variable {like : Likeness Op Answer} {lenient : Prop}
  {done : Value → Result → Memory → Store → Prop}
  {failed : Failure → Failing → Memory → Store → Prop} {memory : Memory} {store : Store}

variable (like lenient) in
/-- The second routine follows the first one, from their own memories. -/
def Matches (done : Value → Result → Memory → Store → Prop)
    (failed : Failure → Failing → Memory → Store → Prop)
    (first : Routine Op Answer Memory Failure Value)
    (second : Routine Op Answer Store Failing Result) (memory : Memory) (store : Store) : Prop :=
  like.Follows (Excused lenient) (Agree done failed) (first memory) (second store)

theorem matches_pure {value : Value} {result : Result} (holds : done value result memory store) :
    like.Matches lenient done failed (pure value) (pure result) memory store :=
  Or.inr ⟨_, rfl, holds⟩

theorem matches_check {first : Except Failure Value} {second : Except Failing Result}
    (both : ∀ value, first = .ok value → ∃ result, second = .ok result ∧
      done value result memory store)
    (neither : ¬ lenient → ∀ failure, first = .error failure → ∃ failing, second = .error failing ∧
      failed failure failing memory store) :
    like.Matches lenient done failed (Routine.check first) (Routine.check second) memory store := by
  cases outcome : first with
  | ok value =>
    obtain ⟨result, same, holds⟩ := both value outcome
    subst same
    exact Or.inr ⟨_, rfl, holds⟩
  | error failure =>
    by_cases free : lenient
    · exact Or.inl ⟨free, failure, rfl⟩
    · obtain ⟨failing, same, holds⟩ := neither free failure outcome
      subst same
      exact Or.inr ⟨_, rfl, holds⟩

theorem Matches.bind {Middle Reached : Type} {middle : Middle → Reached → Memory → Store → Prop}
    {first : Routine Op Answer Memory Failure Middle}
    {second : Routine Op Answer Store Failing Reached}
    {rest : Middle → Routine Op Answer Memory Failure Value}
    {further : Reached → Routine Op Answer Store Failing Result}
    (begins : like.Matches lenient middle failed first second memory store)
    (ends : ∀ value result kept held, middle value result kept held →
      like.Matches lenient done failed (rest value) (further result) kept held) :
    like.Matches lenient done failed (first >>= rest) (second >>= further) memory store := by
  apply Follows.bind begins
  · intro ended reached agree
    obtain ⟨outcome, kept⟩ := ended
    obtain ⟨answer, held⟩ := reached
    cases outcome with
    | ok value =>
      cases answer with
      | ok result => exact ends value result kept held agree
      | error failing => exact agree.elim
    | error failure =>
      cases answer with
      | ok result => exact agree.elim
      | error failing => exact Or.inr ⟨_, rfl, agree⟩
  · intro ended free
    obtain ⟨allowed, failure, same⟩ := free
    obtain ⟨outcome, kept⟩ := ended
    subst same
    exact ⟨(.error failure, kept), rfl, allowed, failure, rfl⟩

theorem Matches.mapError {Wrapped Wrapping : Type} {wrap : Failure → Wrapped}
    {wrapping : Failing → Wrapping} {final : Wrapped → Wrapping → Memory → Store → Prop}
    {first : Routine Op Answer Memory Failure Value}
    {second : Routine Op Answer Store Failing Result}
    (begins : like.Matches lenient done failed first second memory store)
    (wrapped : ∀ failure failing kept held, failed failure failing kept held →
      final (wrap failure) (wrapping failing) kept held) :
    like.Matches lenient done final (first.mapError wrap)
      (second.mapError wrapping) memory store := by
  apply Follows.bind begins
  · intro ended reached agree
    obtain ⟨outcome, kept⟩ := ended
    obtain ⟨answer, held⟩ := reached
    cases outcome with
    | ok value =>
      cases answer with
      | ok result => exact Or.inr ⟨_, rfl, agree⟩
      | error failing => exact agree.elim
    | error failure =>
      cases answer with
      | ok result => exact agree.elim
      | error failing => exact Or.inr ⟨_, rfl, wrapped failure failing kept held agree⟩
  · intro ended free
    obtain ⟨allowed, failure, same⟩ := free
    obtain ⟨outcome, kept⟩ := ended
    subst same
    exact ⟨(.error (wrap failure), kept), rfl, allowed, wrap failure, rfl⟩

theorem Matches.weaken {final : Value → Result → Memory → Store → Prop}
    {last : Failure → Failing → Memory → Store → Prop}
    {first : Routine Op Answer Memory Failure Value}
    {second : Routine Op Answer Store Failing Result}
    (begins : like.Matches lenient done failed first second memory store)
    (succeeded : ∀ value result kept held, done value result kept held →
      final value result kept held)
    (wrong : ∀ failure failing kept held, failed failure failing kept held →
      last failure failing kept held) :
    like.Matches lenient final last first second memory store := by
  apply Follows.weaken begins
  intro ended reached agree
  obtain ⟨outcome, kept⟩ := ended
  obtain ⟨answer, held⟩ := reached
  cases outcome with
  | ok value =>
    cases answer with
    | ok result => exact succeeded value result kept held agree
    | error failing => exact agree.elim
  | error failure =>
    cases answer with
    | ok result => exact agree.elim
    | error failing => exact wrong failure failing kept held agree

/-- Against the same surroundings, matching routines end as they agree. -/
theorem Matches.run {first : Routine Op Answer Memory Failure Value}
    {second : Routine Op Answer Store Failing Result}
    {surroundings : List (Event Op Answer) → (op : Op) → Answer op}
    (begins : like.Matches lenient done failed first second memory store)
    (insensitive : like.Insensitive surroundings)
    (accepted : ∀ history op, like.Accepts op (surroundings history op))
    (counts : lenient → ∃ value kept, ((first memory).run surroundings []).2 = (.ok value, kept)) :
    List.Forall₂ like.SameEvent ((first memory).run surroundings []).1
      ((second store).run surroundings []).1 ∧
      Agree done failed ((first memory).run surroundings []).2
        ((second store).run surroundings []).2 := by
  apply Follows.run insensitive accepted List.Forall₂.nil begins
  rintro ⟨free, failure, refused⟩
  obtain ⟨value, kept, ended⟩ := counts free
  rw [ended] at refused
  cases refused

theorem Matches.mapErrorFirst {Wrapped : Type} {wrap : Failure → Wrapped}
    {final : Wrapped → Failing → Memory → Store → Prop}
    {first : Routine Op Answer Memory Failure Value}
    {second : Routine Op Answer Store Failing Result}
    (begins : like.Matches lenient done failed first second memory store)
    (wrapped : ∀ failure failing kept held, failed failure failing kept held →
      final (wrap failure) failing kept held) :
    like.Matches lenient done final (first.mapError wrap) second memory store := by
  apply Follows.mapFirst begins
  · rintro ⟨outcome, kept⟩ ⟨allowed, failure, rfl⟩
    exact ⟨allowed, wrap failure, rfl⟩
  · rintro ⟨outcome, kept⟩ ⟨answer, held⟩ agree
    cases outcome with
    | ok value =>
      cases answer with
      | ok result => exact agree
      | error failing => exact agree.elim
    | error failure =>
      cases answer with
      | ok result => exact agree.elim
      | error failing => exact wrapped failure failing kept held agree

theorem Matches.mapFirst {Mapped : Type} {map : Value → Mapped}
    {final : Mapped → Result → Memory → Store → Prop}
    {first : Routine Op Answer Memory Failure Value}
    {second : Routine Op Answer Store Failing Result}
    (begins : like.Matches lenient done failed first second memory store)
    (mapped : ∀ value result kept held, done value result kept held →
      final (map value) result kept held) :
    like.Matches lenient final failed (first >>= fun value =>
      pure (map value)) second memory store := by
  have shape :
      ((first >>= fun value => pure (map value)) : Routine Op Answer Memory Failure Mapped) memory =
      (first memory).bind fun ended => .ret (ended.1.map map, ended.2) := by
    change (first memory).bind _ = _
    congr 1
    funext ended
    obtain ⟨outcome, kept⟩ := ended
    cases outcome with
    | ok value => rfl
    | error failure => rfl
  rw [Matches, shape]
  apply Follows.mapFirst begins
  · rintro ⟨outcome, kept⟩ ⟨allowed, failure, rfl⟩
    exact ⟨allowed, failure, rfl⟩
  · rintro ⟨outcome, kept⟩ ⟨answer, held⟩ agree
    cases outcome with
    | ok value =>
      cases answer with
      | ok result => exact mapped value result kept held agree
      | error failing => exact agree.elim
    | error failure =>
      cases answer with
      | ok result => exact agree.elim
      | error failing => exact agree

/-- Calls that count as the same, read in the same way. -/
theorem matches_ask {op other : Op} {read : Answer op → Except Failure Value}
    {reading : Answer other → Except Failing Result} (alike : like.Alike op other)
    (told : ∀ answer answered, HEq answer answered → like.Accepts op answer →
      Agree done failed (read answer, memory) (reading answered, store)) :
    like.Matches lenient done failed (Routine.ask op read)
      (Routine.ask other reading) memory store := by
  refine ⟨other, _, rfl, alike, ?_⟩
  intro answer answered same accepted
  exact Or.inr ⟨_, rfl, told answer answered same accepted⟩

end Likeness

end Routines

end PrivateContinuum.Library
