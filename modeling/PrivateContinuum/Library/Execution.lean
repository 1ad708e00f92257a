import PrivateContinuum.Library.Interaction

namespace PrivateContinuum.Library

variable {Op : Type} {Answer : Op → Type} {World Memory Failure Value Result Item : Type}

theorem Proc.serve_bind {serve : Service World Op Answer} {program : Proc Op Answer Value}
    {rest : Value → Proc Op Answer Result} {world : World} :
    (program.bind rest).serve serve world =
      (rest (program.serve serve world).1).serve serve (program.serve serve world).2 := by
  induction program generalizing world with
  | ret value => rfl
  | call op next ih => exact ih (serve world op).1

namespace Routine

/-- The routine, run from the world, ends with the outcome in the later world. -/
def Gives (serve : Service World Op Answer) (routine : Routine Op Answer Memory Failure Value)
    (memory : Memory) (world : World) (outcome : Except Failure Value) (after : World) : Prop :=
  (routine memory).serve serve world = ((outcome, memory), after)

variable {serve : Service World Op Answer} {memory : Memory} {world middle after : World}
  {routine : Routine Op Answer Memory Failure Value} {value : Value}
  {rest : Value → Routine Op Answer Memory Failure Result}

theorem gives_pure :
    Gives serve (pure value : Routine Op Answer Memory Failure Value) memory world (.ok value)
    world :=
  rfl

theorem gives_check {outcome : Except Failure Value} :
    Gives serve (check outcome) memory world outcome world :=
  rfl

theorem gives_ask {op : Op} {read : Answer op → Except Failure Value} {answer : Answer op}
    (told : (serve world op).1 = answer) :
    Gives serve (ask op read) memory world (read answer) (serve world op).2 := by
  subst told
  rfl

theorem Gives.bind {outcome : Except Failure Result}
    (first : Gives serve routine memory world (.ok value) middle)
    (second : Gives serve (rest value) memory middle outcome after) :
    Gives serve (routine >>= rest) memory world outcome after := by
  change ((routine memory).bind _).serve serve world = _
  rw [Proc.serve_bind, first]
  exact second

end Routine

theorem Proc.Traces.of_bind {program : Proc Op Answer Value}
    {rest : Value → Proc Op Answer Result} {events : List (Event Op Answer)} {result : Result}
    (traced : (program.bind rest).Traces events result) :
    ∃ value early late, events = early ++ late ∧ program.Traces early value ∧
    (rest value).Traces late result := by
  induction program generalizing events with
  | ret value => exact ⟨value, [], events, rfl, ⟨rfl, rfl⟩, traced⟩
  | call op next ih =>
    obtain ⟨answer, remaining, first, later⟩ := traced
    obtain ⟨value, early, late, split, begins, ends⟩ := ih answer later
    refine ⟨value, ⟨op, answer⟩ :: early, late, ?_, ⟨answer, early, rfl, begins⟩, ends⟩
    rw [first, split, List.cons_append]

theorem Proc.Traces.bind {program : Proc Op Answer Value} {rest : Value → Proc Op Answer Result}
    {early late : List (Event Op Answer)} {value : Value} {result : Result}
    (begins : program.Traces early value) (ends : (rest value).Traces late result) :
    (program.bind rest).Traces (early ++ late) result := by
  induction program generalizing early with
  | ret reached =>
    obtain ⟨none, same⟩ := begins
    subst none
    subst same
    exact ends
  | call op next ih =>
    obtain ⟨answer, remaining, first, later⟩ := begins
    subst first
    exact ⟨answer, remaining ++ late, List.cons_append, ih answer later⟩

/-- What was answered decides where a program ends. -/
theorem Proc.Traces.unique {program : Proc Op Answer Value}
    {first second firstRest secondRest : List (Event Op Answer)} {value other : Value}
    (one : program.Traces first value) (two : program.Traces second other)
    (same : first ++ firstRest = second ++ secondRest) : first = second ∧ value = other := by
  induction program generalizing first second with
  | ret reached => exact ⟨one.1.trans two.1.symm, one.2.trans two.2.symm⟩
  | call op next ih =>
    obtain ⟨answer, early, begun, ended⟩ := one
    obtain ⟨told, later, begun', ended'⟩ := two
    subst begun
    subst begun'
    rw [List.cons_append, List.cons_append, List.cons.injEq, Sigma.mk.injEq, heq_eq_eq] at same
    obtain ⟨⟨_, alike⟩, rest⟩ := same
    subst alike
    obtain ⟨events, values⟩ := ih answer ended ended' rest
    exact ⟨by rw [events], values⟩

/-- The calls of the run against surroundings that answer by a function, and its end. -/
def Proc.transcript (reply : (op : Op) → Answer op) :
    Proc Op Answer Value → List (Event Op Answer) × Value
  | .ret value => ([], value)
  | .call op next =>
    let later := (next (reply op)).transcript reply
    (⟨op, reply op⟩ :: later.1, later.2)

theorem Proc.transcript_traces (reply : (op : Op) → Answer op) (program : Proc Op Answer Value) :
    program.Traces (program.transcript reply).1 (program.transcript reply).2 := by
  induction program with
  | ret value => exact ⟨rfl, rfl⟩
  | call op next ih => exact ⟨reply op, _, rfl, ih (reply op)⟩

theorem Proc.transcript_told {reply : (op : Op) → Answer op} {program : Proc Op Answer Value}
    {event : Event Op Answer} (member : event ∈ (program.transcript reply).1) :
    event.2 = reply event.1 := by
  induction program with
  | ret value => simp [transcript] at member
  | call op next ih =>
    rcases List.mem_cons.mp member with here | later
    · rw [here]
    · exact ih (reply op) later

/-- A finished sequence failed in its first part or went through both. -/
theorem Routine.traces_bind {routine : Routine Op Answer Memory Failure Value}
    {rest : Value → Routine Op Answer Memory Failure Result} {memory : Memory}
    {events : List (Event Op Answer)} {ended : Except Failure Result × Memory}
    (traced : ((routine >>= rest) memory).Traces events ended) :
    (∃ failure stored, (routine memory).Traces events (.error failure, stored) ∧
      ended = (.error failure, stored)) ∨
      ∃ value stored early late, events = early ++ late ∧
        (routine memory).Traces early (.ok value, stored) ∧
        (rest value stored).Traces late ended := by
  obtain ⟨⟨outcome, stored⟩, early, late, split, begins, ends⟩ := Proc.Traces.of_bind traced
  cases outcome with
  | ok value => exact Or.inr ⟨value, stored, early, late, split, begins, ends⟩
  | error failure =>
    obtain ⟨none, same⟩ := ends
    subst none
    rw [List.append_nil] at split
    exact Or.inl ⟨failure, stored, split ▸ begins, same⟩

theorem Routine.traces_then {routine : Routine Op Answer Memory Failure Value}
    {rest : Value → Routine Op Answer Memory Failure Result} {memory stored : Memory}
    {value : Value} {early late : List (Event Op Answer)}
    {ended : Except Failure Result × Memory}
    (first : (routine memory).Traces early (.ok value, stored))
    (second : (rest value stored).Traces late ended) :
    ((routine >>= rest) memory).Traces (early ++ late) ended :=
  Proc.Traces.bind first second

theorem Routine.traces_stopped {routine : Routine Op Answer Memory Failure Value}
    {rest : Value → Routine Op Answer Memory Failure Result} {memory stored : Memory}
    {failure : Failure} {events : List (Event Op Answer)}
    (first : (routine memory).Traces events (.error failure, stored)) :
    ((routine >>= rest) memory).Traces events (.error failure, stored) := by
  have ended : ((routine >>= rest) memory).Traces (events ++ []) (.error failure, stored) :=
    Proc.Traces.bind first ⟨rfl, rfl⟩
  rw [List.append_nil] at ended
  exact ended

theorem Routine.traces_returned {routine : Routine Op Answer Memory Failure Value}
    {convert : Value → Result} {memory stored : Memory} {value : Value}
    {events : List (Event Op Answer)}
    (first : (routine memory).Traces events (.ok value, stored)) :
    ((routine >>= fun found => pure (convert found)) memory).Traces events
      (.ok (convert value), stored) := by
  have ended : ((routine >>= fun found => pure (convert found)) memory).Traces (events ++ [])
      (.ok (convert value), stored) := Proc.Traces.bind first ⟨rfl, rfl⟩
  rw [List.append_nil] at ended
  exact ended

theorem Routine.traces_load {rest : Memory → Routine Op Answer Memory Failure Result}
    {memory : Memory} {events : List (Event Op Answer)} {ended : Except Failure Result × Memory} :
    ((load >>= rest) memory).Traces events ended ↔ (rest memory memory).Traces events ended :=
  Iff.rfl

theorem Routine.traces_ask {op : Op} {read : Answer op → Except Failure Value} {memory : Memory}
    {events : List (Event Op Answer)} {ended : Except Failure Value × Memory}
    (traced : (ask op read memory).Traces events ended) :
    ∃ answer, events = [⟨op, answer⟩] ∧ ended = (read answer, memory) := by
  obtain ⟨answer, rest, first, none, same⟩ := traced
  exact ⟨answer, by rw [first, none], same⟩

theorem Routine.traces_mapError {Other : Type} {wrap : Failure → Other}
    {routine : Routine Op Answer Memory Failure Value} {memory : Memory}
    {events : List (Event Op Answer)} {ended : Except Other Value × Memory}
    (traced : (routine.mapError wrap memory).Traces events ended) :
    ∃ outcome stored, (routine memory).Traces events (outcome, stored) ∧
      ended = (outcome.mapError wrap, stored) := by
  obtain ⟨⟨outcome, stored⟩, early, late, split, begins, none, same⟩ := Proc.Traces.of_bind traced
  subst none
  rw [List.append_nil] at split
  exact ⟨outcome, stored, split ▸ begins, same⟩

theorem Routine.traces_askMapped {Other : Type} {wrap : Failure → Other} {op : Op}
    {read : Answer op → Except Failure Value} {memory : Memory} {events : List (Event Op Answer)}
    {ended : Except Other Value × Memory}
    (traced : ((ask op read).mapError wrap memory).Traces events ended) :
    ∃ answer, events = [⟨op, answer⟩] ∧ ended = ((read answer).mapError wrap, memory) := by
  obtain ⟨outcome, stored, asked, told⟩ := traces_mapError traced
  obtain ⟨answer, only, same⟩ := traces_ask asked
  cases same
  exact ⟨answer, only, told⟩

/-- The calls of a loop, bounded by what each round may make. -/
theorem Routine.traces_foldlM {State : Type}
    {step : State → Item → Routine Op Answer Memory Failure State}
    {counted : Event Op Answer → Bool} (cost : Item → Nat)
    (bounded : ∀ state item memory events ended, (step state item memory).Traces events ended →
      events.countP counted ≤ cost item)
    {items : List Item} {state : State} {memory : Memory} {events : List (Event Op Answer)}
    {ended : Except Failure State × Memory}
    (traced : (items.foldlM step state memory).Traces events ended) :
    events.countP counted ≤ (items.map cost).sum := by
  induction items generalizing state memory events with
  | nil =>
    obtain ⟨none, _⟩ := traced
    simp [none]
  | cons item rest ih =>
    rw [List.foldlM_cons] at traced
    rw [List.map_cons, List.sum_cons]
    rcases traces_bind traced with ⟨failure, stored, only, _⟩ | ⟨value, stored, early, late,
      split, first, later⟩
    · exact (bounded state item memory events _ only).trans (Nat.le_add_right _ _)
    · rw [split, List.countP_append]
      exact Nat.add_le_add (bounded state item memory early _ first) (ih later)

/-- The program makes only these calls and ends only so, whatever is answered. -/
def Proc.Confined (calls : Op → Prop) (ends : Value → Prop) : Proc Op Answer Value → Prop
  | .ret value => ends value
  | .call op next => calls op ∧ ∀ answer, (next answer).Confined calls ends

section Confinement

variable {calls : Op → Prop}

theorem Proc.Confined.bind {program : Proc Op Answer Value} {rest : Value → Proc Op Answer Result}
    {middle : Value → Prop} {ends : Result → Prop} (first : program.Confined calls middle)
    (second : ∀ value, middle value → (rest value).Confined calls ends) :
    (program.bind rest).Confined calls ends := by
  induction program with
  | ret value => exact second value first
  | call op next ih => exact ⟨first.1, fun answer => ih answer (first.2 answer)⟩

theorem Proc.Confined.traces {program : Proc Op Answer Value} {ends : Value → Prop}
    {events : List (Event Op Answer)} {value : Value} (confined : program.Confined calls ends)
    (traced : program.Traces events value) : (∀ event ∈ events, calls event.1) ∧ ends value := by
  induction program generalizing events with
  | ret reached =>
    obtain ⟨none, same⟩ := traced
    subst none
    subst same
    exact ⟨by simp, confined⟩
  | call op next ih =>
    obtain ⟨answer, rest, first, later⟩ := traced
    subst first
    obtain ⟨inside, ended⟩ := ih answer (confined.2 answer) later
    refine ⟨?_, ended⟩
    intro event member
    rcases List.mem_cons.mp member with here | there
    · exact here ▸ confined.1
    · exact inside event there

namespace Routine

/-- The routine makes only these calls and fails only so. -/
def Confined (calls : Op → Prop) (fails : Failure → Prop)
    (routine : Routine Op Answer Memory Failure Value) :
    Prop :=
  ∀ memory, (routine memory).Confined calls fun ended => ∀ failure, ended.1 = .error failure →
    fails failure

variable {fails : Failure → Prop} {routine : Routine Op Answer Memory Failure Value}

theorem Confined.bind {rest : Value → Routine Op Answer Memory Failure Result}
    (first : routine.Confined calls fails) (second : ∀ value, (rest value).Confined calls fails) :
    (routine >>= rest).Confined calls fails := by
  intro memory
  apply Proc.Confined.bind (first memory)
  intro ended allowed
  obtain ⟨outcome, stored⟩ := ended
  cases outcome with
  | ok value => exact second value stored
  | error failure =>
    intro other same
    cases same
    exact allowed failure rfl

theorem Confined.mapError {Other : Type} {wrap : Failure → Other} {others : Other → Prop}
    (confined : routine.Confined calls fails)
    (wrapped : ∀ failure, fails failure → others (wrap failure)) :
    (routine.mapError wrap).Confined calls others := by
  intro memory
  apply Proc.Confined.bind (confined memory)
  intro ended allowed other same
  obtain ⟨outcome, stored⟩ := ended
  cases outcome with
  | ok value => cases same
  | error failure =>
    cases same
    exact wrapped failure (allowed failure rfl)

theorem confined_ask {op : Op} {read : Answer op → Except Failure Value} (called : calls op)
    (failed : ∀ answer failure, read answer = .error failure → fails failure) :
    (ask op read : Routine Op Answer Memory Failure Value).Confined calls fails :=
  fun _ => ⟨called, fun answer failure same => failed answer failure same⟩

theorem confined_check {outcome : Except Failure Value} (failed : FailsOnly fails outcome) :
    (check outcome : Routine Op Answer Memory Failure Value).Confined calls fails :=
  fun _ => failed

theorem confined_pure {value : Value} :
    (pure value : Routine Op Answer Memory Failure Value).Confined calls fails :=
  fun _ _ impossible => nomatch impossible

theorem confined_load : (load : Routine Op Answer Memory Failure Memory).Confined calls fails :=
  fun _ _ impossible => nomatch impossible

theorem confined_store {memory : Memory} :
    (store memory : Routine Op Answer Memory Failure Unit).Confined calls fails :=
  fun _ _ impossible => nomatch impossible

end Routine

end Confinement

end PrivateContinuum.Library
