import PrivateContinuum.Library.Outcome

/-! Programs that call their surroundings, and what such a program guarantees
while others change the world between two of its calls. -/

namespace PrivateContinuum.Library

/-- A program that issues calls and goes on with whatever is answered. -/
inductive Proc (Op : Type) (Answer : Op → Type) (Value : Type) where
  | ret (value : Value)
  | call (op : Op) (next : Answer op → Proc Op Answer Value)

variable {Op : Type} {Answer : Op → Type} {World Memory Failure Value Result : Type}

def Proc.bind : Proc Op Answer Value → (Value → Proc Op Answer Result) → Proc Op Answer Result
  | .ret value, rest => rest value
  | .call op next, rest => .call op fun answer => (next answer).bind rest

/-- One call with its answer. -/
abbrev Event (Op : Type) (Answer : Op → Type) := (op : Op) × Answer op

/-- The calls of a finished run, each with its answer, and the value at its end. -/
def Proc.Traces : Proc Op Answer Value → List (Event Op Answer) → Value → Prop
  | .ret reached, events, value => events = [] ∧ value = reached
  | .call op next, events, value => ∃ answer rest, events = ⟨op, answer⟩ :: rest ∧
      (next answer).Traces rest value

/-- The run against surroundings that answer by a function. -/
def Proc.eval (reply : (op : Op) → Answer op) : Proc Op Answer Value → Value
  | .ret value => value
  | .call op next => (next (reply op)).eval reply

/-- A service answers one call at a time. -/
abbrev Service (World Op : Type) (Answer : Op → Type) := World → (op : Op) → Answer op × World

/-- The run against a service, and the world that it leaves. -/
def Proc.serve (reply : Service World Op Answer) : Proc Op Answer Value → World → Value × World
  | .ret value, world => (value, world)
  | .call op next, world => (next (reply world op).1).serve reply (reply world op).2

theorem Proc.eval_bind {reply : (op : Op) → Answer op} {program : Proc Op Answer Value}
    {rest : Value → Proc Op Answer Result} :
    (program.bind rest).eval reply = (rest (program.eval reply)).eval reply := by
  induction program with
  | ret value => rfl
  | call op next ih => exact ih (reply op)

/-- Where a program runs. A call must be permitted; every answer may change the
world, and so may the others before the call is made. -/
structure Surroundings (World Op : Type) (Answer : Op → Type) where
  Valid : World → Prop
  Rely : World → World → Prop
  Permits : World → Op → Prop
  Answers : World → (op : Op) → Answer op → World → Prop
  rely_refl : ∀ world, Rely world world
  rely_trans : ∀ {first second third}, Rely first second → Rely second third → Rely first third

namespace Surroundings

variable (around : Surroundings World Op Answer)

/-- Every call is permitted when it is made, and the result satisfies the
postcondition, however the others interfere. -/
def Safe (post : Value → World → Prop) : Proc Op Answer Value → World → Prop
  | .ret value, world => post value world
  | .call op next, world => ∀ now, around.Rely world now → around.Valid now →
      around.Permits now op ∧ ∀ answer after, around.Answers now op answer after →
        around.Valid after → Safe post (next answer) after

/-- What the others may do does not make the property false. -/
def Stable (holds : World → Prop) : Prop :=
  ∀ world now, around.Rely world now → around.Valid now → holds world → holds now

variable {around} {post : Value → World → Prop}

theorem Safe.later {program : Proc Op Answer Value} {world now : World}
    (stable : ∀ value, around.Stable (post value)) (safe : around.Safe post program world)
    (passed : around.Rely world now) (valid : around.Valid now) : around.Safe post program now := by
  cases program with
  | ret value => exact stable value world now passed valid safe
  | call op next => exact fun later further => safe later (around.rely_trans passed further)

theorem Safe.bind {program : Proc Op Answer Value} {rest : Value → Proc Op Answer Result}
    {middle : Value → World → Prop} {final : Result → World → Prop} {world : World}
    (valid : around.Valid world) (first : around.Safe middle program world)
    (second : ∀ value now, around.Valid now → middle value now →
      around.Safe final (rest value) now) :
    around.Safe final (program.bind rest) world := by
  induction program generalizing world with
  | ret value => exact second value world valid first
  | call op next ih =>
    intro now passed nowValid
    obtain ⟨permitted, answered⟩ := first now passed nowValid
    refine ⟨permitted, ?_⟩
    intro answer after told afterValid
    exact ih answer afterValid (answered answer after told afterValid)

theorem Safe.weaken {program : Proc Op Answer Value} {other : Value → World → Prop} {world : World}
    (valid : around.Valid world) (safe : around.Safe post program world)
    (implies : ∀ value now, around.Valid now → post value now → other value now) :
    around.Safe other program world := by
  induction program generalizing world with
  | ret value => exact implies value world valid safe
  | call op next ih =>
    intro now passed nowValid
    obtain ⟨permitted, answered⟩ := safe now passed nowValid
    refine ⟨permitted, ?_⟩
    intro answer after told afterValid
    exact ih answer afterValid (answered answer after told afterValid)

variable (around) in
/-- A run that nobody interferes with. -/
inductive Runs : Proc Op Answer Value → World → Value → World → Prop
  | ret (value : Value) (world : World) : Runs (.ret value) world value world
  | call {op : Op} {next : Answer op → Proc Op Answer Value} {answer : Answer op}
      {before after last : World} {value : Value} (told : around.Answers before op answer after)
      (rest : Runs (next answer) after value last) : Runs (.call op next) before value last

variable (around) in
/-- A world that answers as it may lets every program run to its end. -/
theorem runs_serve {reply : Service World Op Answer}
    (honest : ∀ world op, around.Answers world op (reply world op).1 (reply world op).2)
    (program : Proc Op Answer Value) (world : World) :
    around.Runs program world (program.serve reply world).1 (program.serve reply world).2 := by
  induction program generalizing world with
  | ret value => exact .ret value world
  | call op next ih => exact .call (honest world op) (ih (reply world op).1 (reply world op).2)

/-- What a safe program promises holds at the end of its undisturbed runs. -/
theorem Safe.runs {program : Proc Op Answer Value} {first last : World} {value : Value}
    (keeps : ∀ before op answer after, around.Valid before → around.Permits before op →
      around.Answers before op answer after → around.Valid after)
    (safe : around.Safe post program first) (valid : around.Valid first)
    (ran : around.Runs program first value last) : post value last := by
  induction ran with
  | ret value world => exact safe
  | @call op next answer before after last value told rest ih =>
    obtain ⟨permitted, answered⟩ := safe before (around.rely_refl before) valid
    have afterValid := keeps before op answer after valid permitted told
    exact ih (answered answer after told afterValid) afterValid

/-- What a safe program promises holds at the end of every trace, in the world that
the answers lead to. -/
theorem Safe.traces {program : Proc Op Answer Value} (update : World → Event Op Answer → World)
    {events : List (Event Op Answer)} {world : World} {value : Value}
    (valid : ∀ world, around.Valid world)
    (tracked : ∀ world op answer, around.Answers world op answer (update world ⟨op, answer⟩))
    (safe : around.Safe post program world) (traced : program.Traces events value) :
    post value (events.foldl update world) := by
  induction program generalizing events world with
  | ret reached =>
    obtain ⟨none, same⟩ := traced
    subst none
    subst same
    exact safe
  | call op next ih =>
    obtain ⟨answer, rest, first, later⟩ := traced
    subst first
    obtain ⟨_, answered⟩ := safe world (around.rely_refl world) (valid world)
    have further := answered answer (update world ⟨op, answer⟩) (tracked world op answer) (valid _)
    rw [List.foldl_cons]
    exact ih answer further later

end Surroundings

/-- A program over a memory. A failure keeps what was stored before it. -/
def Routine (Op : Type) (Answer : Op → Type) (Memory Failure Value : Type) :=
  Memory → Proc Op Answer (Except Failure Value × Memory)

namespace Routine

def andThen (first : Routine Op Answer Memory Failure Value)
    (rest : Value → Routine Op Answer Memory Failure Result) :
    Routine Op Answer Memory Failure Result :=
  fun memory => (first memory).bind fun outcome =>
    match outcome with
    | (.ok value, stored) => rest value stored
    | (.error failure, stored) => .ret (.error failure, stored)

instance : Monad (Routine Op Answer Memory Failure) where
  pure value := fun memory => .ret (.ok value, memory)
  bind := andThen

/-- Raises the failure of a pure check. -/
def check (outcome : Except Failure Value) : Routine Op Answer Memory Failure Value :=
  fun memory => .ret (outcome, memory)

def load : Routine Op Answer Memory Failure Memory := fun memory => .ret (.ok memory, memory)

def store (memory : Memory) :
    Routine Op Answer Memory Failure Unit := fun _ => .ret (.ok (), memory)

/-- Calls, and raises the failure that the answer is read as. -/
def ask (op : Op) (read : Answer op → Except Failure Value) :
    Routine Op Answer Memory Failure Value :=
  fun memory => .call op fun answer => .ret (read answer, memory)

/-- `map_err` -/
def mapError {Other : Type} (routine : Routine Op Answer Memory Failure Value)
    (wrap : Failure → Other) :
    Routine Op Answer Memory Other Value :=
  fun memory => (routine memory).bind fun outcome => .ret (outcome.1.mapError wrap, outcome.2)

end Routine

namespace Surroundings

/-- The routine is safe from the memory and the world, and leaves an outcome, a
memory and a world that satisfy the postcondition. -/
def Ensures (around : Surroundings World Op Answer)
    (routine : Routine Op Answer Memory Failure Value) (memory : Memory) (world : World)
    (post : Except Failure Value → Memory → World → Prop) : Prop :=
  around.Safe (fun outcome now => post outcome.1 outcome.2 now) (routine memory) world

variable {around : Surroundings World Op Answer} {memory : Memory} {world : World}
  {routine : Routine Op Answer Memory Failure Value}
  {post : Except Failure Value → Memory → World → Prop}

theorem Ensures.bind {rest : Value → Routine Op Answer Memory Failure Result}
    {final : Except Failure Result → Memory → World → Prop} (valid : around.Valid world)
    (first : around.Ensures routine memory world post)
    (second : ∀ value stored now, around.Valid now → post (.ok value) stored now →
      around.Ensures (rest value) stored now final)
    (failed : ∀ failure stored now, around.Valid now → post (.error failure) stored now →
      final (.error failure) stored now) :
    around.Ensures (routine >>= rest) memory world final := by
  apply Safe.bind valid first
  intro outcome now nowValid reached
  obtain ⟨result, stored⟩ := outcome
  cases result with
  | ok value => exact second value stored now nowValid reached
  | error failure => exact failed failure stored now nowValid reached

theorem Ensures.weaken {other : Except Failure Value → Memory → World → Prop}
    (valid : around.Valid world) (ensured : around.Ensures routine memory world post)
    (implies : ∀ outcome stored now, around.Valid now → post outcome stored now →
      other outcome stored now) :
    around.Ensures routine memory world other :=
  Safe.weaken valid ensured fun outcome now nowValid reached =>
    implies outcome.1 outcome.2 now nowValid reached

theorem ensures_pure {value : Value} (holds : post (.ok value) memory world) :
    around.Ensures (pure value : Routine Op Answer Memory Failure Value) memory world post :=
  holds

theorem ensures_check {outcome : Except Failure Value} (holds : post outcome memory world) :
    around.Ensures (Routine.check outcome) memory world post :=
  holds

theorem Ensures.mapError {Other : Type} {wrap : Failure → Other}
    {final : Except Other Value → Memory → World → Prop} (valid : around.Valid world)
    (ensured : around.Ensures routine memory world post)
    (implies : ∀ outcome stored now, around.Valid now → post outcome stored now →
      final (outcome.mapError wrap) stored now) :
    around.Ensures (routine.mapError wrap) memory world final := by
  apply Safe.bind valid ensured
  intro outcome now nowValid reached
  exact implies outcome.1 outcome.2 now nowValid reached

theorem ensures_ask {op : Op} {read : Answer op → Except Failure Value}
    (asked : ∀ now, around.Rely world now → around.Valid now → around.Permits now op ∧
      ∀ answer after, around.Answers now op answer after → around.Valid after →
        post (read answer) memory after) :
    around.Ensures (Routine.ask op read) memory world post :=
  asked

end Surroundings

end PrivateContinuum.Library
