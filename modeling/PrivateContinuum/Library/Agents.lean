import PrivateContinuum.Library.Interaction

/-! Agents that run programs over one world, call by call, and may crash between
any two of their calls. -/

namespace PrivateContinuum.Library

variable {Agent World Memory Task Op : Type} {Answer : Op → Type} {Value : Type}

/-- How an agent begins a task, is answered, finishes and comes back from a crash.
Each of these may change the world. -/
structure Agents (Agent World Memory Task Op : Type) (Answer : Op → Type) (Value : Type) where
  Begins : Agent → Memory → World → Task → Proc Op Answer Value → World → Prop
  Answers : Agent → World → (op : Op) → Answer op → World → Prop
  Finishes : Agent → Task → Value → World → Memory → World → Prop
  Crashes : Agent → World → Memory → World → Prop

inductive Phase (Memory Task Op : Type) (Answer : Op → Type) (Value : Type) where
  | idle (memory : Memory)
  | busy (task : Task) (program : Proc Op Answer Value)

structure Config (Agent World Memory Task Op : Type) (Answer : Op → Type) (Value : Type) where
  world : World
  phase : Agent → Phase Memory Task Op Answer Value

namespace Agents

inductive Step [DecidableEq Agent] (system : Agents Agent World Memory Task Op Answer Value)
    (config : Config Agent World Memory Task Op Answer Value) :
    Config Agent World Memory Task Op Answer Value → Prop
  | begin (agent : Agent) (memory : Memory) (task : Task) (program : Proc Op Answer Value)
      (after : World) (was : config.phase agent = .idle memory)
      (begins : system.Begins agent memory config.world task program after) :
      Step system config ⟨after, Function.update config.phase agent (.busy task program)⟩
  | call (agent : Agent) (task : Task) (op : Op) (next : Answer op →
      Proc Op Answer Value) (answer : Answer op)
      (after : World) (was : config.phase agent = .busy task (.call op next))
      (answers : system.Answers agent config.world op answer after) :
      Step system config ⟨after, Function.update config.phase agent (.busy task (next answer))⟩
  | finish (agent : Agent) (task : Task) (value : Value) (memory : Memory) (after : World)
      (was : config.phase agent = .busy task (.ret value))
      (finishes : system.Finishes agent task value config.world memory after) :
      Step system config ⟨after, Function.update config.phase agent (.idle memory)⟩
  | crash (agent : Agent) (memory : Memory) (after : World)
      (crashes : system.Crashes agent config.world memory after) :
      Step system config ⟨after, Function.update config.phase agent (.idle memory)⟩

def Reaches [DecidableEq Agent] (system : Agents Agent World Memory Task Op Answer Value) :
    Config Agent World Memory Task Op Answer Value →
    Config Agent World Memory Task Op Answer Value → Prop :=
  Relation.ReflTransGen system.Step

/-- An invariant of all agents: what holds of the world, of an idle agent and of an
agent at the end of a task, and what an agent relies on the others for. -/
structure Guard (system : Agents Agent World Memory Task Op Answer Value) where
  Valid : World → Prop
  Rely : Agent → World → World → Prop
  Permits : Agent → World → Op → Prop
  Idle : Agent → Memory → World → Prop
  Done : Agent → Task → Value → World → Prop
  rely_refl : ∀ agent world, Rely agent world world
  rely_trans : ∀ agent {first second third}, Rely agent first second → Rely agent second third →
    Rely agent first third

namespace Guard

variable {system : Agents Agent World Memory Task Op Answer Value} (guard : system.Guard)

/-- What one agent runs in. -/
def around (agent : Agent) : Surroundings World Op Answer where
  Valid := guard.Valid
  Rely := guard.Rely agent
  Permits := guard.Permits agent
  Answers := system.Answers agent
  rely_refl := guard.rely_refl agent
  rely_trans := guard.rely_trans agent

/-- The step of one agent is one that the others rely on. -/
def Yields (agent : Agent) (before after : World) : Prop :=
  ∀ other, other ≠ agent → guard.Rely other before after

/-- What each step must keep. -/
structure Sound : Prop where
  idle_stable : ∀ agent memory, (guard.around agent).Stable (guard.Idle agent memory)
  done_stable : ∀ agent task value, (guard.around agent).Stable (guard.Done agent task value)
  begins : ∀ agent memory world task program after, guard.Valid world →
    guard.Idle agent memory world →
    system.Begins agent memory world task program after → guard.Valid after ∧
      (guard.around agent).Safe (guard.Done agent task) program after ∧
      guard.Yields agent world after
  answers : ∀ agent world op answer after, guard.Valid world → guard.Permits agent world op →
    system.Answers agent world op answer after → guard.Valid after ∧ guard.Yields agent world after
  finishes : ∀ agent task value world memory after, guard.Valid world →
    guard.Done agent task value world →
    system.Finishes agent task value world memory after → guard.Valid after ∧
      guard.Idle agent memory after ∧ guard.Yields agent world after
  crashes : ∀ agent world memory after, guard.Valid world →
    ((∃ idle, guard.Idle agent idle world) ∨ (∃ op, guard.Permits agent world op) ∨
      ∃ task value, guard.Done agent task value world) →
    system.Crashes agent world memory after → guard.Valid after ∧
      guard.Idle agent memory after ∧ guard.Yields agent world after

/-- What holds of an agent in its phase. -/
def At (agent : Agent) (world : World) : Phase Memory Task Op Answer Value → Prop
  | .idle memory => guard.Idle agent memory world
  | .busy task program => (guard.around agent).Safe (guard.Done agent task) program world

def Holds (config : Config Agent World Memory Task Op Answer Value) : Prop :=
  guard.Valid config.world ∧ ∀ agent, guard.At agent config.world (config.phase agent)

variable {guard}

theorem Sound.at_later (sound : guard.Sound) {agent : Agent} {world now : World}
    {phase : Phase Memory Task Op Answer Value} (holds : guard.At agent world phase)
    (passed : guard.Rely agent world now) (valid : guard.Valid now) : guard.At agent now phase := by
  cases phase with
  | idle memory => exact sound.idle_stable agent memory world now passed valid holds
  | busy task program =>
    exact Surroundings.Safe.later (fun value => sound.done_stable agent task value)
      holds passed valid

/-- A crash finds the agent idle, before a call, or at the end of a task. -/
theorem crash_cases {agent : Agent} {world : World} {phase : Phase Memory Task Op Answer Value}
    (valid : guard.Valid world) (holds : guard.At agent world phase) :
    (∃ idle, guard.Idle agent idle world) ∨ (∃ op, guard.Permits agent world op) ∨
      ∃ task value, guard.Done agent task value world := by
  cases phase with
  | idle memory => exact Or.inl ⟨memory, holds⟩
  | busy task program =>
    cases program with
    | ret value => exact Or.inr (Or.inr ⟨task, value, holds⟩)
    | call op next =>
      exact Or.inr (Or.inl ⟨op, (holds world (guard.rely_refl agent world) valid).1⟩)

variable [DecidableEq Agent]

theorem Sound.holds_update (sound : guard.Sound)
    {config : Config Agent World Memory Task Op Answer Value} {agent : Agent} {after : World}
    {phase : Phase Memory Task Op Answer Value} (holds : guard.Holds config)
    (valid : guard.Valid after) (moved : guard.At agent after phase)
    (yields : guard.Yields agent config.world after) :
    guard.Holds ⟨after, Function.update config.phase agent phase⟩ := by
  refine ⟨valid, ?_⟩
  intro other
  by_cases same : other = agent
  · subst same
    simpa using moved
  · simp only [Function.update_of_ne same]
    exact sound.at_later (holds.2 other) (yields other same) valid

theorem Sound.step (sound : guard.Sound)
    {config next : Config Agent World Memory Task Op Answer Value} (holds : guard.Holds config)
    (step : system.Step config next) : guard.Holds next := by
  cases step with
  | begin agent memory task program after was begins =>
    have idle := holds.2 agent
    rw [was] at idle
    obtain ⟨valid, safe, yields⟩ :=
      sound.begins agent memory config.world task program after holds.1 idle begins
    exact sound.holds_update holds valid safe yields
  | call agent task op next answer after was answers =>
    have safe := holds.2 agent
    rw [was] at safe
    obtain ⟨permitted, further⟩ := safe config.world (guard.rely_refl agent config.world) holds.1
    obtain ⟨valid, yields⟩ :=
      sound.answers agent config.world op answer after holds.1 permitted answers
    exact sound.holds_update holds valid (further answer after answers valid) yields
  | finish agent task value memory after was finishes =>
    have done := holds.2 agent
    rw [was] at done
    obtain ⟨valid, idle, yields⟩ :=
      sound.finishes agent task value config.world memory after holds.1 done finishes
    exact sound.holds_update holds valid idle yields
  | crash agent memory after crashes =>
    obtain ⟨valid, idle, yields⟩ := sound.crashes agent config.world memory after holds.1
      (crash_cases holds.1 (holds.2 agent)) crashes
    exact sound.holds_update holds valid idle yields

/-- The invariant holds in every configuration that a run reaches. -/
theorem Sound.reaches (sound : guard.Sound)
    {start config : Config Agent World Memory Task Op Answer Value} (holds : guard.Holds start)
    (reached : system.Reaches start config) : guard.Holds config := by
  induction reached with
  | refl => exact holds
  | tail _ step ih => exact sound.step ih step

end Guard

variable [DecidableEq Agent] {system : Agents Agent World Memory Task Op Answer Value}
  {guard : system.Guard} {agent : Agent} {task : Task}

/-- An agent that nobody interrupts gets to the end of its program. -/
theorem reaches_ret {phase : Agent → Phase Memory Task Op Answer Value}
    {program : Proc Op Answer Value} {value : Value} {world last : World}
    (was : phase agent = .busy task program)
    (ran : (guard.around agent).Runs program world value last) :
    system.Reaches ⟨world, phase⟩ ⟨last,
      Function.update phase agent (.busy task (.ret value))⟩ := by
  induction ran generalizing phase with
  | ret value world =>
    rw [← was, Function.update_eq_self]
    exact Relation.ReflTransGen.refl
  | @call op next answer before after last value told rest ih =>
    have called : system.Step ⟨before, phase⟩ ⟨after,
        Function.update phase agent (.busy task (next answer))⟩ :=
      .call agent task op next answer after was told
    have further := ih (Function.update_self agent (Phase.busy task (next answer)) phase)
    rw [Function.update_idem] at further
    exact Relation.ReflTransGen.head called further

theorem reaches_task (guard : system.Guard)
    (config : Config Agent World Memory Task Op Answer Value) (agent : Agent) (task : Task)
    {memory next : Memory} {program : Proc Op Answer Value} {value : Value}
    {after last ended : World} (was : config.phase agent = .idle memory)
    (begins : system.Begins agent memory config.world task program after)
    (ran : (guard.around agent).Runs program after value last)
    (finishes : system.Finishes agent task value last next ended) :
    system.Reaches config ⟨ended, Function.update config.phase agent (.idle next)⟩ := by
  have begun :
      system.Step config ⟨after, Function.update config.phase agent (.busy task program)⟩ :=
    .begin agent memory task program after was begins
  have through :=
    reaches_ret (Function.update_self agent (Phase.busy task program) config.phase) ran
  rw [Function.update_idem] at through
  have finished :
      system.Step ⟨last, Function.update config.phase agent (.busy task (.ret value))⟩ _ :=
    .finish agent task value next ended
      (Function.update_self agent (Phase.busy task (.ret value)) config.phase) finishes
  rw [Function.update_idem] at finished
  exact Relation.ReflTransGen.head begun (through.tail finished)

end Agents

end PrivateContinuum.Library
