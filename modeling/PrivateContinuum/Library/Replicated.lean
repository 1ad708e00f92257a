import Mathlib

namespace PrivateContinuum.Library

/-- The operations of a register; `none` is a failure. -/
structure Replicated (Register Id Value : Type) where
  start : Register
  assign : Register → Id → Value → Option Register
  merge : Register → Register → Option Register

/-- A replica assigns, or merges what another replica holds. -/
inductive ReplicaStep (Agent Id Value : Type) where
  | assign (agent : Agent) (id : Id) (value : Value)
  | merge (agent source : Agent)

/-- The replica that takes the step. -/
def ReplicaStep.agent {Agent Id Value : Type} : ReplicaStep Agent Id Value → Agent
  | .assign agent _ _ => agent
  | .merge agent _ => agent

namespace Replicated

variable {Agent Register Model Other Id Value : Type}

def attempt (system : Replicated Register Id Value) (registers : Agent → Register) :
    ReplicaStep Agent Id Value → Option Register
  | .assign agent id value => system.assign (registers agent) id value
  | .merge agent source => system.merge (registers agent) (registers source)

variable [DecidableEq Agent]

/-- The registers after the steps, and which steps succeeded. A failed step changes
nothing. -/
def run (system : Replicated Register Id Value) (registers : Agent → Register) :
    List (ReplicaStep Agent Id Value) → (Agent → Register) × List Bool
  | [] => (registers, [])
  | step :: rest => match system.attempt registers step with
    | none => ((system.run registers rest).1, false :: (system.run registers rest).2)
    | some next =>
      ((system.run (Function.update registers step.agent next) rest).1,
        true :: (system.run (Function.update registers step.agent next) rest).2)

/-- All replicas start alike. -/
def replay (system : Replicated Register Id Value) (steps : List (ReplicaStep Agent Id Value)) :
    (Agent → Register) × List Bool :=
  system.run (fun _ => system.start) steps

/-- The operations fail together, and lead related registers to related ones. -/
structure Simulates (low : Replicated Register Id Value) (high : Replicated Model Id Value)
    (Related : Register → Model → Prop) : Prop where
  start : Related low.start high.start
  assign : ∀ register model id value, Related register model →
    Option.Rel Related (low.assign register id value) (high.assign model id value)
  merge : ∀ register model source known, Related register model → Related source known →
    Option.Rel Related (low.merge register source) (high.merge model known)

variable {low : Replicated Register Id Value} {high : Replicated Model Id Value}
  {Related : Register → Model → Prop}

omit [DecidableEq Agent] in
theorem Simulates.attempt (simulates : low.Simulates high Related) {registers : Agent → Register}
    {models : Agent → Model} (related : ∀ agent, Related (registers agent) (models agent))
    (step : ReplicaStep Agent Id Value) :
    Option.Rel Related (low.attempt registers step) (high.attempt models step) := by
  cases step with
  | assign agent id value => exact simulates.assign _ _ id value (related agent)
  | merge agent source => exact simulates.merge _ _ _ _ (related agent) (related source)

theorem Simulates.run (simulates : low.Simulates high Related) {registers : Agent → Register}
    {models : Agent → Model} (related : ∀ agent, Related (registers agent) (models agent))
    (steps : List (ReplicaStep Agent Id Value)) :
    (low.run registers steps).2 = (high.run models steps).2 ∧
      ∀ agent, Related ((low.run registers steps).1 agent) ((high.run models steps).1 agent) := by
  induction steps generalizing registers models with
  | nil => exact ⟨rfl, related⟩
  | cons step rest ih =>
    have taken := simulates.attempt related step
    rw [Replicated.run, Replicated.run]
    generalize low.attempt registers step = one at taken ⊢
    generalize high.attempt models step = two at taken ⊢
    cases taken with
    | none =>
      obtain ⟨outcomes, ended⟩ := ih related
      exact ⟨congrArg (false :: ·) outcomes, ended⟩
    | some reached =>
      rename_i next model
      have kept : ∀ agent, Related (Function.update registers step.agent next agent)
          (Function.update models step.agent model agent) := by
        intro agent
        by_cases here : agent = step.agent
        · rw [here, Function.update_self, Function.update_self]
          exact reached
        · rw [Function.update_of_ne here, Function.update_of_ne here]
          exact related agent
      obtain ⟨outcomes, ended⟩ := ih kept
      exact ⟨congrArg (true :: ·) outcomes, ended⟩

theorem Simulates.replay (simulates : low.Simulates high Related)
    (steps : List (ReplicaStep Agent Id Value)) :
    (low.replay steps).2 = (high.replay steps).2 ∧
      ∀ agent, Related ((low.replay steps).1 agent) ((high.replay steps).1 agent) :=
  simulates.run (fun _ => simulates.start) steps

/-- The same register, with other names for its entries. -/
def named {Code : Type} (system : Replicated Register Code Value) (code : Id → Code) :
    Replicated Register Id Value :=
  ⟨system.start, fun register id value => system.assign register (code id) value, system.merge⟩

/-- An operation that succeeds exactly where the model does, and leads to related states. -/
theorem rel_toOption {Failure : Type} {attempted : Except Failure Register} {accepted : Prop}
    {_ : Decidable accepted} {model : Model}
    (accepts : (∃ next, attempted = .ok next) ↔ accepted)
    (leads : ∀ next, attempted = .ok next → Related next model) :
    Option.Rel Related attempted.toOption (if accepted then some model else none) := by
  cases attempted with
  | ok next =>
    rw [if_pos (accepts.mp ⟨next, rfl⟩)]
    exact .some (leads next rfl)
  | error failure =>
    rw [if_neg]
    · exact .none
    · intro holds
      obtain ⟨next, impossible⟩ := accepts.mpr holds
      cases impossible

theorem rel_comp {Above : Model → Other → Prop} {one : Option Register} {two : Option Model}
    {three : Option Other} (first : Option.Rel Related one two)
    (second : Option.Rel Above two three) : Option.Rel (Relation.Comp Related Above) one three := by
  cases first with
  | none =>
    cases second
    exact .none
  | some related => cases second with
    | some above => exact .some ⟨_, related, above⟩

theorem Simulates.trans {top : Replicated Other Id Value} {Above : Model → Other → Prop}
    (first : low.Simulates high Related) (second : high.Simulates top Above) :
    low.Simulates top (Relation.Comp Related Above) where
  start := ⟨high.start, first.start, second.start⟩
  assign := by
    rintro register other id value ⟨model, related, above⟩
    exact rel_comp (first.assign register model id value related)
      (second.assign model other id value above)
  merge := by
    rintro register other source further ⟨model, related, above⟩ ⟨known, alike, beyond⟩
    exact rel_comp (first.merge _ _ _ _ related alike) (second.merge _ _ _ _ above beyond)

end Replicated

end PrivateContinuum.Library
