import PrivateContinuum.Sync.Network

namespace PrivateContinuum.Sync

open PrivateContinuum.Library

variable {Agent : Type}

abbrev Platform.counted : Platform := ⟨Nat, Unit, Unit, Unit⟩

/-- A cursor counts up to its revision. -/
def CursorCodec.counted : CursorCodec .counted :=
  ⟨fun (revision : Nat) => .ok ⟨List.replicate (revision + 1) 0, List.cons_ne_nil _ _⟩,
    fun cursor => .ok (cursor.1.length - 1 : Nat)⟩

namespace Network

/-- Everything after the known revision, or that it is not there. -/
def fetch (network : Network .counted Agent) (known : Option Nat) : FetchOutcome Nat :=
  if network.log.tip = known then .upToDate known
  else match network.log.tip, network.log.since known with
    | some head, some later => .changed head later.contents
    | head, _ => .baselineUnavailable head

theorem fetch_fetched (network : Network .counted Agent) (known : Option Nat) :
    network.Fetched known (network.fetch known) := by
  unfold fetch
  split
  · rename_i current
    exact ⟨rfl, current⟩
  · split
    · rename_i head later tip found
      obtain ⟨start, upto, whole⟩ := AppendLog.since_upto found
      exact ⟨tip, start, later, upto, ⟨whole ▸ List.prefix_refl _, whole ▸ tip⟩,
        fun object => Iff.rfl⟩
    · trivial

/-- A revision above all that were used. -/
def nextRevision (network : Network .counted Agent) : Nat := network.log.revisions.sum + 1

theorem nextRevision_fresh (network : Network .counted Agent) :
    network.nextRevision ∉ network.log.revisions := by
  intro used
  have bounded := List.single_le_sum (fun _ _ => Nat.zero_le _) network.nextRevision used
  simp [nextRevision] at bounded

variable [DecidableEq Agent]

def serve (agent : Agent) (network : Network .counted Agent) :
    (op : SessionOp .counted) → op.Answer × Network .counted Agent
  | .encodeCursor revision => (CursorCodec.counted.encode revision, network)
  | .decodeCursor cursor => (CursorCodec.counted.decode cursor, network)
  | .fetchSince known => (.ok (network.fetch known), network)
  | .publish expected objects =>
    if network.log.tip = expected then
      (.ok (.published network.nextRevision), { network with log :=
        network.log ++ [⟨network.nextRevision, objects⟩] })
    else (.ok (.conflict network.log.tip), network)
  | .persist record => (.ok (), network.acknowledges agent record)

theorem serve_answers (agent : Agent) (network : Network .counted Agent) (op : SessionOp .counted) :
    Answers .counted agent network op (network.serve agent op).1 (network.serve agent op).2 := by
  cases op with
  | encodeCursor revision => exact ⟨rfl, fun cursor told => told⟩
  | decodeCursor cursor => exact ⟨rfl, fun revision told => told⟩
  | fetchSince known =>
    refine ⟨rfl, fun outcome told => ?_⟩
    cases told
    exact network.fetch_fetched known
  | publish expected objects =>
    by_cases current : network.log.tip = expected
    · rw [serve, if_pos current]
      exact ⟨current, network.nextRevision_fresh, rfl⟩
    · rw [serve, if_neg current]
      rfl
  | persist record => rfl

end Network

end PrivateContinuum.Sync
