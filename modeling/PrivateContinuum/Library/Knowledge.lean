import Mathlib

/-! Replicas that share facts. What a replica knows only grows, and it may hide places
from the others; every fact that it knows was given to it, is hidden, is about to be
published, or was received. -/

namespace PrivateContinuum.Library

variable {Fact Place : Type}

structure Knowledge (Fact Place : Type) where
  knows : Set Fact
  hidden : Set Place

namespace Knowledge

variable {place : Fact → Place} {first second third : Knowledge Fact Place} {gained more : Set Fact}
  {released further : Set Place}

/-- Knowledge that only grows, by what is gained and by what stays hidden; what is no
longer hidden was released, and what is known in the open is not hidden again. -/
structure Moves (place : Fact → Place) (before after : Knowledge Fact Place) (gained : Set Fact)
    (released : Set Place) : Prop where
  grows : before.knows ⊆ after.knows
  gains : gained ⊆ after.knows
  origin : ∀ fact ∈ after.knows,
    fact ∈ before.knows ∨ place fact ∈ after.hidden ∨ fact ∈ gained ∨ place fact ∈ released
  keeps : before.hidden ⊆ after.hidden ∪ released
  stays : ∀ fact ∈ before.knows, place fact ∈ after.hidden → place fact ∈ before.hidden

/-- The facts are known, in places that are not hidden. -/
def Discloses (state : Knowledge Fact Place) (place : Fact → Place) (facts : Set Fact) : Prop :=
  ∀ fact ∈ facts, fact ∈ state.knows ∧ place fact ∉ state.hidden

theorem Discloses.union (one : first.Discloses place gained) (other : first.Discloses place more) :
    first.Discloses place (gained ∪ more) := by
  rintro fact (left | right)
  · exact one fact left
  · exact other fact right

theorem Discloses.mono (discloses : first.Discloses place more) (fewer : gained ⊆ more) :
    first.Discloses place gained :=
  fun fact member => discloses fact (fewer member)

theorem Moves.discloses {facts : Set Fact} (moves : Moves place first second gained released)
    (discloses : first.Discloses place facts) : second.Discloses place facts := by
  intro fact member
  obtain ⟨known, shown⟩ := discloses fact member
  exact ⟨moves.grows known, fun hides => shown (moves.stays fact known hides)⟩

theorem Moves.refl (state : Knowledge Fact Place) : Moves place state state ∅ ∅ where
  grows _ known := known
  gains _ impossible := impossible.elim
  origin _ known := Or.inl known
  keeps _ inside := Or.inl inside
  stays _ _ hides := hides

theorem Moves.trans (one : Moves place first second gained released)
    (two : Moves place second third more further) :
    Moves place first third (gained ∪ more) (released ∪ further) where
  grows := one.grows.trans two.grows
  gains := Set.union_subset (one.gains.trans two.grows) two.gains
  origin := by
    intro fact known
    rcases two.origin fact known with earlier | hides | gains | releases
    · rcases one.origin fact earlier with known | hid | gains | releases
      · exact Or.inl known
      · rcases two.keeps hid with hides | releases
        · exact Or.inr (Or.inl hides)
        · exact Or.inr (Or.inr (Or.inr (Or.inr releases)))
      · exact Or.inr (Or.inr (Or.inl (Or.inl gains)))
      · exact Or.inr (Or.inr (Or.inr (Or.inl releases)))
    · exact Or.inr (Or.inl hides)
    · exact Or.inr (Or.inr (Or.inl (Or.inr gains)))
    · exact Or.inr (Or.inr (Or.inr (Or.inr releases)))
  keeps := by
    intro position hid
    rcases one.keeps hid with still | releases
    · exact (two.keeps still).imp_right Or.inr
    · exact Or.inr (Or.inl releases)
  stays fact known hides := one.stays fact known (two.stays fact (one.grows known) hides)

/-- What was gained and released may be said in other words. -/
theorem Moves.weaken (moves : Moves place first second gained released) (same : gained = more)
    (wider : released ⊆ further) : Moves place first second more further where
  grows := moves.grows
  gains := same ▸ moves.gains
  origin fact known := (moves.origin fact known).imp_right fun rest => rest.imp_right fun either =>
    either.imp (fun gains => same ▸ gains) fun releases => wider releases
  keeps := moves.keeps.trans (Set.union_subset_union_right _ wider)
  stays := moves.stays

/-- Everything known is accounted for. -/
structure Covers (place : Fact → Place) (given pending received : Set Fact)
    (state : Knowledge Fact Place) : Prop where
  knowsGiven : given ⊆ state.knows
  knowsPending : pending ⊆ state.knows
  knowsReceived : received ⊆ state.knows
  origin : ∀ fact ∈ state.knows, fact ∈ given ∨ place fact ∈ state.hidden ∨
    fact ∈ pending ∨ fact ∈ received

variable {given pending received waiting arrived : Set Fact} {state next : Knowledge Fact Place}

theorem covers_start (hidden : Set Place) : Covers place given ∅ ∅ ⟨given, hidden⟩ where
  knowsGiven := Set.Subset.refl _
  knowsPending := Set.empty_subset _
  knowsReceived := Set.empty_subset _
  origin _ known := Or.inl known

/-- A move is accounted for if what is gained arrives, what is released is pending
afterwards, and what is no longer pending has arrived. -/
theorem Covers.move (covers : Covers place given pending received state)
    (moves : Moves place state next gained released) (arrives : arrived ⊆ received ∪ gained)
    (keeps : received ⊆ arrived) (gains : gained ⊆ arrived) (waits : waiting ⊆ state.knows)
    (settles : pending ⊆ waiting ∪ arrived)
    (releases : ∀ fact ∈ next.knows, place fact ∈ released → fact ∈ waiting) :
    Covers place given waiting arrived next where
  knowsGiven := covers.knowsGiven.trans moves.grows
  knowsPending := waits.trans moves.grows
  knowsReceived :=
    arrives.trans (Set.union_subset (covers.knowsReceived.trans moves.grows) moves.gains)
  origin := by
    intro fact known
    rcases moves.origin fact known with old | hides | gain | free
    · rcases covers.origin fact old with start | hid | still | had
      · exact Or.inl start
      · rcases moves.keeps hid with hides | free
        · exact Or.inr (Or.inl hides)
        · exact Or.inr (Or.inr (Or.inl (releases fact known free)))
      · exact Or.inr (Or.inr (settles still))
      · exact Or.inr (Or.inr (Or.inr (keeps had)))
    · exact Or.inr (Or.inl hides)
    · exact Or.inr (Or.inr (Or.inr (gains gain)))
    · exact Or.inr (Or.inr (Or.inl (releases fact known free)))

/-- Nothing changes but what is pending and what has arrived, all of it known. -/
theorem Covers.settle (covers : Covers place given pending received state)
    (waits : waiting ⊆ pending) (arrives : arrived ⊆ state.knows) (keeps : received ⊆ arrived)
    (settles : pending ⊆ waiting ∪ arrived) :
    Covers place given waiting arrived state where
  knowsGiven := covers.knowsGiven
  knowsPending := waits.trans covers.knowsPending
  knowsReceived := arrives
  origin := by
    intro fact known
    rcases covers.origin fact known with start | hides | still | had
    · exact Or.inl start
    · exact Or.inr (Or.inl hides)
    · exact Or.inr (Or.inr (settles still))
    · exact Or.inr (Or.inr (Or.inr (keeps had)))

/-- Replicas that were given and have received the same, and have nothing left to
publish, know the same. -/
theorem Covers.agree (one : Covers place given pending received state)
    (two : Covers place given waiting received next) (nothing : pending = ∅)
    (neither : waiting = ∅) (shown : state.hidden = ∅) (open_ : next.hidden = ∅) :
    state.knows = next.knows := by
  have exactly : ∀ {published : Set Fact} {knowledge : Knowledge Fact Place},
      Covers place given published received knowledge → published = ∅ → knowledge.hidden = ∅ →
        knowledge.knows = given ∪ received := by
    intro published knowledge covers done bare
    subst done
    apply Set.Subset.antisymm
    · intro fact known
      rcases covers.origin fact known with start | hides | impossible | had
      · exact Or.inl start
      · rw [bare] at hides
        exact hides.elim
      · exact impossible.elim
      · exact Or.inr had
    · exact Set.union_subset covers.knowsGiven covers.knowsReceived
  rw [exactly one nothing shown, exactly two neither open_]

end Knowledge

end PrivateContinuum.Library
