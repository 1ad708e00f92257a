import PrivateContinuum.Library.Formats

/-! Computations that may panic and that reserve memory, next to the ones that only
fail. -/

namespace PrivateContinuum.Library

/-- `isize::MAX`, what one allocation may take. -/
def allocationLimit : Nat := 2 ^ 63 - 1

inductive Stop (Failure : Type) where
  | failed (failure : Failure)
  | panicked

/-- Elements reserved at once, and the bytes of the input not yet read. -/
structure Reservation where
  elements : Nat
  remaining : Nat

/-- The reservations of a computation, and how it ended. -/
structure Attempt (Failure Value : Type) where
  reserved : List Reservation
  ended : Except (Stop Failure) Value

section Attempts

variable {Failure Value Result : Type}

namespace Attempt

/-- The reservations go on until the computation stops. -/
def andThen (first : Attempt Failure Value) (next : Value → Attempt Failure Result) :
    Attempt Failure Result :=
  match first.ended with
  | .ok value => ⟨first.reserved ++ (next value).reserved, (next value).ended⟩
  | .error stop => ⟨first.reserved, .error stop⟩

instance : Monad (Attempt Failure) where
  pure value := ⟨[], .ok value⟩
  bind := andThen

def panic : Attempt Failure Value := ⟨[], .error .panicked⟩

/-- A computation that fails but never panics. -/
def ofExcept : Except Failure Value → Attempt Failure Value
  | .ok value => ⟨[], .ok value⟩
  | .error failure => ⟨[], .error (.failed failure)⟩

def fail (failure : Failure) : Attempt Failure Value := ofExcept (.error failure)

def panics (attempt : Attempt Failure Value) : Bool :=
  match attempt.ended with
  | .error .panicked => true
  | _ => false

/-- It returns, and never reserves more elements than the input has bytes left. -/
structure Clean (attempt : Attempt Failure Value) : Prop where
  returns : attempt.ended ≠ .error .panicked
  covered : ∀ reservation ∈ attempt.reserved, reservation.elements ≤ reservation.remaining

/-- It ends as the other computation does, unless it panics. -/
def Follows (attempt : Attempt Failure Value) (outcome : Except Failure Value) : Prop :=
  attempt.ended = .error .panicked ∨ attempt.ended = (ofExcept outcome).ended

variable {first : Attempt Failure Value} {next : Value → Attempt Failure Result}
  {outcome : Except Failure Value} {after : Value → Except Failure Result}

theorem panics_eq_false (clean : first.Clean) : first.panics = false := by
  rw [panics]
  split
  · rename_i panicked
    exact absurd panicked clean.returns
  · rfl

theorem clean_pure (value : Value) : (pure value : Attempt Failure Value).Clean where
  returns := by
    intro impossible
    cases impossible
  covered := by
    intro reservation member
    cases member

theorem clean_ofExcept (outcome : Except Failure Value) : (ofExcept outcome).Clean := by
  cases outcome with
  | ok value => exact clean_pure value
  | error failure =>
    constructor
    · intro impossible
      cases impossible
    · intro reservation member
      cases member

theorem follows_ofExcept (outcome : Except Failure Value) :
    (ofExcept outcome).Follows outcome := Or.inr rfl

theorem Clean.follows (clean : first.Clean) (follows : first.Follows outcome) :
    first.ended = (ofExcept outcome).ended :=
  follows.resolve_left clean.returns

/-- A sequence is clean if its first part is and whatever it goes on with. -/
theorem clean_bind_iff (follows : first.Follows outcome) :
    (first >>= next).Clean ↔ first.Clean ∧ ∀ value, outcome = .ok value → (next value).Clean := by
  change (first.andThen next).Clean ↔ _
  cases ended : first.ended with
  | error stop =>
    have same : first.andThen next = ⟨first.reserved, .error stop⟩ := by rw [andThen, ended]
    rw [same]
    constructor
    · intro clean
      have returns : stop ≠ .panicked :=
        fun panicked => clean.returns (congrArg Except.error panicked)
      refine ⟨⟨?_, clean.covered⟩, ?_⟩
      · rw [ended]
        intro panicked
        cases panicked
        exact returns rfl
      · intro value done
        rcases follows with panicked | alike
        · rw [ended] at panicked
          cases panicked
          exact absurd rfl returns
        · rw [ended, done] at alike
          cases alike
    · rintro ⟨clean, _⟩
      refine ⟨?_, clean.covered⟩
      intro panicked
      exact clean.returns (ended.trans (by cases panicked; rfl))
  | ok value =>
    have same : first.andThen next = ⟨first.reserved ++ (next value).reserved,
        (next value).ended⟩ := by
      rw [andThen, ended]
    have done : outcome = .ok value := by
      rcases follows with panicked | alike
      · rw [ended] at panicked
        cases panicked
      · rw [ended] at alike
        cases outcome with
        | ok found =>
          cases alike
          rfl
        | error failure => cases alike
    rw [same, done]
    constructor
    · intro clean
      refine ⟨⟨?_, fun reservation member => clean.covered _ (List.mem_append_left _ member)⟩, ?_⟩
      · rw [ended]
        intro impossible
        cases impossible
      · intro found here
        cases here
        exact ⟨clean.returns,
          fun reservation member => clean.covered _ (List.mem_append_right _ member)⟩
    · rintro ⟨clean, later⟩
      refine ⟨(later value rfl).returns, ?_⟩
      intro reservation member
      rcases List.mem_append.mp member with early | late
      · exact clean.covered reservation early
      · exact (later value rfl).covered reservation late

theorem clean_map_iff {map : Value → Result} :
    (first >>= fun value => pure (map value)).Clean ↔ first.Clean := by
  change (first.andThen _).Clean ↔ _
  cases ended : first.ended with
  | error stop =>
    have same : (first.andThen fun value => pure (map value) : Attempt Failure Result) =
        ⟨first.reserved, .error stop⟩ := by rw [andThen, ended]
    rw [same]
    constructor
    · intro clean
      refine ⟨?_, clean.covered⟩
      intro panicked
      rw [ended] at panicked
      cases panicked
      exact clean.returns rfl
    · intro clean
      refine ⟨?_, clean.covered⟩
      intro panicked
      cases panicked
      exact clean.returns ended
  | ok value =>
    have same : (first.andThen fun value => pure (map value) : Attempt Failure Result) =
        ⟨first.reserved ++ [], .ok (map value)⟩ := by rw [andThen, ended]; rfl
    rw [same, List.append_nil]
    constructor
    · intro clean
      refine ⟨?_, clean.covered⟩
      rw [ended]
      intro impossible
      cases impossible
    · intro clean
      refine ⟨?_, clean.covered⟩
      intro impossible
      cases impossible

theorem pure_bind (value : Value) (next : Value → Attempt Failure Result) :
    (pure value >>= next) = next value := by
  change (⟨[] ++ (next value).reserved, (next value).ended⟩ : Attempt Failure Result) = next value
  rw [List.nil_append]

theorem ended_bind_ok_iff {result : Result} : (first >>= next).ended = .ok result ↔
    ∃ value, first.ended = .ok value ∧ (next value).ended = .ok result := by
  change (first.andThen next).ended = _ ↔ _
  rw [andThen]
  cases first.ended with
  | error stop =>
    constructor
    · intro done
      cases done
    · rintro ⟨value, impossible, _⟩
      cases impossible
  | ok value =>
    constructor
    · intro done
      exact ⟨value, rfl, done⟩
    · rintro ⟨found, same, done⟩
      cases same
      exact done

theorem ended_ofExcept_ok_iff {value : Value} :
    (ofExcept outcome).ended = .ok value ↔ outcome = .ok value := by
  cases outcome with
  | ok found =>
    change (Except.ok found : Except (Stop Failure) Value) = _ ↔ _
    rw [Except.ok.injEq, Except.ok.injEq]
  | error failure =>
    constructor
    · intro done
      cases done
    · intro done
      cases done

theorem Follows.bind (follows : first.Follows outcome)
    (continues : ∀ value, outcome = .ok value → (next value).Follows (after value)) :
    (first >>= next).Follows (outcome >>= after) := by
  change (first.andThen next).Follows _
  rcases follows with panicked | alike
  · refine Or.inl ?_
    rw [andThen, panicked]
  · cases outcome with
    | error failure =>
      refine Or.inr ?_
      have ended : first.ended = .error (.failed failure) := alike
      rw [andThen, ended]
      rfl
    | ok value =>
      have ended : first.ended = .ok value := alike
      have same : first.andThen next = ⟨first.reserved ++ (next value).reserved,
          (next value).ended⟩ := by
        rw [andThen, ended]
      rw [same]
      exact continues value rfl

end Attempt

/-- `bytes[start..stop]` -/
def sliceRange (bytes : Bytes) (start stop : Nat) : Attempt Failure Bytes :=
  if start ≤ stop ∧ stop ≤ bytes.length then pure (slice bytes start (stop - start)) else .panic

/-- `bytes[index]` -/
def indexAt (bytes : Bytes) (index : Nat) : Attempt Failure UInt8 :=
  match bytes[index]? with
  | some byte => pure byte
  | none => .panic

/-- `try_into().expect(..)` into an array -/
def expectArray (width : Nat) (bytes : Bytes) :
    Attempt Failure { chunk : Bytes // chunk.length = width } :=
  if filled : bytes.length = width then pure ⟨bytes, filled⟩ else .panic

/-- Addition and subtraction of sizes -/
def addSizes (left right : Nat) : Attempt Failure Nat :=
  if left + right < sizeLimit then pure (left + right) else .panic

def subtractSizes (left right : Nat) : Attempt Failure Nat :=
  if right ≤ left then pure (left - right) else .panic

theorem sliceRange_eq {bytes : Bytes} {start stop : Nat} (ordered : start ≤ stop)
    (inside : stop ≤ bytes.length) :
    (sliceRange bytes start stop : Attempt Failure Bytes) =
      pure (slice bytes start (stop - start)) :=
  if_pos ⟨ordered, inside⟩

theorem expectArray_eq {width : Nat} {bytes : Bytes} (filled : bytes.length = width) :
    (expectArray width bytes : Attempt Failure _) = pure ⟨bytes, filled⟩ :=
  dif_pos filled

theorem addSizes_eq {left right : Nat} (fits : left + right < sizeLimit) :
    (addSizes left right : Attempt Failure Nat) = pure (left + right) :=
  if_pos fits

theorem indexAt_eq {bytes : Bytes} {index : Nat} (inside : index < bytes.length) :
    (indexAt bytes index : Attempt Failure UInt8) = pure bytes[index] := by
  rw [indexAt, List.getElem?_eq_getElem inside]

end Attempts

/-- Reads at the current position, reserves memory and may panic. -/
abbrev Guarded (Failure Value : Type) := StateT Reader (Attempt Failure) Value

/-- The position is inside the input. -/
def Reader.InRange (reader : Reader) : Prop :=
  reader.position ≤ reader.bytes.length ∧ reader.bytes.length < sizeLimit

def Reader.left (reader : Reader) : Nat := reader.bytes.length - reader.position

namespace Guarded

section Reading

variable {Failure Value Result : Type}

/-- A reader that checks every access. -/
def ofParser (parser : Parser Failure Value) :
    Guarded Failure Value := fun reader => .ofExcept (parser reader)

/-- A computation that reads nothing. -/
def ofAttempt (attempt : Attempt Failure Value) : Guarded Failure Value := fun reader => do
  let value ← attempt
  pure (value, reader)

def fail (failure : Failure) : Guarded Failure Value := ofParser (throw failure)

/-- `Vec::with_capacity` for elements of the given size. -/
def reserve (elementBytes elements : Nat) : Guarded Failure Unit := fun reader =>
  { reserved := [⟨elements, reader.left⟩]
    ended := if elements * elementBytes ≤ allocationLimit then .ok ((), reader)
      else .error .panicked }

/-- `remaining`: the difference of length and position. -/
def remaining : Guarded Failure Nat := fun reader => do
  let left ← subtractSizes reader.bytes.length reader.position
  pure (left, reader)

/-- A loop that reads a given number of times. -/
def readTimes {State : Type} (step : State → Guarded Failure State) :
    Nat → State → Guarded Failure State
  | 0, state => pure state
  | count + 1, state => do
    let next ← step state
    readTimes step count next

/-- The reader ends as the other one does, unless it panics, and stays in range. -/
def Mirrors (guarded : Guarded Failure Value) (parser : Parser Failure Value) : Prop :=
  ∀ reader : Reader, reader.InRange → (guarded reader).Follows (parser reader) ∧
    ∀ value rest, parser reader = .ok (value, rest) → rest.InRange

variable {guarded : Guarded Failure Value} {parser : Parser Failure Value}
  {next : Value → Guarded Failure Result} {after : Value → Parser Failure Result}
  {reader : Reader}

theorem ofParser_bind (parser : Parser Failure Value) (after : Value → Parser Failure Result) :
    ofParser (parser >>= after) = ofParser parser >>= fun value => ofParser (after value) := by
  funext reader
  change Attempt.ofExcept (parser reader >>= fun both => after both.1 both.2) =
    (Attempt.ofExcept (parser reader)).andThen fun both => .ofExcept (after both.1 both.2)
  cases parser reader with
  | error failure => rfl
  | ok both =>
    change Attempt.ofExcept (after both.1 both.2) = ⟨[] ++ _, _⟩
    rw [List.nil_append]

theorem ofParser_readTimes {State : Type} {step : State → Parser Failure State} {count : Nat}
    {state : State} :
    ofParser (Library.readTimes step count state) =
      readTimes (fun state => ofParser (step state)) count state := by
  induction count generalizing state with
  | zero => rfl
  | succ count ih =>
    rw [Library.readTimes, ofParser_bind, readTimes]
    congr 1
    funext next
    exact ih

theorem clean_ofParser (parser : Parser Failure Value) (reader : Reader) :
    (ofParser parser reader).Clean :=
  Attempt.clean_ofExcept _

theorem mirrors_ofParser {Format : Bytes → Value → Prop} (parses : Parses parser Format) :
    (ofParser parser).Mirrors parser := by
  intro reader inside
  refine ⟨Attempt.follows_ofExcept _, ?_⟩
  intro value rest done
  obtain ⟨bytes, position⟩ := reader
  obtain ⟨ordered, fits⟩ := inside
  have split : bytes = bytes.take position ++ bytes.drop position :=
    (List.take_append_drop position bytes).symm
  have starts : (bytes.take position).length = position := by
    rw [List.length_take]
    exact Nat.min_eq_left ordered
  have taken := parses (bytes.take position) (bytes.drop position) (split ▸ fits) value rest
  rw [← split, starts] at taken
  obtain ⟨chunk, later, remains, _, stands⟩ := taken.mp done
  have lengths := congrArg List.length remains
  rw [List.length_drop, List.length_append] at lengths
  rw [stands]
  refine ⟨?_, fits⟩
  change position + chunk.length ≤ bytes.length
  have ordered' : position ≤ bytes.length := ordered
  omega

theorem mirrors_pure (value : Value) : (pure value : Guarded Failure Value).Mirrors (pure value) :=
  mirrors_ofParser (parses_pure value)

theorem mirrors_fail (failure : Failure) :
    (fail failure : Guarded Failure Value).Mirrors (throw failure) :=
  mirrors_ofParser (parses_throw failure)

theorem Mirrors.bind (first : guarded.Mirrors parser)
    (second : ∀ value, (next value).Mirrors (after value)) :
    (guarded >>= next).Mirrors (parser >>= after) := by
  intro reader inside
  obtain ⟨follows, stays⟩ := first reader inside
  constructor
  · apply follows.bind
    rintro ⟨value, middle⟩ taken
    exact (second value middle (stays value middle taken)).1
  · intro result rest done
    obtain ⟨value, middle, taken, continued⟩ := parser_bind_ok_iff.mp done
    exact (second value middle (stays value middle taken)).2 result rest continued

theorem clean_bind_iff (first : guarded.Mirrors parser) (inside : reader.InRange) :
    ((guarded >>= next) reader).Clean ↔ (guarded reader).Clean ∧
      ∀ value middle, parser reader = .ok (value, middle) → (next value middle).Clean := by
  have split : ((guarded >>= next) reader).Clean ↔ (guarded reader).Clean ∧
      ∀ both, parser reader = .ok both → (next both.1 both.2).Clean :=
    Attempt.clean_bind_iff (first reader inside).1
  rw [split, Prod.forall]

/-- A reader that checks every access only hands on what it read. -/
theorem clean_ofParser_bind_iff :
    ((ofParser parser >>= next) reader).Clean ↔
      ∀ value middle, parser reader = .ok (value, middle) → (next value middle).Clean := by
  have split : ((ofParser parser >>= next) reader).Clean ↔ (ofParser parser reader).Clean ∧
      ∀ both, parser reader = .ok both → (next both.1 both.2).Clean :=
    Attempt.clean_bind_iff (Attempt.follows_ofExcept _)
  rw [split, Prod.forall]
  exact and_iff_right (clean_ofParser parser reader)

theorem mirrors_reserve (elementBytes elements : Nat) :
    (reserve elementBytes elements : Guarded Failure Unit).Mirrors (pure ()) := by
  intro reader inside
  constructor
  · by_cases fits : elements * elementBytes ≤ allocationLimit
    · exact Or.inr (if_pos fits)
    · exact Or.inl (if_neg fits)
  · intro value rest done
    rw [← (parser_pure_ok_iff.mp done).2]
    exact inside

/-- A reservation is clean if the input has as many bytes left and memory has room. -/
theorem clean_reserve_iff {elementBytes elements : Nat} :
    (reserve elementBytes elements reader : Attempt Failure _).Clean ↔
      elements ≤ reader.left ∧ elements * elementBytes ≤ allocationLimit := by
  constructor
  · intro clean
    refine ⟨clean.covered ⟨elements, reader.left⟩ (List.mem_singleton_self _), ?_⟩
    by_contra large
    exact clean.returns (if_neg large)
  · rintro ⟨covered, fits⟩
    constructor
    · change (if elements * elementBytes ≤ allocationLimit then _ else _) ≠ _
      rw [if_pos fits]
      intro impossible
      cases impossible
    · intro reservation member
      rw [List.mem_singleton.mp member]
      exact covered

theorem clean_reserve_bind_iff {elementBytes elements : Nat}
    {next : Unit → Guarded Failure Result} :
    ((reserve elementBytes elements >>= next) reader).Clean ↔
      (elements ≤ reader.left ∧ elements * elementBytes ≤ allocationLimit) ∧
        (next () reader).Clean := by
  have follows : (reserve elementBytes elements reader : Attempt Failure _).Follows
      (.ok ((), reader)) := by
    by_cases fits : elements * elementBytes ≤ allocationLimit
    · exact Or.inr (if_pos fits)
    · exact Or.inl (if_neg fits)
  have split : ((reserve elementBytes elements >>= next) reader).Clean ↔
      (reserve elementBytes elements reader : Attempt Failure _).Clean ∧
        ∀ both, Except.ok ((), reader) = .ok both → (next both.1 both.2).Clean :=
        Attempt.clean_bind_iff follows
  rw [split, clean_reserve_iff]
  simp

/-- The subtraction never panics at a position inside the input. -/
theorem remaining_eq (inside : reader.InRange) :
    (remaining reader : Attempt Failure _) = .ofExcept (.ok (reader.left, reader)) := by
  rw [remaining, subtractSizes, if_pos inside.1]
  rfl

theorem mirrors_remaining :
    (remaining : Guarded Failure Nat).Mirrors fun reader => .ok (reader.left, reader) := by
  intro reader inside
  rw [remaining_eq inside]
  refine ⟨Attempt.follows_ofExcept _, ?_⟩
  intro value rest done
  cases done
  exact inside

theorem clean_remaining_bind {next : Nat → Guarded Failure Result} (inside : reader.InRange)
    (later : (next reader.left reader).Clean) : ((remaining >>= next) reader).Clean := by
  rw [clean_bind_iff mirrors_remaining inside, remaining_eq inside]
  refine ⟨Attempt.clean_ofExcept _, ?_⟩
  intro value middle taken
  cases taken
  exact later

theorem mirrors_readTimes {State : Type} {step : State → Guarded Failure State}
    {plain : State → Parser Failure State} (each : ∀ state, (step state).Mirrors (plain state))
    (count : Nat) (state : State) :
    (readTimes step count state).Mirrors (Library.readTimes plain count state) := by
  induction count generalizing state with
  | zero => exact mirrors_pure state
  | succ count ih => exact (each state).bind fun next => ih next

/-- A loop is clean if every turn that it comes to is. -/
theorem clean_readTimes_iff {State : Type} {step : State → Guarded Failure State}
    {plain : State → Parser Failure State} (each : ∀ state, (step state).Mirrors (plain state))
    {count : Nat} {state : State} (inside : reader.InRange) :
    (readTimes step count state reader).Clean ↔
      ∀ turn < count, ∀ reached middle, Library.readTimes plain turn state reader =
        .ok (reached, middle) → (step reached middle).Clean := by
  induction count generalizing state reader with
  | zero =>
    constructor
    · intro _ turn impossible
      omega
    · intro _
      exact Attempt.clean_pure (state, reader)
  | succ count ih =>
    rw [readTimes, clean_bind_iff (each state) inside]
    constructor
    · rintro ⟨now, later⟩ turn below reached middle ran
      cases turn with
      | zero =>
        obtain ⟨same, stands⟩ := parser_pure_ok_iff.mp ran
        exact same ▸ stands ▸ now
      | succ turn =>
        obtain ⟨next, onward, stepped, continued⟩ := parser_bind_ok_iff.mp ran
        have stays := (each state reader inside).2 next onward stepped
        exact (ih stays).mp (later next onward stepped) turn (by omega) reached middle continued
    · intro turns
      refine ⟨turns 0 (by omega) state reader rfl, ?_⟩
      intro next onward stepped
      have stays := (each state reader inside).2 next onward stepped
      apply (ih stays).mpr
      intro turn below reached middle continued
      exact turns (turn + 1) (by omega) reached middle
        (parser_bind_ok_iff.mpr ⟨next, onward, stepped, continued⟩)

variable [FramingFailure Failure]

/-- `read_exact(..)?.try_into().expect(..)` -/
def array (width : Nat) : Guarded Failure { chunk : Bytes // chunk.length = width } := do
  let chunk ← ofParser (readExact width)
  ofAttempt (expectArray width chunk)

/-- `read_u16`, `read_u32` and `read_u64`. -/
def number (width : Nat) : Guarded Failure Nat := do
  let chunk ← array width
  pure (fromBigEndian chunk.1)

/-- `read_exact(1)?[0]` -/
def byte : Guarded Failure Nat := do
  let chunk ← ofParser (readExact 1)
  let first ← ofAttempt (indexAt chunk 0)
  pure first.toNat

/-- What follows an exact read may use that its length is the one asked for. -/
theorem exact_then {width : Nat} {plain : { chunk : Bytes // chunk.length = width } → Value}
    {use : Bytes → Guarded Failure Value} (total : ∀ chunk, use chunk.1 = pure (plain chunk)) :
    (ofParser (readExact width) >>= use : Guarded Failure Value) =
      ofParser (do let chunk ← readFixed width; pure (plain chunk)) := by
  funext reader
  have exactly : readExact width reader =
      (readFixed width reader : Except Failure _).map fun both => (both.1.1, both.2) := by
    change (readFixed width reader >>= fun both => .ok (both.1.1, both.2)) = _
    cases (readFixed width reader : Except Failure _) <;> rfl
  change (Attempt.ofExcept (readExact width reader)).andThen (fun both => use both.1 both.2) =
    Attempt.ofExcept (readFixed width reader >>= fun both => .ok (plain both.1, both.2))
  rw [exactly]
  cases (readFixed width reader : Except Failure _) with
  | error failure => rfl
  | ok both =>
    obtain ⟨chunk, rest⟩ := both
    change (⟨[] ++ (use chunk.1 rest).reserved, (use chunk.1 rest).ended⟩ : Attempt _ _) = _
    rw [total chunk]
    rfl

/-- The conversion to an array never panics. -/
theorem array_eq (width : Nat) :
    (array width : Guarded Failure _) = ofParser (readFixed width) := by
  have total : ∀ chunk : { chunk : Bytes // chunk.length = width },
      (ofAttempt (expectArray width chunk.1) : Guarded Failure _) = pure chunk := by
    intro chunk
    rw [expectArray_eq chunk.2]
    rfl
  rw [array, exact_then total]
  congr 1
  funext reader
  change (readFixed width reader >>= fun both => .ok (both.1, both.2)) = _
  cases (readFixed width reader : Except Failure _) <;> rfl

theorem number_eq (width : Nat) :
    (number width : Guarded Failure Nat) = ofParser (readNat width) := by
  rw [number, array_eq]
  exact (ofParser_bind (readFixed width) fun chunk => pure (fromBigEndian chunk.1)).symm

/-- The index into a chunk of one byte never panics. -/
theorem byte_eq : (byte : Guarded Failure Nat) = ofParser (readNat 1) := by
  apply exact_then
  intro chunk
  obtain ⟨chunk, filled⟩ := chunk
  obtain ⟨first, rfl⟩ := List.length_eq_one_iff.mp filled
  funext reader
  change (⟨[] ++ [], .ok (first.toNat, reader)⟩ : Attempt Failure _) =
    ⟨[], .ok (fromBigEndian [first], reader)⟩
  rw [fromBigEndian, List.foldl_cons, List.foldl_nil, Nat.zero_mul, Nat.zero_add, List.append_nil]

end Reading

end Guarded

end PrivateContinuum.Library
