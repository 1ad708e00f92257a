import PrivateContinuum.Library.Bytes

/-! Exact formats: which chunks a reader takes, and for which values. -/

namespace PrivateContinuum.Library

theorem fromBigEndian_append (digits : Bytes) (last : UInt8) :
    fromBigEndian (digits ++ [last]) = fromBigEndian digits * 256 + last.toNat := by
  rw [fromBigEndian, List.foldl_append]
  rfl

theorem fromBigEndian_lt (digits : Bytes) : fromBigEndian digits < 256 ^ digits.length := by
  induction digits using List.reverseRecOn with
  | nil => decide
  | append_singleton digits last ih =>
    have byte := last.toNat_lt
    rw [fromBigEndian_append, List.length_append, List.length_singleton, Nat.pow_succ]
    omega

/-- Every chunk is the representation of the number that it reads as. -/
theorem bigEndian_fromBigEndian (digits : Bytes) :
    bigEndian digits.length (fromBigEndian digits) = digits := by
  induction digits using List.reverseRecOn with
  | nil => rfl
  | append_singleton digits last ih =>
    have byte := last.toNat_lt
    have high : (fromBigEndian digits * 256 + last.toNat) / 256 = fromBigEndian digits := by omega
    have low : UInt8.ofNat (fromBigEndian digits * 256 + last.toNat) = last := by
      apply UInt8.toNat.inj
      rw [UInt8.toNat_ofNat']
      omega
    rw [fromBigEndian_append, List.length_append, List.length_singleton, bigEndian, high, low, ih]

theorem drop_eq_slice (bytes : Bytes) (start width : Nat) :
    bytes.drop start = slice bytes start width ++ bytes.drop (start + width) := by
  rw [slice, ← List.drop_drop, List.take_append_drop]

theorem slice_eq_bigEndian {bytes : Bytes} {start width value : Nat}
    (present : start + width ≤ bytes.length)
    (reads : fromBigEndian (slice bytes start width) = value) :
    slice bytes start width = bigEndian width value := by
  have digits := bigEndian_fromBigEndian (slice bytes start width)
  rw [slice_length present, reads] at digits
  exact digits.symm

section Composition

variable {Failure Value Result : Type}

/-- In an input that fits, the reader finishes exactly on the chunks of the format,
for their values, and stands behind them. -/
def Parses (parser : Parser Failure Value) (Format : Bytes → Value → Prop) : Prop :=
  ∀ before remaining, (before ++ remaining).length < sizeLimit → ∀ value rest,
    parser ⟨before ++ remaining, before.length⟩ = .ok (value, rest) ↔
      ∃ chunk after, remaining = chunk ++ after ∧ Format chunk value ∧
        rest = ⟨before ++ remaining, before.length + chunk.length⟩

variable {parser : Parser Failure Value} {Format Same : Bytes → Value → Prop}

/-- A format only matters on chunks that fit. -/
theorem Parses.congr (parses : Parses parser Format)
    (same : ∀ chunk value, chunk.length < sizeLimit → (Format chunk value ↔ Same chunk value)) :
    Parses parser Same := by
  intro before remaining fits value rest
  rw [parses before remaining fits]
  refine exists_congr fun chunk => exists_congr fun after => ?_
  constructor
  · intro taken
    obtain ⟨split, format, stands⟩ := taken
    refine ⟨split, (same chunk value ?_).mp format, stands⟩
    rw [split, List.length_append, List.length_append] at fits
    omega
  · intro taken
    obtain ⟨split, format, stands⟩ := taken
    refine ⟨split, (same chunk value ?_).mpr format, stands⟩
    rw [split, List.length_append, List.length_append] at fits
    omega

theorem parses_pure (value : Value) :
    Parses (pure value : Parser Failure Value) fun chunk found => chunk = [] ∧ value = found := by
  intro before remaining _ found rest
  rw [parser_pure_ok_iff]
  constructor
  · intro done
    obtain ⟨same, stands⟩ := done
    exact ⟨[], remaining, rfl, ⟨rfl, same⟩, stands.symm⟩
  · intro taken
    obtain ⟨chunk, after, _, ⟨empty, same⟩, stands⟩ := taken
    subst empty
    exact ⟨same, stands.symm⟩

theorem parses_throw (failure : Failure) :
    Parses (throw failure : Parser Failure Value) fun _ _ => False := by
  intro before remaining _ found rest
  constructor
  · intro done
    cases done
  · intro taken
    obtain ⟨_, _, _, impossible, _⟩ := taken
    exact impossible.elim

theorem parses_check (check : Except Failure Value) :
    Parses (liftM check : Parser Failure Value) fun chunk value => chunk = [] ∧
    check = .ok value := by
  intro before remaining _ value rest
  rw [parser_check_ok_iff]
  constructor
  · intro done
    obtain ⟨passes, stands⟩ := done
    exact ⟨[], remaining, rfl, ⟨rfl, passes⟩, stands.symm⟩
  · intro taken
    obtain ⟨chunk, after, _, ⟨empty, passes⟩, stands⟩ := taken
    subst empty
    exact ⟨passes, stands.symm⟩

/-- The chunk of a first reader is followed by the chunk of the second. -/
theorem Parses.bind {next : Value → Parser Failure Result} {Later : Value → Bytes → Result → Prop}
    (first : Parses parser Format) (second : ∀ value, Parses (next value) (Later value)) :
    Parses (parser >>= next) fun chunk result =>
      ∃ value left right, chunk = left ++ right ∧ Format left value ∧ Later value right result := by
  intro before remaining fits result rest
  rw [parser_bind_ok_iff]
  constructor
  · intro done
    obtain ⟨value, middle, taken, continued⟩ := done
    obtain ⟨left, others, split, format, stands⟩ :=
      (first before remaining fits value middle).mp taken
    subst split
    have shifted : before ++ (left ++ others) = before ++ left ++ others := by simp
    rw [stands, shifted, ← List.length_append] at continued
    rw [shifted] at fits
    obtain ⟨right, after, later, laterFormat, ends⟩ :=
      (second value (before ++ left) others fits result rest).mp continued
    subst later
    refine ⟨left ++ right, after, by simp, ⟨value, left, right, rfl, format, laterFormat⟩, ?_⟩
    rw [ends]
    simp [Nat.add_assoc]
  · intro taken
    obtain ⟨chunk, after, split, ⟨value, left, right, halves, format, laterFormat⟩, stands⟩ := taken
    subst halves
    subst split
    have shifted : before ++ (left ++ right ++ after) = before ++ left ++
        (right ++ after) := by simp
    refine ⟨value, ⟨before ++ (left ++ right ++ after), before.length + left.length⟩, ?_, ?_⟩
    · exact (first before _ fits value _).mpr ⟨left, right ++ after, by simp, format, rfl⟩
    · rw [shifted, ← List.length_append]
      rw [shifted] at fits
      refine (second value (before ++ left) (right ++ after) fits result rest).mpr ⟨right, after,
        rfl, laterFormat, ?_⟩
      rw [stands, shifted]
      simp [Nat.add_assoc]

theorem Parses.map (parses : Parses parser Format) (next : Value → Result) :
    Parses (do let found ← parser; pure (next found)) fun chunk result =>
      ∃ value, Format chunk value ∧ next value = result := by
  refine (parses.bind fun value => parses_pure (next value)).congr ?_
  intro chunk result _
  constructor
  · intro both
    obtain ⟨value, left, right, halves, format, empty, same⟩ := both
    subst empty
    rw [halves, List.append_nil]
    exact ⟨value, format, same⟩
  · intro one
    obtain ⟨value, format, same⟩ := one
    exact ⟨value, chunk, [], by simp, format, rfl, same⟩

theorem parses_refusal {Refused : Prop} [Decidable Refused] (failure : Failure)
    (parses : Parses parser Format) :
    Parses (if Refused then throw failure else parser) fun chunk value => ¬ Refused ∧
    Format chunk value := by
  by_cases refused : Refused
  · rw [if_pos refused]
    exact (parses_throw failure).congr fun _ _ _ => by simp [refused]
  · rw [if_neg refused]
    exact parses.congr fun _ _ _ => by simp [refused]

/-- A counted loop takes the chunks of as many items, each of which advances the state. -/
theorem parses_times {State Item : Type} {step : State → Parser Failure State}
    {image : Item → Bytes} {advance : State → Item → Option State}
    (each : ∀ state, Parses (step state) fun chunk next => ∃ item, chunk = image item ∧
      advance state item = some next)
    (count : Nat) (state : State) : Parses (readTimes step count state) fun chunk last =>
      ∃ items : List Item, items.length = count ∧ chunk = items.flatMap image ∧
        items.foldlM advance state = some last := by
  induction count generalizing state with
  | zero =>
    refine (parses_pure state).congr ?_
    intro chunk last _
    constructor
    · intro done
      exact ⟨[], rfl, done.1, congrArg some done.2⟩
    · intro listed
      obtain ⟨items, none, same, ended⟩ := listed
      rw [List.length_eq_zero_iff] at none
      subst none
      exact ⟨same, Option.some.inj ended⟩
  | succ count ih =>
    refine ((each state).bind fun next => ih next).congr ?_
    intro chunk last _
    constructor
    · intro taken
      obtain ⟨next, left, right, halves, ⟨item, shown, advanced⟩, items, counted, others, ended⟩ :=
        taken
      refine ⟨item :: items, by simp [counted], ?_, ?_⟩
      · rw [halves, shown, others, List.flatMap_cons]
      · rw [List.foldlM_cons, advanced]
        exact ended
    · intro listed
      obtain ⟨items, counted, shown, ended⟩ := listed
      cases items with
      | nil => simp at counted
      | cons item items =>
        rw [List.foldlM_cons] at ended
        cases advanced : advance state item with
        | none =>
          rw [advanced] at ended
          cases ended
        | some next =>
          rw [advanced] at ended
          refine ⟨next, image item, items.flatMap image, ?_, ⟨item, rfl, advanced⟩,
            items, ?_, rfl, ended⟩
          · rw [shown, List.flatMap_cons]
          · simpa using counted

theorem Parses.complete_ok_iff (parses : Parses parser Format) (trailing : Failure) {bytes : Bytes}
    (fits : bytes.length < sizeLimit) {value : Value} :
    parser.complete trailing bytes = .ok value ↔ Format bytes value := by
  have taken := parses [] bytes fits
  simp only [List.nil_append, List.length_nil, Nat.zero_add] at taken
  constructor
  · intro done
    obtain ⟨rest, ran, finished⟩ := Parser.complete_ok done
    obtain ⟨chunk, after, split, format, stands⟩ := (taken value rest).mp ran
    have all : after = [] := by
      subst stands
      have ends : chunk.length = bytes.length := by simpa [Reader.isFinished] using finished
      rw [split, List.length_append] at ends
      exact List.eq_nil_of_length_eq_zero (by omega)
    rw [split, all, List.append_nil]
    exact format
  · intro format
    have ran := (taken value ⟨bytes, bytes.length⟩).mpr ⟨bytes, [], by simp, format, rfl⟩
    rw [Parser.complete, ran]
    change (if (Reader.mk bytes bytes.length).isFinished then _ else _) = _
    simp [Reader.isFinished]

/-- In an input that fits, the reader finishes exactly if the whole rest is of the
format, and stands at the end. -/
def ParsesAll (parser : Parser Failure Value) (Format : Bytes → Value → Prop) : Prop :=
  ∀ before remaining, (before ++ remaining).length < sizeLimit → ∀ value rest,
    parser ⟨before ++ remaining, before.length⟩ = .ok (value, rest) ↔
      Format remaining value ∧ rest = ⟨before ++ remaining, (before ++ remaining).length⟩

theorem ParsesAll.congr (parses : ParsesAll parser Format)
    (same : ∀ chunk value, chunk.length < sizeLimit → (Format chunk value ↔ Same chunk value)) :
    ParsesAll parser Same := by
  intro before remaining fits value rest
  rw [parses before remaining fits, same remaining value]
  rw [List.length_append] at fits
  omega

/-- A chunk of the first reader is followed by a rest that the second one takes. -/
theorem Parses.bindAll {next : Value → Parser Failure Result}
    {Later : Value → Bytes → Result → Prop} (first : Parses parser Format)
    (second : ∀ value, ParsesAll (next value) (Later value)) :
    ParsesAll (parser >>= next) fun remaining result =>
      ∃ value left right, remaining = left ++ right ∧ Format left value ∧
        Later value right result := by
  intro before remaining fits result rest
  rw [parser_bind_ok_iff]
  constructor
  · intro done
    obtain ⟨value, middle, taken, continued⟩ := done
    obtain ⟨left, right, split, format, stands⟩ :=
      (first before remaining fits value middle).mp taken
    subst split
    have shifted : before ++ (left ++ right) = before ++ left ++ right := by simp
    rw [stands, shifted, ← List.length_append] at continued
    rw [shifted] at fits
    obtain ⟨later, ends⟩ := (second value (before ++ left) right fits result rest).mp continued
    exact ⟨⟨value, left, right, rfl, format, later⟩, by rw [ends, shifted]⟩
  · intro taken
    obtain ⟨⟨value, left, right, split, format, later⟩, stands⟩ := taken
    subst split
    have shifted : before ++ (left ++ right) = before ++ left ++ right := by simp
    refine ⟨value, ⟨before ++ (left ++ right), before.length + left.length⟩, ?_, ?_⟩
    · exact (first before _ fits value _).mpr ⟨left, right, rfl, format, rfl⟩
    · rw [shifted, ← List.length_append]
      rw [shifted] at fits
      exact (second value (before ++ left) right fits result rest).mpr
        ⟨later, by rw [stands, shifted]⟩

theorem ParsesAll.map (parses : ParsesAll parser Format) (next : Value → Result) :
    ParsesAll (do let found ← parser; pure (next found)) fun remaining result =>
      ∃ value, Format remaining value ∧ next value = result := by
  intro before remaining fits result rest
  rw [parser_bind_ok_iff]
  constructor
  · rintro ⟨value, middle, taken, ended⟩
    obtain ⟨same, stands⟩ := parser_pure_ok_iff.mp ended
    obtain ⟨format, all⟩ := (parses before remaining fits value middle).mp taken
    exact ⟨⟨value, format, same⟩, stands ▸ all⟩
  · rintro ⟨⟨value, format, same⟩, stands⟩
    exact ⟨value, rest, (parses before remaining fits value rest).mpr ⟨format, stands⟩,
      parser_pure_ok_iff.mpr ⟨same, rfl⟩⟩

/-- A reader moves its position, never its input. -/
def KeepsInput (parser : Parser Failure Value) : Prop :=
  ∀ reader value rest, parser reader = .ok (value, rest) → rest.bytes = reader.bytes

theorem keepsInput_pure (value : Value) : KeepsInput (pure value : Parser Failure Value) := by
  intro reader found rest done
  exact congrArg Reader.bytes (parser_pure_ok_iff.mp done).2.symm

theorem keepsInput_check (check : Except Failure Value) :
    KeepsInput (liftM check : Parser Failure Value) := by
  intro reader found rest done
  exact congrArg Reader.bytes (parser_check_ok_iff.mp done).2.symm

theorem keepsInput_throw (failure : Failure) :
    KeepsInput (throw failure : Parser Failure Value) := by
  intro reader found rest done
  cases done

theorem KeepsInput.bind {next : Value → Parser Failure Result} (first : KeepsInput parser)
    (second : ∀ value, KeepsInput (next value)) : KeepsInput (parser >>= next) := by
  intro reader result rest done
  obtain ⟨value, middle, taken, continued⟩ := parser_bind_ok_iff.mp done
  exact (second value middle result rest continued).trans (first reader value middle taken)

/-- What a reader of whole inputs makes of one. -/
theorem ParsesAll.whole_iff (parses : ParsesAll parser Format) {bytes : Bytes}
    (fits : bytes.length < sizeLimit) {value : Value} :
    (∃ rest, parser ⟨bytes, 0⟩ = .ok (value, rest)) ↔ Format bytes value := by
  have taken := parses [] bytes fits value
  simp only [List.nil_append, List.length_nil] at taken
  constructor
  · rintro ⟨rest, done⟩
    exact ((taken rest).mp done).1
  · intro format
    exact ⟨_, (taken _).mpr ⟨format, rfl⟩⟩

end Composition

section Reading

variable {Failure : Type} [FramingFailure Failure]

theorem parses_fixed (width : Nat) :
    Parses (readFixed width : Parser Failure _) fun chunk value => chunk = value.1 := by
  intro before remaining fits value rest
  rw [List.length_append] at fits
  constructor
  · intro done
    unfold readFixed at done
    split at done
    · split at done
      · rename_i present
        change before.length + width ≤ (before ++ remaining).length at present
        rw [List.length_append] at present
        cases done
        refine ⟨remaining.take width, remaining.drop width,
          (List.take_append_drop width remaining).symm, ?_, ?_⟩
        · simp
        · have taken : (remaining.take width).length = width := by
            rw [List.length_take]
            omega
          rw [taken]
      · cases done
    · cases done
  · intro taken
    obtain ⟨chunk, after, split, same, stands⟩ := taken
    subst split
    have reached :=
      (reads_fixed value : Reads (readFixed width : Parser Failure _) value.1 value) before after
    rw [← same] at reached
    rw [stands]
    apply reached
    rw [List.length_append]
    exact fits

theorem keepsInput_fixed (width : Nat) : KeepsInput (readFixed width : Parser Failure _) := by
  intro reader chunk rest done
  unfold readFixed at done
  split at done
  · split at done
    · cases done
      rfl
    · cases done
  · cases done

theorem keepsInput_exact (width : Nat) : KeepsInput (readExact width : Parser Failure _) :=
  (keepsInput_fixed width).bind fun _ => keepsInput_pure _

theorem keepsInput_nat (width : Nat) : KeepsInput (readNat width : Parser Failure _) :=
  (keepsInput_fixed width).bind fun _ => keepsInput_pure _

theorem keepsInput_header (magic : Bytes) (version : Nat) (invalidMagic : Failure)
    (unsupportedVersion : Nat → Failure) :
    KeepsInput (readHeader magic version invalidMagic unsupportedVersion) := by
  have versions : KeepsInput (do
      let actual ← readNat 2
      if actual ≠ version then throw (unsupportedVersion actual) : Parser Failure Unit) := by
    refine (keepsInput_nat 2).bind fun actual => ?_
    by_cases stale : actual ≠ version
    · rw [if_pos stale]
      exact keepsInput_throw _
    · rw [if_neg stale]
      exact keepsInput_pure ()
  refine (keepsInput_exact _).bind fun found => ?_
  by_cases other : found ≠ magic
  · simp only [if_pos other]
    exact (keepsInput_throw invalidMagic).bind fun _ => versions
  · simp only [if_neg other]
    exact versions

theorem parses_exact (width : Nat) :
    Parses (readExact width : Parser Failure _) fun chunk value => chunk = value ∧
    value.length = width := by
  refine ((parses_fixed width).map Subtype.val).congr ?_
  intro chunk value _
  constructor
  · intro found
    obtain ⟨fixed, same, named⟩ := found
    subst named
    exact ⟨same, fixed.2⟩
  · intro found
    exact ⟨⟨value, found.2⟩, found.1, rfl⟩

theorem parses_nat (width : Nat) : Parses (readNat width : Parser Failure _) fun chunk value =>
    chunk = bigEndian width value ∧ value < 256 ^ width := by
  refine ((parses_fixed width).map fun chunk => fromBigEndian chunk.1).congr ?_
  intro chunk value _
  constructor
  · intro found
    obtain ⟨⟨digits, filled⟩, same, read⟩ := found
    subst filled
    dsimp only at same read
    subst read
    exact ⟨by rw [bigEndian_fromBigEndian, same], fromBigEndian_lt digits⟩
  · intro found
    exact ⟨⟨bigEndian width value, bigEndian_length width value⟩, found.1,
      fromBigEndian_bigEndian found.2⟩

theorem parses_len : Parses (readLen : Parser Failure _) fun chunk value =>
    chunk = bigEndian 8 value ∧ value < sizeLimit := parses_nat 8

theorem parses_vec : Parses (readVec : Parser Failure _) fun chunk value =>
    chunk = bigEndian 8 value.length ++ value := by
  refine (parses_len.bind fun length => parses_exact length).congr ?_
  intro chunk value fits
  constructor
  · intro found
    obtain ⟨length, left, right, halves, ⟨prefixed, _⟩, same, filled⟩ := found
    rw [halves, prefixed, same, filled]
  · intro found
    rw [found, List.length_append] at fits
    exact ⟨value.length, _, value, found, ⟨rfl, by omega⟩, rfl, rfl⟩

theorem parses_header (magic : Bytes) {version : Nat} (bounded : version < 256 ^ 2)
    (invalidMagic : Failure) (unsupportedVersion : Nat → Failure) :
    Parses (readHeader magic version invalidMagic unsupportedVersion) fun chunk _ =>
      chunk = magic ++ bigEndian 2 version := by
  have versions : Parses (do
      let actual ← readNat 2
      if actual ≠ version then throw (unsupportedVersion actual) : Parser Failure Unit)
      fun chunk _ => chunk = bigEndian 2 version := by
    refine ((parses_nat 2).bind fun actual => parses_refusal (unsupportedVersion actual)
      (parses_pure ())).congr ?_
    intro chunk value _
    constructor
    · intro found
      obtain ⟨actual, left, right, halves, ⟨shown, _⟩, same, empty, _⟩ := found
      rw [halves, shown, not_not.mp same, empty, List.append_nil]
    · intro found
      exact ⟨version, chunk, [], by simp, ⟨found, bounded⟩, by simp, rfl, rfl⟩
  refine ((parses_exact magic.length).bind fun actual =>
    parses_refusal invalidMagic versions).congr ?_
  intro chunk value _
  constructor
  · intro found
    obtain ⟨actual, left, right, halves, ⟨shown, _⟩, same, later⟩ := found
    rw [halves, shown, not_not.mp same, later]
  · intro found
    exact ⟨magic, magic, bigEndian 2 version, found, ⟨rfl, rfl⟩, by simp, rfl⟩

/-- A value that may be absent, behind a byte that tells which. -/
theorem parses_optional {Value : Type} {present : Parser Failure (Option Value)}
    {Format : Bytes → Value → Prop} (invalid : Failure)
    (parses : Parses present fun chunk found => ∃ value, found = some value ∧ Format chunk value) :
    Parses (do
        let tag ← readNat 1
        if tag = 0 then pure none else if tag = 1 then present else throw invalid)
      fun chunk found => (chunk = [0] ∧ found = none) ∨
        ∃ rest value, chunk = [1] ++ rest ∧ found = some value ∧ Format rest value := by
  have tagged : ∀ tag : Nat,
      Parses (if tag = 0 then pure none else if tag = 1 then present else throw invalid)
        fun chunk found => (tag = 0 ∧ chunk = [] ∧ found = none) ∨
          (tag = 1 ∧ ∃ value, found = some value ∧ Format chunk value) := by
    intro tag
    by_cases absent : tag = 0
    · rw [if_pos absent]
      exact (parses_pure none).congr fun _ _ _ => by simp [absent, eq_comm]
    · rw [if_neg absent]
      by_cases one : tag = 1
      · rw [if_pos one]
        exact parses.congr fun _ _ _ => by simp [one]
      · rw [if_neg one]
        exact (parses_throw invalid).congr fun _ _ _ => by simp [absent, one]
  refine ((parses_nat 1).bind tagged).congr ?_
  intro chunk found _
  constructor
  · intro taken
    obtain ⟨tag, left, right, halves, ⟨shown, _⟩, read⟩ := taken
    rcases read with ⟨absent, empty, same⟩ | ⟨one, value, same, formatted⟩
    · subst absent
      exact Or.inl ⟨by rw [halves, shown, empty]; rfl, same⟩
    · subst one
      exact Or.inr ⟨right, value, by rw [halves, shown]; rfl, same, formatted⟩
  · intro taken
    rcases taken with ⟨shown, same⟩ | ⟨rest, value, shown, same, formatted⟩
    · exact ⟨0, [0], [], shown, ⟨rfl, by decide⟩, Or.inl ⟨rfl, rfl, same⟩⟩
    · exact ⟨1, [1], rest, shown, ⟨rfl, by decide⟩, Or.inr ⟨rfl, value, same, formatted⟩⟩

theorem parses_counted {State Item Result : Type} {step : State → Parser Failure State}
    {image : Item → Bytes} {advance : State → Item → Option State}
    {next : Nat → State → Parser Failure Result} {Later : Nat → State → Bytes → Result → Prop}
    (nonempty : ∀ item, image item ≠ [])
    (each : ∀ state, Parses (step state) fun chunk next => ∃ item, chunk = image item ∧
      advance state item = some next)
    (state : State) (later : ∀ count last, Parses (next count last) (Later count last)) :
    Parses (do
        let count ← readLen
        let last ← readTimes step count state
        next count last : Parser Failure Result)
      fun chunk result => ∃ (items : List Item) (last : State) (right : Bytes),
        chunk = bigEndian 8 items.length ++ (items.flatMap image ++ right) ∧
        items.foldlM advance state = some last ∧ Later items.length last right result := by
  refine (parses_len.bind fun count =>
    (parses_times each count state).bind fun last => later count last).congr ?_
  intro chunk result fits
  constructor
  · intro found
    obtain ⟨count, left, others, halves, ⟨shown, _⟩, last, middle, right, split,
      ⟨items, counted, listed, ended⟩, format⟩ := found
    refine ⟨items, last, right, ?_, ended, counted ▸ format⟩
    rw [halves, shown, split, listed, counted]
  · intro found
    obtain ⟨items, last, right, halves, ended, format⟩ := found
    have shorter : items.length ≤ (items.flatMap image).length :=
      length_le_flatMap fun item _ => nonempty item
    rw [halves, List.length_append, List.length_append] at fits
    exact ⟨items.length, _, _, halves, ⟨rfl, by omega⟩, last, _, right, rfl,
      ⟨items, rfl, rfl, ended⟩, format⟩

end Reading

end PrivateContinuum.Library
