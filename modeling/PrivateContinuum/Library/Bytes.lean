import PrivateContinuum.Library.Outcome

/-! Length-prefixed byte formats: emitters that append to a buffer, readers that
advance a position, and the rules that compose what they write and read. -/

namespace PrivateContinuum.Library

abbrev Bytes := List UInt8

/-- First value that a machine size does not hold. -/
def sizeLimit : Nat := 2 ^ 64

/-- The low bytes of a number, most significant first. -/
def bigEndian : Nat → Nat → Bytes
  | 0, _ => []
  | width + 1, value => bigEndian width (value / 256) ++ [UInt8.ofNat value]

def fromBigEndian (bytes : Bytes) : Nat :=
  bytes.foldl (fun total byte => total * 256 + byte.toNat) 0

@[simp] theorem bigEndian_length (width value : Nat) : (bigEndian width value).length = width := by
  induction width generalizing value with
  | zero => rfl
  | succ width ih => simp [bigEndian, ih]

theorem fromBigEndian_bigEndian {width value : Nat} (bounded : value < 256 ^ width) :
    fromBigEndian (bigEndian width value) = value := by
  induction width generalizing value with
  | zero =>
    have zero : value = 0 := by omega
    simp [fromBigEndian, bigEndian, zero]
  | succ width ih =>
    have smaller : value / 256 < 256 ^ width := by
      rw [Nat.pow_succ] at bounded
      omega
    have last : (UInt8.ofNat value).toNat = value % 256 := UInt8.toNat_ofNat'
    have rest := ih smaller
    unfold fromBigEndian at rest
    rw [fromBigEndian, bigEndian, List.foldl_append, rest, List.foldl_cons, List.foldl_nil, last]
    omega

/-- `bytes[start..start + width]` -/
def slice (bytes : Bytes) (start width : Nat) : Bytes := (bytes.drop start).take width

theorem slice_length {bytes : Bytes} {start width : Nat} (present : start + width ≤ bytes.length) :
    (slice bytes start width).length = width := by
  rw [slice, List.length_take, List.length_drop]
  omega

theorem slice_append {before chunk after : Bytes} {start width : Nat}
    (starts : before.length = start) (fills : chunk.length = width) :
    slice (before ++ (chunk ++ after)) start width = chunk := by
  subst starts
  subst fills
  rw [slice, List.drop_left, List.take_left]

/-- The two failures that every format reports for its framing. -/
class FramingFailure (Failure : Type) where
  unexpectedEof : Failure
  lengthOverflow : Failure

export FramingFailure (unexpectedEof lengthOverflow)

/-- Appends to an output buffer. -/
abbrev Emitter (Failure Value : Type) := StateT Bytes (Except Failure) Value

structure Reader where
  bytes : Bytes
  position : Nat

/-- Reads at the current position. -/
abbrev Parser (Failure Value : Type) := StateT Reader (Except Failure) Value

section Emission

variable {Failure : Type}

/-- The finished buffer of an emitter. -/
def Emitter.finish (emitter : Emitter Failure Unit) : Except Failure Bytes :=
  (emitter []).map Prod.snd

/-- The emitter appends exactly the chunk, and fails exactly when the buffer
would outgrow the address space. -/
def Emits (emitter : Emitter Failure Unit) (chunk : Bytes) : Prop :=
  ∀ out, out.length < sizeLimit → ∀ result,
    emitter out = .ok result ↔ out.length + chunk.length < sizeLimit ∧ result = ((), out ++ chunk)

theorem emits_pure : Emits (pure () : Emitter Failure Unit) [] := by
  intro out addressable result
  change Except.ok ((), out) = .ok result ↔ _
  simp [addressable, eq_comm]

theorem Emits.seq {first second : Emitter Failure Unit} {left right : Bytes}
    (before : Emits first left) (after : Emits second right) :
    Emits (do first; second) (left ++ right) := by
  intro out addressable result
  change (first out >>= fun middle => second middle.2) = .ok result ↔ _
  rw [bind_ok_iff]
  simp only [before out addressable, List.length_append]
  constructor
  · intro both
    obtain ⟨middle, ⟨fits, same⟩, finished⟩ := both
    subst same
    have reached :=
      (after (out ++ left) (by rw [List.length_append]; exact fits) result).mp finished
    rw [List.length_append, Nat.add_assoc, List.append_assoc] at reached
    exact reached
  · intro whole
    obtain ⟨fits, same⟩ := whole
    refine ⟨((), out ++ left), ⟨by omega, rfl⟩, ?_⟩
    apply (after (out ++ left) (by rw [List.length_append]; omega) result).mpr
    rw [List.length_append, Nat.add_assoc, List.append_assoc]
    exact ⟨fits, same⟩

theorem Emits.checked {Checked : Type} {check : Except Failure Checked} {value : Checked}
    {rest : Checked → Emitter Failure Unit} {chunk : Bytes} (passes : check = .ok value)
    (after : Emits (rest value) chunk) :
    Emits (do let checked ← (liftM check : Emitter Failure Checked); rest checked) chunk := by
  intro out
  rw [passes]
  exact after out

theorem emits_overflow {emitter : Emitter Failure Unit} {chunk : Bytes}
    (fails : ∀ out result, emitter out ≠ .ok result) (large : sizeLimit ≤ chunk.length) :
    Emits emitter chunk := by
  intro out _ result
  constructor
  · intro done
    exact absurd done (fails out result)
  · intro fits
    omega

theorem emits_forM {Item : Type} {items : List Item} {write : Item → Emitter Failure Unit}
    {image : Item → Bytes} (each : ∀ item ∈ items, Emits (write item) (image item)) :
    Emits (forM items write : Emitter Failure Unit) (items.flatMap image) := by
  induction items with
  | nil => exact emits_pure
  | cons item rest ih =>
    rw [List.forM_cons, List.flatMap_cons]
    exact (each item List.mem_cons_self).seq
      (ih fun other member => each other (List.mem_cons_of_mem item member))

theorem emitter_seq_ok_iff {first second : Emitter Failure Unit} {out : Bytes}
    {result : Unit × Bytes} :
    (do first; second : Emitter Failure Unit) out = .ok result ↔
      ∃ middle, first out = .ok middle ∧ second middle.2 = .ok result := by
  change (first out >>= fun middle => second middle.2) = .ok result ↔ _
  rw [bind_ok_iff]

theorem finish_ok {emitter : Emitter Failure Unit} {finished : Bytes}
    (done : emitter.finish = .ok finished) :
    ∃ result, emitter [] = .ok result := by
  unfold Emitter.finish at done
  cases ran : emitter [] with
  | error failure =>
    rw [ran] at done
    cases done
  | ok result => exact ⟨result, rfl⟩

theorem forM_emitted {Item : Type} {items : List Item} {write : Item → Emitter Failure Unit}
    {out : Bytes} {result : Unit × Bytes}
    (done : (forM items write : Emitter Failure Unit) out = .ok result) :
    ∀ item ∈ items, ∃ before after, write item before = .ok after := by
  induction items generalizing out with
  | nil => simp
  | cons item rest ih =>
    rw [List.forM_cons] at done
    obtain ⟨middle, first, later⟩ := emitter_seq_ok_iff.mp done
    rw [List.forall_mem_cons]
    exact ⟨⟨out, middle, first⟩, ih later⟩

theorem length_le_flatMap {Item : Type} {items : List Item} {image : Item → Bytes}
    (nonempty : ∀ item ∈ items, image item ≠ []) : items.length ≤ (items.flatMap image).length := by
  induction items with
  | nil => simp
  | cons item rest ih =>
    have positive := List.length_pos_iff.mpr (nonempty item List.mem_cons_self)
    have later := ih fun other member => nonempty other (List.mem_cons_of_mem item member)
    simp only [List.length_cons, List.flatMap_cons, List.length_append]
    omega

theorem Emits.finish_ok_iff {emitter : Emitter Failure Unit} {chunk finished : Bytes}
    (emits : Emits emitter chunk) :
    emitter.finish = .ok finished ↔ chunk.length < sizeLimit ∧ finished = chunk := by
  have written := emits [] (by decide)
  simp only [List.length_nil, Nat.zero_add, List.nil_append] at written
  unfold Emitter.finish
  constructor
  · intro done
    cases ran : emitter [] with
    | error failure => simp [ran, Except.map] at done
    | ok result =>
      obtain ⟨fits, same⟩ := (written result).mp ran
      rw [ran, same] at done
      cases done
      exact ⟨fits, rfl⟩
  · intro fits
    rw [(written ((), chunk)).mpr ⟨fits.1, rfl⟩, fits.2]
    rfl

end Emission

section Writing

variable {Failure : Type} [FramingFailure Failure]

/-- `extend_from_slice`. A buffer past the address space is reported as a length
overflow; no such buffer exists in the source. -/
def emit (chunk : Bytes) : Emitter Failure Unit := fun out =>
  if out.length + chunk.length < sizeLimit then .ok ((), out ++ chunk) else .error lengthOverflow

/-- `write_len` -/
def writeLen (length : Nat) : Emitter Failure Unit :=
  if length < sizeLimit then emit (bigEndian 8 length) else throw lengthOverflow

/-- `write_bytes` -/
def writeBytes (chunk : Bytes) : Emitter Failure Unit := do
  writeLen chunk.length
  emit chunk

/-- A count followed by the items. -/
def writeCounted {Item : Type} (items : List Item) (write : Item → Emitter Failure Unit) :
    Emitter Failure Unit := do
  writeLen items.length
  forM items write

/-- The magic and the version that open a format. -/
def writeHeader (magic : Bytes) (version : Nat) : Emitter Failure Unit := do
  emit magic
  emit (bigEndian 2 version)

theorem emits_emit (chunk : Bytes) : Emits (emit chunk : Emitter Failure Unit) chunk := by
  intro out _ result
  unfold emit
  by_cases fits : out.length + chunk.length < sizeLimit
  · simp [fits, eq_comm]
  · simp [fits]

theorem emits_header (magic : Bytes) (version : Nat) :
    Emits (writeHeader magic version : Emitter Failure Unit) (magic ++ bigEndian 2 version) :=
  (emits_emit magic).seq (emits_emit _)

theorem emits_writeLen {length : Nat} (bounded : length < sizeLimit) :
    Emits (writeLen length : Emitter Failure Unit) (bigEndian 8 length) := by
  rw [writeLen, if_pos bounded]
  exact emits_emit _

theorem writeLen_overflow {length : Nat} (large : ¬ length < sizeLimit)
    (rest : Emitter Failure Unit) (out : Bytes) (result : Unit × Bytes) :
    (do writeLen length; rest : Emitter Failure Unit) out ≠ .ok result := by
  rw [writeLen, if_neg large]
  intro impossible
  cases impossible

theorem emits_writeBytes (chunk : Bytes) :
    Emits (writeBytes chunk : Emitter Failure Unit) (bigEndian 8 chunk.length ++ chunk) := by
  by_cases bounded : chunk.length < sizeLimit
  · exact (emits_writeLen bounded).seq (emits_emit chunk)
  · exact emits_overflow (writeLen_overflow bounded _) (by rw [List.length_append]; omega)

/-- A counted sequence of non-empty items. -/
theorem emits_writeCounted {Item : Type} {items : List Item} {write : Item → Emitter Failure Unit}
    {image : Item → Bytes} (each : ∀ item ∈ items, Emits (write item) (image item))
    (nonempty : ∀ item ∈ items, image item ≠ []) :
    Emits (writeCounted items write) (bigEndian 8 items.length ++ items.flatMap image) := by
  have shorter := length_le_flatMap nonempty
  by_cases bounded : items.length < sizeLimit
  · exact (emits_writeLen bounded).seq (emits_forM each)
  · exact emits_overflow (writeLen_overflow bounded _) (by rw [List.length_append]; omega)

end Writing

section Composition

variable {Failure Value Result : Type}

/-- A loop that runs a counted number of times. -/
def readTimes {State : Type} (step : State → Parser Failure State) :
    Nat → State → Parser Failure State
  | 0, state => pure state
  | count + 1, state => do
    let next ← step state
    readTimes step count next

/-- `is_finished` -/
def Reader.isFinished (reader : Reader) : Bool := reader.position == reader.bytes.length

/-- Runs a reader over a whole input and refuses what is left over. -/
def Parser.complete (parser : Parser Failure Value) (trailing : Failure) (bytes : Bytes) :
    Except Failure Value := do
  let (value, reader) ← parser ⟨bytes, 0⟩
  if reader.isFinished then .ok value else .error trailing

@[simp] theorem parser_bind_ok_iff {first : Parser Failure Value}
    {second : Value → Parser Failure Result} {reader rest : Reader} {result : Result} :
    (first >>= second) reader = .ok (result, rest) ↔
      ∃ value middle, first reader = .ok (value, middle) ∧
        second value middle = .ok (result, rest) := by
  change (first reader >>= fun outcome => second outcome.1 outcome.2) = _ ↔ _
  simp [bind_ok_iff, Prod.exists]

@[simp] theorem parser_pure_ok_iff {value found : Value} {reader rest : Reader} :
    (pure value : Parser Failure Value) reader = .ok (found, rest) ↔
    value = found ∧ reader = rest := by
  change Except.ok (value, reader) = _ ↔ _
  simp

@[simp] theorem parser_check_ok_iff {check : Except Failure Value} {value : Value}
    {reader rest : Reader} :
    (liftM check : Parser Failure Value) reader = .ok (value, rest) ↔
    check = .ok value ∧ reader = rest := by
  cases check with
  | error failure =>
    change Except.error failure = _ ↔ _
    simp
  | ok found =>
    change Except.ok (found, reader) = _ ↔ _
    simp

/-- An invariant kept by every completed turn holds after a counted loop. -/
theorem readTimes_invariant {State : Type} {step : State → Parser Failure State} {count : Nat}
    {first last : State} {reader rest : Reader} (Holds : State → Prop)
    (keeps : ∀ state next before after, Holds state → step state before = .ok (next, after) →
      Holds next)
    (initial : Holds first)
    (done : readTimes step count first reader = .ok (last, rest)) : Holds last := by
  induction count generalizing first reader with
  | zero =>
    have same : first = last := (parser_pure_ok_iff.mp done).1
    exact same ▸ initial
  | succ count ih =>
    obtain ⟨next, middle, stepped, finished⟩ := parser_bind_ok_iff.mp done
    exact ih (keeps first next reader middle initial stepped) finished

theorem Parser.complete_ok {parser : Parser Failure Value} {trailing : Failure} {bytes : Bytes}
    {value : Value} (done : parser.complete trailing bytes = .ok value) :
    ∃ rest, parser ⟨bytes, 0⟩ = .ok (value, rest) ∧ rest.isFinished = true := by
  rw [Parser.complete, bind_ok_iff] at done
  obtain ⟨⟨found, rest⟩, ran, finished⟩ := done
  dsimp only at finished
  split at finished
  · rename_i complete
    cases finished
    exact ⟨rest, ran, complete⟩
  · cases finished

/-- The reader takes exactly the chunk, wherever it stands, for the value. -/
def Reads (parser : Parser Failure Value) (chunk : Bytes) (value : Value) : Prop :=
  ∀ before after, (before ++ (chunk ++ after)).length < sizeLimit →
    parser ⟨before ++ (chunk ++ after), before.length⟩ =
      .ok (value, ⟨before ++ (chunk ++ after), before.length + chunk.length⟩)

theorem reads_pure (value : Value) : Reads (pure value : Parser Failure Value) [] value :=
  fun _ _ _ => rfl

theorem Reads.bind {first : Parser Failure Value} {second : Value → Parser Failure Result}
    {left right : Bytes} {value : Value} {result : Result} (before : Reads first left value)
    (after : Reads (second value) right result) :
    Reads (first >>= second) (left ++ right) result := by
  intro prior later fits
  have inner : prior ++ (left ++ right ++ later) = prior ++ (left ++ (right ++ later)) := by simp
  have outer : prior ++ (left ++ right ++ later) = prior ++ left ++ (right ++ later) := by simp
  have reached := before prior (right ++ later) (inner ▸ fits)
  have continued := after (prior ++ left) later (outer ▸ fits)
  rw [← inner] at reached
  rw [← outer, List.length_append, Nat.add_assoc] at continued
  change (first _ >>= fun outcome => second outcome.1 outcome.2) = _
  rw [reached, List.length_append]
  exact continued

theorem Reads.determined {parser : Parser Failure Value} {chunk before after : Bytes}
    {value found : Value} {rest : Reader} (reads : Reads parser chunk value)
    (fits : (before ++ (chunk ++ after)).length < sizeLimit)
    (done : parser ⟨before ++ (chunk ++ after), before.length⟩ = .ok (found, rest)) :
    found = value ∧ rest = ⟨before ++ (chunk ++ after), (before ++ chunk).length⟩ := by
  rw [reads before after fits] at done
  cases done
  rw [List.length_append]
  exact ⟨rfl, rfl⟩

/-- The continuation takes nothing more. -/
theorem Reads.last {first : Parser Failure Value} {second : Value → Parser Failure Result}
    {chunk : Bytes} {value : Value} {result : Result} (before : Reads first chunk value)
    (after : Reads (second value) [] result) : Reads (first >>= second) chunk result := by
  have both : Reads (first >>= second) (chunk ++ []) result := before.bind after
  rwa [List.append_nil] at both

/-- The first part takes nothing. -/
theorem Reads.after {first : Parser Failure Value} {second : Value → Parser Failure Result}
    {chunk : Bytes} {value : Value} {result : Result} (before : Reads first [] value)
    (rest : Reads (second value) chunk result) : Reads (first >>= second) chunk result := by
  have both : Reads (first >>= second) ([] ++ chunk) result := before.bind rest
  rwa [List.nil_append] at both

theorem reads_check {check : Except Failure Value} {value : Value} (passes : check = .ok value) :
    Reads (liftM check : Parser Failure Value) [] value := by
  intro prior later _
  rw [passes]
  rfl

theorem Reads.map {parser : Parser Failure Value} {chunk : Bytes} {value : Value}
    (reads : Reads parser chunk value) (next : Value → Result) :
    Reads (do let found ← parser; pure (next found)) chunk (next value) :=
  reads.last (reads_pure (next value))

/-- A length prefix is in range wherever the prefixed chunk fits the input. -/
theorem Reads.ofFits {parser : Parser Failure Value} {chunk : Bytes} {value : Value}
    (reads : chunk.length < sizeLimit → Reads parser chunk value) : Reads parser chunk value := by
  intro prior later fits
  have bounded : chunk.length < sizeLimit := by
    simp only [List.length_append] at fits
    omega
  exact reads bounded prior later fits

/-- A counted loop over items: each step takes one item while the loop state is
good for the items that remain. -/
theorem reads_times {State Item : Type} {step : State → Parser Failure State} {image : Item → Bytes}
    {next : State → Item → State} (Good : State → List Item → Prop)
    (each : ∀ state item rest, Good state (item :: rest) →
      Reads (step state) (image item) (next state item) ∧ Good (next state item) rest)
    {items : List Item} {state : State} (good : Good state items) :
    Reads (readTimes step items.length state) (items.flatMap image) (items.foldl next state) := by
  induction items generalizing state with
  | nil => exact reads_pure state
  | cons item rest ih =>
    obtain ⟨taken, stillGood⟩ := each state item rest good
    exact taken.bind (ih stillGood)

theorem Reads.complete {parser : Parser Failure Value} {chunk : Bytes} {value : Value}
    (reads : Reads parser chunk value) (trailing : Failure) (fits : chunk.length < sizeLimit) :
    parser.complete trailing chunk = .ok value := by
  have taken := reads [] [] (by simpa using fits)
  simp only [List.nil_append, List.append_nil, List.length_nil, Nat.zero_add] at taken
  simp only [Parser.complete, taken]
  change (if (Reader.mk chunk chunk.length).isFinished then _ else _) = _
  simp [Reader.isFinished]

/-- The reader takes all that is left of the input for the value. -/
def ReadsRest (parser : Parser Failure Value) (chunk : Bytes) (value : Value) : Prop :=
  ∀ before, (before ++ chunk).length < sizeLimit →
    parser ⟨before ++ chunk, before.length⟩ =
      .ok (value, ⟨before ++ chunk, (before ++ chunk).length⟩)

theorem Reads.rest {parser : Parser Failure Value} {chunk : Bytes} {value : Value}
    (reads : Reads parser chunk value) : ReadsRest parser chunk value := by
  intro prior fits
  have taken := reads prior [] (by simpa using fits)
  simpa using taken

theorem Reads.bindRest {first : Parser Failure Value} {second : Value → Parser Failure Result}
    {left right : Bytes} {value : Value} {result : Result} (before : Reads first left value)
    (after : ReadsRest (second value) right result) :
    ReadsRest (first >>= second) (left ++ right) result := by
  intro prior fits
  have reached := before prior right fits
  have outer : prior ++ (left ++ right) = prior ++ left ++ right := by simp
  have continued := after (prior ++ left) (outer ▸ fits)
  rw [← outer, List.length_append] at continued
  change (first _ >>= fun outcome => second outcome.1 outcome.2) = _
  rw [reached]
  exact continued

theorem Reads.afterRest {first : Parser Failure Value} {second : Value → Parser Failure Result}
    {chunk : Bytes} {value : Value} {result : Result} (before : Reads first [] value)
    (rest : ReadsRest (second value) chunk result) : ReadsRest (first >>= second) chunk result :=
  before.bindRest rest

theorem ReadsRest.map {parser : Parser Failure Value} {chunk : Bytes} {value : Value}
    (reads : ReadsRest parser chunk value) (next : Value → Result) :
    ReadsRest (do let found ← parser; pure (next found)) chunk (next value) := by
  intro before fits
  change (parser _ >>= fun outcome => .ok (next outcome.1, outcome.2)) = _
  rw [reads before fits]
  rfl

theorem ReadsRest.whole {parser : Parser Failure Value} {chunk : Bytes} {value : Value}
    (reads : ReadsRest parser chunk value) (fits : chunk.length < sizeLimit) :
    parser ⟨chunk, 0⟩ = .ok (value, ⟨chunk, chunk.length⟩) :=
  reads [] fits

end Composition

section Reading

variable {Failure : Type} [FramingFailure Failure]

/-- `read_exact`, with the width of the result in its type. -/
def readFixed (width : Nat) :
    Parser Failure { chunk : Bytes // chunk.length = width } := fun reader =>
  if _addressable : reader.position + width < sizeLimit then
    if present : reader.position + width ≤ reader.bytes.length then
      .ok (⟨(reader.bytes.drop reader.position).take width, by
        rw [List.length_take, List.length_drop]; omega⟩,
        { reader with position := reader.position + width })
    else .error unexpectedEof
  else .error lengthOverflow

def readExact (width : Nat) : Parser Failure Bytes := do
  let chunk ← readFixed width
  pure chunk.1

/-- `read_u8`, `read_u16`, `read_u32` and `read_u64`. -/
def readNat (width : Nat) : Parser Failure Nat := do
  let chunk ← readFixed width
  pure (fromBigEndian chunk.1)

/-- `read_len`, on a machine whose sizes have 64 bits. -/
def readLen : Parser Failure Nat := readNat 8

/-- `read_vec` -/
def readVec : Parser Failure Bytes := do
  let length ← readLen
  readExact length

/-- Refuses another magic, then another version. -/
def readHeader (magic : Bytes) (version : Nat) (invalidMagic : Failure)
    (unsupportedVersion : Nat → Failure) : Parser Failure Unit := do
  let found ← readExact magic.length
  if found ≠ magic then throw invalidMagic
  let actual ← readNat 2
  if actual ≠ version then throw (unsupportedVersion actual)

theorem reads_fixed {width : Nat} (chunk : { chunk : Bytes // chunk.length = width }) :
    Reads (readFixed width : Parser Failure _) chunk.1 chunk := by
  intro prior later fits
  obtain ⟨chunk, rfl⟩ := chunk
  simp only [List.length_append] at fits
  have addressable : prior.length + chunk.length < sizeLimit := by omega
  have present : prior.length + chunk.length ≤ (prior ++ (chunk ++ later)).length := by
    simp only [List.length_append]
    omega
  simp only [readFixed, addressable, present, ↓reduceDIte, List.drop_left, List.take_left]

theorem reads_exact (chunk : Bytes) :
    Reads (readExact chunk.length : Parser Failure _) chunk chunk :=
  (reads_fixed ⟨chunk, rfl⟩).map Subtype.val

theorem reads_nat {width value : Nat} (bounded : value < 256 ^ width) :
    Reads (readNat width : Parser Failure _) (bigEndian width value) value := by
  have digits : Reads (readFixed width : Parser Failure _) (bigEndian width value)
      ⟨bigEndian width value, bigEndian_length width value⟩ :=
      reads_fixed ⟨bigEndian width value, bigEndian_length width value⟩
  have reads := digits.map fun chunk => fromBigEndian chunk.1
  rwa [fromBigEndian_bigEndian bounded] at reads

theorem reads_header (magic : Bytes) {version : Nat} (bounded : version < 256 ^ 2)
    (invalidMagic : Failure) (unsupportedVersion : Nat → Failure) :
    Reads (readHeader magic version invalidMagic unsupportedVersion)
      (magic ++ bigEndian 2 version) () := by
  refine (reads_exact magic).bind ?_
  simp only [ne_eq, not_true_eq_false, ↓reduceIte]
  refine (reads_nat bounded).last ?_
  simp only [not_true_eq_false, ↓reduceIte]
  exact reads_pure ()

theorem reads_len {length : Nat} (bounded : length < sizeLimit) :
    Reads (readLen : Parser Failure _) (bigEndian 8 length) length :=
  reads_nat bounded

theorem reads_vec (chunk : Bytes) :
    Reads (readVec : Parser Failure _) (bigEndian 8 chunk.length ++ chunk) chunk := by
  apply Reads.ofFits
  intro fits
  rw [List.length_append] at fits
  exact (reads_len (by omega)).bind (reads_exact chunk)

end Reading

end PrivateContinuum.Library
