import PrivateContinuum.Library.Bytes

/-! Shift registers with feedback over bits, and what they make of a change that is
no longer than they are wide. -/

namespace PrivateContinuum.Library

section Registers

variable {width : Nat} {taps left right register : BitVec width}

/-- Shifts towards the lowest bit. The taps are added whenever a set bit falls out. -/
def shiftBit (taps register : BitVec width) : BitVec width :=
  if register.getLsbD 0 then (register >>> 1) ^^^ taps else register >>> 1

def shiftBits (taps : BitVec width) : Nat → BitVec width → BitVec width
  | 0, register => register
  | count + 1, register => shiftBits taps count (shiftBit taps register)

/-- A byte is added to the low bits and shifted out. -/
def absorb (taps register : BitVec width) (byte : UInt8) : BitVec width :=
  shiftBits taps 8 (register ^^^ byte.toBitVec.setWidth width)

/-- The bytes as one word, the first one lowest. -/
def lowWord (width : Nat) : Bytes → BitVec width
  | [] => 0
  | byte :: rest => byte.toBitVec.setWidth width ^^^ (lowWord width rest <<< 8)

theorem shiftBit_xor :
    shiftBit taps (left ^^^ right) = shiftBit taps left ^^^ shiftBit taps right := by
  have swap : ∀ first second : BitVec width, first ^^^ taps ^^^ second =
      first ^^^ second ^^^ taps := by
    intro first second
    rw [BitVec.xor_assoc, BitVec.xor_comm taps, BitVec.xor_assoc]
  have cancel : ∀ first second : BitVec width, first ^^^ taps ^^^ (second ^^^ taps) =
      first ^^^ second := by
    intro first second
    rw [swap, ← BitVec.xor_assoc, BitVec.xor_assoc _ taps taps, BitVec.xor_self, BitVec.xor_zero]
  unfold shiftBit
  rw [BitVec.getLsbD_xor, BitVec.ushiftRight_xor_distrib]
  cases left.getLsbD 0 with
  | false =>
    cases right.getLsbD 0 with
    | false => rfl
    | true => exact BitVec.xor_assoc _ _ _
  | true =>
    cases right.getLsbD 0 with
    | false => exact (swap _ _).symm
    | true => exact (cancel _ _).symm

theorem shiftBits_xor (count : Nat) :
    shiftBits taps count (left ^^^ right) =
      shiftBits taps count left ^^^ shiftBits taps count right := by
  induction count generalizing left right with
  | zero => rfl
  | succ count ih => rw [shiftBits, shiftBit_xor, ih, shiftBits, shiftBits]

theorem shiftBits_add (first second : Nat) :
    shiftBits taps (first + second) register = shiftBits taps second
      (shiftBits taps first register) := by
  induction first generalizing register with
  | zero => rw [Nat.zero_add, shiftBits]
  | succ first ih => rw [Nat.succ_add, shiftBits, ih, shiftBits]

/-- With the highest tap set, the highest bit after a shift is the bit that fell out. -/
theorem msb_shiftBit (closed : taps.msb = true) :
    (shiftBit taps register).msb = register.getLsbD 0 := by
  have vacated : (register >>> 1).msb = false := by
    rw [BitVec.msb_ushiftRight]
    simp
  unfold shiftBit
  by_cases falls : register.getLsbD 0 = true
  · rw [if_pos falls, BitVec.msb_xor, vacated, closed, falls]
    rfl
  · rw [if_neg falls, vacated]
    exact (Bool.eq_false_iff.mpr falls).symm

/-- Such a register forgets nothing. -/
theorem shiftBit_injective (closed : taps.msb = true) : Function.Injective (shiftBit taps) := by
  intro left right same
  have lowest : left.getLsbD 0 = right.getLsbD 0 := by
    rw [← msb_shiftBit closed, ← msb_shiftBit closed, same]
  have others : left >>> 1 = right >>> 1 := by
    unfold shiftBit at same
    rw [lowest] at same
    by_cases falls : right.getLsbD 0 = true
    · rw [if_pos falls, if_pos falls] at same
      exact (BitVec.xor_left_inj taps).mp same
    · rw [if_neg falls, if_neg falls] at same
      exact same
  apply BitVec.eq_of_getLsbD_eq
  intro index inside
  cases index with
  | zero => exact lowest
  | succ index =>
    have shifted := congrArg (fun register => register.getLsbD index) others
    simpa [BitVec.getLsbD_ushiftRight, Nat.add_comm] using shifted

theorem shiftBits_injective (closed : taps.msb = true) (count : Nat) :
    Function.Injective (shiftBits taps count) := by
  induction count with
  | zero => exact fun _ _ same => same
  | succ count ih => exact fun _ _ same => shiftBit_injective closed (ih same)

theorem foldl_absorb_injective (closed : taps.msb = true) (bytes : Bytes) :
    Function.Injective fun register => bytes.foldl (absorb taps) register := by
  induction bytes with
  | nil => exact fun _ _ same => same
  | cons byte rest ih =>
    intro left right same
    have absorbed : absorb taps left byte = absorb taps right byte := ih same
    exact (BitVec.xor_left_inj _).mp (shiftBits_injective closed 8 absorbed)

/-- No bit is set from the given place on. -/
def Within (register : BitVec width) (bits : Nat) : Prop :=
  ∀ index, bits ≤ index → register.getLsbD index = false

/-- A word that was moved up comes down again without feedback. -/
theorem shiftBits_shiftLeft {bits count : Nat} (within : Within register bits)
    (fits : bits + count ≤ width) :
    shiftBits taps count (register <<< count) = register := by
  induction count with
  | zero => exact BitVec.shiftLeft_zero register
  | succ count ih =>
    have lowest : (register <<< (count + 1)).getLsbD 0 = false := by
      rw [BitVec.getLsbD_shiftLeft]
      simp
    have down : (register <<< (count + 1)) >>> 1 = register <<< count := by
      apply BitVec.eq_of_getLsbD_eq
      intro index inside
      rw [BitVec.getLsbD_ushiftRight, BitVec.getLsbD_shiftLeft, BitVec.getLsbD_shiftLeft]
      have same : 1 + index - (count + 1) = index - count := by omega
      rw [same]
      by_cases top : 1 + index < width
      · have below : (1 + index < count + 1) ↔ index < count := by omega
        simp [top, inside, below]
      · have clear := within (index - count) (by omega)
        simp [clear]
    rw [shiftBits, shiftBit, if_neg (by rw [lowest]; decide), down]
    exact ih (by omega)

theorem within_byte (byte : UInt8) : Within (byte.toBitVec.setWidth width) 8 := by
  intro index high
  rw [BitVec.getLsbD_setWidth, BitVec.getLsbD_of_ge _ _ high, Bool.and_false]

theorem within_lowWord (bytes : Bytes) : Within (lowWord width bytes) (8 * bytes.length) := by
  induction bytes with
  | nil =>
    intro index _
    exact BitVec.getLsbD_zero
  | cons byte rest ih =>
    intro index high
    rw [List.length_cons] at high
    have upper := ih (index - 8) (by omega)
    rw [lowWord, BitVec.getLsbD_xor, within_byte byte index (by omega),
      BitVec.getLsbD_shiftLeft, upper]
    simp

/-- Bytes that the register is wide enough for are absorbed as one word. -/
theorem foldl_absorb {bytes : Bytes} (narrow : 8 * bytes.length ≤ width) :
    bytes.foldl (absorb taps) register = shiftBits taps (8 * bytes.length)
      (register ^^^ lowWord width bytes) := by
  induction bytes generalizing register with
  | nil =>
    change register = register ^^^ BitVec.zero width
    rw [BitVec.zero_eq, BitVec.xor_zero]
  | cons byte rest ih =>
    rw [List.length_cons] at narrow
    have moved : shiftBits taps 8 (lowWord width rest <<< 8) = lowWord width rest :=
      shiftBits_shiftLeft (within_lowWord rest) (by omega)
    have split : 8 * (byte :: rest).length = 8 + 8 * rest.length := by
      rw [List.length_cons]
      omega
    have joined : shiftBits taps 8 (register ^^^ lowWord width (byte :: rest)) =
        absorb taps register byte ^^^ lowWord width rest := by
      rw [lowWord, ← BitVec.xor_assoc, shiftBits_xor, moved, absorb]
    rw [List.foldl_cons, ih (by omega), split, shiftBits_add, joined]

/-- The word of few enough bytes determines them. -/
theorem lowWord_inj {bytes others : Bytes} (narrow : 8 * bytes.length ≤ width)
    (counted : bytes.length = others.length)
    (same : lowWord width bytes = lowWord width others) : bytes = others := by
  induction bytes generalizing others with
  | nil => exact (List.eq_nil_of_length_eq_zero counted.symm).symm
  | cons byte rest ih =>
    cases others with
    | nil => cases counted
    | cons other further =>
      rw [List.length_cons] at narrow
      rw [List.length_cons, List.length_cons, Nat.add_right_cancel_iff] at counted
      have lowest : byte = other := by
        apply UInt8.toBitVec_inj.mp
        apply BitVec.eq_of_getLsbD_eq
        intro index inside
        have bit := congrArg (fun word => word.getLsbD index) same
        simpa [lowWord, BitVec.getLsbD_shiftLeft, BitVec.getLsbD_setWidth, inside,
          show index < width by omega] using bit
      subst lowest
      have upper : lowWord width rest <<< 8 = lowWord width further <<< 8 :=
        (BitVec.xor_right_inj _).mp same
      have down : ∀ tail : Bytes, 8 * tail.length + 8 ≤ width →
          shiftBits (0 : BitVec width) 8 (lowWord width tail <<< 8) = lowWord width tail :=
        fun tail room => shiftBits_shiftLeft (within_lowWord tail) room
      have moved : lowWord width rest = lowWord width further := by
        rw [← down rest (by omega), upper, down further (by omega)]
      rw [ih (by omega) counted moved]

/-- A change of some bytes, few enough for the register, changes what it ends with. -/
theorem burst_detected (closed : taps.msb = true) {before changed others after : Bytes}
    (narrow : 8 * changed.length ≤ width) (counted : changed.length = others.length)
    (same : (before ++ (changed ++ after)).foldl (absorb taps) register =
      (before ++ (others ++ after)).foldl (absorb taps) register) : changed = others := by
  rw [List.foldl_append, List.foldl_append, List.foldl_append, List.foldl_append] at same
  have middle := foldl_absorb_injective closed after same
  have narrow' : 8 * others.length ≤ width := counted ▸ narrow
  rw [foldl_absorb narrow, foldl_absorb narrow', counted] at middle
  have words := (BitVec.xor_right_inj _).mp (shiftBits_injective closed _ middle)
  exact lowWord_inj narrow counted words

end Registers

end PrivateContinuum.Library
