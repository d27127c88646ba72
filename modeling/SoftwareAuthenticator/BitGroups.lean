import Mathlib.Data.Nat.Bitwise

/-!
# Groups of bits in a byte string

A byte string is a stream of bits, the least significant bit of each byte first, cut into groups
of one width. A number that serves as a buffer holds the bits from a position of the stream on.
-/

namespace SoftwareAuthenticator

def bitAt (bytes : List UInt8) (i : ℕ) : Bool := (bytes.getD (i / 8) 0).toNat.testBit (i % 8)

/-- The number that the `i`th group of `width` bits spells. -/
def bitGroup (stream : ℕ → Bool) (width i : ℕ) : ℕ :=
  Nat.ofBits fun bit : Fin width => stream (width * i + bit)

/-- The buffer `acc` has the `count` bits from `start` on, and no others. -/
def Buffers (stream : ℕ → Bool) (start count acc : ℕ) : Prop :=
  ∀ j, acc.testBit j = (decide (j < count) && stream (start + j))

variable {stream : ℕ → Bool} {start count width acc next : ℕ}

theorem buffers_zero (stream : ℕ → Bool) (start : ℕ) : Buffers stream start 0 0 := by
  intro j
  simp

theorem Buffers.lt (h : Buffers stream start count acc) : acc < 2 ^ count := by
  apply Nat.lt_pow_two_of_testBit
  intro j hj
  simp [h j, Nat.not_lt.mpr hj]

theorem Buffers.push (h : Buffers stream start count acc)
    (hnext : Buffers stream (start + count) width next) :
    Buffers stream start (count + width) (acc ||| next <<< count) := by
  intro j
  rw [Nat.testBit_or, Nat.testBit_shiftLeft, h j, hnext (j - count)]
  by_cases hj : j < count
  · simp [hj, Nat.lt_add_right width hj]
  · have hge : count ≤ j := Nat.le_of_not_lt hj
    have hroom : j - count < width ↔ j < count + width := by omega
    have hplace : start + count + (j - count) = start + j := by omega
    simp [hj, hge, hroom, hplace]

theorem Buffers.low (h : Buffers stream start count acc) (hwidth : width ≤ count) :
    Buffers stream start width (acc % 2 ^ width) := by
  intro j
  rw [Nat.testBit_mod_two_pow, h j]
  by_cases hj : j < width
  · simp [hj, Nat.lt_of_lt_of_le hj hwidth]
  · simp [hj]

theorem Buffers.pop (h : Buffers stream start count acc) :
    Buffers stream (start + width) (count - width) (acc >>> width) := by
  intro j
  have hroom : width + j < count ↔ j < count - width := by omega
  rw [Nat.testBit_shiftRight, h (width + j), Nat.add_assoc]
  simp [hroom]

theorem Buffers.shift {offset : ℕ} (h : Buffers stream (offset + start) count acc) :
    Buffers (fun i => stream (offset + i)) start count acc := by
  intro j
  rw [h j, Nat.add_assoc]

theorem Buffers.eq_bitGroup {i : ℕ} (h : Buffers stream (width * i) width acc) :
    acc = bitGroup stream width i := by
  apply Nat.eq_of_testBit_eq
  intro j
  rw [h j]
  by_cases hj : j < width
  · rw [bitGroup, Nat.testBit_ofBits_lt _ j hj]
    simp [hj]
  · rw [bitGroup, Nat.testBit_ofBits_ge _ j (Nat.le_of_not_lt hj)]
    simp [hj]

theorem buffers_byte (bytes : List UInt8) (n : ℕ) :
    Buffers (bitAt bytes) (8 * n) 8 (bytes.getD n 0).toNat := by
  intro j
  by_cases hj : j < 8
  · have hbyte : (8 * n + j) / 8 = n := by omega
    have hbit : (8 * n + j) % 8 = j := by omega
    simp [bitAt, hj, hbyte, hbit]
  · have hsmall : (bytes.getD n 0).toNat < 2 ^ j :=
      Nat.lt_of_lt_of_le (bytes.getD n 0).toNat_lt
        (Nat.pow_le_pow_right (by decide) (Nat.le_of_not_lt hj))
    rw [Nat.testBit_lt_two_pow hsmall]
    simp [hj]

end SoftwareAuthenticator
