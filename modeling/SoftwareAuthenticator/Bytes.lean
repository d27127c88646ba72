import Mathlib.Data.List.Basic
import Mathlib.Tactic.Linarith

/-!
# Byte strings and the integers written into them

Integers are written big-endian. Clocks are natural numbers, and the additions that the source
marks as saturating stop at the largest 64-bit value.
-/

namespace SoftwareAuthenticator

abbrev Bytes := List UInt8

def beBytes32 (n : UInt32) : Bytes :=
  [(n >>> 24).toUInt8, (n >>> 16).toUInt8, (n >>> 8).toUInt8, n.toUInt8]

def beBytes16 (n : UInt16) : Bytes := [(n >>> 8).toUInt8, n.toUInt8]

def ofBeBytes32 (a b c d : UInt8) : UInt32 :=
  UInt32.ofNat (((a.toNat * 256 + b.toNat) * 256 + c.toNat) * 256 + d.toNat)

def ofBeBytes16 (a b : UInt8) : ℕ := a.toNat * 256 + b.toNat

/-- `slice.get(from..to)`: the bytes between two positions, if both are in range. -/
def slice (xs : Bytes) (start stop : ℕ) : Option Bytes :=
  if start ≤ stop ∧ stop ≤ xs.length then some ((xs.drop start).take (stop - start)) else none

def maxU64 : ℕ := 2 ^ 64 - 1

def saturatingAdd (a b : ℕ) : ℕ := min (a + b) maxU64

/-- `u64::checked_add`, or an addition that must not overflow. -/
def checkedAdd (a b : ℕ) : Option ℕ := if a + b < 2 ^ 64 then some (a + b) else none

def checkedSub (a b : ℕ) : Option ℕ := if b ≤ a then some (a - b) else none

def checkedMul (a b : ℕ) : Option ℕ := if a * b < 2 ^ 64 then some (a * b) else none

theorem checkedAdd_eq {a b : ℕ} (h : a + b < 2 ^ 64) : checkedAdd a b = some (a + b) := if_pos h

theorem checkedSub_eq {a b : ℕ} (h : b ≤ a) : checkedSub a b = some (a - b) := if_pos h

theorem checkedMul_eq {a b : ℕ} (h : a * b < 2 ^ 64) : checkedMul a b = some (a * b) := if_pos h

@[simp] theorem length_beBytes32 (n : UInt32) : (beBytes32 n).length = 4 := rfl

theorem ofBeBytes32_beBytes32 (n : UInt32) :
    ofBeBytes32 (n >>> 24).toUInt8 (n >>> 16).toUInt8 (n >>> 8).toUInt8 n.toUInt8 = n := by
  have hn := n.toNat_lt
  have e24 : (24 : UInt32).toNat % 32 = 24 := rfl
  have e16 : (16 : UInt32).toNat % 32 = 16 := rfl
  have e8 : (8 : UInt32).toNat % 32 = 8 := rfl
  apply UInt32.toNat_inj.mp
  simp only [ofBeBytes32, UInt32.toNat_toUInt8, UInt32.toNat_shiftRight,
    Nat.shiftRight_eq_div_pow, e24, e16, e8, UInt32.toNat_ofNat']
  omega

theorem beBytes32_injective : Function.Injective beBytes32 := by
  intro m n h
  simp only [beBytes32, List.cons.injEq, and_true] at h
  obtain ⟨h24, h16, h8, h0⟩ := h
  rw [← ofBeBytes32_beBytes32 m, h24, h16, h8, h0, ofBeBytes32_beBytes32]

theorem beBytes32_ofBeBytes32 (a b c d : UInt8) :
    beBytes32 (ofBeBytes32 a b c d) = [a, b, c, d] := by
  have e24 : (24 : UInt32).toNat % 32 = 24 := rfl
  have e16 : (16 : UInt32).toNat % 32 = 16 := rfl
  have e8 : (8 : UInt32).toNat % 32 = 8 := rfl
  have ha := a.toNat_lt
  have hb := b.toNat_lt
  have hc := c.toNat_lt
  have hd := d.toNat_lt
  simp only [beBytes32, ofBeBytes32, List.cons.injEq, and_true, ← UInt8.toNat_inj,
    UInt32.toNat_toUInt8, UInt32.toNat_shiftRight, Nat.shiftRight_eq_div_pow, e24, e16, e8,
    UInt32.toNat_ofNat']
  omega

end SoftwareAuthenticator
