import Mathlib.Data.List.Induction
import Mathlib.Tactic.Linarith
import Mathlib.Tactic.IntervalCases

/-!
# The canonical form of CBOR items

The canonical form uses the narrowest head for integers, lengths and counts, has no tags and no
indefinite lengths, and puts the keys of a map in strictly increasing order.
-/

namespace SoftwareAuthenticator.Cbor

variable {n : ℕ}

def bigEndian : ℕ → ℕ → List UInt8
  | 0, _ => []
  | width + 1, n => bigEndian width (n / 256) ++ [UInt8.ofNat n]

def ofBigEndian (raw : List UInt8) : ℕ := raw.foldl (fun acc byte => acc * 256 + byte.toNat) 0

@[simp] theorem length_bigEndian (width n : ℕ) : (bigEndian width n).length = width := by
  induction width generalizing n with
  | zero => rfl
  | succ width ih => rw [bigEndian, List.length_append, ih, List.length_singleton]

theorem ofBigEndian_append (raw : List UInt8) (byte : UInt8) :
    ofBigEndian (raw ++ [byte]) = ofBigEndian raw * 256 + byte.toNat := by
  rw [ofBigEndian, List.foldl_append]
  rfl

theorem ofBigEndian_bigEndian {width : ℕ} (h : n < 256 ^ width) :
    ofBigEndian (bigEndian width n) = n := by
  induction width generalizing n with
  | zero =>
    rw [pow_zero] at h
    rw [Nat.lt_one_iff.mp h]
    rfl
  | succ width ih =>
    have hdiv : n / 256 < 256 ^ width := by
      rw [pow_succ] at h
      omega
    rw [bigEndian, ofBigEndian_append, ih hdiv, UInt8.toNat_ofNat']
    omega

theorem bigEndian_ofBigEndian (raw : List UInt8) :
    bigEndian raw.length (ofBigEndian raw) = raw := by
  induction raw using List.reverseRecOn with
  | nil => rfl
  | append_singleton raw byte ih =>
    have hbyte := byte.toNat_lt
    have hdiv : (ofBigEndian raw * 256 + byte.toNat) / 256 = ofBigEndian raw := by omega
    have hmod : UInt8.ofNat (ofBigEndian raw * 256 + byte.toNat) = byte := by
      apply UInt8.toNat_inj.mp
      rw [UInt8.toNat_ofNat']
      omega
    rw [List.length_append, List.length_singleton, bigEndian, ofBigEndian_append, hdiv, ih, hmod]

theorem ofBigEndian_lt (raw : List UInt8) : ofBigEndian raw < 256 ^ raw.length := by
  induction raw using List.reverseRecOn with
  | nil => exact Nat.one_pos
  | append_singleton raw byte ih =>
    have hbyte := byte.toNat_lt
    rw [ofBigEndian_append, List.length_append, List.length_singleton, pow_succ]
    omega

/-- The initial byte: three bits of major type, five of additional information. -/
def initialByte (major info : ℕ) : UInt8 := UInt8.ofNat (32 * major + info)

theorem toNat_initialByte {major info : ℕ} (hmajor : major < 8) (hinfo : info < 32) :
    (initialByte major info).toNat = 32 * major + info := by
  rw [initialByte, UInt8.toNat_ofNat']
  omega

theorem initialByte_divMod (byte : UInt8) :
    initialByte (byte.toNat / 32) (byte.toNat % 32) = byte := by
  apply UInt8.toNat_inj.mp
  have hbyte := byte.toNat_lt
  rw [toNat_initialByte (by omega) (by omega)]
  omega

/-- The least argument that needs the width with additional information `24 + k`. -/
def leastWide (k : ℕ) : ℕ := if k = 0 then 24 else 256 ^ 2 ^ (k - 1)

def head (major n : ℕ) : List UInt8 :=
  if n < 24 then [initialByte major n]
  else if n < 2 ^ 8 then initialByte major 24 :: bigEndian 1 n
  else if n < 2 ^ 16 then initialByte major 25 :: bigEndian 2 n
  else if n < 2 ^ 32 then initialByte major 26 :: bigEndian 4 n
  else initialByte major 27 :: bigEndian 8 n

theorem head_immediate (major : ℕ) (h : n < 24) : head major n = [initialByte major n] :=
  if_pos h

/-- Where the argument does not fit a narrower head, the head has `2 ^ k` argument bytes. -/
theorem head_wide {k : ℕ} (major : ℕ) (hk : k < 4) (hle : leastWide k ≤ n) (hlt : n < 256 ^ 2 ^ k) :
    head major n = initialByte major (24 + k) :: bigEndian (2 ^ k) n := by
  unfold head
  interval_cases k <;> simp only [leastWide] at hle <;> norm_num at hle hlt ⊢
  · rw [if_neg (by omega), if_pos hlt]
  · rw [if_neg (by omega), if_neg (by omega), if_pos hlt]
  · rw [if_neg (by omega), if_neg (by omega), if_neg (by omega), if_pos hlt]
  · rw [if_neg (by omega), if_neg (by omega), if_neg (by omega), if_neg (by omega)]

/-- Every argument of up to 64 bits has a head of one of the two forms. -/
theorem immediate_or_wide (h : n < 2 ^ 64) :
    n < 24 ∨ ∃ k < 4, leastWide k ≤ n ∧ n < 256 ^ 2 ^ k := by
  by_cases h24 : n < 24
  · exact .inl h24
  right
  by_cases h8 : n < 256
  · exact ⟨0, by omega, by simpa [leastWide] using Nat.le_of_not_lt h24, by omega⟩
  by_cases h16 : n < 65536
  · exact ⟨1, by omega, by simpa [leastWide] using Nat.le_of_not_lt h8, by omega⟩
  by_cases h32 : n < 4294967296
  · exact ⟨2, by omega, by simpa [leastWide] using Nat.le_of_not_lt h16, by omega⟩
  · exact ⟨3, by omega, by simpa [leastWide] using Nat.le_of_not_lt h32, by omega⟩

theorem head_ne_nil (major n : ℕ) : head major n ≠ [] := by
  unfold head
  split_ifs <;> exact List.cons_ne_nil _ _

def majorType (key : List UInt8) : ℕ := (key.headD 0).toNat / 32

/-- By major type, then by encoded length, then byte by byte. -/
def KeyLt (a b : List UInt8) : Prop :=
  majorType a < majorType b ∨ majorType a = majorType b ∧
    (a.length < b.length ∨ a.length = b.length ∧ a < b)

theorem KeyLt.irrefl (a : List UInt8) : ¬ KeyLt a a := by
  rintro (h | ⟨-, h | ⟨-, h⟩⟩)
  · exact lt_irrefl _ h
  · exact lt_irrefl _ h
  · exact List.lt_irrefl a h

theorem KeyLt.trans {a b c : List UInt8} (hab : KeyLt a b) (hbc : KeyLt b c) : KeyLt a c := by
  rcases hab with hab | ⟨hab, hab' | ⟨hab', hlt⟩⟩ <;> rcases hbc with hbc | ⟨hbc, hbc' | ⟨hbc', hlt'⟩⟩
  case inr.inr.inr.inr => exact .inr ⟨hab.trans hbc, .inr ⟨hab'.trans hbc', List.lt_trans hlt hlt'⟩⟩
  all_goals first
    | exact .inl (by omega)
    | exact .inr ⟨by omega, .inl (by omega)⟩

instance : Trans KeyLt KeyLt KeyLt := ⟨KeyLt.trans⟩

theorem nodup_of_sorted {keys : List (List UInt8)} (h : keys.Pairwise KeyLt) : keys.Nodup := by
  refine h.imp ?_
  rintro a b hlt rfl
  exact KeyLt.irrefl a hlt

/-- `Item levels w`: the bytes `w` are one canonical data item in which arrays and maps
are nested at most `levels` deep. -/
inductive Item : ℕ → List UInt8 → Prop
  | unsigned {levels n : ℕ} (hn : n < 2 ^ 64) : Item levels (head 0 n)
  | negative {levels n : ℕ} (hn : n < 2 ^ 64) : Item levels (head 1 n)
  | byteString {levels : ℕ} {s : List UInt8} (hs : s.length < 2 ^ 64) :
      Item levels (head 2 s.length ++ s)
  | textString {levels : ℕ} {s : List UInt8} (hs : s.length < 2 ^ 64) :
      Item levels (head 3 s.length ++ s)
  | simple {levels n : ℕ} (hn : n < 24 ∨ 32 ≤ n ∧ n < 256) : Item levels (head 7 n)
  | float {levels k : ℕ} {raw : List UInt8} (hk : 1 ≤ k ∧ k ≤ 3) (hraw : raw.length = 2 ^ k) :
      Item levels (initialByte 7 (24 + k) :: raw)
  | array {levels : ℕ} {items : List (List UInt8)} (hlen : items.length < 2 ^ 64)
      (hitems : ∀ item ∈ items, Item levels item) :
      Item (levels + 1) (head 4 items.length ++ items.flatten)
  | map {levels : ℕ} {entries : List (List UInt8 × List UInt8)} (hlen : entries.length < 2 ^ 64)
      (hkeys : ∀ entry ∈ entries, Item levels entry.1)
      (hvalues : ∀ entry ∈ entries, Item levels entry.2)
      (hsorted : (entries.map Prod.fst).Pairwise KeyLt) :
      Item (levels + 1) (head 5 entries.length ++ entries.flatMap fun entry => entry.1 ++ entry.2)

theorem Item.ne_nil {levels : ℕ} {w : List UInt8} (h : Item levels w) : w ≠ [] := by
  cases h with
  | unsigned | negative => exact head_ne_nil _ _
  | byteString | textString => exact List.append_ne_nil_of_left_ne_nil (head_ne_nil _ _) _
  | simple _ => exact head_ne_nil _ _
  | float _ _ => exact List.cons_ne_nil _ _
  | array | map => exact List.append_ne_nil_of_left_ne_nil (head_ne_nil _ _) _

end SoftwareAuthenticator.Cbor
