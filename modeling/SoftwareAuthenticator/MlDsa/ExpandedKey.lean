import Mathlib.Data.List.Induction
import SoftwareAuthenticator.BitGroups
import SoftwareAuthenticator.Bytes

/-!
# Expanded ML-DSA secret keys

An expanded key is `ρ (32) || K (32) || tr (64) || s1 || s2 || t0`. The coefficients of `s1` and
`s2` are packed without gaps; the check goes over the packed bytes once, and carries the bits of
an unfinished coefficient from byte to byte.
-/

namespace SoftwareAuthenticator.MlDsa

inductive ParamSet
  | mldsa44
  | mldsa65
  | mldsa87
  deriving DecidableEq, Repr

/-- How coefficients are packed. The accumulator has room for an unfinished coefficient and
one more byte. -/
structure Packing where
  bits : ℕ
  max : UInt32
  positive : 0 < bits
  narrow : bits + 7 ≤ 32

/-- The variables of the loop, and the fields that were compared so far. -/
structure Scan where
  acc : UInt32 := 0
  accBits : ℕ := 0
  outOfRange : UInt32 := 0
  examined : List UInt32 := []

namespace ParamSet

/-- `(η, k + ℓ)`. -/
def secretVectorLayout : ParamSet → UInt8 × ℕ
  | .mldsa44 => (2, 4 + 4)
  | .mldsa65 => (4, 6 + 5)
  | .mldsa87 => (2, 8 + 7)

/-- The length of the expanded encoding in `try_lengths`. -/
def secretKeyLen : ParamSet → ℕ
  | .mldsa44 => 2560
  | .mldsa65 => 4032
  | .mldsa87 => 4896

def maxField (ps : ParamSet) : UInt32 := (2 * ps.secretVectorLayout.1).toUInt32

def packing (ps : ParamSet) : Packing where
  bits := 32 - ps.maxField.toBitVec.clz.toNat
  max := ps.maxField
  positive := by cases ps <;> decide
  narrow := by cases ps <;> decide

end ParamSet

namespace Packing

def mask (p : Packing) : UInt32 := (1 <<< UInt32.ofNat p.bits) - 1

def push (byte : UInt8) (scan : Scan) : Scan :=
  { scan with
    acc := scan.acc ||| byte.toUInt32 <<< UInt32.ofNat scan.accBits
    accBits := scan.accBits + 8 }

def examine (p : Packing) (scan : Scan) : Scan where
  acc := scan.acc >>> UInt32.ofNat p.bits
  accBits := scan.accBits - p.bits
  outOfRange := scan.outOfRange ||| if scan.acc &&& p.mask > p.max then 1 else 0
  examined := scan.examined ++ [scan.acc &&& p.mask]

def drain (p : Packing) (scan : Scan) : Scan :=
  if p.bits ≤ scan.accBits then p.drain (p.examine scan) else scan
termination_by scan.accBits
decreasing_by
  have := p.positive
  simp only [examine]
  omega

def scan (p : Packing) (packed : Bytes) : Scan :=
  packed.foldl (fun scan byte => p.drain (push byte scan)) {}

end Packing

def headerLen : ℕ := 32 + 32 + 64

def coefficients : ℕ := 256

def packedLen (ps : ParamSet) : ℕ := ps.secretVectorLayout.2 * coefficients * ps.packing.bits / 8

def packedCoefficients (ps : ParamSet) (sk : Bytes) : Option Bytes :=
  slice sk headerLen (headerLen + packedLen ps)

def expandedKeyIsWellFormed (ps : ParamSet) (sk : Bytes) : Bool :=
  match packedCoefficients ps sk with
  | none => false
  | some packed => (ps.packing.scan packed).outOfRange == 0

inductive MlDsaError
  | invalidKeyLength
  deriving DecidableEq, Repr

/-- `decode_expanded`; `none` if the backend's decoder panics. -/
def decodeExpanded {Key : Type} (fromExpanded : Bytes → Option Key) (ps : ParamSet) (sk : Bytes) :
    Option (Except MlDsaError Key) :=
  if sk.length = ps.secretKeyLen then
    if expandedKeyIsWellFormed ps sk then (fromExpanded sk).map .ok
    else some (.error .invalidKeyLength)
  else some (.error .invalidKeyLength)

namespace Packing

variable {p : Packing} {stream : ℕ → Bool} {n : ℕ} {scan : Scan}

/-- After `n` bytes: the fields that were compared are the first groups of the stream, and
the accumulator has the bits after them. -/
structure Reads (p : Packing) (stream : ℕ → Bool) (n : ℕ) (scan : Scan) : Prop where
  buffers : Buffers stream (p.bits * scan.examined.length) scan.accBits scan.acc.toNat
  position : p.bits * scan.examined.length + scan.accBits = 8 * n
  fields : scan.examined.map UInt32.toNat =
    (List.range scan.examined.length).map (bitGroup stream p.bits)
  outOfRange : scan.outOfRange = 0 ↔ ∀ field ∈ scan.examined, field ≤ p.max

theorem reads_start (p : Packing) (stream : ℕ → Bool) : p.Reads stream 0 {} where
  buffers := buffers_zero stream _
  position := rfl
  fields := rfl
  outOfRange := by simp

theorem toNat_shift {count : ℕ} (h : count < 32) : (UInt32.ofNat count).toNat % 32 = count := by
  rw [UInt32.toNat_ofNat', Nat.mod_eq_of_lt (show count < 2 ^ 32 by omega), Nat.mod_eq_of_lt h]

theorem toNat_mask (p : Packing) : p.mask.toNat = 2 ^ p.bits - 1 := by
  have hbits : p.bits < 32 := by
    have := p.narrow
    omega
  have hone : (1 <<< UInt32.ofNat p.bits : UInt32).toNat = 2 ^ p.bits := by
    rw [UInt32.toNat_shiftLeft, toNat_shift hbits, UInt32.toNat_one, Nat.one_shiftLeft]
    exact Nat.mod_eq_of_lt (Nat.pow_lt_pow_right (by decide) hbits)
  have hle : (1 : UInt32) ≤ 1 <<< UInt32.ofNat p.bits := by
    rw [UInt32.le_iff_toNat_le, hone]
    exact Nat.one_le_two_pow
  rw [mask, UInt32.toNat_sub_of_le _ _ hle, hone, UInt32.toNat_one]

/-- No bit of the byte is lost, and the shift is one of a 32-bit word. -/
theorem toNat_push {byte : UInt8} (hroom : scan.accBits + 8 ≤ 32) :
    (push byte scan).acc.toNat = scan.acc.toNat ||| byte.toNat <<< scan.accBits := by
  have hbyte : byte.toNat <<< scan.accBits < 2 ^ 32 := by
    rw [Nat.shiftLeft_eq]
    calc byte.toNat * 2 ^ scan.accBits < 2 ^ 8 * 2 ^ scan.accBits :=
          Nat.mul_lt_mul_of_pos_right byte.toNat_lt (Nat.two_pow_pos _)
      _ = 2 ^ (8 + scan.accBits) := (Nat.pow_add _ _ _).symm
      _ ≤ 2 ^ 32 := Nat.pow_le_pow_right (by decide) (by omega)
  simp only [push, UInt32.toNat_or, UInt32.toNat_shiftLeft, UInt8.toNat_toUInt32]
  rw [toNat_shift (by omega), Nat.mod_eq_of_lt hbyte]

theorem toNat_push_add {byte : UInt8} (h : p.Reads stream n scan) (hroom : scan.accBits + 8 ≤ 32) :
    (push byte scan).acc.toNat = scan.acc.toNat + byte.toNat * 2 ^ scan.accBits := by
  rw [toNat_push hroom, Nat.or_comm, ← Nat.shiftLeft_add_eq_or_of_lt h.buffers.lt, Nat.shiftLeft_eq,
    Nat.add_comm]

theorem Reads.push {byte : UInt8} (h : p.Reads stream n scan) (hroom : scan.accBits + 8 ≤ 32)
    (hbyte : Buffers stream (8 * n) 8 byte.toNat) :
    p.Reads stream (n + 1) (push byte scan) where
  buffers := by
    rw [toNat_push hroom]
    rw [← h.position] at hbyte
    exact h.buffers.push hbyte
  position := by
    have := h.position
    simp only [Packing.push]
    omega
  fields := h.fields
  outOfRange := h.outOfRange

theorem Reads.examine (h : p.Reads stream n scan) (hfull : p.bits ≤ scan.accBits) :
    p.Reads stream n (p.examine scan) where
  buffers := by
    have hnarrow := p.narrow
    simp only [Packing.examine, List.length_append, List.length_singleton, Nat.mul_add_one,
      UInt32.toNat_shiftRight, toNat_shift (show p.bits < 32 by omega)]
    exact h.buffers.pop
  position := by
    have := h.position
    simp only [Packing.examine, List.length_append, List.length_singleton, Nat.mul_add_one]
    omega
  fields := by
    have hfield : (scan.acc &&& p.mask).toNat = bitGroup stream p.bits scan.examined.length := by
      rw [UInt32.toNat_and, toNat_mask, Nat.and_two_pow_sub_one_eq_mod]
      exact (h.buffers.low hfull).eq_bitGroup
    simp only [Packing.examine, List.map_append, List.length_append, List.length_singleton,
      List.range_succ, h.fields, List.map_singleton, hfield]
  outOfRange := by
    simp only [Packing.examine, UInt32.or_eq_zero_iff, h.outOfRange, List.mem_append,
      List.mem_singleton]
    have hflag : (if scan.acc &&& p.mask > p.max then (1 : UInt32) else 0) = 0 ↔
        scan.acc &&& p.mask ≤ p.max := by
      simp
    rw [hflag]
    constructor
    · rintro ⟨hall, hle⟩ field (hfield | rfl)
      · exact hall field hfield
      · exact hle
    · exact fun hall => ⟨fun field hfield => hall field (.inl hfield), hall _ (.inr rfl)⟩

theorem Reads.drain (h : p.Reads stream n scan) :
    p.Reads stream n (p.drain scan) ∧ (p.drain scan).accBits < p.bits := by
  fun_induction p.drain scan with
  | case1 scan hfull ih => exact ih (h.examine hfull)
  | case2 scan hshort => exact ⟨h, Nat.lt_of_not_le hshort⟩

theorem scan_append_singleton (p : Packing) (packed : Bytes) (byte : UInt8) :
    p.scan (packed ++ [byte]) = p.drain (Packing.push byte (p.scan packed)) := by
  simp [Packing.scan]

/-- After each byte less than one field is left in the accumulator. -/
theorem reads_scan (packed : Bytes)
    (hbytes : ∀ before byte after, packed = before ++ byte :: after →
      Buffers stream (8 * before.length) 8 byte.toNat) :
    p.Reads stream packed.length (p.scan packed) ∧ (p.scan packed).accBits < p.bits := by
  induction packed using List.reverseRecOn with
  | nil => exact ⟨reads_start p stream, p.positive⟩
  | append_singleton packed byte ih =>
    have hbefore : ∀ before byte' after, packed = before ++ byte' :: after →
        Buffers stream (8 * before.length) 8 byte'.toNat := by
      intro before byte' after hpacked
      apply hbytes before byte' (after ++ [byte])
      simp [hpacked]
    obtain ⟨hreads, hshort⟩ := ih hbefore
    have hnarrow := p.narrow
    have hpush := hreads.push (by omega) (hbytes packed byte [] rfl)
    rw [scan_append_singleton, List.length_append]
    exact hpush.drain

end Packing

namespace ParamSet

def eta : ParamSet → ℕ
  | .mldsa44 | .mldsa87 => 2
  | .mldsa65 => 4

def k : ParamSet → ℕ
  | .mldsa44 => 4
  | .mldsa65 => 6
  | .mldsa87 => 8

def l : ParamSet → ℕ
  | .mldsa44 => 4
  | .mldsa65 => 5
  | .mldsa87 => 7

def fieldWidth (ps : ParamSet) : ℕ := if ps.eta = 2 then 3 else 4

theorem bits_packing (ps : ParamSet) : ps.packing.bits = ps.fieldWidth := by
  cases ps <;> decide

theorem max_packing (ps : ParamSet) : ps.packing.max.toNat = 2 * ps.eta := by
  cases ps <;> decide

end ParamSet

theorem packedLen_bits (ps : ParamSet) :
    8 * packedLen ps = ps.fieldWidth * ((ps.k + ps.l) * 256) := by
  cases ps <;> decide

theorem packedLen_le (ps : ParamSet) : headerLen + packedLen ps ≤ ps.secretKeyLen := by
  cases ps <;> decide

def secretBits (sk : Bytes) (i : ℕ) : Bool := bitAt sk (8 * headerLen + i)

/-- The packed field of the `i`th coefficient of `s1` and `s2`. -/
def secretField (ps : ParamSet) (sk : Bytes) (i : ℕ) : ℕ := bitGroup (secretBits sk) ps.fieldWidth i

variable {ps : ParamSet} {sk packed : Bytes}

theorem packedCoefficients_eq_some : packedCoefficients ps sk = some packed ↔
    headerLen + packedLen ps ≤ sk.length ∧ (sk.drop headerLen).take (packedLen ps) = packed := by
  simp [packedCoefficients, slice]

theorem buffers_packed (hpacked : packedCoefficients ps sk = some packed) (before : Bytes)
    (byte : UInt8) (after : Bytes) (hsplit : packed = before ++ byte :: after) :
    Buffers (secretBits sk) (8 * before.length) 8 byte.toNat := by
  have hplace : sk.getD (headerLen + before.length) 0 = byte := by
    have hget : packed[before.length]? = some byte := by simp [hsplit]
    rw [← (packedCoefficients_eq_some.mp hpacked).2, List.getElem?_take] at hget
    split at hget
    · rw [List.getElem?_drop] at hget
      rw [List.getD_eq_getElem?_getD, hget, Option.getD_some]
    · cases hget
  have hbyte := buffers_byte sk (headerLen + before.length)
  rw [hplace, Nat.mul_add] at hbyte
  exact hbyte.shift

theorem length_packed (hpacked : packedCoefficients ps sk = some packed) :
    packed.length = packedLen ps := by
  obtain ⟨hfits, rfl⟩ := packedCoefficients_eq_some.mp hpacked
  rw [List.length_take, List.length_drop]
  omega

/-- All fields were compared, in order, and no bit is left. -/
theorem scan_packed (hpacked : packedCoefficients ps sk = some packed) :
    ps.packing.Reads (secretBits sk) (packedLen ps) (ps.packing.scan packed) ∧
      (ps.packing.scan packed).examined.length = (ps.k + ps.l) * 256 ∧
      (ps.packing.scan packed).accBits = 0 := by
  obtain ⟨hreads, hshort⟩ := ps.packing.reads_scan packed (buffers_packed hpacked)
  rw [length_packed hpacked] at hreads
  have hposition := hreads.position
  rw [packedLen_bits, ← ps.bits_packing] at hposition
  have hcount := congrArg (· / ps.packing.bits) hposition
  have hleft := congrArg (· % ps.packing.bits) hposition
  simp only [Nat.mul_add_div ps.packing.positive, Nat.div_eq_of_lt hshort, Nat.add_zero,
    Nat.mul_div_cancel_left _ ps.packing.positive] at hcount
  simp only [Nat.mul_add_mod, Nat.mod_eq_of_lt hshort, Nat.mul_mod_right] at hleft
  exact ⟨hreads, hcount, hleft⟩

/-- A string that is too short for the packed coefficients is refused as well. -/
theorem expandedKeyIsWellFormed_iff : expandedKeyIsWellFormed ps sk = true ↔
    headerLen + packedLen ps ≤ sk.length ∧
      ∀ i < (ps.k + ps.l) * 256, secretField ps sk i ≤ 2 * ps.eta := by
  unfold expandedKeyIsWellFormed
  cases hpacked : packedCoefficients ps sk with
  | none =>
    have hshort : ¬ headerLen + packedLen ps ≤ sk.length := fun hfits => by
      rw [packedCoefficients_eq_some.mpr ⟨hfits, rfl⟩] at hpacked
      cases hpacked
    simp [hshort]
  | some packed =>
    obtain ⟨hreads, hcount, -⟩ := scan_packed hpacked
    have hfits := (packedCoefficients_eq_some.mp hpacked).1
    have hfields : (∀ field ∈ (ps.packing.scan packed).examined, field ≤ ps.packing.max) ↔
        ∀ value ∈ (ps.packing.scan packed).examined.map UInt32.toNat, value ≤ 2 * ps.eta := by
      simp [UInt32.le_iff_toNat_le, ps.max_packing]
    simp only [beq_iff_eq, hreads.outOfRange, hfits, true_and]
    rw [hfields, hreads.fields, hcount, ps.bits_packing]
    simp [secretField]

/-- A string of a key's length passes exactly if each field of `s1` and `s2` is at most `2η`.
The accumulator loses no bit of a byte, and the fields that were compared are all the fields,
each once and in order. -/
theorem expanded_keys_checked (ps : ParamSet) (sk : Bytes) (hlength : sk.length = ps.secretKeyLen) :
    (expandedKeyIsWellFormed ps sk = true ↔
      ∀ i < (ps.k + ps.l) * 256, secretField ps sk i ≤ 2 * ps.eta) ∧
    ∃ packed, packedCoefficients ps sk = some packed ∧
      (∀ before byte after, packed = before ++ byte :: after →
        let scan := ps.packing.scan before
        (Packing.push byte scan).accBits ≤ 32 ∧
        (Packing.push byte scan).acc.toNat = scan.acc.toNat + byte.toNat * 2 ^ scan.accBits ∧
        scan.acc.toNat < 2 ^ scan.accBits) ∧
      (ps.packing.scan packed).accBits = 0 ∧
      (ps.packing.scan packed).acc = 0 ∧
      (ps.packing.scan packed).examined.map UInt32.toNat =
        (List.range ((ps.k + ps.l) * 256)).map (secretField ps sk) := by
  have hfits : headerLen + packedLen ps ≤ sk.length := hlength ▸ packedLen_le ps
  have hpacked := packedCoefficients_eq_some.mpr ⟨hfits, rfl⟩
  obtain ⟨hreads, hcount, hleft⟩ := scan_packed hpacked
  refine ⟨?_, _, hpacked, ?_, hleft, ?_, ?_⟩
  · rw [expandedKeyIsWellFormed_iff]
    exact and_iff_right hfits
  · intro before byte after hsplit scan
    obtain ⟨hbefore, hshort⟩ : ps.packing.Reads (secretBits sk) before.length scan ∧
        scan.accBits < ps.packing.bits := by
      apply Packing.reads_scan
      intro first middle last hfirst
      apply buffers_packed hpacked first middle (last ++ byte :: after)
      simp [hsplit, hfirst]
    have hnarrow := ps.packing.narrow
    have hroom : scan.accBits + 8 ≤ 32 := by omega
    exact ⟨hroom, Packing.toNat_push_add hbefore hroom, hbefore.buffers.lt⟩
  · have hlt := hreads.buffers.lt
    rw [hleft] at hlt
    apply UInt32.toNat_inj.mp
    exact Nat.lt_one_iff.mp hlt
  · rw [hreads.fields, hcount, ps.bits_packing]
    rfl

theorem expanded_keys_checked_zeros :
    (List.replicate 4032 (0 : UInt8)).length = ParamSet.secretKeyLen .mldsa65 ∧
      (expandedKeyIsWellFormed .mldsa65 (List.replicate 4032 0) = true ↔
        ∀ i < (6 + 5) * 256, secretField .mldsa65 (List.replicate 4032 0) i ≤ 2 * 4) :=
  ⟨List.length_replicate,
    (expanded_keys_checked .mldsa65 (List.replicate 4032 0) List.length_replicate).1⟩

/-- A decoder that panics only at coefficients out of range is never made to panic. -/
theorem decodeExpanded_isSome {Key : Type} {fromExpanded : Bytes → Option Key}
    (hdecoder : sk.length = ps.secretKeyLen →
      (∀ i < (ps.k + ps.l) * 256, secretField ps sk i ≤ 2 * ps.eta) → (fromExpanded sk).isSome) :
    ∃ result, decodeExpanded fromExpanded ps sk = some result ∧
      (result.toOption.isSome ↔ sk.length = ps.secretKeyLen ∧
        ∀ i < (ps.k + ps.l) * 256, secretField ps sk i ≤ 2 * ps.eta) := by
  unfold decodeExpanded
  by_cases hlength : sk.length = ps.secretKeyLen
  · have hfits : headerLen + packedLen ps ≤ sk.length := hlength ▸ packedLen_le ps
    by_cases hwell : expandedKeyIsWellFormed ps sk = true
    · have hfields := (expandedKeyIsWellFormed_iff.mp hwell).2
      obtain ⟨key, hkey⟩ := Option.isSome_iff_exists.mp (hdecoder hlength hfields)
      refine ⟨.ok key, by simp [hlength, hwell, hkey], ?_⟩
      exact ⟨fun _ => ⟨hlength, hfields⟩, fun _ => rfl⟩
    · refine ⟨.error .invalidKeyLength, by simp [hlength, hwell], ?_⟩
      refine ⟨fun hsome => (by cases hsome), fun h => ?_⟩
      exact absurd (expandedKeyIsWellFormed_iff.mpr ⟨hfits, h.2⟩) hwell
  · exact ⟨.error .invalidKeyLength, by simp [hlength], fun hsome => (by cases hsome),
      fun h => absurd h.1 hlength⟩

theorem decodeExpanded_isSome_malformed : ∃ result, decodeExpanded
    (fun sk => if expandedKeyIsWellFormed .mldsa44 sk then some sk else none) .mldsa44
      (List.replicate 2560 0xFF) = some result := by
  refine (decodeExpanded_isSome fun hlength hfields => ?_).imp fun _ h => h.1
  rw [expandedKeyIsWellFormed_iff.mpr ⟨hlength ▸ packedLen_le _, hfields⟩]
  rfl

end SoftwareAuthenticator.MlDsa
