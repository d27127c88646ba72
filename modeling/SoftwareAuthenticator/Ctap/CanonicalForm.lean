import SoftwareAuthenticator.Ctap.Cbor
import SoftwareAuthenticator.Cbor.Grammar
import SoftwareAuthenticator.Scanner

/-!
# The request checker accepts the canonical form

`canonical_item_end` stops exactly after the canonical items of at most `MAX_NESTING` levels.
Every call but the last reads a byte of its own.
-/

namespace SoftwareAuthenticator.Ctap

open Cbor (Item KeyLt bigEndian head initialByte leastWide majorType)

variable {pos major n : ℕ}

theorem lexOrder_eq_lt {a b : Bytes} : lexOrder a b = .lt ↔ a < b := by
  induction a generalizing b with
  | nil => cases b <;> simp [lexOrder]
  | cons x xs ih =>
    cases b with
    | nil => simp [lexOrder]
    | cons y ys =>
      rw [lexOrder, Ordering.then_eq_lt, Nat.compare_eq_lt, Nat.compare_eq_eq, ih,
        List.cons_lt_cons_iff, UInt8.lt_iff_toNat_lt, UInt8.toNat_inj]

theorem canonicalKeyOrder_eq_lt {a b : Bytes} : canonicalKeyOrder a b = .lt ↔ KeyLt a b := by
  have hmajor (key : Bytes) : (key.headD 0 >>> 5).toNat = majorType key := by
    rw [UInt8.toNat_shiftRight, Nat.shiftRight_eq_div_pow]
    rfl
  rw [canonicalKeyOrder, Ordering.then_eq_lt, Ordering.then_eq_lt, Nat.compare_eq_lt,
    Nat.compare_eq_eq, Nat.compare_eq_lt, Nat.compare_eq_eq, lexOrder_eq_lt, hmajor, hmajor]
  rfl

/-- The checker refuses a key exactly if it does not sort after the one before. -/
theorem canonicalKeyOrder_isGE {a b : Bytes} :
    (canonicalKeyOrder a b).isGE = true ↔ ¬ KeyLt a b := by
  rw [← canonicalKeyOrder_eq_lt]
  cases canonicalKeyOrder a b <;> simp

theorem slice_eq_some {bytes raw : Bytes} (hpos : pos ≤ bytes.length) (h : StandsAt bytes pos raw) :
    slice bytes pos (pos + raw.length) = some raw := by
  rw [slice, if_pos ⟨Nat.le_add_right _ _, h.le_length hpos⟩, Nat.add_sub_cancel_left, h.take]

theorem standsAt_of_slice {bytes raw : Bytes} {stop : ℕ} (h : slice bytes pos stop = some raw) :
    StandsAt bytes pos raw ∧ pos + raw.length = stop := by
  unfold slice at h
  split at h
  case isFalse => contradiction
  case isTrue hle =>
    cases h
    obtain ⟨hstands, hlen⟩ := standsAt_slice hle.1 hle.2
    exact ⟨hstands, by omega⟩

def Admissible (major n : ℕ) : Prop :=
  major < 8 ∧ n < 2 ^ 64 ∧ (major = 7 → n < 24 ∨ 32 ≤ n ∧ n < 256)

theorem isShortest_wide {k : ℕ} (hk : k < 4) :
    isShortest major (24 + k) n = true ↔ leastWide k ≤ n ∧ (k = 0 → major = 7 → 32 ≤ n) := by
  interval_cases k <;> simp [isShortest, leastWide]
  · split_ifs <;> simp_all
    omega
  all_goals omega

variable {bytes : Bytes}

theorem header_head (h : Admissible major n) (hpos : StandsAt bytes pos (head major n)) :
    ∃ initial, bytes[pos]? = some initial ∧ initial.toNat / 32 = major ∧
      ¬ (major = 7 ∧ 25 ≤ initial.toNat % 32 ∧ initial.toNat % 32 ≤ 27) ∧
      header bytes pos = some (major, n, pos + (head major n).length) ∧
      isShortest major (initial.toNat % 32) n = true := by
  obtain ⟨hmajor, hn, hsimple⟩ := h
  have hlt := hpos.lt_length (Cbor.head_ne_nil major n)
  obtain himmediate | ⟨k, hk, hle, hwide⟩ := Cbor.immediate_or_wide hn
  · rw [Cbor.head_immediate major himmediate] at hpos ⊢
    have hinitial := (standsAt_cons.mp hpos).1
    have hnat := Cbor.toNat_initialByte hmajor (show n < 32 by omega)
    have hdiv : (initialByte major n).toNat / 32 = major := by omega
    have hmod : (initialByte major n).toNat % 32 = n := by omega
    refine ⟨_, hinitial, hdiv, by omega, ?_, ?_⟩
    · rw [header, hinitial]
      simp only [Option.bind_eq_bind, Option.bind_some, hdiv, hmod]
      rw [if_pos (by omega)]
      rfl
    · rw [hmod, isShortest, if_neg (by omega), if_neg (by omega), if_neg (by omega),
        if_neg (by omega)]
  · rw [Cbor.head_wide major hk hle hwide] at hpos ⊢
    obtain ⟨hinitial, hraw⟩ := standsAt_cons.mp hpos
    have hnat := Cbor.toNat_initialByte hmajor (show 24 + k < 32 by omega)
    have hdiv : (initialByte major (24 + k)).toNat / 32 = major := by omega
    have hmod : (initialByte major (24 + k)).toNat % 32 = 24 + k := by omega
    -- A simple value has at most one argument byte.
    have hfloat : major = 7 → k = 0 := by
      intro h7
      by_contra hne
      have : 256 ≤ leastWide k := by
        interval_cases k <;> simp [leastWide] at hne ⊢
      omega
    refine ⟨_, hinitial, hdiv, by omega, ?_, ?_⟩
    · have hslice := slice_eq_some (by omega) hraw
      rw [Cbor.length_bigEndian] at hslice
      rw [header, hinitial]
      simp only [Option.bind_eq_bind, Option.bind_some, hdiv, hmod]
      rw [if_neg (by omega), if_pos (by omega), Nat.add_sub_cancel_left, hslice, Option.bind_some,
        List.length_cons, Cbor.length_bigEndian, Nat.add_right_comm, ← Nat.add_assoc,
        Nat.add_right_comm]
      exact congrArg (fun argument => some (major, argument, pos + 1 + 2 ^ k))
        (Cbor.ofBigEndian_bigEndian hwide)
    · rw [hmod, isShortest_wide hk]
      exact ⟨hle, fun hzero h7 => by rw [hzero] at hle; simp [leastWide] at hle; omega⟩

theorem head_of_header {initial : UInt8} {stop : ℕ} (hinitial : bytes[pos]? = some initial)
    (hheader : header bytes pos = some (major, n, stop))
    (hshort : isShortest (initial.toNat / 32) (initial.toNat % 32) n = true)
    (hfloat : ¬ (initial.toNat / 32 = 7 ∧ 25 ≤ initial.toNat % 32 ∧ initial.toNat % 32 ≤ 27)) :
    major = initial.toNat / 32 ∧ Admissible major n ∧ StandsAt bytes pos (head major n) ∧
      stop = pos + (head major n).length := by
  have hbyte := initial.toNat_lt
  have hself := Cbor.initialByte_divMod initial
  rw [header, hinitial] at hheader
  simp only [Option.bind_eq_bind, Option.bind_some] at hheader
  split at hheader
  · rename_i himmediate
    cases hheader
    rw [Cbor.head_immediate _ (by omega), hself]
    exact ⟨rfl, ⟨by omega, by omega, by omega⟩, standsAt_cons.mpr ⟨hinitial, standsAt_nil _ _⟩, rfl⟩
  · rename_i himmediate
    split at hheader
    case isFalse => contradiction
    rename_i hinfo
    obtain ⟨raw, hraw, hheader⟩ := Option.bind_eq_some_iff.mp hheader
    cases hheader
    obtain ⟨hstands, hlen⟩ := standsAt_of_slice hraw
    obtain ⟨k, hk⟩ : ∃ k, initial.toNat % 32 = 24 + k := ⟨initial.toNat % 32 - 24, by omega⟩
    rw [hk, Nat.add_sub_cancel_left] at hlen ⊢
    have hlen : raw.length = 2 ^ k := by omega
    have hlt : argumentOf raw < 256 ^ 2 ^ k := hlen ▸ Cbor.ofBigEndian_lt raw
    have hk4 : k < 4 := by omega
    rw [hk, isShortest_wide hk4] at hshort
    obtain ⟨hle, hsimple⟩ := hshort
    have hbe : bigEndian (2 ^ k) (argumentOf raw) = raw := hlen ▸ Cbor.bigEndian_ofBigEndian raw
    rw [Cbor.head_wide _ hk4 hle hlt, ← hk, hself, hbe]
    refine ⟨rfl, ⟨by omega, ?_, ?_⟩, standsAt_cons.mpr ⟨hinitial, hstands⟩, ?_⟩
    · interval_cases k <;> omega
    · intro h7
      have hzero : k = 0 := by omega
      rw [hzero] at hlt
      exact .inr ⟨hsimple hzero h7, hlt⟩
    · rw [List.length_cons, hlen]
      omega

theorem scans_stringEnd (bytes : Bytes) (n : ℕ) :
    Scans bytes (fun pos => stringEnd bytes pos n) fun s => s.length = n where
  sound := by
    intro pos stop h
    unfold stringEnd at h
    split at h
    case isFalse => contradiction
    rename_i hle
    cases h
    obtain ⟨hstands, hlen⟩ := standsAt_slice (Nat.le_add_right pos n) hle
    rw [Nat.add_sub_cancel_left] at hstands hlen
    exact ⟨_, hlen, hstands, by rw [hlen]⟩
  complete := by
    rintro pos s hpos rfl hstands
    rw [stringEnd, if_pos (hstands.le_length hpos)]

section

variable {item : ℕ → Option ℕ} {L : Bytes → Prop}

theorem scans_iterate (h : Scans bytes item L) (n : ℕ) :
    Scans bytes (iterate item n) fun w => ∃ items : List Bytes,
      items.length = n ∧ (∀ x ∈ items, L x) ∧ w = items.flatten := by
  induction n with
  | zero =>
    refine (Scans.pure bytes).congr fun w => ⟨?_, ?_⟩
    · rintro rfl
      exact ⟨[], rfl, fun _ hx => absurd hx List.not_mem_nil, rfl⟩
    · rintro ⟨items, hlen, -, rfl⟩
      rw [List.eq_nil_of_length_eq_zero hlen, List.flatten_nil]
  | succ n ih =>
    refine (h.seq ih).congr fun w => ⟨?_, ?_⟩
    · rintro ⟨x, _, hx, ⟨items, rfl, hitems, rfl⟩, rfl⟩
      exact ⟨x :: items, rfl, List.forall_mem_cons.mpr ⟨hx, hitems⟩, rfl⟩
    · rintro ⟨items, hlen, hitems, rfl⟩
      obtain ⟨x, items, rfl⟩ := List.exists_cons_of_length_eq_add_one hlen
      obtain ⟨hx, hitems⟩ := List.forall_mem_cons.mp hitems
      exact ⟨x, items.flatten, hx, ⟨items, Nat.succ.inj hlen, hitems, rfl⟩, rfl⟩

/-- What the loop over the entries of a map accepts: each key sorts after the one before,
the first after `previous`. -/
def EntriesFrom (L : Bytes → Prop) (n : ℕ) (previous : Option Bytes) (w : Bytes) : Prop :=
  ∃ entries : List (Bytes × Bytes), entries.length = n ∧ (∀ e ∈ entries, L e.1 ∧ L e.2) ∧
    List.IsChain KeyLt (previous.toList ++ entries.map Prod.fst) ∧
    w = entries.flatMap fun e => e.1 ++ e.2

theorem entriesFrom_succ {n : ℕ} {previous : Option Bytes} {w : Bytes} :
    EntriesFrom L (n + 1) previous w ↔ ∃ key rest, L key ∧
      (¬ (previous.any fun p => (canonicalKeyOrder p key).isGE) = true ∧
        ∃ value later, L value ∧ EntriesFrom L n (some key) later ∧ rest = value ++ later) ∧
      w = key ++ rest := by
  have hany (key : Bytes) :
      ¬ (previous.any fun p => (canonicalKeyOrder p key).isGE) = true ↔
        ∀ p ∈ previous, KeyLt p key := by
    cases previous with
    | none => simp
    | some p => simp [canonicalKeyOrder_isGE]
  have hchain (key : Bytes) (keys : List Bytes) :
      List.IsChain KeyLt (previous.toList ++ key :: keys) ↔
        (∀ p ∈ previous, KeyLt p key) ∧ List.IsChain KeyLt (key :: keys) := by
    cases previous with
    | none => simp
    | some p => simp [List.isChain_cons_cons]
  constructor
  · rintro ⟨entries, hlen, hentries, hsorted, rfl⟩
    obtain ⟨⟨key, value⟩, entries, rfl⟩ := List.exists_cons_of_length_eq_add_one hlen
    obtain ⟨⟨hkey, hvalue⟩, hentries⟩ := List.forall_mem_cons.mp hentries
    obtain ⟨hprevious, hsorted⟩ := (hchain key _).mp hsorted
    refine ⟨key, _, hkey, ⟨(hany key).mpr hprevious, value, _, hvalue,
      ⟨entries, Nat.succ.inj hlen, hentries, hsorted, rfl⟩, rfl⟩, ?_⟩
    rw [List.flatMap_cons, List.append_assoc]
  · rintro ⟨key, _, hkey, ⟨hprevious, value, _, hvalue, ⟨entries, rfl, hentries, hsorted, rfl⟩, rfl⟩,
      rfl⟩
    refine ⟨(key, value) :: entries, rfl, List.forall_mem_cons.mpr ⟨⟨hkey, hvalue⟩, hentries⟩,
      (hchain key _).mpr ⟨(hany key).mp hprevious, hsorted⟩, ?_⟩
    rw [List.flatMap_cons, List.append_assoc]

theorem scans_canonicalEntries (h : Scans bytes item L) (n : ℕ) (previous : Option Bytes) :
    Scans bytes (fun pos => canonicalEntries bytes item n pos previous)
      (EntriesFrom L n previous) := by
  induction n generalizing previous with
  | zero =>
    refine (Scans.pure bytes).congr fun w => ⟨?_, ?_⟩
    · rintro rfl
      refine ⟨[], rfl, fun _ hx => absurd hx List.not_mem_nil, ?_, rfl⟩
      cases previous <;> simp
    · rintro ⟨entries, hlen, -, -, rfl⟩
      rw [List.eq_nil_of_length_eq_zero hlen, List.flatMap_nil]
  | succ n ih =>
    exact (h.bind fun key _ => (h.seq (ih (some key))).guard).congr fun w => entriesFrom_succ.symm

end

variable {levels stop : ℕ}

/-- What follows a head: the rest of `canonical_item_end`. -/
def contentEnd (bytes : Bytes) (levels major argument stop : ℕ) : Option ℕ :=
  match levels with
  | 0 => canonicalScalarEnd bytes major argument stop
  | levels + 1 =>
    if major = 4 then iterate (canonicalItemEnd bytes levels) argument stop
    else if major = 5 then
      canonicalEntries bytes (canonicalItemEnd bytes levels) argument stop none
    else canonicalScalarEnd bytes major argument stop

theorem canonicalItemEnd_head (levels : ℕ) (h : Admissible major n)
    (hpos : StandsAt bytes pos (head major n)) :
    canonicalItemEnd bytes levels pos =
      contentEnd bytes levels major n (pos + (head major n).length) := by
  obtain ⟨initial, hinitial, rfl, hfloat, hheader, hshort⟩ := header_head h hpos
  rw [canonicalItemEnd.eq_def, hinitial]
  simp only [hfloat, hheader, hshort, if_false, Bool.true_eq_false]
  rfl

theorem canonicalItemEnd_cases (h : canonicalItemEnd bytes levels pos = some stop) :
    (∃ k raw, (1 ≤ k ∧ k ≤ 3) ∧ raw.length = 2 ^ k ∧
      StandsAt bytes pos (initialByte 7 (24 + k) :: raw) ∧ stop = pos + (raw.length + 1)) ∨
    ∃ major n, Admissible major n ∧ StandsAt bytes pos (head major n) ∧
      contentEnd bytes levels major n (pos + (head major n).length) = some stop := by
  rw [canonicalItemEnd.eq_def] at h
  cases hinitial : bytes[pos]? with
  | none =>
    rw [hinitial] at h
    contradiction
  | some initial =>
    rw [hinitial] at h
    simp only at h
    split at h
    case isTrue hfloat =>
      left
      obtain ⟨hmajor, hle, hge⟩ := hfloat
      obtain ⟨k, hk⟩ : ∃ k, initial.toNat % 32 = 24 + k := ⟨initial.toNat % 32 - 24, by omega⟩
      rw [floatEnd, hk, Nat.add_sub_cancel_left] at h
      split at h
      case isFalse => contradiction
      rename_i hstop
      cases h
      obtain ⟨hstands, hlen⟩ := standsAt_slice (Nat.le_add_right (pos + 1) (2 ^ k)) hstop
      rw [Nat.add_sub_cancel_left] at hstands hlen
      refine ⟨k, _, by omega, hlen, standsAt_cons.mpr ⟨?_, hstands⟩, by omega⟩
      rw [hinitial, ← hmajor, ← hk, Cbor.initialByte_divMod]
    case isFalse hfloat =>
      right
      cases hheader : header bytes pos with
      | none =>
        rw [hheader] at h
        contradiction
      | some parts =>
        obtain ⟨major, n, after⟩ := parts
        rw [hheader] at h
        simp only at h
        split at h
        case isTrue => contradiction
        rename_i hshort
        obtain ⟨rfl, hadmissible, hstands, rfl⟩ :=
          head_of_header hinitial hheader (Bool.eq_true_of_not_eq_false hshort) hfloat
        exact ⟨_, n, hadmissible, hstands, h⟩

/-- What is accepted after the head of anything but a container. -/
theorem canonicalScalarEnd_sound (levels : ℕ) (hn : Admissible major n)
    (h : canonicalScalarEnd bytes major n pos = some stop) :
    ∃ v, Item levels (head major n ++ v) ∧ StandsAt bytes pos v ∧ stop = pos + v.length := by
  obtain ⟨-, hlt, hsimple⟩ := hn
  unfold canonicalScalarEnd at h
  split at h
  case isTrue hmajor =>
    cases h
    refine ⟨[], ?_, standsAt_nil _ _, rfl⟩
    rw [List.append_nil]
    obtain rfl | rfl | rfl := hmajor
    · exact .unsigned hlt
    · exact .negative hlt
    · exact .simple (hsimple rfl)
  case isFalse =>
    split at h
    case isFalse => contradiction
    rename_i hmajor
    obtain ⟨v, rfl, hv, rfl⟩ := (scans_stringEnd bytes n).sound _ _ h
    refine ⟨v, ?_, hv, rfl⟩
    obtain rfl | rfl := hmajor
    · exact .byteString hlt
    · exact .textString hlt

/-- What is accepted after a head completes it to an item. -/
theorem contentEnd_sound (ih : ∀ l < levels, Scans bytes (canonicalItemEnd bytes l) (Item l))
    (hn : Admissible major n) (h : contentEnd bytes levels major n pos = some stop) :
    ∃ v, Item levels (head major n ++ v) ∧ StandsAt bytes pos v ∧ stop = pos + v.length := by
  cases levels with
  | zero => exact canonicalScalarEnd_sound 0 hn h
  | succ levels =>
    have hlower := ih levels (Nat.lt_succ_self _)
    rw [contentEnd] at h
    split at h
    case isTrue harray =>
      subst harray
      obtain ⟨v, ⟨items, rfl, hitems, rfl⟩, hv, hstop⟩ := (scans_iterate hlower n).sound _ _ h
      exact ⟨_, .array hn.2.1 hitems, hv, hstop⟩
    case isFalse =>
      split at h
      case isFalse => exact canonicalScalarEnd_sound _ hn h
      case isTrue hmap =>
        subst hmap
        obtain ⟨v, ⟨entries, rfl, hentries, hsorted, rfl⟩, hv, hstop⟩ :=
          (scans_canonicalEntries hlower n none).sound _ _ h
        exact ⟨_, .map hn.2.1 (fun e he => (hentries e he).1) (fun e he => (hentries e he).2)
          (List.isChain_iff_pairwise.mp hsorted), hv, hstop⟩

theorem admissible_of_ne (hmajor : major < 7) (hn : n < 2 ^ 64) : Admissible major n :=
  ⟨by omega, hn, fun h => absurd h (by omega)⟩

inductive Scalar : Bytes → Prop
  | bare {major n : ℕ} (hmajor : major = 0 ∨ major = 1 ∨ major = 7) (hn : Admissible major n) :
      Scalar (head major n)
  | string {major : ℕ} {s : Bytes} (hmajor : major = 2 ∨ major = 3)
      (hs : Admissible major s.length) : Scalar (head major s.length ++ s)
  | float {k : ℕ} {raw : Bytes} (hk : 1 ≤ k ∧ k ≤ 3) (hraw : raw.length = 2 ^ k) :
      Scalar (initialByte 7 (24 + k) :: raw)

theorem scalar_of_item {w : Bytes} (hw : Item 0 w) : Scalar w := by
  cases hw with
  | unsigned hn => exact .bare (.inl rfl) (admissible_of_ne (by omega) hn)
  | negative hn => exact .bare (.inr (.inl rfl)) (admissible_of_ne (by omega) hn)
  | simple hn => exact .bare (.inr (.inr rfl)) ⟨by omega, by omega, fun _ => hn⟩
  | byteString hs => exact .string (.inl rfl) (admissible_of_ne (by omega) hs)
  | textString hs => exact .string (.inr rfl) (admissible_of_ne (by omega) hs)
  | float hk hraw => exact .float hk hraw

/-- Every item is accepted, whatever follows it. -/
theorem canonicalItemEnd_complete {bytes w : Bytes}
    (ih : ∀ l < levels, Scans bytes (canonicalItemEnd bytes l) (Item l)) (hw : Item levels w)
    (hpos : StandsAt bytes pos w) : canonicalItemEnd bytes levels pos = some (pos + w.length) := by
  have hle := (hpos.lt_length hw.ne_nil).le
  -- The content of a string or a container starts after the head.
  have hafter {major n : ℕ} {v : Bytes} (h : StandsAt bytes pos (head major n ++ v)) :=
    (standsAt_append.mp h).1.le_length hle
  have hcontent (major n pos : ℕ) (h4 : major ≠ 4) (h5 : major ≠ 5) :
      contentEnd bytes levels major n pos = canonicalScalarEnd bytes major n pos := by
    cases levels with
    | zero => rfl
    | succ levels => rw [contentEnd, if_neg h4, if_neg h5]
  have hscalar (hw : Scalar w) : canonicalItemEnd bytes levels pos = some (pos + w.length) := by
    cases hw with
    | bare hmajor hn =>
      rw [canonicalItemEnd_head _ hn hpos, hcontent _ _ _ (by omega) (by omega),
        canonicalScalarEnd, if_pos hmajor]
    | string hmajor hs =>
      obtain ⟨hhead, hstring⟩ := standsAt_append.mp hpos
      rw [canonicalItemEnd_head _ hs hhead, hcontent _ _ _ (by omega) (by omega),
        canonicalScalarEnd, if_neg (by omega), if_pos hmajor,
        (scans_stringEnd bytes _).complete _ _ (hafter hpos) rfl hstring, List.length_append,
        Nat.add_assoc]
    | @float k raw hk hraw =>
      have hstop := hpos.le_length hle
      obtain ⟨hinitial, -⟩ := standsAt_cons.mp hpos
      have hnat := Cbor.toNat_initialByte (show 7 < 8 by omega) (show 24 + k < 32 by omega)
      have hmod : (initialByte 7 (24 + k)).toNat % 32 = 24 + k := by omega
      rw [List.length_cons, hraw] at hstop ⊢
      rw [canonicalItemEnd.eq_def, hinitial]
      simp only [hmod]
      rw [if_pos (by omega), floatEnd, Nat.add_sub_cancel_left, if_pos (by omega)]
      exact congrArg some (by omega)
  cases hw with
  | unsigned hn => exact hscalar (scalar_of_item (.unsigned hn))
  | negative hn => exact hscalar (scalar_of_item (.negative hn))
  | simple hn => exact hscalar (scalar_of_item (.simple hn))
  | byteString hs => exact hscalar (scalar_of_item (.byteString hs))
  | textString hs => exact hscalar (scalar_of_item (.textString hs))
  | float hk hraw => exact hscalar (.float hk hraw)
  | @array l items hlen hitems =>
    obtain ⟨hhead, hcontent⟩ := standsAt_append.mp hpos
    have hscan := scans_iterate (ih l (Nat.lt_succ_self _)) items.length
    rw [canonicalItemEnd_head _ (admissible_of_ne (by omega) hlen) hhead, contentEnd, if_pos rfl,
      hscan.complete _ _ (hafter hpos) ⟨items, rfl, hitems, rfl⟩ hcontent, List.length_append,
      Nat.add_assoc]
  | @map l entries hlen hkeys hvalues hsorted =>
    obtain ⟨hhead, hcontent⟩ := standsAt_append.mp hpos
    have hscan := scans_canonicalEntries (ih l (Nat.lt_succ_self _)) entries.length none
    have hentries := hscan.complete _ _ (hafter hpos)
      ⟨entries, rfl, fun e he => ⟨hkeys e he, hvalues e he⟩,
        List.isChain_iff_pairwise.mpr hsorted, rfl⟩ hcontent
    rw [canonicalItemEnd_head _ (admissible_of_ne (by omega) hlen) hhead, contentEnd,
      if_neg (by omega), if_pos rfl, hentries, List.length_append, Nat.add_assoc]

theorem scans_canonicalItemEnd (bytes : Bytes) (levels : ℕ) :
    Scans bytes (canonicalItemEnd bytes levels) (Item levels) := by
  induction levels using Nat.strong_induction_on with
  | _ levels ih =>
    refine ⟨fun pos stop h => ?_, fun pos w _ hw hpos => canonicalItemEnd_complete ih hw hpos⟩
    obtain ⟨k, raw, hk, hraw, hpos, rfl⟩ | ⟨major, n, hn, hhead, hcontent⟩ := canonicalItemEnd_cases h
    · exact ⟨_, .float hk hraw, hpos, rfl⟩
    · obtain ⟨v, hv, hpos, rfl⟩ := contentEnd_sound ih hn hcontent
      refine ⟨_, hv, standsAt_append.mpr ⟨hhead, hpos⟩, ?_⟩
      rw [List.length_append, Nat.add_assoc]

def iterateCounted (item : ℕ → Counted ℕ) : ℕ → ℕ → Counted ℕ
  | 0, pos => .pure pos
  | n + 1, pos => (item pos).bind (iterateCounted item n)

def canonicalEntriesCounted (bytes : Bytes) (item : ℕ → Counted ℕ) :
    ℕ → ℕ → Option Bytes → Counted ℕ
  | 0, pos, _ => .pure pos
  | n + 1, pos, previous => (item pos).bind fun keyEnd =>
    let key := (bytes.drop pos).take (keyEnd - pos)
    if previous.any fun p => (canonicalKeyOrder p key).isGE then .fail
    else (item keyEnd).bind fun valueEnd =>
      canonicalEntriesCounted bytes item n valueEnd (some key)

/-- `canonicalItemEnd` with the calls it makes, itself included. -/
def canonicalItemEndCounted (bytes : Bytes) (levels pos : ℕ) : Counted ℕ :=
  match bytes[pos]? with
  | none => Counted.tick .fail
  | some initial =>
    let major := initial.toNat / 32
    let info := initial.toNat % 32
    if major = 7 ∧ 25 ≤ info ∧ info ≤ 27 then Counted.tick (floatEnd bytes pos info, 0)
    else
      match header bytes pos with
      | none => Counted.tick .fail
      | some (_, argument, stop) =>
        if isShortest major info argument = false then Counted.tick .fail
        else
          match levels with
          | 0 => Counted.tick (canonicalScalarEnd bytes major argument stop, 0)
          | levels + 1 =>
            if major = 4 then
              Counted.tick (iterateCounted (canonicalItemEndCounted bytes levels) argument stop)
            else if major = 5 then
              Counted.tick (canonicalEntriesCounted bytes (canonicalItemEndCounted bytes levels)
                argument stop none)
            else Counted.tick (canonicalScalarEnd bytes major argument stop, 0)
  termination_by structural levels

variable {item : ℕ → Counted ℕ}

theorem fst_iterateCounted {scan : ℕ → Option ℕ} (h : ∀ pos, (item pos).1 = scan pos) (n pos : ℕ) :
    (iterateCounted item n pos).1 = iterate scan n pos := by
  induction n generalizing pos with
  | zero => rfl
  | succ n ih =>
    rw [iterateCounted, Counted.fst_bind, iterate, h]
    exact Option.bind_congr fun mid _ => ih mid

theorem fst_canonicalEntriesCounted {scan : ℕ → Option ℕ} (h : ∀ pos, (item pos).1 = scan pos)
    (n pos : ℕ) (previous : Option Bytes) :
    (canonicalEntriesCounted bytes item n pos previous).1 =
      canonicalEntries bytes scan n pos previous := by
  induction n generalizing pos previous with
  | zero => rfl
  | succ n ih =>
    rw [canonicalEntriesCounted, Counted.fst_bind, canonicalEntries, h]
    refine Option.bind_congr fun keyEnd _ => ?_
    simp only
    split
    · rfl
    · rw [Counted.fst_bind, h]
      exact Option.bind_congr fun valueEnd _ => ih valueEnd _

theorem fst_canonicalItemEndCounted (bytes : Bytes) (levels pos : ℕ) :
    (canonicalItemEndCounted bytes levels pos).1 = canonicalItemEnd bytes levels pos := by
  induction levels using Nat.strong_induction_on generalizing pos with
  | _ levels ih =>
    rw [canonicalItemEndCounted.eq_def, canonicalItemEnd.eq_def]
    cases bytes[pos]? with
    | none => rfl
    | some initial =>
      simp only
      split
      · rfl
      · cases header bytes pos with
        | none => rfl
        | some parts =>
          simp only
          split
          · rfl
          · cases levels with
            | zero => rfl
            | succ levels =>
              have hlower := ih levels (Nat.lt_succ_self _)
              simp only
              split_ifs
              · exact fst_iterateCounted hlower _ _
              · exact fst_canonicalEntriesCounted hlower _ _ _
              · rfl

theorem frugal_iterateCounted {length : ℕ} (h : ∀ pos ≤ length, Frugal length pos (item pos))
    (n : ℕ) :
    ∀ pos ≤ length, Frugal length pos (iterateCounted item n pos) := by
  induction n with
  | zero => exact fun pos hpos => .pure hpos
  | succ n ih => exact fun pos hpos => (h pos hpos).bind ih

theorem frugal_canonicalEntriesCounted {length : ℕ}
    (h : ∀ pos ≤ length, Frugal length pos (item pos)) (n : ℕ) (previous : Option Bytes) :
    ∀ pos ≤ length, Frugal length pos (canonicalEntriesCounted bytes item n pos previous) := by
  induction n generalizing previous with
  | zero => exact fun pos hpos => .pure hpos
  | succ n ih =>
    intro pos hpos
    refine (h pos hpos).bind fun keyEnd hkey => ?_
    simp only
    split
    · exact .fail hkey
    · exact (h keyEnd hkey).bind (ih _)

theorem header_stop {argument : ℕ} (h : header bytes pos = some (major, argument, stop)) :
    pos < stop ∧ stop ≤ bytes.length := by
  obtain ⟨initial, hinitial, h⟩ := Option.bind_eq_some_iff.mp h
  have hpos := (List.getElem?_eq_some_iff.mp hinitial).1
  simp only at h
  split at h
  · cases h
    omega
  · split at h
    case isFalse => contradiction
    obtain ⟨raw, hraw, h⟩ := Option.bind_eq_some_iff.mp h
    cases h
    obtain ⟨hstands, hlen⟩ := standsAt_of_slice hraw
    have hle := hstands.le_length (by omega)
    omega

theorem frugal_canonicalScalarEnd (major argument : ℕ) (h : pos ≤ bytes.length) :
    Frugal bytes.length pos (canonicalScalarEnd bytes major argument pos, 0) := by
  refine ⟨fun stop hstop => ?_, Nat.le_succ_of_le h⟩
  change canonicalScalarEnd bytes major argument pos = some stop at hstop
  unfold canonicalScalarEnd stringEnd at hstop
  split_ifs at hstop <;> cases hstop <;> omega

theorem frugal_tick_floatEnd (info : ℕ) (h : pos ≤ bytes.length) :
    Frugal bytes.length pos (Counted.tick (floatEnd bytes pos info, 0)) := by
  have hsize := Nat.one_le_two_pow (n := info - 24)
  refine ⟨fun stop hstop => ?_, Nat.succ_le_succ h⟩
  change floatEnd bytes pos info = some stop at hstop
  change pos + 1 ≤ stop ∧ stop ≤ bytes.length
  rw [floatEnd] at hstop
  split at hstop
  case isFalse => contradiction
  cases hstop
  omega

/-- Every call that succeeds reads a byte of its own: the one it starts at. -/
theorem frugal_canonicalItemEndCounted (bytes : Bytes) (levels : ℕ) :
    ∀ pos ≤ bytes.length, Frugal bytes.length pos (canonicalItemEndCounted bytes levels pos) := by
  induction levels using Nat.strong_induction_on with
  | _ levels ih =>
    intro pos hpos
    rw [canonicalItemEndCounted.eq_def]
    cases bytes[pos]? with
    | none => exact .tick_fail hpos
    | some initial =>
      simp only
      split
      · exact frugal_tick_floatEnd _ hpos
      · cases hheader : header bytes pos with
        | none => exact .tick_fail hpos
        | some parts =>
          obtain ⟨hlt, hle⟩ := header_stop hheader
          simp only
          split
          · exact .tick_fail hpos
          · cases levels with
            | zero => exact .tick hlt (frugal_canonicalScalarEnd _ _ hle)
            | succ levels =>
              have hlower := ih levels (Nat.lt_succ_self _)
              simp only
              split_ifs
              · exact .tick hlt (frugal_iterateCounted hlower _ _ hle)
              · exact .tick hlt (frugal_canonicalEntriesCounted hlower _ _ _ hle)
              · exact .tick hlt (frugal_canonicalScalarEnd _ _ hle)

/-- `canonical_item_end` stops after the canonical item the input starts with, if there is
one, and makes at most one call more than there are bytes. -/
theorem canonicalItemEnd_exact (bytes : Bytes) :
    (∀ stop, canonicalItemEnd bytes maxNesting 0 = some stop ↔
      stop ≤ bytes.length ∧ Item maxNesting (bytes.take stop)) ∧
    (∀ stop ≤ bytes.length, ∀ stop' ≤ bytes.length, Item maxNesting (bytes.take stop) →
      Item maxNesting (bytes.take stop') → stop = stop') ∧
    (∀ keys : List Bytes, keys.Pairwise KeyLt → keys.Nodup) ∧
    (canonicalItemEndCounted bytes maxNesting 0).1 = canonicalItemEnd bytes maxNesting 0 ∧
    (canonicalItemEndCounted bytes maxNesting 0).2 ≤ bytes.length + 1 := by
  have hscan := scans_canonicalItemEnd bytes maxNesting
  have haccepted : ∀ stop, canonicalItemEnd bytes maxNesting 0 = some stop ↔
      stop ≤ bytes.length ∧ Item maxNesting (bytes.take stop) := by
    intro stop
    constructor
    · intro h
      obtain ⟨w, hw, hpos, hstop⟩ := hscan.sound 0 stop h
      rw [Nat.zero_add] at hstop
      have hle := hpos.le_length (Nat.zero_le _)
      have htake := hpos.take
      rw [List.drop_zero, ← hstop] at htake
      exact ⟨by omega, htake ▸ hw⟩
    · rintro ⟨hle, hitem⟩
      have hstands := standsAt_zero.mpr (List.take_prefix stop bytes)
      have h := hscan.complete 0 _ (Nat.zero_le _) hitem hstands
      rwa [Nat.zero_add, List.length_take_of_le hle] at h
  refine ⟨haccepted, ?_, fun keys => Cbor.nodup_of_sorted, fst_canonicalItemEndCounted _ _ _, ?_⟩
  · intro stop hstop stop' hstop' hitem hitem'
    have h := (haccepted stop).mpr ⟨hstop, hitem⟩
    have h' := (haccepted stop').mpr ⟨hstop', hitem'⟩
    exact Option.some.inj (h.symm.trans h')
  · have htotal := (frugal_canonicalItemEndCounted bytes maxNesting 0 (Nat.zero_le _)).total
    rwa [Nat.zero_add] at htotal

/-- An array that declares `2 ^ 64 - 1` elements and has none: two calls. -/
example : canonicalItemEndCounted [0x9b, 0xff, 0xff, 0xff, 0xff, 0xff, 0xff, 0xff, 0xff]
    maxNesting 0 = (none, 2) := by
  decide

end SoftwareAuthenticator.Ctap
