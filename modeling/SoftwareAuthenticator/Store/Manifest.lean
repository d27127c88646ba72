import SoftwareAuthenticator.Ctap.MemoryStore

/-!
# The manifest of the credential set

The names of the active credential records, with the place each is stored at. Listings are read
only in the order a map has them in, so a manifest has one encoding.
-/

namespace SoftwareAuthenticator.Store

open Ctap (Corruption StoreError)

inductive Location where
  | legacy
  | managed
  deriving DecidableEq, Repr

abbrev Listing := List (Bytes × Location)

/-- `BTreeMap<String, Location>`: names are compared byte by byte. -/
structure Manifest where
  entries : Listing
  ascending : (entries.map Prod.fst).Pairwise (· < ·)
  deriving DecidableEq, Repr

def insertEntry (name : Bytes) (location : Location) : Listing → Listing
  | [] => [(name, location)]
  | e :: es =>
    if name < e.1 then (name, location) :: e :: es
    else if name = e.1 then (name, location) :: es
    else e :: insertEntry name location es

variable {name : Bytes} {location : Location}

theorem mem_insertEntry {es : Listing} {x : Bytes}
    (h : x ∈ (insertEntry name location es).map Prod.fst) : x = name ∨ x ∈ es.map Prod.fst := by
  induction es with
  | nil => simpa [insertEntry] using h
  | cons e es ih =>
    unfold insertEntry at h
    split_ifs at h
    · simpa using h
    · simp only [List.map_cons, List.mem_cons] at h ⊢
      exact h.imp_right .inr
    · simp only [List.map_cons, List.mem_cons] at h ⊢
      rcases h with h | h
      · exact .inr (.inl h)
      · exact (ih h).imp_right .inr

theorem ascending_insertEntry {es : Listing} (h : (es.map Prod.fst).Pairwise (· < ·)) :
    ((insertEntry name location es).map Prod.fst).Pairwise (· < ·) := by
  induction es with
  | nil => exact List.pairwise_singleton _ _
  | cons e es ih =>
    have hcons := List.pairwise_cons.mp (List.map_cons ▸ h)
    unfold insertEntry
    split_ifs with hlt heq
    · rw [List.map_cons]
      refine List.pairwise_cons.mpr ⟨fun x hx => ?_, h⟩
      rcases List.mem_cons.mp hx with rfl | hx
      · exact hlt
      · exact List.lt_trans hlt (hcons.1 x hx)
    · rw [List.map_cons, heq]
      exact h
    · rw [List.map_cons]
      refine List.pairwise_cons.mpr ⟨fun x hx => ?_, ih hcons.2⟩
      rcases mem_insertEntry hx with rfl | hx
      · exact ((Std.lt_trichotomy x e.1).resolve_left hlt).resolve_left heq
      · exact hcons.1 x hx

def Manifest.insert (manifest : Manifest) (name : Bytes) (location : Location) : Manifest :=
  ⟨insertEntry name location manifest.entries, ascending_insertEntry manifest.ascending⟩

def keyLen : ℕ := 32

/-- `b"0123456789abcdef"`. -/
def hexDigits : Bytes := [48, 49, 50, 51, 52, 53, 54, 55, 56, 57, 97, 98, 99, 100, 101, 102]

def isCredentialFileName (name : Bytes) : Bool :=
  name.length = 2 * keyLen ∧ name.all fun b => (48 ≤ b ∧ b ≤ 57) ∨ (97 ≤ b ∧ b ≤ 102)

def hex (bytes : Bytes) : Bytes :=
  bytes.flatMap fun byte : UInt8 =>
    [hexDigits.getD (byte >>> 4).toNat 0, hexDigits.getD (byte &&& 0x0f).toNat 0]

/-- The value of a digit; `none` if the subtraction underflows. -/
def digit (byte : UInt8) : Option UInt8 :=
  if byte ≤ 57 then if 48 ≤ byte then some (byte - 48) else none
  else if 97 ≤ byte then some (byte - 97 + 10) else none

def packPairs : Bytes → Option Bytes
  | high :: low :: rest => do
    let byte := (← digit high) <<< 4 ||| (← digit low)
    return byte :: (← packPairs rest)
  | _ => some []

/-- `b"PQC1"`. -/
def magic : Bytes := [80, 81, 67, 49]

def maxEnvelopeLen : ℕ := 2 ^ 20

/-- The magic bytes, the version, the record type, the nonce and the tag. -/
def overhead : ℕ := 4 + 2 + 24 + 16

def Location.byte : Location → UInt8
  | .legacy => 0
  | .managed => 1

/-- The entries appended to `bytes`; `none` if an operation overflows. -/
def encodeEntries : Listing → Bytes → Option (Except StoreError Bytes)
  | [], bytes => some (.ok bytes)
  | (name, location) :: entries, bytes =>
    if isCredentialFileName name = false then
      some (.error (.invalidRecord "invalid credential-set filename"))
    else do
      encodeEntries entries (bytes ++ location.byte :: (← packPairs name))

def encode (manifest : Manifest) : Option (Except StoreError Bytes) :=
  let length := ((checkedMul manifest.entries.length 33).bind (checkedAdd · 8)).filter
    (· ≤ maxEnvelopeLen - overhead)
  if length = none then some (.error (.invalidRecord "credential-set metadata is too large"))
  else if 2 ^ 32 ≤ manifest.entries.length then
    some (.error (.invalidRecord "too many credential-set entries"))
  else encodeEntries manifest.entries (magic ++ beBytes32 (.ofNat manifest.entries.length))

/-- `as_chunks`: the first `n` pieces of `size` bytes. -/
def chunks (size : ℕ) : ℕ → Bytes → List Bytes
  | 0, _ => []
  | n + 1, bytes => bytes.take size :: chunks size n (bytes.drop size)

def decodeEntries : List Bytes → Option Bytes → Manifest → Except Corruption Manifest
  | [], _, manifest => .ok manifest
  | entry :: entries, previous, manifest => do
    let location ← match entry.head? with
      | some 0 => .ok .legacy
      | some 1 => .ok .managed
      | _ => .error .encoding
    let name := hex (entry.drop 1)
    if previous.any fun previous => name ≤ previous then .error .encoding
    else decodeEntries entries (some name) (manifest.insert name location)

def decode (bytes : Bytes) : Except Corruption Manifest :=
  match bytes with
  | m₀ :: m₁ :: m₂ :: m₃ :: a :: b :: c :: d :: rest =>
    if [m₀, m₁, m₂, m₃] ≠ magic then .error .encoding
    else if (checkedMul (ofBeBytes32 a b c d).toNat 33).bind (checkedAdd · 8) ≠ some bytes.length then
      .error .encoding
    else decodeEntries (chunks 33 (rest.length / 33) rest) none ⟨[], .nil⟩
  | _ => .error .encoding

def IsDigit (b : UInt8) : Prop := (48 ≤ b ∧ b ≤ 57) ∨ (97 ≤ b ∧ b ≤ 102)

instance (b : UInt8) : Decidable (IsDigit b) := inferInstanceAs (Decidable (_ ∨ _))

theorem forall_byte {P : UInt8 → Prop} (h : ∀ n < 256, P (.ofNat n)) (b : UInt8) : P b := by
  have := h b.toNat b.toNat_lt
  rwa [UInt8.ofNat_toNat] at this

theorem digits_of_byte (b : UInt8) :
    IsDigit (hexDigits.getD (b >>> 4).toNat 0) ∧ IsDigit (hexDigits.getD (b &&& 0x0f).toNat 0) ∧
      digit (hexDigits.getD (b >>> 4).toNat 0) = some (b >>> 4) ∧
      digit (hexDigits.getD (b &&& 0x0f).toNat 0) = some (b &&& 0x0f) ∧
      b >>> 4 <<< 4 ||| (b &&& 0x0f) = b := by
  revert b
  apply forall_byte
  decide +kernel

theorem mem_hexDigits (b : UInt8) : IsDigit b → b ∈ hexDigits := by
  simp [IsDigit, hexDigits, UInt8.le_iff_toNat_le, ← UInt8.toNat_inj]
  omega

theorem byte_of_digits : ∀ high ∈ hexDigits, ∀ low ∈ hexDigits,
    hex [(digit high).getD 0 <<< 4 ||| (digit low).getD 0] = [high, low] := by
  decide +kernel

theorem hex_cons (b : UInt8) (bytes : Bytes) : hex (b :: bytes) = hex [b] ++ hex bytes := by
  simp [hex]

theorem packPairs_hex (bytes : Bytes) : packPairs (hex bytes) = some bytes := by
  induction bytes with
  | nil => rfl
  | cons b bytes ih =>
    obtain ⟨-, -, hhigh, hlow, hbyte⟩ := digits_of_byte b
    rw [hex_cons]
    simp only [hex, List.flatMap_cons, List.flatMap_nil, List.append_nil, List.cons_append,
      List.nil_append, packPairs, hhigh, hlow, Option.bind_eq_bind, Option.bind_some, hbyte]
    change (packPairs (hex bytes)).bind _ = _
    rw [ih]
    rfl

theorem length_hex (bytes : Bytes) : (hex bytes).length = 2 * bytes.length := by
  induction bytes with
  | nil => rfl
  | cons b bytes ih =>
    rw [hex_cons, List.length_append, ih, List.length_cons]
    change 2 + _ = _
    omega

theorem isDigit_of_mem_hex {bytes : Bytes} : ∀ b ∈ hex bytes, IsDigit b := by
  intro b hb
  obtain ⟨byte, -, hb⟩ := List.mem_flatMap.mp hb
  obtain ⟨hhigh, hlow, -⟩ := digits_of_byte byte
  rcases List.mem_pair.mp hb with rfl | rfl
  · exact hhigh
  · exact hlow

theorem exists_hex {n : ℕ} (hlen : name.length = 2 * n) (h : ∀ b ∈ name, IsDigit b) :
    ∃ bytes : Bytes, bytes.length = n ∧ hex bytes = name := by
  induction n generalizing name with
  | zero => exact ⟨[], rfl, (List.length_eq_zero_iff.mp hlen).symm⟩
  | succ n ih =>
    match name, hlen with
    | high :: low :: name, hlen =>
      simp only [List.forall_mem_cons] at h
      obtain ⟨hhigh, hlow, hrest⟩ := h
      obtain ⟨bytes, hbytes, hname⟩ := ih (by simpa [Nat.mul_add] using hlen) hrest
      have hpair := byte_of_digits high (mem_hexDigits high hhigh) low (mem_hexDigits low hlow)
      refine ⟨((digit high).getD 0 <<< 4 ||| (digit low).getD 0) :: bytes, by simp [hbytes], ?_⟩
      rw [hex_cons, hpair, hname]
      rfl

theorem isCredentialFileName_iff : isCredentialFileName name = true ↔
    ∃ bytes : Bytes, bytes.length = keyLen ∧ hex bytes = name := by
  have hvalid : isCredentialFileName name = true ↔
      name.length = 2 * keyLen ∧ ∀ b ∈ name, IsDigit b := by
    simp [isCredentialFileName, IsDigit]
  rw [hvalid]
  constructor
  · rintro ⟨hlen, hdigits⟩
    exact exists_hex hlen hdigits
  · rintro ⟨bytes, hlen, rfl⟩
    exact ⟨by rw [length_hex, hlen], isDigit_of_mem_hex⟩

/-- An entry as it is stored, its name packed, and as it is listed. -/
def stored (e : Bytes × Location) : Bytes := e.2.byte :: e.1

def listed (e : Bytes × Location) : Bytes × Location := (hex e.1, e.2)

variable {es : Listing} {bytes : Bytes} {manifest : Manifest}

theorem encodeEntries_listed (hnames : ∀ e ∈ es, e.1.length = keyLen) (bytes : Bytes) :
    encodeEntries (es.map listed) bytes = some (.ok (bytes ++ es.flatMap stored)) := by
  induction es generalizing bytes with
  | nil => simp [encodeEntries]
  | cons e es ih =>
    have hname : isCredentialFileName (hex e.1) = true :=
      isCredentialFileName_iff.mpr ⟨e.1, hnames e List.mem_cons_self, rfl⟩
    rw [List.map_cons, listed, encodeEntries, if_neg (by simp [hname]), packPairs_hex]
    change encodeEntries _ _ = _
    rw [ih (fun e he => hnames e (List.mem_cons_of_mem _ he)), List.flatMap_cons,
      List.append_assoc]
    rfl

theorem exists_listed (h : ∀ e ∈ es, isCredentialFileName e.1 = true) :
    ∃ es' : Listing, (∀ e ∈ es', e.1.length = keyLen) ∧ es = es'.map listed := by
  induction es with
  | nil => exact ⟨[], nofun, rfl⟩
  | cons e es ih =>
    obtain ⟨he, hrest⟩ := List.forall_mem_cons.mp h
    obtain ⟨packed, hlen, hname⟩ := isCredentialFileName_iff.mp he
    obtain ⟨es', hes', rfl⟩ := ih hrest
    exact ⟨(packed, e.2) :: es', List.forall_mem_cons.mpr ⟨hlen, hes'⟩,
      by rw [List.map_cons, listed, hname]⟩

theorem chunks_stored (hnames : ∀ e ∈ es, e.1.length = keyLen) :
    chunks 33 es.length (es.flatMap stored) = es.map stored := by
  induction es with
  | nil => rfl
  | cons e es ih =>
    have hlen : (stored e).length = 33 := by
      rw [stored, List.length_cons, hnames e List.mem_cons_self]
      rfl
    rw [List.length_cons, chunks, List.flatMap_cons, ← hlen, List.take_left, List.drop_left, hlen,
      ih fun e he => hnames e (List.mem_cons_of_mem _ he), List.map_cons]

theorem chunks_spec {n : ℕ} (h : bytes.length = 33 * n) :
    (chunks 33 n bytes).flatten = bytes ∧ ∀ entry ∈ chunks 33 n bytes, entry.length = 33 := by
  induction n generalizing bytes with
  | zero => exact ⟨(List.length_eq_zero_iff.mp h).symm, nofun⟩
  | succ n ih =>
    have hrest : (bytes.drop 33).length = 33 * n := by
      rw [List.length_drop]
      omega
    obtain ⟨hflat, hlen⟩ := ih hrest
    refine ⟨by rw [chunks, List.flatten_cons, hflat, List.take_append_drop], ?_⟩
    exact List.forall_mem_cons.mpr ⟨by rw [List.length_take]; omega, hlen⟩

theorem insertEntry_last (h : ∀ e ∈ es, e.1 < name) :
    insertEntry name location es = es ++ [(name, location)] := by
  induction es with
  | nil => rfl
  | cons e es ih =>
    obtain ⟨he, hrest⟩ := List.forall_mem_cons.mp h
    have hnot : ¬ name < e.1 := fun hlt => List.lt_irrefl name (List.lt_trans hlt he)
    have hne : name ≠ e.1 := fun heq => List.lt_irrefl name (heq ▸ he)
    rw [insertEntry, if_neg hnot, if_neg hne, ih hrest]
    rfl

@[ext] theorem Manifest.ext {m m' : Manifest} (h : m.entries = m'.entries) : m = m' := by
  cases m
  cases m'
  cases h
  rfl

theorem decodeEntries_stored (e : Bytes × Location) (entries : List Bytes)
    (previous : Option Bytes) (manifest : Manifest) :
    decodeEntries (stored e :: entries) previous manifest =
      if previous.any fun previous => hex e.1 ≤ previous then .error .encoding
      else decodeEntries entries (some (hex e.1)) (manifest.insert (hex e.1) e.2) := by
  obtain ⟨packed, _ | _⟩ := e <;> rfl

/-- Entries are read only if they begin with the byte of a location. -/
theorem exists_stored {entry : Bytes} {entries : List Bytes} {previous : Option Bytes}
    {result : Manifest} (h : decodeEntries (entry :: entries) previous manifest = .ok result) :
    ∃ e, entry = stored e := by
  match entry with
  | [] => cases h
  | b :: packed =>
    by_cases h₀ : b = 0
    · exact ⟨(packed, .legacy), by rw [h₀]; rfl⟩
    · by_cases h₁ : b = 1
      · exact ⟨(packed, .managed), by rw [h₁]; rfl⟩
      · simp only [decodeEntries, List.head?_cons] at h
        split at h
        all_goals simp_all [bind, Except.bind]

/-- The loop reads the stored entries whose names ascend from the previous one. -/
theorem decodeEntries_eq_ok {entries : List Bytes} {previous : Option Bytes} {result : Manifest}
    (hprevious : ∀ e ∈ manifest.entries, ∃ p ∈ previous, e.1 ≤ p) :
    decodeEntries entries previous manifest = .ok result ↔ ∃ es : Listing,
      entries = es.map stored ∧ (previous.toList ++ es.map fun e => hex e.1).Pairwise (· < ·) ∧
      result.entries = manifest.entries ++ es.map listed := by
  induction entries generalizing previous manifest with
  | nil =>
    constructor
    · rintro ⟨⟩
      refine ⟨[], rfl, ?_, by simp⟩
      cases previous <;> simp
    · rintro ⟨es, hes, -, hresult⟩
      rw [List.map_eq_nil_iff.mp hes.symm, List.map_nil, List.append_nil] at hresult
      rw [decodeEntries, Manifest.ext hresult]
  | cons entry entries ih =>
    -- One round: the name comes after the previous one, and so after all of the manifest.
    have hround (e : Bytes × Location) (hlt : ∀ p ∈ previous, p < hex e.1) :
        (∀ x ∈ (manifest.insert (hex e.1) e.2).entries, ∃ p ∈ some (hex e.1), x.1 ≤ p) ∧
          (manifest.insert (hex e.1) e.2).entries = manifest.entries ++ [listed e] := by
      have hlast : (manifest.insert (hex e.1) e.2).entries = manifest.entries ++ [listed e] := by
        refine insertEntry_last fun x hx => ?_
        obtain ⟨p, hp, hle⟩ := hprevious x hx
        exact List.lt_of_le_of_lt hle (hlt p hp)
      refine ⟨fun x hx => ⟨_, rfl, ?_⟩, hlast⟩
      rw [hlast, List.mem_append, List.mem_singleton] at hx
      rcases hx with hx | rfl
      · obtain ⟨p, hp, hle⟩ := hprevious x hx
        exact List.le_of_lt (List.lt_of_le_of_lt hle (hlt p hp))
      · exact List.le_refl _
    constructor
    · intro h
      obtain ⟨e, rfl⟩ := exists_stored h
      rw [decodeEntries_stored] at h
      split_ifs at h with hany
      have hlt : ∀ p ∈ previous, p < hex e.1 := by
        intro p hp
        rw [Option.mem_def] at hp
        simpa [hp] using hany
      obtain ⟨hbound, hlast⟩ := hround e hlt
      obtain ⟨es, rfl, hpairwise, hresult⟩ := (ih hbound).mp h
      refine ⟨e :: es, rfl, ?_, by rw [hresult, hlast]; simp⟩
      cases previous with
      | none => simpa using hpairwise
      | some p =>
        have hp := hlt p rfl
        simp only [Option.toList_some, List.singleton_append, List.map_cons] at hpairwise ⊢
        refine List.pairwise_cons.mpr ⟨fun x hx => ?_, hpairwise⟩
        rcases List.mem_cons.mp hx with rfl | hx
        · exact hp
        · exact List.lt_trans hp ((List.pairwise_cons.mp hpairwise).1 x hx)
    · rintro ⟨es, hes, hpairwise, hresult⟩
      cases es with
      | nil => cases hes
      | cons e es =>
        cases hes
        obtain ⟨-, hpairwise', hcross⟩ := List.pairwise_append.mp hpairwise
        have hlt : ∀ p ∈ previous, p < hex e.1 := fun p hp =>
          hcross p (by simpa using hp) _ (by simp)
        obtain ⟨hbound, hlast⟩ := hround e hlt
        have hany : ¬ (previous.any fun p => hex e.1 ≤ p) = true := by
          cases previous with
          | none => simp
          | some p => simpa using hlt p rfl
        rw [decodeEntries_stored, if_neg hany]
        exact (ih hbound).mpr ⟨es, rfl, hpairwise', by rw [hresult, hlast]; simp⟩

/-- The bytes of a manifest with the given count in its header. -/
def image (count : UInt32) (es : Listing) : Bytes := magic ++ beBytes32 count ++ es.flatMap stored

theorem length_flatMap_stored (hnames : ∀ e ∈ es, e.1.length = keyLen) :
    (es.flatMap stored).length = 33 * es.length := by
  induction es with
  | nil => rfl
  | cons e es ih =>
    obtain ⟨he, hrest⟩ := List.forall_mem_cons.mp hnames
    rw [List.flatMap_cons, List.length_append, ih hrest, stored, List.length_cons, he,
      List.length_cons, keyLen]
    omega

theorem header_length (count : UInt32) :
    (checkedMul count.toNat 33).bind (checkedAdd · 8) = some (count.toNat * 33 + 8) := by
  have := count.toNat_lt
  rw [checkedMul_eq (by omega), Option.bind_some, checkedAdd_eq (by omega)]

theorem decode_image {count : UInt32} {rest : Bytes} :
    decode (magic ++ beBytes32 count ++ rest) =
      if rest.length = 33 * count.toNat then
        decodeEntries (chunks 33 count.toNat rest) none ⟨[], .nil⟩
      else .error .encoding := by
  have hlen : (magic ++ beBytes32 count ++ rest).length = rest.length + 8 := by
    simp only [List.length_append, length_beBytes32, magic, List.length_cons, List.length_nil]
    omega
  change (if magic ≠ magic then .error .encoding
    else if (checkedMul (ofBeBytes32 _ _ _ _).toNat 33).bind (checkedAdd · 8) ≠
      some (magic ++ beBytes32 count ++ rest).length then .error .encoding
    else decodeEntries (chunks 33 (rest.length / 33) rest) none ⟨[], .nil⟩) = _
  rw [if_neg (by simp), ofBeBytes32_beBytes32, header_length, hlen]
  by_cases hrest : rest.length = 33 * count.toNat
  · rw [if_pos hrest, if_neg (by rw [hrest]; simp [Nat.mul_comm]), hrest,
      Nat.mul_div_cancel_left _ (by decide)]
  · rw [if_neg hrest, if_pos]
    rw [ne_eq, Option.some.injEq]
    omega

/-- What is accepted is a whole listing in ascending order. -/
theorem decode_eq_ok : decode bytes = .ok manifest ↔ ∃ es : Listing,
    (∀ e ∈ es, e.1.length = keyLen) ∧ es.length < 2 ^ 32 ∧ bytes = image (.ofNat es.length) es ∧
      manifest.entries = es.map listed := by
  constructor
  · intro h
    match bytes with
    | m₀ :: m₁ :: m₂ :: m₃ :: a :: b :: c :: d :: rest =>
      have hmagic : [m₀, m₁, m₂, m₃] = magic := by
        by_contra hne
        rw [decode, if_pos hne] at h
        cases h
      have hbytes : m₀ :: m₁ :: m₂ :: m₃ :: a :: b :: c :: d :: rest =
          magic ++ beBytes32 (ofBeBytes32 a b c d) ++ rest := by
        rw [beBytes32_ofBeBytes32, ← hmagic]
        rfl
      rw [hbytes] at h ⊢
      generalize ofBeBytes32 a b c d = count at h
      rw [decode_image] at h
      split_ifs at h with hrest
      obtain ⟨hflat, hchunks⟩ := chunks_spec hrest
      obtain ⟨es, hes, -, hentries⟩ := (decodeEntries_eq_ok fun _ he => absurd he List.not_mem_nil).mp h
      rw [hes] at hflat hchunks
      have hnames : ∀ e ∈ es, e.1.length = keyLen := fun e he =>
        Nat.succ.inj (hchunks _ (List.mem_map_of_mem he))
      rw [← List.flatMap_def] at hflat
      have hcount : es.length = count.toNat := by
        have := length_flatMap_stored hnames
        rw [hflat] at this
        omega
      refine ⟨es, hnames, hcount ▸ count.toNat_lt, ?_, hentries⟩
      rw [image, hflat, hcount, UInt32.ofNat_toNat]
  · rintro ⟨es, hnames, hlt, rfl, hentries⟩
    have hcount : (UInt32.ofNat es.length).toNat = es.length := by
      rw [UInt32.toNat_ofNat', Nat.mod_eq_of_lt hlt]
    rw [image, decode_image, if_pos (by rw [length_flatMap_stored hnames, hcount]), hcount,
      chunks_stored hnames]
    refine (decodeEntries_eq_ok fun _ he => absurd he List.not_mem_nil).mpr ⟨es, rfl, ?_, hentries⟩
    have hascending := manifest.ascending
    rw [hentries, List.map_map] at hascending
    exact hascending

theorem encode_listed (hnames : ∀ e ∈ es, e.1.length = keyLen)
    (hentries : manifest.entries = es.map listed)
    (hfits : 33 * es.length + 8 ≤ maxEnvelopeLen - overhead) :
    encode manifest = some (.ok (image (.ofNat es.length) es)) := by
  have hlen : manifest.entries.length = es.length := by rw [hentries, List.length_map]
  have hsmall : 33 * es.length + 8 ≤ 2 ^ 20 := hfits.trans (by decide)
  have hlength : ((checkedMul es.length 33).bind (checkedAdd · 8)).filter
      (· ≤ maxEnvelopeLen - overhead) = some (es.length * 33 + 8) := by
    rw [checkedMul_eq (by omega), Option.bind_some, checkedAdd_eq (by omega), Option.filter_some,
      if_pos]
    rw [decide_eq_true_iff]
    omega
  rw [encode, hlen, hlength, if_neg (by simp), if_neg (by omega), hentries, encodeEntries_listed hnames, image]

/-- The digits of a valid name are subtracted from without underflow. -/
theorem encodeEntries_ne_none : encodeEntries es bytes ≠ none := by
  induction es generalizing bytes with
  | nil => simp [encodeEntries]
  | cons e es ih =>
    rw [encodeEntries]
    split_ifs with hname
    · simp
    · obtain ⟨packed, -, hpacked⟩ := isCredentialFileName_iff.mp (by simpa using hname)
      rw [← hpacked, packPairs_hex]
      exact ih

theorem encode_ne_none (manifest : Manifest) : encode manifest ≠ none := by
  unfold encode
  dsimp only
  split_ifs
  · simp
  · simp
  · exact encodeEntries_ne_none

/-- Equal lists of names come from equal lists of bytes. -/
theorem listed_injective : Function.Injective listed := by
  intro e e' h
  obtain ⟨hname, hlocation⟩ := Prod.mk.inj h
  have hpacked := packPairs_hex e.1
  rw [hname, packPairs_hex] at hpacked
  exact Prod.ext (Option.some.inj hpacked).symm hlocation

theorem decode_injective {bytes' : Bytes} (h : decode bytes = .ok manifest)
    (h' : decode bytes' = .ok manifest) : bytes = bytes' := by
  obtain ⟨es, -, -, rfl, hes⟩ := decode_eq_ok.mp h
  obtain ⟨es', -, -, rfl, hes'⟩ := decode_eq_ok.mp h'
  rw [List.map_injective_iff.mpr listed_injective (hes.symm.trans hes')]

theorem stored_injective : Function.Injective stored := by
  rintro ⟨packed, location⟩ ⟨packed', location'⟩ h
  obtain ⟨hbyte, hpacked⟩ := List.cons.inj h
  have hlocation : location = location' := by
    cases location <;> cases location' <;> first | rfl | cases hbyte
  exact Prod.ext hpacked hlocation

theorem length_of_decode {count : UInt32} {rest : Bytes}
    (h : decode (magic ++ beBytes32 count ++ rest) = .ok manifest) :
    rest.length = 33 * count.toNat := by
  rw [decode_image] at h
  split_ifs at h with hrest
  exact hrest

theorem decode_append {extra : Bytes} {manifest' : Manifest} (h : decode bytes = .ok manifest)
    (h' : decode (bytes ++ extra) = .ok manifest') : extra = [] := by
  obtain ⟨es, -, -, rfl, -⟩ := decode_eq_ok.mp h
  rw [image, List.append_assoc] at h'
  have hlen := length_of_decode h
  have hlen' := length_of_decode h'
  rw [List.length_append] at hlen'
  exact List.length_eq_zero_iff.mp (by omega)

/-- The count of the header is that of the entries, and their names ascend. -/
theorem ascending_of_decode {count : UInt32} (hnames : ∀ e ∈ es, e.1.length = keyLen)
    (h : decode (image count es) = .ok manifest) :
    count.toNat = es.length ∧ (es.map fun e => hex e.1).Pairwise (· < ·) := by
  have hcount : count.toNat = es.length := by
    have hlen := length_of_decode h
    rw [length_flatMap_stored hnames] at hlen
    omega
  rw [image, decode_image, hcount, if_pos (length_flatMap_stored hnames),
    chunks_stored hnames] at h
  obtain ⟨es', hes', hascending, -⟩ :=
    (decodeEntries_eq_ok fun _ he => absurd he List.not_mem_nil).mp h
  rw [← List.map_injective_iff.mpr stored_injective hes'] at hascending
  exact ⟨hcount, hascending⟩

/-- Manifests and accepted byte strings determine each other, and no addition, product or
digit overflows. -/
theorem manifest_bijective :
    (∀ m : Manifest, (∀ e ∈ m.entries, isCredentialFileName e.1 = true) →
      33 * m.entries.length + 8 ≤ maxEnvelopeLen - overhead →
      ∃ b, encode m = some (.ok b) ∧ decode b = .ok m) ∧
    (∀ b m, decode b = .ok m → b.length ≤ maxEnvelopeLen - overhead → encode m = some (.ok b)) ∧
    (∀ b b' m, decode b = .ok m → decode b' = .ok m → b = b') ∧
    (∀ b b' m m', decode b = .ok m → decode b' = .ok m' → b <+: b' → b = b') ∧
    (∀ count es m, (∀ e ∈ es, e.1.length = keyLen) → decode (image count es) = .ok m →
      count.toNat = es.length ∧ (es.map fun e => hex e.1).Pairwise (· < ·)) ∧
    (∀ b m, decode b = .ok m → ∀ e ∈ m.entries, isCredentialFileName e.1 = true) ∧
    (∀ m, encode m ≠ none) ∧
    ∀ count : UInt32,
      (checkedMul count.toNat 33).bind (checkedAdd · 8) = some (count.toNat * 33 + 8) := by
  refine ⟨fun m hvalid hfits => ?_, fun b m h hfits => ?_, fun b b' m => decode_injective,
    fun b b' m m' h h' hb => ?_, fun count es m => ascending_of_decode, fun b m h e he => ?_,
    encode_ne_none, header_length⟩
  · obtain ⟨es, hnames, hentries⟩ := exists_listed hvalid
    rw [hentries, List.length_map] at hfits
    have hsmall : 33 * es.length + 8 ≤ 2 ^ 20 := hfits.trans (by decide)
    exact ⟨_, encode_listed hnames hentries hfits,
      decode_eq_ok.mpr ⟨es, hnames, by omega, rfl, hentries⟩⟩
  · obtain ⟨es, hnames, -, rfl, hentries⟩ := decode_eq_ok.mp h
    refine encode_listed hnames hentries (le_trans (le_of_eq ?_) hfits)
    rw [image, List.length_append, length_flatMap_stored hnames]
    exact Nat.add_comm _ _
  · obtain ⟨extra, rfl⟩ := hb
    rw [decode_append h h', List.append_nil]
  · obtain ⟨es, hnames, -, -, hentries⟩ := decode_eq_ok.mp h
    rw [hentries] at he
    obtain ⟨e', he', rfl⟩ := List.mem_map.mp he
    exact isCredentialFileName_iff.mpr ⟨e'.1, hnames e' he', rfl⟩

def twoRecords : Manifest where
  entries := [(hex (List.replicate 32 0x0a), .legacy), (hex (List.replicate 32 0xa0), .managed)]
  ascending := by decide

theorem manifest_bijective_twoRecords :
    ∃ b, encode twoRecords = some (.ok b) ∧ decode b = .ok twoRecords :=
  manifest_bijective.1 twoRecords (by decide +kernel) (by decide)

end SoftwareAuthenticator.Store
