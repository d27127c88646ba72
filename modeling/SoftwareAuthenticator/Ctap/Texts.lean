import SoftwareAuthenticator.Ctap.Encoding

/-!
# Texts and their bytes

Texts are cut at byte positions and PINs are padded with zero bytes, while both are made of
characters.
-/

namespace SoftwareAuthenticator.Ctap

def encodeChars (chars : List Char) : Bytes := chars.flatMap String.utf8EncodeChar

theorem utf8_eq_encodeChars (s : String) : utf8 s = encodeChars s.toList := by
  have h : s.toByteArray = s.toList.utf8Encode := by
    rw [← String.toByteArray_ofList, String.ofList_toList]
  rw [utf8_eq, h]
  simp [List.utf8Encode, encodeChars]

def isContinuation (byte : UInt8) : Bool := 0x80 ≤ byte ∧ byte < 0xc0

theorem isContinuation_ofNat {n : ℕ} (h : n < 256) :
    isContinuation (.ofNat n) = decide (128 ≤ n ∧ n < 192) := by
  simp [isContinuation, UInt8.le_iff_toNat_le, UInt8.lt_iff_toNat_lt, Nat.mod_eq_of_lt h]

/-- A first byte, and continuation bytes after it; only the NUL character has a zero byte. -/
theorem utf8EncodeChar_cons (c : Char) : ∃ first rest,
    String.utf8EncodeChar c = first :: rest ∧ isContinuation first = false ∧
      (∀ b ∈ rest, isContinuation b = true) ∧ (rest = [] → (first = 0 ↔ c = '\x00')) := by
  have hlead {n : ℕ} (hn : n < 128 ∨ 192 ≤ n ∧ n < 256) : isContinuation (.ofNat n) = false := by
    rw [isContinuation_ofNat (by omega), decide_eq_false_iff_not]
    omega
  have htail (n : ℕ) : isContinuation (.ofNat (n % 64 + 128)) = true := by
    rw [isContinuation_ofNat (by omega), decide_eq_true_iff]
    omega
  unfold String.utf8EncodeChar
  dsimp only
  split_ifs with h₁ h₂ h₃
  · refine ⟨_, [], rfl, hlead (by omega), nofun, fun _ => ?_⟩
    rw [← UInt8.toNat_inj, UInt8.toNat_ofNat', Nat.mod_eq_of_lt (by omega), ← Char.val_inj,
      ← UInt32.toNat_inj]
    rfl
  · refine ⟨_, _, rfl, hlead (by omega), ?_, nofun⟩
    simp only [List.forall_mem_cons, htail, List.not_mem_nil, false_implies, implies_true, and_self]
  · refine ⟨_, _, rfl, hlead (by omega), ?_, nofun⟩
    simp only [List.forall_mem_cons, htail, List.not_mem_nil, false_implies, implies_true, and_self]
  · refine ⟨_, _, rfl, hlead (by omega), ?_, nofun⟩
    simp only [List.forall_mem_cons, htail, List.not_mem_nil, false_implies, implies_true, and_self]

@[simp] theorem encodeChars_cons (c : Char) (chars : List Char) :
    encodeChars (c :: chars) = String.utf8EncodeChar c ++ encodeChars chars := rfl

@[simp] theorem encodeChars_append (chars chars' : List Char) :
    encodeChars (chars ++ chars') = encodeChars chars ++ encodeChars chars' :=
  List.flatMap_append

@[simp] theorem utf8Length_append (chars chars' : List Char) :
    utf8Length (chars ++ chars') = utf8Length chars + utf8Length chars' := by
  simp [utf8Length]

@[simp] theorem utf8Length_cons (c : Char) (chars : List Char) :
    utf8Length (c :: chars) = c.utf8Size + utf8Length chars := by
  simp [utf8Length]

variable (chars : List Char)

@[simp] theorem length_encodeChars : (encodeChars chars).length = utf8Length chars := by
  induction chars with
  | nil => rfl
  | cons c chars ih =>
    rw [encodeChars_cons, List.length_append, String.length_utf8EncodeChar, ih, utf8Length_cons]

def isCharBoundary (bytes : Bytes) (index : ℕ) : Bool :=
  if index = 0 then true
  else match bytes[index]? with
    | none => index = bytes.length
    | some byte => !isContinuation byte

theorem isCharBoundary_iff {chars : List Char} {index : ℕ} :
    isCharBoundary (encodeChars chars) index = true ↔
      ∃ start stop, chars = start ++ stop ∧ utf8Length start = index := by
  induction chars generalizing index with
  | nil =>
    cases index with
    | zero => exact ⟨fun _ => ⟨[], [], rfl, rfl⟩, fun _ => rfl⟩
    | succ index =>
      refine ⟨fun h => by simp [isCharBoundary, encodeChars] at h, ?_⟩
      rintro ⟨start, stop, hnil, hlen⟩
      rw [(List.append_eq_nil_iff.mp hnil.symm).1] at hlen
      cases hlen
  | cons c chars ih =>
    obtain ⟨first, rest, hc, hfirst, hrest, -⟩ := utf8EncodeChar_cons c
    have hsize : c.utf8Size = rest.length + 1 := by
      rw [← String.length_utf8EncodeChar, hc, List.length_cons]
    rw [encodeChars_cons, hc]
    rcases Nat.lt_or_ge index c.utf8Size with hlt | hge
    · -- Within the first character only its start is a boundary.
      cases index with
      | zero => exact ⟨fun _ => ⟨[], _, rfl, rfl⟩, fun _ => rfl⟩
      | succ index =>
        have hget : (first :: rest ++ encodeChars chars)[index + 1]? = some rest[index] := by
          rw [List.cons_append, List.getElem?_cons_succ, List.getElem?_append_left (by omega),
            List.getElem?_eq_getElem]
        refine ⟨fun h => ?_, ?_⟩
        · rw [isCharBoundary, if_neg (Nat.succ_ne_zero _), hget] at h
          simp [hrest] at h
        · rintro ⟨_ | ⟨d, start⟩, stop, hsplit, hlen⟩
          · cases hlen
          · cases hsplit
            rw [utf8Length_cons] at hlen
            omega
    · obtain ⟨index, rfl⟩ := Nat.exists_eq_add_of_le hge
      have hshift : isCharBoundary (first :: rest ++ encodeChars chars) (c.utf8Size + index) =
          isCharBoundary (encodeChars chars) index := by
        have hget : (first :: rest ++ encodeChars chars)[c.utf8Size + index]? =
            (encodeChars chars)[index]? := by
          rw [List.getElem?_append_right (by rw [hsize, List.length_cons]; omega), hsize,
            List.length_cons, Nat.add_sub_cancel_left]
        have hlen : (first :: rest ++ encodeChars chars).length =
            c.utf8Size + (encodeChars chars).length := by
          rw [List.length_append, List.length_cons, hsize]
        rw [isCharBoundary, if_neg (by omega), hget, hlen, isCharBoundary]
        split_ifs with hzero
        · -- The next character begins with a byte of its own.
          cases chars with
          | nil => simp [hzero, encodeChars]
          | cons d chars =>
            obtain ⟨first, rest, hd, hfirst, -⟩ := utf8EncodeChar_cons d
            simp [hzero, hd, hfirst]
        · split <;> simp
      rw [hshift, ih]
      constructor
      · rintro ⟨start, stop, rfl, rfl⟩
        exact ⟨c :: start, stop, rfl, by simp⟩
      · rintro ⟨_ | ⟨d, start⟩, stop, hsplit, hlen⟩
        · have := c.utf8Size_pos
          change 0 = _ at hlen
          omega
        · cases hsplit
          exact ⟨start, stop, rfl, by simpa using hlen⟩

structure LongestStart (limit : ℕ) (chars start : List Char) : Prop where
  isStart : start <+: chars
  fits : utf8Length start ≤ limit
  longest : ∀ other, other <+: chars → utf8Length other ≤ limit → other <+: start

structure LongestEnd (limit : ℕ) (chars stop : List Char) : Prop where
  isEnd : stop <:+ chars
  fits : utf8Length stop ≤ limit
  longest : ∀ other, other <:+ chars → utf8Length other ≤ limit → other <:+ stop

theorem longestStart_truncateChars (limit : ℕ) :
    LongestStart limit chars (truncateChars chars limit) := by
  induction chars generalizing limit with
  | nil => exact ⟨List.prefix_rfl, Nat.zero_le _, fun other h _ => h⟩
  | cons c chars ih =>
    rw [truncateChars]
    split_ifs with hc
    · obtain ⟨hstart, hfits, hlongest⟩ := ih (limit - c.utf8Size)
      refine ⟨List.cons_prefix_cons.mpr ⟨rfl, hstart⟩, by rw [utf8Length_cons]; omega, ?_⟩
      rintro (_ | ⟨d, other⟩) hother hlen
      · exact List.nil_prefix
      · obtain ⟨rfl, hrest⟩ := List.cons_prefix_cons.mp hother
        rw [utf8Length_cons] at hlen
        exact List.cons_prefix_cons.mpr ⟨rfl, hlongest other hrest (by omega)⟩
    · refine ⟨ List.nil_prefix, Nat.zero_le _, ?_⟩
      rintro (_ | ⟨d, other⟩) hother hlen
      · exact List.prefix_rfl
      · obtain ⟨rfl, -⟩ := List.cons_prefix_cons.mp hother
        rw [utf8Length_cons] at hlen
        omega

theorem LongestStart.unique {limit : ℕ} {chars start start' : List Char}
    (h : LongestStart limit chars start) (h' : LongestStart limit chars start') : start = start' := by
  have hle := h'.longest start h.isStart h.fits
  have hge := h.longest start' h'.isStart h'.fits
  exact hle.eq_of_length (Nat.le_antisymm hle.length_le hge.length_le)

@[simp] theorem utf8Length_reverse : utf8Length chars.reverse = utf8Length chars := by
  simp [utf8Length]

theorem longestEnd_truncateChars (limit : ℕ) :
    LongestEnd limit chars (truncateChars chars.reverse limit).reverse := by
  obtain ⟨hstart, hfits, hlongest⟩ := longestStart_truncateChars chars.reverse limit
  refine ⟨?_, by rwa [utf8Length_reverse], fun other hother hlen => ?_⟩
  · rwa [← List.reverse_prefix, List.reverse_reverse]
  · rw [← List.reverse_prefix, List.reverse_reverse]
    exact hlongest _ (List.reverse_prefix.mpr hother) (by rwa [utf8Length_reverse])

theorem utf8Length_mono {chars chars' : List Char} (h : chars <+: chars') :
    utf8Length chars ≤ utf8Length chars' := by
  obtain ⟨rest, rfl⟩ := h
  rw [utf8Length_append]
  omega

theorem truncateChars_part {part chars : List Char} (h : part <+: chars) (limit : ℕ) :
    truncateChars part limit = truncateChars chars (min (utf8Length part) limit) := by
  obtain ⟨hstart, hfits, hlongest⟩ := longestStart_truncateChars part limit
  refine LongestStart.unique ⟨hstart.trans h, ?_, fun other hother hlen => ?_⟩
    (longestStart_truncateChars _ _)
  · exact le_min (utf8Length_mono hstart) hfits
  · obtain ⟨hpart, hlimit⟩ := le_min_iff.mp hlen
    refine hlongest other ?_ hlimit
    rcases List.prefix_or_prefix_of_prefix hother h with hother | ⟨rest, rfl⟩
    · exact hother
    · -- What is longer than the part has no further characters.
      cases rest with
      | nil => simp
      | cons c rest =>
        have := c.utf8Size_pos
        rw [utf8Length_append, utf8Length_cons] at hpart
        omega

/-- `while !is_char_boundary(index) { index -= 1 }`; `none` if the index underflows. -/
def floorBoundary (bytes : Bytes) : ℕ → Option ℕ
  | 0 => if isCharBoundary bytes 0 then some 0 else none
  | index + 1 =>
    if isCharBoundary bytes (index + 1) then some (index + 1) else floorBoundary bytes index

/-- `while !is_char_boundary(index) { index += 1 }`, for as many rounds as are given. -/
def ceilBoundary (bytes : Bytes) : ℕ → ℕ → Option ℕ
  | 0, _ => none
  | rounds + 1, index =>
    if isCharBoundary bytes index then some index else ceilBoundary bytes rounds (index + 1)

theorem floorBoundary_eq {bytes : Bytes} {index target : ℕ} (htarget : isCharBoundary bytes target = true)
    (hle : target ≤ index) (hnone : ∀ i, target < i → i ≤ index → isCharBoundary bytes i ≠ true) :
    floorBoundary bytes index = some target := by
  induction index with
  | zero =>
    obtain rfl := Nat.le_zero.mp hle
    rw [floorBoundary, if_pos htarget]
  | succ index ih =>
    rcases Nat.eq_or_lt_of_le hle with rfl | hlt
    · rw [floorBoundary, if_pos htarget]
    · rw [floorBoundary, if_neg (hnone _ hlt le_rfl)]
      exact ih (by omega) fun i h h' => hnone i h (by omega)

theorem ceilBoundary_eq {bytes : Bytes} {rounds index target : ℕ}
    (htarget : isCharBoundary bytes target = true) (hle : index ≤ target)
    (hrounds : target < index + rounds)
    (hnone : ∀ i, index ≤ i → i < target → isCharBoundary bytes i ≠ true) :
    ceilBoundary bytes rounds index = some target := by
  induction rounds generalizing index with
  | zero => omega
  | succ rounds ih =>
    rcases Nat.eq_or_lt_of_le hle with rfl | hlt
    · rw [ceilBoundary, if_pos htarget]
    · rw [ceilBoundary, if_neg (hnone _ le_rfl hlt)]
      exact ih (by omega) (by omega) fun i h => hnone i (by omega)

/-- The search downwards ends after the longest first characters that fit. -/
theorem floorBoundary_encodeChars (limit : ℕ) :
    floorBoundary (encodeChars chars) limit = some (utf8Length (truncateChars chars limit)) := by
  obtain ⟨⟨rest, hrest⟩, hfits, hlongest⟩ := longestStart_truncateChars chars limit
  refine floorBoundary_eq (isCharBoundary_iff.mpr ⟨_, rest, hrest.symm, rfl⟩) hfits
    fun i hlt hle hi => ?_
  obtain ⟨start, stop, hchars, rfl⟩ := isCharBoundary_iff.mp hi
  have := utf8Length_mono (hlongest start ⟨stop, hchars.symm⟩ hle)
  omega

/-- The search upwards ends before the longest last characters that fit. -/
theorem ceilBoundary_encodeChars {chars : List Char} {limit : ℕ} (h : limit ≤ utf8Length chars) :
    ceilBoundary (encodeChars chars) (utf8Length chars + 1) (utf8Length chars - limit) =
      some (utf8Length chars - utf8Length (truncateChars chars.reverse limit)) := by
  obtain ⟨⟨start, hstart⟩, hfits, hlongest⟩ := longestEnd_truncateChars chars limit
  have hlen := congrArg utf8Length hstart
  rw [utf8Length_append, utf8Length_reverse] at hlen
  rw [utf8Length_reverse] at hfits
  refine ceilBoundary_eq (isCharBoundary_iff.mpr ⟨start, _, hstart.symm, by omega⟩) (by omega)
    (by omega) fun i hle hlt hi => ?_
  obtain ⟨start', stop', rfl, rfl⟩ := isCharBoundary_iff.mp hi
  rw [utf8Length_append] at hlen hle hlt
  obtain ⟨more, hmore⟩ := hlongest stop' (List.suffix_append _ _) (by omega)
  have := congrArg utf8Length hmore
  rw [utf8Length_append, utf8Length_reverse] at this
  omega

def find (c : Char) (text : String) : Option ℕ :=
  if c ∈ text.toList then some (utf8Length (text.toList.takeWhile (· ≠ c))) else none

/-- `text[..stop]`, which must not split a character. -/
def textTo (bytes : Bytes) (stop : ℕ) : Option Bytes :=
  if isCharBoundary bytes stop then some (bytes.take stop) else none

/-- `text[start..]`, which must not split a character. -/
def textFrom (bytes : Bytes) (start : ℕ) : Option Bytes :=
  if isCharBoundary bytes start then some (bytes.drop start) else none

/-- The protocol that is copied, up to a character boundary. -/
def storedProtocol (rpId : String) : Option Bytes :=
  match find ':' rpId with
  | none => some []
  | some colon => do
    let toCopy ← floorBoundary (utf8 rpId) (min (colon + 1) maxReturnedRpIdLength)
    textTo (utf8 rpId) toCopy

/-- `truncated_rp_id` by its byte indices; `none` if one underflows, leaves the text or splits a
character. -/
def truncatedRpIdAt (rpId : String) : Option Bytes :=
  let bytes := utf8 rpId
  if bytes.length ≤ maxReturnedRpIdLength then some bytes
  else do
    let stored ← storedProtocol rpId
    if 3 ≤ (← checkedSub maxReturnedRpIdLength stored.length) then
      let stored := stored ++ encodeChars ['…']
      let start ← checkedSub bytes.length (← checkedSub maxReturnedRpIdLength stored.length)
      return stored ++ (← textFrom bytes (← ceilBoundary bytes (bytes.length + 1) start))
    else return stored

/-- The bytes of the protocol that `maybe_truncate_rpid` of CTAP copies. -/
def protocolBytes (rpId : String) : Bytes :=
  match find ':' rpId with
  | none => []
  | some colon => (utf8 rpId).take (min (colon + 1) maxReturnedRpIdLength)

/-- Where the kept end of the RP ID begins after `n` bytes and the ellipsis. -/
def endStart (rpId : String) (n : ℕ) : ℕ :=
  (utf8 rpId).length - (maxReturnedRpIdLength - (n + 3))

/-- `maybe_truncate_rpid` of CTAP, which counts bytes. -/
def maybeTruncateRpId (rpId : String) : Bytes :=
  if (utf8 rpId).length ≤ maxReturnedRpIdLength then utf8 rpId
  else
    let stored := protocolBytes rpId
    if 3 ≤ maxReturnedRpIdLength - stored.length then
      stored ++ encodeChars ['…'] ++ (utf8 rpId).drop (endStart rpId stored.length)
    else stored

/-- The procedure on bytes cuts a longer RP ID between characters only. -/
def CutsBetweenCharacters (rpId : String) : Prop :=
  isCharBoundary (utf8 rpId) (protocolBytes rpId).length = true ∧
    (3 ≤ maxReturnedRpIdLength - (protocolBytes rpId).length →
      isCharBoundary (utf8 rpId) (endStart rpId (protocolBytes rpId).length) = true)

variable {rpId : String} {chars : List Char}

/-- The protocol is a first part of the text, and the search for the colon finds its end. -/
theorem protocolPart_cases (rpId : String) :
    (find ':' rpId = none ∧ protocolPart rpId.toList = []) ∨
      ∃ colon, find ':' rpId = some colon ∧ protocolPart rpId.toList <+: rpId.toList ∧
        utf8Length (protocolPart rpId.toList) = colon + 1 := by
  by_cases h : ':' ∈ rpId.toList
  · refine .inr ⟨_, if_pos h, ?_, ?_⟩
    · obtain ⟨front, rest, hchars, hfront⟩ := List.eq_append_cons_of_mem h
      have htake : rpId.toList.takeWhile (· ≠ ':') = front := by
        rw [hchars, List.takeWhile_append_of_pos, List.takeWhile_cons_of_neg (by simp),
          List.append_nil]
        intro c hc
        have hne : c ≠ ':' := fun heq => hfront (heq ▸ hc)
        simpa using hne
      rw [protocolPart, if_pos h, htake, hchars]
      exact ⟨rest, by simp⟩
    · rw [protocolPart, if_pos h, utf8Length_append]
      rfl
  · exact .inl ⟨if_neg h, if_neg h⟩

theorem take_encodeChars {start : List Char} (h : start <+: chars) :
    (encodeChars chars).take (utf8Length start) = encodeChars start := by
  obtain ⟨rest, rfl⟩ := h
  rw [encodeChars_append, ← length_encodeChars, List.take_left]

theorem drop_encodeChars {stop : List Char} (h : stop <:+ chars) :
    (encodeChars chars).drop (utf8Length chars - utf8Length stop) = encodeChars stop := by
  obtain ⟨rest, rfl⟩ := h
  rw [encodeChars_append, utf8Length_append, Nat.add_sub_cancel, ← length_encodeChars,
    List.drop_left]

def keptProtocol (chars : List Char) : List Char :=
  truncateChars (protocolPart chars) maxReturnedRpIdLength

def keptEnd (chars : List Char) (n : ℕ) : List Char :=
  (truncateChars chars.reverse (maxReturnedRpIdLength - (n + 3))).reverse

theorem truncatedRpId_eq (hlong : maxReturnedRpIdLength < utf8Length rpId.toList) :
    truncatedRpId rpId = String.ofList
      (if 3 ≤ maxReturnedRpIdLength - utf8Length (keptProtocol rpId.toList) then
        keptProtocol rpId.toList ++ '…' ::
          keptEnd rpId.toList (utf8Length (keptProtocol rpId.toList))
      else keptProtocol rpId.toList) := by
  rw [truncatedRpId]
  dsimp only
  rw [if_neg (by omega), ← keptProtocol]
  split_ifs with hroom
  · rw [utf8Length_append, keptEnd, List.append_assoc]
    rfl
  · rfl

theorem longestStart_keptProtocol (rpId : String) : LongestStart
    (min (utf8Length (protocolPart rpId.toList)) maxReturnedRpIdLength) rpId.toList
    (keptProtocol rpId.toList) := by
  have hpart : protocolPart rpId.toList <+: rpId.toList := by
    rcases protocolPart_cases rpId with ⟨-, hnil⟩ | ⟨colon, -, hpart, -⟩
    · rw [hnil]
      exact List.nil_prefix
    · exact hpart
  rw [keptProtocol, truncateChars_part hpart]
  exact longestStart_truncateChars _ _

theorem textTo_encodeChars {start : List Char} (h : start <+: chars) :
    textTo (encodeChars chars) (utf8Length start) = some (encodeChars start) := by
  obtain ⟨rest, hrest⟩ := h
  rw [textTo, if_pos (isCharBoundary_iff.mpr ⟨start, rest, hrest.symm, rfl⟩),
    take_encodeChars ⟨rest, hrest⟩]

theorem textFrom_encodeChars {stop : List Char} (h : stop <:+ chars) :
    textFrom (encodeChars chars) (utf8Length chars - utf8Length stop) =
      some (encodeChars stop) := by
  obtain ⟨start, rfl⟩ := h
  rw [textFrom, if_pos (isCharBoundary_iff.mpr ⟨start, stop, rfl, by simp⟩),
    drop_encodeChars (List.suffix_append _ _)]

/-- The search for the end of the protocol finds the characters that are kept. -/
theorem storedProtocol_eq (rpId : String) :
    storedProtocol rpId = some (encodeChars (keptProtocol rpId.toList)) := by
  rw [storedProtocol]
  rcases protocolPart_cases rpId with ⟨hfind, hnil⟩ | ⟨colon, hfind, hpart, hlen⟩
  · rw [hfind, keptProtocol, hnil]
    rfl
  · have hkept := (longestStart_keptProtocol rpId).isStart
    rw [hfind, utf8_eq_encodeChars]
    dsimp only
    rw [floorBoundary_encodeChars, ← hlen, ← truncateChars_part hpart, ← keptProtocol,
      Option.bind_eq_bind, Option.bind_some, textTo_encodeChars hkept]

/-- The indices are in range and cut the characters that are kept. -/
theorem truncatedRpIdAt_eq (rpId : String) :
    truncatedRpIdAt rpId = some (utf8 (truncatedRpId rpId)) := by
  have hutf8 := utf8_eq_encodeChars rpId
  have hlen : (utf8 rpId).length = utf8Length rpId.toList := by rw [hutf8, length_encodeChars]
  by_cases hlong : maxReturnedRpIdLength < utf8Length rpId.toList
  · have hfits := (longestStart_keptProtocol rpId).fits
    rw [truncatedRpIdAt]
    dsimp only
    rw [if_neg (by omega), storedProtocol_eq, truncatedRpId_eq hlong, utf8_eq_encodeChars (.ofList _),
      String.toList_ofList]
    generalize keptProtocol rpId.toList = kept at hfits ⊢
    simp only [Option.bind_eq_bind, Option.bind_some, length_encodeChars,
      checkedSub_eq (le_min_iff.mp hfits).2]
    split_ifs with hroom
    · have hmore : (encodeChars kept ++ encodeChars ['…']).length = utf8Length kept + 3 := by
        rw [List.length_append, length_encodeChars]
        rfl
      have hceil : ceilBoundary (encodeChars rpId.toList) (utf8Length rpId.toList + 1)
          (utf8Length rpId.toList - (maxReturnedRpIdLength - (utf8Length kept + 3))) =
          some (utf8Length rpId.toList - utf8Length (keptEnd rpId.toList (utf8Length kept))) := by
        rw [ceilBoundary_encodeChars (by omega), keptEnd, utf8Length_reverse]
      have hend := (longestEnd_truncateChars rpId.toList
        (maxReturnedRpIdLength - (utf8Length kept + 3))).isEnd
      rw [hmore, checkedSub_eq (by omega), Option.bind_some, hlen, checkedSub_eq (by omega), Option.bind_some, hutf8,
        hceil, Option.bind_some, keptEnd, textFrom_encodeChars hend]
      simp [encodeChars]
    · rfl
  · rw [truncatedRpIdAt, truncatedRpId]
    dsimp only
    rw [if_pos (by omega), if_pos (by omega)]

/-- Cut between characters, the bytes of the protocol are those of the kept characters. -/
theorem protocolBytes_eq (h : isCharBoundary (utf8 rpId) (protocolBytes rpId).length = true) :
    protocolBytes rpId = encodeChars (keptProtocol rpId.toList) := by
  obtain ⟨hstart, hfits, hlongest⟩ := longestStart_keptProtocol rpId
  rcases protocolPart_cases rpId with ⟨hfind, hnil⟩ | ⟨colon, hfind, hpart, hlen⟩
  · rw [protocolBytes, hfind, keptProtocol, hnil]
    rfl
  · have hpartLen := utf8Length_mono hpart
    have hbytes : protocolBytes rpId =
        (encodeChars rpId.toList).take (min (colon + 1) maxReturnedRpIdLength) := by
      rw [protocolBytes, hfind, utf8_eq_encodeChars]
    rw [hlen] at hfits hlongest hpartLen
    rw [hbytes, List.length_take, length_encodeChars, utf8_eq_encodeChars,
      Nat.min_eq_left ((Nat.min_le_left _ _).trans hpartLen)] at h
    obtain ⟨start, stop, hchars, hlimit⟩ := isCharBoundary_iff.mp h
    have hle := utf8Length_mono (hlongest start ⟨stop, hchars.symm⟩ hlimit.le)
    have heq : min (colon + 1) maxReturnedRpIdLength = utf8Length (keptProtocol rpId.toList) := by
      omega
    rw [hbytes, heq, take_encodeChars hstart]

theorem drop_endStart {n : ℕ} (h : isCharBoundary (utf8 rpId) (endStart rpId n) = true) :
    (utf8 rpId).drop (endStart rpId n) = encodeChars (keptEnd rpId.toList n) := by
  obtain ⟨hend, hfits, hlongest⟩ :=
    longestEnd_truncateChars rpId.toList (maxReturnedRpIdLength - (n + 3))
  rw [endStart, utf8_eq_encodeChars, length_encodeChars] at h ⊢
  obtain ⟨start, stop, hchars, hlimit⟩ := isCharBoundary_iff.mp h
  have hlen := congrArg utf8Length hchars
  rw [utf8Length_append] at hlen
  obtain ⟨more, hmore⟩ := hlongest stop ⟨start, hchars.symm⟩ (by omega)
  have hmoreLen := congrArg utf8Length hmore
  rw [utf8Length_append] at hmoreLen
  rw [keptEnd, ← drop_encodeChars hend]
  congr 1
  omega

theorem length_truncatedRpId (rpId : String) :
    (utf8 (truncatedRpId rpId)).length ≤ maxReturnedRpIdLength := by
  rw [utf8_eq_encodeChars, length_encodeChars]
  by_cases hlong : maxReturnedRpIdLength < utf8Length rpId.toList
  · have hfits := (longestStart_truncateChars (protocolPart rpId.toList) maxReturnedRpIdLength).fits
    rw [truncatedRpId_eq hlong, String.toList_ofList]
    split_ifs with hroom
    · have hend := (longestEnd_truncateChars rpId.toList
        (maxReturnedRpIdLength - (utf8Length (keptProtocol rpId.toList) + 3))).fits
      have hellipsis : '…'.utf8Size = 3 := rfl
      rw [← keptEnd] at hend
      rw [utf8Length_append, utf8Length_cons, hellipsis]
      omega
    · exact hfits
  · rw [truncatedRpId]
    dsimp only
    rw [if_pos (by omega)]
    omega

/-- The characters that are kept are the bytes that CTAP keeps, unless it splits a character. -/
theorem maybeTruncateRpId_eq (h : CutsBetweenCharacters rpId) :
    utf8 (truncatedRpId rpId) = maybeTruncateRpId rpId := by
  have hlen : (utf8 rpId).length = utf8Length rpId.toList := by
    rw [utf8_eq_encodeChars, length_encodeChars]
  obtain ⟨hprotocol, hend⟩ := h
  rw [maybeTruncateRpId]
  by_cases hlong : maxReturnedRpIdLength < utf8Length rpId.toList
  · rw [if_neg (by omega), truncatedRpId_eq hlong, utf8_eq_encodeChars (.ofList _),
      String.toList_ofList]
    dsimp only
    rw [protocolBytes_eq hprotocol, length_encodeChars] at hend ⊢
    split_ifs with hroom
    · rw [drop_endStart (hend hroom)]
      simp [encodeChars]
    · rfl
  · rw [if_pos (by omega), truncatedRpId]
    dsimp only
    rw [if_pos (by omega)]

/-- An RP ID is cut to whole characters of its protocol, an ellipsis if there is room for it,
and whole characters of its end: the bytes CTAP keeps unless it would split a character. -/
theorem truncatedRpId_correct (rpId : String) :
    truncatedRpIdAt rpId = some (utf8 (truncatedRpId rpId)) ∧
    (utf8 (truncatedRpId rpId)).length ≤ maxReturnedRpIdLength ∧
    ((utf8 rpId).length ≤ maxReturnedRpIdLength → truncatedRpId rpId = rpId) ∧
    (CutsBetweenCharacters rpId → utf8 (truncatedRpId rpId) = maybeTruncateRpId rpId) ∧
    (maxReturnedRpIdLength < (utf8 rpId).length → ∃ start,
      LongestStart maxReturnedRpIdLength (protocolPart rpId.toList) start ∧
      if 3 ≤ maxReturnedRpIdLength - utf8Length start then
        ∃ stop, LongestEnd (maxReturnedRpIdLength - utf8Length start - 3) rpId.toList stop ∧
          truncatedRpId rpId = String.ofList (start ++ '…' :: stop)
      else truncatedRpId rpId = String.ofList start) := by
  have hlen : (utf8 rpId).length = utf8Length rpId.toList := by
    rw [utf8_eq_encodeChars, length_encodeChars]
  refine ⟨truncatedRpIdAt_eq rpId, length_truncatedRpId rpId, fun h => ?_, maybeTruncateRpId_eq,
    fun h => ?_⟩
  · rw [truncatedRpId]
    exact if_pos (by omega)
  · rw [hlen] at h
    refine ⟨keptProtocol rpId.toList, longestStart_truncateChars _ _, ?_⟩
    rw [truncatedRpId_eq h]
    split_ifs with hroom
    · refine ⟨_, ?_, rfl⟩
      rw [Nat.sub_sub]
      exact longestEnd_truncateChars _ _
    · rfl

def validateNewPin (pin : String) (minimum : ℕ) : Except String Unit :=
  if pin.length < minimum then .error s!"PIN must be at least {minimum} characters long"
  else if maxPinBytes < (utf8 pin).length then
    .error s!"PIN must be at most {maxPinBytes} bytes long in UTF-8"
  else if pin.toList.getLast? = some '\x00' then .error "PIN must not end with a NUL character"
  else .ok ()

def paddedPin (pin : Bytes) : Option Bytes :=
  if 63 < pin.length then none else some (pin ++ List.replicate (64 - pin.length) 0)

theorem getLast?_encodeChars (chars : List Char) :
    (encodeChars chars).getLast? = some 0 ↔ chars.getLast? = some '\x00' := by
  rcases List.eq_nil_or_concat chars with rfl | ⟨front, c, rfl⟩
  · simp [encodeChars]
  · obtain ⟨first, rest, hc, -, hrest, hnul⟩ := utf8EncodeChar_cons c
    have hlast : encodeChars (front ++ [c]) = encodeChars front ++ first :: rest := by
      simp [encodeChars, hc]
    rw [List.concat_eq_append, hlast, List.getLast?_append_cons, List.getLast?_concat]
    rcases List.eq_nil_or_concat rest with rfl | ⟨tail, b, rfl⟩
    · simpa using hnul rfl
    · have hb : b ≠ 0 := by
        rintro rfl
        exact absurd (hrest 0 (by simp)) (by decide)
      have hc₀ : c ≠ '\x00' := by
        rintro rfl
        simp [String.utf8EncodeChar] at hc
      rw [List.concat_eq_append, ← List.cons_append, List.getLast?_concat, Option.some.injEq,
        Option.some.injEq]
      exact iff_of_false hb hc₀

/-- The padding is taken off a PIN unless it ends with a zero byte itself. -/
theorem dropTrailingZeros_padded (pin : Bytes) (n : ℕ) :
    dropTrailingZeros (pin ++ List.replicate n 0) = pin ↔ pin.getLast? ≠ some 0 := by
  rw [dropTrailingZeros, List.reverse_append, List.reverse_replicate,
    List.dropWhile_append_of_pos fun b hb => by simpa using (List.eq_of_mem_replicate hb)]
  rcases List.eq_nil_or_concat pin with rfl | ⟨front, b, rfl⟩
  · simp
  · rw [List.concat_eq_append, List.reverse_append, List.reverse_singleton, List.singleton_append,
      List.getLast?_concat]
    by_cases hb : b = 0
    · refine iff_of_false (fun h => ?_) (by simp [hb])
      have hlen := congrArg List.length h
      rw [List.dropWhile_cons_of_pos (by simpa using hb)] at hlen
      have := (List.dropWhile_suffix (l := front.reverse) fun b : UInt8 => decide (b = 0)).length_le
      simp only [List.length_reverse, List.length_append, List.length_singleton] at hlen this
      omega
    · rw [List.dropWhile_cons_of_neg (by simpa using hb)]
      simpa using hb

/-- The engine reads a padded PIN back if it is long enough and does not end with NUL. -/
theorem decodeNewPin_padded {pin : String} {minimum n : ℕ}
    (hlen : (utf8 pin ++ List.replicate n 0).length = paddedPinLength)
    (hshort : (utf8 pin).length ≤ maxPinBytes) :
    decodeNewPin (utf8 pin ++ List.replicate n 0) minimum false = .ok (utf8 pin, pin.length) ↔
      minimum ≤ pin.length ∧ pin.toList.getLast? ≠ some '\x00' := by
  rw [ne_eq, ← getLast?_encodeChars, ← utf8_eq_encodeChars, ← ne_eq,
    ← dropTrailingZeros_padded (utf8 pin) n, decodeNewPin, if_neg (by simpa using hlen)]
  dsimp only
  constructor
  · intro h
    split at h
    · cases h
    split at h
    · cases h
    split at h
    · cases h
    rename_i hpolicy
    obtain ⟨hpin, hlength⟩ := Prod.mk.inj (Except.ok.inj h)
    exact ⟨hlength ▸ not_lt.mp fun hlt => hpolicy (.inl hlt), hpin⟩
  · rintro ⟨hlong, hpin⟩
    rw [hpin, if_neg (by omega), fromUtf8_utf8]
    exact if_neg (by simpa using hlong)

theorem validateNewPin_eq_ok {pin : String} {minimum : ℕ} : validateNewPin pin minimum = .ok () ↔
    (utf8 pin).length ≤ maxPinBytes ∧ minimum ≤ pin.length ∧
      pin.toList.getLast? ≠ some '\x00' := by
  unfold validateNewPin
  split_ifs with hlong hshort hnul
  · simp [hlong]
  · simp [hshort]
  · simp [hnul]
  · simp only [true_iff]
    exact ⟨by omega, by omega, hnul⟩

/-- The client accepts a PIN just if it can be padded and the engine reads that PIN from the
block, whatever the minimum. No two PINs that it accepts are read as the same bytes. -/
theorem validateNewPin_agrees (minimum : ℕ) :
    (∀ pin : String, validateNewPin pin minimum = .ok () ↔ ∃ padded ∈ paddedPin (utf8 pin),
      decodeNewPin padded minimum false = .ok (utf8 pin, pin.length)) ∧
    ∀ pin pin' : String, validateNewPin pin minimum = .ok () → validateNewPin pin' minimum = .ok () →
      ∀ padded ∈ paddedPin (utf8 pin), ∀ padded' ∈ paddedPin (utf8 pin'),
      (decodeNewPin padded minimum false).map Prod.fst =
        (decodeNewPin padded' minimum false).map Prod.fst → pin = pin' := by
  have hagrees (pin : String) : validateNewPin pin minimum = .ok () ↔
      ∃ padded ∈ paddedPin (utf8 pin),
        decodeNewPin padded minimum false = .ok (utf8 pin, pin.length) := by
    rw [validateNewPin_eq_ok, paddedPin]
    split_ifs with hlong
    · exact iff_of_false (fun h => absurd h.1 (not_le.mpr hlong)) (by simp)
    · have hpadded : (utf8 pin ++ List.replicate (64 - (utf8 pin).length) 0).length =
          paddedPinLength := by
        rw [List.length_append, List.length_replicate, paddedPinLength]
        omega
      have hshort : (utf8 pin).length ≤ maxPinBytes := not_lt.mp hlong
      simp only [Option.mem_def, Option.some.injEq, exists_eq_left', decodeNewPin_padded hpadded hshort,
        hshort, true_and]
  refine ⟨hagrees, fun pin pin' h h' padded hpadded padded' hpadded' heq => ?_⟩
  obtain ⟨block, hblock, hdecode⟩ := (hagrees pin).mp h
  obtain ⟨block', hblock', hdecode'⟩ := (hagrees pin').mp h'
  obtain rfl := Option.mem_unique hpadded hblock
  obtain rfl := Option.mem_unique hpadded' hblock'
  rw [hdecode, hdecode'] at heq
  have hbytes : utf8 pin = utf8 pin' := Except.ok.inj heq
  have htext := fromUtf8_utf8 pin
  rw [hbytes, fromUtf8_utf8] at htext
  exact (Option.some.inj htext).symm

end SoftwareAuthenticator.Ctap
