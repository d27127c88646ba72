import SoftwareAuthenticator.Ctap.Encoding

/-!
# Responses are canonical and fit the reserved buffer

The builders of responses sort the entries of each map by `canonical_key_order`, so that the
encoding passes the engine's own check. The buffer reserved by `encoded_len_bound` never grows.
-/

namespace SoftwareAuthenticator.Ctap

open Cbor (Item KeyLt head initialByte)

variable {a b c : Bytes}

theorem canonicalKeyOrder_swap (a b : Bytes) :
    canonicalKeyOrder b a = (canonicalKeyOrder a b).swap := by
  rw [canonicalKeyOrder, canonicalKeyOrder, Ordering.swap_then, Ordering.swap_then,
    ← lexOrder_swap, Nat.compare_swap, Nat.compare_swap]

theorem keyLt_trichotomy (a b : Bytes) : KeyLt a b ∨ a = b ∨ KeyLt b a := by
  rcases Nat.lt_trichotomy (Cbor.majorType a) (Cbor.majorType b) with h | hmajor | h
  · exact .inl (.inl h)
  · rcases Nat.lt_trichotomy a.length b.length with h | hlength | h
    · exact .inl (.inr ⟨hmajor, .inl h⟩)
    · rcases Std.lt_trichotomy a b with h | h | h
      · exact .inl (.inr ⟨hmajor, .inr ⟨hlength, h⟩⟩)
      · exact .inr (.inl h)
      · exact .inr (.inr (.inr ⟨hmajor.symm, .inr ⟨hlength.symm, h⟩⟩))
    · exact .inr (.inr (.inr ⟨hmajor.symm, .inl h⟩))
  · exact .inr (.inr (.inl h))

theorem canonicalKeyOrder_ne_gt : canonicalKeyOrder a b ≠ .gt ↔ KeyLt a b ∨ a = b := by
  have hgt : canonicalKeyOrder a b = .gt ↔ KeyLt b a := by
    rw [← canonicalKeyOrder_eq_lt, canonicalKeyOrder_swap a b, Ordering.swap_eq_lt]
  rw [ne_eq, hgt]
  constructor
  · intro h
    rcases keyLt_trichotomy a b with hlt | heq | hlt
    · exact .inl hlt
    · exact .inr heq
    · exact absurd hlt h
  · rintro (hlt | rfl) hgt
    · exact KeyLt.irrefl a (hlt.trans hgt)
    · exact KeyLt.irrefl a hgt

section Builders

variable {narrow : UInt64 → Bytes}

theorem Survives.inj {widen : Bytes → UInt64} {levels levels' : ℕ} {v v' : Value}
    (h : Survives widen narrow levels v) (h' : Survives widen narrow levels' v')
    (heq : shortest narrow v = shortest narrow v') : v = v' := by
  have hread := h.read
  rw [heq, h'.read] at hread
  exact (Option.some.inj hread).symm

theorem encodable_negative {widen : Bytes → UInt64} {levels n : ℕ} (hn : n < 2 ^ 64) :
    Encodable widen narrow levels (.integer (-1 - n)) := by
  have hcode : shortest narrow (.integer (-1 - n)) = head 1 n := by
    rw [shortest, if_neg (by omega)]
    congr 1
    omega
  intro _
  refine .of_scalar (fun levels => ?_) ?_ ?_ <;> rw [hcode]
  · exact .negative hn
  · simpa using isUnassignedSimple_head (n := n) [] (show 1 < 7 by decide)
  · have hread : readWhole widen (head 1 n ++ []) = some (.integer (-1 - n)) :=
      readWhole_head (by decide) hn fun read => rfl
    simpa using hread

variable [Externals]

/-- Items without tags, in maps that were sorted and whose keys differ, nested at most
`levels` deep. -/
inductive Made : ℕ → Value → Prop
  | integer {levels : ℕ} {i : ℤ} (hle : -2 ^ 64 ≤ i) (hlt : i < 2 ^ 64) : Made levels (.integer i)
  | bytes {levels : ℕ} {b : Bytes} : Made levels (.bytes b)
  | float {levels : ℕ} {bits : UInt64} : Made levels (.float bits)
  | text {levels : ℕ} {s : String} : Made levels (.text s)
  | bool {levels : ℕ} {b : Bool} : Made levels (.bool b)
  | null {levels : ℕ} : Made levels .null
  | array {levels : ℕ} {xs : List Value} (hxs : ∀ x ∈ xs, Made levels x) :
      Made (levels + 1) (.array xs)
  | map {levels : ℕ} {entries : Entries} (hdistinct : (entries.map Prod.fst).Nodup)
      (hkeys : ∀ e ∈ entries, Made levels e.1) (hvalues : ∀ e ∈ entries, Made levels e.2) :
      Made (levels + 1) (canonicalMap entries)

/-- The encoder writes the shortest forms; `narrow` is how it writes floats, each in one of
the three sizes and no two the same. -/
structure WritesShortest (narrow : UInt64 → Bytes) : Prop where
  writes : ∀ value, intoWriter value = some (shortest narrow value)
  float : ∀ bits, ∃ k raw, (1 ≤ k ∧ k ≤ 3) ∧ raw.length = 2 ^ k ∧
    narrow bits = initialByte 7 (24 + k) :: raw
  injective : Function.Injective narrow

noncomputable def widenOf (narrow : UInt64 → Bytes) : Bytes → UInt64 := Function.invFun narrow

theorem encodable_float (h : WritesShortest narrow) {levels : ℕ} (bits : UInt64) :
    Encodable (widenOf narrow) narrow levels (.float bits) := by
  obtain ⟨k, raw, hk, hraw, hcode⟩ := h.float bits
  have hback : widenOf narrow (narrow bits) = bits := Function.leftInverse_invFun h.injective bits
  have hinfo : (initialByte 7 (24 + k)).toNat % 32 = 24 + k := by
    have := Cbor.toNat_initialByte (show 7 < 8 by decide) (show 24 + k < 32 by omega)
    omega
  intro _
  refine .of_scalar (fun levels => ?_) ?_ ?_ <;> rw [shortest, hcode]
  · exact .float hk hraw
  · simp only [isUnassignedSimple, List.headD_cons, hinfo, decide_eq_false_iff_not]
    omega
  · have hstands : StandsAt (initialByte 7 (24 + k) :: raw) 0 (initialByte 7 (24 + k) :: raw) :=
      ⟨[], by simp⟩
    have hheader := header_float hk hraw hstands
    rw [readWhole, readItem_header _ maxNesting hheader, Nat.zero_add, ← List.length_cons,
      List.take_length, List.drop_length]
    simp only [readContent, readSimple, List.headD_cons, hinfo]
    rw [if_neg (by omega), if_neg (by omega), if_neg (by omega), if_pos (by omega), ← hcode, hback]
    rfl

theorem encodeKey_eq (h : WritesShortest narrow) (key : Value) :
    encodeKey key = shortest narrow key := by
  rw [encodeKey, h.writes]
  rfl

/-- Sorting orders the keys strictly, if their encodings differ. -/
theorem keysAscend_canonicalSort (h : WritesShortest narrow) {entries : Entries}
    (hdistinct : (entries.map fun e => shortest narrow e.1).Nodup) :
    KeysAscend narrow (canonicalSort entries) := by
  let before (x y : Value × Value) : Prop := canonicalKeyOrder (encodeKey x.1) (encodeKey y.1) ≠ .gt
  have hbefore {x y : Value × Value} : before x y ↔
      KeyLt (shortest narrow x.1) (shortest narrow y.1) ∨ shortest narrow x.1 = shortest narrow y.1 := by
    rw [← encodeKey_eq h, ← encodeKey_eq h]
    exact canonicalKeyOrder_ne_gt
  have htotal : Std.Total before := ⟨fun x y => by
    rw [hbefore, hbefore]
    rcases keyLt_trichotomy (shortest narrow x.1) (shortest narrow y.1) with hlt | heq | hlt
    · exact .inl (.inl hlt)
    · exact .inl (.inr heq)
    · exact .inr (.inl hlt)⟩
  have htrans : IsTrans (Value × Value) before := ⟨fun x y z hxy hyz => by
    rw [hbefore] at hxy hyz ⊢
    rcases hxy with hxy | hxy
    · rcases hyz with hyz | hyz
      · exact .inl (hxy.trans hyz)
      · exact .inl (hyz ▸ hxy)
    · rwa [hxy]⟩
  have hsorted : (canonicalSort entries).Pairwise before := List.pairwise_insertionSort _ entries
  have hperm : (canonicalSort entries).Perm entries := List.perm_insertionSort _ entries
  have hnodup : ((canonicalSort entries).map fun e => shortest narrow e.1).Nodup :=
    (hperm.map _).nodup_iff.mpr hdistinct
  rw [List.Nodup, List.pairwise_map] at hnodup
  rw [KeysAscend, List.pairwise_map]
  exact (hsorted.and hnodup).imp fun h => (hbefore.mp h.1).resolve_right h.2

theorem mem_canonicalSort {entries : Entries} {e : Value × Value} :
    e ∈ canonicalSort entries ↔ e ∈ entries :=
  List.mem_insertionSort _

/-- What was built is written in the canonical form. -/
theorem Made.encodable (h : WritesShortest narrow) {levels : ℕ} {value : Value}
    (hmade : Made levels value) (hlevels : levels ≤ maxNesting) :
    Encodable (widenOf narrow) narrow levels value := by
  induction hmade with
  | @integer _ i hle hlt =>
    by_cases hi : 0 ≤ i
    · exact encodable_integer hi hlt
    · obtain ⟨n, hn⟩ : ∃ n : ℕ, i = -1 - n := ⟨(-1 - i).toNat, by omega⟩
      rw [hn]
      exact encodable_negative (by omega)
  | bytes => exact encodable_bytes _
  | float => exact encodable_float h _
  | text => exact encodable_text _
  | bool => exact encodable_bool _
  | null =>
    intro _
    refine .of_scalar (fun levels => ?_) ?_ ?_ <;> rw [shortest]
    · exact .simple (.inl (by decide))
    · rfl
    · rfl
  | array hxs ih => exact encodable_array hlevels fun x hx => ih x hx (Nat.le_of_succ_le hlevels)
  | @map levels entries hdistinct hkeys hvalues ihkeys ihvalues =>
    have hmembers : ∀ e ∈ canonicalSort entries, Encodable (widenOf narrow) narrow levels e.1 ∧
        Encodable (widenOf narrow) narrow levels e.2 := by
      intro e he
      have he := mem_canonicalSort.mp he
      exact ⟨ihkeys e he (Nat.le_of_succ_le hlevels), ihvalues e he (Nat.le_of_succ_le hlevels)⟩
    intro hlen
    -- The keys are read back, so different keys have different encodings.
    obtain ⟨hall, -⟩ := survives_members hmembers hlen
    have hkey {e : Value × Value} (he : e ∈ entries) := hall _ (mem_members (mem_canonicalSort.mpr he)).1
    have hcodes : (entries.map fun e => shortest narrow e.1).Nodup := by
      rw [List.Nodup, List.pairwise_map] at hdistinct ⊢
      exact hdistinct.imp_of_mem fun ha hb hne heq => hne ((hkey ha).inj (hkey hb) heq)
    exact encodable_map hlevels (keysAscend_canonicalSort h hcodes) hmembers hlen

/-- On the encodings of different keys the order is total and strict, and the encoding of a
value that was built passes the check of requests up to its end. -/
theorem responses_canonical (h : WritesShortest narrow) :
    (∀ levels k k', Made levels k → Made levels k' → levels ≤ maxNesting →
      (shortest narrow k).length < 2 ^ 64 → (shortest narrow k').length < 2 ^ 64 → k ≠ k' →
      (canonicalKeyOrder (shortest narrow k) (shortest narrow k') = .lt ∧
          canonicalKeyOrder (shortest narrow k') (shortest narrow k) = .gt ∨
        canonicalKeyOrder (shortest narrow k) (shortest narrow k') = .gt ∧
          canonicalKeyOrder (shortest narrow k') (shortest narrow k) = .lt)) ∧
    (∀ a b c : Bytes, canonicalKeyOrder a b = .lt → canonicalKeyOrder b c = .lt →
      canonicalKeyOrder a c = .lt) ∧
    (∀ a : Bytes, canonicalKeyOrder a a = .eq) ∧
    ∀ value, Made maxNesting value → (shortest narrow value).length < 2 ^ 64 →
      intoWriter value = some (shortest narrow value) ∧
      canonicalItemEnd (shortest narrow value) maxNesting 0 =
        some (shortest narrow value).length := by
  refine ⟨?_, ?_, ?_, ?_⟩
  · intro levels k k' hk hk' hlevels hlen hlen' hne
    have hcodes : shortest narrow k ≠ shortest narrow k' := fun heq =>
      hne ((hk.encodable h hlevels hlen).inj (hk'.encodable h hlevels hlen') heq)
    have hswap := canonicalKeyOrder_swap (shortest narrow k) (shortest narrow k')
    rcases keyLt_trichotomy (shortest narrow k) (shortest narrow k') with hlt | heq | hlt
    · rw [← canonicalKeyOrder_eq_lt] at hlt
      exact .inl ⟨hlt, by rw [hswap, hlt]; rfl⟩
    · exact absurd heq hcodes
    · rw [← canonicalKeyOrder_eq_lt] at hlt
      exact .inr ⟨Ordering.swap_eq_lt.mp (hswap.symm.trans hlt), hlt⟩
  · intro a b c hab hbc
    rw [canonicalKeyOrder_eq_lt] at hab hbc ⊢
    exact hab.trans hbc
  · intro a
    have hswap := canonicalKeyOrder_swap a a
    cases horder : canonicalKeyOrder a a <;> rw [horder] at hswap <;> first | rfl | cases hswap
  · intro value hmade hlen
    have hitem := (hmade.encodable h le_rfl hlen).item
    have hend := (scans_canonicalItemEnd (shortest narrow value) maxNesting).complete 0 _
      (Nat.zero_le _) hitem ⟨[], by simp⟩
    rw [Nat.zero_add] at hend
    exact ⟨h.writes value, hend⟩

/-- What was built is read back from its encoding as it was built, a map as parameters. -/
theorem encode_read_back (h : WritesShortest narrow) (hreader : ReadsCanonical (widenOf narrow))
    {value : Value} (hmade : Made maxNesting value) (hlen : (shortest narrow value).length < 2 ^ 64) :
    ∃ bytes, encode value = .ok bytes ∧ ReadsAs bytes value ∧
      ∀ entries, value = .map entries → requestParameters bytes = .ok entries := by
  have hsurvives := hmade.encodable h le_rfl hlen
  have hdecodable := decodable_of_rewrites le_rfl hsurvives.item hsurvives.copied
  have hread := (hreader _ _ hdecodable).trans hsurvives.read
  refine ⟨_, by rw [encode, h.writes], ⟨_, hdecodable, hread⟩, ?_⟩
  rintro entries rfl
  simp [requestParameters, hdecodable, hread, bind, Except.bind]

end Builders

def doubleBytes (bits : UInt64) : Bytes := initialByte 7 27 :: Cbor.bigEndian 8 bits.toNat

@[reducible] def shortestBench : Externals :=
  { readingBench with intoWriter := fun value => some (shortest doubleBytes value) }

theorem shortestBench_writes : @WritesShortest shortestBench doubleBytes := by
  let _ := shortestBench
  refine ⟨fun _ => rfl, fun bits => ⟨3, _, by decide, Cbor.length_bigEndian 8 _, rfl⟩, ?_⟩
  intro bits bits' heq
  have hback (bits : UInt64) : Cbor.ofBigEndian (Cbor.bigEndian 8 bits.toNat) = bits.toNat :=
    Cbor.ofBigEndian_bigEndian bits.toNat_lt
  have hraw := congrArg Cbor.ofBigEndian (List.cons.inj heq).2
  rw [hback, hback] at hraw
  exact UInt64.toNat_inj.mp hraw

def unsortedEntries : Entries := [(.integer 3, .bool true), (.integer 1, .null)]

theorem made_unsortedEntries [Externals] : Made maxNesting (canonicalMap unsortedEntries) := by
  refine .map (by simp [unsortedEntries]) ?_ ?_ <;>
    simp only [unsortedEntries, List.forall_mem_cons]
  · exact ⟨.integer (by decide) (by decide), .integer (by decide) (by decide), nofun⟩
  · exact ⟨.bool, .null, nofun⟩

theorem responses_canonical_unsorted :
    ∃ value, value = @canonicalMap shortestBench unsortedEntries ∧
      canonicalItemEnd (shortest doubleBytes value) maxNesting 0 =
        some (shortest doubleBytes value).length := by
  let _ := shortestBench
  exact ⟨_, rfl, ((responses_canonical shortestBench_writes).2.2.2 _ made_unsortedEntries
    (by decide)).2⟩

theorem encode_read_back_unsorted : ∃ (_ : Externals) (bytes : Bytes),
    encode (canonicalMap unsortedEntries) = .ok bytes ∧
      ReadsAs bytes (canonicalMap unsortedEntries) ∧
      requestParameters bytes = .ok [(.integer 1, .null), (.integer 3, .bool true)] := by
  let externals : Externals :=
    { shortestBench with fromReader := readWhole (widenOf doubleBytes) }
  obtain ⟨-, hfloat, hinjective⟩ := shortestBench_writes
  obtain ⟨bytes, hencode, hread, hparameters⟩ := encode_read_back ⟨fun _ => rfl, hfloat, hinjective⟩
    (fun _ _ _ => rfl) made_unsortedEntries (by decide)
  refine ⟨externals, bytes, hencode, hread, hparameters _ ?_⟩
  have horder : canonicalKeyOrder (encodeKey (.integer 3)) (encodeKey (.integer 1)) = .gt := by decide
  simp [canonicalMap, canonicalSort, unsortedEntries, horder]

mutual

def encodedLenBound : Value → ℕ
  | .bytes b => 9 + b.length
  | .text s => 9 + (utf8 s).length
  | .array items => 9 + encodedLenBounds items
  | .map entries => 9 + entriesLenBound entries
  | .tag _ inner => 9 + encodedLenBound inner
  | _ => 9

def encodedLenBounds : List Value → ℕ
  | [] => 0
  | item :: items => encodedLenBound item + encodedLenBounds items

def entriesLenBound : Entries → ℕ
  | [] => 0
  | (key, value) :: entries =>
    encodedLenBound key + encodedLenBound value + entriesLenBound entries

end

/-- A `Vec<u8>` that is appended to: it is moved to a larger allocation when it is full. -/
structure Buffer where
  written : Bytes
  capacity : ℕ
  moved : Bool
  deriving DecidableEq, Repr

def Buffer.withCapacity (capacity : ℕ) : Buffer := ⟨[], capacity, false⟩

def Buffer.extend (buffer : Buffer) (piece : Bytes) : Buffer :=
  let length := buffer.written.length + piece.length
  if length ≤ buffer.capacity then { buffer with written := buffer.written ++ piece }
  else ⟨buffer.written ++ piece, max (2 * buffer.capacity) length, true⟩

section Length

variable {narrow : UInt64 → Bytes}

theorem length_head_le (major n : ℕ) : (head major n).length ≤ 9 := by
  unfold head
  split_ifs <;> simp

mutual

/-- By induction on the nesting: no head has more than the nine bytes that are counted. -/
theorem length_shortest_le (h : ∀ bits, (narrow bits).length ≤ 9) (value : Value) :
    (shortest narrow value).length ≤ encodedLenBound value := by
  cases value with
  | integer i =>
    rw [shortest, encodedLenBound]
    · split_ifs <;> exact length_head_le _ _
    all_goals nofun
  | bytes b =>
    rw [shortest, encodedLenBound, List.length_append]
    exact Nat.add_le_add_right (length_head_le _ _) _
  | float bits =>
    rw [shortest, encodedLenBound]
    · exact h bits
    all_goals nofun
  | text s =>
    rw [shortest, encodedLenBound, List.length_append]
    exact Nat.add_le_add_right (length_head_le _ _) _
  | bool | null => exact length_head_le _ _
  | tag t inner =>
    rw [shortest, encodedLenBound, List.length_append]
    exact Nat.add_le_add (length_head_le _ _) (length_shortest_le h inner)
  | array items =>
    rw [shortest, encodedLenBound, List.length_append]
    exact Nat.add_le_add (length_head_le _ _) (length_shortestAll_le h items)
  | map entries =>
    rw [shortest, encodedLenBound, List.length_append]
    exact Nat.add_le_add (length_head_le _ _) (length_shortestEntries_le h entries)

theorem length_shortestAll_le (h : ∀ bits, (narrow bits).length ≤ 9) (items : List Value) :
    (shortestAll narrow items).length ≤ encodedLenBounds items := by
  cases items with
  | nil => exact le_rfl
  | cons item items =>
    rw [shortestAll, encodedLenBounds, List.length_append]
    exact Nat.add_le_add (length_shortest_le h item) (length_shortestAll_le h items)

theorem length_shortestEntries_le (h : ∀ bits, (narrow bits).length ≤ 9) (entries : Entries) :
    (shortestEntries narrow entries).length ≤ entriesLenBound entries := by
  cases entries with
  | nil => exact le_rfl
  | cons entry entries =>
    rw [shortestEntries, entriesLenBound, List.length_append, List.length_append]
    exact Nat.add_le_add (Nat.add_le_add (length_shortest_le h entry.1) (length_shortest_le h entry.2))
      (length_shortestEntries_le h entries)

end

theorem foldl_extend {pieces : List Bytes} {buffer : Buffer}
    (hfits : buffer.written.length + pieces.flatten.length ≤ buffer.capacity) :
    pieces.foldl Buffer.extend buffer = { buffer with written := buffer.written ++ pieces.flatten } := by
  induction pieces generalizing buffer with
  | nil => simp
  | cons piece pieces ih =>
    rw [List.flatten_cons, List.length_append] at hfits
    have hpiece : buffer.extend piece = { buffer with written := buffer.written ++ piece } :=
      if_pos (by omega)
    rw [List.foldl_cons, hpiece, ih (by simp only [List.length_append]; omega)]
    simp

/-- However the encoder cuts what it writes, the buffer reserved for the value is not moved. -/
theorem encodedLenBound_sufficient (h : ∀ bits, (narrow bits).length ≤ 9) (value : Value) :
    (shortest narrow value).length ≤ encodedLenBound value ∧
    ∀ pieces : List Bytes, pieces.flatten = shortest narrow value →
      pieces.foldl Buffer.extend (.withCapacity (encodedLenBound value)) =
        ⟨shortest narrow value, encodedLenBound value, false⟩ := by
  have hlen := length_shortest_le h value
  refine ⟨hlen, fun pieces hpieces => ?_⟩
  rw [foldl_extend (by rw [hpieces]; simpa [Buffer.withCapacity] using hlen), hpieces]
  rfl

end Length

theorem encodedLenBound_sufficient_nested :
    [[0xC1], [0xA1, 0x01], [0x42, 7, 9]].foldl Buffer.extend
        (.withCapacity (encodedLenBound (.tag 1 (.map [(.integer 1, .bytes [7, 9])])))) =
      ⟨[0xC1, 0xA1, 0x01, 0x42, 7, 9], 38, false⟩ :=
  (encodedLenBound_sufficient (fun bits => show (doubleBytes bits).length ≤ 9 by
    simp [doubleBytes]) _).2 _ rfl

end SoftwareAuthenticator.Ctap
