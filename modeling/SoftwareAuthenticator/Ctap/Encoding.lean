import SoftwareAuthenticator.Ctap.AuthenticatedBytes

/-!
# The shortest encoding of a value

What an encoder writes that uses the narrowest heads and definite lengths. A value whose maps
have their keys in order is accepted in that form and is read back.
-/

namespace SoftwareAuthenticator.Ctap

open Cbor (Item head KeyLt)

theorem byteArray_loop (bytes : ByteArray) (i : ℕ) (acc : List UInt8) :
    ByteArray.toList.loop bytes i acc = acc.reverse ++ bytes.data.toList.drop i := by
  fun_induction ByteArray.toList.loop bytes i acc with
  | case1 i acc h ih =>
    have hget : bytes.data.toList.drop i = bytes.get! i :: bytes.data.toList.drop (i + 1) := by
      rw [List.drop_eq_getElem_cons (by simpa using h)]
      simp [ByteArray.get!, getElem!_pos, h]
    rw [ih, hget]
    simp
  | case2 i acc h =>
    rw [List.drop_eq_nil_of_le (by simpa using Nat.le_of_not_lt h), List.append_nil]

theorem utf8_eq (s : String) : utf8 s = s.toByteArray.data.toList :=
  byteArray_loop s.toByteArray 0 []

theorem fromUtf8_utf8 (s : String) : fromUtf8 (utf8 s) = some s := by
  rw [utf8_eq, fromUtf8, Array.toArray_toList, String.fromUTF8?, dif_pos s.isValidUTF8]
  rfl

section Encoding

variable (widen : Bytes → UInt64) (narrow : UInt64 → Bytes)

mutual

/-- The encoding of a value with the narrowest heads and definite lengths; `narrow` writes
floats. -/
def shortest : Value → Bytes
  | .integer i => if 0 ≤ i then head 0 i.toNat else head 1 (-1 - i).toNat
  | .bytes b => head 2 b.length ++ b
  | .float bits => narrow bits
  | .text s => head 3 (utf8 s).length ++ utf8 s
  | .bool b => head 7 (if b then 21 else 20)
  | .null => head 7 22
  | .tag t value => head 6 t.toNat ++ shortest value
  | .array xs => head 4 xs.length ++ shortestAll xs
  | .map entries => head 5 entries.length ++ shortestEntries entries

def shortestAll : List Value → Bytes
  | [] => []
  | x :: xs => shortest x ++ shortestAll xs

def shortestEntries : Entries → Bytes
  | [] => []
  | (key, value) :: entries => shortest key ++ shortest value ++ shortestEntries entries

end

attribute [local simp] shortest

theorem shortestAll_eq (xs : List Value) :
    shortestAll narrow xs = (xs.map (shortest narrow)).flatten := by
  induction xs with
  | nil => rfl
  | cons x xs ih => rw [shortestAll, ih, List.map_cons, List.flatten_cons]

def members (entries : Entries) : List Value := entries.flatMap fun e => [e.1, e.2]

theorem shortestEntries_eq (entries : Entries) :
    shortestEntries narrow entries = ((members entries).map (shortest narrow)).flatten := by
  induction entries with
  | nil => rfl
  | cons e entries ih =>
    rw [shortestEntries, ih]
    simp [members]

theorem pairUp_members (entries : Entries) : pairUp (members entries) = entries := by
  induction entries with
  | nil => rfl
  | cons e entries ih => exact congrArg (e :: ·) ih

variable {widen narrow} {levels : ℕ} {value : Value}

/-- The shortest encoding is canonical, is copied unchanged, and is read as the value. -/
structure Survives (widen : Bytes → UInt64) (narrow : UInt64 → Bytes) (levels : ℕ)
    (value : Value) : Prop where
  item : Item levels (shortest narrow value)
  copied : Rewrites levels (shortest narrow value) (shortest narrow value)
  read : readWhole widen (shortest narrow value) = some value

def Encodable (widen : Bytes → UInt64) (narrow : UInt64 → Bytes) (levels : ℕ)
    (value : Value) : Prop :=
  (shortest narrow value).length < 2 ^ 64 → Survives widen narrow levels value

theorem Survives.of_scalar (hitem : ∀ levels, Item levels (shortest narrow value))
    (hkept : isUnassignedSimple (shortest narrow value) = false)
    (hread : readWhole widen (shortest narrow value) = some value) :
    Survives widen narrow levels value := by
  have hcopied : Rewrites levels _ _ := .scalar (hitem 0)
  rw [rewrittenScalar, hkept] at hcopied
  exact ⟨hitem levels, hcopied, hread⟩

theorem isUnassignedSimple_head {major n : ℕ} (rest : Bytes) (hmajor : major < 7) :
    isUnassignedSimple (head major n ++ rest) = false := by
  have hhead : ((head major n ++ rest).headD 0).toNat / 32 = major :=
    majorType_head n rest (by omega)
  rw [isUnassignedSimple, decide_eq_false_iff_not, hhead]
  omega

theorem encodable_natural {n : ℕ} (hn : n < 2 ^ 64) : Encodable widen narrow levels (.integer n) := by
  have hcode : shortest narrow (.integer n) = head 0 n := by simp
  intro _
  refine .of_scalar (fun levels => ?_) ?_ ?_ <;> rw [hcode]
  · exact .unsigned hn
  · simpa using isUnassignedSimple_head (n := n) [] (show 0 < 7 by decide)
  · exact readWhole_unsigned widen hn

theorem encodable_integer {i : ℤ} (hi : 0 ≤ i) (hlt : i < 2 ^ 64) :
    Encodable widen narrow levels (.integer i) := by
  obtain ⟨n, rfl⟩ := Int.eq_ofNat_of_zero_le hi
  exact encodable_natural (by exact_mod_cast hlt)

theorem readWhole_head {major n : ℕ} {content : Bytes} (hmajor : major < 7) (hn : n < 2 ^ 64)
    (hread : ∀ read, readContent widen read (head major n) major n content = some (value, [])) :
    readWhole widen (head major n ++ content) = some value := by
  rw [readWhole, readItem_head widen maxNesting (admissible_of_ne hmajor hn), hread]

theorem encodable_bytes (b : Bytes) : Encodable widen narrow levels (.bytes b) := by
  intro hlen
  rw [shortest, List.length_append] at hlen
  have hb : b.length < 2 ^ 64 := by omega
  refine .of_scalar (fun levels => ?_) ?_ ?_ <;> rw [shortest]
  · exact .byteString hb
  · exact isUnassignedSimple_head b (by decide)
  · exact readWhole_head (by decide) hb fun read => by simp [readContent]

theorem encodable_text (s : String) : Encodable widen narrow levels (.text s) := by
  intro hlen
  rw [shortest, List.length_append] at hlen
  have hs : (utf8 s).length < 2 ^ 64 := by omega
  refine .of_scalar (fun levels => ?_) ?_ ?_ <;> rw [shortest]
  · exact .textString hs
  · exact isUnassignedSimple_head _ (by decide)
  · exact readWhole_head (by decide) hs fun read => by simp [readContent, fromUtf8_utf8]

theorem encodable_bool (b : Bool) : Encodable widen narrow levels (.bool b) := by
  intro _
  refine .of_scalar (fun levels => ?_) ?_ ?_ <;> rw [shortest]
  · exact .simple (.inl (by split <;> decide))
  · cases b <;> rfl
  · cases b <;> rfl

theorem length_le_flatten {items : List Bytes} (h : ∀ w ∈ items, w ≠ []) :
    items.length ≤ items.flatten.length := by
  induction items with
  | nil => exact Nat.le_refl 0
  | cons w items ih =>
    have hw := List.length_pos_iff.mpr (h w List.mem_cons_self)
    have hrest := ih fun w hmem => h w (List.mem_cons_of_mem _ hmem)
    rw [List.length_cons, List.flatten_cons, List.length_append]
    omega

theorem survives_items {values : List Value}
    (hvalues : ∀ v ∈ values, Encodable widen narrow levels v)
    (hlen : (values.map (shortest narrow)).flatten.length < 2 ^ 64) :
    (∀ v ∈ values, Survives widen narrow levels v) ∧ values.length < 2 ^ 64 := by
  have hall : ∀ v ∈ values, Survives widen narrow levels v := by
    intro v hv
    have hmem : shortest narrow v ∈ values.map (shortest narrow) := List.mem_map_of_mem hv
    have hle := (List.sublist_flatten_of_mem hmem).length_le
    exact hvalues v hv (hle.trans_lt hlen)
  refine ⟨hall, lt_of_le_of_lt ?_ hlen⟩
  have hne : ∀ w ∈ values.map (shortest narrow), w ≠ [] :=
    List.forall_mem_map.mpr fun v hv => (hall v hv).item.ne_nil
  exact (List.length_map (shortest narrow)).ge.trans (length_le_flatten hne)

/-- A container of surviving items is copied unchanged and read as the container of their
values. -/
theorem container_survives {major n : ℕ} {values : List Value}
    (hcount : Holds major n values.length) (hlevels : levels < maxNesting)
    (hvalues : ∀ v ∈ values, Survives widen narrow levels v) :
    Rewrites (levels + 1) (head major n ++ (values.map (shortest narrow)).flatten)
        (head major n ++ (values.map (shortest narrow)).flatten) ∧
      readWhole widen (head major n ++ (values.map (shortest narrow)).flatten) =
        some (containerValue major values) := by
  let items := values.map fun v => (shortest narrow v, shortest narrow v)
  have hfst : items.map Prod.fst = values.map (shortest narrow) := by simp [items]
  have hsnd : items.map Prod.snd = values.map (shortest narrow) := by simp [items]
  have hitem {item : Bytes × Bytes} (hmem : item ∈ items) :
      Item levels item.1 ∧ Rewrites levels item.1 item.2 := by
    obtain ⟨v, hv, rfl⟩ := List.mem_map.mp hmem
    exact ⟨(hvalues v hv).item, (hvalues v hv).copied⟩
  have hread : items.mapM (fun item => readWhole widen item.2) = some values := by
    have hsome : ∀ v ∈ values, readWhole widen (shortest narrow v) = some v := fun v hv =>
      (hvalues v hv).read
    clear hitem hfst hsnd hcount hvalues
    induction values with
    | nil => rfl
    | cons v values ih =>
      have htail := ih fun v hv => hsome v (List.mem_cons_of_mem _ hv)
      simp only [items, List.map_cons, List.mapM_cons, hsome v List.mem_cons_self]
      rw [htail]
      rfl
  have hholds : Holds major n items.length := by rwa [List.length_map]
  have hcontainer := Rewrites.container hholds (fun _ h => (hitem h).1) fun _ h => (hitem h).2
  have hwhole := readWhole_container widen hholds hlevels fun _ h => (hitem h).2
  rw [hfst, hsnd] at hcontainer
  rw [hsnd, hread] at hwhole
  exact ⟨hcontainer, hwhole⟩

theorem encodable_array {xs : List Value} (hlevels : levels < maxNesting)
    (hxs : ∀ x ∈ xs, Encodable widen narrow levels x) :
    Encodable widen narrow (levels + 1) (.array xs) := by
  intro hlen
  rw [shortest, shortestAll_eq, List.length_append] at hlen
  obtain ⟨hall, hcount⟩ := survives_items hxs (by omega)
  obtain ⟨hcopied, hread⟩ := container_survives ⟨hcount, .inl ⟨rfl, rfl⟩⟩ hlevels hall
  have hitems : ∀ w ∈ xs.map (shortest narrow), Item levels w :=
    List.forall_mem_map.mpr fun v hv => (hall v hv).item
  have hitem := Item.array (by rwa [List.length_map]) hitems
  rw [List.length_map] at hitem
  refine ⟨?_, ?_, ?_⟩ <;> rw [shortest, shortestAll_eq]
  · exact hitem
  · exact hcopied
  · exact hread

def KeysAscend (narrow : UInt64 → Bytes) (entries : Entries) : Prop :=
  (entries.map fun e => shortest narrow e.1).Pairwise KeyLt

theorem keyLt_integer {i j : ℤ} (hi : 0 ≤ i) (hlt : i < j) (hj : j < 24) :
    KeyLt (shortest narrow (.integer i)) (shortest narrow (.integer j)) := by
  obtain ⟨m, rfl⟩ := Int.eq_ofNat_of_zero_le hi
  obtain ⟨n, rfl⟩ := Int.eq_ofNat_of_zero_le (hi.trans hlt.le)
  have hn : n < 24 := by omega
  have hm : m < n := by omega
  have hmajor {k : ℕ} (hk : k < 24) : Cbor.majorType (head 0 k) = 0 := by
    simpa using majorType_head k [] (show 0 < 8 by decide)
  have hbyte {k : ℕ} (hk : k < 24) : (Cbor.initialByte 0 k).toNat = k := by
    simpa using Cbor.toNat_initialByte (show 0 < 8 by decide) (show k < 32 by omega)
  simp only [shortest, Int.natCast_nonneg, if_true, Int.toNat_natCast]
  refine .inr ⟨(hmajor (hm.trans hn)).trans (hmajor hn).symm, .inr ?_⟩
  rw [Cbor.head_immediate 0 (hm.trans hn), Cbor.head_immediate 0 hn]
  refine ⟨rfl, List.Lex.rel ?_⟩
  rw [UInt8.lt_iff_toNat_lt, hbyte (hm.trans hn), hbyte hn]
  exact hm

theorem keyLt_text {s t : String} (hlt : (utf8 s).length < (utf8 t).length)
    (ht : (utf8 t).length < 24) :
    KeyLt (shortest narrow (.text s)) (shortest narrow (.text t)) := by
  rw [shortest, shortest]
  refine .inr ⟨(majorType_head _ _ (by decide)).trans (majorType_head _ _ (by decide)).symm,
    .inl ?_⟩
  rw [Cbor.head_immediate 3 (hlt.trans ht), Cbor.head_immediate 3 ht]
  simpa using hlt

variable {entries : Entries}

theorem mem_members {e : Value × Value} (he : e ∈ entries) :
    e.1 ∈ members entries ∧ e.2 ∈ members entries :=
  ⟨List.mem_flatMap.mpr ⟨e, he, by simp⟩, List.mem_flatMap.mpr ⟨e, he, by simp⟩⟩

theorem forall_members {P : Value → Prop} (h : ∀ e ∈ entries, P e.1 ∧ P e.2) :
    ∀ v ∈ members entries, P v := by
  intro v hv
  obtain ⟨e, he, hv⟩ := List.mem_flatMap.mp hv
  rcases List.mem_pair.mp hv with rfl | rfl
  · exact (h e he).1
  · exact (h e he).2

theorem survives_members
    (hentries : ∀ e ∈ entries, Encodable widen narrow levels e.1 ∧ Encodable widen narrow levels e.2)
    (hlen : (shortest narrow (.map entries)).length < 2 ^ 64) :
    (∀ v ∈ members entries, Survives widen narrow levels v) ∧
      Holds 5 entries.length (members entries).length := by
  rw [shortest, shortestEntries_eq, List.length_append] at hlen
  obtain ⟨hall, hcount⟩ := survives_items (forall_members hentries) (by omega)
  exact ⟨hall, hcount, .inr ⟨rfl, length_flatMap_pair entries⟩⟩

theorem encodable_map (hlevels : levels < maxNesting) (hkeys : KeysAscend narrow entries)
    (hentries : ∀ e ∈ entries, Encodable widen narrow levels e.1 ∧ Encodable widen narrow levels e.2) :
    Encodable widen narrow (levels + 1) (.map entries) := by
  intro hlen
  obtain ⟨hall, hcount⟩ := survives_members hentries hlen
  obtain ⟨hcopied, hread⟩ := container_survives hcount hlevels hall
  have hitem : Item (levels + 1) (shortest narrow (.map entries)) := by
    let codes := entries.map fun e => (shortest narrow e.1, shortest narrow e.2)
    have hcodes : codes.length = entries.length := List.length_map _
    have hitem : Item (levels + 1) (head 5 codes.length ++ codes.flatMap fun e => e.1 ++ e.2) :=
      .map (by have := hcount.1; have := hcount.entries; omega)
        (List.forall_mem_map.mpr fun e he => (hall _ (mem_members he).1).item)
        (List.forall_mem_map.mpr fun e he => (hall _ (mem_members he).2).item)
        (by simpa [codes, Function.comp_def, KeysAscend] using hkeys)
    rw [hcodes, ← flatten_flatMap_pair] at hitem
    rw [shortest, shortestEntries_eq]
    simpa [codes, members, List.flatMap_map, List.map_flatMap] using hitem
  refine ⟨hitem, ?_, ?_⟩ <;> rw [shortest, shortestEntries_eq]
  · exact hcopied
  · rw [hread, containerValue, if_neg (by decide), pairUp_members]

theorem itemUnder_members {key : ℕ} (hkey : key < 2 ^ 64) (hlevels : levels ≤ maxNesting)
    (hall : ∀ v ∈ members entries, Survives widen narrow levels v) :
    (itemUnder (head 0 key) ((members entries).map fun v =>
      (shortest narrow v, shortest narrow v))).map Prod.fst =
        (mapGet entries (.int key)).map (shortest narrow) := by
  induction entries with
  | nil => rfl
  | cons e entries ih =>
    have hmem := @mem_members (e :: entries) e List.mem_cons_self
    have hkeyed := hall _ hmem.1
    have hmatch := matches_iff widen hkeyed.copied hlevels hkeyed.read hkey
    have htail := ih fun v hv => hall v (List.mem_append_right _ hv)
    change (itemUnder (head 0 key) (_ :: _ :: (members entries).map _)).map Prod.fst = _
    rw [itemUnder, mapGet, List.find?_cons]
    by_cases heq : shortest narrow e.1 = head 0 key
    · rw [if_pos heq, hmatch.mpr heq]
      rfl
    · rw [if_neg heq, Bool.eq_false_iff.mpr fun h => heq (hmatch.mp h)]
      exact htail

theorem rawMapValue_shortest {key : ℕ} (hkey : key < 2 ^ 64)
    (hentries : ∀ e ∈ entries, Encodable widen narrow 15 e.1 ∧ Encodable widen narrow 15 e.2)
    (hlen : (shortest narrow (.map entries)).length < 2 ^ 64) :
    rawMapValue (shortest narrow (.map entries)) key =
      .ok ((mapGet entries (.int key)).map (shortest narrow)) := by
  obtain ⟨hall, hcount⟩ := survives_members hentries hlen
  rw [← itemUnder_members hkey (by decide) hall, ← rawMapValue_items hkey
    (by rwa [List.length_map]) (List.forall_mem_map.mpr fun v hv => (hall v hv).copied)]
  rw [shortest, shortestEntries_eq, List.map_map]
  rfl

end Encoding

section Decoder

variable [Externals]

/-- A map with its keys in order is accepted, and is read as itself. -/
theorem requestParameters_shortest {widen : Bytes → UInt64} {narrow : UInt64 → Bytes}
    {entries : Entries} (hreader : ReadsCanonical widen)
    (h : Survives widen narrow maxNesting (.map entries)) :
    requestParameters (shortest narrow (.map entries)) = .ok entries := by
  have hcopy := decodable_of_rewrites le_rfl h.item h.copied
  have hread := hreader _ _ hcopy
  rw [h.read] at hread
  exact Outcome.bind_eq_ok.mpr ⟨_, hcopy, by rw [hread]⟩

end Decoder

end SoftwareAuthenticator.Ctap
