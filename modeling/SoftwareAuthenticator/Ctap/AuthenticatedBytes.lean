import SoftwareAuthenticator.Ctap.CanonicalForm
import SoftwareAuthenticator.Ctap.MemoryStore

/-!
# The bytes that are authenticated are the parameters that are acted on

A command verifies the bytes that `raw_map_value` cuts out of its payload and acts on the value
the decoder read from a rewritten copy. `Rewrites` says once what the copier makes of an item;
checker and slicer are compared with it.
-/

namespace SoftwareAuthenticator.Ctap

open Cbor (Item head initialByte)

variable {bytes w c : Bytes} {pos major stop levels n : ℕ} {items : List Bytes}

def readItems (read : Bytes → Option (Value × Bytes)) : ℕ → Bytes → Option (List Value × Bytes)
  | 0, bytes => some ([], bytes)
  | n + 1, bytes => do
    let (value, rest) ← read bytes
    let (values, rest) ← readItems read n rest
    return (value :: values, rest)

def pairUp : List Value → Entries
  | key :: value :: rest => (key, value) :: pairUp rest
  | _ => []

/-- The assigned simple values and the floats, by their first byte. -/
def readSimple (widen : Bytes → UInt64) (item : Bytes) : Option Value :=
  let info := (item.headD 0).toNat % 32
  if info = 20 then some (.bool false)
  else if info = 21 then some (.bool true)
  else if info = 22 ∨ info = 23 then some .null
  else if 25 ≤ info ∧ info ≤ 27 then some (.float (widen item))
  else none

/-- What the item with this header is, and what is left; `rest` follows the header. -/
def readContent (widen : Bytes → UInt64) (read : Bytes → Option (Value × Bytes))
    (header : Bytes) (major argument : ℕ) (rest : Bytes) : Option (Value × Bytes) :=
  match major with
  | 0 => some (.integer argument, rest)
  | 1 => some (.integer (-1 - argument), rest)
  | 2 =>
    if rest.length < argument then none
    else some (.bytes (rest.take argument), rest.drop argument)
  | 3 =>
    if rest.length < argument then none
    else (fromUtf8 (rest.take argument)).map fun text => (.text text, rest.drop argument)
  | 4 => (readItems read argument rest).map fun (values, rest) => (.array values, rest)
  | 5 => (readItems read (argument * 2) rest).map fun (values, rest) => (.map (pairUp values), rest)
  | 7 => (readSimple widen header).map (·, rest)
  | _ => none

/-- What a decoder reads from the front of `bytes`, if that is an untagged item of definite
length nested less than `levels` deep, and what is left. `undefined` is read as null;
`widen` makes a double of a float's bytes. -/
def readItem (widen : Bytes → UInt64) : ℕ → Bytes → Option (Value × Bytes)
  | 0, _ => none
  | levels + 1, bytes =>
    (header bytes 0).bind fun (major, argument, stop) =>
      readContent widen (readItem widen levels) (bytes.take stop) major argument (bytes.drop stop)

def readWhole (widen : Bytes → UInt64) (bytes : Bytes) : Option Value :=
  match readItem widen (maxNesting + 1) bytes with
  | some (value, []) => some value
  | _ => none

theorem header_major {argument : ℕ} (h : header bytes pos = some (major, argument, stop)) :
    major = (bytes.getD pos 0).toNat / 32 := by
  unfold header at h
  obtain ⟨initial, hinitial, h⟩ := Option.bind_eq_some_iff.mp h
  rw [List.getD_eq_getElem?_getD, hinitial]
  dsimp only at h
  split at h
  · cases h
    rfl
  · split at h
    · obtain ⟨raw, -, h⟩ := Option.bind_eq_some_iff.mp h
      cases h
      rfl
    · cases h

theorem header_float {raw : Bytes} {k : ℕ} (hk : 1 ≤ k ∧ k ≤ 3) (hraw : raw.length = 2 ^ k)
    (hpos : StandsAt bytes pos (initialByte 7 (24 + k) :: raw)) :
    header bytes pos = some (7, argumentOf raw, pos + (raw.length + 1)) := by
  have hlt := hpos.lt_length (List.cons_ne_nil _ _)
  obtain ⟨hinitial, hstands⟩ := standsAt_cons.mp hpos
  have hnat := Cbor.toNat_initialByte (show 7 < 8 by omega) (show 24 + k < 32 by omega)
  have hdiv : (initialByte 7 (24 + k)).toNat / 32 = 7 := by omega
  have hmod : (initialByte 7 (24 + k)).toNat % 32 = 24 + k := by omega
  have hslice := slice_eq_some (by omega) hstands
  rw [header, hinitial]
  simp only [Option.bind_eq_bind, Option.bind_some, hdiv, hmod]
  rw [if_neg (by omega), if_pos (by omega), Nat.add_sub_cancel_left, ← hraw, hslice]
  exact congrArg (fun stop => some (7, argumentOf raw, stop)) (by omega)

theorem getD_of_standsAt (h : StandsAt bytes pos w) (hw : w ≠ []) :
    bytes.getD pos 0 = w.headD 0 := by
  obtain ⟨first, rest, rfl⟩ := List.exists_cons_of_ne_nil hw
  rw [List.getD_eq_getElem?_getD, (standsAt_cons.mp h).1]
  rfl

theorem scalar_header (hw : Item 0 w) (hpos : StandsAt bytes pos w) :
    ∃ major argument stop, header bytes pos = some (major, argument, stop) ∧
      major ≠ 4 ∧ major ≠ 5 ∧ (major = 7 → stop = pos + w.length) ∧
      ∀ levels, itemEnd bytes (levels + 1) pos = some (pos + w.length) := by
  have hle := (hpos.lt_length hw.ne_nil).le
  cases scalar_of_item hw with
  | bare hmajor hn =>
    obtain ⟨_, _, _, _, hheader, _⟩ := header_head hn hpos
    refine ⟨_, _, _, hheader, by omega, by omega, fun _ => rfl, fun levels => ?_⟩
    rw [itemEnd, hheader]
    exact if_pos hmajor
  | string hmajor hs =>
    obtain ⟨hhead, hcontent⟩ := standsAt_append.mp hpos
    obtain ⟨_, _, _, _, hheader, _⟩ := header_head hs hhead
    refine ⟨_, _, _, hheader, by omega, by omega, by omega, fun levels => ?_⟩
    rw [itemEnd, hheader]
    simp only
    rw [if_neg (by omega), if_pos hmajor, (scans_stringEnd bytes _).complete _ _
      (hhead.le_length hle) rfl hcontent, List.length_append, Nat.add_assoc]
  | float hk hraw =>
    have hheader := header_float hk hraw hpos
    refine ⟨_, _, _, hheader, by omega, by omega, fun _ => rfl, fun levels => ?_⟩
    rw [itemEnd, hheader]
    exact if_pos (by omega)

def isUnassignedSimple (w : Bytes) : Bool :=
  (w.headD 0).toNat / 32 = 7 ∧ ((w.headD 0).toNat % 32 < 20 ∨ (w.headD 0).toNat % 32 = 24)

def rewrittenScalar (w : Bytes) : Bytes := if isUnassignedSimple w then [undefinedByte] else w

/-- The number of items in an array of `n` elements or a map of `n` entries. -/
def Holds (major n count : ℕ) : Prop :=
  count < 2 ^ 64 ∧ (major = 4 ∧ count = n ∨ major = 5 ∧ count = n * 2)

/-- `Rewrites levels w c`: the item `w`, nested at most `levels` deep, is copied as `c`. -/
inductive Rewrites : ℕ → Bytes → Bytes → Prop
  | scalar {levels : ℕ} {w : Bytes} (hw : Item 0 w) : Rewrites levels w (rewrittenScalar w)
  | container {levels major n : ℕ} {items : List (Bytes × Bytes)}
      (hcount : Holds major n items.length) (hcanonical : ∀ item ∈ items, Item levels item.1)
      (hitems : ∀ item ∈ items, Rewrites levels item.1 item.2) :
      Rewrites (levels + 1) (head major n ++ (items.map Prod.fst).flatten)
        (head major n ++ (items.map Prod.snd).flatten)

theorem Rewrites.ne_nil (h : Rewrites levels w c) : w ≠ [] := by
  cases h with
  | scalar hw => exact hw.ne_nil
  | container _ _ _ => exact List.append_ne_nil_of_left_ne_nil (Cbor.head_ne_nil _ _) _

theorem Holds.admissible {count : ℕ} (h : Holds major n count) : Admissible major n := by
  obtain ⟨hlt, h⟩ := h
  exact admissible_of_ne (by omega) (by omega)

theorem Holds.header {count : ℕ} (h : Holds major n count)
    (hpos : StandsAt bytes pos (head major n)) :
    header bytes pos = some (major, n, pos + (head major n).length) := by
  obtain ⟨_, _, _, _, hheader, _⟩ := header_head h.admissible hpos
  exact hheader

theorem Holds.entries {count : ℕ} (h : Holds 5 n count) : count = n * 2 := by
  rcases h.2 with ⟨h4, -⟩ | ⟨-, h5⟩
  · exact absurd h4 (by decide)
  · exact h5

theorem iterate_items {item : ℕ → Option ℕ}
    (hitem : ∀ w ∈ items, ∀ pos ≤ bytes.length, StandsAt bytes pos w →
      item pos = some (pos + w.length)) (hle : pos ≤ bytes.length)
    (hpos : StandsAt bytes pos items.flatten) :
    iterate item items.length pos = some (pos + items.flatten.length) := by
  induction items generalizing pos with
  | nil => rfl
  | cons w items ih =>
    obtain ⟨hw, hrest⟩ := standsAt_append.mp hpos
    rw [List.length_cons, iterate, hitem w List.mem_cons_self pos hle hw, Option.bind_some,
      ih (fun w hw => hitem w (List.mem_cons_of_mem _ hw)) (hw.le_length hle) hrest,
      List.flatten_cons, List.length_append, Nat.add_assoc]

/-- The slicer finds the end of every item the copier accepts. -/
theorem itemEnd_rewrites (h : Rewrites levels w c) :
    ∀ {pos limit : ℕ}, levels < limit → pos ≤ bytes.length → StandsAt bytes pos w →
      itemEnd bytes limit pos = some (pos + w.length) := by
  induction h with
  | scalar hw =>
    intro pos limit hlimit _ hpos
    obtain ⟨limit, rfl⟩ := Nat.exists_eq_succ_of_ne_zero (Nat.ne_zero_of_lt hlimit)
    obtain ⟨_, _, _, _, _, _, _, hend⟩ := scalar_header hw hpos
    exact hend limit
  | @container levels major n items hcount _ hitems ih =>
    intro pos limit hlimit hle hpos
    obtain ⟨limit, rfl⟩ := Nat.exists_eq_succ_of_ne_zero (Nat.ne_zero_of_lt hlimit)
    obtain ⟨hhead, hcontent⟩ := standsAt_append.mp hpos
    have hloop : iterate (itemEnd bytes limit) items.length (pos + (head major n).length) =
        some (pos + (head major n ++ (items.map Prod.fst).flatten).length) := by
      have hitem : ∀ w ∈ items.map Prod.fst, ∀ pos ≤ bytes.length, StandsAt bytes pos w →
          itemEnd bytes limit pos = some (pos + w.length) := by
        intro w hw pos hle hpos
        obtain ⟨item, hmem, rfl⟩ := List.mem_map.mp hw
        exact ih item hmem (Nat.lt_of_succ_lt_succ hlimit) hle hpos
      have hiterate := iterate_items hitem (hhead.le_length hle) hcontent
      rw [List.length_map] at hiterate
      rw [hiterate, List.length_append, Nat.add_assoc]
    rw [itemEnd, hcount.header hhead]
    simp only
    obtain ⟨hlt, ⟨rfl, rfl⟩ | ⟨rfl, hn⟩⟩ := hcount
    · simpa using hloop
    · have hdouble : checkedDouble n = some items.length := by
        rw [checkedDouble, if_pos (by omega), hn]
      simpa [hdouble] using hloop

theorem iterateCopy_items {copy : ℕ → Option (ℕ × Bytes)} {items : List (Bytes × Bytes)}
    (out : Bytes) (hcopy : ∀ item ∈ items, ∀ pos ≤ bytes.length, StandsAt bytes pos item.1 →
      copy pos = some (pos + item.1.length, item.2)) (hle : pos ≤ bytes.length)
    (hpos : StandsAt bytes pos (items.map Prod.fst).flatten) :
    iterateCopy copy items.length pos out =
      some (pos + (items.map Prod.fst).flatten.length, out ++ (items.map Prod.snd).flatten) := by
  induction items generalizing pos out with
  | nil => simp [iterateCopy]
  | cons item items ih =>
    obtain ⟨hitem, hrest⟩ := standsAt_append.mp hpos
    rw [List.length_cons, iterateCopy, hcopy item List.mem_cons_self pos hle hitem]
    simp only [Option.bind_eq_bind, Option.bind_some]
    rw [ih _ (fun item hmem => hcopy item (List.mem_cons_of_mem _ hmem)) (hitem.le_length hle) hrest]
    simp [Nat.add_assoc]

theorem copy_container {count : ℕ} (limit : ℕ) (hcount : Holds major n count)
    (hpos : StandsAt bytes pos (head major n)) :
    copyWithUnassignedSimpleValuesUndefined bytes (limit + 1) pos =
      iterateCopy (copyWithUnassignedSimpleValuesUndefined bytes limit) count
        (pos + (head major n).length) (head major n) := by
  rw [copyWithUnassignedSimpleValuesUndefined, hcount.header hpos]
  simp only [Nat.add_sub_cancel_left, hpos.take]
  obtain ⟨hlt, ⟨rfl, rfl⟩ | ⟨rfl, hn⟩⟩ := hcount
  · simp
  · have hdouble : checkedDouble n = some count := by
      rw [checkedDouble, if_pos (by omega), hn]
    simp [hdouble]

theorem copy_scalar (limit : ℕ) (hw : Item 0 w) (hpos : StandsAt bytes pos w) :
    copyWithUnassignedSimpleValuesUndefined bytes (limit + 1) pos =
      some (pos + w.length, rewrittenScalar w) := by
  obtain ⟨major, argument, stop, hheader, h4, h5, h7, hend⟩ := scalar_header hw hpos
  have hfirst := getD_of_standsAt hpos hw.ne_nil
  have hmajor := header_major hheader
  rw [hfirst] at hmajor
  have hkind : isUnassignedSimple w =
      decide (major = 7 ∧ ((w.headD 0).toNat % 32 < 20 ∨ (w.headD 0).toNat % 32 = 24)) := by
    rw [hmajor]
    rfl
  rw [copyWithUnassignedSimpleValuesUndefined, hheader]
  simp only [hfirst, if_neg h4, if_neg h5, hend, Option.map_some, Nat.add_sub_cancel_left,
    hpos.take]
  rw [rewrittenScalar, hkind]
  split
  · rename_i hsimple
    rw [if_pos (decide_eq_true hsimple), h7 hsimple.1]
  · rename_i hsimple
    rw [if_neg (by simpa using hsimple)]

/-- The copier copies an item in the same way wherever it stands. -/
theorem copy_rewrites (h : Rewrites levels w c) :
    ∀ {pos limit : ℕ}, levels < limit → pos ≤ bytes.length → StandsAt bytes pos w →
      copyWithUnassignedSimpleValuesUndefined bytes limit pos = some (pos + w.length, c) := by
  induction h with
  | scalar hw =>
    intro pos limit hlimit _ hpos
    obtain ⟨limit, rfl⟩ := Nat.exists_eq_succ_of_ne_zero (Nat.ne_zero_of_lt hlimit)
    exact copy_scalar limit hw hpos
  | @container levels major n items hcount _ hitems ih =>
    intro pos limit hlimit hle hpos
    obtain ⟨limit, rfl⟩ := Nat.exists_eq_succ_of_ne_zero (Nat.ne_zero_of_lt hlimit)
    obtain ⟨hhead, hcontent⟩ := standsAt_append.mp hpos
    rw [copy_container limit hcount hhead, iterateCopy_items _
      (fun item hmem pos => ih item hmem (Nat.lt_of_succ_lt_succ hlimit)) (hhead.le_length hle)
      hcontent, List.length_append, Nat.add_assoc]

theorem items_of_iterateCopy {out : Bytes} {copy : ℕ → Option (ℕ × Bytes)}
    (hcopy : ∀ w ∈ items, ∀ pos stop c, pos ≤ bytes.length → StandsAt bytes pos w →
      copy pos = some (stop, c) → Rewrites levels w c ∧ stop = pos + w.length)
    (hle : pos ≤ bytes.length) (hpos : StandsAt bytes pos items.flatten)
    (h : iterateCopy copy items.length pos out = some (stop, c)) :
    ∃ copied : List (Bytes × Bytes), items = copied.map Prod.fst ∧
      (∀ item ∈ copied, Rewrites levels item.1 item.2) ∧
      c = out ++ (copied.map Prod.snd).flatten ∧ stop = pos + items.flatten.length := by
  induction items generalizing pos out with
  | nil =>
    cases h
    exact ⟨[], rfl, fun _ hmem => absurd hmem List.not_mem_nil, (List.append_nil _).symm, rfl⟩
  | cons w items ih =>
    obtain ⟨hw, hrest⟩ := standsAt_append.mp hpos
    obtain ⟨⟨mid, first⟩, hfirst, h⟩ := Option.bind_eq_some_iff.mp h
    obtain ⟨hrewrites, rfl⟩ := hcopy w List.mem_cons_self pos mid first hle hw hfirst
    obtain ⟨copied, rfl, hcopied, rfl, rfl⟩ :=
      ih (fun w hmem => hcopy w (List.mem_cons_of_mem _ hmem)) (hw.le_length hle) hrest h
    refine ⟨(w, first) :: copied, rfl, List.forall_mem_cons.mpr ⟨hrewrites, hcopied⟩, ?_, ?_⟩
    · simp
    · simp [Nat.add_assoc]

theorem rewrites_of_copy_container {limit : ℕ} (hcount : Holds major n items.length)
    (hcanonical : ∀ w ∈ items, Item levels w)
    (hcopy : ∀ w ∈ items, ∀ pos stop c, pos ≤ bytes.length → StandsAt bytes pos w →
      copyWithUnassignedSimpleValuesUndefined bytes limit pos = some (stop, c) →
        Rewrites levels w c ∧ stop = pos + w.length) (hle : pos ≤ bytes.length)
    (hpos : StandsAt bytes pos (head major n ++ items.flatten))
    (h : copyWithUnassignedSimpleValuesUndefined bytes (limit + 1) pos = some (stop, c)) :
    Rewrites (levels + 1) (head major n ++ items.flatten) c ∧
      stop = pos + (head major n ++ items.flatten).length := by
  obtain ⟨hhead, hcontent⟩ := standsAt_append.mp hpos
  rw [copy_container limit hcount hhead] at h
  obtain ⟨copied, rfl, hcopied, rfl, rfl⟩ :=
    items_of_iterateCopy hcopy (hhead.le_length hle) hcontent h
  rw [List.length_map] at hcount
  exact ⟨.container hcount (fun item hmem => hcanonical _ (List.mem_map_of_mem hmem)) hcopied,
    by rw [List.length_append, Nat.add_assoc]⟩

theorem flatten_flatMap_pair (entries : List (Bytes × Bytes)) :
    (entries.flatMap fun e => [e.1, e.2]).flatten = entries.flatMap fun e => e.1 ++ e.2 := by
  induction entries with
  | nil => rfl
  | cons e entries ih => simp [ih]

theorem length_flatMap_pair {α : Type} (entries : List (α × α)) :
    (entries.flatMap fun e => [e.1, e.2]).length = entries.length * 2 := by
  simp [List.length_flatMap]

/-- A canonical item that the copier accepts is rewritten. -/
theorem rewrites_of_copy (hw : Item levels w) :
    ∀ {limit pos stop : ℕ} {c : Bytes}, pos ≤ bytes.length → StandsAt bytes pos w →
      copyWithUnassignedSimpleValuesUndefined bytes limit pos = some (stop, c) →
        Rewrites levels w c ∧ stop = pos + w.length := by
  have hscalar {levels : ℕ} {w : Bytes} (hw : Item 0 w) {limit pos stop : ℕ} {c : Bytes}
      (hpos : StandsAt bytes pos w)
      (h : copyWithUnassignedSimpleValuesUndefined bytes limit pos = some (stop, c)) :
      Rewrites levels w c ∧ stop = pos + w.length := by
    cases limit with
    | zero => cases h
    | succ limit =>
      rw [copy_scalar limit hw hpos] at h
      cases h
      exact ⟨.scalar hw, rfl⟩
  induction hw with
  | unsigned hn => exact fun _ => hscalar (.unsigned hn)
  | negative hn => exact fun _ => hscalar (.negative hn)
  | byteString hs => exact fun _ => hscalar (.byteString hs)
  | textString hs => exact fun _ => hscalar (.textString hs)
  | simple hn => exact fun _ => hscalar (.simple hn)
  | float hk hraw => exact fun _ => hscalar (.float hk hraw)
  | @array levels items hlen hitems ih =>
    intro limit pos stop c hle hpos h
    cases limit with
    | zero => cases h
    | succ limit =>
      exact rewrites_of_copy_container ⟨hlen, .inl ⟨rfl, rfl⟩⟩ hitems
        (fun w hmem pos stop c hle hpos => ih w hmem hle hpos) hle hpos h
  | @map levels entries hlen hkeys hvalues hsorted ihkeys ihvalues =>
    intro limit pos stop c hle hpos h
    cases limit with
    | zero => cases h
    | succ limit =>
      -- The copier refuses a map whose items it cannot count.
      have hdouble : entries.length * 2 < 2 ^ 64 := by
        obtain ⟨_, _, _, _, hheader, _⟩ :=
          header_head (admissible_of_ne (by omega) hlen) (standsAt_append.mp hpos).1
        rw [copyWithUnassignedSimpleValuesUndefined, hheader] at h
        by_contra hnot
        have hnone : checkedDouble entries.length = none := if_neg hnot
        simp [hnone] at h
      rw [← flatten_flatMap_pair] at hpos ⊢
      have hmember {w : Bytes} (hmem : w ∈ entries.flatMap fun e => [e.1, e.2]) :
          ∃ e ∈ entries, w = e.1 ∨ w = e.2 := by simpa using hmem
      refine rewrites_of_copy_container ⟨by rwa [length_flatMap_pair], .inr ⟨rfl,
        length_flatMap_pair entries⟩⟩ (fun w hmem => ?_) (fun w hmem pos stop c hle hpos => ?_)
        hle hpos h
      · obtain ⟨e, he, rfl | rfl⟩ := hmember hmem
        · exact hkeys e he
        · exact hvalues e he
      · obtain ⟨e, he, rfl | rfl⟩ := hmember hmem
        · exact ihkeys e he hle hpos
        · exact ihvalues e he hle hpos

section Reader

variable (widen : Bytes → UInt64)

variable {key : ℕ} {items : List (Bytes × Bytes)}

theorem readItem_header {stop : ℕ} (limit : ℕ) (h : header bytes 0 = some (major, n, stop)) :
    readItem widen (limit + 1) bytes = readContent widen (readItem widen limit)
      (bytes.take stop) major n (bytes.drop stop) := by
  rw [readItem, h]
  rfl

theorem readItem_head (limit : ℕ) (hn : Admissible major n) (rest : Bytes) :
    readItem widen (limit + 1) (head major n ++ rest) =
      readContent widen (readItem widen limit) (head major n) major n rest := by
  obtain ⟨_, _, _, _, hheader, _⟩ :=
    header_head hn (show StandsAt (head major n ++ rest) 0 (head major n) from ⟨rest, rfl⟩)
  rw [readItem_header widen limit hheader, Nat.zero_add, List.take_left, List.drop_left]

theorem readSimple_cases {item : Bytes} {value : Value} (h : readSimple widen item = some value) :
    (∃ b, value = .bool b) ∨ value = .null ∨ ∃ bits, value = .float bits := by
  unfold readSimple at h
  dsimp only at h
  split_ifs at h <;> cases h <;> simp

theorem readItem_scalar (hc : Item 0 c) :
    ∃ value : Option Value, (∀ (limit : ℕ) (rest : Bytes),
      readItem widen (limit + 1) (c ++ rest) = value.map (·, rest)) ∧
      (∀ entries, value ≠ some (.map entries)) ∧
      ∀ n : ℕ, value = some (.integer n) → c = head 0 n := by
  have hsimple {item : Bytes} : (∀ entries, readSimple widen item ≠ some (.map entries)) ∧
      ∀ n : ℕ, readSimple widen item = some (.integer n) → c = head 0 n := by
    refine ⟨fun entries h => ?_, fun n h => ?_⟩ <;>
      rcases readSimple_cases widen h with ⟨_, h⟩ | h | ⟨_, h⟩ <;> cases h
  cases hc with
  | @unsigned _ n hn =>
    refine ⟨some (.integer n),
      fun limit => readItem_head widen limit (admissible_of_ne (by omega) hn), by simp, ?_⟩
    intro m h
    simp only [Option.some.injEq, Value.integer.injEq, Nat.cast_inj] at h
    rw [h]
  | @negative _ n hn =>
    refine ⟨some (.integer (-1 - n)),
      fun limit => readItem_head widen limit (admissible_of_ne (by omega) hn), by simp, ?_⟩
    intro m h
    simp only [Option.some.injEq, Value.integer.injEq] at h
    omega
  | @byteString _ s hs =>
    refine ⟨some (.bytes s), fun limit rest => ?_, by simp, by simp⟩
    rw [List.append_assoc, readItem_head widen limit (admissible_of_ne (by omega) hs)]
    simp [readContent]
  | @textString _ s hs =>
    refine ⟨(fromUtf8 s).map .text, fun limit rest => ?_, by simp, by simp⟩
    rw [List.append_assoc, readItem_head widen limit (admissible_of_ne (by omega) hs)]
    simp [readContent, Function.comp_def]
  | @simple _ n hn =>
    exact ⟨readSimple widen (head 7 n),
      fun limit => readItem_head widen limit ⟨by omega, by omega, fun _ => hn⟩, hsimple⟩
  | @float _ k raw hk hraw =>
    refine ⟨readSimple widen (initialByte 7 (24 + k) :: raw), fun limit rest => ?_, hsimple⟩
    have hheader := header_float hk hraw
      (show StandsAt ((initialByte 7 (24 + k) :: raw) ++ rest) 0 _ from ⟨rest, rfl⟩)
    rw [readItem_header widen limit hheader, Nat.zero_add, ← List.length_cons, List.take_left,
      List.drop_left]
    rfl

theorem item_rewrittenScalar (hw : Item 0 w) : Item 0 (rewrittenScalar w) := by
  unfold rewrittenScalar
  split
  · exact Item.simple (.inl (show 23 < 24 by decide))
  · exact hw

theorem readItems_append {ι : Type} {read : Bytes → Option (Value × Bytes)}
    {value : ι → Option Value} {code : ι → Bytes} {items : List ι}
    (hread : ∀ i ∈ items, ∀ rest, read (code i ++ rest) = (value i).map (·, rest)) (rest : Bytes) :
    readItems read items.length ((items.map code).flatten ++ rest) =
      (items.mapM value).map (·, rest) := by
  induction items with
  | nil => rfl
  | cons i items ih =>
    rw [List.length_cons, readItems, List.map_cons, List.flatten_cons, List.append_assoc,
      hread i List.mem_cons_self, List.mapM_cons]
    cases value i with
    | none => rfl
    | some v =>
      simp only [Option.map_some, Option.bind_eq_bind, Option.bind_some]
      rw [ih fun i hi => hread i (List.mem_cons_of_mem _ hi)]
      cases items.mapM value <;> rfl

def containerValue (major : ℕ) (values : List Value) : Value :=
  if major = 4 then .array values else .map (pairUp values)

theorem readItem_container {ι : Type} {value : ι → Option Value} {code : ι → Bytes}
    {items : List ι} {limit : ℕ} (hcount : Holds major n items.length)
    (hread : ∀ i ∈ items, ∀ rest, readItem widen limit (code i ++ rest) = (value i).map (·, rest))
    (rest : Bytes) :
    readItem widen (limit + 1) (head major n ++ (items.map code).flatten ++ rest) =
      ((items.mapM value).map (containerValue major)).map (·, rest) := by
  have hitems := readItems_append hread rest
  rw [List.append_assoc, readItem_head widen limit hcount.admissible]
  obtain ⟨-, ⟨rfl, rfl⟩ | ⟨rfl, hcount⟩⟩ := hcount
  · rw [readContent, hitems, Option.map_map, Option.map_map]
    rfl
  · rw [readContent, ← hcount, hitems, Option.map_map, Option.map_map]
    rfl

/-- The value of a copy is read from it whatever follows. -/
theorem exists_readItem_rewrites (h : Rewrites levels w c) :
    ∃ value : Option Value, ∀ (limit : ℕ) (rest : Bytes), levels < limit →
      readItem widen limit (c ++ rest) = value.map (·, rest) := by
  induction h with
  | @scalar levels w hw =>
    obtain ⟨value, hvalue, -, -⟩ := readItem_scalar widen (item_rewrittenScalar hw)
    refine ⟨value, fun limit rest hlimit => ?_⟩
    obtain ⟨limit, rfl⟩ := Nat.exists_eq_succ_of_ne_zero (Nat.ne_zero_of_lt hlimit)
    exact hvalue limit rest
  | @container levels major n items hcount _ hitems ih =>
    choose! value hvalue using ih
    refine ⟨(items.mapM value).map (containerValue major), fun limit rest hlimit => ?_⟩
    obtain ⟨limit, rfl⟩ := Nat.exists_eq_succ_of_ne_zero (Nat.ne_zero_of_lt hlimit)
    exact readItem_container widen hcount
      (fun item hmem rest => hvalue item hmem limit rest (Nat.lt_of_succ_lt_succ hlimit)) rest

theorem readItem_rewrites {limit : ℕ} (h : Rewrites levels w c) (hlevels : levels ≤ maxNesting)
    (hlimit : levels < limit) (rest : Bytes) :
    readItem widen limit (c ++ rest) = (readWhole widen c).map (·, rest) := by
  obtain ⟨value, hvalue⟩ := exists_readItem_rewrites widen h
  have hwhole : readWhole widen c = value := by
    have hread := hvalue (maxNesting + 1) [] (Nat.lt_succ_of_le hlevels)
    rw [List.append_nil] at hread
    rw [readWhole, hread]
    cases value <;> rfl
  rw [hwhole]
  exact hvalue limit rest hlimit

theorem readWhole_container (hcount : Holds major n items.length) (hlevels : levels < maxNesting)
    (hitems : ∀ item ∈ items, Rewrites levels item.1 item.2) :
    readWhole widen (head major n ++ (items.map Prod.snd).flatten) =
      (items.mapM fun item => readWhole widen item.2).map (containerValue major) := by
  have hread := readItem_container widen hcount (fun item hmem rest =>
    readItem_rewrites widen (hitems item hmem) hlevels.le hlevels rest) []
  rw [List.append_nil] at hread
  rw [readWhole, hread]
  cases items.mapM fun item => readWhole widen item.2 <;> rfl

omit widen in
theorem majorType_head (n : ℕ) (rest : Bytes) (hmajor : major < 8) :
    Cbor.majorType (head major n ++ rest) = major := by
  have hbyte {info : ℕ} (hinfo : info < 32) : (initialByte major info).toNat / 32 = major := by
    have := Cbor.toNat_initialByte hmajor hinfo
    omega
  unfold head Cbor.majorType
  split_ifs <;> exact hbyte (by omega)

omit widen in
theorem Rewrites.unsigned_of_majorType (h : Rewrites levels w c) (hmajor : Cbor.majorType w = 0) :
    c = w ∧ ∃ n < 2 ^ 64, w = head 0 n := by
  have hbare {major n : ℕ} {rest : Bytes} (hlt : major < 8) (hne : major ≠ 0)
      (h : Cbor.majorType (head major n ++ rest) = 0) : False :=
    hne ((majorType_head n rest hlt).symm.trans h)
  cases h with
  | scalar hw =>
    have hkept : rewrittenScalar w = w := by
      have : isUnassignedSimple w = false := by
        rw [isUnassignedSimple, decide_eq_false_iff_not, show (w.headD 0).toNat / 32 = 0 from hmajor]
        omega
      rw [rewrittenScalar, this]
      rfl
    refine ⟨hkept, ?_⟩
    cases scalar_of_item hw with
    | @bare major n hkind hn =>
      rw [← List.append_nil (head major n), majorType_head n [] hn.1] at hmajor
      exact ⟨n, hn.2.1, hmajor ▸ rfl⟩
    | string hkind hs => exact (hbare (by omega) (by omega) hmajor).elim
    | @float k raw hk hraw =>
      have hnat := Cbor.toNat_initialByte (show 7 < 8 by omega) (show 24 + k < 32 by omega)
      have hzero : (initialByte 7 (24 + k)).toNat / 32 = 0 := hmajor
      omega
  | container hcount _ hitems =>
    rcases hcount.2 with ⟨rfl, -⟩ | ⟨rfl, -⟩ <;>
      exact (hbare (by decide) (by decide) hmajor).elim

omit widen in
theorem header_unsigned (hn : n < 2 ^ 64) (hpos : StandsAt bytes pos (head 0 n)) :
    header bytes pos = some (0, n, pos + (head 0 n).length) := by
  obtain ⟨_, _, _, _, hheader, _⟩ := header_head (admissible_of_ne (by omega) hn) hpos
  exact hheader

omit widen in
theorem isUnsignedKey_iff (h : Rewrites levels w c) (hpos : StandsAt bytes pos w)
    (hkey : key < 2 ^ 64) :
    isUnsignedKey bytes pos (pos + w.length) key = true ↔ w = head 0 key := by
  constructor
  · intro hmatch
    unfold isUnsignedKey at hmatch
    cases hheader : header bytes pos with
    | none => simp [hheader] at hmatch
    | some parts =>
      obtain ⟨major, argument, stop⟩ := parts
      simp only [hheader, decide_eq_true_eq] at hmatch
      obtain ⟨rfl, rfl, -⟩ := hmatch
      have hmajor := header_major hheader
      rw [getD_of_standsAt hpos h.ne_nil] at hmajor
      obtain ⟨-, n, hn, rfl⟩ := h.unsigned_of_majorType hmajor.symm
      rw [header_unsigned hn hpos] at hheader
      cases hheader
      rfl
  · rintro rfl
    simp [isUnsignedKey, header_unsigned hkey hpos]

theorem readWhole_unsigned (hn : n < 2 ^ 64) : readWhole widen (head 0 n) = some (.integer n) := by
  have hread := readItem_head widen maxNesting (admissible_of_ne (show 0 < 7 by omega) hn) []
  rw [List.append_nil] at hread
  rw [readWhole, hread]
  rfl

theorem matches_iff {value : Value} (h : Rewrites levels w c) (hlevels : levels ≤ maxNesting)
    (hread : readWhole widen c = some value) (hkey : key < 2 ^ 64) :
    (Key.int key).matches value = true ↔ w = head 0 key := by
  constructor
  · intro hmatch
    obtain rfl : value = .integer key := by
      cases value <;> simp [Key.matches] at hmatch
      rw [hmatch]
    have hwhole := readItem_rewrites widen h hlevels (Nat.lt_succ_self levels) []
    cases h with
    | scalar hw =>
      obtain ⟨value, hvalue, -, hinteger⟩ := readItem_scalar widen (item_rewrittenScalar hw)
      rw [hvalue, hread] at hwhole
      have hcopied := hinteger key (by cases value <;> simp_all)
      -- `undefined` is not an integer, so the key was kept.
      have hmajor := majorType_head key [] (show 0 < 8 by omega)
      rw [List.append_nil, ← hcopied] at hmajor
      unfold rewrittenScalar at hcopied hmajor
      split at hcopied
      · rw [if_pos ‹_›] at hmajor
        exact absurd hmajor (by decide)
      · exact hcopied
    | container hcount _ hitems =>
      rw [readWhole_container widen hcount (Nat.lt_of_succ_le hlevels) hitems] at hread
      obtain ⟨values, -, hvalue⟩ := Option.map_eq_some_iff.mp hread
      unfold containerValue at hvalue
      split at hvalue <;> cases hvalue
  · rintro rfl
    have hmajor := majorType_head key [] (show 0 < 8 by omega)
    rw [List.append_nil] at hmajor
    obtain ⟨rfl, -⟩ := h.unsigned_of_majorType hmajor
    rw [readWhole_unsigned widen hkey] at hread
    cases hread
    simp [Key.matches]

/-- The value and its copy behind the first key with these bytes; keys and values come in
turn. -/
def itemUnder (key : Bytes) : List (Bytes × Bytes) → Option (Bytes × Bytes)
  | k :: value :: rest => if k.1 = key then some value else itemUnder key rest
  | _ => none

omit widen in
theorem mem_of_itemUnder {key : Bytes} {value : Bytes × Bytes}
    (h : itemUnder key items = some value) : value ∈ items := by
  fun_induction itemUnder key items with
  | case1 k v rest hk =>
    cases h
    simp
  | case2 k v rest hk ih => simp [ih h]
  | case3 => cases h

omit widen in
theorem exists_pair {α : Type} {items : List α} (h : items.length = (n + 1) * 2) :
    ∃ k v rest, items = k :: v :: rest ∧ rest.length = n * 2 := by
  match items, h with
  | [], h => simp at h
  | [_], h => simp only [List.length_singleton] at h; omega
  | k :: v :: rest, h => exact ⟨k, v, rest, rfl, by simp only [List.length_cons] at h; omega⟩

omit widen in
/-- The slicer's loop finds the first value under the key. -/
theorem rawEntries_items (hkey : key < 2 ^ 64) (hlevels : levels < maxNesting)
    (hitems : ∀ item ∈ items, Rewrites levels item.1 item.2) (hlen : items.length = n * 2)
    (hle : pos ≤ bytes.length) (hpos : StandsAt bytes pos (items.map Prod.fst).flatten)
    (found : Option Bytes) :
    rawEntries bytes key n pos found =
      some (pos + (items.map Prod.fst).flatten.length,
        found.or ((itemUnder (head 0 key) items).map Prod.fst)) := by
  induction n generalizing items pos found with
  | zero =>
    rw [List.eq_nil_of_length_eq_zero hlen]
    simp [rawEntries, itemUnder]
  | succ n ih =>
    obtain ⟨k, v, items, rfl, hrest⟩ := exists_pair hlen
    simp only [List.forall_mem_cons] at hitems
    obtain ⟨hk, hv, hitems⟩ := hitems
    simp only [List.map_cons, List.flatten_cons] at hpos
    obtain ⟨hposk, hpos⟩ := standsAt_append.mp hpos
    obtain ⟨hposv, hpos⟩ := standsAt_append.mp hpos
    have hlek := hposk.le_length hle
    have hmatch := isUnsignedKey_iff hk hposk hkey
    rw [rawEntries, itemEnd_rewrites hk hlevels hle hposk]
    simp only [Option.bind_eq_bind, Option.bind_some]
    rw [itemEnd_rewrites hv hlevels hlek hposv]
    simp only [Option.bind_some, slice_eq_some hlek hposv, hmatch]
    rw [ih hitems hrest (hposv.le_length hlek) hpos, itemUnder]
    simp only [List.map_cons, List.flatten_cons, List.length_append, Nat.add_assoc]
    by_cases heq : k.1 = head 0 key
    · cases found <;> simp [heq]
    · simp [heq]

theorem mapGet_items {values : List Value} (hkey : key < 2 ^ 64) (hlevels : levels ≤ maxNesting)
    (hitems : ∀ item ∈ items, Rewrites levels item.1 item.2) (hlen : items.length = n * 2)
    (hvalues : items.mapM (fun item => readWhole widen item.2) = some values) :
    mapGet (pairUp values) (.int key) =
      (itemUnder (head 0 key) items).bind fun item => readWhole widen item.2 := by
  induction n generalizing items values with
  | zero =>
    rw [List.eq_nil_of_length_eq_zero hlen] at hvalues ⊢
    cases hvalues
    rfl
  | succ n ih =>
    obtain ⟨k, v, items, rfl, hrest⟩ := exists_pair hlen
    simp only [List.forall_mem_cons] at hitems
    obtain ⟨hk, hv, hitems⟩ := hitems
    simp only [List.mapM_cons, Option.bind_eq_bind, Option.bind_eq_some_iff, Option.pure_def,
      Option.some.injEq] at hvalues
    obtain ⟨kv, hkv, _, ⟨vv, hvv, values, hvalues, rfl⟩, rfl⟩ := hvalues
    have hmatch := matches_iff widen hk hlevels hkv hkey
    rw [itemUnder, pairUp, mapGet, List.find?_cons]
    by_cases heq : k.1 = head 0 key
    · simp [heq, hmatch.mpr heq, hvv]
    · have hno : (Key.int key).matches kv = false := by
        simpa using fun h => heq (hmatch.mp h)
      rw [hno, if_neg heq]
      exact ih hitems hrest hvalues

end Reader

theorem item_mono {levels levels' : ℕ} {w : Bytes} (h : Item levels w) (hle : levels ≤ levels') :
    Item levels' w := by
  induction h generalizing levels' with
  | unsigned hn => exact .unsigned hn
  | negative hn => exact .negative hn
  | byteString hs => exact .byteString hs
  | textString hs => exact .textString hs
  | simple hn => exact .simple hn
  | float hk hraw => exact .float hk hraw
  | array hlen _ ih =>
    obtain ⟨levels', rfl⟩ := Nat.exists_eq_add_of_le' hle
    exact .array hlen fun item hmem => ih item hmem (Nat.le_add_left _ _)
  | map hlen _ _ hsorted ihkeys ihvalues =>
    obtain ⟨levels', rfl⟩ := Nat.exists_eq_add_of_le' hle
    exact .map hlen (fun e he => ihkeys e he (Nat.le_add_left _ _))
      (fun e he => ihvalues e he (Nat.le_add_left _ _)) hsorted

/-- An accepted payload is one canonical item and its copy. -/
theorem rewrites_of_decodable {payload c : Bytes} (h : decodable payload = .ok c) :
    Rewrites maxNesting payload c := by
  unfold decodable at h
  split at h
  · cases h
  rename_i hend
  obtain ⟨w, hw, hpos, hlen⟩ :=
    (scans_canonicalItemEnd payload maxNesting).sound 0 _ (not_not.mp hend)
  have hwhole : payload = w := by
    have htake := hpos.take
    rwa [List.drop_zero, ← Nat.zero_add w.length, ← hlen, List.take_length] at htake
  subst hwhole
  split at h
  · cases h
  · rename_i stop copied hcopy
    split at h <;> cases h
    exact (rewrites_of_copy hw (Nat.zero_le _) hpos hcopy).1

theorem decodable_of_rewrites {levels : ℕ} {w c : Bytes} (hlevels : levels ≤ maxNesting)
    (hitem : Item levels w) (h : Rewrites levels w c) : decodable w = .ok c := by
  have hpos : StandsAt w 0 w := ⟨[], by simp⟩
  have hend := (scans_canonicalItemEnd w maxNesting).complete 0 w (Nat.zero_le _)
    (item_mono hitem hlevels) hpos
  have hcopy := copy_rewrites h (Nat.lt_succ_of_le hlevels) (Nat.zero_le _) hpos
  rw [Nat.zero_add] at hend hcopy
  simp [decodable, hend, hcopy]

theorem exists_of_mapM {α β : Type} {f : α → Option β} {xs : List α} {ys : List β}
    (h : xs.mapM f = some ys) : ∀ x ∈ xs, ∃ y, f x = some y := by
  induction xs generalizing ys with
  | nil => exact fun _ hx => absurd hx List.not_mem_nil
  | cons x xs ih =>
    simp only [List.mapM_cons, Option.bind_eq_bind, Option.bind_eq_some_iff] at h
    obtain ⟨y, hy, ys, hys, -⟩ := h
    exact List.forall_mem_cons.mpr ⟨⟨y, hy⟩, ih hys⟩

theorem rawMapValue_items {n key : ℕ} {items : List (Bytes × Bytes)} (hkey : key < 2 ^ 64)
    (hcount : Holds 5 n items.length) (hitems : ∀ item ∈ items, Rewrites 15 item.1 item.2) :
    rawMapValue (head 5 n ++ (items.map Prod.fst).flatten) key =
      .ok ((itemUnder (head 0 key) items).map Prod.fst) := by
  have hpos : StandsAt (head 5 n ++ (items.map Prod.fst).flatten) 0 (head 5 n) := ⟨_, rfl⟩
  have hwhole : StandsAt (head 5 n ++ (items.map Prod.fst).flatten) 0
      (head 5 n ++ (items.map Prod.fst).flatten) := ⟨[], by simp⟩
  have hraw := rawEntries_items hkey (by decide) hitems hcount.entries
    (hpos.le_length (Nat.zero_le _)) (standsAt_append.mp hwhole).2 none
  rw [Nat.zero_add] at hraw
  rw [rawMapValue, hcount.header hpos, Nat.zero_add]
  simp only [hraw, ne_eq, not_true_eq_false, if_false, List.length_append, Option.none_or]

section Decoder

variable [Externals]

/-- The decoder reads the copy of every canonical item as what it means. -/
def ReadsCanonical (widen : Bytes → UInt64) : Prop :=
  ∀ w c, decodable w = .ok c → fromReader c = readWhole widen c

/-- The value of `raw`, with unassigned simple values read as undefined. -/
def ReadsAs (raw : Bytes) (value : Value) : Prop :=
  ∃ c, decodable raw = .ok c ∧ fromReader c = some value

/-- An accepted payload is a map, and the handlers are given the values of its items. -/
theorem items_of_requestParameters {widen : Bytes → UInt64} (hreader : ReadsCanonical widen)
    {payload : Bytes} {entries : Entries} (h : requestParameters payload = .ok entries) :
    ∃ n, ∃ items : List (Bytes × Bytes), ∃ values, payload = head 5 n ++ (items.map Prod.fst).flatten ∧
      Holds 5 n items.length ∧ (∀ item ∈ items, Item 15 item.1) ∧
      (∀ item ∈ items, Rewrites 15 item.1 item.2) ∧
      items.mapM (fun item => readWhole widen item.2) = some values ∧
      entries = pairUp values := by
  obtain ⟨c, hc, h⟩ := Outcome.bind_eq_ok.mp h
  have hrewrites : Rewrites (15 + 1) payload c := rewrites_of_decodable hc
  have hread : readWhole widen c = some (.map entries) := by
    rw [← hreader payload c hc]
    split at h
    · rename_i hmap
      cases h
      exact hmap
    · cases h
  cases hrewrites with
  | scalar hw =>
    obtain ⟨value, hvalue, hmap, -⟩ := readItem_scalar widen (item_rewrittenScalar hw)
    have hwhole := hvalue maxNesting []
    rw [List.append_nil] at hwhole
    rw [readWhole, hwhole] at hread
    cases value <;> simp only [Option.map_some, Option.map_none, reduceCtorEq] at hread
    exact absurd hread (hmap entries)
  | @container _ major n items hcount hcanonical hitems =>
    rw [readWhole_container widen hcount (by decide) hitems] at hread
    obtain ⟨values, hvalues, hmap⟩ := Option.map_eq_some_iff.mp hread
    unfold containerValue at hmap
    split at hmap
    · cases hmap
    · rename_i hmajor
      cases hmap
      obtain rfl : major = 5 := by
        rcases hcount.2 with ⟨h4, -⟩ | ⟨h5, -⟩
        · exact absurd h4 hmajor
        · exact h5
      exact ⟨n, items, values, rfl, hcount, hcanonical, hitems, hvalues, rfl⟩

/-- The slicer finds the bytes of the value the handlers find. -/
theorem rawMapValue_exact {widen : Bytes → UInt64} (hreader : ReadsCanonical widen)
    {payload : Bytes} {entries : Entries} (h : requestParameters payload = .ok entries) {key : ℕ}
    (hkey : key < 2 ^ 64) :
    ∃ found, rawMapValue payload key = .ok found ∧
      found.isSome = (mapGet entries (.int key)).isSome ∧
      ∀ raw ∈ found, ∃ value, mapGet entries (.int key) = some value ∧ ReadsAs raw value := by
  obtain ⟨n, items, values, rfl, hcount, hcanonical, hitems, hvalues, rfl⟩ :=
    items_of_requestParameters hreader h
  have hget := mapGet_items widen hkey (by decide) hitems hcount.entries hvalues
  refine ⟨_, rawMapValue_items hkey hcount hitems, ?_⟩
  rw [hget]
  cases hunder : itemUnder (head 0 key) items with
  | none => exact ⟨rfl, fun _ hraw => (nomatch hraw)⟩
  | some item =>
    have hmem := mem_of_itemUnder hunder
    obtain ⟨value, hvalue⟩ := exists_of_mapM hvalues item hmem
    have hdecodable := decodable_of_rewrites (by decide) (hcanonical item hmem) (hitems item hmem)
    refine ⟨by simp [hvalue], ?_⟩
    rintro raw ⟨⟩
    exact ⟨value, hvalue, item.2, hdecodable, by rw [hreader _ _ hdecodable, hvalue]⟩

/-- What the bytes of the parameters are read as. -/
def parametersOf (raw : Option Bytes) : Option Value :=
  raw.bind fun bytes => (decodable bytes).toOption.bind fromReader

def authorizeConfigFrom (entries : Entries) (raw : Option Bytes) (subcommand : ConfigSubcommand) :
    EngineM Status Unit := do
  let param ← okOr (mapGet entries (.int 4)) ctap2ErrPuatRequired
  let protocol ← Cmd.ofExcept (parseRequiredPinUvAuthProtocol (mapGet entries (.int 3)))
  let param ← Cmd.ofExcept param.asBytes
  verifyPinUvAuthParam protocol (List.replicate 32 0xff ++
    [ctapCmdAuthenticatorConfig, subcommand.byte] ++ raw.getD []) param
  ensurePermission permissionAcfg .authenticatorConfig

/-- authenticatorConfig over the bytes of its parameters: they end the message that is verified,
and what they are read as is run. -/
def configFrom (entries : Entries) (raw : Option Bytes) : EngineM Status Response := do
  refreshPersistentAuthority
  let subcommand ← Cmd.ofExcept (configSubcommand entries)
  let persistent ← Cmd.gets (·.pinState.persistent)
  Cmd.when (configNeedsToken persistent subcommand) (authorizeConfigFrom entries raw subcommand)
  let params ← Cmd.ofExcept (optionalMember Value.asMap (parametersOf raw))
  runConfig subcommand (params.getD [])
  return .ok

def beginManagementFrom (family : ManagementFamily) (entries : Entries) (raw : Option Bytes)
    (subcommand : ManagementSubcommand) (params : Option Entries) : EngineM Status Response := do
  let param ← okOr (mapGet entries (.int 4)) ctap2ErrPuatRequired
  if missesParameter subcommand params then Cmd.fail ctap2ErrMissingParameter
  else
    let param ← Cmd.ofExcept param.asBytes
    let protocol ← Cmd.ofExcept (parseRequiredPinUvAuthProtocol (mapGet entries (.int 3)))
    refreshPersistentAuthority
    let auth ← authenticateManagement family subcommand params protocol
      (subcommand.byte :: if subcommand.authenticatesParameters then raw.getD [] else []) param
    enterContext auth
    runManagement subcommand params auth

def managementRequestFrom (entries : Entries) (raw : Option Bytes) :
    Except Status (ManagementSubcommand × Option Entries) := do
  let number ← (← required entries (.int 1)).asInteger
  match ManagementSubcommand.ofInteger number with
  | none => .error ctap2ErrInvalidSubcommand
  | some subcommand => return (subcommand, ← optionalMember Value.asMap (parametersOf raw))

/-- authenticatorCredentialManagement over the bytes of its parameters. -/
def managementFrom (family : ManagementFamily) (entries : Entries) (raw : Option Bytes) :
    EngineM Status Response := do
  enterFamily family
  let (subcommand, params) ← Cmd.ofExcept (managementRequestFrom entries raw)
  match subcommand with
  | .enumerateRpsGetNextRp =>
    refreshForContinuation
    respondWith (.entries (canonicalMap (← cmEnumerateRpsNext family)))
  | .enumerateCredentialsGetNextCredential =>
    refreshForContinuation
    respondWith (.entries (canonicalMap (← cmEnumerateCredentialsNext family)))
  | subcommand => beginManagementFrom family entries raw subcommand params

section Handlers

variable {payload : Bytes} {entries : Entries} {raw : Option Bytes}
  (hraw : rawMapValue payload 2 = .ok raw)

include hraw

theorem authorizeConfig_eq (subcommand : ConfigSubcommand) :
    authorizeConfig payload entries subcommand = authorizeConfigFrom entries raw subcommand := by
  unfold authorizeConfig configAuth authorizeConfigFrom
  rw [hraw]
  cases mapGet entries (.int 4) with
  | none => rfl
  | some param =>
    cases parseRequiredPinUvAuthProtocol (mapGet entries (.int 3)) with
    | error status => rfl
    | ok protocol => cases param <;> rfl

theorem beginManagement_eq (family : ManagementFamily) (subcommand : ManagementSubcommand)
    (params : Option Entries) : beginManagement family payload entries subcommand params =
      beginManagementFrom family entries raw subcommand params := by
  have hmessage : managementMessage payload subcommand = .ok (subcommand.byte ::
      if subcommand.authenticatesParameters then raw.getD [] else []) := by
    rw [managementMessage, hraw]
    split <;> rfl
  unfold beginManagement managementAuth beginManagementFrom
  rw [hmessage]
  cases hparam : mapGet entries (.int 4) with
  | none => rfl
  | some param =>
    cases missesParameter subcommand params with
    | true => rfl
    | false =>
      unfold parsePinUvAuthParam
      cases parseRequiredPinUvAuthProtocol (mapGet entries (.int 3)) with
      | error | ok => cases param <;> rfl

variable (haccepted : requestParameters payload = .ok entries)
  (hread : parametersOf raw = mapGet entries (.int 2))

include haccepted hread

theorem handleAuthenticatorConfig_eq :
    handleAuthenticatorConfig payload = configFrom entries raw := by
  unfold handleAuthenticatorConfig configFrom
  rw [haccepted, hread]
  simp only [← authorizeConfig_eq hraw]
  rfl

theorem handleCredentialManagement_eq (family : ManagementFamily) :
    handleCredentialManagement family payload = managementFrom family entries raw := by
  have hrequest : managementRequestFrom entries raw = managementRequest entries := by
    rw [managementRequestFrom, hread]
    rfl
  unfold handleCredentialManagement managementFrom
  rw [haccepted, hrequest]
  simp only [← beginManagement_eq hraw]
  rfl

end Handlers

/-- The slicer finds a value exactly if the handlers do, and its bytes are read as that value.
So a configuration or management request is handled as one that is given the bytes of its
parameters: those that are verified are those that are read and run. -/
theorem authenticated_bytes_acted_on {widen : Bytes → UInt64} (hreader : ReadsCanonical widen)
    {payload : Bytes} {entries : Entries} (haccepted : requestParameters payload = .ok entries) :
    (∀ key < 2 ^ 64, ∃ found, rawMapValue payload key = .ok found ∧
      found.isSome = (mapGet entries (.int key)).isSome ∧
      ∀ raw ∈ found, ∃ value, mapGet entries (.int key) = some value ∧ ReadsAs raw value) ∧
    ∃ raw, rawMapValue payload 2 = .ok raw ∧ parametersOf raw = mapGet entries (.int 2) ∧
      handleAuthenticatorConfig payload = configFrom entries raw ∧
      ∀ family, handleCredentialManagement family payload = managementFrom family entries raw := by
  obtain ⟨raw, hraw, hsome, hreads⟩ :=
    rawMapValue_exact hreader haccepted (show 2 < 2 ^ 64 by decide)
  have hread : parametersOf raw = mapGet entries (.int 2) := by
    cases raw with
    | none => exact (Option.not_isSome_iff_eq_none.mp (ne_true_of_eq_false hsome.symm)).symm
    | some bytes =>
      obtain ⟨value, hvalue, c, hc, hreads⟩ := hreads bytes rfl
      refine .trans ?_ hvalue.symm
      simp [parametersOf, hc, hreads, Except.toOption]
  exact ⟨fun key hkey => rawMapValue_exact hreader haccepted hkey, raw, hraw, hread,
    handleAuthenticatorConfig_eq hraw haccepted hread,
    handleCredentialManagement_eq hraw haccepted hread⟩

end Decoder

@[reducible] def readingBench : Externals :=
  { Externals.bench [] with fromReader := readWhole fun _ => 0 }

/-- setMinPINLength with a minimum of 8, and an unassigned simple value under a key that means
nothing. -/
def minimumPayload : Bytes :=
  [0xa4, 0x01, 0x03, 0x02, 0xa2, 0x01, 0x08, 0x09, 0xe1, 0x03, 0x02, 0x04, 0x58, 0x20] ++
    List.replicate 32 0

theorem authenticated_bytes_acted_on_minimum : ∃ entries,
    rawMapValue minimumPayload 2 = .ok (some [0xa2, 0x01, 0x08, 0x09, 0xe1]) ∧
      mapGet entries (.int 2) = some (.map [(.integer 1, .integer 8), (.integer 9, .null)]) ∧
      @handleAuthenticatorConfig readingBench minimumPayload =
        @configFrom readingBench entries (some [0xa2, 0x01, 0x08, 0x09, 0xe1]) := by
  let _ := readingBench
  have haccepted : requestParameters minimumPayload = .ok [(.integer 1, .integer 3),
    (.integer 2, .map [(.integer 1, .integer 8), (.integer 9, .null)]), (.integer 3, .integer 2),
    (.integer 4, .bytes (List.replicate 32 0))] := rfl
  have hraw : rawMapValue minimumPayload 2 = .ok (some [0xa2, 0x01, 0x08, 0x09, 0xe1]) := rfl
  obtain ⟨-, raw, hraw', -, hconfig, -⟩ :=
    @authenticated_bytes_acted_on _ (fun _ => 0) (fun _ _ _ => rfl) _ _ haccepted
  rw [hraw] at hraw'
  cases hraw'
  exact ⟨_, hraw, rfl, hconfig⟩

end SoftwareAuthenticator.Ctap
