import SoftwareAuthenticator.Ctap.Value

/-!
# The encoded form of requests

A request must be one data item in the CTAP2 canonical form before it is decoded. Positions are
indices into the payload. The recursion follows the nesting, which the source bounds by
`MAX_NESTING`.
-/

namespace SoftwareAuthenticator.Ctap

def maxNesting : ℕ := 16

/-- `for _ in 0..n { pos = item(pos)?; }`. -/
def iterate (item : ℕ → Option ℕ) : ℕ → ℕ → Option ℕ
  | 0, pos => some pos
  | n + 1, pos => (item pos).bind (iterate item n)

def argumentOf (raw : Bytes) : ℕ := raw.foldl (fun acc byte => acc * 256 + byte.toNat) 0

def header (bytes : Bytes) (pos : ℕ) : Option (ℕ × ℕ × ℕ) := do
  let initial ← bytes[pos]?
  let major := initial.toNat / 32
  let info := initial.toNat % 32
  if info ≤ 23 then return (major, info, pos + 1)
  else if info ≤ 27 then
    let size := 2 ^ (info - 24)
    let raw ← slice bytes (pos + 1) (pos + 1 + size)
    return (major, argumentOf raw, pos + 1 + size)
  else none

def stringEnd (bytes : Bytes) (pos argument : ℕ) : Option ℕ :=
  if pos + argument ≤ bytes.length then some (pos + argument) else none

def checkedDouble (argument : ℕ) : Option ℕ :=
  if argument * 2 < 2 ^ 64 then some (argument * 2) else none

/-- `item_end` with `MAX_NESTING + 1 - depth` levels left. -/
def itemEnd (bytes : Bytes) : ℕ → ℕ → Option ℕ
  | 0, _ => none
  | levels + 1, pos =>
    match header bytes pos with
    | none => none
    | some (major, argument, stop) =>
      if major = 0 ∨ major = 1 ∨ major = 7 then some stop
      else if major = 2 ∨ major = 3 then stringEnd bytes stop argument
      else if major = 4 then iterate (itemEnd bytes levels) argument stop
      else if major = 5 then
        (checkedDouble argument).bind fun items => iterate (itemEnd bytes levels) items stop
      else itemEnd bytes levels stop

def isUnsignedKey (bytes : Bytes) (pos keyEnd key : ℕ) : Bool :=
  match header bytes pos with
  | some (major, argument, stop) => major = 0 ∧ argument = key ∧ stop = keyEnd
  | none => false

/-- The entries of `raw_map_value`'s loop: the value found so far and the position. -/
def rawEntries (bytes : Bytes) (key : ℕ) :
    ℕ → ℕ → Option Bytes → Option (ℕ × Option Bytes)
  | 0, pos, found => some (pos, found)
  | n + 1, pos, found => do
    let keyEnd ← itemEnd bytes maxNesting pos
    let valueEnd ← itemEnd bytes maxNesting keyEnd
    let found :=
      if isUnsignedKey bytes pos keyEnd key ∧ found = none then slice bytes keyEnd valueEnd
      else found
    rawEntries bytes key n valueEnd found

/-- The value under `key` exactly as received; an error for anything but one
definite-length map. -/
def rawMapValue (bytes : Bytes) (key : ℕ) : Except Status (Option Bytes) :=
  match header bytes 0 with
  | none => .error ctap2ErrInvalidCbor
  | some (major, entries, start) =>
    if major ≠ 5 then .error ctap2ErrInvalidCbor
    else
      match rawEntries bytes key entries start none with
      | none => .error ctap2ErrInvalidCbor
      | some (pos, found) =>
        if pos ≠ bytes.length then .error ctap2ErrInvalidCbor else .ok found

def lexOrder : Bytes → Bytes → Ordering
  | [], [] => .eq
  | [], _ :: _ => .lt
  | _ :: _, [] => .gt
  | a :: as, b :: bs => (compare a.toNat b.toNat).then (lexOrder as bs)

def canonicalKeyOrder (left right : Bytes) : Ordering :=
  (compare (left.headD 0 >>> 5).toNat (right.headD 0 >>> 5).toNat).then
    ((compare left.length right.length).then (lexOrder left right))

def isShortest (major info argument : ℕ) : Bool :=
  if info = 24 then (if major = 7 then 32 ≤ argument else 24 ≤ argument)
  else if info = 25 then 0xff < argument
  else if info = 26 then 0xffff < argument
  else if info = 27 then 0xffffffff < argument
  else true

def canonicalEntries (bytes : Bytes) (item : ℕ → Option ℕ) :
    ℕ → ℕ → Option Bytes → Option ℕ
  | 0, pos, _ => some pos
  | n + 1, pos, previous => do
    let keyEnd ← item pos
    let key := (bytes.drop pos).take (keyEnd - pos)
    if previous.any fun p => (canonicalKeyOrder p key).isGE then none
    else
      let valueEnd ← item keyEnd
      canonicalEntries bytes item n valueEnd (some key)

/-- What a data item other than a container ends at, if it is canonical. The
containers are left to the caller. -/
def canonicalScalarEnd (bytes : Bytes) (major argument stop : ℕ) : Option ℕ :=
  if major = 0 ∨ major = 1 ∨ major = 7 then some stop
  else if major = 2 ∨ major = 3 then stringEnd bytes stop argument
  else none

/-- The end of the float at `pos`, whose size is part of its value. -/
def floatEnd (bytes : Bytes) (pos info : ℕ) : Option ℕ :=
  let stop := pos + 1 + 2 ^ (info - 24)
  if stop ≤ bytes.length then some stop else none

/-- `canonical_item_end` with `MAX_NESTING - depth` levels of containers left. -/
def canonicalItemEnd (bytes : Bytes) (levels pos : ℕ) : Option ℕ :=
  match bytes[pos]? with
  | none => none
  | some initial =>
    let major := initial.toNat / 32
    let info := initial.toNat % 32
    if major = 7 ∧ 25 ≤ info ∧ info ≤ 27 then floatEnd bytes pos info
    else
      match header bytes pos with
      | none => none
      | some (_, argument, stop) =>
        if isShortest major info argument = false then none
        else
          match levels with
          | 0 => canonicalScalarEnd bytes major argument stop
          | levels + 1 =>
            if major = 4 then iterate (canonicalItemEnd bytes levels) argument stop
            else if major = 5 then
              canonicalEntries bytes (canonicalItemEnd bytes levels) argument stop none
            else canonicalScalarEnd bytes major argument stop
  termination_by structural levels

def undefinedByte : UInt8 := 0xF7

/-- `for _ in 0..n` with the bytes written so far. -/
def iterateCopy (item : ℕ → Option (ℕ × Bytes)) : ℕ → ℕ → Bytes → Option (ℕ × Bytes)
  | 0, pos, out => some (pos, out)
  | n + 1, pos, out => do
    let (stop, copied) ← item pos
    iterateCopy item n stop (out ++ copied)

/-- The position after the item at `pos` and the item's bytes with every unassigned
simple value replaced by `undefined`. -/
def copyWithUnassignedSimpleValuesUndefined (bytes : Bytes) : ℕ → ℕ → Option (ℕ × Bytes)
  | 0, _ => none
  | levels + 1, pos =>
    match header bytes pos with
    | none => none
    | some (major, argument, stop) =>
      let info := (bytes.getD pos 0).toNat % 32
      let copy := copyWithUnassignedSimpleValuesUndefined bytes levels
      if major = 7 ∧ (info < 20 ∨ info = 24) then some (stop, [undefinedByte])
      else if major = 4 then iterateCopy copy argument stop ((bytes.drop pos).take (stop - pos))
      else if major = 5 then
        (checkedDouble argument).bind fun items =>
          iterateCopy copy items stop ((bytes.drop pos).take (stop - pos))
      else
        (itemEnd bytes (maxNesting + 1) pos).map fun stop =>
          (stop, (bytes.drop pos).take (stop - pos))

/-- The bytes handed to the decoder: `payload` must be one canonical item. -/
def decodable (payload : Bytes) : Except Status Bytes :=
  if canonicalItemEnd payload maxNesting 0 ≠ some payload.length then .error ctap2ErrInvalidCbor
  else
    match copyWithUnassignedSimpleValuesUndefined payload (maxNesting + 1) 0 with
    | none => .error ctap2ErrInvalidCbor
    | some (stop, copied) =>
      if stop ≠ payload.length then .error ctap2ErrInvalidCbor else .ok copied

end SoftwareAuthenticator.Ctap
