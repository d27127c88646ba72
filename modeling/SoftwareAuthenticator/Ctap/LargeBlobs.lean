import SoftwareAuthenticator.Ctap.GetAssertion

/-!
# authenticatorLargeBlobs

The serialized large-blob array is read in fragments, and written in fragments that
are collected in the engine until the last one has come.
-/

namespace SoftwareAuthenticator.Ctap

variable [Externals]

def ctapCmdLargeBlobs : UInt8 := 0x0C

def maxMsgSize : ℕ := 57 + 29 * 59
def maxFragmentLength : ℕ := maxMsgSize - 64
def largeBlobWriteTimeout : Duration := seconds 30
def maxSerializedLargeBlobArray : ℕ := 16384

/-- The empty array and its truncated hash. -/
def initialLargeBlobArray : Bytes :=
  [0x80, 0x76, 0xbe, 0x8b, 0x52, 0x8d, 0x00, 0x75, 0xf7, 0xaa, 0xe9, 0x8d, 0x6f, 0xa5, 0x7a, 0x6d,
    0x3c]

/-- `validate_large_blob_array(..).is_ok()`. -/
def validLargeBlobArray (array : Bytes) : Bool :=
  17 ≤ array.length ∧ array.length ≤ maxSerializedLargeBlobArray ∧
    (sha256 (array.take (array.length - 16))).take 16 = array.drop (array.length - 16)

def unsignedParameter (value : Value) : Except Status ℕ := do
  match unsignedOf 64 (← value.asInteger) with
  | some n => .ok n
  | none => .error ctap1ErrInvalidParameter

def requiredUnsigned (value : Option Value) : Except Status ℕ :=
  match value with
  | some value => unsignedParameter value
  | none => .error ctap1ErrInvalidParameter

def discardLargeBlobState {ε : Type} : EngineM ε Unit := setLargeBlobState .initial

/-- Whether the token a write began with is no longer in use. -/
def largeBlobTokenChanged {ε : Type} (token : Option UInt64) : EngineM ε Bool := do
  if token.isSome then return token ≠ (← pinUvAuthTokenId) else return false

/-- Every command first ends a write that is not continued, or no longer may be. -/
def observeLargeBlobState {ε : Type} (command : Option UInt8) : EngineM ε Unit := do
  let time ← now
  let state ← Cmd.gets (·.largeBlobState)
  let expired := state.lastFragment.any fun last => largeBlobWriteTimeout ≤ time - last
  let tokenChanged ← largeBlobTokenChanged state.token
  Cmd.when (command ≠ some ctapCmdLargeBlobs ∨ expired ∨ tokenChanged) discardLargeBlobState

/-- The checks of a get request: how many bytes it asks for. -/
def getLength (map : Entries) (get : Value) : Except Status ℕ := do
  if (mapGet map (.int 4)).isSome then .error ctap1ErrInvalidParameter
  else if (mapGet map (.int 5)).isSome ∨ (mapGet map (.int 6)).isSome then
    .error ctap1ErrInvalidParameter
  else
    let length ← unsignedParameter get
    if maxFragmentLength < length then .error ctap1ErrInvalidLength else .ok length

def readLargeBlobs (map : Entries) (get : Value) (offset : ℕ) : EngineM Status Response := do
  let length ← Cmd.ofExcept (getLength map get)
  let array := match ← storeAsk .largeBlobArray with
    | .ok array => array
    | .error _ => initialLargeBlobArray
  if array.length < offset then Cmd.fail ctap1ErrInvalidParameter
  else respondWith (.entries (.map [(.integer 1, .bytes ((array.drop offset).take length))]))

def leBytes32 (n : UInt32) : Bytes := (beBytes32 n).reverse

def fragmentMessage (offset : ℕ) (fragment : Bytes) : Bytes :=
  List.replicate 32 0xff ++ [ctapCmdLargeBlobs, 0] ++ leBytes32 (UInt32.ofNat offset) ++
    sha256 fragment

def announcedLength (map : Entries) : Except Status ℕ := do
  let length ← requiredUnsigned (mapGet map (.int 4))
  if maxSerializedLargeBlobArray < length then .error ctap2ErrLargeBlobStorageFull
  else if length < 17 then .error ctap1ErrInvalidParameter
  else .ok length

/-- A first fragment starts a new write; a later one must follow the last. -/
def beginFragment (map : Entries) (offset : ℕ) : EngineM Status Unit := do
  if offset = 0 then
    let length ← Cmd.ofExcept (announcedLength map)
    let state ← Cmd.gets (·.largeBlobState)
    setLargeBlobState { state with expectedLength := length, expectedNextOffset := 0 }
  else if (mapGet map (.int 4)).isSome then Cmd.fail ctap1ErrInvalidParameter
  else pure ()

def fragmentAuth (map : Entries) : Except Status (PinProtocol × Bytes) := do
  match mapGet map (.int 5) with
  | none => .error ctap2ErrPuatRequired
  | some auth =>
    let protocol ← parseRequiredPinUvAuthProtocol (mapGet map (.int 6))
    return (protocol, ← auth.asBytes)

def authorizeFragment (map : Entries) (offset : ℕ) (fragment : Bytes) : EngineM Status Unit := do
  let (protocol, auth) ← Cmd.ofExcept (fragmentAuth map)
  if 2 ^ 32 ≤ offset then Cmd.fail ctap1ErrInvalidParameter
  else
    verifyPinUvAuthParam protocol (fragmentMessage offset fragment) auth
    ensurePermission permissionLbw .largeBlobWrite

def writeToken (authenticated : Bool) : EngineM Status (Option UInt64) :=
  if authenticated then pinUvAuthTokenId else pure none

/-- The state a fragment is appended to: a first one starts with an empty buffer. -/
def writeState (authenticated : Bool) (offset : ℕ) : EngineM Status LargeBlobState := do
  let state ← Cmd.gets (·.largeBlobState)
  if offset = 0 then
    let token ← writeToken authenticated
    return { state with buffer := [], token }
  else return state

/-- Append a fragment, with the token of the write if it is the first. -/
def collectFragment (authenticated : Bool) (offset : ℕ) (fragment : Bytes) :
    EngineM Status LargeBlobState := do
  let state ← writeState authenticated offset
  let buffer := state.buffer ++ fragment
  let time ← now
  let state :=
    { state with buffer, expectedNextOffset := buffer.length, lastFragment := some time }
  setLargeBlobState state
  return state

def commitLargeBlobs (state : LargeBlobState) : EngineM Status Unit := do
  if state.expectedNextOffset = state.expectedLength then
    if validLargeBlobArray state.buffer then orStatus (storeAsk (.setLargeBlobArray state.buffer))
    else
      discardLargeBlobState
      Cmd.fail ctap2ErrIntegrityFailure
  else pure ()

def writeFragment (map : Entries) (offset : ℕ) (fragment : Bytes) : EngineM Status Response := do
  if maxFragmentLength < fragment.length then Cmd.fail ctap1ErrInvalidLength
  else
    beginFragment map offset
    let expected ← Cmd.gets (·.largeBlobState)
    if offset ≠ expected.expectedNextOffset then
      discardLargeBlobState
      Cmd.fail ctap1ErrInvalidSeq
    else
      let persistent ← Cmd.gets (·.pinState.persistent)
      let authenticated := persistent.pinHash.isSome || persistent.alwaysUv
      Cmd.when authenticated (authorizeFragment map offset fragment)
      let stop := offset + fragment.length
      if 2 ^ 64 ≤ stop ∨ expected.expectedLength < stop then Cmd.fail ctap1ErrInvalidParameter
      else
        let state ← collectFragment authenticated offset fragment
        commitLargeBlobs state
        return .ok

def orDiscardWrite {α : Type} (x : Except Status α) : EngineM Status α := do
  match x with
  | .ok a => pure a
  | .error status =>
    discardLargeBlobState
    Cmd.fail status

/-- Read or write, by which of the two parameters is there. -/
def largeBlobs (map : Entries) (offset : ℕ) : EngineM Status Response := do
  match mapGet map (.int 1), mapGet map (.int 2) with
  | some get, none => readLargeBlobs map get offset
  | none, some (.bytes fragment) => writeFragment map offset fragment
  | none, some _ =>
    discardLargeBlobState
    Cmd.fail ctap2ErrCborUnexpectedType
  | _, _ => Cmd.fail ctap1ErrInvalidParameter

def continuesWrite (map : Entries) : Bool :=
  (mapGet map (.int 1)).isNone ∧ (mapGet map (.int 2)).isSome ∧ (mapGet map (.int 3)).isSome

def handleLargeBlobs (payload : Bytes) : EngineM Status Response := do
  observeLargeBlobState (some ctapCmdLargeBlobs)
  let map ← orDiscardWrite (requestParameters payload)
  Cmd.when (!continuesWrite map) discardLargeBlobState
  let offset ← orDiscardWrite (requiredUnsigned (mapGet map (.int 3)))
  largeBlobs map offset

end SoftwareAuthenticator.Ctap
