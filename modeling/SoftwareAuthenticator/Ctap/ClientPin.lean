import SoftwareAuthenticator.Ctap.Response

/-!
# authenticatorClientPIN

In `verifyPinHashEnc` the decremented counter is written and must be confirmed before the
candidate is compared, and the restored one before anything is granted.
-/

namespace SoftwareAuthenticator.Ctap

variable [Externals]

def keyAgreementKeyAttempts : ℕ := 8

def drawKeyAgreementKey : ℕ → EngineM Status Bytes
  | 0 => Cmd.fail ctap2ErrProcessing
  | n + 1 => do
    let bytes ← randomArray 32
    if Externals.p256SecretValid bytes then return bytes else drawKeyAgreementKey n

def keyAgreementKey (protocol : PinProtocol) : EngineM Status Bytes := do
  match ← Cmd.gets (·.pinState.keyAgreement.slot protocol) with
  | some key => return key
  | none =>
    let key ← drawKeyAgreementKey keyAgreementKeyAttempts
    modifyPinState fun state =>
      { state with keyAgreement := state.keyAgreement.setSlot (some key) protocol }
    return key

def decapsulate (protocol : PinProtocol) (platformKey : Entries) :
    EngineM Status PinUvSessionKeys := do
  let key ← keyAgreementKey protocol
  Cmd.ofExcept (keyDecapsulate key protocol platformKey)

def encryptForPlatform (protocol : PinProtocol) (keys : PinUvSessionKeys) (plaintext : Bytes) :
    EngineM Status Bytes := do
  match protocol with
  | .v1 => okOr (encryptPinBlock .v1 keys none plaintext) ctap2ErrProcessing
  | .v2 =>
    let iv ← randomArray 16
    okOr (encryptPinBlock .v2 keys (some iv) plaintext) ctap2ErrProcessing

def paddedPinLength : ℕ := 64
def maxPinBytes : ℕ := 63

def dropTrailingZeros (padded : Bytes) : Bytes := (padded.reverse.dropWhile (· = 0)).reverse

def isAsciiAlphabetic (byte : UInt8) : Bool :=
  (0x41 ≤ byte ∧ byte ≤ 0x5a) ∨ (0x61 ≤ byte ∧ byte ≤ 0x7a)

def isAsciiDigit (byte : UInt8) : Bool := 0x30 ≤ byte ∧ byte ≤ 0x39

def decodeNewPin (padded : Bytes) (minimum : ℕ) (complexity : Bool) :
    Except Status (Bytes × ℕ) :=
  if padded.length ≠ paddedPinLength then .error ctap1ErrInvalidParameter
  else
    let newPin := dropTrailingZeros padded
    if maxPinBytes < newPin.length then .error ctap2ErrPinPolicyViolation
    else
      match fromUtf8 newPin with
      | none => .error ctap2ErrPinPolicyViolation
      | some text =>
        if text.length < minimum ∨ (complexity = true ∧
            (newPin.any isAsciiAlphabetic = false ∨ newPin.any isAsciiDigit = false)) then
          .error ctap2ErrPinPolicyViolation
        else .ok (newPin, text.length)

/-- The hash to store for newPinEnc, and the PIN's length. The PIN itself goes along for the
mark that `storeNewPin` leaves. -/
def newPinHash (protocol : PinProtocol) (keys : PinUvSessionKeys) (newPinEnc : Bytes) :
    EngineM Status (Bytes × Bytes × ℕ) := do
  let padded ← okOr (decrypt protocol keys newPinEnc) ctap2ErrPinAuthInvalid
  let policy ← Cmd.gets (·.pinState.persistent)
  let (newPin, length) ←
    Cmd.ofExcept (decodeNewPin padded policy.minPinLength policy.pinComplexityPolicy)
  return (newPin, pinHash newPin, length)

/-- Publication alone cannot confirm a spent or restored retry. -/
def requireConfirmedRetry : CommitDurability → EngineM Status Unit
  | .unconfirmed => Cmd.fail ctap2ErrProcessing
  | .flushed | .volatile => pure ()

def adoptRetryState (state : PinRetryState) : EngineM Status Unit :=
  modifyPinState fun pinState => { pinState with pin := state }

/-- The first half of the check: the spent retry is written, adopted and confirmed. -/
def debitRetry : EngineM Status Unit := do
  let pin ← Cmd.gets (·.pinState.pin)
  observePhase (.attempt pin.persistent)
  let debited ← Cmd.ofExcept pin.beginAttempt
  if ← unsupportedDirectoryFlush then Cmd.fail ctap2ErrProcessing
  else
    let durability ← savePinState debited.persistent
    adoptRetryState debited
    requireConfirmedRetry durability

/-- The second half: the candidate is decrypted and compared, and the outcome is
written. A mismatch is adopted before the write, a match only after it. -/
def compareCandidate (protocol : PinProtocol) (keys : PinUvSessionKeys) (pinHashEnc : Bytes) :
    EngineM Status Unit := do
  observePhase .decryption
  let candidate := decrypt protocol keys pinHashEnc
  let pin ← Cmd.gets (·.pinState.pin)
  observePhase (.comparison pin.persistent.pinHash candidate)
  match pin.finishAttempt candidate with
  | (.error status, completed) =>
    adoptRetryState completed
    modifyPinState fun state =>
      { state with keyAgreement := state.keyAgreement.regenerate protocol }
    requireConfirmedRetry (← savePersistentPinState)
    Cmd.fail status
  | (.ok (), completed) =>
    let durability ← savePinState completed.persistent
    adoptRetryState completed
    requireConfirmedRetry durability

def verifyPinHashEnc (protocol : PinProtocol) (keys : PinUvSessionKeys) (pinHashEnc : Bytes) :
    EngineM Status Unit := do
  refreshPersistentAuthority
  debitRetry
  compareCandidate protocol keys pinHashEnc

inductive ClientPinSubcommand where
  | getPinRetries
  | getKeyAgreement
  | setPin
  | changePin
  | getPinToken
  | getPinUvAuthTokenUsingPinWithPermissions
  deriving DecidableEq, Repr

def ClientPinSubcommand.parse : Option Value → Except Status ClientPinSubcommand
  | some (.integer number) =>
    if number = 1 then .ok .getPinRetries
    else if number = 2 then .ok .getKeyAgreement
    else if number = 3 then .ok .setPin
    else if number = 4 then .ok .changePin
    else if number = 5 then .ok .getPinToken
    else if number = 9 then .ok .getPinUvAuthTokenUsingPinWithPermissions
    else .error ctap2ErrInvalidSubcommand
  | some _ => .error ctap2ErrCborUnexpectedType
  | none => .error ctap2ErrMissingParameter

def clientPinGetRetries : EngineM Status Response := do
  let pin ← Cmd.gets (·.pinState.pin)
  let retries : Entries := [(.integer 3, .integer pin.persistent.pinRetries)]
  let powerCycle : Entries := if pin.powerCycleRequired then [(.integer 4, .bool true)] else []
  respondWith (.entries (canonicalMap (retries ++ powerCycle)))

def clientPinGetKeyAgreement (protocol : PinProtocol) : EngineM Status Response := do
  let key ← keyAgreementKey protocol
  respondWith (.entries (canonicalMap [(.integer 1, keyAgreementCoseKey key)]))

/-- The tail of setPIN and changePIN: a new PIN is in force once it is published, and
no older token is. -/
def storeNewPin (pin hash : Bytes) (length : ℕ) : EngineM Status Unit := do
  let state ← Cmd.gets (·.pinState)
  let persistent := { state.persistent with
    pinHash := some hash
    pinRetries := maxPinRetries
    pinCodePointLength := length
    forcePinChange := false }
  let persistent ← rotatePersistentTokensIf state.isSet persistent
  observePhase (.newPin pin)
  let _ ← savePinState persistent
  clearCredMgmt
  modifyPinState fun state => (state.setPin hash).adoptPersistent persistent

structure SetPinParameters where
  keyAgreement : Entries
  pinAuthParam : Bytes
  newPinEnc : Bytes
  protocol : PinProtocol

def setPinParameters (map : Entries) : Except Status SetPinParameters := do
  let keyAgreement ← requiredMap map 3
  let pinAuthParam ← requiredBytes map 4
  let newPinEnc ← requiredBytes map 5
  let protocol ← parseRequiredPinUvAuthProtocol (mapGet map (.int 1))
  return { keyAgreement, pinAuthParam, newPinEnc, protocol }

def clientPinSetPin (map : Entries) : EngineM Status Response := do
  let p ← Cmd.ofExcept (setPinParameters map)
  if ← Cmd.gets (·.pinState.isSet) then Cmd.fail ctap2ErrPinAuthInvalid
  else
    let keys ← decapsulate p.protocol p.keyAgreement
    Cmd.ofExcept (verify p.protocol keys.authKey p.newPinEnc p.pinAuthParam)
    let (pin, hash, length) ← newPinHash p.protocol keys p.newPinEnc
    if ← unsupportedDirectoryFlush then Cmd.fail ctap2ErrProcessing
    else
      storeNewPin pin hash length
      return .ok

structure ChangePinParameters where
  keyAgreement : Entries
  pinAuthParam : Bytes
  newPinEnc : Bytes
  pinHashEnc : Bytes
  protocol : PinProtocol

def changePinParameters (map : Entries) : Except Status ChangePinParameters := do
  let keyAgreement ← requiredMap map 3
  let pinAuthParam ← requiredBytes map 4
  let newPinEnc ← requiredBytes map 5
  let pinHashEnc ← requiredBytes map 6
  let protocol ← parseRequiredPinUvAuthProtocol (mapGet map (.int 1))
  return { keyAgreement, pinAuthParam, newPinEnc, pinHashEnc, protocol }

/-- A forced change to the PIN that is already set. -/
def repeatsForcedPin (persistent : PersistentPinState) (hash : Bytes) : Bool :=
  persistent.forcePinChange ∧ persistent.pinHash = some hash

def clientPinChangePin (map : Entries) : EngineM Status Response := do
  let p ← Cmd.ofExcept (changePinParameters map)
  Cmd.ofExcept (← Cmd.gets (·.pinState.pin)).checkAttemptAllowed
  let keys ← decapsulate p.protocol p.keyAgreement
  Cmd.ofExcept (verify p.protocol keys.authKey (p.newPinEnc ++ p.pinHashEnc) p.pinAuthParam)
  verifyPinHashEnc p.protocol keys p.pinHashEnc
  let (pin, hash, length) ← newPinHash p.protocol keys p.newPinEnc
  if repeatsForcedPin (← Cmd.gets (·.pinState.persistent)) hash then
    Cmd.fail ctap2ErrPinPolicyViolation
  else
    storeNewPin pin hash length
    return .ok

/-- The persistent token of `protocol`, with a fresh secret if there is none yet. -/
def persistentTokenFor (protocol : PinProtocol) (tokens : PersistentTokens) :
    EngineM Status PersistentTokenRecord := do
  match tokens.get protocol with
  | some token => return token
  | none => return ⟨← freshTokenSecret tokens.secrets true, false⟩

def grantPersistentToken (protocol : PinProtocol) (keys : PinUvSessionKeys) :
    EngineM Status Bytes := do
  let persistent ← Cmd.gets (·.pinState.persistent)
  let token ← persistentTokenFor protocol persistent.persistentTokens
  let encrypted ← encryptForPlatform protocol keys token.secret
  let persistent := { persistent with
    persistentTokens := persistent.persistentTokens.set { token with granted := true } protocol }
  let durability ← savePinState persistent
  modifyPinState (·.adoptPersistent persistent)
  clearCredMgmt
  requireConfirmedRetry durability
  return encrypted

def issueTransientToken (protocol : PinProtocol) (keys : PinUvSessionKeys) (grant : TokenGrant) :
    EngineM Status Bytes := do
  let tokens ← Cmd.gets (·.pinState.persistent.persistentTokens)
  let token ← freshTokenSecret tokens.secrets false
  let encrypted ← encryptForPlatform protocol keys token
  issuePinUvAuthToken protocol token grant
  clearCredMgmt
  return encrypted

def grantToken (protocol : PinProtocol) (keys : PinUvSessionKeys) (grant : TokenGrant) :
    EngineM Status Bytes :=
  if grant.permissions = permissionPcmr then grantPersistentToken protocol keys
  else issueTransientToken protocol keys grant

def clientPinGetTokenCommon (protocol : PinProtocol) (keyAgreement : Entries)
    (pinHashEnc : Bytes) (grant : TokenGrant) (forceChangeError : Status) :
    EngineM Status Response := do
  Cmd.ofExcept (← Cmd.gets (·.pinState.pin)).checkAttemptAllowed
  refreshPersistentAuthority
  let keys ← decapsulate protocol keyAgreement
  verifyPinHashEnc protocol keys pinHashEnc
  if ← Cmd.gets (·.pinState.persistent.forcePinChange) then Cmd.fail forceChangeError
  else
    let encrypted ← grantToken protocol keys grant
    respondWith (.entries (canonicalMap [(.integer 2, .bytes encrypted)]))

structure GetTokenParameters where
  keyAgreement : Entries
  pinHashEnc : Bytes

def getTokenParameters (map : Entries) : Except Status GetTokenParameters := do
  let keyAgreement ← requiredMap map 3
  let pinHashEnc ← requiredBytes map 6
  return { keyAgreement, pinHashEnc }

def getPinTokenParameters (map : Entries) : Except Status (GetTokenParameters × PinProtocol) := do
  let p ← getTokenParameters map
  let protocol ← parseRequiredPinUvAuthProtocol (mapGet map (.int 1))
  if (mapGet map (.int 9)).isSome ∨ (mapGet map (.int 10)).isSome then
    .error ctap1ErrInvalidParameter
  else .ok (p, protocol)

def clientPinGetTokenLegacy (map : Entries) : EngineM Status Response := do
  let (p, protocol) ← Cmd.ofExcept (getPinTokenParameters map)
  let grant : TokenGrant :=
    { origin := .legacyGetPinToken, permissions := permissionMc ||| permissionGa, rpId := none }
  clientPinGetTokenCommon protocol p.keyAgreement p.pinHashEnc grant ctap2ErrPinInvalid

def permissionsParameter (map : Entries) : Except Status ℤ := do
  (← required map (.int 9)).asInteger

/-- `permissions > 0 && permissions & bits != 0`. -/
def asksFor (permissions : ℤ) (bits : Permissions) : Bool :=
  0 < permissions ∧ definedBits permissions &&& bits ≠ 0

def withPermissionsParameters (map : Entries) :
    Except Status (GetTokenParameters × PinProtocol × TokenGrant) := do
  let p ← getTokenParameters map
  let permissions ← permissionsParameter map
  if asksFor permissions permissionPcmr then
    let protocol ← parseRequiredPinUvAuthProtocol (mapGet map (.int 1))
    let permissions ← requestedPinPermissions permissions
    return (p, protocol, { origin := .permissionBearing, permissions, rpId := none })
  else
    let rpId ← optionalMember Value.asText (mapGet map (.int 10))
    if asksFor permissions (permissionMc ||| permissionGa) ∧ rpId = none then
      .error ctap2ErrMissingParameter
    else
      let protocol ← parseRequiredPinUvAuthProtocol (mapGet map (.int 1))
      if permissions ≤ 0 then .error ctap1ErrInvalidParameter
      else
        let permissions ← requestedPinPermissions permissions
        return (p, protocol, { origin := .permissionBearing, permissions, rpId })

def clientPinGetTokenWithPermissions (map : Entries) : EngineM Status Response := do
  let (p, protocol, grant) ← Cmd.ofExcept (withPermissionsParameters map)
  clientPinGetTokenCommon protocol p.keyAgreement p.pinHashEnc grant ctap2ErrPinPolicyViolation

def clientPinSubcommand (map : Entries) : ClientPinSubcommand → EngineM Status Response
  | .getPinRetries => clientPinGetRetries
  | .getKeyAgreement => do
    clientPinGetKeyAgreement
      (← Cmd.ofExcept (parseRequiredPinUvAuthProtocol (mapGet map (.int 1))))
  | .setPin => clientPinSetPin map
  | .changePin => clientPinChangePin map
  | .getPinToken => clientPinGetTokenLegacy map
  | .getPinUvAuthTokenUsingPinWithPermissions => clientPinGetTokenWithPermissions map

def handleClientPin (payload : Bytes) : EngineM Status Response := do
  let map ← Cmd.ofExcept (requestParameters payload)
  let subcommand ← Cmd.ofExcept (ClientPinSubcommand.parse (mapGet map (.int 2)))
  Cmd.when (subcommand ≠ .getKeyAgreement) readPinStateIfUnread
  clientPinSubcommand map subcommand

end SoftwareAuthenticator.Ctap
