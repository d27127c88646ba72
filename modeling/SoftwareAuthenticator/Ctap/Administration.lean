import SoftwareAuthenticator.Ctap.CredentialManagement

/-!
# authenticatorConfig, authenticatorReset, authenticatorSelection, authenticatorGetInfo

The commands that change or report the authenticator's own settings.
-/

namespace SoftwareAuthenticator.Ctap

variable [Externals]

def ctapCmdAuthenticatorConfig : UInt8 := 0x0D

inductive ConfigSubcommand where
  | toggleAlwaysUv
  | setMinPinLength
  deriving DecidableEq, Repr

def ConfigSubcommand.byte : ConfigSubcommand → UInt8
  | .toggleAlwaysUv => 0x02
  | .setMinPinLength => 0x03

def configSubcommand (map : Entries) : Except Status ConfigSubcommand := do
  match ← (← required map (.int 1)).asInteger with
  | 2 => .ok .toggleAlwaysUv
  | 3 => .ok .setMinPinLength
  | _ => .error ctap1ErrInvalidParameter

/-- A key without a PIN may turn always-UV off again without a token. -/
def configNeedsToken (persistent : PersistentPinState) (subcommand : ConfigSubcommand) : Bool :=
  ¬ (subcommand = .toggleAlwaysUv ∧ persistent.pinHash.isNone ∧ persistent.alwaysUv) ∧
    (persistent.pinHash.isSome ∨ persistent.alwaysUv)

def configAuth (payload : Bytes) (map : Entries) (subcommand : ConfigSubcommand) :
    Except Status (PinProtocol × Bytes × Bytes) := do
  match mapGet map (.int 4) with
  | none => .error ctap2ErrPuatRequired
  | some auth =>
    let protocol ← parseRequiredPinUvAuthProtocol (mapGet map (.int 3))
    let auth ← auth.asBytes
    let params ← rawMapValue payload 2
    return (protocol, auth, List.replicate 32 0xff ++
      [ctapCmdAuthenticatorConfig, subcommand.byte] ++ params.getD [])

def authorizeConfig (payload : Bytes) (map : Entries) (subcommand : ConfigSubcommand) :
    EngineM Status Unit := do
  let (protocol, auth, message) ← Cmd.ofExcept (configAuth payload map subcommand)
  verifyPinUvAuthParam protocol message auth
  ensurePermission permissionAcfg .authenticatorConfig

/-- Save settings, then adopt them. -/
def toggleAlwaysUv : EngineM Status Unit := do
  let current ← Cmd.gets (·.pinState.persistent)
  let persistent := { current with alwaysUv := !current.alwaysUv }
  let _ ← savePinState persistent
  modifyPinState (·.adoptPersistent persistent)

/-- newMinPINLength, which may not lower the minimum. -/
def requestedMinimum (params : Entries) (persistent : PersistentPinState) : Except Status ℕ := do
  let minimum ← match mapGet params (.int 1) with
    | none => .ok persistent.minPinLength
    | some value => unsignedParameter value
  if minimum < persistent.minPinLength then .error ctap2ErrPinPolicyViolation
  else if maxPinLength < minimum then .error ctap1ErrInvalidParameter
  else .ok minimum

def boolParameter (params : Entries) (key : ℤ) : Except Status Bool := do
  return (← optionalMember Value.asBool (mapGet params (.int key))).getD false

/-- forceChangePin, which needs a PIN. -/
def withForcedChange (params : Entries) (persistent : PersistentPinState) :
    Except Status PersistentPinState := do
  if ← boolParameter params 3 then
    if persistent.pinHash.isNone then .error ctap2ErrPinNotSet
    else return { persistent with forcePinChange := true }
  else return persistent

/-- pinComplexityPolicy: whether the preceding PIN qualifies is not known. -/
def withComplexity (params : Entries) (persistent : PersistentPinState) :
    Except Status PersistentPinState := do
  if (← boolParameter params 4) ∧ persistent.pinComplexityPolicy = false then
    return { persistent with
      pinComplexityPolicy := true
      forcePinChange := persistent.forcePinChange || persistent.pinHash.isSome }
  else return persistent

/-- A PIN shorter than the new minimum must be changed. -/
def withMinimum (minimum : ℕ) (persistent : PersistentPinState) : PersistentPinState :=
  { persistent with
    forcePinChange := persistent.forcePinChange ||
      (persistent.pinHash.isSome && decide (persistent.pinCodePointLength < minimum)) }

/-- minPinLengthRPIDs: an empty list replaces nothing. -/
def withRpIds (params : Entries) (persistent : PersistentPinState) :
    Except Status PersistentPinState := do
  match mapGet params (.int 2) with
  | none => return persistent
  | some value =>
    let rpIds ← formatTexts (← value.asArray)
    if maxMinPinLengthRpIds < rpIds.length ∨
        rpIds.any fun rpId => maxRpIdLength < (utf8 rpId).length then
      .error ctap2ErrKeyStoreFull
    else if rpIds.isEmpty then return persistent
    else return { persistent with minPinLengthRpIds := rpIds }

/-- Every requested change, checked before the single write. -/
def minPinLengthChange (params : Entries) (current : PersistentPinState) :
    Except Status PersistentPinState := do
  let minimum ← requestedMinimum params current
  let persistent ← withForcedChange params current
  let persistent ← withComplexity params persistent
  let persistent ← withRpIds params (withMinimum minimum persistent)
  return { persistent with minPinLength := minimum }

/-- A forced change ends the tokens and the enumerations they began. -/
def endTokens : EngineM Status Unit := do
  modifyPinState PinState.invalidatePinUvAuthTokens
  clearCredMgmt

def setMinPinLength (params : Entries) : EngineM Status Unit := do
  let current ← Cmd.gets (·.pinState.persistent)
  let changed ← Cmd.ofExcept (minPinLengthChange params current)
  let persistent ← rotatePersistentTokensIf changed.forcePinChange changed
  let _ ← savePinState persistent
  Cmd.when persistent.forcePinChange endTokens
  modifyPinState (·.adoptPersistent persistent)

def runConfig (subcommand : ConfigSubcommand) (params : Entries) : EngineM Status Unit :=
  match subcommand with
  | .toggleAlwaysUv => toggleAlwaysUv
  | .setMinPinLength => setMinPinLength params

def handleAuthenticatorConfig (payload : Bytes) : EngineM Status Response := do
  refreshPersistentAuthority
  let map ← Cmd.ofExcept (requestParameters payload)
  let subcommand ← Cmd.ofExcept (configSubcommand map)
  let persistent ← Cmd.gets (·.pinState.persistent)
  Cmd.when (configNeedsToken persistent subcommand) (authorizeConfig payload map subcommand)
  let params ← Cmd.ofExcept (optionalMember Value.asMap (mapGet map (.int 2)))
  runConfig subcommand (params.getD [])
  return .ok

def checkResetWindow : EngineM Status Unit := do
  match ← Cmd.gets (·.resetWindow) with
  | none => pure ()
  | some window =>
    let time ← now
    if window < time then Cmd.fail ctap2ErrNotAllowed else pure ()

def resetAuthenticator : EngineM Status Unit := do
  clearCredMgmt
  match ← storeAsk .clear with
  | .error err =>
    reconcilePersistentAuthority
    Cmd.fail (storeStatus err)
  | .ok _ =>
    modifyPinState PinState.reset
    setStoredPinState .read

def handleReset : EngineM Status Response := do
  checkResetWindow
  let timeout ← Cmd.gets (·.presenceTimeout)
  confirmUserPresence (.new .reset timeout)
  resetAuthenticator
  return .ok

def handleSelection : EngineM Status Response := do
  let timeout ← Cmd.gets (·.presenceTimeout)
  confirmUserPresence (.new .select timeout)
  return .ok

def maxCredentialCountInList : ℕ := 8
def maxCredentialIdLength : ℕ := 128

def uint (n : ℕ) : Value := .integer n

def remainingCredentialSlots : EngineM Status (Option ℕ) := do
  match ← storeAsk .count with
  | .error _ => return none
  | .ok count =>
    let max : ℕ ← storeAsk .maxCredentials
    return some (max - count)

def infoVersions (u2fEnabled : Bool) : Value :=
  .array ((["FIDO_2_3", "FIDO_2_1", "FIDO_2_1_PRE", "FIDO_2_0"] ++
    (if u2fEnabled then ["U2F_V2"] else [])).map .text)

def infoOptions (pinSet alwaysUv : Bool) : Value :=
  canonicalMap [
    (.text "rk", .bool true),
    (.text "up", .bool true),
    (.text "credMgmt", .bool true),
    (.text "perCredMgmtRO", .bool true),
    (.text "credentialMgmtPreview", .bool true),
    (.text "largeBlobs", .bool true),
    (.text "pinUvAuthToken", .bool true),
    (.text "clientPin", .bool pinSet),
    (.text "authnrCfg", .bool true),
    (.text "alwaysUv", .bool alwaysUv),
    (.text "setMinPINLength", .bool true),
    (.text "makeCredUvNotRqd", .bool (!alwaysUv))]

def infoAlgorithms : Value :=
  .array (CoseAlg.all.map fun alg =>
    canonicalMap [(.text "type", .text "public-key"), (.text "alg", .integer alg.identifier)])

def pinComplexityPolicyUrl : String :=
  "https://github.com/rainzhang05/SoftwareAuthenticator/blob/main/docs/pin-complexity-policy.md"

def attestationFormats : AttestationMode → Option Value
  | .selfAttestation | .certificate => some (.array [.text "packed"])
  | .none => none

/-- The members of the getInfo response, in the order the source pushes them. -/
def infoEntries (aaguid : Bytes) (mode : AttestationMode) (persistent : PersistentPinState)
    (remaining : Option ℕ) : Entries :=
  [(uint 0x01, infoVersions (!persistent.alwaysUv)),
    (uint 0x02, .array (["credBlob", "credProtect", "hmac-secret", "hmac-secret-mc",
      "largeBlobKey", "minPinLength", "pinComplexityPolicy", "thirdPartyPayment"].map .text)),
    (uint 0x03, .bytes aaguid),
    (uint 0x04, infoOptions persistent.pinHash.isSome persistent.alwaysUv),
    (uint 0x05, uint maxMsgSize),
    (uint 0x06, .array [.integer PinProtocol.v2.identifier, .integer PinProtocol.v1.identifier]),
    (uint 0x07, uint maxCredentialCountInList),
    (uint 0x08, uint maxCredentialIdLength),
    (uint 0x09, .array [.text "usb"]),
    (uint 0x1A, .array [.text "usb"]),
    (uint 0x0A, infoAlgorithms),
    (uint 0x0B, uint maxSerializedLargeBlobArray),
    (uint 0x0C, .bool persistent.forcePinChange),
    (uint 0x0D, uint persistent.minPinLength),
    (uint 0x0F, uint maxCredBlobLength),
    (uint 0x10, uint maxMinPinLengthRpIds)] ++
    optionalEntry (uint 0x14) uint remaining ++
    optionalEntry (uint 0x16) id (attestationFormats mode) ++
    [(uint 0x1B, .bool persistent.pinComplexityPolicy),
      (uint 0x1C, .bytes (utf8 pinComplexityPolicyUrl)),
      (uint 0x1F, .array [uint 2, uint 3])]

/-- getInfo answers from the live state even if it cannot be refreshed. -/
def handleGetInfo : EngineM Status Response := do
  let _ ← refreshPersistentAuthority.attempt
  let app ← Cmd.gets id
  let remaining ← remainingCredentialSlots
  respondWith (.entries (canonicalMap
    (infoEntries app.aaguid app.attestationMode app.pinState.persistent remaining)))

end SoftwareAuthenticator.Ctap
