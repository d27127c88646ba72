import SoftwareAuthenticator.Ctap.Request

/-!
# authenticatorMakeCredential

The handler goes through its steps in the order of the source. A run of checks that reads nothing
but the request is one function of the request.
-/

namespace SoftwareAuthenticator.Ctap

variable [Externals]

structure Registration where
  clientHash : Bytes
  rpId : String
  rpName : Option String
  userId : Bytes
  userName : Option String
  userDisplayName : Option String
  pubKeyCredParams : List Value

/-- The required parameters, checked before anything else. -/
def registrationParameters (map : Entries) : Except Status Registration := do
  let clientHash ← clientDataHash (mapGet map (.int 1))
  let rp ← requiredMap map 2
  let rpId ← structureText rp "id"
  let rpName ← boundedText rp "name"
  let user ← requiredMap map 3
  let userId ← structureBytes user "id"
  if maxUserIdLength < userId.length then .error ctap1ErrInvalidLength
  else
    let userName ← boundedText user "name"
    let userDisplayName ← boundedText user "displayName"
    let pubKeyCredParams ← (← required map (.int 4)).asArray
    return { clientHash, rpId, rpName, userId, userName, userDisplayName, pubKeyCredParams }

structure RegistrationChoices where
  pinUvAuth : Option (PinProtocol × Bytes)
  alg : CoseAlg
  excludeList : List Bytes
  rk : Bool

/-- Steps 2 to 5 and the user handle. -/
def registrationChoices (map : Entries) (registration : Registration) :
    Except Status RegistrationChoices := do
  let pinUvAuth ← parsePinUvAuthParam (mapGet map (.int 8)) (mapGet map (.int 9))
  let alg ← chosenAlgorithm registration.pubKeyCredParams
  let excludeList ← match mapGet map (.int 5) with
    | some list => credentialIds list
    | none => .ok []
  let options ← parseOptions (mapGet map (.int 7))
  let rk := options.rk.getD false
  if pinUvAuth.isNone ∧ options.uv.getD false then .error ctap2ErrInvalidOption
  else if options.up = some false then .error ctap2ErrInvalidOption
  else if rk ∧ registration.userId.isEmpty then .error ctap1ErrInvalidLength
  else return { pinUvAuth, alg, excludeList, rk }

def formatTexts : List Value → Except Status (List String)
  | [] => .ok []
  | format :: rest => do
    let text ← format.asText
    return text :: (← formatTexts rest)

/-- Step 9 and attestationFormatsPreference: whether attestation is to be omitted. -/
def noneRequested (map : Entries) : Except Status Bool :=
  if (mapGet map (.int 0x0A)).isSome then .error ctap1ErrInvalidParameter
  else
    match mapGet map (.int 0x0B) with
    | none => .ok false
    | some value => do
      let formats ← formatTexts (← value.asArray)
      return formats = ["none"]

structure RegistrationExtensions where
  minPinLength : Bool
  pinComplexity : Bool
  hmacSecret : Bool
  thirdPartyPayment : Bool
  hmacSecretMc : Option Value
  credBlob : Option Bytes
  largeBlobKey : Option Value
  credProtect : Option UInt8

def RegistrationExtensions.initial : RegistrationExtensions :=
  ⟨false, false, false, false, none, none, none, none⟩

def credProtectInput (value : Value) : Except Status UInt8 := do
  match unsignedOf 8 (← value.asInteger) with
  | some level =>
    if 1 ≤ level ∧ level ≤ 3 then .ok (UInt8.ofNat level) else .error ctap2ErrInvalidOption
  | none => .error ctap2ErrInvalidOption

/-- One entry of the extensions map; unknown extensions are ignored. -/
def registrationExtension (extensions : RegistrationExtensions) (name : String) (value : Value) :
    Except Status RegistrationExtensions := do
  if name = "thirdPartyPayment" then
    return { extensions with thirdPartyPayment := ← value.asBool }
  else if name = "minPinLength" then
    return { extensions with minPinLength := ← value.asBool }
  else if name = "pinComplexityPolicy" then
    return { extensions with pinComplexity := ← value.asBool }
  else if name = "hmac-secret" then
    return { extensions with hmacSecret := ← value.asBool }
  else if name = "hmac-secret-mc" then
    return { extensions with hmacSecretMc := some value }
  else if name = "credBlob" then
    return { extensions with credBlob := some (← value.asBytes) }
  else if name = "largeBlobKey" then
    return { extensions with largeBlobKey := some value }
  else if name = "credProtect" then
    return { extensions with credProtect := some (← credProtectInput value) }
  else return extensions

def registrationExtensionEntries :
    Entries → RegistrationExtensions → Except Status RegistrationExtensions
  | [], extensions => .ok extensions
  | (.text name, value) :: rest, extensions => do
    registrationExtensionEntries rest (← registrationExtension extensions name value)
  | _ :: rest, extensions => registrationExtensionEntries rest extensions

def registrationExtensions (map : Entries) : Except Status RegistrationExtensions := do
  match mapGet map (.int 6) with
  | none => return .initial
  | some value => registrationExtensionEntries (← value.asMap) .initial

def hmacSecretMcRequest (extensions : RegistrationExtensions) :
    Except Status (Option HmacSecretRequest) :=
  match extensions.hmacSecretMc with
  | none => .ok none
  | some input =>
    if extensions.hmacSecret = false then .error ctap2ErrMissingParameter
    else (parseHmacSecretRequest input).map some

def newRecord (registration : Registration) (alg : CoseAlg) (privateKey : PrivateKeyMaterial)
    (largeBlobKey : Option Bytes) (extensions : RegistrationExtensions) : CredentialRecord where
  credentialId := []
  rpId := registration.rpId
  userId := registration.userId
  userName := registration.userName
  userDisplayName := registration.userDisplayName
  alg := alg
  privateKey := privateKey
  credRandomWithUv := List.replicate 32 0
  credRandomWithoutUv := List.replicate 32 0
  credBlob := none
  largeBlobKey := largeBlobKey
  thirdPartyPayment := extensions.thirdPartyPayment
  credProtect := extensions.credProtect.getD 1
  signCount := 0
  createdAt := 0

/-- Whether the new credential takes a record of its own in the store. -/
def isStored (choices : RegistrationChoices) (extensions : RegistrationExtensions) : Bool :=
  choices.rk ∨ extensions.thirdPartyPayment ∨ choices.alg.isSealable = false

def CredentialRecord.withoutUser (record : CredentialRecord) : CredentialRecord :=
  { record with userId := [], userName := none, userDisplayName := none }

def createStored (rk : Bool) (record : CredentialRecord) : EngineM Status CredentialRecord := do
  let credentialId ← newCredentialId rk
  let record := if rk then record else record.withoutUser
  let withUv ← randomArray 32
  let withoutUv ← randomArray 32
  return { record with credentialId, credRandomWithUv := withUv, credRandomWithoutUv := withoutUv }

def createSealed (record : CredentialRecord) : EngineM Status CredentialRecord := do
  let key ← okOr record.privateKey.sealable ctap2ErrProcessing
  sealCredential record key (sha256 (utf8 record.rpId))

/-- The largeBlobKey input must be true and needs a discoverable credential. -/
def largeBlobKeyRequested (input : Option Value) (discoverable : Bool) : Except Status Bool :=
  match input with
  | none => .ok false
  | some (.bool true) => if discoverable then .ok true else .error ctap2ErrInvalidOption
  | some _ => .error ctap2ErrInvalidOption

/-- `cred_blob_input.filter(..)`: only a stored credential keeps a short enough blob. -/
def keptBlob (stored : Bool) (input : Option Bytes) : Option Bytes :=
  input.filter fun blob => stored ∧ blob.length ≤ maxCredBlobLength

def drawLargeBlobKey (requested : Bool) : EngineM Status (Option Bytes) :=
  if requested then some <$> randomArray 32 else pure none

def createCredential (registration : Registration) (choices : RegistrationChoices)
    (extensions : RegistrationExtensions) : EngineM Status CredentialRecord := do
  let requested ← Cmd.ofExcept (largeBlobKeyRequested extensions.largeBlobKey choices.rk)
  let privateKey ← okOr (← generateKey choices.alg) ctap1ErrOther
  let largeBlobKey ← drawLargeBlobKey requested
  let stored := isStored choices extensions
  let record := { newRecord registration choices.alg privateKey largeBlobKey extensions with
    credBlob := keptBlob stored extensions.credBlob }
  if stored then createStored choices.rk record else createSealed record

/-- The extension outputs that depend on the PIN policy. -/
def policyOutputs (persistent : PersistentPinState) (rpId : String)
    (extensions : RegistrationExtensions) : Entries :=
  if rpId ∈ persistent.minPinLengthRpIds then
    (if extensions.minPinLength then
      [(.text "minPinLength", .integer persistent.minPinLength)] else []) ++
    (if extensions.pinComplexity then
      [(.text "pinComplexityPolicy", .bool persistent.pinComplexityPolicy)] else [])
  else []

/-- The hmac-secret-mc output, computed with the secrets of the new credential. -/
def hmacSecretMcOutput (hmacRequest : Option HmacSecretRequest) (record : CredentialRecord)
    (userVerified : Bool) : EngineM Status Entries := do
  match hmacRequest with
  | none => return []
  | some request =>
    let (encrypted, _) ← processHmacSecret request record userVerified
    return [(.text "hmac-secret-mc", .bytes encrypted)]

def registrationOutputs (extensions : RegistrationExtensions)
    (hmacRequest : Option HmacSecretRequest) (record : CredentialRecord) (userVerified : Bool) :
    EngineM Status (Option Bytes) := do
  let persistent ← Cmd.gets (·.pinState.persistent)
  let credBlob : Entries :=
    if extensions.credBlob.isSome then [(.text "credBlob", .bool record.credBlob.isSome)] else []
  let hmacSecret : Entries :=
    if extensions.hmacSecret then [(.text "hmac-secret", .bool true)] else []
  let hmacSecretMc ← hmacSecretMcOutput hmacRequest record userVerified
  let credProtect : Entries :=
    optionalEntry (.text "credProtect") (fun level : UInt8 => .integer level.toNat)
      extensions.credProtect
  Cmd.ofExcept (encodeExtensions (policyOutputs persistent record.rpId extensions ++ credBlob ++
    hmacSecret ++ hmacSecretMc ++ credProtect))

def attestedAuthData (aaguid : Bytes) (record : CredentialRecord) (coseKey : Bytes)
    (userPresent userVerified : Bool) (extensions : Option Bytes) : AuthenticatorData where
  rpIdHash := sha256 (utf8 record.rpId)
  flags := flagsFrom 0x40 userPresent userVerified extensions.isSome
  signCount := record.signCount
  attested := some ⟨aaguid, record.credentialId, coseKey⟩
  extensions := extensions

inductive Attestation where
  | basic (record : AttestationRecord)
  | selfSigned
  | none

def attestationKinds (noneRequested : Bool) : EngineM Status (List Attestation) := do
  if noneRequested then return [.none]
  else
    match ← Cmd.gets (·.attestationMode) with
    | .certificate =>
      match ← attestationRecord with
      | some record => return [.basic record, .selfSigned, .none]
      | none => return [.selfSigned, .none]
    | .selfAttestation => return [.selfSigned, .none]
    | .none => return [.none]

def signOrFail (alg : CoseAlg) (key : CredentialSecretKey) (message clientDataHash : Bytes) :
    EngineM Status Bytes := do
  okOr (← trySignChallenge alg key message clientDataHash) ctap2ErrProcessing

def attestationStatement (alg : CoseAlg) (secretKey : CredentialSecretKey)
    (authData clientHash : Bytes) : Attestation → EngineM Status (String × Value)
  | .basic attestation => do
    let signingKey ← okOr (Externals.credentialSecretFromBytes .es256 attestation.privateKey)
      ctap2ErrProcessing
    let signature ← signOrFail .es256 signingKey authData clientHash
    return ("packed", canonicalMap [
      (.text "alg", .integer CoseAlg.es256.identifier),
      (.text "sig", .bytes signature),
      (.text "x5c", .array (attestation.certificateChain.map .bytes))])
  | .selfSigned => do
    let signature ← signOrFail alg secretKey authData clientHash
    return ("packed", canonicalMap [
      (.text "alg", .integer alg.identifier),
      (.text "sig", .bytes signature)])
  | .none => return ("none", .map [])

def storeNewCredential (record : CredentialRecord) : EngineM Status Unit := do
  if isDiscoverable record.credentialId then
    let _ ← orStatus (storeAsk (.insertOrReplaceDiscoverable record))
    clearCredMgmt
  else
    match ← storedCredential record.credentialId with
    | some _ => Cmd.fail ctap2ErrProcessing
    | none => orStatus (storeAsk (.put record))

/-- Try the kinds of attestation until the response fits a message, then store the
credential. -/
def attestCredential (record : CredentialRecord) (secretKey : CredentialSecretKey)
    (authData : AuthenticatorData) (clientHash : Bytes) (stored : Bool) :
    List Attestation → EngineM Status Response
  | [] => Cmd.fail ctap2ErrProcessing
  | kind :: kinds => do
    let (format, attStmt) ←
      attestationStatement record.alg secretKey authData.bytes clientHash kind
    let response : AttestationResponse :=
      { format, authData, attStmt, largeBlobKey := record.largeBlobKey }
    let encoded ← Cmd.ofExcept (Response.attestation response).bytes
    if maxResponseSize < encoded.length then
      attestCredential record secretKey authData clientHash stored kinds
    else
      Cmd.when stored (storeNewCredential record)
      return .attestation response

def registerRequest (registration : Registration) (choices : RegistrationChoices)
    (timeout : Duration) : PresenceRequest where
  operation := .register
  rpId := some registration.rpId
  rpName := registration.rpName
  userName := registration.userName
  userDisplayName := registration.userDisplayName
  discoverable := choices.rk
  timeout := timeout

/-- Steps 6 to 8: when a pinUvAuthParam is required. -/
def puatRequired (persistent : PersistentPinState) (choices : RegistrationChoices) : Bool :=
  (persistent.alwaysUv ∧ (persistent.pinHash.isNone ∨ choices.pinUvAuth.isNone)) ∨
    (persistent.pinHash.isSome ∧ choices.pinUvAuth.isNone ∧ (choices.rk ∨ persistent.alwaysUv))

/-- Verify the pinUvAuthParam if a PIN is set: whether the user is verified. -/
def verifyUser (pinUvAuth : Option (PinProtocol × Bytes)) (clientHash : Bytes)
    (permission : Permissions) (rpId : String) : EngineM Status Bool := do
  if ← Cmd.gets (·.pinState.isSet) then
    match pinUvAuth with
    | some (protocol, param) =>
      verifyPinUvAuthParam protocol clientHash param
      ensurePinTokenPermissionForRp permission rpId
      return true
    | none => return false
  else return false

/-- The userPresent flag of the token, if a pinUvAuthParam came with the request. -/
def tokenPresence (pinUvAuth : Option (PinProtocol × Bytes)) : EngineM Status Bool := do
  match pinUvAuth with
  | some _ => userPresentFlag
  | none => return false

/-- The first credential of the excludeList that the caller may learn of. -/
def findExcluded (rpId : String) (userVerified : Bool) :
    List Bytes → EngineM Status (Option CredentialRecord)
  | [] => return none
  | id :: rest => do
    match ← credentialForRp id rpId with
    | none => findExcluded rpId userVerified rest
    | some excluded =>
      if excluded.credProtect = 3 ∧ userVerified = false then findExcluded rpId userVerified rest
      else return some excluded

/-- Step 12 for an excluded credential: wait for the user, whatever the answer. -/
def refuseExcluded (pinUvAuth : Option (PinProtocol × Bytes)) (request : PresenceRequest) :
    EngineM Status Response := do
  if ← tokenPresence pinUvAuth then Cmd.fail ctap2ErrCredentialExcluded
  else
    match ← (confirmUserPresence request).attempt with
    | .ok () => Cmd.fail ctap2ErrCredentialExcluded
    | .error status =>
      Cmd.fail (if status = ctap2ErrKeepaliveCancel then ctap2ErrKeepaliveCancel
        else ctap2ErrCredentialExcluded)

/-- Step 14: collect user presence unless the token brings it. -/
def collectPresence (pinUvAuth : Option (PinProtocol × Bytes)) (request : PresenceRequest) :
    EngineM Status Unit := do
  let present ← tokenPresence pinUvAuth
  Cmd.when (!present) (confirmUserPresence request)
  consumeTokenAfterUserPresence

/-- Step 15 and after: create, attest and store the credential. -/
def registerCredential (registration : Registration) (choices : RegistrationChoices)
    (extensions : RegistrationExtensions) (hmacRequest : Option HmacSecretRequest)
    (omitAttestation userVerified : Bool) : EngineM Status Response := do
  let record ← createCredential registration choices extensions
  let (secretKey, coseKey) ← okOr record.keypair ctap2ErrProcessing
  let outputs ← registrationOutputs extensions hmacRequest record userVerified
  let aaguid ← Cmd.gets (·.aaguid)
  let authData := attestedAuthData aaguid record coseKey true userVerified outputs
  let kinds ← attestationKinds omitAttestation
  attestCredential record secretKey authData registration.clientHash
    (isStored choices extensions) kinds

/-- Steps 6 to 11: the checks against the PIN policy, the remaining parameters and the
token. -/
def authorizeRegistration (map : Entries) (registration : Registration)
    (choices : RegistrationChoices) :
    EngineM Status (Bool × RegistrationExtensions × Option HmacSecretRequest × Bool) := do
  if puatRequired (← Cmd.gets (·.pinState.persistent)) choices then Cmd.fail ctap2ErrPuatRequired
  else
    let omitAttestation ← Cmd.ofExcept (noneRequested map)
    let extensions ← Cmd.ofExcept (registrationExtensions map)
    let hmacRequest ← Cmd.ofExcept (hmacSecretMcRequest extensions)
    let userVerified ←
      verifyUser choices.pinUvAuth registration.clientHash permissionMc registration.rpId
    return (omitAttestation, extensions, hmacRequest, userVerified)

/-- Steps 2 to 19, once the probe of step 1 is ruled out. -/
def makeCredential (map : Entries) (registration : Registration) : EngineM Status Response := do
  let choices ← Cmd.ofExcept (registrationChoices map registration)
  let (omitAttestation, extensions, hmacRequest, userVerified) ←
    authorizeRegistration map registration choices
  let timeout ← Cmd.gets (·.presenceTimeout)
  let request := registerRequest registration choices timeout
  match ← findExcluded registration.rpId userVerified choices.excludeList with
  | some _ => refuseExcluded choices.pinUvAuth request
  | none =>
    collectPresence choices.pinUvAuth request
    registerCredential registration choices extensions hmacRequest omitAttestation userVerified

def handleMakeCredential (payload : Bytes) : EngineM Status Response := do
  let map ← Cmd.ofExcept (requestParameters payload)
  let registration ← Cmd.ofExcept (registrationParameters map)
  readPinStateIfUnread
  if isZeroLength (mapGet map (.int 8)) then Cmd.fail (← selectForPinUvAuth)
  else makeCredential map registration

end SoftwareAuthenticator.Ctap
