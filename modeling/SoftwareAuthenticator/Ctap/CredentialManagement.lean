import SoftwareAuthenticator.Ctap.LargeBlobs
import Mathlib.Data.List.Dedup

/-!
# authenticatorCredentialManagement

The begin subcommands are authenticated; the get-next subcommands check again the grant that
authenticated the enumeration they continue.
-/

namespace SoftwareAuthenticator.Ctap

inductive ManagementSubcommand where
  | getCredsMetadata
  | enumerateRpsBegin
  | enumerateRpsGetNextRp
  | enumerateCredentialsBegin
  | enumerateCredentialsGetNextCredential
  | deleteCredential
  | updateUserInformation
  deriving DecidableEq, Repr

namespace ManagementSubcommand

def byte : ManagementSubcommand → UInt8
  | getCredsMetadata => 0x01
  | enumerateRpsBegin => 0x02
  | enumerateRpsGetNextRp => 0x03
  | enumerateCredentialsBegin => 0x04
  | enumerateCredentialsGetNextCredential => 0x05
  | deleteCredential => 0x06
  | updateUserInformation => 0x07

def ofInteger : ℤ → Option ManagementSubcommand
  | 1 => some getCredsMetadata
  | 2 => some enumerateRpsBegin
  | 3 => some enumerateRpsGetNextRp
  | 4 => some enumerateCredentialsBegin
  | 5 => some enumerateCredentialsGetNextCredential
  | 6 => some deleteCredential
  | 7 => some updateUserInformation
  | _ => none

def mandatoryParameters : ManagementSubcommand → List ℤ
  | enumerateCredentialsBegin => [1]
  | deleteCredential => [2]
  | updateUserInformation => [2, 3]
  | _ => []

def authenticatesParameters : ManagementSubcommand → Bool
  | getCredsMetadata | enumerateRpsBegin => false
  | _ => true

def isReadOnly : ManagementSubcommand → Bool
  | getCredsMetadata | enumerateRpsBegin | enumerateCredentialsBegin => true
  | _ => false

end ManagementSubcommand

def maxReturnedRpIdLength : ℕ := 32

def protocolPart (chars : List Char) : List Char :=
  if ':' ∈ chars then chars.takeWhile (· ≠ ':') ++ [':'] else []

def utf8Length (chars : List Char) : ℕ := (chars.map Char.utf8Size).sum

/-- An RP ID cut as CTAP describes: its protocol, an ellipsis and its end. -/
def truncatedRpId (rpId : String) : String :=
  let chars := rpId.toList
  if utf8Length chars ≤ maxReturnedRpIdLength then rpId
  else
    let stored := truncateChars (protocolPart chars) maxReturnedRpIdLength
    if 3 ≤ maxReturnedRpIdLength - utf8Length stored then
      let stored := stored ++ ['…']
      let tail := truncateChars chars.reverse (maxReturnedRpIdLength - utf8Length stored)
      String.ofList (stored ++ tail.reverse)
    else String.ofList stored

variable [Externals]

def rpEntity (rpId : String) : Value := canonicalMap [(.text "id", .text (truncatedRpId rpId))]

/-- `cm_hash_rp_id`. -/
def hashRpId (rpId : String) : Bytes := sha256 (utf8 rpId)

def rpEntries (rpId : String) : Entries :=
  [(.integer 3, rpEntity rpId), (.integer 4, .bytes (hashRpId rpId))]

def managedUser (credential : CredentialRecord) : UserEntity where
  id := credential.userId
  name := credential.userName.map (truncateUtf8 · maxNameLength)
  displayName := credential.userDisplayName.map (truncateUtf8 · maxNameLength)

/-- `cm_credential_response`. -/
def credentialEntries (credential : CredentialRecord) (total : Option ℕ) :
    Except Status Entries := do
  match credential.keypair.bind fun keys => fromReader keys.2 with
  | none => .error ctap2ErrProcessing
  | some publicKey =>
    return [
      (.integer 6, (managedUser credential).value),
      (.integer 7, descriptorValue credential.credentialId),
      (.integer 8, publicKey),
      (.integer 10, .integer credential.credProtect.toNat)] ++
      optionalEntry (.integer 9) (fun n : ℕ => .integer n) total ++
      optionalEntry (.integer 11) .bytes credential.largeBlobKey ++
      [(.integer 12, .bool credential.thirdPartyPayment)]

def discoverableCredentials : EngineM Status (List CredentialRecord) := do
  return (← storedCredentials).filter fun credential => isDiscoverable credential.credentialId

def managedCredential (credentialId : Bytes) : EngineM Status (Option CredentialRecord) :=
  if isDiscoverable credentialId then storedCredential credentialId else pure none

def resetEnumerations {ε : Type} : EngineM ε Unit :=
  modifyCredMgmt fun state => state.resetRps.resetCredentials

def cmGetMetadata : EngineM Status Entries := do
  let credentials ← storedCredentials
  let existing := credentials.filter fun credential => isDiscoverable credential.credentialId
  let max : ℕ ← storeAsk .maxCredentials
  return [
    (.integer 1, .integer existing.length),
    (.integer 2, .integer ((max - credentials.length : ℕ) : ℤ))]

def rpIdsOf (credentials : List CredentialRecord) : List String :=
  ((credentials.map (·.rpId)).insertionSort (· ≤ ·)).dedup

def cmEnumerateRpsBegin (auth : EnumerationAuthorization) : EngineM Status Entries := do
  let rpIds := rpIdsOf (← discoverableCredentials)
  match rpIds with
  | [] => Cmd.fail ctap2ErrNoCredentials
  | first :: _ =>
    modifyCredMgmt fun state => { state with rpList := rpIds, rpIndex := 1, rpAuth := some auth }
    return rpEntries first ++ [(.integer 5, .integer rpIds.length)]

/-- The grant of a persistent read-only token still holds. -/
def persistentGrantHolds (auth : EnumerationAuthorization) (family : ManagementFamily)
    (state : PinState) : Bool :=
  family = .standard ∧ auth.family = family ∧ state.persistentGeneration = auth.token ∧
    (state.persistentToken auth.protocol).any (·.granted)

def cmPermissionHolds (rpHash : Option Bytes) : EngineM Status Bool := do
  if ← hasPermission permissionCm then
    match ← permissionsRpId with
    | none => return true
    | some binding => return rpHash.any fun hash => hashRpId binding = hash
  else return false

/-- A preview enumeration began with a token from getPinToken. -/
def legacyPreviewHolds (family : ManagementFamily) : EngineM Status Bool := do
  if family = .preview then
    if (← tokenOrigin) = some .legacyGetPinToken then return (← permissionsRpId).isNone
    else return false
  else return false

/-- `auth.family != family || token != Some(auth.token) || !user_verified`, negated. -/
def sameVerifiedToken (auth : EnumerationAuthorization) (family : ManagementFamily) :
    EngineM Status Bool := do
  if auth.family ≠ family then return false
  else if (← pinUvAuthTokenId) ≠ some auth.token then return false
  else userVerifiedFlag

def cmContinuationAuthorized (auth : Option EnumerationAuthorization) (family : ManagementFamily)
    (rpHash : Option Bytes) : EngineM Status Bool := do
  match auth with
  | none => return false
  | some auth =>
    match auth.mode with
    | .persistentReadOnly => return persistentGrantHolds auth family (← Cmd.gets (·.pinState))
    | .legacyPreview =>
      if ← sameVerifiedToken auth family then legacyPreviewHolds family else return false
    | .cmPermission =>
      if ← sameVerifiedToken auth family then cmPermissionHolds rpHash else return false

/-- Mark a continuation that a transient token authorized. -/
def observeContinuation (auth : Option EnumerationAuthorization) : EngineM Status Unit := do
  match auth with
  | some ⟨_, _, _, .persistentReadOnly⟩ | none => pure ()
  | some _ => observeAuthorized .credentialManagement

def continueEnumeration (auth : Option EnumerationAuthorization) (family : ManagementFamily)
    (rpHash : Option Bytes) : EngineM Status Bool := do
  let allowed ← cmContinuationAuthorized auth family rpHash
  Cmd.when allowed (observeContinuation auth)
  return allowed

def cmEnumerateRpsNext (family : ManagementFamily) : EngineM Status Entries := do
  let state ← Cmd.gets (·.credMgmtState)
  if ← continueEnumeration state.rpAuth family none then
    match state.rpList[state.rpIndex]? with
    | none =>
      modifyCredMgmt (·.resetRps)
      Cmd.fail ctap2ErrNotAllowed
    | some rpId =>
      modifyCredMgmt fun state => { state with rpIndex := state.rpIndex + 1 }
      return rpEntries rpId
  else
    modifyCredMgmt (·.resetRps)
    Cmd.fail ctap2ErrNotAllowed

def cmEnumerateCredentialsBegin (params : Entries) (auth : EnumerationAuthorization) :
    EngineM Status Entries := do
  let rpHash ← Cmd.ofExcept (requiredBytes params 1)
  let credentials :=
    (← discoverableCredentials).filter fun credential => hashRpId credential.rpId = rpHash
  match credentials with
  | [] => Cmd.fail ctap2ErrNoCredentials
  | first :: _ =>
    let response ← Cmd.ofExcept (credentialEntries first (some credentials.length))
    modifyCredMgmt fun state => { state with
      credentialList := credentials.map (·.credentialId)
      credentialIndex := 1
      credentialAuth := some auth
      credentialRpHash := rpHash }
    return response

/-- The loop of `cm_enumerate_credentials_next` over the IDs not yet visited. -/
def nextManagedCredential : List Bytes → EngineM Status Entries
  | [] => do
    modifyCredMgmt (·.resetCredentials)
    Cmd.fail ctap2ErrNotAllowed
  | id :: rest => do
    modifyCredMgmt fun state => { state with credentialIndex := state.credentialIndex + 1 }
    match ← storedCredential id with
    | some credential => Cmd.ofExcept (credentialEntries credential none)
    | none => nextManagedCredential rest

def cmEnumerateCredentialsNext (family : ManagementFamily) : EngineM Status Entries := do
  let state ← Cmd.gets (·.credMgmtState)
  if ← continueEnumeration state.credentialAuth family (some state.credentialRpHash) then
    nextManagedCredential (state.credentialList.drop state.credentialIndex)
  else
    modifyCredMgmt (·.resetCredentials)
    Cmd.fail ctap2ErrNotAllowed

def namedCredential (params : Entries) : Except Status Bytes := do
  match ← publicKeyCredentialId (← requiredMap params 2) with
  | some id => .ok id
  | none => .error ctap2ErrNoCredentials

def cmDeleteCredential (params : Entries) : EngineM Status Unit := do
  let id ← Cmd.ofExcept (namedCredential params)
  if isDiscoverable id then
    resetEnumerations
    let deleted ← orStatus (storeAsk (.delete id))
    if deleted then resetEnumerations else Cmd.fail ctap2ErrNoCredentials
  else Cmd.fail ctap2ErrNoCredentials

/-- A name to store: absent if it is missing or empty. -/
def nonEmptyText (user : Entries) (name : String) : Except Status (Option String) := do
  return (← boundedText user name).filter (· ≠ "")

def cmUpdateUserInformation (params : Entries) : EngineM Status Unit := do
  let id ← Cmd.ofExcept (namedCredential params)
  let user ← Cmd.ofExcept (requiredMap params 3)
  let userId ← Cmd.ofExcept (structureBytes user "id")
  match ← managedCredential id with
  | none => Cmd.fail ctap2ErrNoCredentials
  | some credential =>
    if credential.userId ≠ userId then Cmd.fail ctap1ErrInvalidParameter
    else
      let userName ← Cmd.ofExcept (nonEmptyText user "name")
      let userDisplayName ← Cmd.ofExcept (nonEmptyText user "displayName")
      resetEnumerations
      orStatus (storeAsk (.put { credential with userName, userDisplayName }))

/-- What a token bound to `binding` may manage. -/
def withinBinding (binding : String) (subcommand : ManagementSubcommand)
    (params : Option Entries) : EngineM Status Unit := do
  match subcommand with
  | .getCredsMetadata | .enumerateRpsBegin => Cmd.fail ctap2ErrPinAuthInvalid
  | .enumerateCredentialsBegin =>
    let rpHash ← Cmd.ofExcept (requiredBytes (← okOr params ctap2ErrMissingParameter) 1)
    if hashRpId binding = rpHash then pure () else Cmd.fail ctap2ErrPinAuthInvalid
  | .deleteCredential | .updateUserInformation =>
    let id ← Cmd.ofExcept (namedCredential (← okOr params ctap2ErrMissingParameter))
    match ← managedCredential id with
    | none => Cmd.fail ctap2ErrNoCredentials
    | some credential =>
      if credential.rpId = binding then pure () else Cmd.fail ctap2ErrPinAuthInvalid
  | .enumerateRpsGetNextRp | .enumerateCredentialsGetNextCredential =>
    Cmd.fail ctap2ErrPinAuthInvalid

def ensurePinTokenPermissionForCm (subcommand : ManagementSubcommand) (params : Option Entries) :
    EngineM Status Unit := do
  if ← hasPermission permissionCm then
    match ← permissionsRpId with
    | none => pure ()
    | some binding => withinBinding binding subcommand params
  else Cmd.fail ctap2ErrPinAuthInvalid

def previewMode (subcommand : ManagementSubcommand) (params : Option Entries) :
    EngineM Status AuthorizationMode := do
  if ← userVerifiedFlag then
    match ← tokenOrigin with
    | some .legacyGetPinToken =>
      if (← permissionsRpId).isNone then return .legacyPreview
      else Cmd.fail ctap2ErrPinAuthInvalid
    | some .permissionBearing =>
      ensurePinTokenPermissionForCm subcommand params
      return .cmPermission
    | none => Cmd.fail ctap2ErrPinAuthInvalid
  else Cmd.fail ctap2ErrPinAuthInvalid

def authorizationMode (family : ManagementFamily) (subcommand : ManagementSubcommand)
    (params : Option Entries) : EngineM Status AuthorizationMode := do
  match family with
  | .preview => previewMode subcommand params
  | .standard =>
    ensurePinTokenPermissionForCm subcommand params
    return .cmPermission

def cmAuthorize (family : ManagementFamily) (subcommand : ManagementSubcommand)
    (params : Option Entries) (protocol : PinProtocol) :
    EngineM Status EnumerationAuthorization := do
  let mode ← authorizationMode family subcommand params
  let token ← okOr (← pinUvAuthTokenId) ctap2ErrPinAuthInvalid
  observeAuthorized .credentialManagement
  return { family, token, protocol, mode }

/-- A read-only subcommand authenticated by the persistent token. -/
def persistentMatch (family : ManagementFamily) (subcommand : ManagementSubcommand)
    (token : Option PersistentTokenRecord) (protocol : PinProtocol) (message param : Bytes) :
    Bool :=
  family = .standard ∧ subcommand.isReadOnly ∧
    token.any fun token => (verify protocol token.secret message param).isOk

def authenticateManagement (family : ManagementFamily) (subcommand : ManagementSubcommand)
    (params : Option Entries) (protocol : PinProtocol) (message param : Bytes) :
    EngineM Status EnumerationAuthorization := do
  let state ← Cmd.gets (·.pinState)
  let token := state.persistentToken protocol
  if persistentMatch family subcommand token protocol message param then
    if token.any (·.granted) then
      return { family, protocol, token := state.persistentGeneration, mode := .persistentReadOnly }
    else Cmd.fail ctap2ErrPinAuthInvalid
  else
    verifyPinUvAuthParam protocol message param
    cmAuthorize family subcommand params protocol

/-- Another grant than the last discards the enumerations. -/
def enterContext (auth : EnumerationAuthorization) : EngineM Status Unit := do
  if (← Cmd.gets (·.credMgmtState.context)) = some auth then pure ()
  else
    resetEnumerations
    modifyCredMgmt fun state => { state with context := some auth }

def managementRequest (map : Entries) :
    Except Status (ManagementSubcommand × Option Entries) := do
  let number ← (← required map (.int 1)).asInteger
  match ManagementSubcommand.ofInteger number with
  | none => .error ctap2ErrInvalidSubcommand
  | some subcommand =>
    let params ← optionalMember Value.asMap (mapGet map (.int 2))
    return (subcommand, params)

def managementMessage (payload : Bytes) (subcommand : ManagementSubcommand) :
    Except Status Bytes := do
  if subcommand.authenticatesParameters then
    return subcommand.byte :: (← rawMapValue payload 2).getD []
  else return [subcommand.byte]

def missesParameter (subcommand : ManagementSubcommand) (params : Option Entries) : Bool :=
  subcommand.mandatoryParameters.any fun key => (mapGet (params.getD []) (.int key)).isNone

/-- The checks before the pinUvAuthParam is verified: its protocol, itself, and the
message. -/
def managementAuth (payload : Bytes) (map : Entries) (subcommand : ManagementSubcommand)
    (params : Option Entries) : Except Status (PinProtocol × Bytes × Bytes) := do
  if (mapGet map (.int 4)).isNone then .error ctap2ErrPuatRequired
  else if missesParameter subcommand params then .error ctap2ErrMissingParameter
  else
    match ← parsePinUvAuthParam (mapGet map (.int 4)) (mapGet map (.int 3)) with
    | none => .error ctap2ErrPuatRequired
    | some (protocol, param) => return (protocol, param, ← managementMessage payload subcommand)

def runManagement (subcommand : ManagementSubcommand) (params : Option Entries)
    (auth : EnumerationAuthorization) : EngineM Status Response := do
  match subcommand with
  | .getCredsMetadata => respondWith (.entries (canonicalMap (← cmGetMetadata)))
  | .enumerateRpsBegin => respondWith (.entries (canonicalMap (← cmEnumerateRpsBegin auth)))
  | .enumerateCredentialsBegin =>
    let params ← okOr params ctap2ErrMissingParameter
    respondWith (.entries (canonicalMap (← cmEnumerateCredentialsBegin params auth)))
  | .deleteCredential =>
    cmDeleteCredential (← okOr params ctap2ErrMissingParameter)
    return .ok
  | _ =>
    cmUpdateUserInformation (← okOr params ctap2ErrMissingParameter)
    return .ok

/-- The get-next subcommands find any failure of the stored PIN state not allowed. -/
def refreshForContinuation : EngineM Status Unit :=
  refreshPersistentAuthority.mapError fun _ => ctap2ErrNotAllowed

/-- A request of the other family ends the enumerations. -/
def enterFamily (family : ManagementFamily) : EngineM Status Unit := do
  if (← Cmd.gets (·.credMgmtState.family)) = some family then pure ()
  else
    resetEnumerations
    modifyCredMgmt fun state => { state with family := some family }

def beginManagement (family : ManagementFamily) (payload : Bytes) (map : Entries)
    (subcommand : ManagementSubcommand) (params : Option Entries) : EngineM Status Response := do
  let (protocol, param, message) ← Cmd.ofExcept (managementAuth payload map subcommand params)
  refreshPersistentAuthority
  let auth ← authenticateManagement family subcommand params protocol message param
  enterContext auth
  runManagement subcommand params auth

def handleCredentialManagement (family : ManagementFamily) (payload : Bytes) :
    EngineM Status Response := do
  enterFamily family
  let map ← Cmd.ofExcept (requestParameters payload)
  let (subcommand, params) ← Cmd.ofExcept (managementRequest map)
  match subcommand with
  | .enumerateRpsGetNextRp =>
    refreshForContinuation
    respondWith (.entries (canonicalMap (← cmEnumerateRpsNext family)))
  | .enumerateCredentialsGetNextCredential =>
    refreshForContinuation
    respondWith (.entries (canonicalMap (← cmEnumerateCredentialsNext family)))
  | subcommand => beginManagement family payload map subcommand params

end SoftwareAuthenticator.Ctap
