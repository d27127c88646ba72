import SoftwareAuthenticator.Ctap.MakeCredential

/-!
# authenticatorGetAssertion and authenticatorGetNextAssertion

Both end in `signAssertion`, which writes the signature counter before it signs. The parameters
of a getAssertion that found several credentials are remembered.
-/

namespace SoftwareAuthenticator.Ctap

variable [Externals]

def assertionRpId (map : Entries) : Except Status String := do
  (← required map (.int 1)).asText

structure AssertionExtensions where
  hmacSecret : Option HmacSecretRequest
  credBlob : Bool
  thirdPartyPayment : Bool
  largeBlobKey : Option Value

def AssertionExtensions.initial : AssertionExtensions := ⟨none, false, false, none⟩

/-- One entry of the extensions map; unknown extensions are ignored. -/
def assertionExtension (extensions : AssertionExtensions) (name : String) (value : Value) :
    Except Status AssertionExtensions := do
  if name = "thirdPartyPayment" then
    return { extensions with thirdPartyPayment := ← value.asBool }
  else if name = "hmac-secret" then
    return { extensions with hmacSecret := some (← parseHmacSecretRequest value) }
  else if name = "credBlob" then
    return { extensions with credBlob := ← value.asBool }
  else if name = "largeBlobKey" then
    return { extensions with largeBlobKey := some value }
  else return extensions

def assertionExtensionEntries : Entries → AssertionExtensions → Except Status AssertionExtensions
  | [], extensions => .ok extensions
  | (.text name, value) :: rest, extensions => do
    assertionExtensionEntries rest (← assertionExtension extensions name value)
  | _ :: rest, extensions => assertionExtensionEntries rest extensions

def assertionExtensions (map : Entries) : Except Status AssertionExtensions := do
  match mapGet map (.int 4) with
  | none => return .initial
  | some value => assertionExtensionEntries (← value.asMap) .initial

structure AssertionChoices where
  pinUvAuth : Option (PinProtocol × Bytes)
  allowList : Option (List Bytes)
  extensions : AssertionExtensions
  up : Bool

def assertionChoices (map : Entries) : Except Status AssertionChoices := do
  let pinUvAuth ← parsePinUvAuthParam (mapGet map (.int 6)) (mapGet map (.int 7))
  let allowList ← match mapGet map (.int 3) with
    | some list => (credentialIds list).map some
    | none => .ok none
  let extensions ← assertionExtensions map
  let options ← parseOptions (mapGet map (.int 5))
  if pinUvAuth.isNone ∧ options.uv = some true then .error ctap2ErrInvalidOption
  else if options.rk.isSome then .error ctap2ErrUnsupportedOption
  else return { pinUvAuth, allowList, extensions, up := options.up.getD true }

def credentialAllows (credential : CredentialRecord) (userVerified allowListProvided : Bool) :
    Bool :=
  if credential.credProtect = 3 then userVerified
  else if credential.credProtect = 2 then userVerified || allowListProvided
  else true

/-- The loop over the allowList; `found` are the credentials found so far. -/
def locateAllowed (rpId : String) (userVerified : Bool) :
    List Bytes → List CredentialRecord → EngineM Status (List CredentialRecord)
  | [], found => return found
  | id :: rest, found => do
    if found.any fun credential => credential.credentialId = id then
      locateAllowed rpId userVerified rest found
    else
      match ← credentialForRp id rpId with
      | none => locateAllowed rpId userVerified rest found
      | some credential =>
        if credentialAllows credential userVerified true then
          locateAllowed rpId userVerified rest (found ++ [credential])
        else locateAllowed rpId userVerified rest found

/-- A discoverable credential of the relying party that may be used without an
allowList. -/
def isDiscoverableFor (rpId : String) (userVerified : Bool) (credential : CredentialRecord) :
    Bool :=
  credential.rpId = rpId ∧ isDiscoverable credential.credentialId ∧
    credentialAllows credential userVerified false

def applicableCredentials (rpId : String) (userVerified : Bool) (allowList : Option (List Bytes)) :
    EngineM Status (List CredentialRecord) := do
  match allowList with
  | some list => return sortNewestFirst (← locateAllowed rpId userVerified list [])
  | none => return (← storedCredentials).filter (isDiscoverableFor rpId userVerified)

def assertionAuthData (rpId : String) (signCount : UInt32) (userPresent userVerified : Bool)
    (extensions : Option Bytes) : AuthenticatorData where
  rpIdHash := sha256 (utf8 rpId)
  flags := flagsFrom 0 userPresent userVerified extensions.isSome
  signCount := signCount
  attested := none
  extensions := extensions

def signAssertion (credential : CredentialRecord) (rpId : String) (clientHash : Bytes)
    (userPresent userVerified : Bool) (extensions : Option Bytes) :
    EngineM Status (CredentialRecord × AuthenticatorData × Bytes) := do
  let secretKey ← okOr credential.secretKey ctap2ErrProcessing
  let credential ← advanceSignatureCounter credential
  let authData :=
    assertionAuthData rpId credential.signCount userPresent userVerified extensions
  let signature ← signOrFail credential.alg secretKey authData.bytes clientHash
  return (credential, authData, signature)

/-- Only a discoverable credential has a user member, with names only after user
verification. -/
def assertionUser (credential : CredentialRecord) (userVerified : Bool) : Option UserEntity :=
  if isDiscoverable credential.credentialId then
    some {
      id := credential.userId
      name := if userVerified then credential.userName.map (truncateUtf8 · maxNameLength) else none
      displayName :=
        if userVerified then credential.userDisplayName.map (truncateUtf8 · maxNameLength)
        else none }
  else none

def assertionResponse (credential : CredentialRecord) (authData : AuthenticatorData)
    (signature : Bytes) (userVerified : Bool) (numberOfCredentials : Option ℕ)
    (largeBlobKeyRequested : Bool) : AssertionResponse where
  credentialId := credential.credentialId
  authData := authData
  signature := signature
  user := assertionUser credential userVerified
  numberOfCredentials := numberOfCredentials
  largeBlobKey :=
    if largeBlobKeyRequested ∧ isDiscoverable credential.credentialId then credential.largeBlobKey
    else none

def assertionOutputs (credential : CredentialRecord) (credBlob thirdPartyPayment : Bool) :
    Entries :=
  (if credBlob then [(.text "credBlob", .bytes (credential.credBlob.getD []))] else []) ++
    (if thirdPartyPayment then
      [(.text "thirdPartyPayment", .bool credential.thirdPartyPayment)] else [])

def hmacSecretEntry (encrypted : Bytes) : Entries := [(.text "hmac-secret", .bytes encrypted)]

/-- The prompt of an assertion, which names the account of a single discoverable
credential. -/
def authenticateRequest (rpId : String) (applicable : List CredentialRecord)
    (timeout : Duration) : PresenceRequest :=
  let account := match applicable with
    | [only] => if isDiscoverable only.credentialId then some only else none
    | _ => none
  { PresenceRequest.new .authenticate timeout with
    rpId := some rpId
    userName := account.bind (·.userName)
    userDisplayName := account.bind (·.userDisplayName) }

/-- Step 9: whether the user is present. -/
def assertionPresence (rpId : String) (choices : AssertionChoices)
    (applicable : List CredentialRecord) : EngineM Status Bool := do
  if choices.up then
    let timeout ← Cmd.gets (·.presenceTimeout)
    collectPresence choices.pinUvAuth (authenticateRequest rpId applicable timeout)
    return true
  else if choices.extensions.hmacSecret.isSome then Cmd.fail ctap2ErrUnsupportedOption
  else return false

/-- Step 5: when a pinUvAuthParam is required. -/
def assertionPuatRequired (persistent : PersistentPinState) (choices : AssertionChoices) : Bool :=
  persistent.alwaysUv ∧ choices.up ∧ (persistent.pinHash.isNone ∨ choices.pinUvAuth.isNone)

/-- Step 6: whether the user is verified, and the token that says so. -/
def verifyAssertionUser (pinUvAuth : Option (PinProtocol × Bytes)) (clientHash : Bytes)
    (rpId : String) : EngineM Status (Bool × Option UInt64) := do
  let userVerified ← verifyUser pinUvAuth clientHash permissionGa rpId
  if userVerified then return (true, ← pinUvAuthTokenId)
  else return (false, none)

def assertionHmacSecret (request : Option HmacSecretRequest) (credential : CredentialRecord)
    (userVerified : Bool) : EngineM Status (Entries × Option PendingHmacSecret) := do
  match request with
  | none => return ([], none)
  | some request =>
    let (encrypted, pending) ← processHmacSecret request credential userVerified
    return (hmacSecretEntry encrypted, some pending)

def assertionLargeBlobKey (input : Option Value) : Except Status Bool :=
  largeBlobKeyRequested input true

def remainingIds (allowList : Option (List Bytes)) (rest : List CredentialRecord) : List Bytes :=
  if allowList.isSome then [] else rest.map (·.credentialId)

def rememberAssertion (pending : Duration → PendingAssertion) (remaining : List Bytes) :
    EngineM Status Unit := do
  if remaining.isEmpty then pure ()
  else
    let time ← now
    setPendingAssertion (some (pending time))

def numberOfCredentials (remaining : List Bytes) : Option ℕ :=
  if remaining.isEmpty then none else some (1 + remaining.length)

/-- Steps 10 to 13, for the first of the applicable credentials. -/
def assertFirst (rpId : String) (clientHash : Bytes) (choices : AssertionChoices)
    (userPresent userVerified : Bool) (token : Option UInt64) (credential : CredentialRecord)
    (rest : List CredentialRecord) : EngineM Status Response := do
  let largeBlobKey ← Cmd.ofExcept (assertionLargeBlobKey choices.extensions.largeBlobKey)
  let remaining := remainingIds choices.allowList rest
  let (hmacOutput, hmacSecret) ←
    assertionHmacSecret choices.extensions.hmacSecret credential userVerified
  let extensions ← Cmd.ofExcept (encodeExtensions (hmacOutput ++
    assertionOutputs credential choices.extensions.credBlob choices.extensions.thirdPartyPayment))
  let (credential, authData, signature) ←
    signAssertion credential rpId clientHash userPresent userVerified extensions
  rememberAssertion (fun timerStarted =>
    { rpId, clientHash, userPresent, userVerified, remainingCredentials := remaining, hmacSecret,
      credBlob := choices.extensions.credBlob, largeBlobKey,
      thirdPartyPayment := choices.extensions.thirdPartyPayment, timerStarted, token }) remaining
  respondWith (.assertion (assertionResponse credential authData signature userVerified
    (numberOfCredentials remaining) largeBlobKey))

/-- Steps 2 to 13, once the probe of step 1 is ruled out. -/
def getAssertion (map : Entries) (rpId : String) (clientHash : Bytes) :
    EngineM Status Response := do
  let choices ← Cmd.ofExcept (assertionChoices map)
  if assertionPuatRequired (← Cmd.gets (·.pinState.persistent)) choices then
    Cmd.fail ctap2ErrPuatRequired
  else
    let (userVerified, token) ← verifyAssertionUser choices.pinUvAuth clientHash rpId
    match ← applicableCredentials rpId userVerified choices.allowList with
    | [] => Cmd.fail ctap2ErrNoCredentials
    | credential :: rest =>
      let userPresent ← assertionPresence rpId choices (credential :: rest)
      assertFirst rpId clientHash choices userPresent userVerified token credential rest

def handleGetAssertion (payload : Bytes) : EngineM Status Response := do
  let map ← Cmd.ofExcept (requestParameters payload)
  let rpId ← Cmd.ofExcept (assertionRpId map)
  let clientHash ← Cmd.ofExcept (clientDataHash (mapGet map (.int 2)))
  readPinStateIfUnread
  if isZeroLength (mapGet map (.int 6)) then Cmd.fail (← selectForPinUvAuth)
  else getAssertion map rpId clientHash

def getNextAssertionTimeout : Duration := seconds 30

def takePendingAssertion : EngineM Status PendingAssertion := do
  let pending ← Cmd.gets (·.pendingAssertion)
  setPendingAssertion none
  okOr pending ctap2ErrNotAllowed

def checkPending (pending : PendingAssertion) : EngineM Status Unit := do
  let time ← now
  if getNextAssertionTimeout < time - pending.timerStarted then Cmd.fail ctap2ErrNotAllowed
  else if pending.token.isSome then
    let token ← pinUvAuthTokenId
    if pending.token ≠ token then Cmd.fail ctap2ErrNotAllowed else pure ()
  else pure ()

def nextCredential (rpId : String) :
    List Bytes → EngineM Status (CredentialRecord × List Bytes)
  | [] => Cmd.fail ctap2ErrNotAllowed
  | id :: rest => do
    match (← storedCredential id).filter fun credential => credential.rpId = rpId with
    | some credential => return (credential, rest)
    | none => nextCredential rpId rest

def nextHmacSecret (pending : PendingAssertion) (credential : CredentialRecord) :
    EngineM Status Entries := do
  match pending.hmacSecret with
  | none => return []
  | some state =>
    let encrypted ←
      encryptHmacSecretOutputs state (credential.credRandom pending.userVerified)
    return hmacSecretEntry encrypted

def assertNext (pending : PendingAssertion) (credential : CredentialRecord)
    (remaining : List Bytes) : EngineM Status Response := do
  let hmacOutput ← nextHmacSecret pending credential
  let extensions ← Cmd.ofExcept (encodeExtensions (hmacOutput ++
    assertionOutputs credential pending.credBlob pending.thirdPartyPayment))
  let (credential, authData, signature) ← signAssertion credential pending.rpId
    pending.clientHash pending.userPresent pending.userVerified extensions
  rememberAssertion (fun timerStarted =>
    { pending with remainingCredentials := remaining, timerStarted }) remaining
  respondWith (.assertion (assertionResponse credential authData signature pending.userVerified
    none pending.largeBlobKey))

def handleGetNextAssertion : EngineM Status Response := do
  let pending ← takePendingAssertion
  checkPending pending
  let (credential, remaining) ← nextCredential pending.rpId pending.remainingCredentials
  assertNext pending credential remaining

end SoftwareAuthenticator.Ctap
