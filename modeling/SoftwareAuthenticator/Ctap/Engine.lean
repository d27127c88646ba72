import SoftwareAuthenticator.Ctap.PinState

/-!
# The engine's state and its basic operations

`CtapApp` holds what the engine remembers between requests. The functions below are the small
operations every handler is written with.
-/

namespace SoftwareAuthenticator.Ctap

inductive AttestationMode where
  | selfAttestation
  | certificate
  | none
  deriving DecidableEq, Repr

inductive StoredPinState where
  | read
  | unread
  | unreadable
  deriving DecidableEq, Repr

inductive ManagementFamily where
  | standard
  | preview
  deriving DecidableEq, Repr

inductive AuthorizationMode where
  | cmPermission
  | persistentReadOnly
  | legacyPreview
  deriving DecidableEq, Repr

structure EnumerationAuthorization where
  family : ManagementFamily
  token : UInt64
  protocol : PinProtocol
  mode : AuthorizationMode
  deriving DecidableEq, Repr

structure CredentialManagementState where
  rpList : List String
  rpIndex : ℕ
  family : Option ManagementFamily
  rpAuth : Option EnumerationAuthorization
  context : Option EnumerationAuthorization
  credentialList : List Bytes
  credentialIndex : ℕ
  credentialAuth : Option EnumerationAuthorization
  credentialRpHash : Bytes
  deriving DecidableEq, Repr

namespace CredentialManagementState

def initial : CredentialManagementState := ⟨[], 0, none, none, none, [], 0, none, []⟩

def resetRps (state : CredentialManagementState) : CredentialManagementState :=
  { state with rpList := [], rpIndex := 0, rpAuth := none }

def resetCredentials (state : CredentialManagementState) : CredentialManagementState :=
  { state with
    credentialList := [], credentialIndex := 0, credentialAuth := none, credentialRpHash := [] }

end CredentialManagementState

structure PendingHmacSecret where
  protocol : PinProtocol
  keys : PinUvSessionKeys
  saltPlaintext : Bytes
  deriving DecidableEq, Repr

structure PendingAssertion where
  rpId : String
  clientHash : Bytes
  userPresent : Bool
  userVerified : Bool
  remainingCredentials : List Bytes
  hmacSecret : Option PendingHmacSecret
  credBlob : Bool
  largeBlobKey : Bool
  thirdPartyPayment : Bool
  timerStarted : Duration
  token : Option UInt64
  deriving DecidableEq, Repr

structure LargeBlobState where
  expectedNextOffset : ℕ
  expectedLength : ℕ
  buffer : Bytes
  lastFragment : Option Duration
  token : Option UInt64
  deriving DecidableEq, Repr

def LargeBlobState.initial : LargeBlobState := ⟨0, 0, [], none, none⟩

structure CtapApp where
  aaguid : Bytes
  pinState : PinState
  storedPinState : StoredPinState
  directoryFlush : Option DirectoryFlush
  attestationMode : AttestationMode
  credMgmtState : CredentialManagementState
  pendingAssertion : Option PendingAssertion
  largeBlobState : LargeBlobState
  presenceTimeout : Duration
  resetWindow : Option Duration
  deriving DecidableEq, Repr

/-- A computation of the engine that fails with statuses of type `ε`. -/
abbrev EngineM (ε α : Type) := Cmd env CtapApp ε α

section Basic

variable {ε α : Type}

def askEnv (op : EnvOp) : EngineM ε op.Res := Cmd.ask (I := env) op

def storeAsk (op : StoreOp) : EngineM ε op.Res := askEnv (.store op)

def now : EngineM ε Duration := askEnv .now

def randomArray (n : ℕ) : EngineM ε Bytes := do
  let bytes : Vector UInt8 n ← askEnv (.random n)
  return bytes.toList

def observePhase (phase : Phase) : EngineM ε Unit := askEnv (.observe phase)

def generateKey (alg : CoseAlg) : EngineM ε (Option PrivateKeyMaterial) :=
  askEnv (.generateKey alg)

def trySignChallenge (alg : CoseAlg) (key : CredentialSecretKey) (message clientDataHash : Bytes) :
    EngineM ε (Option Bytes) :=
  askEnv (.sign alg key message clientDataHash)

/-- `option.ok_or(status)?`. -/
def okOr (x : Option α) (e : ε) : EngineM ε α :=
  match x with
  | some a => pure a
  | none => Cmd.fail e

def modifyPinState (f : PinState → PinState) : EngineM ε Unit :=
  Cmd.modify fun app => { app with pinState := f app.pinState }

def modifyToken (f : TokenState → TokenState) : EngineM ε Unit :=
  modifyPinState fun state => { state with token := f state.token }

def modifyCredMgmt (f : CredentialManagementState → CredentialManagementState) : EngineM ε Unit :=
  Cmd.modify fun app => { app with credMgmtState := f app.credMgmtState }

def clearCredMgmt : EngineM ε Unit := modifyCredMgmt fun _ => .initial

def setLargeBlobState (state : LargeBlobState) : EngineM ε Unit :=
  Cmd.modify fun app => { app with largeBlobState := state }

def setStoredPinState (stored : StoredPinState) : EngineM ε Unit :=
  Cmd.modify fun app => { app with storedPinState := stored }

def setPendingAssertion (pending : Option PendingAssertion) : EngineM ε Unit :=
  Cmd.modify fun app => { app with pendingAssertion := pending }

end Basic

section Presence

variable {ε : Type}

/-- A request the platform has already cancelled is never shown to the user. -/
def askUser (request : PresenceRequest) : EngineM ε PresenceOutcome := do
  let cancelled : Bool ← askEnv .isCancelled
  if cancelled then return .cancelled
  else
    let _ : Unit ← askEnv (.keepalive true)
    let outcome : PresenceOutcome ← askEnv (.confirm request)
    let _ : Unit ← askEnv (.keepalive false)
    return outcome

def confirmUserPresence (request : PresenceRequest) : EngineM Status Unit := do
  let outcome ← askUser request
  Cmd.ofExcept (presenceStatus request.operation outcome)

/-- A zero length pinUvAuthParam: the status after asking the user to select this
authenticator. -/
def selectForPinUvAuth : EngineM ε Status := do
  let timeout ← Cmd.gets (·.presenceTimeout)
  match ← askUser (.new .select timeout) with
  | .approved =>
    let isSet ← Cmd.gets (·.pinState.isSet)
    return if isSet then ctap2ErrPinInvalid else ctap2ErrPinNotSet
  | .denied | .timedOut => return ctap2ErrOperationDenied
  | .cancelled => return ctap2ErrKeepaliveCancel

end Presence

section Token

variable {ε : Type}

def observeToken : EngineM ε TokenState := do
  let time ← now
  modifyToken (·.observe time)
  Cmd.gets (·.pinState.token)

def hasPermission (permission : Permissions) : EngineM ε Bool := do
  return (← observeToken).hasPermission permission

def pinUvAuthTokenId : EngineM ε (Option UInt64) := do
  return (← observeToken).inUseId

def permissionsRpId : EngineM ε (Option String) := do
  return (← observeToken).permissionsRpId

def tokenOrigin : EngineM ε (Option TokenOrigin) := do
  return (← observeToken).origin

def userPresentFlag : EngineM ε Bool := do
  return (← observeToken).userPresentFlag

def userVerifiedFlag : EngineM ε Bool := do
  return (← observeToken).userVerifiedFlag

def observeAuthorized (purpose : Purpose) : EngineM ε Unit := do
  match ← Cmd.gets (·.pinState.token.inUse) with
  | some token => observePhase (.authorized token.id purpose)
  | none => pure ()

def verifyPinUvAuthParam [Externals] (protocol : PinProtocol) (message param : Bytes) :
    EngineM Status Unit := do
  let token ← observeToken
  let (result, verified) := token.verify protocol message param
  modifyToken fun _ => verified
  match result with
  | .error status => Cmd.fail status
  | .ok () =>
    match token.inUse with
    | some token => observePhase (.verified token.id message)
    | none => pure ()

/-- `authorize_rp_operation`. -/
def ensurePinTokenPermissionForRp (permission : Permissions) (rpId : String) :
    EngineM Status Unit := do
  let token ← observeToken
  if !token.hasPermission permission then Cmd.fail ctap2ErrPinAuthInvalid
  else if token.permissionsRpId.any fun bound => bound ≠ rpId then
    Cmd.fail ctap2ErrPinAuthInvalid
  else if !token.userVerifiedFlag then Cmd.fail ctap2ErrPinAuthInvalid
  else
    modifyToken (·.update (·.bindRpId rpId))
    observeAuthorized (.rpOperation permission rpId)

def ensurePermission (permission : Permissions) (purpose : Purpose) : EngineM Status Unit := do
  if ← hasPermission permission then observeAuthorized purpose
  else Cmd.fail ctap2ErrPinAuthInvalid

def consumeTokenAfterUserPresence : EngineM ε Unit := do
  let _ ← observeToken
  modifyToken (·.update InUseToken.consume)

def issuePinUvAuthToken (protocol : PinProtocol) (value : Bytes) (grant : TokenGrant) :
    EngineM ε Unit := do
  let issued ← Cmd.gets (·.pinState.token.issued)
  observePhase (.token (issued + 1))
  let time ← now
  modifyToken (·.beginUsing time protocol value false grant)

end Token

end SoftwareAuthenticator.Ctap
