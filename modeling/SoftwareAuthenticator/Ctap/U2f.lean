import SoftwareAuthenticator.Ctap.LargeBlobs
import SoftwareAuthenticator.U2fApdu

/-!
# U2F registration and authentication

The engine's answers to the commands of `U2fApdu`. A U2F credential is a credential
sealed into its key handle, bound to the application parameter.
-/

namespace SoftwareAuthenticator.Ctap

open U2fApdu

inductive U2fReply where
  | version
  | registration (publicKey keyHandle certificate signature : Bytes)
  | authentication (userPresent : Bool) (counter : UInt32) (signature : Bytes)
  deriving DecidableEq, Repr

def presenceAndCounter (userPresent : Bool) (counter : UInt32) : Bytes :=
  (if userPresent then 1 else 0) :: beBytes32 counter

def U2fReply.bytes : U2fReply → Bytes
  | .version => utf8 "U2F_V2"
  | .registration publicKey keyHandle certificate signature =>
    [5] ++ publicKey ++ [UInt8.ofNat keyHandle.length] ++ keyHandle ++ certificate ++ signature
  | .authentication userPresent counter signature =>
    presenceAndCounter userPresent counter ++ signature

variable [Externals]

def u2fPresence (operation : PresenceOperation) : EngineM StatusWord Unit := do
  let timeout ← Cmd.gets (·.presenceTimeout)
  match ← askUser (.new operation timeout) with
  | .approved => pure ()
  | _ => Cmd.fail swConditionsNotSatisfied

def u2fRecord (privateKey : PrivateKeyMaterial) : CredentialRecord where
  credentialId := []
  rpId := ""
  userId := []
  userName := none
  userDisplayName := none
  alg := .es256
  privateKey := privateKey
  credRandomWithUv := List.replicate 32 0
  credRandomWithoutUv := List.replicate 32 0
  credBlob := none
  largeBlobKey := none
  thirdPartyPayment := false
  credProtect := 1
  signCount := 0
  createdAt := 0

/-- `public_key`: only P-256 keys have one here. -/
def u2fPublicKey (key : CredentialSecretKey) : Except StatusWord Bytes :=
  if key.kind = .p256Scalar then .ok (Externals.sec1Point key) else .error swInternalError

/-- The serial of a self-signed certificate: positive, and not zero. -/
def positiveSerial : Bytes → Bytes
  | [] => []
  | first :: rest => ((first &&& 0x7f) ||| 1) :: rest

def u2fAttestationRecord : EngineM StatusWord (Option AttestationRecord) := do
  match ← Cmd.gets (·.attestationMode) with
  | .certificate => attestationRecord
  | .selfAttestation | .none => return none

def u2fAttestation (key : CredentialSecretKey) (publicKey : Bytes) :
    EngineM StatusWord (Bytes × CredentialSecretKey) := do
  match ← u2fAttestationRecord with
  | some attestation =>
    let signingKey ← okOr (Externals.credentialSecretFromBytes .es256 attestation.privateKey)
      swInternalError
    let certificate ← okOr attestation.certificateChain.head? swInternalError
    return (certificate, signingKey)
  | none =>
    let serial ← randomArray 16
    let certificate ← askEnv (.selfCertificate key publicKey (positiveSerial serial))
    return (← okOr certificate swInternalError, key)

def registrationBase (application challenge keyHandle publicKey : Bytes) : Bytes :=
  [0] ++ application ++ challenge ++ keyHandle ++ publicKey

def u2fSign (key : CredentialSecretKey) (message challenge : Bytes) : EngineM StatusWord Bytes := do
  okOr (← trySignChallenge .es256 key message challenge) swInternalError

def u2fRegister (challenge application : Bytes) : EngineM StatusWord U2fReply := do
  u2fPresence .u2fRegister
  let privateKey ← okOr (← generateKey .es256) swInternalError
  let material ← okOr privateKey.sealable swInternalError
  let record ← (sealCredential (u2fRecord privateKey) material application).mapError
    fun _ => swInternalError
  let key ← okOr record.secretKey swInternalError
  let publicKey ← Cmd.ofExcept (u2fPublicKey key)
  let (certificate, signer) ← u2fAttestation key publicKey
  let signature ←
    u2fSign signer (registrationBase application challenge record.credentialId publicKey) []
  if 256 ≤ record.credentialId.length then Cmd.fail swInternalError
  else return .registration publicKey record.credentialId certificate signature

def usableOverU2f (record : CredentialRecord) : Bool :=
  record.alg = .es256 ∧ isDiscoverable record.credentialId = false ∧ record.credProtect ≠ 3

def u2fCredential (handle application : Bytes) : EngineM StatusWord CredentialRecord := do
  let found ← (credentialForHash handle application).mapError fun _ => swInternalError
  okOr (found.filter usableOverU2f) swWrongData

def u2fAuthenticate (control : UInt8) (challenge application handle : Bytes) :
    EngineM StatusWord U2fReply := do
  let record ← u2fCredential handle application
  if control = 7 then Cmd.fail swConditionsNotSatisfied
  else
    Cmd.when (control = 3) (u2fPresence .u2fAuthenticate)
    let key ← okOr record.secretKey swInternalError
    let record ← (advanceSignatureCounter record).mapError fun _ => swInternalError
    let userPresent : Bool := control = 3
    let signature ←
      u2fSign key (application ++ presenceAndCounter userPresent record.signCount) challenge
    return .authentication userPresent record.signCount signature

def u2fRequest : U2fApdu.Request → EngineM StatusWord U2fReply
  | .version => return .version
  | .register challenge application => u2fRegister challenge application
  | .authenticate control challenge application handle =>
    u2fAuthenticate control challenge application handle

/-- Data that does not fit a response is an internal error. -/
def fittingReply (reply : U2fReply) : EngineM StatusWord U2fReply :=
  if reply.bytes.length ≤ maxResponseSize - 2 then pure reply else Cmd.fail swInternalError

/-- `call_u2f`, up to writing the answer as bytes. -/
def handleU2f (apdu : Bytes) : EngineM StatusWord U2fReply := do
  setPendingAssertion none
  observeLargeBlobState none
  let disabled ← Cmd.gets (·.pinState.persistent.alwaysUv)
  let request ← Cmd.ofExcept (decode apdu disabled)
  let reply ← u2fRequest request
  fittingReply reply

end SoftwareAuthenticator.Ctap
