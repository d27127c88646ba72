import SoftwareAuthenticator.Ctap.ClientPin

/-!
# What makeCredential and getAssertion share

The parsing of their parameters, the hmac-secret extension, and the credential a
credential ID names: a stored record, or the credential sealed into the ID.
-/

namespace SoftwareAuthenticator.Ctap

def paramMember (entries : Entries) (name : String) : Except Status Value :=
  match mapGet entries (.text name) with
  | some value => .ok value
  | none => .error ctap2ErrInvalidCbor

/-- The loop of `chosen_algorithm`: every element is checked, the first supported one
is chosen. -/
def chooseAlgorithm : List Value → Option CoseAlg → Except Status (Option CoseAlg)
  | [], chosen => .ok chosen
  | element :: rest, chosen => do
    let entries ← element.asMap
    let credentialType ← (← paramMember entries "type").asText
    let alg ← (← paramMember entries "alg").asInteger
    let chosen :=
      if chosen.isNone ∧ credentialType = "public-key" then CoseAlg.tryFrom alg else chosen
    chooseAlgorithm rest chosen

def chosenAlgorithm (pubKeyCredParams : List Value) : Except Status CoseAlg := do
  match ← chooseAlgorithm pubKeyCredParams none with
  | some alg => .ok alg
  | none => .error ctap2ErrUnsupportedAlgorithm

/-- The id of a PublicKeyCredentialDescriptor, `none` for another type. -/
def publicKeyCredentialId (descriptor : Entries) : Except Status (Option Bytes) := do
  let credentialType ← structureText descriptor "type"
  let id ← structureBytes descriptor "id"
  return if credentialType = "public-key" then some id else none

def descriptorIds : List Value → Except Status (List Bytes)
  | [] => .ok []
  | descriptor :: rest => do
    let id ← publicKeyCredentialId (← descriptor.asMap)
    return id.toList ++ (← descriptorIds rest)

def credentialIds (list : Value) : Except Status (List Bytes) := do
  descriptorIds (← list.asArray)

def clientDataHash : Option Value → Except Status Bytes
  | some (.bytes bytes) => if bytes.length = 32 then .ok bytes else .error ctap1ErrInvalidLength
  | some _ => .error ctap2ErrCborUnexpectedType
  | none => .error ctap2ErrMissingParameter

structure RequestOptions where
  rk : Option Bool
  up : Option Bool
  uv : Option Bool
  deriving DecidableEq, Repr

def parseOptions : Option Value → Except Status RequestOptions
  | none => .ok ⟨none, none, none⟩
  | some value => do
    let entries ← value.asMap
    let flag := fun name => optionalMember Value.asBool (mapGet entries (.text name))
    return ⟨← flag "rk", ← flag "up", ← flag "uv"⟩

def isZeroLength : Option Value → Bool
  | some (.bytes bytes) => bytes.isEmpty
  | _ => false

def maxUserIdLength : ℕ := 64
def maxNameLength : ℕ := 64

/-- The longest prefix of `chars` that takes at most `max` bytes. -/
def truncateChars : List Char → ℕ → List Char
  | [], _ => []
  | c :: cs, max => if c.utf8Size ≤ max then c :: truncateChars cs (max - c.utf8Size) else []

def truncateUtf8 (text : String) (max : ℕ) : String := String.ofList (truncateChars text.toList max)

def boundedText (entries : Entries) (name : String) : Except Status (Option String) := do
  return (← optionalStructureText entries name).map (truncateUtf8 · maxNameLength)

variable [Externals]

structure HmacSecretRequest where
  keyAgreement : Entries
  saltEnc : Bytes
  saltAuth : Bytes
  protocol : PinProtocol

def parseHmacSecretRequest (value : Value) : Except Status HmacSecretRequest := do
  let params ← value.asMap
  let keyAgreement ← requiredMap params 1
  let saltEnc ← requiredBytes params 2
  let saltAuth ← requiredBytes params 3
  let protocol ← match mapGet params (.int 4) with
    | some value => parsePinUvAuthProtocol value
    | none => .ok .v1
  return { keyAgreement, saltEnc, saltAuth, protocol }

/-- `HMAC-SHA-256(CredRandom, salt)` for each of the one or two salts. -/
def PendingHmacSecret.outputsFor (pending : PendingHmacSecret) (credRandom : Bytes) : Bytes :=
  if pending.saltPlaintext.length = 64 then
    hmacSha256 credRandom (pending.saltPlaintext.take 32) ++
      hmacSha256 credRandom (pending.saltPlaintext.drop 32)
  else hmacSha256 credRandom pending.saltPlaintext

def encryptHmacSecretOutputs (pending : PendingHmacSecret) (credRandom : Bytes) :
    EngineM Status Bytes :=
  encryptForPlatform pending.protocol pending.keys (pending.outputsFor credRandom)

def decryptSalts (protocol : PinProtocol) (keys : PinUvSessionKeys) (saltEnc : Bytes) :
    Option Bytes :=
  (decrypt protocol keys saltEnc).filter fun salts => salts.length = 32 ∨ salts.length = 64

def CredentialRecord.credRandom (record : CredentialRecord) (userVerified : Bool) : Bytes :=
  if userVerified then record.credRandomWithUv else record.credRandomWithoutUv

def processHmacSecret (request : HmacSecretRequest) (credential : CredentialRecord)
    (userVerified : Bool) : EngineM Status (Bytes × PendingHmacSecret) := do
  let keys ← decapsulate request.protocol request.keyAgreement
  Cmd.ofExcept (verify request.protocol keys.authKey request.saltEnc request.saltAuth)
  let salts ← okOr (decryptSalts request.protocol keys request.saltEnc) ctap1ErrInvalidParameter
  let pending : PendingHmacSecret := ⟨request.protocol, keys, salts⟩
  let encrypted ← encryptHmacSecretOutputs pending (credential.credRandom userVerified)
  return (encrypted, pending)

def newCredentialId (discoverable : Bool) : EngineM Status Bytes := do
  let random ← randomArray 32
  return (if discoverable then discoverableMarker else nonDiscoverableMarker) :: random

def sealedIdContext : Bytes := utf8 "pqkey/v2/sealed-credential-id"

def sealedAssociatedData (rpIdHash : Bytes) : Bytes := sealedIdContext ++ rpIdHash

def deriveSealedCredRandoms (record : CredentialRecord) (seed : Bytes) : CredentialRecord :=
  { record with
    credRandomWithUv :=
      hkdfSha256 seed (utf8 "pqkey/v2/sealed-credential/cred-random-with-uv")
    credRandomWithoutUv :=
      hkdfSha256 seed (utf8 "pqkey/v2/sealed-credential/cred-random-without-uv") }

/-- The algorithm identifier as the signed byte of a sealed ID. -/
def algByte (alg : CoseAlg) : UInt8 := UInt8.ofNat (alg.identifier % 256).toNat

/-- `i32::from(byte as i8)`. -/
def signedByte (byte : UInt8) : ℤ := if byte < 128 then byte.toNat else byte.toNat - 256

def sealCredential (record : CredentialRecord) (key rpIdHash : Bytes) :
    EngineM Status CredentialRecord := do
  if record.thirdPartyPayment ∨ record.alg.isSealable = false then Cmd.fail ctap2ErrProcessing
  else
    let seed ← randomArray 32
    let record := deriveSealedCredRandoms record seed
    let plaintext := [algByte record.alg, record.credProtect] ++ key ++ seed
    let sealed ← orStatus
      (storeAsk (.sealCredentialId plaintext (sealedAssociatedData rpIdHash)))
    if sealed.length ≠ sealedIdLength - 1 then Cmd.fail ctap2ErrProcessing
    else return { record with credentialId := sealedMarker :: sealed }

def sealedCredential (credentialId : Bytes) (plaintext : Bytes) : Option CredentialRecord :=
  match plaintext with
  | algByte :: credProtect :: rest =>
    if rest.length ≠ sealedKeyLength + 32 then none
    else do
      let alg ← CoseAlg.tryFrom (signedByte algByte)
      if alg.isSealable = false then none
      else
        let privateKey ← PrivateKeyMaterial.fromBytes alg.keyKind (rest.take sealedKeyLength)
        let credential := deriveSealedCredRandoms
          { credentialId
            rpId := ""
            userId := []
            userName := none
            userDisplayName := none
            alg
            privateKey
            credRandomWithUv := []
            credRandomWithoutUv := []
            credBlob := none
            largeBlobKey := none
            thirdPartyPayment := false
            credProtect
            signCount := 0
            createdAt := 0 } (rest.drop sealedKeyLength)
        if credential.fault.isNone then some credential else none
  | _ => none

/-- Look up a credential bound to a hash, without knowing the RP ID. -/
def credentialForHash (credentialId rpIdHash : Bytes) :
    EngineM Status (Option CredentialRecord) := do
  if isSealed credentialId then
    let opened ← orStatus
      (storeAsk (.openCredentialId (credentialId.drop 1) (sealedAssociatedData rpIdHash)))
    return opened.bind (sealedCredential credentialId)
  else
    let stored ← storedCredential credentialId
    return stored.filter fun credential => sha256 (utf8 credential.rpId) = rpIdHash

/-- What a credential found by the hash of `rpId` is for that relying party. -/
def boundTo (credentialId : Bytes) (rpId : String) (credential : CredentialRecord) :
    Option CredentialRecord :=
  if isSealed credentialId then some { credential with rpId := rpId }
  else if credential.rpId ≠ rpId then none
  else some credential

def credentialForRp (credentialId : Bytes) (rpId : String) :
    EngineM Status (Option CredentialRecord) := do
  let credential ← credentialForHash credentialId (sha256 (utf8 rpId))
  return credential.bind (boundTo credentialId rpId)

end SoftwareAuthenticator.Ctap
