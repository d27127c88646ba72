import SoftwareAuthenticator.Ctap.Records

/-!
# Cryptography and the PIN/UV auth protocols

`Externals` are the functions of other libraries: hashes, ciphers, curves and the CBOR reader and
writer. Nothing is assumed of them except the length of a SHA-256 hash.
-/

namespace SoftwareAuthenticator.Ctap

class Externals where
  sha256 : Bytes → Bytes
  length_sha256 : ∀ message, (sha256 message).length = 32
  hmacSha256 (key message : Bytes) : Bytes
  aesCbcEncrypt (key iv plaintext : Bytes) : Bytes
  aesCbcDecrypt (key iv ciphertext : Bytes) : Bytes
  /-- `P256SecretKey::from_slice(..).is_ok()`. -/
  p256SecretValid : Bytes → Bool
  /-- The coordinates of the public point of a P-256 private key. -/
  p256Point : Bytes → Bytes × Bytes
  /-- ECDH with an uncompressed peer point, `none` if it is not on the curve. -/
  diffieHellman (secret peer : Bytes) : Option Bytes
  /-- `crypto::rsa::signing_key(..).is_ok()`. -/
  rsaKeyValid : Bytes → Bool
  credentialSecretFromBytes : CoseAlg → Bytes → Option CredentialSecretKey
  cosePublicKey : CoseAlg → CredentialSecretKey → Option Bytes
  /-- `verifying_key().to_sec1_point(false)` of a P-256 key. -/
  sec1Point : CredentialSecretKey → Bytes
  fromReader : Bytes → Option Value
  intoWriter : Value → Option Bytes

export Externals (sha256 hmacSha256 fromReader intoWriter)

variable [Externals]

def requestParameters (payload : Bytes) : Except Status Entries := do
  match fromReader (← decodable payload) with
  | some (.map entries) => .ok entries
  | _ => .error ctap2ErrInvalidCbor

def encodeKey (key : Value) : Bytes := (intoWriter key).getD []

def canonicalSort (entries : Entries) : Entries :=
  entries.insertionSort fun a b => canonicalKeyOrder (encodeKey a.1) (encodeKey b.1) ≠ .gt

def canonicalMap (entries : Entries) : Value := .map (canonicalSort entries)

/-- `into_writer(..).map_err(|_| CTAP2_ERR_PROCESSING)`. -/
def encode (value : Value) : Except Status Bytes :=
  match intoWriter value with
  | some bytes => .ok bytes
  | none => .error ctap2ErrProcessing

def encodeExtensions (entries : Entries) : Except Status (Option Bytes) :=
  if entries.isEmpty then .ok none else (encode (canonicalMap entries)).map some

def CredentialRecord.secretKey (record : CredentialRecord) : Option CredentialSecretKey :=
  if record.privateKey.kind ≠ record.alg.keyKind then none
  else Externals.credentialSecretFromBytes record.alg record.privateKey.bytes

/-- `CredentialRecord::keypair`: the signing key and the encoded public key. -/
def CredentialRecord.keypair (record : CredentialRecord) : Option (CredentialSecretKey × Bytes) := do
  let secret ← record.secretKey
  let publicKey ← Externals.cosePublicKey record.alg secret
  return (secret, publicKey)

/-- What is wrong with a private key of its kind, as `check_credential` rebuilds it. -/
def PrivateKeyMaterial.fault (key : PrivateKeyMaterial) : Option String :=
  match key.kind with
  | .p256Scalar =>
    if Externals.p256SecretValid key.bytes then none
    else some "the private key is not a valid P-256 scalar"
  | .rsaPrimes =>
    if Externals.rsaKeyValid key.bytes then none
    else some "the private key is not valid RSA-2048 material"
  | .seed => none

/-- The reason `validate_credential` gives for refusing a record. -/
def CredentialRecord.fault (record : CredentialRecord) : Option String :=
  if record.credentialId.isEmpty then some "credential ID is empty"
  else if isSealed record.credentialId ∧ record.alg.isSealable = false then
    some "algorithm requires a stored credential"
  else if record.thirdPartyPayment ∧ isSealed record.credentialId then
    some "third-party payment metadata requires a stored credential"
  else if record.privateKey.kind ≠ record.alg.keyKind then
    some "alg does not match the private key material"
  else if record.privateKey.fault.isSome then record.privateKey.fault
  else if record.credBlob.any fun blob => maxCredBlobLength < blob.length then
    some "credential blob exceeds 32 bytes"
  else if record.largeBlobKey.isSome ∧ isDiscoverable record.credentialId = false then
    some "large-blob key requires a discoverable credential"
  else if ¬ (1 ≤ record.credProtect ∧ record.credProtect ≤ 3) then
    some "credProtect level must be 1, 2 or 3"
  else none

def validateCredential (record : CredentialRecord) : Except StoreError Unit :=
  match record.fault with
  | none => .ok ()
  | some reason => .error (.invalidRecord reason)

def hkdfSha256 (ikm info : Bytes) : Bytes :=
  hmacSha256 (hmacSha256 (List.replicate 32 0) ikm) (info ++ [1])

inductive PinProtocol where
  | v1
  | v2
  deriving DecidableEq, Repr

def PinProtocol.identifier : PinProtocol → ℤ
  | .v1 => 1
  | .v2 => 2

/-- The persistent token slot `usize::from(protocol.identifier() == 2)`. -/
def PersistentTokens.get (tokens : PersistentTokens) : PinProtocol → Option PersistentTokenRecord
  | .v1 => tokens.one
  | .v2 => tokens.two

def PersistentTokens.set (tokens : PersistentTokens) (token : PersistentTokenRecord) :
    PinProtocol → PersistentTokens
  | .v1 => { tokens with one := some token }
  | .v2 => { tokens with two := some token }

structure PinUvSessionKeys where
  encryptionKey : Bytes
  authKey : Bytes
  deriving DecidableEq, Repr

def deriveSessionKeys (protocol : PinProtocol) (sharedSecret : Bytes) : PinUvSessionKeys :=
  match protocol with
  | .v1 => ⟨sha256 sharedSecret, sha256 sharedSecret⟩
  | .v2 => ⟨hkdfSha256 sharedSecret (utf8 "CTAP2 AES key"),
      hkdfSha256 sharedSecret (utf8 "CTAP2 HMAC key")⟩

def zeroIv : Bytes := List.replicate 16 0

def encryptPinBlock (protocol : PinProtocol) (keys : PinUvSessionKeys) (iv : Option Bytes)
    (plaintext : Bytes) : Option Bytes :=
  if plaintext.length % 16 ≠ 0 then none
  else
    match protocol, iv with
    | .v1, _ => some (Externals.aesCbcEncrypt keys.encryptionKey zeroIv plaintext)
    | .v2, some iv => some (iv ++ Externals.aesCbcEncrypt keys.encryptionKey iv plaintext)
    | .v2, none => none

def decrypt (protocol : PinProtocol) (keys : PinUvSessionKeys) (ciphertext : Bytes) :
    Option Bytes :=
  match protocol with
  | .v1 =>
    if ciphertext.length % 16 ≠ 0 then none
    else some (Externals.aesCbcDecrypt keys.encryptionKey zeroIv ciphertext)
  | .v2 =>
    if ciphertext.length < 16 ∨ (ciphertext.drop 16).length % 16 ≠ 0 then none
    else some (Externals.aesCbcDecrypt keys.encryptionKey (ciphertext.take 16)
      (ciphertext.drop 16))

def authenticate (protocol : PinProtocol) (key message : Bytes) : Bytes :=
  match protocol with
  | .v1 => (hmacSha256 key message).take 16
  | .v2 => hmacSha256 key message

def verify (protocol : PinProtocol) (key message signature : Bytes) : Except Status Unit :=
  if authenticate protocol key message = signature then .ok () else .error ctap2ErrPinAuthInvalid

/-- `LEFT(SHA-256(pin), 16)`. -/
def pinHash (pin : Bytes) : Bytes := (sha256 pin).take 16

def parsePinUvAuthProtocol (value : Value) : Except Status PinProtocol := do
  let identifier ← value.asInteger
  if identifier = 1 then .ok .v1
  else if identifier = 2 then .ok .v2
  else .error ctap1ErrInvalidParameter

def parseRequiredPinUvAuthProtocol : Option Value → Except Status PinProtocol
  | some value => parsePinUvAuthProtocol value
  | none => .error ctap2ErrMissingParameter

def parsePinUvAuthParam (pinUvAuthParam pinUvAuthProtocol : Option Value) :
    Except Status (Option (PinProtocol × Bytes)) :=
  match pinUvAuthParam with
  | none => .ok none
  | some param => do
    let param ← param.asBytes
    let protocol ← parseRequiredPinUvAuthProtocol pinUvAuthProtocol
    return some (protocol, param)

/-- `KeyAgreementKey::cose_key` of a P-256 private key. -/
def keyAgreementCoseKey (secretKey : Bytes) : Value :=
  canonicalMap [
    (.integer 1, .integer 2),
    (.integer 3, .integer (-25)),
    (.integer (-1), .integer 1),
    (.integer (-2), .bytes (Externals.p256Point secretKey).1),
    (.integer (-3), .bytes (Externals.p256Point secretKey).2)]

def coordinate (platformKey : Entries) (label : ℤ) : Except Status Bytes :=
  match mapGet platformKey (.int label) with
  | some (.bytes b) => .ok b
  | _ => .error ctap1ErrInvalidParameter

/-- An EC2 key on P-256 with one of the accepted algorithms. -/
def isPlatformKey (platformKey : Entries) : Bool :=
  (match mapGet platformKey (.int 1) with
    | some (.integer kty) => kty = 2
    | _ => false) &&
  (match mapGet platformKey (.int (-1)) with
    | some (.integer crv) => crv = 1
    | _ => false) &&
  (match mapGet platformKey (.int 3) with
    | some (.integer alg) => alg = -25 ∨ alg = -7
    | _ => false)

/-- `KeyAgreementKey::decapsulate`. -/
def keyDecapsulate (secretKey : Bytes) (protocol : PinProtocol) (platformKey : Entries) :
    Except Status PinUvSessionKeys := do
  if !isPlatformKey platformKey then .error ctap1ErrInvalidParameter
  else
    let peerX ← coordinate platformKey (-2)
    let peerY ← coordinate platformKey (-3)
    if peerX.length ≠ 32 ∨ peerY.length ≠ 32 then .error ctap1ErrInvalidParameter
    else
      match Externals.diffieHellman secretKey (4 :: peerX ++ peerY) with
      | some shared => .ok (deriveSessionKeys protocol shared)
      | none => .error ctap1ErrInvalidParameter

abbrev Permissions := UInt8

def permissionMc : Permissions := 0x01
def permissionGa : Permissions := 0x02
def permissionCm : Permissions := 0x04
def permissionLbw : Permissions := 0x10
def permissionAcfg : Permissions := 0x20
def permissionPcmr : Permissions := 0x40
def definedPermissions : Permissions := 0x7F

def supportedPermissions : Permissions :=
  permissionMc ||| permissionGa ||| permissionCm ||| permissionLbw ||| permissionAcfg |||
    permissionPcmr

/-- `permissions & i128::from(..)` as a byte: the low seven bits in two's complement. -/
def definedBits (permissions : ℤ) : Permissions :=
  UInt8.ofNat (permissions % 256).toNat &&& definedPermissions

def requestedPinPermissions (permissions : ℤ) : Except Status Permissions :=
  let defined := definedBits permissions
  if (defined &&& permissionPcmr ≠ 0 ∧ defined ≠ permissionPcmr) ∨
      defined &&& ~~~supportedPermissions ≠ 0 then .error ctap2ErrUnauthorizedPermission
  else .ok defined

end SoftwareAuthenticator.Ctap
