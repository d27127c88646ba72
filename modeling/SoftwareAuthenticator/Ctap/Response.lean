import SoftwareAuthenticator.Ctap.Storage

/-!
# Authenticator data and responses

The successful answers of the commands, before they are written as CBOR.
`AuthenticatorData.bytes` is what is signed and sent.
-/

namespace SoftwareAuthenticator.Ctap

structure AttestedCredential where
  aaguid : Bytes
  credentialId : Bytes
  coseKey : Bytes
  deriving DecidableEq, Repr

def AttestedCredential.bytes (attested : AttestedCredential) : Bytes :=
  attested.aaguid ++ beBytes16 (UInt16.ofNat attested.credentialId.length) ++
    attested.credentialId ++ attested.coseKey

structure AuthenticatorData where
  rpIdHash : Bytes
  flags : UInt8
  signCount : UInt32
  attested : Option AttestedCredential
  extensions : Option Bytes
  deriving DecidableEq, Repr

namespace AuthenticatorData

def bytes (data : AuthenticatorData) : Bytes :=
  data.rpIdHash ++ [data.flags] ++ beBytes32 data.signCount ++
    (data.attested.map AttestedCredential.bytes).getD [] ++ data.extensions.getD []

def userPresent (data : AuthenticatorData) : Bool := data.flags &&& 0x01 ≠ 0

def userVerified (data : AuthenticatorData) : Bool := data.flags &&& 0x04 ≠ 0

end AuthenticatorData

/-- `flags |= bit` for each of the bits that is set, from `start`. -/
def flagsFrom (start : UInt8) (userPresent userVerified extensions : Bool) : UInt8 :=
  let flags := if userPresent then start ||| 0x01 else start
  let flags := if userVerified then flags ||| 0x04 else flags
  if extensions then flags ||| 0x80 else flags

structure UserEntity where
  id : Bytes
  name : Option String
  displayName : Option String
  deriving DecidableEq, Repr

structure AssertionResponse where
  credentialId : Bytes
  authData : AuthenticatorData
  signature : Bytes
  user : Option UserEntity
  numberOfCredentials : Option ℕ
  largeBlobKey : Option Bytes
  deriving DecidableEq, Repr

structure AttestationResponse where
  format : String
  authData : AuthenticatorData
  attStmt : Value
  largeBlobKey : Option Bytes

inductive Response where
  | ok
  | entries (value : Value)
  | assertion (response : AssertionResponse)
  | attestation (response : AttestationResponse)

def optionalEntry {α : Type} (key : Value) (f : α → Value) (x : Option α) : Entries :=
  (x.map fun a => (key, f a)).toList

variable [Externals]

def UserEntity.value (user : UserEntity) : Value :=
  canonicalMap ([(.text "id", .bytes user.id)] ++
    optionalEntry (.text "name") .text user.name ++
    optionalEntry (.text "displayName") .text user.displayName)

def descriptorValue (credentialId : Bytes) : Value :=
  canonicalMap [(.text "type", .text "public-key"), (.text "id", .bytes credentialId)]

def AssertionResponse.value (response : AssertionResponse) : Value :=
  canonicalMap ([
    (.integer 1, descriptorValue response.credentialId),
    (.integer 2, .bytes response.authData.bytes),
    (.integer 3, .bytes response.signature)] ++
    optionalEntry (.integer 4) UserEntity.value response.user ++
    optionalEntry (.integer 5) (fun n : ℕ => .integer n) response.numberOfCredentials ++
    optionalEntry (.integer 7) .bytes response.largeBlobKey)

def AttestationResponse.value (response : AttestationResponse) : Value :=
  canonicalMap ([
    (.integer 1, .text response.format),
    (.integer 2, .bytes response.authData.bytes),
    (.integer 3, response.attStmt)] ++
    optionalEntry (.integer 5) .bytes response.largeBlobKey)

def Response.body : Response → Option Value
  | .ok => none
  | .entries value => some value
  | .assertion response => some response.value
  | .attestation response => some response.value

def Response.bytes (response : Response) : Except Status Bytes :=
  match response.body with
  | none => .ok [ctap2Ok]
  | some value => (encode value).map (ctap2Ok :: ·)

/-- A response whose body must be encodable. -/
def respondWith (response : Response) : EngineM Status Response := do
  let _ ← Cmd.ofExcept response.bytes
  return response

end SoftwareAuthenticator.Ctap
