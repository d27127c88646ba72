import Mathlib.Data.List.Sort
import SoftwareAuthenticator.Ctap.Cbor

/-!
# Algorithms, credential IDs and stored records

An ID names a stored record, or carries a sealed credential itself.
-/

namespace SoftwareAuthenticator.Ctap

inductive CoseAlg where
  | es256 | mldsa44 | mldsa65 | mldsa87 | esp256 | es384 | esp384 | es512 | esp512 | es256k
  | edDsa | ed25519 | ed448 | rs256 | rs384 | rs512 | ps256 | ps384 | ps512 | esb256 | esb384
  deriving DecidableEq, Repr

inductive KeyKind where
  | p256Scalar
  | seed
  | rsaPrimes
  deriving DecidableEq, Repr

namespace CoseAlg

def all : List CoseAlg :=
  [.es256, .mldsa44, .mldsa65, .mldsa87, .esp256, .es384, .esp384, .es512, .esp512, .es256k,
    .edDsa, .ed25519, .ed448, .rs256, .rs384, .rs512, .ps256, .ps384, .ps512, .esb256, .esb384]

def identifier : CoseAlg → ℤ
  | .es256 => -7
  | .mldsa44 => -48
  | .mldsa65 => -49
  | .mldsa87 => -50
  | .esp256 => -9
  | .es384 => -35
  | .esp384 => -51
  | .es512 => -36
  | .esp512 => -52
  | .es256k => -47
  | .edDsa => -8
  | .ed25519 => -19
  | .ed448 => -53
  | .rs256 => -257
  | .rs384 => -258
  | .rs512 => -259
  | .ps256 => -37
  | .ps384 => -38
  | .ps512 => -39
  | .esb256 => -265
  | .esb384 => -267

def keyKind : CoseAlg → KeyKind
  | .es256 | .esp256 => .p256Scalar
  | .rs256 | .rs384 | .rs512 | .ps256 | .ps384 | .ps512 => .rsaPrimes
  | _ => .seed

/-- Whether the key and the identifier fit a sealed credential ID. -/
def isSealable (alg : CoseAlg) : Bool :=
  alg.keyKind ≠ .rsaPrimes ∧ -128 ≤ alg.identifier ∧ alg.identifier ≤ 127

def tryFrom (identifier : ℤ) : Option CoseAlg :=
  all.find? fun alg => alg.identifier = identifier

end CoseAlg

/-- `PrivateKeyMaterial`: its kind and its bytes. -/
structure PrivateKeyMaterial where
  kind : KeyKind
  bytes : Bytes
  deriving DecidableEq, Repr

namespace PrivateKeyMaterial

/-- The 32 bytes that go into a sealed ID, if this kind can be sealed. -/
def sealable (key : PrivateKeyMaterial) : Option Bytes :=
  match key.kind with
  | .p256Scalar | .seed => some key.bytes
  | .rsaPrimes => none

/-- `PrivateKeyMaterial::from_bytes`: the length is that of the kind. -/
def fromBytes (kind : KeyKind) (bytes : Bytes) : Option PrivateKeyMaterial :=
  let length := match kind with
    | .p256Scalar | .seed => 32
    | .rsaPrimes => 256
  if bytes.length = length then some ⟨kind, bytes⟩ else none

end PrivateKeyMaterial

structure CredentialSecretKey where
  kind : KeyKind
  bytes : Bytes
  deriving DecidableEq, Repr

structure CredentialRecord where
  credentialId : Bytes
  rpId : String
  userId : Bytes
  userName : Option String
  userDisplayName : Option String
  alg : CoseAlg
  privateKey : PrivateKeyMaterial
  credRandomWithUv : Bytes
  credRandomWithoutUv : Bytes
  credBlob : Option Bytes
  largeBlobKey : Option Bytes
  thirdPartyPayment : Bool
  credProtect : UInt8
  signCount : UInt32
  createdAt : ℕ
  deriving DecidableEq, Repr

def maxCredBlobLength : ℕ := 32

structure PersistentTokenRecord where
  secret : Bytes
  granted : Bool
  deriving DecidableEq, Repr

/-- One persistent token slot for each PIN/UV auth protocol. -/
structure PersistentTokens where
  one : Option PersistentTokenRecord
  two : Option PersistentTokenRecord
  deriving DecidableEq, Repr

namespace PersistentTokens

def none : PersistentTokens := ⟨Option.none, Option.none⟩

def toList (tokens : PersistentTokens) : List PersistentTokenRecord :=
  tokens.one.toList ++ tokens.two.toList

end PersistentTokens

/-- `PinStateRecord` without the two legacy fields that are written as constants and
never read back. -/
structure PinStateRecord where
  pinHash : Option Bytes
  pinRetries : ℕ
  minPinLength : ℕ
  minPinLengthRpIds : List String
  forcePinChange : Bool
  pinCodePointLength : ℕ
  alwaysUv : Bool
  pinComplexityPolicy : Bool
  persistentTokens : PersistentTokens
  deriving DecidableEq, Repr

def maxPinRetries : ℕ := 8
def defaultMinPinLength : ℕ := 4
def maxPinLength : ℕ := 63
def maxMinPinLengthRpIds : ℕ := 8
def maxRpIdLength : ℕ := 253

/-- `PinStateRecord::default()`, which is also `PersistentPinState::default()`. -/
def PinStateRecord.initial : PinStateRecord where
  pinHash := none
  pinRetries := maxPinRetries
  minPinLength := defaultMinPinLength
  minPinLengthRpIds := []
  forcePinChange := false
  pinCodePointLength := defaultMinPinLength
  alwaysUv := false
  pinComplexityPolicy := false
  persistentTokens := .none

structure AttestationRecord where
  privateKey : Bytes
  certificateChain : List Bytes
  deriving DecidableEq, Repr

inductive StoreError where
  | credentialSetUnavailable
  | io
  | corrupt
  | keyUnavailable
  | full (max : ℕ)
  | invalidRecord (reason : String)
  | random
  deriving DecidableEq, Repr

inductive Corruption where
  | length
  | header
  | authentication
  | encoding
  | inconsistent
  deriving DecidableEq, Repr

inductive CommitDurability where
  | volatile
  | flushed
  | unconfirmed
  deriving DecidableEq, Repr

inductive DirectoryFlush where
  | supported
  | unsupported (err : StoreError)
  | failed (err : StoreError)
  deriving DecidableEq, Repr

structure CredentialCommit where
  durability : CommitDurability
  cleanupPending : Bool
  deriving DecidableEq, Repr

/-- The order of `sort_newest_first`: creation order, then the ID. -/
def newestFirst (a b : CredentialRecord) : Bool :=
  b.createdAt < a.createdAt ∨
    (a.createdAt = b.createdAt ∧ lexOrder a.credentialId b.credentialId ≠ .gt)

def sortNewestFirst (records : List CredentialRecord) : List CredentialRecord :=
  records.insertionSort fun a b => newestFirst a b

theorem mem_sortNewestFirst {records : List CredentialRecord} {record : CredentialRecord} :
    record ∈ sortNewestFirst records ↔ record ∈ records :=
  List.mem_insertionSort _

theorem lexOrder_swap (a b : Bytes) : lexOrder b a = (lexOrder a b).swap := by
  induction a generalizing b with
  | nil => cases b <;> rfl
  | cons x a ih =>
    cases b with
    | nil => rfl
    | cons y b =>
      rw [lexOrder, lexOrder, ih, Ordering.swap_then, Nat.compare_swap]

def credentialIdLength : ℕ := 33
def discoverableMarker : UInt8 := 0x01
def nonDiscoverableMarker : UInt8 := 0x00
def sealedMarker : UInt8 := 0x02

def sealedIdOverhead : ℕ := 40
def sealedKeyLength : ℕ := 32
def sealedPlaintextLength : ℕ := 2 + sealedKeyLength + 32
def sealedIdLength : ℕ := 1 + sealedIdOverhead + sealedPlaintextLength

def isSealed (credentialId : Bytes) : Bool :=
  credentialId.length = sealedIdLength ∧ credentialId.head? = some sealedMarker

def isDiscoverable (credentialId : Bytes) : Bool :=
  !(isSealed credentialId ||
    (credentialId.length = credentialIdLength ∧
      credentialId.head? = some nonDiscoverableMarker : Bool))

end SoftwareAuthenticator.Ctap
