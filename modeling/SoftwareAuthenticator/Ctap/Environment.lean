import SoftwareAuthenticator.Ctap.Protocol
import SoftwareAuthenticator.Interaction.Command

/-!
# What the engine asks of its environment

Each use of the store, the clock, the random number generator, the user and the transport is an
operation with an answer. `observe` answers nothing: it marks where an attempt at the PIN is made
and where a token is issued, verified and used.
-/

namespace SoftwareAuthenticator.Ctap

/-- Times in nanoseconds, `core::time::Duration`. -/
abbrev Duration := ℕ

def seconds (n : ℕ) : Duration := n * 1000000000

inductive PresenceOperation where
  | register
  | authenticate
  | u2fRegister
  | u2fAuthenticate
  | reset
  | select
  | credentialManagement
  deriving DecidableEq, Repr

structure PresenceRequest where
  operation : PresenceOperation
  rpId : Option String
  rpName : Option String
  userName : Option String
  userDisplayName : Option String
  discoverable : Bool
  timeout : Duration
  deriving DecidableEq, Repr

def PresenceRequest.new (operation : PresenceOperation) (timeout : Duration) : PresenceRequest where
  operation := operation
  rpId := none
  rpName := none
  userName := none
  userDisplayName := none
  discoverable := false
  timeout := timeout

inductive PresenceOutcome where
  | approved
  | denied
  | timedOut
  | cancelled
  deriving DecidableEq, Repr

def presenceStatus (operation : PresenceOperation) : PresenceOutcome → Except Status Unit
  | .approved => .ok ()
  | .denied => .error ctap2ErrOperationDenied
  | .timedOut =>
    match operation with
    | .register | .authenticate | .u2fRegister | .u2fAuthenticate =>
      .error ctap2ErrOperationDenied
    | .reset | .credentialManagement | .select => .error ctap2ErrUserActionTimeout
  | .cancelled => .error ctap2ErrKeepaliveCancel

inductive StoreOp where
  | get (credentialId : Bytes)
  | put (record : CredentialRecord)
  | insertOrReplaceDiscoverable (record : CredentialRecord)
  | delete (credentialId : Bytes)
  | list
  | count
  | maxCredentials
  | clear
  | pinState
  | setPinState (state : PinStateRecord)
  | directoryFlush
  | signatureCounter
  | setSignatureCounter (value : UInt32)
  | largeBlobArray
  | setLargeBlobArray (array : Bytes)
  | attestation
  | sealCredentialId (plaintext associatedData : Bytes)
  | openCredentialId (sealed associatedData : Bytes)

def StoreOp.Res : StoreOp → Type
  | .get _ => Except StoreError (Option CredentialRecord)
  | .put _ => Except StoreError Unit
  | .insertOrReplaceDiscoverable _ => Except StoreError CredentialCommit
  | .delete _ => Except StoreError Bool
  | .list => Except StoreError (List CredentialRecord)
  | .count => Except StoreError ℕ
  | .maxCredentials => ℕ
  | .clear => Except StoreError CommitDurability
  | .pinState => Except StoreError (Option PinStateRecord)
  | .setPinState _ => Except StoreError CommitDurability
  | .directoryFlush => DirectoryFlush
  | .signatureCounter => Except StoreError UInt32
  | .setSignatureCounter _ => Except StoreError Unit
  | .largeBlobArray => Except StoreError Bytes
  | .setLargeBlobArray _ => Except StoreError Unit
  | .attestation => Except StoreError (Option AttestationRecord)
  | .sealCredentialId _ _ => Except StoreError Bytes
  | .openCredentialId _ _ => Except StoreError (Option Bytes)

inductive Purpose where
  /-- makeCredential or getAssertion, by the permission it asks for. -/
  | rpOperation (permission : Permissions) (rpId : String)
  | credentialManagement
  | authenticatorConfig
  | largeBlobWrite
  deriving DecidableEq, Repr

inductive Phase where
  /-- An attempt at the PIN begins with this live state. -/
  | attempt (live : PinStateRecord)
  | decryption
  /-- A candidate, `none` if it failed to decrypt, is compared with the stored hash. -/
  | comparison (stored candidate : Option Bytes)
  | newPin (pin : Bytes)
  | token (id : UInt64)
  | verified (id : UInt64) (message : Bytes)
  | authorized (id : UInt64) (purpose : Purpose)
  deriving DecidableEq, Repr

def pinMatches : Option Bytes → Option Bytes → Bool
  | some stored, some candidate => stored = candidate
  | _, _ => false

inductive EnvOp where
  | store (op : StoreOp)
  | now
  | random (n : ℕ)
  | generateKey (alg : CoseAlg)
  | sign (alg : CoseAlg) (key : CredentialSecretKey) (message clientDataHash : Bytes)
  | selfCertificate (key : CredentialSecretKey) (publicKey serial : Bytes)
  | isCancelled
  | keepalive (waiting : Bool)
  | confirm (request : PresenceRequest)
  | observe (phase : Phase)

def EnvOp.Res : EnvOp → Type
  | .store op => op.Res
  | .now => Duration
  | .random n => Vector UInt8 n
  | .generateKey _ => Option PrivateKeyMaterial
  | .sign _ _ _ _ => Option Bytes
  | .selfCertificate _ _ _ => Option Bytes
  | .isCancelled => Bool
  | .keepalive _ => Unit
  | .confirm _ => PresenceOutcome
  | .observe _ => Unit

def EnvOp.leavesPinState : EnvOp → Bool
  | .store .pinState | .store (.setPinState _) | .store .clear => false
  | _ => true

abbrev env : Interface := ⟨EnvOp, EnvOp.Res⟩

abbrev Trace := List env.Event

def mark (phase : Phase) : env.Event := ⟨.observe phase, ()⟩

def isMark (p : Phase → Bool) (e : env.Event) : Bool :=
  match e.op with
  | .observe phase => p phase
  | _ => false

theorem any_isMark {p : Phase → Bool} {tr : Trace} :
    tr.any (isMark p) = true ↔ ∃ phase, p phase = true ∧ mark phase ∈ tr := by
  rw [List.any_eq_true]
  constructor
  · rintro ⟨⟨op, res⟩, hmem, he⟩
    cases op with
    | observe phase => exact ⟨phase, he, hmem⟩
    | _ => exact absurd he Bool.false_ne_true
  · rintro ⟨phase, hp, hmem⟩
    exact ⟨mark phase, hmem, hp⟩

end SoftwareAuthenticator.Ctap
