import SoftwareAuthenticator.Ctap.Engine

/-!
# Persistence through the store

A store error is never taken for an empty store: it ends the command, or closes the live PIN
state.
-/

namespace SoftwareAuthenticator.Ctap

def storeStatus : StoreError → Status
  | .full _ => ctap2ErrKeyStoreFull
  | _ => ctap2ErrProcessing

/-- Whether an error condemns the stored PIN state and not just this read of it. -/
def closesAuthority : StoreError → Bool
  | .io => false
  | _ => true

def orStatus {α : Type} (c : EngineM Status (Except StoreError α)) : EngineM Status α := do
  match ← c with
  | .ok a => pure a
  | .error err => Cmd.fail (storeStatus err)

/-- Set and blocked: no retries left, and a random PIN hash. -/
def closedPersistent (hash : Bytes) : PersistentPinState :=
  { PinStateRecord.initial with pinHash := some hash, pinRetries := 0, alwaysUv := true }

/-- `unreadable_pin_state` and `load_pin_state` are used before the engine exists, so
they are commands of any component. -/
def unreadablePinState {σ ε : Type} : Cmd env σ ε PinState := do
  let hash : Vector UInt8 16 ← Cmd.ask (I := env) (.random 16)
  return .fromPersistent (closedPersistent hash.toList)

def loadPinState {σ ε : Type} : Cmd env σ ε (PinState × StoredPinState) := do
  let loaded : Except StoreError (Option PinStateRecord) ← Cmd.ask (I := env) (.store .pinState)
  match loaded with
  | .ok (some record) => return (.fromPersistent record, .read)
  | .ok none => return (.fromPersistent .initial, .read)
  | .error err =>
    let closed ← unreadablePinState
    return (closed, if closesAuthority err then .unreadable else .unread)

def readUnreadPinState : EngineM Status Unit := do
  let (loaded, stored) ← loadPinState
  setStoredPinState stored
  match stored with
  | .read =>
    modifyPinState fun state =>
      (state.adoptPersistent loaded.persistent).invalidatePinUvAuthTokens
    clearCredMgmt
  | .unread | .unreadable => Cmd.fail ctap2ErrProcessing

def closeAuthority : EngineM Status Unit := do
  modifyPinState fun state =>
    (state.adoptPersistent { state.persistent with
      persistentTokens := .none, pinRetries := 0, alwaysUv := true }).invalidatePinUvAuthTokens
  clearCredMgmt
  setStoredPinState .unreadable

/-- The stored record differs from the live state in more than the retries and the
persistent tokens. -/
def changedPin (current record : PersistentPinState) : Bool :=
  current.pinHash ≠ record.pinHash ∨ current.minPinLength ≠ record.minPinLength ∨
    current.minPinLengthRpIds ≠ record.minPinLengthRpIds ∨
    current.forcePinChange ≠ record.forcePinChange ∨
    current.pinCodePointLength ≠ record.pinCodePointLength ∨
    current.alwaysUv ≠ record.alwaysUv ∨
    current.pinComplexityPolicy ≠ record.pinComplexityPolicy

/-- Adopt the stored record where it differs from the live state. -/
def adoptStored (record : PinStateRecord) : EngineM Status Unit := do
  let current ← Cmd.gets (·.pinState.persistent)
  let changed := changedPin current record
  if changed ∨ current.persistentTokens ≠ record.persistentTokens then
    Cmd.when changed (modifyPinState PinState.invalidatePinUvAuthTokens)
    modifyPinState (·.adoptPersistent record)
    clearCredMgmt
  else pure ()

/-- A missing record is allowed only before a PIN or token exists. -/
def missingAllowed (current : PersistentPinState) : Bool :=
  current.pinHash.isNone ∧ current.persistentTokens = .none

/-- The part of `refresh_persistent_authority` after a read PIN state was found. -/
def refreshRead : EngineM Status Unit := do
  match ← storeAsk .pinState with
  | .ok (some record) => adoptStored record
  | .ok none =>
    if missingAllowed (← Cmd.gets (·.pinState.persistent)) then pure ()
    else
      closeAuthority
      Cmd.fail ctap2ErrProcessing
  | .error err =>
    Cmd.when (closesAuthority err) closeAuthority
    Cmd.fail (storeStatus err)

def refreshPersistentAuthority : EngineM Status Unit := do
  match ← Cmd.gets (·.storedPinState) with
  | .read => refreshRead
  | .unread => readUnreadPinState
  | .unreadable => pure ()

/-- After a failed reset: an I/O error does not keep the live authority. -/
def reconcilePersistentAuthority {ε : Type} : EngineM ε Unit := do
  match ← refreshPersistentAuthority.attempt with
  | .ok () => pure ()
  | .error _ =>
    match ← Cmd.gets (·.storedPinState) with
    | .read =>
      let closed ← unreadablePinState
      modifyPinState fun state =>
        (state.adoptPersistent closed.persistent).invalidatePinUvAuthTokens
      clearCredMgmt
      setStoredPinState .unread
    | .unread | .unreadable => pure ()

def readPinStateIfUnread : EngineM Status Unit := do
  match ← Cmd.gets (·.storedPinState) with
  | .unread => refreshPersistentAuthority
  | .read | .unreadable => pure ()

/-- Nothing is written while the stored PIN state is unread or unreadable. -/
def savePinState (persistent : PersistentPinState) : EngineM Status CommitDurability := do
  match ← Cmd.gets (·.storedPinState) with
  | .read => orStatus (storeAsk (.setPinState persistent))
  | .unread | .unreadable => Cmd.fail ctap2ErrProcessing

def savePersistentPinState : EngineM Status CommitDurability := do
  savePinState (← Cmd.gets (·.pinState.persistent))

/-- Whether the store cannot flush the directory of the PIN state. A flush that
merely failed is not kept. -/
def unsupportedDirectoryFlush {ε : Type} : EngineM ε Bool := do
  match ← Cmd.gets (·.directoryFlush) with
  | some (.unsupported _) => return true
  | some _ => return false
  | none =>
    let known ← storeAsk .directoryFlush
    match known with
    | .failed _ => return false
    | .supported =>
      Cmd.modify fun app => { app with directoryFlush := some known }
      return false
    | .unsupported _ =>
      Cmd.modify fun app => { app with directoryFlush := some known }
      return true

def drawTokenSecret (forbidden : List Bytes) (persistent : Bool) : ℕ → EngineM Status Bytes
  | 0 => Cmd.fail ctap2ErrProcessing
  | n + 1 => do
    let candidate ← randomArray 32
    let transient ← Cmd.gets (·.pinState.token.secretMatches candidate)
    if candidate.any (· ≠ 0) ∧ candidate ∉ forbidden ∧ (persistent = false ∨ transient = false)
    then return candidate
    else drawTokenSecret forbidden persistent n

def freshTokenSecret (forbidden : List Bytes) (persistent : Bool) : EngineM Status Bytes :=
  drawTokenSecret forbidden persistent 8

def PersistentTokens.secrets (tokens : PersistentTokens) : List Bytes :=
  tokens.toList.map (·.secret)

def rotatePersistentTokens (persistent : PersistentPinState) :
    EngineM Status PersistentPinState := do
  let preceding := persistent.persistentTokens.secrets
  let first ← freshTokenSecret preceding true
  let second ← freshTokenSecret (preceding ++ [first]) true
  return { persistent with
    persistentTokens := ⟨some ⟨first, false⟩, some ⟨second, false⟩⟩ }

def rotatePersistentTokensIf (rotate : Bool) (persistent : PersistentPinState) :
    EngineM Status PersistentPinState :=
  if rotate then rotatePersistentTokens persistent else pure persistent

def nextCount (count : UInt32) : UInt32 := if count = 0xffffffff then count else count + 1

/-- Persist the next count before signing. Sealed credentials share the global counter;
stored ones count individually. -/
def advanceSignatureCounter (credential : CredentialRecord) :
    EngineM Status CredentialRecord := do
  if isSealed credential.credentialId then
    let count := nextCount (← orStatus (storeAsk .signatureCounter))
    orStatus (storeAsk (.setSignatureCounter count))
    return { credential with signCount := count }
  else
    let credential := { credential with signCount := nextCount credential.signCount }
    orStatus (storeAsk (.put credential))
    return credential

def storedCredentials : EngineM Status (List CredentialRecord) := orStatus (storeAsk .list)

/-- A corrupt credential is treated like a missing one. -/
def storedCredential (credentialId : Bytes) : EngineM Status (Option CredentialRecord) := do
  match ← storeAsk (.get credentialId) with
  | .ok record => return record
  | .error .corrupt => return none
  | .error err => Cmd.fail (storeStatus err)

/-- An unreadable attestation record is treated as absent. -/
def attestationRecord {ε : Type} : EngineM ε (Option AttestationRecord) := do
  match ← storeAsk .attestation with
  | .ok record => return record
  | .error _ => return none

end SoftwareAuthenticator.Ctap
