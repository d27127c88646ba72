import SoftwareAuthenticator.Ctap.Environment

/-!
# The PIN retry state and the pinUvAuthToken

The pure part of the PIN state: the retry counter, and the token with its timers, permissions and
flags. Every function of the token first observes the usage timer at the time it is given.
-/

namespace SoftwareAuthenticator.Ctap

/-- The part of the PIN state that survives a restart. It has the fields of the stored
record. -/
abbrev PersistentPinState := PinStateRecord

def maxConsecutivePinMismatches : ℕ := 3

structure PinRetryState where
  persistent : PersistentPinState
  consecutiveMismatches : ℕ
  deriving DecidableEq, Repr

namespace PinRetryState

def powerUp (persistent : PersistentPinState) : PinRetryState where
  persistent := { persistent with pinRetries := min persistent.pinRetries maxPinRetries }
  consecutiveMismatches := 0

def initial : PinRetryState := powerUp .initial

def isSet (state : PinRetryState) : Bool := state.persistent.pinHash.isSome

def powerCycleRequired (state : PinRetryState) : Bool :=
  maxConsecutivePinMismatches ≤ state.consecutiveMismatches

def setPin (state : PinRetryState) (hash : Bytes) : PinRetryState where
  persistent := { state.persistent with pinHash := some hash, pinRetries := maxPinRetries }
  consecutiveMismatches := 0

def checkAttemptAllowed (state : PinRetryState) : Except Status Unit :=
  if !state.isSet then .error ctap2ErrPinNotSet
  else if state.persistent.pinRetries = 0 then .error ctap2ErrPinBlocked
  else if state.powerCycleRequired then .error ctap2ErrPinAuthBlocked
  else .ok ()

def beginAttempt (state : PinRetryState) : Except Status PinRetryState := do
  state.checkAttemptAllowed
  return { state with
    persistent := { state.persistent with pinRetries := state.persistent.pinRetries - 1 } }

/-- `finish_attempt`: the result and the state after comparing `candidate`. -/
def finishAttempt (state : PinRetryState) (candidate : Option Bytes) :
    Except Status Unit × PinRetryState :=
  if pinMatches state.persistent.pinHash candidate then
    (.ok (), { persistent := { state.persistent with pinRetries := maxPinRetries }
               consecutiveMismatches := 0 })
  else
    let state := { state with
      consecutiveMismatches := min (state.consecutiveMismatches + 1) 255 }
    if state.persistent.pinRetries = 0 then (.error ctap2ErrPinBlocked, state)
    else if state.powerCycleRequired then (.error ctap2ErrPinAuthBlocked, state)
    else (.error ctap2ErrPinInvalid, state)

end PinRetryState

variable {pin : PinRetryState} {candidate : Option Bytes}

theorem beginAttempt_cases {debited : PinRetryState} (h : pin.beginAttempt = .ok debited) :
    pin.isSet = true ∧ pin.persistent.pinRetries ≠ 0 ∧
      pin.consecutiveMismatches < maxConsecutivePinMismatches ∧
      debited = { pin with
        persistent := { pin.persistent with pinRetries := pin.persistent.pinRetries - 1 } } := by
  cases hset : pin.isSet with
  | false => simp [PinRetryState.beginAttempt, PinRetryState.checkAttemptAllowed, hset, bind,
      Except.bind] at h
  | true =>
    by_cases hretries : pin.persistent.pinRetries = 0
    · simp [PinRetryState.beginAttempt, PinRetryState.checkAttemptAllowed, hset, hretries, bind,
        Except.bind] at h
    · cases hcycle : pin.powerCycleRequired with
      | true => simp [PinRetryState.beginAttempt, PinRetryState.checkAttemptAllowed, hset, hretries,
          hcycle, bind, Except.bind] at h
      | false =>
        refine ⟨rfl, hretries, ?_, ?_⟩
        · simpa [PinRetryState.powerCycleRequired] using hcycle
        · simpa [PinRetryState.beginAttempt, PinRetryState.checkAttemptAllowed, hset, hretries,
            hcycle, bind, Except.bind, pure, Except.pure, eq_comm] using h

theorem finishAttempt_right (h : pinMatches pin.persistent.pinHash candidate = true) :
    pin.finishAttempt candidate = (.ok (),
      { persistent := { pin.persistent with pinRetries := maxPinRetries }
        consecutiveMismatches := 0 }) := by
  rw [PinRetryState.finishAttempt, if_pos h]

theorem finishAttempt_wrong (h : pinMatches pin.persistent.pinHash candidate = false) :
    ∃ status, pin.finishAttempt candidate = (.error status,
      { pin with consecutiveMismatches := min (pin.consecutiveMismatches + 1) 255 }) := by
  simp only [PinRetryState.finishAttempt, h, Bool.false_eq_true, if_false]
  split
  · exact ⟨_, rfl⟩
  · split
    · exact ⟨_, rfl⟩
    · exact ⟨_, rfl⟩

inductive TokenOrigin where
  | legacyGetPinToken
  | permissionBearing
  deriving DecidableEq, Repr

structure TokenGrant where
  origin : TokenOrigin
  permissions : Permissions
  rpId : Option String
  deriving DecidableEq, Repr

def initialUsageTimeLimit : Duration := seconds 30
def userPresentTimeLimit : Duration := seconds 30
def maxUsageTimePeriod : Duration := seconds 600

structure InUseToken where
  value : Bytes
  protocol : PinProtocol
  origin : Option TokenOrigin
  permissions : Permissions
  permissionsRpId : Option String
  startedAt : Duration
  id : UInt64
  used : Bool
  userPresent : Bool
  userVerified : Bool
  deriving DecidableEq, Repr

namespace InUseToken

def isExpired (token : InUseToken) (now : Duration) : Bool :=
  maxUsageTimePeriod ≤ now - token.startedAt ∨
    (token.used = false ∧ initialUsageTimeLimit ≤ now - token.startedAt)

def clearPresence (token : InUseToken) (now : Duration) : InUseToken :=
  if userPresentTimeLimit ≤ now - token.startedAt then { token with userPresent := false }
  else token

def consume (token : InUseToken) : InUseToken :=
  { token with
    origin := none
    userPresent := false
    userVerified := false
    permissions := token.permissions &&& permissionLbw }

/-- `bind_permissions_rp_id`: only a token without a relying party gets one. -/
def bindRpId (token : InUseToken) (rpId : String) : InUseToken :=
  match token.permissionsRpId with
  | some _ => token
  | none => { token with permissionsRpId := some rpId }

end InUseToken

structure TokenState where
  inUse : Option InUseToken
  issued : UInt64
  deriving DecidableEq, Repr

namespace TokenState

def initial : TokenState := ⟨none, 0⟩

def beginUsing (state : TokenState) (now : Duration) (protocol : PinProtocol) (value : Bytes)
    (userIsPresent : Bool) (grant : TokenGrant) : TokenState where
  issued := state.issued + 1
  inUse := some {
    value := value
    protocol := protocol
    origin := some grant.origin
    permissions := grant.permissions
    permissionsRpId := grant.rpId
    startedAt := now
    id := state.issued + 1
    used := false
    userPresent := userIsPresent
    userVerified := true }

def secretMatches (state : TokenState) (candidate : Bytes) : Bool :=
  state.inUse.any fun token => token.value = candidate

def stopUsing (state : TokenState) : TokenState := { state with inUse := none }

def observe (state : TokenState) (now : Duration) : TokenState :=
  match state.inUse with
  | none => state
  | some token =>
    if token.isExpired now then state.stopUsing
    else { state with inUse := some (token.clearPresence now) }

def update (state : TokenState) (f : InUseToken → InUseToken) : TokenState :=
  { state with inUse := state.inUse.map f }

/-- `verify` after the timer was observed: the token must be in use under the protocol
and the MAC must be right; it has then been used. -/
def verify [Externals] (state : TokenState) (protocol : PinProtocol)
    (message signature : Bytes) : Except Status Unit × TokenState :=
  match state.inUse with
  | none => (.error ctap2ErrPinAuthInvalid, state)
  | some token =>
    if token.protocol ≠ protocol then (.error ctap2ErrPinAuthInvalid, state)
    else
      match Ctap.verify protocol token.value message signature with
      | .error status => (.error status, state)
      | .ok () => (.ok (), state.update fun token => { token with used := true })

def userPresentFlag (state : TokenState) : Bool := state.inUse.any (·.userPresent)

def userVerifiedFlag (state : TokenState) : Bool := state.inUse.any (·.userVerified)

def inUseId (state : TokenState) : Option UInt64 := state.inUse.map (·.id)

def origin (state : TokenState) : Option TokenOrigin := state.inUse.bind (·.origin)

def hasPermission (state : TokenState) (permission : Permissions) : Bool :=
  state.inUse.any fun token => token.permissions &&& permission ≠ 0

def permissionsRpId (state : TokenState) : Option String := state.inUse.bind (·.permissionsRpId)

end TokenState

structure KeyAgreementKeys where
  protocolOne : Option Bytes
  protocolTwo : Option Bytes
  deriving DecidableEq, Repr

namespace KeyAgreementKeys

def initial : KeyAgreementKeys := ⟨none, none⟩

def slot (keys : KeyAgreementKeys) : PinProtocol → Option Bytes
  | .v1 => keys.protocolOne
  | .v2 => keys.protocolTwo

def setSlot (keys : KeyAgreementKeys) (key : Option Bytes) : PinProtocol → KeyAgreementKeys
  | .v1 => { keys with protocolOne := key }
  | .v2 => { keys with protocolTwo := key }

/-- `regenerate()`: the new key is drawn when it is next needed. -/
def regenerate (keys : KeyAgreementKeys) (protocol : PinProtocol) : KeyAgreementKeys :=
  keys.setSlot none protocol

end KeyAgreementKeys

structure PinState where
  pin : PinRetryState
  keyAgreement : KeyAgreementKeys
  token : TokenState
  persistentGeneration : UInt64
  deriving DecidableEq, Repr

namespace PinState

def fromPersistent (persistent : PersistentPinState) : PinState where
  pin := .powerUp persistent
  keyAgreement := .initial
  token := .initial
  persistentGeneration := 0

def persistent (state : PinState) : PersistentPinState := state.pin.persistent

def reset (state : PinState) : PinState where
  pin := .initial
  keyAgreement := .initial
  token := state.token.stopUsing
  persistentGeneration := state.persistentGeneration + 1

/-- Adopt saved settings without resetting the mismatches, key agreement or timers. -/
def adoptPersistent (state : PinState) (persistent : PersistentPinState) : PinState :=
  { state with
    persistentGeneration :=
      if state.pin.persistent.persistentTokens ≠ persistent.persistentTokens then
        state.persistentGeneration + 1
      else state.persistentGeneration
    pin := { state.pin with persistent := persistent } }

def invalidatePinUvAuthTokens (state : PinState) : PinState :=
  { state with token := state.token.stopUsing }

def isSet (state : PinState) : Bool := state.pin.isSet

def setPin (state : PinState) (hash : Bytes) : PinState :=
  { state with pin := state.pin.setPin hash, token := state.token.stopUsing }

def persistentToken (state : PinState) (protocol : PinProtocol) : Option PersistentTokenRecord :=
  state.persistent.persistentTokens.get protocol

end PinState

end SoftwareAuthenticator.Ctap
