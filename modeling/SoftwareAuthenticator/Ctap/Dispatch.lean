import SoftwareAuthenticator.Ctap.Administration
import SoftwareAuthenticator.Ctap.U2f
import SoftwareAuthenticator.Machine

/-!
# The engine as a machine

`engine` is the machine of an authenticator that is powered up, serves requests one after
another, and may lose its power anywhere. Its events carry the operations the engine asked for
with the answers it got.
-/

namespace SoftwareAuthenticator.Ctap

variable [Externals]

def ctapCmdGetNextAssertion : UInt8 := 0x08

def handleCommand (command : UInt8) (payload : Bytes) : EngineM Status Response :=
  match command with
  | 0x04 => handleGetInfo
  | 0x01 => handleMakeCredential payload
  | 0x02 => handleGetAssertion payload
  | 0x08 => handleGetNextAssertion
  | 0x06 => handleClientPin payload
  | 0x07 => handleReset
  | 0x0A => handleCredentialManagement .standard payload
  | 0x41 => handleCredentialManagement .preview payload
  | 0x0B => handleSelection
  | 0x0D => handleAuthenticatorConfig payload
  | 0x0C => handleLargeBlobs payload
  | _ => Cmd.fail ctap1ErrInvalidCommand

/-- Every request but getNextAssertion forgets the remembered assertion. -/
def forgetAssertion (command : Option UInt8) : EngineM Status Unit :=
  if command = some ctapCmdGetNextAssertion then pure () else setPendingAssertion none

/-- `call_inner`, up to writing the answer as bytes. -/
def call (request : Bytes) : EngineM Status Response := do
  observeLargeBlobState request.head?
  forgetAssertion request.head?
  match request with
  | [] => Cmd.fail ctap1ErrInvalidLength
  | command :: payload => handleCommand command payload

inductive Request where
  | cbor (request : Bytes)
  | msg (apdu : Bytes)
  deriving DecidableEq, Repr

inductive Reply where
  | cbor (answer : Except Status Response)
  | msg (answer : Except U2fApdu.StatusWord U2fReply)

def serve : Request → EngineM Empty Reply
  | .cbor request => do return .cbor (← (call request).attempt)
  | .msg apdu => do return .msg (← (handleU2f apdu).attempt)

structure Settings where
  aaguid : Bytes
  attestationMode : AttestationMode
  presenceTimeout : Duration
  resetWindow : Option Duration
  deriving DecidableEq, Repr

def CtapApp.new (settings : Settings) (pinState : PinState) (stored : StoredPinState) :
    CtapApp where
  aaguid := settings.aaguid
  pinState := pinState
  storedPinState := stored
  directoryFlush := none
  attestationMode := settings.attestationMode
  credMgmtState := .initial
  pendingAssertion := none
  largeBlobState := .initial
  presenceTimeout := settings.presenceTimeout
  resetWindow := settings.resetWindow

/-- `CtapApp::new`: construction reads the PIN state and nothing else. -/
def powerUp (settings : Settings) : Cmd env (Option CtapApp) Empty Unit := do
  let (pinState, stored) ← loadPinState
  Cmd.modify fun _ => some (CtapApp.new settings pinState stored)

inductive Happening where
  | powerUp (settings : Settings) (trace : Trace) (app : CtapApp)
  | exchange (request : Request) (trace : Trace) (reply : Reply) (app : CtapApp)
  | cutRequest (request : Request) (trace : Trace)
  /-- The power is lost during construction. -/
  | cutPowerUp (settings : Settings) (trace : Trace)
  | powerOff

def Happening.trace : Happening → Trace
  | .powerUp _ trace _ => trace
  | .exchange _ trace _ _ => trace
  | .cutRequest _ trace => trace
  | .cutPowerUp _ trace => trace
  | .powerOff => []

def engine : Machine (Option CtapApp) Happening where
  initial app := app = none
  enabled
    | none, .powerUp settings trace app => (powerUp settings).Runs none trace (.ok ()) (some app)
    | none, .cutPowerUp settings trace => (powerUp settings none).Reaches trace
    | none, .powerOff => True
    | some app, .exchange request trace reply app' =>
      (serve request).Runs app trace (.ok reply) app'
    | some app, .cutRequest request trace => (serve request app).Reaches trace
    | some _, .powerOff => True
    | _, _ => False
  step
    | _, .powerUp _ _ app => some app
    | _, .exchange _ _ _ app => some app
    | _, .cutRequest _ _ => none
    | _, .cutPowerUp _ _ => none
    | _, .powerOff => none

end SoftwareAuthenticator.Ctap
