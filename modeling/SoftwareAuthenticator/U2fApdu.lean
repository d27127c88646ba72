import SoftwareAuthenticator.Bytes

/-!
# U2F command APDUs

The transport asks whether a command may wait for the user, and the engine decodes every command,
refusing registration and authentication while alwaysUv is on.
-/

namespace SoftwareAuthenticator.U2fApdu

abbrev StatusWord := UInt16

def swNoError : StatusWord := 0x9000
def swConditionsNotSatisfied : StatusWord := 0x6985
def swCommandNotAllowed : StatusWord := 0x6986
def swWrongData : StatusWord := 0x6a80
def swWrongLength : StatusWord := 0x6700
def swClaNotSupported : StatusWord := 0x6e00
def swInsNotSupported : StatusWord := 0x6d00
def swWrongParameters : StatusWord := 0x6a86
def swInternalError : StatusWord := 0x6f00

inductive Request where
  | version
  | register (challenge application : Bytes)
  | authenticate (control : UInt8) (challenge application handle : Bytes)
  deriving DecidableEq, Repr

def sliceOrWrongLength (apdu : Bytes) (start stop : ℕ) : Except StatusWord Bytes :=
  match slice apdu start stop with
  | some data => .ok data
  | none => .error swWrongLength

/-- The command data of an APDU with `Lc` and `Le` in the short or the extended form. -/
def commandData (apdu : Bytes) : Except StatusWord Bytes :=
  if apdu.length = 4 ∨ apdu.length = 5 then .ok []
  else if apdu.getD 4 0 = 0 then do
    let length ← sliceOrWrongLength apdu 5 7
    let length := ofBeBytes16 (length.getD 0 0) (length.getD 1 0)
    if apdu.length = 7 ∨ (length = 0 ∧ apdu.length = 9) then .ok []
    else do
      let data ← sliceOrWrongLength apdu 7 (7 + length)
      if apdu.length - (7 + length) = 0 ∨ apdu.length - (7 + length) = 2 then .ok data
      else .error swWrongLength
  else do
    let stop := 5 + (apdu.getD 4 0).toNat
    let data ← sliceOrWrongLength apdu 5 stop
    if apdu.length - stop = 0 ∨ apdu.length - stop = 1 then .ok data
    else .error swWrongLength

/-- The request for an instruction, from its `P1` byte and its data. -/
def requestOf (ins p1 : UInt8) (data : Bytes) : Except StatusWord Request :=
  if ins = 3 ∧ data = [] then .ok .version
  else if ins = 1 ∧ data.length = 64 then
    .ok (.register (data.take 32) ((data.drop 32).take 32))
  else if ins = 2 ∧ 65 ≤ data.length ∧ data.length = 65 + (data.getD 64 0).toNat then
    .ok (.authenticate p1 (data.take 32) ((data.drop 32).take 32) (data.drop 65))
  else .error swWrongLength

def decode (apdu : Bytes) (disabled : Bool) : Except StatusWord Request := do
  let header ← sliceOrWrongLength apdu 0 4
  let ins := header.getD 1 0
  let p1 := header.getD 2 0
  if header.getD 0 0 ≠ 0 then .error swClaNotSupported
  else if ¬ (1 ≤ ins ∧ ins ≤ 3) then .error swInsNotSupported
  else if disabled = true ∧ (ins = 1 ∨ ins = 2) then .error swCommandNotAllowed
  else if header.getD 3 0 ≠ 0 ∨ (ins ≠ 2 ∧ p1 ≠ 0) ∨
      (ins = 2 ∧ ¬ (p1 = 3 ∨ p1 = 7 ∨ p1 = 8)) then .error swWrongParameters
  else do
    let data ← commandData apdu
    requestOf ins p1 data

/-- Whether a well-formed APDU could require presence. -/
def requestsPresence (apdu : Bytes) : Bool :=
  match decode apdu false with
  | .ok (.register _ _) => true
  | .ok (.authenticate control _ _ _) => control = 3
  | _ => false

example : requestsPresence ([0, 1, 0, 0, 64] ++ List.replicate 64 7) = true := by decide

end SoftwareAuthenticator.U2fApdu
