import SoftwareAuthenticator.Bytes

/-!
# Status codes, CBOR values and the members of request maps

Requests are decoded into `Value`s before a handler looks at them. A missing or wrongly typed
member ends the command with the status the source gives it.
-/

namespace SoftwareAuthenticator.Ctap

abbrev Status := UInt8

def ctap2Ok : Status := 0x00
def ctap1ErrInvalidCommand : Status := 0x01
def ctap1ErrInvalidParameter : Status := 0x02
def ctap1ErrInvalidLength : Status := 0x03
def ctap1ErrInvalidSeq : Status := 0x04
def ctap2ErrCborUnexpectedType : Status := 0x11
def ctap2ErrInvalidCbor : Status := 0x12
def ctap2ErrMissingParameter : Status := 0x14
def ctap2ErrLargeBlobStorageFull : Status := 0x18
def ctap2ErrCredentialExcluded : Status := 0x19
def ctap2ErrProcessing : Status := 0x21
def ctap2ErrUnsupportedAlgorithm : Status := 0x26
def ctap2ErrOperationDenied : Status := 0x27
def ctap2ErrKeyStoreFull : Status := 0x28
def ctap2ErrUnsupportedOption : Status := 0x2B
def ctap2ErrInvalidOption : Status := 0x2C
def ctap2ErrKeepaliveCancel : Status := 0x2D
def ctap2ErrNoCredentials : Status := 0x2E
def ctap2ErrUserActionTimeout : Status := 0x2F
def ctap2ErrNotAllowed : Status := 0x30
def ctap2ErrPinInvalid : Status := 0x31
def ctap2ErrPinBlocked : Status := 0x32
def ctap2ErrPinAuthInvalid : Status := 0x33
def ctap2ErrPinAuthBlocked : Status := 0x34
def ctap2ErrPinNotSet : Status := 0x35
def ctap2ErrPuatRequired : Status := 0x36
def ctap2ErrPinPolicyViolation : Status := 0x37
def ctap2ErrIntegrityFailure : Status := 0x3D
def ctap2ErrInvalidSubcommand : Status := 0x3E
def ctap2ErrUnauthorizedPermission : Status := 0x40
def ctap1ErrOther : Status := 0x7F

def maxResponseSize : ℕ := 7609

inductive Value where
  | integer (i : ℤ)
  | bytes (b : Bytes)
  | float (bits : UInt64)
  | text (s : String)
  | bool (b : Bool)
  | null
  | tag (t : UInt64) (v : Value)
  | array (xs : List Value)
  | map (entries : List (Value × Value))

abbrev Entries := List (Value × Value)

inductive Key where
  | int (i : ℤ)
  | text (s : String)

def Key.value : Key → Value
  | .int i => .integer i
  | .text s => .text s

def Key.matches : Key → Value → Bool
  | .int i, .integer j => i = j
  | .text s, .text t => s = t
  | _, _ => false

def mapGet (map : Entries) (key : Key) : Option Value :=
  (map.find? fun entry => key.matches entry.1).map Prod.snd

def required (map : Entries) (key : Key) : Except Status Value :=
  match mapGet map key with
  | some value => .ok value
  | none => .error ctap2ErrMissingParameter

def Value.asBytes : Value → Except Status Bytes
  | .bytes b => .ok b
  | _ => .error ctap2ErrCborUnexpectedType

def Value.asMap : Value → Except Status Entries
  | .map entries => .ok entries
  | _ => .error ctap2ErrCborUnexpectedType

def Value.asArray : Value → Except Status (List Value)
  | .array xs => .ok xs
  | _ => .error ctap2ErrCborUnexpectedType

def Value.asText : Value → Except Status String
  | .text s => .ok s
  | _ => .error ctap2ErrCborUnexpectedType

def Value.asBool : Value → Except Status Bool
  | .bool b => .ok b
  | _ => .error ctap2ErrCborUnexpectedType

def Value.asInteger : Value → Except Status ℤ
  | .integer i => .ok i
  | _ => .error ctap2ErrCborUnexpectedType

def requiredBytes (map : Entries) (key : ℤ) : Except Status Bytes := do
  (← required map (.int key)).asBytes

def requiredMap (map : Entries) (key : ℤ) : Except Status Entries := do
  (← required map (.int key)).asMap

/-- A required member of a structure: missing counts as wrongly typed. -/
def structureMember (entries : Entries) (name : String) : Except Status Value :=
  match mapGet entries (.text name) with
  | some value => .ok value
  | none => .error ctap2ErrCborUnexpectedType

def structureText (entries : Entries) (name : String) : Except Status String := do
  (← structureMember entries name).asText

def structureBytes (entries : Entries) (name : String) : Except Status Bytes := do
  (← structureMember entries name).asBytes

/-- A member that may be absent but must not have another type. -/
def optionalMember {α : Type} (read : Value → Except Status α) :
    Option Value → Except Status (Option α)
  | none => .ok none
  | some value => (read value).map some

def optionalStructureText (entries : Entries) (name : String) : Except Status (Option String) :=
  optionalMember Value.asText (mapGet entries (.text name))

/-- `u64::try_from(number)`: the integer as an unsigned one of `bits` bits. -/
def unsignedOf (bits : ℕ) (i : ℤ) : Option ℕ :=
  if 0 ≤ i ∧ i < 2 ^ bits then some i.toNat else none

def utf8 (s : String) : Bytes := s.toUTF8.toList

def fromUtf8 (b : Bytes) : Option String := String.fromUTF8? ⟨b.toArray⟩

end SoftwareAuthenticator.Ctap
