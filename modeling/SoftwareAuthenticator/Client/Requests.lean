import SoftwareAuthenticator.Ctap.Encoding

/-!
# The authenticated requests of the client

`pqkey` assembles these requests by hand around parameters it has encoded once, and computes the
pinUvAuthParam over the same bytes.
-/

namespace SoftwareAuthenticator.Client

open Ctap
open Cbor (head KeyLt)

structure Token where
  secret : Bytes
  protocol : PinProtocol
  permission : UInt8
  deriving DecidableEq, Repr

/-- A request as it is sent, with the token and the message of its pinUvAuthParam. -/
structure Request where
  bytes : Bytes
  authenticated : Option (Token × Bytes)
  deriving DecidableEq, Repr

def credentialManagement : UInt8 := 0x0A
def authenticatorConfig : UInt8 := 0x0D
def permissionCm : UInt8 := 0x04

def int (value : ℤ) : Value := .integer value

def minPinLengthParameters (minimum : Option UInt8) (rpIds : Option (List String))
    (forceChange complexity : Option Bool) : Entries :=
  (minimum.map fun minimum => (int 1, int minimum.toNat)).toList ++
    (rpIds.map fun rpIds => (int 2, .array (rpIds.map .text))).toList ++
    (forceChange.map fun forceChange => (int 3, .bool forceChange)).toList ++
    (complexity.map fun complexity => (int 4, .bool complexity)).toList

def descriptor (credentialId : Bytes) : Value :=
  .map [(.text "id", .bytes credentialId), (.text "type", .text "public-key")]

def userEntity (userId : Bytes) (name displayName : Option String) : Value :=
  .map ((.text "id", .bytes userId) ::
    ((name.map fun name => (.text "name", .text name)).toList ++
      (displayName.map fun name => (.text "displayName", .text name)).toList))

variable {widen : Bytes → UInt64} {narrow : UInt64 → Bytes}

theorem encodable_int (levels : ℕ) {value : ℤ} (hvalue : 0 ≤ value) (hlt : value < 256) :
    Encodable widen narrow levels (int value) :=
  encodable_integer hvalue (hlt.trans (by decide))

theorem encodable_byte (levels : ℕ) (byte : UInt8) :
    Encodable widen narrow levels (int byte.toNat) :=
  encodable_int levels (Int.natCast_nonneg _) (by exact_mod_cast byte.toNat_lt)

theorem parsePinUvAuthProtocol_identifier (protocol : PinProtocol) :
    parsePinUvAuthProtocol (int protocol.identifier) = .ok protocol := by
  cases protocol <;> rfl

theorem encodable_minPinLengthParameters (minimum : Option UInt8) (rpIds : Option (List String))
    (forceChange complexity : Option Bool) :
    Encodable widen narrow 15
      (.map (minPinLengthParameters minimum rpIds forceChange complexity)) := by
  have htexts (rpIds : List String) : Encodable widen narrow 14 (.array (rpIds.map .text)) :=
    encodable_array (by decide) (List.forall_mem_map.mpr fun rpId _ => encodable_text rpId)
  refine encodable_map (by decide) ?_ ?_
  · cases minimum <;> cases rpIds <;> cases forceChange <;> cases complexity <;>
      simp [minPinLengthParameters, KeysAscend, int, keyLt_integer]
  · cases minimum <;> cases rpIds <;> cases forceChange <;> cases complexity <;>
      simp [minPinLengthParameters, encodable_int, encodable_byte, htexts, encodable_bool]

theorem encodable_descriptor (credentialId : Bytes) :
    Encodable widen narrow 14 (descriptor credentialId) := by
  have hkeys : KeyLt (shortest narrow (.text "id")) (shortest narrow (.text "type")) :=
    keyLt_text (by rw [utf8_eq, utf8_eq]; decide) (by rw [utf8_eq]; decide)
  refine encodable_map (by decide) ?_ ?_
  · simp [KeysAscend, hkeys]
  · simp [encodable_text, encodable_bytes]

theorem encodable_userEntity (userId : Bytes) (name displayName : Option String) :
    Encodable widen narrow 14 (userEntity userId name displayName) := by
  have hname : KeyLt (shortest narrow (.text "id")) (shortest narrow (.text "name")) :=
    keyLt_text (by rw [utf8_eq, utf8_eq]; decide) (by rw [utf8_eq]; decide)
  have hdisplayName : KeyLt (shortest narrow (.text "name")) (shortest narrow (.text "displayName")) :=
    keyLt_text (by rw [utf8_eq, utf8_eq]; decide) (by rw [utf8_eq]; decide)
  refine encodable_map (by decide) ?_ ?_
  · cases name <;> cases displayName <;>
      simp [KeysAscend, hname, hdisplayName, hname.trans hdisplayName]
  · cases name <;> cases displayName <;> simp [encodable_text, encodable_bytes]

theorem encodable_parameters {entries : Entries} (hkeys : KeysAscend narrow entries)
    (hentries : ∀ e ∈ entries, Encodable widen narrow 14 e.1 ∧ Encodable widen narrow 14 e.2) :
    ∀ value ∈ (some entries).map Value.map, Encodable widen narrow 15 value := by
  rintro value ⟨⟩
  exact encodable_map (by decide) hkeys hentries

section Building

variable [Externals]

/-- `encode`, whose writer cannot fail. -/
def encode (value : Value) : Bytes := (intoWriter value).getD []

def authenticationBytes (authenticated : Token × Bytes) : Bytes :=
  let (token, message) := authenticated
  0x03 :: encode (int token.protocol.identifier) ++
    0x04 :: encode (.bytes (authenticate token.protocol token.secret message))

def assemble (command subcommand : UInt8) (parameters : Option Bytes)
    (authenticated : Option (Token × Bytes)) : Request where
  bytes :=
    let fields := 1 + (if parameters.isSome then 1 else 0) +
      2 * (if authenticated.isSome then 1 else 0)
    [command, 0xA0 + fields, 0x01, subcommand] ++
      (parameters.map (0x02 :: ·)).getD [] ++ (authenticated.map authenticationBytes).getD []
  authenticated := authenticated

def configuration (token : Option Token) (subcommand : UInt8) (parameters : Option Value) :
    Request :=
  let parameters := parameters.map encode
  assemble authenticatorConfig subcommand parameters (token.map fun token => (token,
    List.replicate 32 0xFF ++ [authenticatorConfig, subcommand] ++ parameters.getD []))

def toggleAlwaysUv (token : Option Token) : Request := configuration token 0x02 none

def setMinPinLength (token : Option Token) (minimum : Option UInt8) (rpIds : Option (List String))
    (forceChange complexity : Option Bool) : Request :=
  configuration token 0x03
    (some (.map (minPinLengthParameters minimum rpIds forceChange complexity)))

/-- An authenticated management request; changing something needs the full permission. -/
def management (token : Token) (subcommand : UInt8) (parameters : Option Value) :
    Except Status Request :=
  if (subcommand = 6 ∨ subcommand = 7) ∧ token.permission ≠ permissionCm then .error 0x33
  else
    let parameters := parameters.map encode
    .ok (assemble credentialManagement subcommand parameters
      (some (token, subcommand :: parameters.getD [])))

def managementNext (subcommand : UInt8) : Request where
  bytes := credentialManagement :: encode (.map [(int 1, int subcommand.toNat)])
  authenticated := none

def delete (token : Token) (credentialId : Bytes) : Except Status Request :=
  management token 0x06 (some (.map [(int 2, descriptor credentialId)]))

def updateUserInformation (token : Token) (credentialId userId : Bytes)
    (name displayName : Option String) : Except Status Request :=
  management token 7 (some (.map
    [(int 2, descriptor credentialId), (int 3, userEntity userId name displayName)]))

/-- The configuration and management requests the client builds, each with its command and
subcommand, its token and its parameters; listing the passkeys builds those of the
enumerations. -/
inductive Builds : UInt8 → UInt8 → Option Token → Option Value → Request → Prop
  | toggleAlwaysUv (token : Option Token) :
      Builds authenticatorConfig 0x02 token none (toggleAlwaysUv token)
  | setMinPinLength (token : Option Token) (minimum : Option UInt8)
      (rpIds : Option (List String)) (forceChange complexity : Option Bool) :
      Builds authenticatorConfig 0x03 token
        (some (.map (minPinLengthParameters minimum rpIds forceChange complexity)))
        (setMinPinLength token minimum rpIds forceChange complexity)
  | enumerateRps {token : Token} {request : Request} (h : management token 0x02 none = .ok request) :
      Builds credentialManagement 0x02 token none request
  | enumerateRpsNext : Builds credentialManagement 0x03 none none (managementNext 0x03)
  | enumerateCredentials {token : Token} {rpIdHash : Bytes} {request : Request}
      (h : management token 0x04 (some (.map [(int 1, .bytes rpIdHash)])) = .ok request) :
      Builds credentialManagement 0x04 token (some (.map [(int 1, .bytes rpIdHash)])) request
  | enumerateCredentialsNext : Builds credentialManagement 0x05 none none (managementNext 0x05)
  | delete {token : Token} {credentialId : Bytes} {request : Request}
      (h : delete token credentialId = .ok request) :
      Builds credentialManagement 0x06 token (some (.map [(int 2, descriptor credentialId)])) request
  | updateUserInformation {token : Token} {credentialId userId : Bytes}
      {name displayName : Option String} {request : Request}
      (h : updateUserInformation token credentialId userId name displayName = .ok request) :
      Builds credentialManagement 0x07 token (some (.map
        [(int 2, descriptor credentialId), (int 3, userEntity userId name displayName)])) request

/-- The key verifies `param` under `protocol` against `message` when this request comes in. -/
def EngineVerifies (command : UInt8) (payload : Bytes) (entries : Entries) (protocol : PinProtocol)
    (param message : Bytes) : Prop :=
  (command = ctapCmdAuthenticatorConfig ∧ ∃ subcommand, configSubcommand entries = .ok subcommand ∧
    configAuth payload entries subcommand = .ok (protocol, param, message)) ∨
  (command = 0x0A ∧ ∃ subcommand params, managementRequest entries = .ok (subcommand, params) ∧
    managementAuth payload entries subcommand params = .ok (protocol, param, message))

/-- The payload is accepted as canonical, and has the subcommand and the parameters. With a
token it carries a pinUvAuthParam, which is verified as the client sent it, over the message the
client computed it from; without one it carries none. -/
def Agrees (command subcommand : UInt8) (token : Option Token) (parameters : Option Value)
    (request : Request) : Prop :=
  ∃ payload entries, request.bytes = command :: payload ∧
    requestParameters payload = .ok entries ∧
    mapGet entries (.int 1) = some (int subcommand.toNat) ∧ mapGet entries (.int 2) = parameters ∧
    (token = none → mapGet entries (.int 4) = none) ∧
    ∀ t ∈ token, ∃ message, request.authenticated = some (t, message) ∧
      EngineVerifies command payload entries t.protocol
        (authenticate t.protocol t.secret message) message

def requestEntries (subcommand : UInt8) (parameters : Option Value)
    (authenticated : Option (Token × Bytes)) : Entries :=
  (int 1, int subcommand.toNat) :: ((parameters.map fun value => (int 2, value)).toList ++
    (authenticated.map fun (token, message) => [(int 3, int token.protocol.identifier),
      (int 4, .bytes (authenticate token.protocol token.secret message))]).getD [])

theorem encode_eq (hwriter : ∀ value, intoWriter value = some (shortest narrow value))
    (value : Value) : encode value = shortest narrow value := by
  rw [encode, hwriter]
  rfl

theorem assemble_eq (hwriter : ∀ value, intoWriter value = some (shortest narrow value))
    (command : UInt8) {subcommand : UInt8} (hsubcommand : subcommand.toNat < 24)
    (parameters : Option Value) (authenticated : Option (Token × Bytes)) :
    (assemble command subcommand (parameters.map encode) authenticated).bytes =
      command :: shortest narrow (.map (requestEntries subcommand parameters authenticated)) := by
  have hsub : shortest narrow (int subcommand.toNat) = [subcommand] := by
    rw [int, shortest, if_pos (Int.natCast_nonneg _), Int.toNat_natCast,
      Cbor.head_immediate 0 hsubcommand, Cbor.initialByte]
    simp
  have hencode := encode_eq hwriter
  cases parameters <;> cases authenticated <;>
    simp [assemble, authenticationBytes, requestEntries, shortest, shortestEntries, hsub, hencode] <;>
    rfl

variable {parameters : Option Value}

theorem encodable_requestEntries (subcommand : UInt8)
    (hparameters : ∀ value ∈ parameters, Encodable widen narrow 15 value)
    (authenticated : Option (Token × Bytes)) :
    ∀ e ∈ requestEntries subcommand parameters authenticated,
      Encodable widen narrow 15 e.1 ∧ Encodable widen narrow 15 e.2 := by
  have hprotocol (protocol : PinProtocol) :
      Encodable widen narrow 15 (int protocol.identifier) := by
    cases protocol <;> exact encodable_int 15 (by decide) (by decide)
  cases parameters <;> cases authenticated <;>
    simp [requestEntries, encodable_int, encodable_byte, hprotocol, encodable_bytes, hparameters]

theorem keysAscend_requestEntries (subcommand : UInt8) (parameters : Option Value)
    (authenticated : Option (Token × Bytes)) :
    KeysAscend narrow (requestEntries subcommand parameters authenticated) := by
  cases parameters <;> cases authenticated <;>
    simp [requestEntries, KeysAscend, int, keyLt_integer]

/-- The key accepts what the client assembles, and cuts its parameters out as they are. -/
theorem accepts_assembled (hreader : ReadsCanonical widen) {subcommand : UInt8}
    (hparameters : ∀ value ∈ parameters, Encodable widen narrow 15 value)
    {authenticated : Option (Token × Bytes)} {payload : Bytes}
    (hpayload : payload = shortest narrow (.map (requestEntries subcommand parameters authenticated)))
    (hlength : payload.length < 2 ^ 64) :
    requestParameters payload = .ok (requestEntries subcommand parameters authenticated) ∧
      rawMapValue payload 2 = .ok (parameters.map (shortest narrow)) := by
  have hentries := encodable_requestEntries subcommand hparameters authenticated
  subst hpayload
  refine ⟨requestParameters_shortest hreader (encodable_map (by decide)
    (keysAscend_requestEntries _ _ _) hentries hlength), ?_⟩
  rw [rawMapValue_shortest (by decide) hentries hlength]
  cases parameters <;> cases authenticated <;> simp [requestEntries, mapGet, Key.matches, int]

theorem mapGet_requestEntries (subcommand : UInt8) (parameters : Option Value)
    (authenticated : Option (Token × Bytes)) :
    let entries := requestEntries subcommand parameters authenticated
    mapGet entries (.int 1) = some (int subcommand.toNat) ∧ mapGet entries (.int 2) = parameters ∧
      mapGet entries (.int 3) = authenticated.map (int ·.1.protocol.identifier) ∧
      mapGet entries (.int 4) =
        authenticated.map fun (t, message) => .bytes (authenticate t.protocol t.secret message) := by
  cases parameters <;> cases authenticated <;> simp [requestEntries, mapGet, Key.matches, int]

theorem agrees_assembled (hreader : ReadsCanonical widen) {command subcommand : UInt8}
    (hparameters : ∀ value ∈ parameters, Encodable widen narrow 15 value) {token : Option Token}
    {request : Request} (htoken : request.authenticated.map (·.1) = token)
    (hbytes : request.bytes = command ::
      shortest narrow (.map (requestEntries subcommand parameters request.authenticated)))
    (hlength : request.bytes.length < 2 ^ 64)
    (hverifies : ∀ t message payload, request.authenticated = some (t, message) →
      rawMapValue payload 2 = .ok (parameters.map (shortest narrow)) →
      EngineVerifies command payload (requestEntries subcommand parameters (some (t, message)))
        t.protocol (authenticate t.protocol t.secret message) message) :
    Agrees command subcommand token parameters request := by
  obtain ⟨haccepts, hraw⟩ := accepts_assembled hreader hparameters rfl
    (Nat.lt_of_succ_lt ((congrArg List.length hbytes).symm.trans_lt hlength))
  obtain ⟨h1, h2, -, h4⟩ := mapGet_requestEntries subcommand parameters request.authenticated
  refine ⟨_, _, hbytes, haccepts, h1, h2, fun hnone => ?_, fun t ht => ?_⟩
  · rw [h4, Option.map_eq_none_iff.mp (htoken.trans hnone)]
    rfl
  · obtain ⟨⟨t, message⟩, hauthenticated, rfl⟩ := Option.map_eq_some_iff.mp (htoken.trans ht)
    refine ⟨message, hauthenticated, ?_⟩
    rw [hauthenticated] at hraw ⊢
    exact hverifies t message _ hauthenticated hraw

theorem agrees_configuration (hreader : ReadsCanonical widen)
    (hwriter : ∀ value, intoWriter value = some (shortest narrow value))
    (subcommand : ConfigSubcommand) (token : Option Token)
    (hparameters : ∀ value ∈ parameters, Encodable widen narrow 15 value)
    (hlength : (configuration token subcommand.byte parameters).bytes.length < 2 ^ 64) :
    Agrees authenticatorConfig subcommand.byte token parameters
      (configuration token subcommand.byte parameters) := by
  refine agrees_assembled hreader hparameters (by cases token <;> rfl)
    (assemble_eq hwriter authenticatorConfig
      (show subcommand.byte.toNat < 24 by cases subcommand <;> decide) parameters _) hlength ?_
  intro t message payload hauthenticated hraw
  obtain ⟨h1, -, h3, h4⟩ := mapGet_requestEntries subcommand.byte parameters (some (t, message))
  refine .inl ⟨rfl, subcommand, ?_, ?_⟩
  · rw [configSubcommand, required, h1]
    cases subcommand <;> rfl
  · rw [configAuth, h4, h3]
    obtain ⟨token, rfl, heq⟩ := Option.map_eq_some_iff.mp hauthenticated
    cases heq
    simp only [parseRequiredPinUvAuthProtocol, Option.map_some, parsePinUvAuthProtocol_identifier]
    change (rawMapValue _ 2 >>= _ : Except Status _) = _
    rw [hraw, ← funext (encode_eq hwriter)]
    rfl

theorem agrees_management (hreader : ReadsCanonical widen)
    (hwriter : ∀ value, intoWriter value = some (shortest narrow value))
    (subcommand : ManagementSubcommand) {token : Token} (parameters : Option Entries)
    (hparameters : ∀ value ∈ parameters.map Value.map, Encodable widen narrow 15 value)
    (hcovered : subcommand.authenticatesParameters = false → parameters = none)
    (hmandatory : missesParameter subcommand parameters = false) {request : Request}
    (h : management token subcommand.byte (parameters.map Value.map) = .ok request)
    (hlength : request.bytes.length < 2 ^ 64) :
    Agrees credentialManagement subcommand.byte token (parameters.map Value.map) request := by
  unfold management at h
  split at h
  · cases h
  cases h
  refine agrees_assembled hreader hparameters rfl (assemble_eq hwriter credentialManagement
    (show subcommand.byte.toNat < 24 by cases subcommand <;> decide) _ _) hlength ?_
  intro t message payload hauthenticated hraw
  cases hauthenticated
  obtain ⟨h1, h2, h3, h4⟩ := mapGet_requestEntries subcommand.byte (parameters.map Value.map)
    (some (token, subcommand.byte :: ((parameters.map Value.map).map encode).getD []))
  refine .inr ⟨rfl, subcommand, parameters, ?_, ?_⟩
  · rw [managementRequest, required, h1, h2]
    cases subcommand <;> cases parameters <;> rfl
  · have hmessage : managementMessage payload subcommand =
        .ok (subcommand.byte :: ((parameters.map Value.map).map encode).getD []) := by
      rw [managementMessage, hraw, ← funext (encode_eq hwriter)]
      split
      · rfl
      · rename_i hfalse
        rw [hcovered (Bool.eq_false_iff.mpr hfalse)]
        rfl
    rw [managementAuth, h4, h3, hmandatory]
    simp only [parsePinUvAuthParam, parseRequiredPinUvAuthProtocol, Option.map_some,
      parsePinUvAuthProtocol_identifier, Value.asBytes]
    change (managementMessage _ _ >>= _ : Except Status _) = _
    rw [hmessage]
    rfl

theorem agrees_managementNext (hreader : ReadsCanonical widen)
    (hwriter : ∀ value, intoWriter value = some (shortest narrow value)) (subcommand : UInt8)
    (hlength : (managementNext subcommand).bytes.length < 2 ^ 64) :
    Agrees credentialManagement subcommand none none (managementNext subcommand) :=
  agrees_assembled hreader (by simp) rfl
    (congrArg (credentialManagement :: ·) (encode_eq hwriter _)) hlength
    fun _ _ _ hauthenticated => nomatch hauthenticated

/-- Every configuration and management request the client builds is accepted as canonical, with
the subcommand and the parameters it was built for. If it was built with a token, the key
verifies its pinUvAuthParam over the very message the client computed it from. -/
theorem requests_agree (hreader : ReadsCanonical widen)
    (hwriter : ∀ value, intoWriter value = some (shortest narrow value))
    {command subcommand : UInt8} {token : Option Token} {request : Request}
    (hbuilds : Builds command subcommand token parameters request)
    (hlength : request.bytes.length < 2 ^ 64) :
    Agrees command subcommand token parameters request := by
  cases hbuilds with
  | toggleAlwaysUv token =>
    exact agrees_configuration hreader hwriter .toggleAlwaysUv token (by simp) hlength
  | setMinPinLength token minimum rpIds forceChange complexity =>
    exact agrees_configuration hreader hwriter .setMinPinLength token
      (by simp [encodable_minPinLengthParameters]) hlength
  | enumerateRps h =>
    exact agrees_management hreader hwriter .enumerateRpsBegin none (by simp) (fun _ => rfl) rfl h
      hlength
  | enumerateRpsNext => exact agrees_managementNext hreader hwriter 0x03 hlength
  | enumerateCredentials h =>
    refine agrees_management hreader hwriter .enumerateCredentialsBegin (some _)
      (encodable_parameters ?_ ?_) (by rintro ⟨⟩) rfl h hlength
    · simp [KeysAscend]
    · simp [encodable_int, encodable_bytes]
  | enumerateCredentialsNext => exact agrees_managementNext hreader hwriter 0x05 hlength
  | delete h =>
    refine agrees_management hreader hwriter .deleteCredential (some _)
      (encodable_parameters ?_ ?_) (by rintro ⟨⟩) rfl h hlength
    · simp [KeysAscend]
    · simp [encodable_int, encodable_descriptor]
  | updateUserInformation h =>
    refine agrees_management hreader hwriter .updateUserInformation (some _)
      (encodable_parameters ?_ ?_) (by rintro ⟨⟩) rfl h hlength
    · simp [KeysAscend, int, keyLt_integer]
    · simp [encodable_int, encodable_descriptor, encodable_userEntity]

end Building

@[reducible] def writingBench : Externals :=
  { readingBench with intoWriter := fun value => some (shortest (fun _ => []) value) }

theorem requests_agree_minimum :
    let _ := writingBench
    let message := List.replicate 32 0xFF ++ [0x0D, 0x03, 0xA2, 0x01, 0x06, 0x03, 0xF5]
    ∃ payload entries,
      (setMinPinLength (some ⟨[1], .v2, 0x20⟩) (some 6) none (some true) none).bytes =
        0x0D :: payload ∧
      requestParameters payload = .ok entries ∧
      mapGet entries (.int 2) = some (.map [(int 1, int 6), (int 3, .bool true)]) ∧
      EngineVerifies 0x0D payload entries .v2 (authenticate .v2 [1] message) message := by
  let _ := writingBench
  obtain ⟨payload, entries, hbytes, haccepts, -, hparameters, -, hverifies⟩ :=
    @requests_agree (fun _ => 0) (fun _ => []) _ (some _) (fun _ _ _ => rfl) (fun _ => rfl) _ _ _ _
      (.setMinPinLength (some ⟨[1], .v2, 0x20⟩) (some 6) none (some true) none) (by decide)
  obtain ⟨message, hmessage, hverified⟩ := hverifies _ rfl
  cases hmessage
  exact ⟨payload, entries, hbytes, haccepts, hparameters, hverified⟩

end SoftwareAuthenticator.Client
