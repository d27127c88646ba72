import SoftwareAuthenticator.Ctap.Watch

/-!
# The store in memory, and a world without faults

`MemoryStore` never fails for a reason of its own. What was sealed under the current key opens
with the same associated data, and nothing else opens. A `World` answers every operation of the
engine, those on the store from the store.
-/

namespace SoftwareAuthenticator.Ctap

variable [Externals]

structure SealedId where
  sealed : Bytes
  associatedData : Bytes
  plaintext : Bytes
  deriving DecidableEq, Repr

structure MemoryStore where
  credentials : List CredentialRecord
  pinState : Option PinStateRecord
  signatureCounter : UInt32
  largeBlobArray : Bytes
  attestation : Option AttestationRecord
  maxCredentials : ℕ
  sealedIds : List SealedId
  deriving DecidableEq, Repr

def PinStateRecord.fault (state : PinStateRecord) : Option String :=
  if ¬ (defaultMinPinLength ≤ state.minPinLength ∧ state.minPinLength ≤ maxPinLength) then
    some "minimum PIN length out of range"
  else if ¬ (defaultMinPinLength ≤ state.pinCodePointLength ∧
      state.pinCodePointLength ≤ maxPinLength) then
    some "PIN code-point length out of range"
  else if maxMinPinLengthRpIds < state.minPinLengthRpIds.length then
    some "too many minimum PIN length RP IDs"
  else if state.minPinLengthRpIds.any fun rpId => maxRpIdLength < (utf8 rpId).length then
    some "minimum PIN length RP ID too long"
  else if state.persistentTokens.toList.any fun token =>
      token.secret.all (· = 0) ∨
        (token.granted ∧ (state.pinHash.isNone ∨ state.forcePinChange)) then
    some "invalid persistent management authority"
  else none

namespace MemoryStore

def empty : MemoryStore where
  credentials := []
  pinState := none
  signatureCounter := 0
  largeBlobArray := initialLargeBlobArray
  attestation := none
  maxCredentials := 1000
  sealedIds := []

def get (store : MemoryStore) (credentialId : Bytes) : Option CredentialRecord :=
  store.credentials.find? fun record => record.credentialId = credentialId

def nextCreatedAt (records : List CredentialRecord) : ℕ :=
  match (records.map (·.createdAt)).max? with
  | none => 1
  | some newest => saturatingAdd newest 1

def replace (store : MemoryStore) (record : CredentialRecord) : MemoryStore :=
  { store with credentials := store.credentials.map fun existing =>
      if existing.credentialId = record.credentialId then
        { record with createdAt := existing.createdAt }
      else existing }

def add (store : MemoryStore) (record : CredentialRecord) : MemoryStore :=
  { store with credentials := store.credentials ++
      [{ record with createdAt := nextCreatedAt store.credentials }] }

def put (store : MemoryStore) (record : CredentialRecord) :
    Except StoreError Unit × MemoryStore :=
  match validateCredential record with
  | .error err => (.error err, store)
  | .ok () =>
    match store.get record.credentialId with
    | some _ => (.ok (), store.replace record)
    | none =>
      if store.maxCredentials ≤ store.credentials.length then
        (.error (.full store.maxCredentials), store)
      else (.ok (), store.add record)

def sameAccount (record existing : CredentialRecord) : Bool :=
  isDiscoverable existing.credentialId ∧ existing.rpId = record.rpId ∧
    existing.userId = record.userId

def insertOrReplaceDiscoverable (store : MemoryStore) (record : CredentialRecord) :
    Except StoreError CredentialCommit × MemoryStore :=
  match validateCredential record with
  | .error err => (.error err, store)
  | .ok () =>
    if isDiscoverable record.credentialId = false then
      (.error (.invalidRecord "replacement requires a discoverable credential"), store)
    else if (store.get record.credentialId).isSome then
      (.error (.invalidRecord "credential ID is occupied"), store)
    else if store.credentials.any (sameAccount record) = false ∧
        store.maxCredentials ≤ store.credentials.length then
      (.error (.full store.maxCredentials), store)
    else
      (.ok { durability := .volatile, cleanupPending := false },
        { store with credentials :=
            (store.credentials.filter fun existing => !sameAccount record existing) ++
              [{ record with createdAt := nextCreatedAt store.credentials }] })

def delete (store : MemoryStore) (credentialId : Bytes) : Bool × MemoryStore :=
  ((store.get credentialId).isSome,
    { store with credentials :=
        store.credentials.filter fun record => record.credentialId ≠ credentialId })

def list (store : MemoryStore) : List CredentialRecord := sortNewestFirst store.credentials

def clear (store : MemoryStore) : MemoryStore :=
  { store with
    credentials := []
    pinState := some .initial
    signatureCounter := 0
    largeBlobArray := initialLargeBlobArray
    sealedIds := [] }

def setPinState (store : MemoryStore) (state : PinStateRecord) :
    Except StoreError CommitDurability × MemoryStore :=
  match state.fault with
  | some reason => (.error (.invalidRecord reason), store)
  | none => (.ok .volatile, { store with pinState := some state })

def setLargeBlobArray (store : MemoryStore) (array : Bytes) :
    Except StoreError Unit × MemoryStore :=
  if validLargeBlobArray array then (.ok (), { store with largeBlobArray := array })
  else if 17 ≤ array.length ∧ array.length ≤ maxSerializedLargeBlobArray then
    (.error (.invalidRecord "serialized large-blob array hash is invalid"), store)
  else (.error (.invalidRecord "serialized large-blob array length out of range"), store)

/-- Sealing writes the default PIN state if there is none. -/
def sealCredentialId (store : MemoryStore) (sealed plaintext associatedData : Bytes) :
    MemoryStore :=
  { store with
    pinState := some (store.pinState.getD .initial)
    sealedIds := ⟨sealed, associatedData, plaintext⟩ :: store.sealedIds }

def openCredentialId (store : MemoryStore) (sealed associatedData : Bytes) : Option Bytes :=
  (store.sealedIds.find? fun id => id.sealed = sealed ∧ id.associatedData = associatedData).map
    (·.plaintext)

/-- The answer of the store to an operation; `sealed` is what sealing returns. -/
def handle (sealed : Bytes) (store : MemoryStore) : (op : StoreOp) → op.Res × MemoryStore
  | .get credentialId => (.ok (store.get credentialId), store)
  | .put record => store.put record
  | .insertOrReplaceDiscoverable record => store.insertOrReplaceDiscoverable record
  | .delete credentialId => ((store.delete credentialId).1 |> .ok, (store.delete credentialId).2)
  | .list => (.ok store.list, store)
  | .count => (.ok store.credentials.length, store)
  | .maxCredentials => (store.maxCredentials, store)
  | .clear => (.ok .volatile, store.clear)
  | .pinState => (.ok store.pinState, store)
  | .setPinState state => store.setPinState state
  | .directoryFlush => (.supported, store)
  | .signatureCounter => (.ok store.signatureCounter, store)
  | .setSignatureCounter value => (.ok (), { store with signatureCounter := value })
  | .largeBlobArray => (.ok store.largeBlobArray, store)
  | .setLargeBlobArray array => store.setLargeBlobArray array
  | .attestation => (.ok store.attestation, store)
  | .sealCredentialId plaintext associatedData =>
    (.ok sealed, store.sealCredentialId sealed plaintext associatedData)
  | .openCredentialId sealed associatedData =>
    (.ok (store.openCredentialId sealed associatedData), store)

/-- Other operations leave the stored PIN state alone, but sealing writes that of a new
authenticator where there is none. -/
theorem pinState_handle (sealed : Bytes) (store : MemoryStore) {op : StoreOp}
    (hop : (EnvOp.store op).leavesPinState = true) :
    (store.handle sealed op).2.pinState = store.pinState ∨
      (store.pinState = none ∧ (store.handle sealed op).2.pinState = some .initial) := by
  cases op with
  | pinState | setPinState _ | clear => cases hop
  | put record =>
    refine .inl ?_
    simp only [handle, put]
    repeat' split
    all_goals rfl
  | insertOrReplaceDiscoverable record =>
    refine .inl ?_
    simp only [handle, insertOrReplaceDiscoverable]
    repeat' split
    all_goals rfl
  | setLargeBlobArray array =>
    refine .inl ?_
    simp only [handle, setLargeBlobArray]
    repeat' split
    all_goals rfl
  | sealCredentialId plaintext associatedData =>
    rcases hpin : store.pinState with _ | record
    · exact .inr ⟨rfl, by simp [handle, sealCredentialId, hpin]⟩
    · exact .inl (by simp [handle, sealCredentialId, hpin])
  | _ => exact .inl rfl

end MemoryStore

/-- What does not come from the store: the answers of the clock, the random number
generators, the user and the transport, by how many were given before. -/
structure Surroundings where
  answer : ℕ → (op : EnvOp) → op.Res
  sealed : ℕ → Bytes

structure World where
  store : MemoryStore
  surroundings : Surroundings
  given : ℕ

/-- How many answers of the surroundings the store uses: sealing draws a nonce. -/
def StoreOp.draws : StoreOp → ℕ
  | .sealCredentialId _ _ => 1
  | _ => 0

def World.handle (world : World) : (op : EnvOp) → op.Res × World
  | .store op =>
    let answer := world.store.handle (world.surroundings.sealed world.given) op
    (answer.1, { world with store := answer.2, given := world.given + op.draws })
  | op => (world.surroundings.answer world.given op, { world with given := world.given + 1 })

def World.run {σ ε α : Type} (world : World) (c : Cmd env σ ε α) (s : σ) :
    (Except ε α × σ) × Trace × World :=
  (c s).eval World.handle world

theorem World.runs_run {σ ε α : Type} (c : Cmd env σ ε α) (s : σ) (world : World) :
    c.Runs s (world.run c s).2.1 (world.run c s).1.1 (world.run c s).1.2 := by
  have h := Prog.eval_yields World.handle (c s) world
  exact h

def World.exchange (world : World) (request : Request) (app : CtapApp) : Happening × World :=
  match world.run (serve request) app with
  | ((.ok reply, app'), trace, world') => (.exchange request trace reply app', world')

def World.exchanges (world : World) (app : CtapApp) : List Request → List Happening
  | [] => []
  | request :: requests =>
    match world.exchange request app with
    | (.exchange request trace reply app', world') =>
      .exchange request trace reply app' :: world'.exchanges app' requests
    | _ => []

theorem World.exchange_eq (world : World) (request : Request) (app : CtapApp) :
    ∃ trace reply app' world', world.exchange request app =
      (.exchange request trace reply app', world') ∧
      (serve request).Runs app trace (.ok reply) app' := by
  have hruns := World.runs_run (serve request) app world
  unfold World.exchange
  generalize world.run (serve request) app = result at hruns
  obtain ⟨⟨outcome, app'⟩, trace, world'⟩ := result
  cases outcome with
  | error e => exact e.elim
  | ok reply => exact ⟨trace, reply, app', world', rfl, hruns⟩

theorem World.executes_exchanges (requests : List Request) (world : World) (app : CtapApp) :
    engine.Executes (some app) (world.exchanges app requests) := by
  induction requests generalizing world app with
  | nil => trivial
  | cons request requests ih =>
    obtain ⟨trace, reply, app', world', heq, hruns⟩ := world.exchange_eq request app
    unfold World.exchanges
    rw [heq]
    exact ⟨hruns, ih world' app'⟩

def World.session (world : World) (settings : Settings) (requests : List Request) :
    List Happening :=
  match world.run (powerUp settings) none with
  | ((.ok (), some app), trace, world') =>
    .powerUp settings trace app :: world'.exchanges app requests
  | _ => []

theorem World.executes_session (world : World) (settings : Settings) (requests : List Request) :
    engine.Executes none (world.session settings requests) := by
  have hruns := World.runs_run (powerUp settings) none world
  unfold World.session
  generalize world.run (powerUp settings) none = result at hruns
  obtain ⟨⟨outcome, state⟩, trace, world'⟩ := result
  cases outcome with
  | error e => exact e.elim
  | ok u =>
    cases state with
    | none => trivial
    | some app => exact ⟨hruns, World.executes_exchanges requests world' app⟩

section Observed

variable {W : Type} {O : Observer env W} {R : World → W → Prop}

theorem World.admits_exchanges (hR : ∀ (world : World) w op, R world w →
      O.admits w ⟨op, (world.handle op).1⟩ ∧
        R (world.handle op).2 (O.next w ⟨op, (world.handle op).1⟩))
    (requests : List Request) {world : World} {app : CtapApp} {w : W} (h : R world w) :
    O.Admits w (record (world.exchanges app requests)) := by
  induction requests generalizing world app w with
  | nil => trivial
  | cons request requests ih =>
    obtain ⟨hadmits, hafter⟩ := Observer.eval_admits hR (serve request app) h
    unfold World.exchanges World.exchange World.run
    generalize (serve request app).eval World.handle world = result at hadmits hafter
    obtain ⟨⟨outcome, app'⟩, trace, world'⟩ := result
    cases outcome with
    | error e => exact e.elim
    | ok reply => exact (Observer.admits_append _ _ _ _).mpr ⟨hadmits, ih hafter⟩

theorem World.admits_session (hR : ∀ (world : World) w op, R world w →
      O.admits w ⟨op, (world.handle op).1⟩ ∧
        R (world.handle op).2 (O.next w ⟨op, (world.handle op).1⟩))
    (settings : Settings) (requests : List Request) {world : World} {w : W} (h : R world w) :
    O.Admits w (record (world.session settings requests)) := by
  obtain ⟨hadmits, hafter⟩ := Observer.eval_admits hR (powerUp settings none) h
  unfold World.session World.run
  generalize (powerUp settings none).eval World.handle world = result at hadmits hafter
  obtain ⟨⟨outcome, state⟩, trace, world'⟩ := result
  cases outcome with
  | error e => exact e.elim
  | ok u =>
    cases state with
    | none => trivial
    | some app =>
      exact (Observer.admits_append _ _ _ _).mpr ⟨hadmits, World.admits_exchanges hR _ hafter⟩

end Observed

/-- Simple stand-ins for the external functions. Every hash and MAC is zero, ciphers
leave their input alone, and the CBOR reader knows the requests it is given. -/
@[reducible] def Externals.bench (requests : List (Bytes × Value)) : Externals where
  sha256 _ := List.replicate 32 0
  length_sha256 _ := List.length_replicate
  hmacSha256 _ _ := List.replicate 32 0
  aesCbcEncrypt _ _ plaintext := plaintext
  aesCbcDecrypt _ _ ciphertext := ciphertext
  p256SecretValid _ := true
  p256Point _ := (List.replicate 32 0, List.replicate 32 0)
  diffieHellman secret _ := some secret
  rsaKeyValid _ := true
  credentialSecretFromBytes alg bytes := some ⟨alg.keyKind, bytes⟩
  cosePublicKey _ _ := some []
  sec1Point _ := []
  fromReader payload := (requests.find? fun request => request.1 = payload).map (·.2)
  intoWriter _ := some []

/-- A user who approves, keys and random bytes that are all ones, and a clock that
stands at `time`. -/
def Surroundings.bench (time : Duration) : Surroundings where
  answer _
    | .now => time
    | .random n => Vector.replicate n 1
    | .generateKey alg => PrivateKeyMaterial.fromBytes alg.keyKind (List.replicate 32 1)
    | .sign _ _ _ _ => some []
    | .selfCertificate _ _ _ => some []
    | .isCancelled => false
    | .keepalive _ => ()
    | .confirm _ => .approved
    | .observe _ => ()
    | .store op => (MemoryStore.empty.handle [] op).1
  sealed _ := List.replicate (sealedIdLength - 1) 0

theorem nonempty_res (op : EnvOp) : Nonempty op.Res :=
  ⟨(Surroundings.bench 0).answer 0 op⟩

def Settings.bench : Settings where
  aaguid := List.replicate 16 0
  attestationMode := .none
  presenceTimeout := seconds 30
  resetWindow := some (seconds 10)

def CtapApp.bench (record : PinStateRecord) : CtapApp :=
  .new .bench (.fromPersistent record) .read

def World.bench (record : PinStateRecord) (credentials : List CredentialRecord)
    (time : Duration) : World where
  store := { MemoryStore.empty with pinState := some record, credentials := credentials }
  surroundings := .bench time
  given := 0

def benchCredential (credentialId : Bytes) : CredentialRecord where
  credentialId := credentialId
  rpId := "a"
  userId := [1]
  userName := none
  userDisplayName := none
  alg := .es256
  privateKey := ⟨.p256Scalar, List.replicate 32 1⟩
  credRandomWithUv := List.replicate 32 1
  credRandomWithoutUv := List.replicate 32 2
  credBlob := none
  largeBlobKey := none
  thirdPartyPayment := false
  credProtect := 1
  signCount := 0
  createdAt := 1

def benchToken : InUseToken where
  value := List.replicate 32 3
  protocol := .v2
  origin := some .permissionBearing
  permissions := permissionMc ||| permissionGa
  permissionsRpId := none
  startedAt := 0
  id := 1
  used := false
  userPresent := false
  userVerified := true

def CtapApp.benchWithToken (record : PinStateRecord) : CtapApp :=
  { CtapApp.bench record with
    pinState := { PinState.fromPersistent record with token := ⟨some benchToken, 1⟩ } }

def descriptorBytes (id : UInt8) : Bytes :=
  [0xa2, 0x62, 0x69, 0x64, 0x41, id, 0x64, 0x74, 0x79, 0x70, 0x65, 0x6a] ++ utf8 "public-key"

def descriptorOf (id : UInt8) : Value :=
  .map [(.text "id", .bytes [id]), (.text "type", .text "public-key")]

/-- A makeCredential request for "a" with a pinUvAuthParam, and an excludeList of one
credential if there is one, as CBOR and as the value it encodes. -/
def registrationPayload (excluded : Option UInt8) : Bytes :=
  (if excluded.isSome then [0xa7] else [0xa6]) ++ [0x01, 0x58, 0x20] ++ List.replicate 32 4 ++
    [0x02, 0xa1, 0x62, 0x69, 0x64, 0x61, 0x61, 0x03, 0xa1, 0x62, 0x69, 0x64, 0x41, 0x01] ++
    [0x04, 0x81, 0xa2, 0x63, 0x61, 0x6c, 0x67, 0x26, 0x64, 0x74, 0x79, 0x70, 0x65, 0x6a] ++
    utf8 "public-key" ++ (excluded.elim [] fun id => [0x05, 0x81] ++ descriptorBytes id) ++
    [0x08, 0x58, 0x20] ++ List.replicate 32 0 ++ [0x09, 0x02]

def registrationValue (excluded : Option UInt8) : Value :=
  .map ([(.integer 1, .bytes (List.replicate 32 4)), (.integer 2, .map [(.text "id", .text "a")]),
    (.integer 3, .map [(.text "id", .bytes [1])]),
    (.integer 4, .array [.map [(.text "alg", .integer (-7)), (.text "type", .text "public-key")]])] ++
    (excluded.elim [] fun id => [(.integer 5, .array [descriptorOf id])]) ++
    [(.integer 8, .bytes (List.replicate 32 0)), (.integer 9, .integer 2)])

/-- A getAssertion request for "a", with a pinUvAuthParam of protocol one if it is to be
verified, as CBOR and as the value it encodes. -/
def assertionPayload (verified : Bool) : Bytes :=
  (if verified then [0xa4] else [0xa2]) ++ [0x01, 0x61, 0x61, 0x02, 0x58, 0x20] ++
    List.replicate 32 4 ++
    (if verified then [0x06, 0x50] ++ List.replicate 16 0 ++ [0x07, 0x01] else [])

def assertionValue (verified : Bool) : Value :=
  .map ([(.integer 1, .text "a"), (.integer 2, .bytes (List.replicate 32 4))] ++
    (if verified then [(.integer 6, .bytes (List.replicate 16 0)), (.integer 7, .integer 1)]
      else []))

end SoftwareAuthenticator.Ctap
