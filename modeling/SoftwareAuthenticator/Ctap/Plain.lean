import SoftwareAuthenticator.Ctap.Dispatch

/-!
# Plain commands

Most of what the handlers do neither touches the PIN state in the store nor asks the user, and
leaves the live authority alone. This module says once which functions are plain. The scope of a
request says which state of its own it may build up.
-/

namespace SoftwareAuthenticator.Ctap

/-- An operation that concerns neither the PIN state in the store nor the user, and
marks nothing. -/
def EnvOp.isPlain : EnvOp → Bool
  | .store .pinState | .store (.setPinState _) | .store .clear => false
  | .isCancelled | .keepalive _ | .confirm _ | .observe _ => false
  | _ => true

/-- What an event says about the PIN state: a read, a write or a reset of the store, a guess
or a new PIN. -/
inductive PinEvent where
  | read (answer : Except StoreError (Option PinStateRecord))
  | write (record : PinStateRecord) (answer : Except StoreError CommitDurability)
  | reset (answer : Except StoreError CommitDurability)
  | comparison (stored candidate : Option Bytes)
  | newPin (pin : Bytes)

def pinEvent : env.Event → Option PinEvent
  | ⟨.store .pinState, answer⟩ => some (.read answer)
  | ⟨.store (.setPinState record), answer⟩ => some (.write record answer)
  | ⟨.store .clear, answer⟩ => some (.reset answer)
  | ⟨.observe (.comparison stored candidate), _⟩ => some (.comparison stored candidate)
  | ⟨.observe (.newPin pin), _⟩ => some (.newPin pin)
  | _ => none

structure Authority where
  pin : PinRetryState
  token : TokenState
  stored : StoredPinState
  pending : Option PendingAssertion
  timeout : Duration
  window : Option Duration

def CtapApp.authority (app : CtapApp) : Authority where
  pin := app.pinState.pin
  token := app.pinState.token
  stored := app.storedPinState
  pending := app.pendingAssertion
  timeout := app.presenceTimeout
  window := app.resetWindow

/-- What a request may build up: an assertion to be continued, the cursors of credential
management, a large-blob write, or a new PIN. -/
structure Scope where
  remembers : Bool
  manages : Bool
  stages : Bool
  renews : Bool

namespace Scope

def nothing : Scope := ⟨false, false, false, false⟩
def remembering : Scope := ⟨true, false, false, false⟩
def managing : Scope := ⟨false, true, false, false⟩
def staging : Scope := ⟨false, false, true, false⟩
def renewing : Scope := ⟨false, false, false, true⟩

end Scope

def commandScope : UInt8 → Scope
  | 0x02 | 0x08 => .remembering
  | 0x0A | 0x41 => .managing
  | 0x0C => .staging
  | 0x06 => .renewing
  | _ => .nothing

def Request.scope : Request → Scope
  | .cbor (command :: _) => commandScope command
  | _ => .nothing

/-- A plain operation; the large-blob array is written in the scope of a write only. -/
def EnvOp.isPlainIn (scope : Scope) : EnvOp → Bool
  | .store (.setLargeBlobArray _) => scope.stages
  | op => op.isPlain

/-- A change of the engine's state that is plain in a scope. -/
structure PlainStep (scope : Scope) (app app' : CtapApp) : Prop where
  authority : app'.authority = app.authority
  largeBlobs : scope.stages = true ∨ app'.largeBlobState = app.largeBlobState
  management : scope.manages = true ∨ app'.credMgmtState = app.credMgmtState ∨
    app'.credMgmtState = .initial

abbrev PlainIn {ε α : Type} (scope : Scope) (c : EngineM ε α) : Prop :=
  Cmd.Moves (EnvOp.isPlainIn scope) (PlainStep scope) c

abbrev Plain {ε α : Type} (c : EngineM ε α) : Prop := PlainIn .nothing c

section Scope

variable {ε α : Type} {scope : Scope} {c : EngineM ε α}

theorem EnvOp.isPlain_of_isPlainIn {op : EnvOp} (h : op.isPlainIn scope = true) :
    op.isPlain = true := by
  cases op with
  | store op => cases op <;> first | rfl | exact h
  | _ => exact h

theorem PlainIn.confined (hc : PlainIn scope c) : Cmd.Confined EnvOp.isPlain CtapApp.authority c :=
  Cmd.Moves.mono hc (fun _ => EnvOp.isPlain_of_isPlainIn) fun _ _ h => h.authority

theorem Plain.within (hc : Plain c) : PlainIn scope c := by
  refine Cmd.Moves.mono hc (fun op hop => ?_) fun app app' h => ⟨h.authority, .inr ?_, .inr ?_⟩
  · cases op with
    | store op => cases op <;> first | exact hop | exact absurd hop Bool.false_ne_true
    | _ => exact hop
  · exact h.largeBlobs.resolve_left Bool.false_ne_true
  · exact h.management.resolve_left Bool.false_ne_true

end Scope

section Parts

variable {ε α : Type} {part : (ε α : Type) → EngineM ε α → Prop}

abbrev MadeOf (part : (ε α : Type) → EngineM ε α → Prop) (c : EngineM ε α) : Prop :=
  Cmd.Built part ε α c

theorem built_okOr (x : Option α) (e : ε) : MadeOf part (okOr x e) := by
  cases x with
  | some a => exact .pure a
  | none => exact .fail e

theorem built_orStatus {c : EngineM Status (Except StoreError α)} (hc : MadeOf part c) :
    MadeOf part (orStatus c) := by
  refine .bind hc fun x => ?_
  cases x with
  | ok a => exact .pure a
  | error err => exact .fail _

theorem built_storedCredential {id : Bytes}
    (hget : MadeOf part (storeAsk (ε := Status) (.get id))) : MadeOf part (storedCredential id) := by
  refine .bind hget fun found => ?_
  split
  · exact .pure _
  · exact .pure _
  · exact .fail _

theorem built_nextCredential (hget : ∀ id, MadeOf part (storeAsk (ε := Status) (.get id)))
    (rpId : String) (ids : List Bytes) : MadeOf part (nextCredential rpId ids) := by
  induction ids with
  | nil => exact .fail _
  | cons id rest ih =>
    refine .bind (built_storedCredential (hget id)) fun found => ?_
    split
    · exact .pure _
    · exact ih

theorem built_readPinStateIfUnread (hrefresh : MadeOf part refreshPersistentAuthority) :
    MadeOf part readPinStateIfUnread := by
  refine .bind (.gets _) fun stored => ?_
  split
  · exact hrefresh
  · exact .pure _
  · exact .pure _

theorem built_observeLargeBlobState (hnow : MadeOf part (now (ε := ε)))
    (htoken : MadeOf part (pinUvAuthTokenId (ε := ε)))
    (hdiscard : MadeOf part (discardLargeBlobState (ε := ε))) (command : Option UInt8) :
    MadeOf part (observeLargeBlobState (ε := ε) command) := by
  refine .bind hnow fun time => .bind (.gets _) fun state => .bind ?_ fun changed => hdiscard.when
  unfold largeBlobTokenChanged
  split
  · exact .bind htoken fun _ => .pure _
  · exact .pure _

theorem built_tokenPresence (hflag : MadeOf part (userPresentFlag (ε := Status)))
    (pinUvAuth : Option (PinProtocol × Bytes)) : MadeOf part (tokenPresence pinUvAuth) := by
  cases pinUvAuth with
  | some auth => exact hflag
  | none => exact .pure _

theorem built_assertionPresence
    (hcollect : ∀ pinUvAuth request, MadeOf part (collectPresence pinUvAuth request))
    (rpId : String) (choices : AssertionChoices) (applicable : List CredentialRecord) :
    MadeOf part (assertionPresence rpId choices applicable) := by
  unfold assertionPresence
  split
  · exact .bind (.gets _) fun _ => .bind (hcollect _ _) fun _ => .pure _
  · split
    · exact .fail _
    · exact .pure _

theorem built_forgetAssertion (hset : MadeOf part (setPendingAssertion (ε := Status) none))
    (command : Option UInt8) : MadeOf part (forgetAssertion command) := by
  unfold forgetAssertion
  split
  · exact .pure _
  · exact hset

theorem built_checkPending (hnow : MadeOf part (now (ε := Status)))
    (htoken : MadeOf part (pinUvAuthTokenId (ε := Status))) (pending : PendingAssertion) :
    MadeOf part (checkPending pending) := by
  refine .bind hnow fun time => ?_
  split
  · exact .fail _
  · split
    · refine .bind htoken fun token => ?_
      split
      · exact .fail _
      · exact .pure _
    · exact .pure _

theorem built_rememberAssertion (hnow : MadeOf part (now (ε := Status)))
    (hset : ∀ pending, MadeOf part (setPendingAssertion (ε := Status) pending))
    (pending : Duration → PendingAssertion) (remaining : List Bytes) :
    MadeOf part (rememberAssertion pending remaining) := by
  unfold rememberAssertion
  split
  · exact .pure _
  · exact .bind hnow fun _ => hset _

variable [Externals]

theorem built_respondWith (response : Response) : MadeOf part (respondWith response) :=
  .bind (.ofExcept _) fun _ => .pure _

theorem built_encryptForPlatform (hrandom : MadeOf part (randomArray (ε := Status) 16))
    (protocol : PinProtocol) (keys : PinUvSessionKeys) (plaintext : Bytes) :
    MadeOf part (encryptForPlatform protocol keys plaintext) := by
  cases protocol with
  | v1 => exact built_okOr _ _
  | v2 => exact .bind hrandom fun _ => built_okOr _ _

theorem built_nextHmacSecret (hrandom : MadeOf part (randomArray (ε := Status) 16))
    (pending : PendingAssertion) (credential : CredentialRecord) :
    MadeOf part (nextHmacSecret pending credential) := by
  unfold nextHmacSecret
  split
  · exact .pure _
  · exact .bind (built_encryptForPlatform hrandom _ _ _) fun _ => .pure _

end Parts

section Basic

variable {ε α β : Type}

theorem plain_askEnv (op : EnvOp) (h : op.isPlainIn .nothing = true) : Plain (askEnv (ε := ε) op) :=
  .part (Cmd.MovePart.ask (I := env) op h)

theorem plain_modify (f : CtapApp → CtapApp) (hauthority : ∀ app, (f app).authority = app.authority)
    (hlarge : ∀ app, (f app).largeBlobState = app.largeBlobState)
    (hmanagement : ∀ app, (f app).credMgmtState = app.credMgmtState) :
    Plain (Cmd.modify f : EngineM ε Unit) :=
  .part (.modify f fun app => ⟨hauthority app, .inr (hlarge app), .inr (.inl (hmanagement app))⟩)

theorem plain_storeAsk (op : StoreOp) (h : (EnvOp.store op).isPlainIn .nothing = true) :
    Plain (storeAsk (ε := ε) op) := plain_askEnv _ h

theorem plain_now : Plain (now (ε := ε)) := plain_askEnv _ rfl

theorem plain_randomArray (n : ℕ) : Plain (randomArray (ε := ε) n) :=
  .bind (plain_askEnv (.random n) rfl) fun _ => .pure _

theorem plain_generateKey (alg : CoseAlg) : Plain (generateKey (ε := ε) alg) := plain_askEnv _ rfl

theorem plain_trySignChallenge (alg : CoseAlg) (key : CredentialSecretKey)
    (message clientDataHash : Bytes) :
    Plain (trySignChallenge (ε := ε) alg key message clientDataHash) := plain_askEnv _ rfl

theorem plain_clearCredMgmt : Plain (clearCredMgmt (ε := ε)) :=
  .part (.modify _ fun _ => ⟨rfl, .inr rfl, .inr (.inr rfl)⟩)

theorem plainIn_modifyCredMgmt (f : CredentialManagementState → CredentialManagementState) :
    PlainIn .managing (modifyCredMgmt (ε := ε) f) :=
  .part (.modify _ fun _ => ⟨rfl, .inr rfl, .inl rfl⟩)

theorem plainIn_setLargeBlobState (state : LargeBlobState) :
    PlainIn .staging (setLargeBlobState (ε := ε) state) :=
  .part (.modify _ fun _ => ⟨rfl, .inl rfl, .inr (.inl rfl)⟩)

end Basic

theorem plainIn_orStatus {α : Type} {scope : Scope} {c : EngineM Status (Except StoreError α)}
    (hc : PlainIn scope c) : PlainIn scope (orStatus c) := built_orStatus hc

theorem plain_unsupportedDirectoryFlush {ε : Type} : Plain (unsupportedDirectoryFlush (ε := ε)) := by
  refine .bind (.gets _) fun known => ?_
  split
  · exact .pure _
  · exact .pure _
  · refine .bind (plain_storeAsk _ rfl) fun known => ?_
    split
    · exact .pure _
    · exact .bind (plain_modify _ (fun _ => rfl) (fun _ => rfl) fun _ => rfl) fun _ => .pure _
    · exact .bind (plain_modify _ (fun _ => rfl) (fun _ => rfl) fun _ => rfl) fun _ => .pure _

theorem plain_freshTokenSecret (forbidden : List Bytes) (persistent : Bool) :
    Plain (freshTokenSecret forbidden persistent) := by
  have draw : ∀ n, Plain (drawTokenSecret forbidden persistent n) := by
    intro n
    induction n with
    | zero => exact .fail _
    | succ n ih =>
      refine .bind (plain_randomArray _) fun candidate => .bind (.gets _) fun transient => ?_
      split
      · exact .pure _
      · exact ih
  exact draw 8

theorem plain_rotatePersistentTokens (persistent : PersistentPinState) :
    Plain (rotatePersistentTokens persistent) :=
  .bind (plain_freshTokenSecret _ _) fun _ => .bind (plain_freshTokenSecret _ _) fun _ => .pure _

theorem plain_rotatePersistentTokensIf (rotate : Bool) (persistent : PersistentPinState) :
    Plain (rotatePersistentTokensIf rotate persistent) := by
  cases rotate with
  | true => exact plain_rotatePersistentTokens _
  | false => exact .pure _

theorem plain_advanceSignatureCounter (credential : CredentialRecord) :
    Plain (advanceSignatureCounter credential) := by
  unfold advanceSignatureCounter
  split
  · exact .bind (plainIn_orStatus (plain_storeAsk _ rfl)) fun _ =>
      .bind (plainIn_orStatus (plain_storeAsk _ rfl)) fun _ => .pure _
  · exact .bind (plainIn_orStatus (plain_storeAsk _ rfl)) fun _ => .pure _

theorem plain_storedCredentials : Plain storedCredentials :=
  plainIn_orStatus (plain_storeAsk _ rfl)

theorem plain_storedCredential (credentialId : Bytes) : Plain (storedCredential credentialId) :=
  built_storedCredential (plain_storeAsk _ rfl)

theorem plain_attestationRecord {ε : Type} : Plain (attestationRecord (ε := ε)) := by
  refine .bind (plain_storeAsk _ rfl) fun found => ?_
  split
  · exact .pure _
  · exact .pure _

theorem plain_persistentTokenFor (protocol : PinProtocol) (tokens : PersistentTokens) :
    Plain (persistentTokenFor protocol tokens) := by
  unfold persistentTokenFor
  split
  · exact .pure _
  · exact .bind (plain_freshTokenSecret _ _) fun _ => .pure _

theorem plain_drawLargeBlobKey (requested : Bool) : Plain (drawLargeBlobKey requested) := by
  cases requested with
  | true => exact .bind (plain_randomArray _) fun _ => .pure _
  | false => exact .pure _

theorem plain_signOrFail (alg : CoseAlg) (key : CredentialSecretKey)
    (message clientDataHash : Bytes) : Plain (signOrFail alg key message clientDataHash) :=
  .bind (plain_trySignChallenge _ _ _ _) fun _ => built_okOr _ _

theorem plain_attestationKinds (omitted : Bool) : Plain (attestationKinds omitted) := by
  unfold attestationKinds
  split
  · exact .pure _
  · refine .bind (.gets _) fun mode => ?_
    split
    · refine .bind plain_attestationRecord fun found => ?_
      split
      · exact .pure _
      · exact .pure _
    · exact .pure _
    · exact .pure _

theorem plain_storeNewCredential (record : CredentialRecord) :
    Plain (storeNewCredential record) := by
  unfold storeNewCredential
  split
  · exact .bind (plainIn_orStatus (plain_storeAsk _ rfl)) fun _ => plain_clearCredMgmt
  · refine .bind (plain_storedCredential _) fun found => ?_
    split
    · exact .fail _
    · exact plainIn_orStatus (plain_storeAsk _ rfl)

theorem plain_u2fAttestationRecord : Plain u2fAttestationRecord := by
  refine .bind (.gets _) fun mode => ?_
  split
  · exact plain_attestationRecord
  · exact .pure _
  · exact .pure _

theorem plain_u2fSign (key : CredentialSecretKey) (message challenge : Bytes) :
    Plain (u2fSign key message challenge) :=
  .bind (plain_trySignChallenge _ _ _ _) fun _ => built_okOr _ _

theorem plain_nextCredential (rpId : String) (ids : List Bytes) :
    Plain (nextCredential rpId ids) := built_nextCredential (fun _ => plain_storeAsk _ rfl) rpId ids

theorem plain_fittingReply (reply : U2fReply) : Plain (fittingReply reply) := by
  unfold fittingReply
  split
  · exact .pure _
  · exact .fail _

variable [Externals]

theorem plain_keyAgreementKey (protocol : PinProtocol) : Plain (keyAgreementKey protocol) := by
  have draw : ∀ n, Plain (drawKeyAgreementKey n) := by
    intro n
    induction n with
    | zero => exact .fail _
    | succ n ih =>
      refine .bind (plain_randomArray _) fun bytes => ?_
      split
      · exact .pure _
      · exact ih
  refine .bind (.gets _) fun key => ?_
  split
  · exact .pure _
  · exact .bind (draw _) fun _ => .bind (plain_modify _ (fun _ => rfl) (fun _ => rfl) fun _ => rfl) fun _ => .pure _

theorem plain_decapsulate (protocol : PinProtocol) (platformKey : Entries) :
    Plain (decapsulate protocol platformKey) :=
  .bind (plain_keyAgreementKey protocol) fun _ => .ofExcept _

theorem plain_encryptForPlatform (protocol : PinProtocol) (keys : PinUvSessionKeys)
    (plaintext : Bytes) : Plain (encryptForPlatform protocol keys plaintext) :=
  built_encryptForPlatform (plain_randomArray _) protocol keys plaintext

theorem plain_newPinHash (protocol : PinProtocol) (keys : PinUvSessionKeys) (newPinEnc : Bytes) :
    Plain (newPinHash protocol keys newPinEnc) :=
  .bind (built_okOr _ _) fun _ => .bind (.gets _) fun _ => .bind (.ofExcept _) fun _ => .pure _

theorem plain_processHmacSecret (request : HmacSecretRequest) (credential : CredentialRecord)
    (userVerified : Bool) : Plain (processHmacSecret request credential userVerified) :=
  .bind (plain_decapsulate _ _) fun _ => .bind (.ofExcept _) fun _ => .bind (built_okOr _ _) fun _ =>
    .bind (plain_encryptForPlatform _ _ _) fun _ => .pure _

theorem plain_sealCredential (record : CredentialRecord) (key rpIdHash : Bytes) :
    Plain (sealCredential record key rpIdHash) := by
  unfold sealCredential
  split
  · exact .fail _
  · refine .bind (plain_randomArray _) fun seed =>
      .bind (plainIn_orStatus (plain_storeAsk _ rfl)) fun sealed => ?_
    split
    · exact .fail _
    · exact .pure _

theorem plain_credentialForHash (credentialId rpIdHash : Bytes) :
    Plain (credentialForHash credentialId rpIdHash) := by
  unfold credentialForHash
  split
  · exact .bind (plainIn_orStatus (plain_storeAsk _ rfl)) fun _ => .pure _
  · exact .bind (plain_storedCredential _) fun _ => .pure _

theorem plain_credentialForRp (credentialId : Bytes) (rpId : String) :
    Plain (credentialForRp credentialId rpId) :=
  .bind (plain_credentialForHash _ _) fun _ => .pure _

theorem plain_findExcluded (rpId : String) (userVerified : Bool) (ids : List Bytes) :
    Plain (findExcluded rpId userVerified ids) := by
  induction ids with
  | nil => exact .pure _
  | cons id rest ih =>
    refine .bind (plain_credentialForRp _ _) fun found => ?_
    split
    · exact ih
    · split
      · exact ih
      · exact .pure _

theorem plain_createCredential (registration : Registration) (choices : RegistrationChoices)
    (extensions : RegistrationExtensions) :
    Plain (createCredential registration choices extensions) := by
  refine .bind (.ofExcept _) fun requested => .bind (plain_generateKey _) fun generated =>
    .bind (built_okOr _ _) fun privateKey => .bind (plain_drawLargeBlobKey _) fun largeBlobKey => ?_
  dsimp only
  split
  · exact .bind (.bind (plain_randomArray _) fun _ => .pure _) fun _ =>
      .bind (plain_randomArray _) fun _ => .bind (plain_randomArray _) fun _ => .pure _
  · exact .bind (built_okOr _ _) fun _ => plain_sealCredential _ _ _

theorem plain_registrationOutputs (extensions : RegistrationExtensions)
    (hmacRequest : Option HmacSecretRequest) (record : CredentialRecord) (userVerified : Bool) :
    Plain (registrationOutputs extensions hmacRequest record userVerified) := by
  refine .bind (.gets _) fun persistent => .bind ?_ fun _ => .ofExcept _
  cases hmacRequest with
  | none => exact .pure _
  | some request => exact .bind (plain_processHmacSecret _ _ _) fun _ => .pure _

theorem plain_attestationStatement (alg : CoseAlg) (secretKey : CredentialSecretKey)
    (authData clientHash : Bytes) (kind : Attestation) :
    Plain (attestationStatement alg secretKey authData clientHash kind) := by
  cases kind with
  | basic attestation =>
    exact .bind (built_okOr _ _) fun _ => .bind (plain_signOrFail _ _ _ _) fun _ => .pure _
  | selfSigned => exact .bind (plain_signOrFail _ _ _ _) fun _ => .pure _
  | none => exact .pure _

theorem plain_attestCredential (record : CredentialRecord) (secretKey : CredentialSecretKey)
    (authData : AuthenticatorData) (clientHash : Bytes) (stored : Bool)
    (kinds : List Attestation) :
    Plain (attestCredential record secretKey authData clientHash stored kinds) := by
  induction kinds with
  | nil => exact .fail _
  | cons kind kinds ih =>
    refine .bind (plain_attestationStatement _ _ _ _ _) fun statement =>
      .bind (.ofExcept _) fun encoded => ?_
    split
    · exact ih
    · exact .bind (plain_storeNewCredential _).when fun _ => .pure _

theorem plain_registerCredential (registration : Registration) (choices : RegistrationChoices)
    (extensions : RegistrationExtensions) (hmacRequest : Option HmacSecretRequest)
    (omitted userVerified : Bool) :
    Plain (registerCredential registration choices extensions hmacRequest omitted userVerified) :=
  .bind (plain_createCredential _ _ _) fun _ => .bind (built_okOr _ _) fun _ =>
    .bind (plain_registrationOutputs _ _ _ _) fun _ => .bind (.gets _) fun _ =>
    .bind (plain_attestationKinds _) fun _ => plain_attestCredential _ _ _ _ _ _

theorem plain_locateAllowed (rpId : String) (userVerified : Bool) (ids : List Bytes)
    (found : List CredentialRecord) : Plain (locateAllowed rpId userVerified ids found) := by
  induction ids generalizing found with
  | nil => exact .pure _
  | cons id rest ih =>
    unfold locateAllowed
    split
    · exact ih _
    · refine .bind (plain_credentialForRp _ _) fun credential => ?_
      split
      · exact ih _
      · split
        · exact ih _
        · exact ih _

theorem plain_applicableCredentials (rpId : String) (userVerified : Bool)
    (allowList : Option (List Bytes)) :
    Plain (applicableCredentials rpId userVerified allowList) := by
  cases allowList with
  | some list => exact .bind (plain_locateAllowed _ _ _ _) fun _ => .pure _
  | none => exact .bind plain_storedCredentials fun _ => .pure _

theorem plain_signAssertion (credential : CredentialRecord) (rpId : String) (clientHash : Bytes)
    (userPresent userVerified : Bool) (extensions : Option Bytes) :
    Plain (signAssertion credential rpId clientHash userPresent userVerified extensions) :=
  .bind (built_okOr _ _) fun _ => .bind (plain_advanceSignatureCounter _) fun _ =>
    .bind (plain_signOrFail _ _ _ _) fun _ => .pure _

theorem plain_assertionHmacSecret (request : Option HmacSecretRequest)
    (credential : CredentialRecord) (userVerified : Bool) :
    Plain (assertionHmacSecret request credential userVerified) := by
  cases request with
  | none => exact .pure _
  | some request => exact .bind (plain_processHmacSecret _ _ _) fun _ => .pure _

theorem plain_nextHmacSecret (pending : PendingAssertion) (credential : CredentialRecord) :
    Plain (nextHmacSecret pending credential) :=
  built_nextHmacSecret (plain_randomArray _) pending credential

theorem plain_u2fAttestation (key : CredentialSecretKey) (publicKey : Bytes) :
    Plain (u2fAttestation key publicKey) := by
  refine .bind plain_u2fAttestationRecord fun attestation => ?_
  split
  · exact .bind (built_okOr _ _) fun _ => .bind (built_okOr _ _) fun _ => .pure _
  · exact .bind (plain_randomArray _) fun _ => .bind (plain_askEnv _ rfl) fun _ =>
      .bind (built_okOr _ _) fun _ => .pure _

theorem plain_u2fCredential (handle application : Bytes) :
    Plain (u2fCredential handle application) :=
  .bind (plain_credentialForHash _ _).mapError fun _ => built_okOr _ _

end SoftwareAuthenticator.Ctap
