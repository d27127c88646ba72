import SoftwareAuthenticator.Ctap.Plain

/-!
# What the requests are made of

Everything the engine does on a request is plain, or one of the few commands below. A property of
the engine that every request keeps is proved for these parts.
-/

namespace SoftwareAuthenticator.Ctap

variable {scope : Scope} (map : Entries)

theorem plainIn_beginFragment (offset : ℕ) : PlainIn .staging (beginFragment map offset) := by
  unfold beginFragment
  split
  · exact .bind (.ofExcept _) fun _ => .bind (.gets _) fun _ => plainIn_setLargeBlobState _
  · split
    · exact .fail _
    · exact .pure _

theorem plainIn_orDiscardWrite {α : Type} (x : Except Status α) : PlainIn .staging (orDiscardWrite x) := by
  cases x with
  | ok a => exact .pure a
  | error status => exact .bind (plainIn_setLargeBlobState _) fun _ => .fail _

theorem plain_discoverableCredentials : Plain discoverableCredentials :=
  .bind plain_storedCredentials fun _ => .pure _

theorem plain_managedCredential (credentialId : Bytes) :
    Plain (managedCredential credentialId) := by
  unfold managedCredential
  split
  · exact plain_storedCredential _
  · exact .pure _

theorem plainIn_cmDeleteCredential (params : Entries) : PlainIn .managing (cmDeleteCredential params) := by
  refine .bind (.ofExcept _) fun id => ?_
  split
  · refine .bind (plainIn_modifyCredMgmt _) fun _ =>
      .bind (plainIn_orStatus (plain_storeAsk _ rfl).within) fun deleted => ?_
    split
    · exact plainIn_modifyCredMgmt _
    · exact .fail _
  · exact .fail _

theorem plainIn_cmUpdateUserInformation (params : Entries) :
    PlainIn .managing (cmUpdateUserInformation params) := by
  refine .bind (.ofExcept _) fun id => .bind (.ofExcept _) fun user =>
    .bind (.ofExcept _) fun userId => .bind (plain_managedCredential _).within fun found => ?_
  split
  · exact .fail _
  · split
    · exact .fail _
    · exact .bind (.ofExcept _) fun _ => .bind (.ofExcept _) fun _ =>
        .bind (plainIn_modifyCredMgmt _) fun _ => plainIn_orStatus (plain_storeAsk _ rfl).within

theorem plainIn_enterContext (auth : EnumerationAuthorization) : PlainIn .managing (enterContext auth) := by
  refine .bind (.gets _) fun context => ?_
  split
  · exact .pure _
  · exact .bind (plainIn_modifyCredMgmt _) fun _ => plainIn_modifyCredMgmt _

theorem plainIn_enterFamily (family : ManagementFamily) : PlainIn .managing (enterFamily family) := by
  refine .bind (.gets _) fun current => ?_
  split
  · exact .pure _
  · exact .bind (plainIn_modifyCredMgmt _) fun _ => plainIn_modifyCredMgmt _

theorem plain_checkResetWindow : Plain checkResetWindow := by
  refine .bind (.gets _) fun window => ?_
  split
  · exact .pure _
  · refine .bind plain_now fun time => ?_
    split
    · exact .fail _
    · exact .pure _

variable [Externals]

/-- The parts that handlers share, in the scope of the request. -/
inductive BasicPart (scope : Scope) : (ε α : Type) → EngineM ε α → Prop
  | plain {ε α : Type} {c : EngineM ε α} : PlainIn scope c → BasicPart scope ε α c
  | setPendingAssertion {ε : Type} (pending : Option PendingAssertion)
      (h : scope.remembers = true ∨ pending = none) :
      BasicPart scope ε Unit (setPendingAssertion pending)
  | discardLargeBlobState {ε : Type} : BasicPart scope ε Unit discardLargeBlobState
  -- The token
  | observeToken {ε : Type} : BasicPart scope ε TokenState observeToken
  | verifyPinUvAuthParam (protocol : PinProtocol) (message param : Bytes) :
      BasicPart scope Status Unit (verifyPinUvAuthParam protocol message param)
  | ensurePinTokenPermissionForRp (permission : Permissions) (rpId : String) :
      BasicPart scope Status Unit (ensurePinTokenPermissionForRp permission rpId)
  | ensureLargeBlobWrite : BasicPart scope Status Unit (ensurePermission permissionLbw .largeBlobWrite)
  | ensureConfig : BasicPart scope Status Unit (ensurePermission permissionAcfg .authenticatorConfig)
  | cmAuthorize (family : ManagementFamily) (subcommand : ManagementSubcommand)
      (params : Option Entries) (protocol : PinProtocol) :
      BasicPart scope Status EnumerationAuthorization (cmAuthorize family subcommand params protocol)
  | continueEnumeration (auth : Option EnumerationAuthorization) (family : ManagementFamily)
      (rpHash : Option Bytes) :
      BasicPart scope Status Bool (continueEnumeration auth family rpHash)
  -- The PIN state
  | refreshPersistentAuthority : BasicPart scope Status Unit refreshPersistentAuthority
  | toggleAlwaysUv : BasicPart scope Status Unit toggleAlwaysUv
  | setMinPinLength (params : Entries) : BasicPart scope Status Unit (setMinPinLength params)
  | resetAuthenticator : BasicPart scope Status Unit resetAuthenticator

/-- The parts of requests that do not ask the user. The subcommands of clientPIN that
check or set a PIN are whole: what one of them does depends on what came before in it. -/
inductive CommandPart (scope : Scope) : (ε α : Type) → EngineM ε α → Prop
  | basic {ε α : Type} {c : EngineM ε α} : BasicPart scope ε α c → CommandPart scope ε α c
  | clientPinSetPin (map : Entries) (h : scope.renews = true) :
      CommandPart scope Status Response (clientPinSetPin map)
  | clientPinChangePin (map : Entries) (h : scope.renews = true) :
      CommandPart scope Status Response (clientPinChangePin map)
  | clientPinGetTokenCommon (protocol : PinProtocol) (keyAgreement : Entries)
      (pinHashEnc : Bytes) (grant : TokenGrant) (forceChangeError : Status) :
      CommandPart scope Status Response
        (clientPinGetTokenCommon protocol keyAgreement pinHashEnc grant forceChangeError)

/-- The parts of requests, with those subcommands taken apart. -/
inductive EnginePart (scope : Scope) : (ε α : Type) → EngineM ε α → Prop
  | basic {ε α : Type} {c : EngineM ε α} : BasicPart scope ε α c → EnginePart scope ε α c
  | verifyPinHashEnc (protocol : PinProtocol) (keys : PinUvSessionKeys) (pinHashEnc : Bytes) :
      EnginePart scope Status Unit (verifyPinHashEnc protocol keys pinHashEnc)
  | storeNewPin (pin hash : Bytes) (length : ℕ) :
      EnginePart scope Status Unit (storeNewPin pin hash length)
  | grantPersistentToken (protocol : PinProtocol) (keys : PinUvSessionKeys) :
      EnginePart scope Status Bytes (grantPersistentToken protocol keys)
  | issuePinUvAuthToken {ε : Type} (protocol : PinProtocol) (value : Bytes) (grant : TokenGrant) :
      EnginePart scope ε Unit (issuePinUvAuthToken protocol value grant)

/-- Parts together with those that ask the user. -/
inductive AskingPart (part : (ε α : Type) → EngineM ε α → Prop) :
    (ε α : Type) → EngineM ε α → Prop
  | quiet {ε α : Type} {c : EngineM ε α} : part ε α c → AskingPart part ε α c
  | askUser {ε : Type} (request : PresenceRequest) :
      AskingPart part ε PresenceOutcome (askUser request)
  | collectPresence (pinUvAuth : Option (PinProtocol × Bytes)) (request : PresenceRequest) :
      AskingPart part Status Unit (collectPresence pinUvAuth request)

abbrev Composed {ε α : Type} (scope : Scope) (c : EngineM ε α) : Prop :=
  Cmd.Built (CommandPart scope) ε α c

abbrev Prompting {ε α : Type} (scope : Scope) (c : EngineM ε α) : Prop :=
  Cmd.Built (AskingPart (CommandPart scope)) ε α c

abbrev Assembled {ε α : Type} (scope : Scope) (c : EngineM ε α) : Prop :=
  Cmd.Built (EnginePart scope) ε α c

variable {ε α : Type}

theorem BasicPart.composed {c : EngineM ε α} (hc : BasicPart scope ε α c) : Composed scope c :=
  .part (.basic hc)

theorem PlainIn.composed {c : EngineM ε α} (hc : PlainIn scope c) : Composed scope c :=
  BasicPart.composed (.plain hc)

theorem Plain.composed {c : EngineM ε α} (hc : Plain c) : Composed scope c :=
  PlainIn.composed hc.within

theorem Composed.prompting {c : EngineM ε α} (hc : Composed scope c) : Prompting scope c :=
  Cmd.Built.mono (fun _ _ _ h => .part (.quiet h)) hc

theorem Plain.prompting {c : EngineM ε α} (hc : Plain c) : Prompting scope c :=
  hc.composed.prompting

theorem Plain.assembled {c : EngineM ε α} (hc : Plain c) : Assembled scope c :=
  .part (.basic (.plain hc.within))

section Token

theorem composed_observeToken : Composed scope (observeToken (ε := ε)) := BasicPart.composed .observeToken

theorem composed_pinUvAuthTokenId : Composed scope (pinUvAuthTokenId (ε := ε)) :=
  .bind composed_observeToken fun _ => .pure _

theorem composed_userPresentFlag : Composed scope (userPresentFlag (ε := ε)) :=
  .bind composed_observeToken fun _ => .pure _

theorem composed_observeLargeBlobState (command : Option UInt8) :
    Composed scope (observeLargeBlobState (ε := ε) command) :=
  built_observeLargeBlobState plain_now.composed composed_pinUvAuthTokenId
    (BasicPart.composed .discardLargeBlobState) command

end Token

theorem composed_readPinStateIfUnread : Composed scope readPinStateIfUnread :=
  built_readPinStateIfUnread (BasicPart.composed .refreshPersistentAuthority)

theorem prompting_confirmUserPresence (request : PresenceRequest) :
    Prompting scope (confirmUserPresence request) :=
  .bind (.part (.askUser request)) fun _ => .ofExcept _

theorem prompting_selectForPinUvAuth : Prompting scope (selectForPinUvAuth (ε := Status)) := by
  refine .bind (.gets _) fun timeout => .bind (.part (.askUser _)) fun outcome => ?_
  split
  · exact .bind (.gets _) fun _ => .pure _
  · exact .pure _
  · exact .pure _
  · exact .pure _

theorem composed_verifyUser (pinUvAuth : Option (PinProtocol × Bytes)) (clientHash : Bytes)
    (permission : Permissions) (rpId : String) :
    Composed scope (verifyUser pinUvAuth clientHash permission rpId) := by
  refine .bind (.gets _) fun isSet => ?_
  split
  · split
    · exact .bind (BasicPart.composed (.verifyPinUvAuthParam _ _ _)) fun _ =>
        .bind (BasicPart.composed (.ensurePinTokenPermissionForRp _ _)) fun _ => .pure _
    · exact .pure _
  · exact .pure _

theorem prompting_refuseExcluded (pinUvAuth : Option (PinProtocol × Bytes))
    (request : PresenceRequest) : Prompting scope (refuseExcluded pinUvAuth request) := by
  refine .bind (built_tokenPresence composed_userPresentFlag.prompting _) fun present => ?_
  split
  · exact .fail _
  · refine .bind (prompting_confirmUserPresence request).attempt fun outcome => ?_
    split
    · exact .fail _
    · exact .fail _

theorem composed_authorizeRegistration (registration : Registration)
    (choices : RegistrationChoices) :
    Composed scope (authorizeRegistration map registration choices) := by
  refine .bind (.gets _) fun persistent => ?_
  split
  · exact .fail _
  · exact .bind (.ofExcept _) fun _ => .bind (.ofExcept _) fun _ => .bind (.ofExcept _) fun _ =>
      .bind (composed_verifyUser _ _ _ _) fun _ => .pure _

variable (payload : Bytes)

theorem prompting_handleMakeCredential : Prompting scope (handleMakeCredential payload) := by
  refine .bind (.ofExcept _) fun map => .bind (.ofExcept _) fun registration =>
    .bind composed_readPinStateIfUnread.prompting fun _ => ?_
  split
  · exact .bind prompting_selectForPinUvAuth fun _ => .fail _
  · refine .bind (.ofExcept _) fun choices =>
      .bind (composed_authorizeRegistration _ _ _).prompting fun authorized =>
      .bind (.gets _) fun timeout => .bind (plain_findExcluded _ _ _).prompting fun excluded => ?_
    split
    · exact prompting_refuseExcluded _ _
    · exact .bind (.part (.collectPresence _ _)) fun _ =>
        (plain_registerCredential _ _ _ _ _ _).prompting

theorem prompting_assertionPresence (rpId : String) (choices : AssertionChoices)
    (applicable : List CredentialRecord) :
    Prompting scope (assertionPresence rpId choices applicable) :=
  built_assertionPresence (fun _ _ => .part (.collectPresence _ _)) rpId choices applicable

theorem composed_verifyAssertionUser (pinUvAuth : Option (PinProtocol × Bytes))
    (clientHash : Bytes) (rpId : String) :
    Composed scope (verifyAssertionUser pinUvAuth clientHash rpId) := by
  refine .bind (composed_verifyUser _ _ _ _) fun userVerified => ?_
  split
  · exact .bind composed_pinUvAuthTokenId fun _ => .pure _
  · exact .pure _

theorem composed_rememberAssertion (pending : Duration → PendingAssertion)
    (remaining : List Bytes) : Composed .remembering (rememberAssertion pending remaining) :=
  built_rememberAssertion plain_now.composed
    (fun _ => BasicPart.composed (.setPendingAssertion _ (.inl rfl))) pending remaining

theorem composed_assertFirst (rpId : String) (clientHash : Bytes) (choices : AssertionChoices)
    (userPresent userVerified : Bool) (token : Option UInt64) (credential : CredentialRecord)
    (rest : List CredentialRecord) :
    Composed .remembering (assertFirst rpId clientHash choices userPresent userVerified token credential
      rest) :=
  .bind (.ofExcept _) fun _ => .bind (plain_assertionHmacSecret _ _ _).composed fun _ =>
    .bind (.ofExcept _) fun _ => .bind (plain_signAssertion _ _ _ _ _ _).composed fun _ =>
    .bind (composed_rememberAssertion _ _) fun _ => built_respondWith _

theorem prompting_getAssertion (rpId : String) (clientHash : Bytes) :
    Prompting .remembering (getAssertion map rpId clientHash) := by
  refine .bind (.ofExcept _) fun choices => .bind (.gets _) fun persistent => ?_
  split
  · exact .fail _
  · refine .bind (composed_verifyAssertionUser _ _ _).prompting fun verified =>
      .bind (plain_applicableCredentials _ _ _).prompting fun applicable => ?_
    split
    · exact .fail _
    · exact .bind (prompting_assertionPresence _ _ _) fun _ =>
        (composed_assertFirst _ _ _ _ _ _ _ _).prompting

theorem prompting_handleGetAssertion : Prompting .remembering (handleGetAssertion payload) := by
  refine .bind (.ofExcept _) fun map => .bind (.ofExcept _) fun rpId =>
    .bind (.ofExcept _) fun clientHash => .bind composed_readPinStateIfUnread.prompting fun _ => ?_
  split
  · exact .bind prompting_selectForPinUvAuth fun _ => .fail _
  · exact prompting_getAssertion _ _ _

theorem composed_checkPending (pending : PendingAssertion) :
    Composed scope (checkPending pending) :=
  built_checkPending plain_now.composed composed_pinUvAuthTokenId pending

theorem built_handleGetNextAssertion {part : (ε α : Type) → EngineM ε α → Prop}
    (hplain : ∀ {α : Type} {c : EngineM Status α}, Plain c → MadeOf part c)
    (htoken : MadeOf part (pinUvAuthTokenId (ε := Status)))
    (hset : ∀ pending, MadeOf part (setPendingAssertion (ε := Status) pending)) :
    MadeOf part handleGetNextAssertion :=
  .bind (.bind (.gets _) fun _ => .bind (hset _) fun _ => built_okOr _ _) fun _ =>
    .bind (built_checkPending (hplain plain_now) htoken _) fun _ =>
    .bind (hplain (plain_nextCredential _ _)) fun _ =>
    .bind (hplain (plain_nextHmacSecret _ _)) fun _ => .bind (.ofExcept _) fun _ =>
    .bind (hplain (plain_signAssertion _ _ _ _ _ _)) fun _ =>
    .bind (built_rememberAssertion (hplain plain_now) hset _ _) fun _ => built_respondWith _

theorem composed_handleGetNextAssertion : Composed .remembering handleGetNextAssertion :=
  built_handleGetNextAssertion Plain.composed composed_pinUvAuthTokenId
    fun _ => BasicPart.composed (.setPendingAssertion _ (.inl rfl))

theorem assembled_grantToken (protocol : PinProtocol) (keys : PinUvSessionKeys)
    (grant : TokenGrant) : Assembled scope (grantToken protocol keys grant) := by
  unfold grantToken
  split
  · exact .part (.grantPersistentToken protocol keys)
  · exact .bind (.gets _) fun _ => .bind (plain_freshTokenSecret _ _).assembled fun _ =>
      .bind (plain_encryptForPlatform _ _ _).assembled fun _ =>
      .bind (.part (.issuePinUvAuthToken _ _ _)) fun _ =>
      .bind plain_clearCredMgmt.assembled fun _ => .pure _

theorem assembled_clientPinGetTokenCommon (protocol : PinProtocol) (keyAgreement : Entries)
    (pinHashEnc : Bytes) (grant : TokenGrant) (forceChangeError : Status) :
    Assembled scope (clientPinGetTokenCommon protocol keyAgreement pinHashEnc grant
      forceChangeError) := by
  refine .bind (.gets _) fun pin => .bind (.ofExcept _) fun _ =>
    .bind (.part (.basic .refreshPersistentAuthority)) fun _ =>
    .bind (plain_decapsulate _ _).assembled fun keys =>
    .bind (.part (.verifyPinHashEnc _ _ _)) fun _ => .bind (.gets _) fun forced => ?_
  split
  · exact .fail _
  · exact .bind (assembled_grantToken _ _ _) fun _ => built_respondWith _

theorem assembled_clientPinSetPin : Assembled scope (clientPinSetPin map) := by
  refine .bind (.ofExcept _) fun p => .bind (.gets _) fun isSet => ?_
  split
  · exact .fail _
  · refine .bind (plain_decapsulate _ _).assembled fun keys => .bind (.ofExcept _) fun _ =>
      .bind (plain_newPinHash _ _ _).assembled fun new =>
      .bind plain_unsupportedDirectoryFlush.assembled fun unsupported => ?_
    split
    · exact .fail _
    · exact .bind (.part (.storeNewPin _ _ _)) fun _ => .pure _

theorem assembled_clientPinChangePin : Assembled scope (clientPinChangePin map) := by
  refine .bind (.ofExcept _) fun p => .bind (.gets _) fun pin => .bind (.ofExcept _) fun _ =>
    .bind (plain_decapsulate _ _).assembled fun keys => .bind (.ofExcept _) fun _ =>
    .bind (.part (.verifyPinHashEnc _ _ _)) fun _ =>
    .bind (plain_newPinHash _ _ _).assembled fun new => .bind (.gets _) fun persistent => ?_
  split
  · exact .fail _
  · exact .bind (.part (.storeNewPin _ _ _)) fun _ => .pure _

theorem composed_handleClientPin : Composed .renewing (handleClientPin payload) := by
  refine .bind (.ofExcept _) fun map => .bind (.ofExcept _) fun subcommand =>
    .bind composed_readPinStateIfUnread.when fun _ => ?_
  cases subcommand with
  | getPinRetries => exact .bind (.gets _) fun _ => built_respondWith _
  | getKeyAgreement =>
    exact .bind (.ofExcept _) fun _ => .bind (plain_keyAgreementKey _).composed fun _ =>
      built_respondWith _
  | setPin => exact .part (.clientPinSetPin map rfl)
  | changePin => exact .part (.clientPinChangePin map rfl)
  | getPinToken | getPinUvAuthTokenUsingPinWithPermissions =>
    exact .bind (.ofExcept _) fun _ => .part (.clientPinGetTokenCommon _ _ _ _ _)

theorem composed_authorizeFragment (map : Entries) (offset : ℕ) (fragment : Bytes) :
    Composed scope (authorizeFragment map offset fragment) := by
  refine .bind (.ofExcept _) fun ⟨protocol, auth⟩ => ?_
  dsimp only
  split
  · exact .fail _
  · exact .bind (BasicPart.composed (.verifyPinUvAuthParam _ _ _)) fun _ => BasicPart.composed .ensureLargeBlobWrite

theorem plainIn_commitLargeBlobs (state : LargeBlobState) : PlainIn .staging (commitLargeBlobs state) := by
  unfold commitLargeBlobs
  split
  · split
    · exact built_orStatus (.part (Cmd.MovePart.ask (I := env) (.store (.setLargeBlobArray _)) rfl))
    · exact .bind (plainIn_setLargeBlobState _) fun _ => .fail _
  · exact .pure _

theorem plain_readLargeBlobs (get : Value) (offset : ℕ) :
    Plain (readLargeBlobs map get offset) := by
  refine .bind (.ofExcept _) fun length => .bind (plain_storeAsk _ rfl) fun found => ?_
  have respond : ∀ array : Bytes, Plain (if array.length < offset then
      Cmd.fail ctap1ErrInvalidParameter
    else respondWith (.entries (.map [(.integer 1, .bytes ((array.drop offset).take length))]))) := by
    intro array
    split
    · exact .fail _
    · exact built_respondWith _
  exact respond _

section Write

variable {part : (ε α : Type) → EngineM ε α → Prop}
  (hplain : ∀ {α : Type} {c : EngineM Status α}, PlainIn .staging c → MadeOf part c)
  (htoken : MadeOf part (pinUvAuthTokenId (ε := Status)))

include hplain htoken

omit [Externals] in
theorem built_collectFragment (authenticated : Bool) (offset : ℕ) (fragment : Bytes) :
    MadeOf part (collectFragment authenticated offset fragment) := by
  refine .bind (.bind (.gets _) fun state => ?_) fun state => .bind (hplain plain_now.within)
    fun time => .bind (hplain (plainIn_setLargeBlobState _)) fun _ => .pure _
  split
  · refine .bind ?_ fun token => .pure _
    unfold writeToken
    split
    · exact htoken
    · exact .pure _
  · exact .pure _

variable (hauthorize : ∀ map offset fragment, MadeOf part (authorizeFragment map offset fragment))

include hauthorize

theorem built_writeFragment (map : Entries) (offset : ℕ) (fragment : Bytes) :
    MadeOf part (writeFragment map offset fragment) := by
  unfold writeFragment
  split
  · exact .fail _
  · refine .bind (hplain (plainIn_beginFragment _ _)) fun _ => .bind (.gets _) fun expected => ?_
    split
    · exact .bind (hplain (plainIn_setLargeBlobState _)) fun _ => .fail _
    · refine .bind (.gets _) fun persistent => .bind (hauthorize _ _ _).when fun _ => ?_
      dsimp only
      split
      · exact .fail _
      · exact .bind (built_collectFragment hplain htoken _ _ _) fun _ =>
          .bind (hplain (plainIn_commitLargeBlobs _)) fun _ => .pure _

theorem built_handleLargeBlobs (payload : Bytes) : MadeOf part (handleLargeBlobs payload) := by
  have hset : MadeOf part (discardLargeBlobState (ε := Status)) :=
    hplain (plainIn_setLargeBlobState _)
  refine .bind (built_observeLargeBlobState (hplain plain_now.within) htoken hset _) fun _ =>
    .bind (hplain (plainIn_orDiscardWrite _)) fun map => .bind hset.when fun _ =>
    .bind (hplain (plainIn_orDiscardWrite _)) fun offset => ?_
  unfold largeBlobs
  split
  · exact hplain (plain_readLargeBlobs _ _ _).within
  · exact built_writeFragment hplain htoken hauthorize _ _ _
  · exact .bind hset fun _ => .fail _
  · exact .fail _

end Write

theorem composed_handleLargeBlobs : Composed .staging (handleLargeBlobs payload) :=
  built_handleLargeBlobs PlainIn.composed composed_pinUvAuthTokenId composed_authorizeFragment payload

theorem plainIn_cmEnumerateRpsBegin (auth : EnumerationAuthorization) :
    PlainIn .managing (cmEnumerateRpsBegin auth) := by
  refine .bind plain_discoverableCredentials.within fun credentials => ?_
  dsimp only
  split
  · exact .fail _
  · exact .bind (plainIn_modifyCredMgmt _) fun _ => .pure _

theorem plainIn_cmEnumerateCredentialsBegin (params : Entries) (auth : EnumerationAuthorization) :
    PlainIn .managing (cmEnumerateCredentialsBegin params auth) := by
  refine .bind (.ofExcept _) fun rpHash => .bind plain_discoverableCredentials.within
    fun credentials => ?_
  dsimp only
  split
  · exact .fail _
  · exact .bind (.ofExcept _) fun _ => .bind (plainIn_modifyCredMgmt _) fun _ => .pure _

theorem plainIn_nextManagedCredential (ids : List Bytes) : PlainIn .managing (nextManagedCredential ids) := by
  induction ids with
  | nil => exact .bind (plainIn_modifyCredMgmt _) fun _ => .fail _
  | cons id rest ih =>
    refine .bind (plainIn_modifyCredMgmt _) fun _ => .bind (plain_storedCredential _).within fun found => ?_
    split
    · exact .ofExcept _
    · exact ih

theorem plainIn_runManagement (subcommand : ManagementSubcommand) (params : Option Entries)
    (auth : EnumerationAuthorization) : PlainIn .managing (runManagement subcommand params auth) := by
  unfold runManagement
  split
  · exact .bind (.bind plain_storedCredentials.within fun _ =>
      .bind (plain_storeAsk .maxCredentials rfl).within fun _ => .pure _) fun _ => built_respondWith _
  · exact .bind (plainIn_cmEnumerateRpsBegin _) fun _ => built_respondWith _
  · exact .bind (built_okOr _ _) fun _ => .bind (plainIn_cmEnumerateCredentialsBegin _ _) fun _ =>
      built_respondWith _
  · exact .bind (built_okOr _ _) fun _ => .bind (plainIn_cmDeleteCredential _) fun _ => .pure _
  · exact .bind (built_okOr _ _) fun _ => .bind (plainIn_cmUpdateUserInformation _) fun _ => .pure _

theorem built_withinBinding {part : (ε α : Type) → EngineM ε α → Prop}
    (hfind : ∀ id, MadeOf part (managedCredential id)) (binding : String)
    (subcommand : ManagementSubcommand) (params : Option Entries) :
    MadeOf part (withinBinding binding subcommand params) := by
  have named : MadeOf part (withinBinding binding .deleteCredential params) := by
    refine .bind (built_okOr _ _) fun _ => .bind (.ofExcept _) fun id =>
      .bind (hfind _) fun found => ?_
    split
    · exact .fail _
    · split
      · exact .pure _
      · exact .fail _
  cases subcommand with
  | enumerateCredentialsBegin =>
    refine .bind (built_okOr _ _) fun _ => .bind (.ofExcept _) fun rpHash => ?_
    split
    · exact .pure _
    · exact .fail _
  | deleteCredential | updateUserInformation => exact named
  | _ => exact .fail _

theorem composed_authenticateManagement (family : ManagementFamily)
    (subcommand : ManagementSubcommand) (params : Option Entries) (protocol : PinProtocol)
    (message param : Bytes) :
    Composed scope (authenticateManagement family subcommand params protocol message param) := by
  refine .bind (.gets _) fun state => ?_
  dsimp only
  split
  · split
    · exact .pure _
    · exact .fail _
  · exact .bind (BasicPart.composed (.verifyPinUvAuthParam _ _ _)) fun _ => BasicPart.composed (.cmAuthorize _ _ _ _)

theorem composed_beginManagement (family : ManagementFamily) (payload : Bytes) (map : Entries)
    (subcommand : ManagementSubcommand) (params : Option Entries) :
    Composed .managing (beginManagement family payload map subcommand params) :=
  .bind (.ofExcept _) fun _ => .bind (BasicPart.composed .refreshPersistentAuthority) fun _ =>
    .bind (composed_authenticateManagement _ _ _ _ _ _) fun _ =>
    .bind (plainIn_enterContext _).composed fun _ => (plainIn_runManagement _ _ _).composed

theorem composed_cmEnumerateRpsNext (family : ManagementFamily) :
    Composed .managing (cmEnumerateRpsNext family) := by
  refine .bind (.gets _) fun state => .bind (BasicPart.composed (.continueEnumeration _ _ _)) fun allowed => ?_
  split
  · split
    · exact .bind (plainIn_modifyCredMgmt _).composed fun _ => .fail _
    · exact .bind (plainIn_modifyCredMgmt _).composed fun _ => .pure _
  · exact .bind (plainIn_modifyCredMgmt _).composed fun _ => .fail _

theorem composed_cmEnumerateCredentialsNext (family : ManagementFamily) :
    Composed .managing (cmEnumerateCredentialsNext family) := by
  refine .bind (.gets _) fun state => .bind (BasicPart.composed (.continueEnumeration _ _ _)) fun allowed => ?_
  split
  · exact (plainIn_nextManagedCredential _).composed
  · exact .bind (plainIn_modifyCredMgmt _).composed fun _ => .fail _

theorem composed_handleCredentialManagement (family : ManagementFamily) (payload : Bytes) :
    Composed .managing (handleCredentialManagement family payload) := by
  have hrefresh : Composed .managing refreshForContinuation :=
    Cmd.Built.mapError (BasicPart.composed .refreshPersistentAuthority)
  refine .bind (plainIn_enterFamily family).composed fun _ => .bind (.ofExcept _) fun map =>
    .bind (.ofExcept _) fun ⟨subcommand, params⟩ => ?_
  dsimp only
  split
  · exact .bind hrefresh fun _ => .bind (composed_cmEnumerateRpsNext family) fun _ =>
      built_respondWith _
  · exact .bind hrefresh fun _ => .bind (composed_cmEnumerateCredentialsNext family) fun _ =>
      built_respondWith _
  · exact composed_beginManagement _ _ _ _ _

theorem composed_handleAuthenticatorConfig :
    Composed scope (handleAuthenticatorConfig payload) := by
  refine .bind (BasicPart.composed .refreshPersistentAuthority) fun _ => .bind (.ofExcept _) fun map =>
    .bind (.ofExcept _) fun subcommand => .bind (.gets _) fun persistent =>
    .bind (Cmd.Built.when ?_) fun _ => .bind (.ofExcept _) fun params => .bind ?_ fun _ => .pure _
  · exact .bind (.ofExcept _) fun _ => .bind (BasicPart.composed (.verifyPinUvAuthParam _ _ _)) fun _ =>
      BasicPart.composed .ensureConfig
  · cases subcommand with
    | toggleAlwaysUv => exact BasicPart.composed .toggleAlwaysUv
    | setMinPinLength => exact BasicPart.composed (.setMinPinLength _)

theorem prompting_handleReset : Prompting scope handleReset :=
  .bind plain_checkResetWindow.prompting fun _ => .bind (.gets _) fun _ =>
    .bind (prompting_confirmUserPresence _) fun _ =>
    .bind (BasicPart.composed .resetAuthenticator).prompting fun _ => .pure _

theorem prompting_handleSelection : Prompting scope handleSelection :=
  .bind (.gets _) fun _ => .bind (prompting_confirmUserPresence _) fun _ => .pure _

theorem composed_handleGetInfo : Composed scope handleGetInfo := by
  refine .bind (Cmd.Built.attempt (BasicPart.composed .refreshPersistentAuthority)) fun _ =>
    .bind (.gets _) fun app => .bind ?_ fun _ => built_respondWith _
  refine .bind (plain_storeAsk _ rfl).composed fun count => ?_
  split
  · exact .pure _
  · exact .bind (plain_storeAsk .maxCredentials rfl).composed fun _ => .pure _

theorem prompting_u2fPresence (operation : PresenceOperation) :
    Prompting scope (u2fPresence operation) := by
  refine .bind (.gets _) fun timeout => .bind (.part (.askUser _)) fun outcome => ?_
  split
  · exact .pure _
  · exact .fail _

theorem u2fRegister_eq (challenge application : Bytes) :
    ∃ rest, Plain rest ∧ u2fRegister challenge application =
      (u2fPresence .u2fRegister >>= fun _ => rest) := by
  refine ⟨_, ?_, rfl⟩
  refine .bind (plain_generateKey _) fun _ => .bind (built_okOr _ _) fun _ =>
    .bind (built_okOr _ _) fun _ => .bind (plain_sealCredential _ _ _).mapError fun record =>
    .bind (built_okOr _ _) fun _ => .bind (.ofExcept _) fun _ =>
    .bind (plain_u2fAttestation _ _) fun _ => .bind (plain_u2fSign _ _ _) fun _ => ?_
  split
  · exact .fail _
  · exact .pure _

theorem prompting_u2fRegister (challenge application : Bytes) :
    Prompting scope (u2fRegister challenge application) := by
  obtain ⟨rest, hrest, heq⟩ := u2fRegister_eq challenge application
  rw [heq]
  exact .bind (prompting_u2fPresence _) fun _ => hrest.prompting

def u2fCount (control : UInt8) (challenge application : Bytes) (record : CredentialRecord) :
    EngineM U2fApdu.StatusWord U2fReply := do
  let key ← okOr record.secretKey U2fApdu.swInternalError
  let record ← (advanceSignatureCounter record).mapError fun _ => U2fApdu.swInternalError
  let userPresent : Bool := control = 3
  let signature ←
    u2fSign key (application ++ presenceAndCounter userPresent record.signCount) challenge
  return .authentication userPresent record.signCount signature

theorem plain_u2fCount (control : UInt8) (challenge application : Bytes)
    (record : CredentialRecord) : Plain (u2fCount control challenge application record) :=
  .bind (built_okOr _ _) fun _ => .bind (plain_advanceSignatureCounter _).mapError fun _ =>
    .bind (plain_u2fSign _ _ _) fun _ => .pure _

theorem prompting_u2fAuthenticate (control : UInt8) (challenge application handle : Bytes) :
    Prompting scope (u2fAuthenticate control challenge application handle) := by
  refine .bind (plain_u2fCredential _ _).prompting fun record => ?_
  split
  · exact .fail _
  · exact .bind (prompting_u2fPresence _).when fun _ => (plain_u2fCount _ _ _ _).prompting

theorem prompting_u2fRequest (request : U2fApdu.Request) : Prompting scope (u2fRequest request) := by
  cases request with
  | version => exact .pure _
  | register challenge application => exact prompting_u2fRegister _ _
  | authenticate control challenge application handle => exact prompting_u2fAuthenticate _ _ _ _

theorem prompting_u2fCommand (apdu : Bytes) : Prompting scope (do
    observeLargeBlobState none
    let disabled ← Cmd.gets (·.pinState.persistent.alwaysUv)
    let request ← Cmd.ofExcept (U2fApdu.decode apdu disabled)
    let reply ← u2fRequest request
    fittingReply reply) :=
  .bind (composed_observeLargeBlobState _).prompting fun _ => .bind (.gets _) fun _ =>
    .bind (.ofExcept _) fun request => .bind (prompting_u2fRequest request) fun _ =>
    (plain_fittingReply _).prompting

theorem prompting_handleU2f (apdu : Bytes) : Prompting scope (handleU2f apdu) :=
  .bind (BasicPart.composed (.setPendingAssertion _ (.inr rfl))).prompting fun _ =>
    prompting_u2fCommand apdu

theorem prompting_handleCommand (command : UInt8) (payload : Bytes) :
    Prompting (commandScope command) (handleCommand command payload) := by
  unfold handleCommand
  split
  · exact composed_handleGetInfo.prompting
  · exact prompting_handleMakeCredential payload
  · exact prompting_handleGetAssertion payload
  · exact composed_handleGetNextAssertion.prompting
  · exact (composed_handleClientPin payload).prompting
  · exact prompting_handleReset
  · exact (composed_handleCredentialManagement _ payload).prompting
  · exact (composed_handleCredentialManagement _ payload).prompting
  · exact prompting_handleSelection
  · exact (composed_handleAuthenticatorConfig payload).prompting
  · exact (composed_handleLargeBlobs payload).prompting
  · exact .fail _

theorem composed_forgetAssertion (command : Option UInt8) : Composed scope (forgetAssertion command) := by
  unfold forgetAssertion
  split
  · exact .pure _
  · exact BasicPart.composed (.setPendingAssertion _ (.inr rfl))

theorem prompting_call (request : Bytes) :
    Prompting (Request.cbor request).scope (call request) := by
  refine .bind (composed_observeLargeBlobState _).prompting fun _ =>
    .bind (composed_forgetAssertion _).prompting fun _ => ?_
  split
  · exact .fail _
  · exact prompting_handleCommand _ _

/-- Every request is put together from the parts. -/
theorem prompting_serve (request : Request) : Prompting request.scope (serve request) := by
  cases request with
  | cbor request => exact .bind (prompting_call request).attempt fun _ => .pure _
  | msg apdu => exact .bind (prompting_handleU2f apdu).attempt fun _ => .pure _

theorem Composed.assembled {c : EngineM ε α} (hc : Composed scope c) : Assembled scope c := by
  refine Cmd.Built.mono ?_ hc
  intro ε α c hpart
  cases hpart with
  | basic h => exact .part (.basic h)
  | clientPinSetPin map _ => exact assembled_clientPinSetPin map
  | clientPinChangePin map _ => exact assembled_clientPinChangePin map
  | clientPinGetTokenCommon protocol keyAgreement pinHashEnc grant forceChangeError =>
    exact assembled_clientPinGetTokenCommon _ _ _ _ _

theorem Prompting.assembled {c : EngineM ε α} (hc : Prompting scope c) :
    Cmd.Built (AskingPart (EnginePart scope)) ε α c := by
  refine Cmd.Built.mono ?_ hc
  intro ε α c hpart
  cases hpart with
  | quiet h =>
    have hassembled : Assembled scope c := Composed.assembled (.part h)
    exact Cmd.Built.mono (fun _ _ _ h => .part (.quiet h)) hassembled
  | askUser request => exact .part (.askUser request)
  | collectPresence pinUvAuth request => exact .part (.collectPresence pinUvAuth request)

end SoftwareAuthenticator.Ctap
