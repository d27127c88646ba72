import SoftwareAuthenticator.Ctap.Tidy
import SoftwareAuthenticator.Ctap.Watch

/-!
# The stages of registrations and assertions

The structures below keep the states between the stages of a makeCredential that succeeds and of
a getAssertion that comes to sign, and the events of each stage.
-/

namespace SoftwareAuthenticator.Ctap

open Cmd

variable {command : UInt8} {payload challenge application : Bytes} {app app' : CtapApp}
  {trace tr : Trace} {α : Type} {answer : Except Status Response} {response : Response}
  {record : CredentialRecord} {reply : U2fReply}

def beginRequest (command : UInt8) : EngineM Status Unit := do
  observeLargeBlobState (some command)
  forgetAssertion (some command)

theorem runs_forgetAssertion (hcommand : command ≠ ctapCmdGetNextAssertion)
    {x : Except Status Unit} (h : (forgetAssertion (some command)).Runs app tr x app') :
    app'.pendingAssertion = none := by
  unfold forgetAssertion at h
  rw [if_neg (by simpa using hcommand)] at h
  obtain ⟨-, -, rfl⟩ := runs_modify.mp h
  rfl

/-- Every request but getNextAssertion forgets the assertion. -/
theorem pending_beginRequest (hcommand : command ≠ ctapCmdGetNextAssertion)
    (h : (beginRequest command).Runs app tr (.ok ()) app') : app'.pendingAssertion = none := by
  obtain ⟨_, _, _, _, -, -, h⟩ := runs_bind_ok.mp h
  exact runs_forgetAssertion hcommand h

/-- A handler that has built up nothing and fails. -/
def Aborts (app : CtapApp) (answer : Except Status Response) (app' : CtapApp) : Prop :=
  (∃ status, answer = .error status) ∧ Discards .nothing app app'

theorem Aborts.after {app₁ : CtapApp} (h : Aborts app₁ answer app')
    (h₁ : Discards .nothing app app₁) : Aborts app answer app' :=
  ⟨h.1, h₁.trans h.2⟩

theorem stage_ofExcept {x : Except Status α} {f : α → EngineM Status Response}
    (h : (Cmd.ofExcept x >>= f).Runs app tr answer app') :
    Aborts app answer app' ∨ ∃ a, x = .ok a ∧ (f a).Runs app tr answer app' := by
  rcases runs_ofExcept_bind.mp h with h | ⟨e, -, -, rfl, rfl⟩
  · exact .inr h
  · exact .inl ⟨⟨e, rfl⟩, .refl _ _⟩

theorem Aborts.pending_eq_none (h : Aborts app answer app') (hnone : app.pendingAssertion = none) :
    app'.pendingAssertion = none := by
  rcases h.2.pending with h | h | h
  · cases h
  · exact h.trans hnone
  · exact h

theorem pending_beginRequest_next (h : (beginRequest 0x08).Runs app tr (.ok ()) app') :
    app'.pendingAssertion = app.pendingAssertion := by
  obtain ⟨tr₁, _, ⟨⟩, app₁, -, h₁, h₂⟩ := runs_bind_ok.mp h
  obtain ⟨-, -, rfl⟩ := runs_pure.mp h₂
  have hnow : Confined (fun _ => true) CtapApp.pendingAssertion (now (ε := Status)) :=
    .part (MovePart.ask (I := env) .now rfl)
  have hlarge : Confined (fun _ => true) CtapApp.pendingAssertion
      (observeLargeBlobState (ε := Status) (some 0x08)) := by
    refine .bind hnow fun _ => .bind (.gets _) fun _ => .bind ?_ fun _ =>
      Built.when (.part (.modify _ fun _ => rfl))
    unfold largeBlobTokenChanged
    split
    · exact .bind (.bind (.bind hnow fun _ => .bind (.part (.modify _ fun _ => rfl)) fun _ =>
        .gets _) fun _ => .pure _) fun _ => .pure _
    · exact .pure _
  exact (hlarge.runs h₁).1

theorem runs_takePendingAssertion {x : Except Status PendingAssertion}
    (h : takePendingAssertion.Runs app tr x app') :
    tr = [] ∧ app' = { app with pendingAssertion := none } ∧
      ∀ pending, x = .ok pending → app.pendingAssertion = some pending := by
  have h := runs_gets_bind.mp h
  rcases runs_bind.mp h with ⟨_, _, ⟨⟩, _, rfl, hset, hok⟩ | ⟨_, -, hset⟩
  · obtain ⟨rfl, -, rfl⟩ := runs_modify.mp hset
    cases hp : app.pendingAssertion with
    | none =>
      rw [hp] at hok
      obtain ⟨rfl, rfl, rfl⟩ := runs_fail.mp hok
      exact ⟨rfl, rfl, fun _ h => by cases h⟩
    | some p =>
      rw [hp] at hok
      obtain ⟨rfl, rfl, rfl⟩ := runs_pure.mp hok
      exact ⟨rfl, rfl, fun _ h => by cases h; rfl⟩
  · obtain ⟨-, hset, -⟩ := runs_modify.mp hset
    cases hset

theorem refuseExcluded_fails {pinUvAuth : Option (PinProtocol × Bytes)}
    {request : PresenceRequest} :
    ¬ (refuseExcluded pinUvAuth request).Runs app tr (.ok response) app' := by
  intro h
  obtain ⟨_, _, present, _, -, -, h⟩ := runs_bind_ok.mp h
  cases present with
  | true =>
    exact absurd h not_runs_fail_ok
  | false =>
    obtain ⟨_, _, outcome, _, -, -, h⟩ := runs_bind_ok.mp h
    cases outcome with
    | ok | error =>
      exact absurd h not_runs_fail_ok

theorem runs_okOr {ε : Type} {x : Option α} {e : ε} {a : α}
    (h : (okOr x e).Runs app tr (.ok a) app') : x = some a ∧ tr = [] ∧ app' = app := by
  cases x with
  | none =>
    exact absurd h not_runs_fail_ok
  | some b =>
    obtain ⟨rfl, heq, rfl⟩ := runs_pure.mp h
    exact ⟨congrArg some (Except.ok.inj heq).symm, rfl, rfl⟩

variable [Externals]

def preparePin (command : UInt8) : EngineM Status Unit := do
  beginRequest command
  readPinStateIfUnread

theorem composed_beginRequest {scope : Scope} (command : UInt8) :
    Composed scope (beginRequest command) :=
  .bind (composed_observeLargeBlobState _) fun _ => composed_forgetAssertion _

theorem runs_serve_cbor {reply : Reply}
    (h : (serve (.cbor (command :: payload))).Runs app trace (.ok reply) app') :
    ∃ answer opening handling opened, reply = .cbor answer ∧ trace = opening ++ handling ∧
      (beginRequest command).Runs app opening (.ok ()) opened ∧
      (handleCommand command payload).Runs opened handling answer app' := by
  obtain ⟨tr, _, answer, app₁, rfl, h₁, h₂⟩ := runs_bind_ok.mp h
  obtain ⟨rfl, hreply, rfl⟩ := runs_pure.mp h₂
  obtain ⟨_, ⟨⟩, h₁⟩ := runs_attempt.mp h₁
  cases hreply
  rcases runs_bind.mp h₁ with ⟨t₁, t₂, ⟨⟩, a₁, rfl, hlarge, h₁⟩ | ⟨e, -, hlarge⟩
  · rcases runs_bind.mp h₁ with ⟨t₃, t₄, ⟨⟩, a₂, rfl, hforget, h₁⟩ | ⟨e, -, hforget⟩
    · refine ⟨answer, t₁ ++ t₃, t₄, a₂, rfl, by simp, ?_, h₁⟩
      exact runs_bind_ok.mpr ⟨t₁, t₃, (), a₁, rfl, hlarge, hforget⟩
    · obtain ⟨_, ⟨⟩⟩ := sure_forgetAssertion _ _ _ _ _ hforget
  · obtain ⟨_, ⟨⟩⟩ := sure_observeLargeBlobState _ _ _ _ _ hlarge

/-- A stage either ends the handler or hands over to the next. -/
theorem Prompting.stage {c : EngineM Status α} {f : α → EngineM Status Response}
    (hc : Prompting .nothing c) (h : (c >>= f).Runs app tr answer app') :
    Aborts app answer app' ∨ ∃ tr₁ tr₂ a app₁, tr = tr₁ ++ tr₂ ∧ c.Runs app tr₁ (.ok a) app₁ ∧
      (f a).Runs app₁ tr₂ answer app' ∧ Discards .nothing app app₁ := by
  rcases runs_bind.mp h with ⟨tr₁, tr₂, a, app₁, rfl, h₁, h₂⟩ | ⟨e, rfl, h₁⟩
  · exact .inr ⟨tr₁, tr₂, a, app₁, rfl, h₁, h₂, hc.discards h₁⟩
  · exact .inl ⟨⟨e, rfl⟩, hc.discards h₁⟩

theorem aborts_selectForPinUvAuth
    (h : (selectForPinUvAuth >>= fun status => Cmd.fail status).Runs app tr answer app') :
    Aborts app answer app' := by
  rcases prompting_selectForPinUvAuth.stage h with h | ⟨_, _, _, _, -, -, h, hd⟩
  · exact h
  · obtain ⟨-, rfl, rfl⟩ := runs_fail.mp h
    exact ⟨⟨_, rfl⟩, hd⟩

structure AssertionStages (payload : Bytes) (app : CtapApp) (trace : Trace)
    (answer : Except Status Response) (app' : CtapApp) where
  map : Entries
  rpId : String
  clientHash : Bytes
  choices : AssertionChoices
  userVerified : Bool
  token : Option UInt64
  credential : CredentialRecord
  rest : List CredentialRecord
  userPresent : Bool
  (ready verified located present : CtapApp)
  (preparing verifying locating asking signing : Trace)
  trace_eq : trace = preparing ++ verifying ++ locating ++ asking ++ signing
  map_eq : requestParameters payload = .ok map
  rpId_eq : assertionRpId map = .ok rpId
  clientHash_eq : clientDataHash (mapGet map (.int 2)) = .ok clientHash
  choices_eq : assertionChoices map = .ok choices
  prepares : (preparePin 0x02).Runs app preparing (.ok ()) ready
  verifies : (verifyAssertionUser choices.pinUvAuth clientHash rpId).Runs ready verifying
    (.ok (userVerified, token)) verified
  locates : (applicableCredentials rpId userVerified choices.allowList).Runs verified locating
    (.ok (credential :: rest)) located
  asks : (assertionPresence rpId choices (credential :: rest)).Runs located asking
    (.ok userPresent) present
  signs : (assertFirst rpId clientHash choices userPresent userVerified token credential
    rest).Runs present signing answer app'

/-- A getAssertion either fails with nothing remembered or comes to sign. -/
theorem assertionStages_of_runs {reply : Reply}
    (h : (serve (.cbor (0x02 :: payload))).Runs app trace (.ok reply) app') :
    ∃ answer, reply = .cbor answer ∧
      (((∃ status, answer = .error status) ∧ app'.pendingAssertion = none) ∨
        Nonempty (AssertionStages payload app trace answer app')) := by
  obtain ⟨answer, opening, handling, opened, rfl, rfl, hopen, h⟩ := runs_serve_cbor h
  refine ⟨answer, rfl, ?_⟩
  have hnone : opened.pendingAssertion = none := pending_beginRequest (by decide) hopen
  suffices hstop : Aborts opened answer app' ∨
      Nonempty (AssertionStages payload app (opening ++ handling) answer app') from
    hstop.imp_left fun h => ⟨h.1, h.pending_eq_none hnone⟩
  have h₀ : (handleGetAssertion payload).Runs opened handling answer app' := h
  clear h
  rcases stage_ofExcept h₀ with h | ⟨map, hmap, h₁⟩
  · exact .inl h
  rcases stage_ofExcept h₁ with h | ⟨rpId, hrpId, h₂⟩
  · exact .inl h
  rcases stage_ofExcept h₂ with h | ⟨clientHash, hhash, h₃⟩
  · exact .inl h
  rcases composed_readPinStateIfUnread.prompting.stage h₃ with
    h | ⟨reading, _, ⟨⟩, ready, rfl, hread, h₄, hready⟩
  · exact .inl h
  split at h₄
  · exact .inl ((aborts_selectForPinUvAuth h₄).after hready)
  rcases stage_ofExcept h₄ with h | ⟨choices, hchoices, h₅⟩
  · exact .inl (h.after hready)
  have h₆ := runs_gets_bind.mp h₅
  split at h₆
  · obtain ⟨-, rfl, rfl⟩ := runs_fail.mp h₆
    exact .inl ⟨⟨_, rfl⟩, hready⟩
  rcases (composed_verifyAssertionUser _ _ _).prompting.stage h₆ with
    h | ⟨verifying, _, ⟨userVerified, token⟩, verified, rfl, hverify, h₇, hverified⟩
  · exact .inl (h.after hready)
  rcases (plain_applicableCredentials _ _ _).prompting.stage h₇ with
    h | ⟨locating, _, applicable, located, rfl, hlocate, h₈, hlocated⟩
  · exact .inl (h.after (hready.trans hverified))
  cases applicable with
  | nil =>
    obtain ⟨-, rfl, rfl⟩ := runs_fail.mp h₈
    exact .inl ⟨⟨_, rfl⟩, (hready.trans hverified).trans hlocated⟩
  | cons credential rest =>
    rcases (prompting_assertionPresence _ _ _).stage h₈ with
      h | ⟨asking, signing, userPresent, present, rfl, hask, hsign, -⟩
    · exact .inl (h.after ((hready.trans hverified).trans hlocated))
    · exact .inr ⟨{
        map, rpId, clientHash, choices, userVerified, token, credential, rest, userPresent
        ready, verified, located, present, verifying, locating, asking, signing
        preparing := opening ++ reading
        trace_eq := by simp
        map_eq := hmap
        rpId_eq := hrpId
        clientHash_eq := hhash
        choices_eq := hchoices
        prepares := runs_bind_ok.mpr ⟨opening, reading, (), opened, rfl, hopen, hread⟩
        verifies := hverify
        locates := hlocate
        asks := hask
        signs := hsign }⟩

structure NextStages (app : CtapApp) (trace : Trace) (answer : Except Status Response)
    (app' : CtapApp) where
  pending : PendingAssertion
  credential : CredentialRecord
  remaining : List Bytes
  (opened checked located : CtapApp)
  (opening checking locating signing : Trace)
  trace_eq : trace = opening ++ checking ++ locating ++ signing
  pending_eq : app.pendingAssertion = some pending
  opens : (beginRequest 0x08).Runs app opening (.ok ()) opened
  checks : (checkPending pending).Runs { opened with pendingAssertion := none } checking (.ok ())
    checked
  locates : (nextCredential pending.rpId pending.remainingCredentials).Runs checked locating
    (.ok (credential, remaining)) located
  signs : (assertNext pending credential remaining).Runs located signing answer app'

/-- A getNextAssertion either fails with nothing remembered or comes to sign. -/
theorem nextStages_of_runs {reply : Reply}
    (h : (serve (.cbor (0x08 :: payload))).Runs app trace (.ok reply) app') :
    ∃ answer, reply = .cbor answer ∧
      (((∃ status, answer = .error status) ∧ app'.pendingAssertion = none) ∨
        Nonempty (NextStages app trace answer app')) := by
  obtain ⟨answer, opening, handling, opened, rfl, rfl, hopen, h⟩ := runs_serve_cbor h
  refine ⟨answer, rfl, ?_⟩
  have h₀ : handleGetNextAssertion.Runs opened handling answer app' := h
  clear h
  rcases runs_bind.mp h₀ with ⟨taking, rest, pending, taken, rfl, htake, h₁⟩ | ⟨e, rfl, htake⟩
  · obtain ⟨rfl, rfl, hpending⟩ := runs_takePendingAssertion htake
    suffices hstop : Aborts { opened with pendingAssertion := none } answer app' ∨
        Nonempty (NextStages app (opening ++ ([] ++ rest)) answer app') from
      hstop.imp_left fun h => ⟨h.1, h.pending_eq_none rfl⟩
    rcases (composed_checkPending pending).prompting.stage h₁ with
      h | ⟨checking, _, ⟨⟩, checked, rfl, hcheck, h₂, hchecked⟩
    · exact .inl h
    rcases (plain_nextCredential _ _).prompting.stage h₂ with
      h | ⟨locating, signing, ⟨credential, remaining⟩, located, rfl, hlocate, hsign, -⟩
    · exact .inl (h.after hchecked)
    exact .inr ⟨{
      pending, credential, remaining, opened, checked, located
      opening, checking, locating, signing
      trace_eq := by simp
      pending_eq := (pending_beginRequest_next hopen).symm.trans (hpending pending rfl)
      opens := hopen
      checks := hcheck
      locates := hlocate
      signs := hsign }⟩
  · obtain ⟨-, rfl, -⟩ := runs_takePendingAssertion htake
    exact .inl ⟨⟨e, rfl⟩, rfl⟩

structure RegistrationStages (payload : Bytes) (app : CtapApp) (trace : Trace)
    (response : Response) (app' : CtapApp) where
  map : Entries
  registration : Registration
  choices : RegistrationChoices
  omitAttestation : Bool
  extensions : RegistrationExtensions
  hmacRequest : Option HmacSecretRequest
  userVerified : Bool
  (ready authorized searched present : CtapApp)
  (preparing authorizing searching asking registering : Trace)
  trace_eq : trace = preparing ++ authorizing ++ searching ++ asking ++ registering
  map_eq : requestParameters payload = .ok map
  registration_eq : registrationParameters map = .ok registration
  choices_eq : registrationChoices map registration = .ok choices
  prepares : (preparePin 0x01).Runs app preparing (.ok ()) ready
  authorizes : (authorizeRegistration map registration choices).Runs ready authorizing
    (.ok (omitAttestation, extensions, hmacRequest, userVerified)) authorized
  searches : (findExcluded registration.rpId userVerified choices.excludeList).Runs authorized
    searching (.ok none) searched
  asks : (collectPresence choices.pinUvAuth (registerRequest registration choices
    authorized.presenceTimeout)).Runs searched asking (.ok ()) present
  registers : (registerCredential registration choices extensions hmacRequest omitAttestation
    userVerified).Runs present registering (.ok response) app'

theorem registrationStages_of_runs
    (h : (serve (.cbor (0x01 :: payload))).Runs app trace (.ok (.cbor (.ok response))) app') :
    Nonempty (RegistrationStages payload app trace response app') := by
  obtain ⟨answer, opening, handling, opened, hanswer, rfl, hopen, h⟩ := runs_serve_cbor h
  cases hanswer
  have h₀ : (handleMakeCredential payload).Runs opened handling (.ok response) app' := h
  clear h
  obtain ⟨map, hmap, h₁⟩ := runs_ofExcept_bind_ok.mp h₀
  obtain ⟨registration, hregistration, h₂⟩ := runs_ofExcept_bind_ok.mp h₁
  obtain ⟨reading, _, ⟨⟩, ready, rfl, hread, h₃⟩ := runs_bind_ok.mp h₂
  split at h₃
  · obtain ⟨_, _, _, _, -, -, h⟩ := runs_bind_ok.mp h₃
    exact absurd h not_runs_fail_ok
  obtain ⟨choices, hchoices, h₄⟩ := runs_ofExcept_bind_ok.mp h₃
  obtain ⟨authorizing, _, ⟨omitAttestation, extensions, hmacRequest, userVerified⟩, authorized,
    rfl, hauthorize, h₅⟩ := runs_bind_ok.mp h₄
  obtain ⟨searching, _, excluded, searched, rfl, hsearch, h₆⟩ :=
    runs_bind_ok.mp (runs_gets_bind.mp h₅)
  cases excluded with
  | some excluded => exact absurd h₆ refuseExcluded_fails
  | none =>
    obtain ⟨asking, registering, ⟨⟩, present, rfl, hask, hregister⟩ := runs_bind_ok.mp h₆
    exact ⟨{
      map, registration, choices, omitAttestation, extensions, hmacRequest, userVerified
      ready, authorized, searched, present, authorizing, searching, asking, registering
      preparing := opening ++ reading
      trace_eq := by simp
      map_eq := hmap
      registration_eq := hregistration
      choices_eq := hchoices
      prepares := runs_bind_ok.mpr ⟨opening, reading, (), opened, rfl, hopen, hread⟩
      authorizes := hauthorize
      searches := hsearch
      asks := hask
      registers := hregister }⟩

theorem runs_sealCredential {record' : CredentialRecord} {key rpIdHash : Bytes}
    (h : (sealCredential record key rpIdHash).Runs app tr (.ok record') app') :
    record'.rpId = record.rpId := by
  unfold sealCredential at h
  split at h
  · exact absurd h not_runs_fail_ok
  · obtain ⟨_, _, seed, _, -, -, h₁⟩ := runs_bind_ok.mp h
    obtain ⟨_, _, sealed, _, -, -, h₂⟩ := runs_bind_ok.mp h₁
    split at h₂
    · exact absurd h₂ not_runs_fail_ok
    · obtain ⟨-, heq, -⟩ := runs_pure.mp h₂
      cases heq
      rfl

theorem runs_createCredential {registration : Registration} {choices : RegistrationChoices}
    {extensions : RegistrationExtensions}
    (h : (createCredential registration choices extensions).Runs app tr (.ok record) app') :
    record.rpId = registration.rpId := by
  obtain ⟨requested, -, h₁⟩ := runs_ofExcept_bind_ok.mp h
  obtain ⟨_, _, generated, _, -, -, h₂⟩ := runs_bind_ok.mp h₁
  obtain ⟨_, _, privateKey, _, -, -, h₃⟩ := runs_bind_ok.mp h₂
  obtain ⟨_, _, largeBlobKey, _, -, -, h₄⟩ := runs_bind_ok.mp h₃
  dsimp only at h₄
  split at h₄
  · obtain ⟨_, _, id, _, -, -, h₅⟩ := runs_bind_ok.mp h₄
    obtain ⟨_, _, withUv, _, -, -, h₆⟩ := runs_bind_ok.mp h₅
    obtain ⟨_, _, withoutUv, _, -, -, h₇⟩ := runs_bind_ok.mp h₆
    obtain ⟨-, heq, -⟩ := runs_pure.mp h₇
    cases heq
    dsimp only
    split
    · rfl
    · rfl
  · obtain ⟨_, _, key, _, -, -, h₅⟩ := runs_bind_ok.mp h₄
    exact runs_sealCredential h₅

theorem runs_attestCredential {secretKey : CredentialSecretKey} {authData : AuthenticatorData}
    {clientHash : Bytes} {stored : Bool} {kinds : List Attestation}
    (h : (attestCredential record secretKey authData clientHash stored kinds).Runs app tr
      (.ok response) app') :
    ∃ attestation, response = .attestation attestation ∧ attestation.authData = authData := by
  induction kinds generalizing app tr with
  | nil => exact absurd h not_runs_fail_ok
  | cons kind kinds ih =>
    obtain ⟨_, _, statement, _, -, -, h₁⟩ := runs_bind_ok.mp h
    obtain ⟨encoded, -, h₂⟩ := runs_ofExcept_bind_ok.mp h₁
    split at h₂
    · exact ih h₂
    · obtain ⟨_, _, ⟨⟩, _, -, -, h₃⟩ := runs_bind_ok.mp h₂
      obtain ⟨-, heq, -⟩ := runs_pure.mp h₃
      cases heq
      exact ⟨_, rfl, rfl⟩

theorem RegistrationStages.registers_cases
    (stages : RegistrationStages payload app trace response app') :
    ∃ attestation aaguid record coseKey outputs, response = .attestation attestation ∧
      record.rpId = stages.registration.rpId ∧
      attestation.authData =
        attestedAuthData aaguid record coseKey true stages.userVerified outputs := by
  obtain ⟨_, _, record, _, -, hcreate, h₁⟩ := runs_bind_ok.mp stages.registers
  obtain ⟨_, _, ⟨secretKey, coseKey⟩, _, -, -, h₂⟩ := runs_bind_ok.mp h₁
  obtain ⟨_, _, outputs, _, -, -, h₃⟩ := runs_bind_ok.mp h₂
  obtain ⟨_, _, kinds, _, -, -, h₄⟩ := runs_bind_ok.mp (runs_gets_bind.mp h₃)
  obtain ⟨attestation, rfl, hdata⟩ := runs_attestCredential h₄
  exact ⟨attestation, _, record, coseKey, outputs, rfl, runs_createCredential hcreate, hdata⟩

def beginU2f : EngineM U2fApdu.StatusWord Unit := do
  setPendingAssertion none
  observeLargeBlobState none

theorem composed_beginU2f {scope : Scope} : Composed scope beginU2f :=
  .bind (BasicPart.composed (.setPendingAssertion _ (.inr rfl))) fun _ =>
    composed_observeLargeBlobState _

/-- A U2F command that is answered with data was opened, decoded and handled. -/
theorem runs_serve_msg {apdu : Bytes}
    (h : (serve (.msg apdu)).Runs app trace (.ok (.msg (.ok reply))) app') :
    ∃ request opening handling opened, trace = opening ++ handling ∧
      beginU2f.Runs app opening (.ok ()) opened ∧
      U2fApdu.decode apdu opened.pinState.persistent.alwaysUv = .ok request ∧
      (u2fRequest request).Runs opened handling (.ok reply) app' := by
  obtain ⟨tr, _, answer, app₁, rfl, h₁, h₂⟩ := runs_bind_ok.mp h
  obtain ⟨rfl, hreply, rfl⟩ := runs_pure.mp h₂
  obtain ⟨_, ⟨⟩, h₃⟩ := runs_attempt.mp h₁
  cases hreply
  obtain ⟨t₁, _, _, a₁, rfl, hforget, h₄⟩ := runs_bind_ok.mp h₃
  obtain ⟨t₂, _, _, opened, rfl, hlarge, h₅⟩ := runs_bind_ok.mp h₄
  have h₆ := runs_gets_bind.mp h₅
  obtain ⟨request, hdecode, h₇⟩ := runs_ofExcept_bind_ok.mp h₆
  obtain ⟨t₃, _, reply', a₃, rfl, hhandle, h₈⟩ := runs_bind_ok.mp h₇
  unfold fittingReply at h₈
  split at h₈
  · obtain ⟨rfl, heq, rfl⟩ := runs_pure.mp h₈
    cases heq
    exact ⟨request, t₁ ++ t₂, t₃, opened, by simp,
      runs_bind_ok.mpr ⟨t₁, t₂, (), a₁, rfl, hforget, hlarge⟩, hdecode, hhandle⟩
  · exact absurd h₈ not_runs_fail_ok

theorem runs_u2fRegister (h : (u2fRegister challenge application).Runs app tr (.ok reply) app') :
    ∃ publicKey keyHandle certificate signature,
      reply = .registration publicKey keyHandle certificate signature := by
  obtain ⟨_, _, _, _, -, -, h₁⟩ := runs_bind_ok.mp h
  obtain ⟨_, _, generated, _, -, -, h₂⟩ := runs_bind_ok.mp h₁
  obtain ⟨_, _, privateKey, _, -, -, h₃⟩ := runs_bind_ok.mp h₂
  obtain ⟨_, _, material, _, -, -, h₄⟩ := runs_bind_ok.mp h₃
  obtain ⟨_, _, record, _, -, -, h₅⟩ := runs_bind_ok.mp h₄
  obtain ⟨_, _, key, _, -, -, h₆⟩ := runs_bind_ok.mp h₅
  obtain ⟨publicKey, -, h₇⟩ := runs_ofExcept_bind_ok.mp h₆
  obtain ⟨_, _, ⟨certificate, signer⟩, _, -, -, h₈⟩ := runs_bind_ok.mp h₇
  obtain ⟨_, _, signature, _, -, -, h₉⟩ := runs_bind_ok.mp h₈
  split at h₉
  · exact absurd h₉ not_runs_fail_ok
  · obtain ⟨-, heq, -⟩ := runs_pure.mp h₉
    cases heq
    exact ⟨_, _, _, _, rfl⟩

structure U2fStages (control : UInt8) (challenge application handle : Bytes) (app : CtapApp)
    (trace : Trace) (reply : U2fReply) (app' : CtapApp) where
  record : CredentialRecord
  (located present : CtapApp)
  (locating asking signing : Trace)
  trace_eq : trace = locating ++ asking ++ signing
  locates : (u2fCredential handle application).Runs app locating (.ok record) located
  asks : (Cmd.when (control = 3) (u2fPresence .u2fAuthenticate)).Runs located asking (.ok ()) present
  signs : (u2fCount control challenge application record).Runs present signing (.ok reply) app'

theorem u2fStages_of_runs {control : UInt8} {handle : Bytes}
    (h : (u2fAuthenticate control challenge application handle).Runs app tr (.ok reply) app') :
    Nonempty (U2fStages control challenge application handle app tr reply app') := by
  obtain ⟨locating, _, record, located, rfl, hlocate, h₁⟩ := runs_bind_ok.mp h
  split at h₁
  · exact absurd h₁ not_runs_fail_ok
  · obtain ⟨asking, signing, _, present, rfl, hask, hsign⟩ := runs_bind_ok.mp h₁
    exact ⟨{
      record, located, present, locating, asking, signing
      trace_eq := by simp
      locates := hlocate
      asks := hask
      signs := hsign }⟩

theorem runs_u2fCount {control : UInt8}
    (h : (u2fCount control challenge application record).Runs app tr (.ok reply) app') :
    ∃ counter signature key, reply = .authentication (control = 3) counter signature ∧
      record.secretKey = some key ∧
      (⟨.sign .es256 key (application ++ presenceAndCounter (control = 3) counter) challenge,
        some signature⟩ : env.Event) ∈ tr := by
  obtain ⟨_, _, key, _, rfl, hkey, h₁⟩ := runs_bind_ok.mp h
  obtain ⟨hsecret, rfl, rfl⟩ := runs_okOr hkey
  obtain ⟨_, _, counted, _, rfl, -, h₂⟩ := runs_bind_ok.mp h₁
  obtain ⟨_, _, signature, _, rfl, hsign, h₃⟩ := runs_bind_ok.mp h₂
  obtain ⟨rfl, heq, rfl⟩ := runs_pure.mp h₃
  cases heq
  obtain ⟨_, _, answer, _, rfl, hask, hok⟩ := runs_bind_ok.mp hsign
  obtain ⟨rfl, rfl, rfl⟩ := runs_okOr hok
  obtain ⟨_, rfl, hanswer, rfl⟩ := runs_ask.mp hask
  cases hanswer
  exact ⟨counted.signCount, signature, key, rfl, hsecret, by simp⟩

/-- A U2F sign-in was asked for, and signed with the key of the record it found. -/
theorem runs_serve_authentication {apdu : Bytes} {userPresent : Bool} {counter : UInt32}
    {signature : Bytes} (h : (serve (.msg apdu)).Runs app trace
      (.ok (.msg (.ok (.authentication userPresent counter signature)))) app') :
    ∃ control challenge application handle opening handling opened,
      ∃ (stages : U2fStages control challenge application handle opened handling
        (.authentication userPresent counter signature) app') (key : CredentialSecretKey),
        trace = opening ++ handling ∧
        U2fApdu.decode apdu opened.pinState.persistent.alwaysUv =
          .ok (.authenticate control challenge application handle) ∧
        stages.record.secretKey = some key ∧
        (⟨.sign .es256 key (application ++ presenceAndCounter userPresent counter) challenge,
          some signature⟩ : env.Event) ∈ handling := by
  obtain ⟨request, opening, handling, opened, rfl, -, hdecode, hhandle⟩ := runs_serve_msg h
  cases request with
  | version =>
    obtain ⟨-, heq, -⟩ := runs_pure.mp hhandle
    cases heq
  | register challenge application =>
    obtain ⟨_, _, _, _, heq⟩ := runs_u2fRegister hhandle
    cases heq
  | authenticate control challenge application handle =>
    obtain ⟨stages⟩ := u2fStages_of_runs hhandle
    obtain ⟨_, _, key, heq, hkey, hsigned⟩ := runs_u2fCount stages.signs
    cases heq
    refine ⟨control, challenge, application, handle, opening, handling, opened, stages, key, rfl,
      hdecode, hkey, ?_⟩
    rw [stages.trace_eq]
    exact List.mem_append_right _ hsigned

end SoftwareAuthenticator.Ctap
