import SoftwareAuthenticator.Ctap.Assertions
import SoftwareAuthenticator.Ctap.PinCheck

/-!
# The "uv" bit

A registration or an assertion with the "uv" bit set goes back to one verification of a
pinUvAuthParam over its client data, while a PIN was set.
-/

namespace SoftwareAuthenticator.Ctap

open Cmd

section Soundness

variable {app app' : CtapApp} {tr trace : Trace} {permission : Permissions} {rpId : String}

theorem runs_ensurePinTokenPermissionForRp
    (h : (ensurePinTokenPermissionForRp permission rpId).Runs app tr (.ok ()) app') :
    ∃ (time : Duration) (token : InUseToken), (app.pinState.token.observe time).inUse = some token ∧
      token.permissions &&& permission ≠ 0 ∧ token.userVerified = true ∧
      (∀ bound, token.permissionsRpId = some bound → bound = rpId) ∧
      tr = [⟨.now, time⟩,
        mark (.authorized (token.bindRpId rpId).id (.rpOperation permission rpId))] ∧
      app'.pinState.token.inUse = some (token.bindRpId rpId) := by
  obtain ⟨_, _, state, _, rfl, hobserve, h₁⟩ := runs_bind_ok.mp h
  obtain ⟨time, rfl, heq, rfl⟩ := runs_observeToken hobserve
  cases heq
  split at h₁
  · exact absurd h₁ not_runs_fail_ok
  rename_i hpermission
  split at h₁
  · exact absurd h₁ not_runs_fail_ok
  rename_i hbound
  split at h₁
  · exact absurd h₁ not_runs_fail_ok
  rename_i hverified
  rw [Bool.not_eq_true', Bool.not_eq_false] at hpermission hverified
  obtain ⟨token, htoken, hbits⟩ := (Option.any_eq_true _ _).mp hpermission
  obtain ⟨token', htoken', huv⟩ := (Option.any_eq_true _ _).mp hverified
  obtain rfl : token = token' := Option.some.inj (htoken.symm.trans htoken')
  obtain ⟨_, _, ⟨⟩, marked, rfl, hbind, h₂⟩ := runs_bind_ok.mp h₁
  obtain ⟨rfl, -, hmarked⟩ := runs_modify.mp hbind
  have h₃ := runs_gets_bind.mp h₂
  have hleft : marked.pinState.token.inUse = some (token.bindRpId rpId) := by
    rw [hmarked]
    change (app.pinState.token.observe time).inUse.map _ = _
    rw [htoken]
    rfl
  rw [hleft] at h₃
  obtain ⟨_, rfl, -, rfl⟩ := runs_ask.mp h₃
  refine ⟨time, token, htoken, of_decide_eq_true hbits, huv, fun bound hsome => ?_, rfl, hleft⟩
  have hrpId : (app.pinState.token.observe time).permissionsRpId = some bound := by
    rw [TokenState.permissionsRpId, htoken]
    exact hsome
  rw [hrpId] at hbound
  simpa using hbound

theorem InUseToken.Continues.permits {token token' : InUseToken} (h : token.Continues token')
    (hbits : token'.permissions &&& permission ≠ 0) : token.permissions &&& permission ≠ 0 := by
  intro hzero
  apply hbits
  rw [← h.permissions, UInt8.and_assoc, hzero, UInt8.and_zero]

variable [Externals]

/-- In `app`, with the clock at `time`, a pinUvAuthParam over `clientHash` verifies under
the token in use, which may act with `permission` for `rpId`. -/
structure VerifiesUser (app : CtapApp) (time : Duration) (protocol : PinProtocol)
    (param clientHash : Bytes) (permission : Permissions) (rpId : String) : Prop where
  pinSet : app.pinState.isSet = true
  token : ∃ token, (app.pinState.token.observe time).inUse = some token ∧
    token.protocol = protocol ∧ verify protocol token.value clientHash param = .ok () ∧
    token.permissions &&& permission ≠ 0 ∧ token.userVerified = true ∧
    ∀ bound, token.permissionsRpId = some bound → bound = rpId

theorem runs_verifyPinUvAuthParam {protocol : PinProtocol} {message param : Bytes}
    (h : (verifyPinUvAuthParam protocol message param).Runs app tr (.ok ()) app') :
    ∃ (time : Duration) (token : InUseToken),
      tr = [⟨.now, time⟩, mark (.verified token.id message)] ∧
      (app.pinState.token.observe time).inUse = some token ∧ token.protocol = protocol ∧
      verify protocol token.value message param = .ok () ∧
      app'.pinState.token.inUse = some { token with used := true } := by
  obtain ⟨_, _, state, _, rfl, hobserve, h₁⟩ := runs_bind_ok.mp h
  obtain ⟨time, rfl, heq, rfl⟩ := runs_observeToken hobserve
  cases heq
  rcases (app.pinState.token.observe time).verify_cases protocol message param with
    ⟨status, heq⟩ | ⟨token, htoken, hprotocol, hverify, heq⟩
  · dsimp only at h₁
    rw [heq] at h₁
    obtain ⟨_, _, ⟨⟩, _, -, -, h₂⟩ := runs_bind_ok.mp h₁
    exact absurd h₂ not_runs_fail_ok
  · dsimp only at h₁
    rw [heq] at h₁
    obtain ⟨_, _, ⟨⟩, _, rfl, hmodify, h₂⟩ := runs_bind_ok.mp h₁
    obtain ⟨rfl, -, rfl⟩ := runs_modify.mp hmodify
    dsimp only at h₂
    rw [htoken] at h₂
    obtain ⟨_, rfl, -, rfl⟩ := runs_ask.mp h₂
    exact ⟨time, token, rfl, htoken, hprotocol, hverify, rfl⟩

/-- The user is verified only by a pinUvAuthParam. -/
theorem runs_verifyUser {pinUvAuth : Option (PinProtocol × Bytes)} {clientHash : Bytes}
    (h : (verifyUser pinUvAuth clientHash permission rpId).Runs app tr (.ok true) app') :
    ∃ protocol param time rest, pinUvAuth = some (protocol, param) ∧
      tr = (⟨.now, time⟩ : env.Event) :: rest ∧
      VerifiesUser app time protocol param clientHash permission rpId := by
  have h₁ := runs_gets_bind.mp h
  split at h₁
  · rename_i hset
    cases pinUvAuth with
    | none =>
      obtain ⟨-, heq, -⟩ := runs_pure.mp h₁
      cases heq
    | some auth =>
      obtain ⟨protocol, param⟩ := auth
      obtain ⟨_, _, ⟨⟩, verified, rfl, hverify, h₂⟩ := runs_bind_ok.mp h₁
      obtain ⟨_, _, ⟨⟩, _, rfl, hensure, -⟩ := runs_bind_ok.mp h₂
      obtain ⟨time, token, rfl, htoken, hprotocol, hmac, hused⟩ := runs_verifyPinUvAuthParam hverify
      obtain ⟨time', token', htoken', hbits, huv, hbound, -⟩ :=
        runs_ensurePinTokenPermissionForRp hensure
      -- What is checked later is what is left of the token that verified.
      obtain ⟨_, hsome, hcontinues⟩ := (verified.pinState.token.weakens_observe time').continues _ htoken'
      obtain rfl := Option.some.inj (hused.symm.trans hsome)
      refine ⟨protocol, param, time, _, rfl, rfl, hset, token, htoken, hprotocol, hmac, ?_, ?_, ?_⟩
      · exact (token.continues_used).permits (hcontinues.permits hbits)
      · exact (token.continues_used).userVerified (hcontinues.userVerified huv)
      · intro bound hsome'
        exact hbound bound (hcontinues.permissionsRpId bound hsome')
  · obtain ⟨-, heq, -⟩ := runs_pure.mp h₁
    cases heq

/-- During a request that found `app`, once it was opened and the PIN state was read, a
pinUvAuthParam over `clientHash` verified as `VerifiesUser` says. -/
def VerifiedDuring (command : UInt8) (app : CtapApp) (trace : Trace) (protocol : PinProtocol)
    (param clientHash : Bytes) (permission : Permissions) (rpId : String) : Prop :=
  ∃ early time late ready, trace = early ++ (⟨.now, time⟩ : env.Event) :: late ∧
    (preparePin command).Runs app early (.ok ()) ready ∧
    VerifiesUser ready time protocol param clientHash permission rpId

theorem verifiedDuring_of_runs {command : UInt8} {pinUvAuth : Option (PinProtocol × Bytes)}
    {clientHash : Bytes} {ready : CtapApp} {preparing verifying : Trace}
    (hinitial : preparing ++ verifying <+: trace)
    (hprepare : (preparePin command).Runs app preparing (.ok ()) ready)
    (hverify : (verifyUser pinUvAuth clientHash permission rpId).Runs ready verifying (.ok true)
      app') :
    ∃ protocol param, pinUvAuth = some (protocol, param) ∧
      VerifiedDuring command app trace protocol param clientHash permission rpId := by
  obtain ⟨protocol, param, time, late, hauth, rfl, hverifies⟩ := runs_verifyUser hverify
  obtain ⟨rest, rfl⟩ := hinitial
  exact ⟨protocol, param, hauth, preparing, time, late ++ rest, ready, by simp, hprepare, hverifies⟩

theorem RegistrationStages.verified {payload : Bytes} {response : Response}
    (stages : RegistrationStages payload app trace response app')
    (huv : stages.userVerified = true) :
    ∃ protocol param, stages.choices.pinUvAuth = some (protocol, param) ∧
      VerifiedDuring 0x01 app trace protocol param stages.registration.clientHash permissionMc
        stages.registration.rpId := by
  have h₁ := runs_gets_bind.mp stages.authorizes
  split at h₁
  · exact absurd h₁ not_runs_fail_ok
  obtain ⟨omitted, -, h₂⟩ := runs_ofExcept_bind_ok.mp h₁
  obtain ⟨extensions, -, h₃⟩ := runs_ofExcept_bind_ok.mp h₂
  obtain ⟨hmacRequest, -, h₄⟩ := runs_ofExcept_bind_ok.mp h₃
  obtain ⟨tr, _, userVerified, _, htrace, hverify, h₅⟩ := runs_bind_ok.mp h₄
  obtain ⟨rfl, heq, -⟩ := runs_pure.mp h₅
  obtain ⟨-, -, -, rfl⟩ : _ ∧ _ ∧ _ ∧ stages.userVerified = userVerified := by simpa using heq
  rw [huv] at hverify
  refine verifiedDuring_of_runs ⟨stages.searching ++ stages.asking ++ stages.registering, ?_⟩
    stages.prepares hverify
  refine Eq.trans ?_ stages.trace_eq.symm
  simp [htrace]

theorem AssertionStages.verified_of_userVerified {payload : Bytes}
    {answer : Except Status Response} (stages : AssertionStages payload app trace answer app')
    (huv : stages.userVerified = true) :
    ∃ protocol param, stages.choices.pinUvAuth = some (protocol, param) ∧
      VerifiedDuring 0x02 app trace protocol param stages.clientHash permissionGa stages.rpId := by
  obtain ⟨tr, rest, userVerified, _, htrace, hverify, h₁⟩ := runs_bind_ok.mp stages.verifies
  cases userVerified with
  | false =>
    obtain ⟨-, heq, -⟩ := runs_pure.mp h₁
    rw [huv] at heq
    cases heq
  | true =>
    refine verifiedDuring_of_runs ⟨rest ++ stages.locating ++ stages.asking ++ stages.signing, ?_⟩
      stages.prepares hverify
    refine Eq.trans ?_ stages.trace_eq.symm
    simp [htrace]

/-- Along every run, a response with the "uv" bit is about the client data and the relying
party for which a pinUvAuthParam verified, in that request or in the getAssertion that began
its sequence. -/
theorem userVerified_sound (before after : List Happening) (request : Request) (trace : Trace)
    (reply : Reply) (app' : CtapApp)
    (hrun : engine.Executes none (before ++ .exchange request trace reply app' :: after)) :
    (∀ payload response, request = .cbor (0x01 :: payload) →
      reply = .cbor (.ok (.attestation response)) → response.authData.userVerified = true →
      ∃ app map registration choices protocol param, engine.run none before = some app ∧
        requestParameters payload = .ok map ∧ registrationParameters map = .ok registration ∧
        registrationChoices map registration = .ok choices ∧
        choices.pinUvAuth = some (protocol, param) ∧
        response.authData.rpIdHash = sha256 (utf8 registration.rpId) ∧
        VerifiedDuring 0x01 app trace protocol param registration.clientHash permissionMc
          registration.rpId) ∧
    ∀ response, request.isAssertion = true → reply = .cbor (.ok (.assertion response)) →
      response.authData.userVerified = true →
      ∃ (b : Beginning (before ++ [.exchange request trace reply app'])) (protocol : PinProtocol)
        (param : Bytes), b.stages.choices.pinUvAuth = some (protocol, param) ∧
        response.authData.rpIdHash = sha256 (utf8 b.stages.rpId) ∧
        (∃ alg key, (⟨.sign alg key response.authData.bytes b.stages.clientHash,
          some response.signature⟩ : env.Event) ∈ trace) ∧
        VerifiedDuring 0x02 b.app b.trace protocol param b.stages.clientHash permissionGa
          b.stages.rpId := by
  obtain ⟨hbefore, henabled, -⟩ := (engine.along_append _ _ _ _).mp hrun
  constructor
  · rintro payload response rfl rfl huv
    obtain ⟨app, happ, hserve⟩ := served_of_enabled henabled
    obtain ⟨stages⟩ := registrationStages_of_runs hserve
    obtain ⟨attestation, aaguid, record, coseKey, outputs, heq, hrpId, hdata⟩ :=
      stages.registers_cases
    cases heq
    have hverified : stages.userVerified = true := by
      rw [hdata] at huv
      exact (flagsFrom_userVerified 0x40 (.inr rfl) _ _ _).mp (of_decide_eq_true huv)
    obtain ⟨protocol, param, hauth, hduring⟩ := stages.verified hverified
    refine ⟨app, stages.map, stages.registration, stages.choices, protocol, param, happ,
      stages.map_eq, stages.registration_eq, stages.choices_eq, hauth, ?_, hduring⟩
    rw [hdata, ← hrpId]
    rfl
  · rintro response hrequest rfl huv
    have hrun' : engine.Executes none
        (before ++ [.exchange request trace (.cbor (.ok (.assertion response))) app']) :=
      (engine.along_append _ _ _ _).mpr ⟨hbefore, henabled, trivial⟩
    obtain ⟨b, credential, -, hasserts⟩ := assertion_began hrequest hrun'
    obtain ⟨protocol, param, hauth, hduring⟩ :=
      b.stages.verified_of_userVerified (hasserts.userVerified.symm.trans huv)
    obtain ⟨key, -, hsigned⟩ := hasserts.signed
    exact ⟨b, protocol, param, hauth, hasserts.rpIdHash, ⟨_, key, hsigned⟩, hduring⟩

end Soundness

section Bench

local instance verifiedExternals : Externals :=
  .bench [(getPinTokenPayload, getPinTokenValue), (assertionPayload true, assertionValue true)]

def verifiedSession : List Happening :=
  (World.bench benchPinState [benchCredential [5], benchCredential [6]] 0).session .bench
    [.cbor (0x06 :: getPinTokenPayload), .cbor (0x02 :: assertionPayload true), .cbor [0x08]]

def Happening.isVerifiedNext : Happening → Bool
  | .exchange (.cbor [0x08]) _ (.cbor (.ok (.assertion response))) _ =>
    response.authData.userVerified
  | _ => false

theorem userVerified_sound_getNextAssertion :
    ∃ before h after, verifiedSession = before ++ h :: after ∧ h.isVerifiedNext = true ∧
      ∃ (b : Beginning (before ++ [h])) (protocol : PinProtocol) (param : Bytes),
        VerifiedDuring 0x02 b.app b.trace protocol param b.stages.clientHash permissionGa
          b.stages.rpId := by
  obtain ⟨h, hmem, hverified⟩ := List.any_eq_true.mp
    (show verifiedSession.any Happening.isVerifiedNext = true by decide +kernel)
  obtain ⟨before, after, hsplit⟩ := List.append_of_mem hmem
  refine ⟨before, h, after, hsplit, hverified, ?_⟩
  have hrun : engine.Executes none verifiedSession := World.executes_session _ _ _
  rw [hsplit] at hrun
  unfold Happening.isVerifiedNext at hverified
  split at hverified
  · obtain ⟨b, protocol, param, -, -, -, hduring⟩ :=
      (userVerified_sound before after _ _ _ _ hrun).2 _ rfl rfl hverified
    exact ⟨b, protocol, param, hduring⟩
  · cases hverified

end Bench

end SoftwareAuthenticator.Ctap
