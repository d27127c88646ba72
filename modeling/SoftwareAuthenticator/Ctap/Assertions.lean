import SoftwareAuthenticator.Ctap.Stages

/-!
# What an assertion says, and where it began

Every assertion is signed for the relying party and the client data of one getAssertion.
`pending_began` finds it for whatever is remembered, by induction over the run.
-/

namespace SoftwareAuthenticator.Ctap

open Cmd

variable {credential credential' : CredentialRecord} {tr : Trace} {rpId : String}
  {clientHash : Bytes} {userPresent userVerified : Bool} {extensions : Option Bytes}

@[simp] theorem flagsFrom_userPresent (start : UInt8) (h : start = 0 ∨ start = 0x40)
    (userPresent userVerified extensions : Bool) :
    (flagsFrom start userPresent userVerified extensions &&& 0x01 ≠ 0) ↔ userPresent = true := by
  rcases h with rfl | rfl <;> revert userPresent userVerified extensions <;> decide

@[simp] theorem flagsFrom_userVerified (start : UInt8) (h : start = 0 ∨ start = 0x40)
    (userPresent userVerified extensions : Bool) :
    (flagsFrom start userPresent userVerified extensions &&& 0x04 ≠ 0) ↔ userVerified = true := by
  rcases h with rfl | rfl <;> revert userPresent userVerified extensions <;> decide

variable {app app' : CtapApp}

/-- The counter is all that signing changes of a credential. -/
theorem runs_advanceSignatureCounter
    (h : (advanceSignatureCounter credential).Runs app tr (.ok credential') app') :
    credential' = { credential with signCount := credential'.signCount } := by
  unfold advanceSignatureCounter at h
  split at h
  · obtain ⟨_, _, count, _, -, -, h⟩ := runs_bind_ok.mp h
    obtain ⟨_, _, ⟨⟩, _, -, -, h⟩ := runs_bind_ok.mp h
    obtain ⟨-, h, -⟩ := runs_pure.mp h
    cases h
    rfl
  · obtain ⟨_, _, ⟨⟩, _, -, -, h⟩ := runs_bind_ok.mp h
    obtain ⟨-, h, -⟩ := runs_pure.mp h
    cases h
    rfl

variable {remaining : List Bytes}

theorem runs_rememberAssertion {pending : Duration → PendingAssertion} {x : Except Status Unit}
    (h : (rememberAssertion pending remaining).Runs app tr x app') :
    x = .ok () ∧ ((remaining = [] ∧ app' = app) ∨
      ∃ time : Duration, remaining ≠ [] ∧ tr = [⟨.now, time⟩] ∧
        app' = { app with pendingAssertion := some (pending time) }) := by
  unfold rememberAssertion at h
  split at h
  · obtain ⟨-, rfl, rfl⟩ := runs_pure.mp h
    exact ⟨rfl, .inl ⟨List.isEmpty_iff.mp ‹_›, rfl⟩⟩
  · rcases runs_bind.mp h with ⟨_, _, time, _, rfl, hnow, hset⟩ | ⟨_, -, hnow⟩
    · obtain ⟨_, rfl, heq, rfl⟩ := runs_ask.mp hnow
      cases heq
      obtain ⟨rfl, rfl, rfl⟩ := runs_modify.mp hset
      exact ⟨rfl, .inr ⟨time, fun hnil => ‹¬ _› (List.isEmpty_iff.mpr hnil), rfl, rfl⟩⟩
    · obtain ⟨_, -, heq, -⟩ := runs_ask.mp hnow
      cases heq

theorem Plain.pending {ε α : Type} {c : EngineM ε α} (hc : Plain c) {x : Except ε α}
    (h : c.Runs app tr x app') : app'.pendingAssertion = app.pendingAssertion :=
  congrArg Authority.pending (hc.confined.runs h).1

theorem runs_storedCredential {id : Bytes} {credential : CredentialRecord} {tr : Trace}
    (h : (storedCredential id).Runs app tr (.ok (some credential)) app') :
    tr = [⟨.store (.get id), .ok (some credential)⟩] ∧ app' = app := by
  obtain ⟨_, _, found, _, rfl, hask, h₁⟩ := runs_bind_ok.mp h
  obtain ⟨_, rfl, heq, rfl⟩ := runs_ask.mp hask
  cases heq
  split at h₁
  · obtain ⟨rfl, heq, rfl⟩ := runs_pure.mp h₁
    cases heq
    exact ⟨rfl, rfl⟩
  · obtain ⟨-, heq, -⟩ := runs_pure.mp h₁
    cases heq
  · exact absurd h₁ not_runs_fail_ok

/-- The next credential is the first of the remaining ones that still exists. -/
theorem runs_nextCredential {rpId : String} {ids : List Bytes} {credential : CredentialRecord}
    {tr : Trace} (h : (nextCredential rpId ids).Runs app tr (.ok (credential, remaining)) app') :
    ∃ skipped id, ids = skipped ++ id :: remaining ∧ credential.rpId = rpId ∧
      (⟨.store (.get id), .ok (some credential)⟩ : env.Event) ∈ tr := by
  induction ids generalizing app tr with
  | nil =>
    exact absurd h not_runs_fail_ok
  | cons id rest ih =>
    obtain ⟨tr₁, tr₂, found, app₁, rfl, hfound, h₁⟩ := runs_bind_ok.mp h
    split at h₁
    · rename_i credential' hfilter
      obtain ⟨rfl, heq, rfl⟩ := runs_pure.mp h₁
      cases heq
      obtain ⟨rfl, hrpId⟩ := Option.filter_eq_some_iff.mp hfilter
      obtain ⟨rfl, -⟩ := runs_storedCredential hfound
      exact ⟨[], id, rfl, of_decide_eq_true hrpId, by simp⟩
    · obtain ⟨skipped, id', rfl, hrpId, hmem⟩ := ih h₁
      exact ⟨id :: skipped, id', rfl, hrpId, List.mem_append_right _ hmem⟩

variable {response : AssertionResponse}

theorem remembers_commandScope {command : UInt8} (h : command ≠ 0x02)
    (hnext : command ≠ ctapCmdGetNextAssertion) : (commandScope command).remembers = false := by
  unfold commandScope
  split
  · exact absurd rfl h
  · exact absurd rfl hnext
  all_goals rfl

variable {request : Request}

theorem pending_powerUp {settings : Settings} {s s' : Option CtapApp} {tr : Trace}
    {x : Except Empty Unit} (h : (powerUp settings).Runs s tr x s') :
    ∀ app, s' = some app → app.pendingAssertion = none := by
  rcases runs_bind.mp h with ⟨_, _, loaded, _, -, -, hnew⟩ | ⟨e, -, -⟩
  · obtain ⟨-, -, rfl⟩ := runs_modify.mp hnew
    rintro app ⟨⟩
    rfl
  · exact e.elim

variable [Externals]

structure Asserts (response : AssertionResponse) (trace : Trace) (credential : CredentialRecord)
    (rpId : String) (clientHash : Bytes) (userPresent userVerified : Bool) : Prop where
  credentialId : response.credentialId = credential.credentialId
  rpIdHash : response.authData.rpIdHash = sha256 (utf8 rpId)
  userPresent : response.authData.userPresent = userPresent
  userVerified : response.authData.userVerified = userVerified
  signed : ∃ key, credential.secretKey = some key ∧
    (⟨.sign credential.alg key response.authData.bytes clientHash, some response.signature⟩ :
      env.Event) ∈ trace

theorem runs_signAssertion {signature : Bytes} {authData : AuthenticatorData}
    (h : (signAssertion credential rpId clientHash userPresent userVerified extensions).Runs app tr
      (.ok (credential', authData, signature)) app') :
    credential' = { credential with signCount := credential'.signCount } ∧
    authData = assertionAuthData rpId credential'.signCount userPresent userVerified extensions ∧
    ∃ key, credential.secretKey = some key ∧
      (⟨.sign credential.alg key authData.bytes clientHash, some signature⟩ : env.Event) ∈ tr := by
  obtain ⟨_, _, key, _, rfl, hkey, h₁⟩ := runs_bind_ok.mp h
  obtain ⟨hsecret, rfl, rfl⟩ := runs_okOr hkey
  obtain ⟨_, _, counted, _, rfl, hcount, h₂⟩ := runs_bind_ok.mp h₁
  have hcounted := runs_advanceSignatureCounter hcount
  obtain ⟨_, _, signed, _, rfl, hsign, h₃⟩ := runs_bind_ok.mp h₂
  obtain ⟨rfl, heq, rfl⟩ := runs_pure.mp h₃
  cases heq
  obtain ⟨_, _, answer, _, rfl, hask, hok⟩ := runs_bind_ok.mp hsign
  obtain ⟨rfl, rfl, rfl⟩ := runs_okOr hok
  obtain ⟨_, rfl, hanswer, rfl⟩ := runs_ask.mp hask
  cases hanswer
  have halg : credential'.alg = credential.alg := by rw [hcounted]
  refine ⟨hcounted, rfl, key, hsecret, ?_⟩
  rw [← halg]
  simp

theorem asserts_of_signed {signature : Bytes} {authData : AuthenticatorData}
    (h : (signAssertion credential rpId clientHash userPresent userVerified extensions).Runs app tr
      (.ok (credential', authData, signature)) app') (number : Option ℕ) (largeBlobKey : Bool) :
    Asserts (assertionResponse credential' authData signature userVerified number largeBlobKey) tr
      credential rpId clientHash userPresent userVerified := by
  obtain ⟨hcredential, rfl, hsigned⟩ := runs_signAssertion h
  refine ⟨?_, rfl, ?_, ?_, hsigned⟩
  · change credential'.credentialId = _
    rw [hcredential]
  · exact Bool.eq_iff_iff.mpr ((decide_eq_true_iff).trans (flagsFrom_userPresent 0 (.inl rfl) _ _ _))
  · exact Bool.eq_iff_iff.mpr
      ((decide_eq_true_iff).trans (flagsFrom_userVerified 0 (.inl rfl) _ _ _))

theorem Asserts.mono {response : AssertionResponse} {trace trace' : Trace}
    (h : Asserts response trace credential rpId clientHash userPresent userVerified)
    (hsub : ∀ e ∈ trace, e ∈ trace') :
    Asserts response trace' credential rpId clientHash userPresent userVerified := by
  obtain ⟨key, hkey, hmem⟩ := h.signed
  exact { h with signed := ⟨key, hkey, hsub _ hmem⟩ }

theorem runs_respondWith {response response' : Response}
    (h : (respondWith response).Runs app tr (.ok response') app') :
    response' = response ∧ tr = [] ∧ app' = app := by
  obtain ⟨_, -, h⟩ := runs_ofExcept_bind_ok.mp h
  obtain ⟨rfl, heq, rfl⟩ := runs_pure.mp h
  exact ⟨Except.ok.inj heq, rfl, rfl⟩

variable {answer : Except Status Response}

theorem runs_assert {pending : Duration → PendingAssertion} {number : Option ℕ}
    {largeBlobKey : Bool} (h : Runs (do
      let (credential, authData, signature) ←
        signAssertion credential rpId clientHash userPresent userVerified extensions
      rememberAssertion pending remaining
      respondWith (.assertion (assertionResponse credential authData signature userVerified number
        largeBlobKey))) app tr answer app') :
    (∀ response, answer = .ok response → ∃ assertion, response = .assertion assertion ∧
      assertion.numberOfCredentials = number ∧
      Asserts assertion tr credential rpId clientHash userPresent userVerified) ∧
    (app'.pendingAssertion = app.pendingAssertion ∨
      remaining ≠ [] ∧ ∃ time, app'.pendingAssertion = some (pending time)) := by
  rcases runs_bind.mp h with
    ⟨tr₁, _, ⟨credential', authData, signature⟩, app₁, rfl, hsign, h₁⟩ | ⟨e, rfl, hsign⟩
  · have hsame := (plain_signAssertion _ _ _ _ _ _).pending hsign
    rcases runs_bind.mp h₁ with ⟨tr₂, tr₃, ⟨⟩, app₂, rfl, hremember, h₂⟩ | ⟨e, -, hremember⟩
    · have hlast := Plain.pending (built_respondWith _) h₂
      constructor
      · rintro response rfl
        obtain ⟨rfl, rfl, rfl⟩ := runs_respondWith h₂
        exact ⟨_, rfl, rfl, (asserts_of_signed hsign number largeBlobKey).mono
          fun e he => by simp [he]⟩
      · obtain ⟨-, ⟨-, rfl⟩ | ⟨time, hne, -, rfl⟩⟩ := runs_rememberAssertion hremember
        · exact .inl (hlast.trans hsame)
        · exact .inr ⟨hne, time, hlast⟩
    · obtain ⟨heq, -⟩ := runs_rememberAssertion hremember
      cases heq
  · refine ⟨?_, .inl ((plain_signAssertion _ _ _ _ _ _).pending hsign)⟩
    rintro response ⟨⟩

structure Remembers {payload : Bytes} {app : CtapApp} {trace : Trace}
    {answer : Except Status Response} {app' : CtapApp}
    (stages : AssertionStages payload app trace answer app') (pending : PendingAssertion) :
    Prop where
  rpId : pending.rpId = stages.rpId
  clientHash : pending.clientHash = stages.clientHash
  userPresent : pending.userPresent = stages.userPresent
  userVerified : pending.userVerified = stages.userVerified
  token : pending.token = stages.token
  allowList : stages.choices.allowList = none
  remaining : pending.remainingCredentials <:+ stages.rest.map (·.credentialId)

namespace AssertionStages

variable {payload : Bytes} {trace : Trace}

theorem signing_subset (stages : AssertionStages payload app trace answer app') :
    ∀ e ∈ stages.signing, e ∈ trace := by
  intro e he
  rw [stages.trace_eq]
  exact List.mem_append_right _ he

theorem pending_present (stages : AssertionStages payload app trace answer app') :
    stages.present.pendingAssertion = none := by
  obtain ⟨_, _, ⟨⟩, opened, -, hopen, hread⟩ := runs_bind_ok.mp stages.prepares
  have hnone : opened.pendingAssertion = none := pending_beginRequest (by decide) hopen
  have hready : Discards .nothing opened stages.ready :=
    composed_readPinStateIfUnread.prompting.discards hread
  have hverified : Discards .nothing stages.ready stages.verified :=
    (composed_verifyAssertionUser _ _ _).prompting.discards stages.verifies
  have hlocated : Discards .nothing stages.verified stages.located :=
    (plain_applicableCredentials _ _ _).prompting.discards stages.locates
  have hpresent : Discards .nothing stages.located stages.present :=
    (prompting_assertionPresence _ _ _).discards stages.asks
  rcases (((hready.trans hverified).trans hlocated).trans hpresent).pending with h | h | h
  · cases h
  · exact h.trans hnone
  · exact h

theorem signs_cases (stages : AssertionStages payload app trace answer app') :
    (∀ response, answer = .ok response → ∃ assertion, response = .assertion assertion ∧
      assertion.numberOfCredentials =
        numberOfCredentials (remainingIds stages.choices.allowList stages.rest) ∧
      Asserts assertion trace stages.credential stages.rpId stages.clientHash stages.userPresent
        stages.userVerified) ∧
    (app'.pendingAssertion = none ∨
      ∃ pending, app'.pendingAssertion = some pending ∧ Remembers stages pending) := by
  have hnone := stages.pending_present
  have hfailed : ∀ {P : Response → Prop} (status : Status), answer = .error status →
      ∀ response, answer = .ok response → P response := by
    rintro P status rfl response ⟨⟩
  rcases runs_ofExcept_bind.mp stages.signs with ⟨largeBlobKey, -, h₁⟩ | ⟨e, -, -, herror, hsame⟩
  · rcases runs_bind.mp h₁ with
      ⟨tr₁, tr₂, ⟨hmacOutput, hmacSecret⟩, app₁, htrace, hhmac, h₂⟩ | ⟨e, herror, hhmac⟩
    · have hsame := (plain_assertionHmacSecret _ _ _).pending hhmac
      rcases runs_ofExcept_bind.mp h₂ with ⟨extensions, -, h₃⟩ | ⟨e, -, -, herror, rfl⟩
      · obtain ⟨hanswer, hpending⟩ := runs_assert h₃
        refine ⟨fun response hresponse => ?_, ?_⟩
        · obtain ⟨assertion, heq, hnumber, hasserts⟩ := hanswer response hresponse
          refine ⟨assertion, heq, hnumber, hasserts.mono fun e he => stages.signing_subset e ?_⟩
          rw [htrace]
          exact List.mem_append_right _ he
        · rcases hpending with hpending | ⟨hne, time, hpending⟩
          · exact .inl (hpending.trans (hsame.trans hnone))
          · refine .inr ⟨_, hpending, ⟨rfl, rfl, rfl, rfl, rfl, ?_, ?_⟩⟩
            · unfold remainingIds at hne
              split at hne
              · exact absurd rfl hne
              · exact Option.not_isSome_iff_eq_none.mp ‹_›
            · change remainingIds stages.choices.allowList stages.rest <:+ _
              unfold remainingIds
              split
              · exact List.nil_suffix
              · exact List.suffix_rfl
      · exact ⟨hfailed e herror, .inl (hsame.trans hnone)⟩
    · exact ⟨hfailed e herror, .inl (((plain_assertionHmacSecret _ _ _).pending hhmac).trans hnone)⟩
  · exact ⟨hfailed e herror, .inl ((congrArg _ hsame).trans hnone)⟩

end AssertionStages

namespace NextStages

variable {trace : Trace} (stages : NextStages app trace answer app')

theorem locating_subset : ∀ e ∈ stages.locating, e ∈ trace := by
  intro e he
  rw [stages.trace_eq]
  simp [he]

theorem signs_cases :
    (∀ response, answer = .ok response → ∃ assertion, response = .assertion assertion ∧
      assertion.numberOfCredentials = none ∧
      Asserts assertion trace stages.credential stages.pending.rpId stages.pending.clientHash
        stages.pending.userPresent stages.pending.userVerified) ∧
    (app'.pendingAssertion = none ∨ ∃ time : Duration, app'.pendingAssertion =
      some { stages.pending with
        remainingCredentials := stages.remaining, timerStarted := time }) := by
  have hfailed : ∀ {P : Response → Prop} (status : Status), answer = .error status →
      ∀ response, answer = .ok response → P response := by
    rintro P status rfl response ⟨⟩
  have hnone : stages.located.pendingAssertion = none := by
    have hchecked := (Prompting.discards
      (composed_checkPending stages.pending : Composed .nothing _).prompting stages.checks).pending
    have hlocated := (plain_nextCredential _ _).pending stages.locates
    rw [hlocated]
    rcases hchecked with h | h | h
    · cases h
    · exact h
    · exact h
  rcases runs_bind.mp stages.signs with
    ⟨tr₁, tr₂, hmacOutput, app₁, htrace, hhmac, h₁⟩ | ⟨e, herror, hhmac⟩
  · have hsame := (plain_nextHmacSecret _ _).pending hhmac
    rcases runs_ofExcept_bind.mp h₁ with ⟨extensions, -, h₂⟩ | ⟨e, -, -, herror, rfl⟩
    · obtain ⟨hanswer, hpending⟩ := runs_assert h₂
      refine ⟨fun response hresponse => ?_, ?_⟩
      · obtain ⟨assertion, heq, hnumber, hasserts⟩ := hanswer response hresponse
        refine ⟨assertion, heq, hnumber, hasserts.mono fun e he => ?_⟩
        rw [stages.trace_eq, htrace]
        simp [he]
      · rcases hpending with hpending | ⟨-, time, hpending⟩
        · exact .inl (hpending.trans (hsame.trans hnone))
        · exact .inr ⟨time, hpending⟩
    · exact ⟨hfailed e herror, .inl (hsame.trans hnone)⟩
  · exact ⟨hfailed e herror, .inl (((plain_nextHmacSecret _ _).pending hhmac).trans hnone)⟩

end NextStages

def Request.isAssertion : Request → Bool
  | .cbor (command :: _) => command = 0x02 ∨ command = ctapCmdGetNextAssertion
  | _ => false

variable {trace : Trace}

/-- Every other request leaves nothing to be continued. -/
theorem pending_of_not_isAssertion (hrequest : request.isAssertion = false) {reply : Reply}
    (h : (serve request).Runs app trace (.ok reply) app') :
    app'.pendingAssertion = none := by
  match request with
  | .cbor (command :: payload) =>
    obtain ⟨hassert, hnext⟩ := not_or.mp (of_decide_eq_false hrequest)
    obtain ⟨answer, _, _, opened, rfl, rfl, hopen, hhandle⟩ := runs_serve_cbor h
    have hnone := pending_beginRequest hnext hopen
    rcases ((prompting_handleCommand command payload).discards hhandle).pending with h | h | h
    · rw [remembers_commandScope hassert hnext] at h
      cases h
    · exact h.trans hnone
    · exact h
  | .cbor [] =>
    obtain ⟨_, _, _, _, rfl, hattempt, hpure⟩ := runs_bind_ok.mp h
    obtain ⟨rfl, -, rfl⟩ := runs_pure.mp hpure
    obtain ⟨_, -, hcall⟩ := runs_attempt.mp hattempt
    rcases runs_bind.mp hcall with ⟨_, _, ⟨⟩, _, -, -, h₁⟩ | ⟨_, -, hlarge⟩
    · rcases runs_bind.mp h₁ with ⟨_, _, ⟨⟩, _, -, hforget, h₂⟩ | ⟨_, -, hforget⟩
      · obtain ⟨-, -, rfl⟩ := runs_fail.mp h₂
        obtain ⟨-, -, rfl⟩ := runs_modify.mp hforget
        rfl
      · obtain ⟨-, -, rfl⟩ := runs_modify.mp hforget
        rfl
    · obtain ⟨_, ⟨⟩⟩ := sure_observeLargeBlobState _ _ _ _ _ hlarge
  | .msg apdu =>
    obtain ⟨_, _, _, _, rfl, hattempt, hpure⟩ := runs_bind_ok.mp h
    obtain ⟨rfl, -, rfl⟩ := runs_pure.mp hpure
    obtain ⟨_, -, hu2f⟩ := runs_attempt.mp hattempt
    rcases runs_bind.mp hu2f with ⟨_, _, ⟨⟩, _, -, hforget, h₁⟩ | ⟨_, -, hforget⟩
    · obtain ⟨-, -, rfl⟩ := runs_modify.mp hforget
      have hcommand : Prompting .nothing _ := prompting_u2fCommand apdu
      rcases (hcommand.discards h₁).pending with h | h | h
      · cases h
      · exact h
      · exact h
    · obtain ⟨-, -, rfl⟩ := runs_modify.mp hforget
      rfl

theorem Remembers.next {payload : Bytes} {app₀ app₁ : CtapApp} {trace₀ : Trace}
    {answer₀ : Except Status Response} {origin : AssertionStages payload app₀ trace₀ answer₀ app₁}
    (stages : NextStages app trace answer app') (h : Remembers origin stages.pending)
    {time : Duration} : Remembers origin { stages.pending with
      remainingCredentials := stages.remaining, timerStarted := time } := by
  obtain ⟨skipped, id, heq, -⟩ := runs_nextCredential stages.locates
  refine { h with remaining := List.IsSuffix.trans ?_ h.remaining }
  rw [heq]
  exact (List.suffix_cons id _).trans (List.suffix_append _ _)

def Happening.isNext : Happening → Bool
  | .exchange (.cbor (command :: _)) _ _ _ => command = ctapCmdGetNextAssertion
  | _ => false

/-- A getAssertion of a run that came to sign, with nothing but getNextAssertion requests
since. -/
structure Beginning (hs : List Happening) where
  before : List Happening
  app : CtapApp
  payload : Bytes
  trace : Trace
  answer : Except Status Response
  app' : CtapApp
  nexts : List Happening
  hs_eq : hs = before ++ .exchange (.cbor (0x02 :: payload)) trace (.cbor answer) app' :: nexts
  run_before : engine.run none before = some app
  isNext : ∀ h ∈ nexts, h.isNext = true
  stages : AssertionStages payload app trace answer app'

def Beginning.here {before : List Happening} {app app' : CtapApp} {payload : Bytes}
    {trace : Trace} {answer : Except Status Response} (hrun : engine.run none before = some app)
    (stages : AssertionStages payload app trace answer app') :
    Beginning (before ++ [.exchange (.cbor (0x02 :: payload)) trace (.cbor answer) app']) where
  before := before
  app := app
  payload := payload
  trace := trace
  answer := answer
  app' := app'
  nexts := []
  hs_eq := rfl
  run_before := hrun
  isNext := by simp
  stages := stages

def Beginning.next {hs : List Happening} (b : Beginning hs) {h : Happening}
    (hnext : h.isNext = true) : Beginning (hs ++ [h]) :=
  { b with
    nexts := b.nexts ++ [h]
    hs_eq := by
      conv_lhs => rw [b.hs_eq]
      simp
    isNext := by
      intro h' hmem
      rcases List.mem_append.mp hmem with hmem | hmem
      · exact b.isNext h' hmem
      · rw [List.mem_singleton.mp hmem]
        exact hnext }

variable {hs : List Happening}

/-- What is remembered was remembered of a getAssertion, and nothing but getNextAssertion
requests came since. What holds of it then, and is carried on by a getNextAssertion, holds
now. -/
theorem pending_induction {P : ∀ {hs : List Happening}, Beginning hs → PendingAssertion → Prop}
    (hhere : ∀ {before : List Happening} {app app' : CtapApp} {payload : Bytes} {trace : Trace}
      {answer : Except Status Response} (hbefore : engine.run none before = some app)
      (stages : AssertionStages payload app trace answer app') (pending : PendingAssertion),
      Remembers stages pending → P (.here hbefore stages) pending)
    (hnext : ∀ {hs : List Happening} (b : Beginning hs) {app app' : CtapApp} {payload : Bytes}
      {trace : Trace} {answer : Except Status Response}
      (stages : NextStages app trace answer app') (time : Duration),
      Remembers b.stages stages.pending → P b stages.pending →
      P (b.next (h := .exchange (.cbor (0x08 :: payload)) trace (.cbor answer) app') rfl)
        { stages.pending with
          remainingCredentials := stages.remaining, timerStarted := time })
    (hrun : engine.Executes none hs) {app : CtapApp} (happ : engine.run none hs = some app)
    {pending : PendingAssertion} (hpending : app.pendingAssertion = some pending) :
    ∃ b : Beginning hs, Remembers b.stages pending ∧ P b pending := by
  -- The last happening is a getAssertion, which began it, or a getNextAssertion, which
  -- found something remembered already.
  induction hs using List.reverseRecOn generalizing app pending with
  | nil => cases happ
  | append_singleton hs h ih =>
    obtain ⟨hbefore, ⟨settings, trace, rfl, hpower⟩ | ⟨app₀, request, trace, reply, hs', rfl,
      hserve⟩⟩ := engine_last_cases hrun happ
    · rw [pending_powerUp hpower app rfl] at hpending
      cases hpending
    cases hrequest : request.isAssertion with
    | false =>
      rw [pending_of_not_isAssertion hrequest hserve] at hpending
      cases hpending
    | true =>
      match request, hrequest with
      | .cbor (command :: payload), hrequest =>
        rcases of_decide_eq_true hrequest with rfl | rfl
        · obtain ⟨answer, rfl, ⟨-, hnone⟩ | ⟨⟨stages⟩⟩⟩ := assertionStages_of_runs hserve
          · rw [hnone] at hpending
            cases hpending
          · rcases stages.signs_cases.2 with hnone | ⟨pending', hsome, hremembers⟩
            · rw [hnone] at hpending
              cases hpending
            · rw [hsome] at hpending
              cases hpending
              exact ⟨.here hs' stages, hremembers, hhere hs' stages _ hremembers⟩
        · obtain ⟨answer, rfl, ⟨-, hnone⟩ | ⟨⟨stages⟩⟩⟩ := nextStages_of_runs hserve
          · rw [hnone] at hpending
            cases hpending
          · obtain ⟨b, hb, hP⟩ := ih hbefore hs' stages.pending_eq
            rcases stages.signs_cases.2 with hnone | ⟨time, hsome⟩
            · rw [hnone] at hpending
              cases hpending
            · rw [hsome] at hpending
              cases hpending
              exact ⟨b.next rfl, Remembers.next stages hb, hnext b stages time hb hP⟩

theorem pending_began (hrun : engine.Executes none hs) {app : CtapApp}
    (happ : engine.run none hs = some app) {pending : PendingAssertion}
    (hpending : app.pendingAssertion = some pending) :
    ∃ b : Beginning hs, Remembers b.stages pending := by
  obtain ⟨b, hb, -⟩ := pending_induction (P := fun _ _ => True) (by intros; trivial)
    (by intros; trivial) hrun happ hpending
  exact ⟨b, hb⟩

theorem assertion_cases (hrequest : request.isAssertion = true)
    (h : (serve request).Runs app trace (.ok (.cbor (.ok (.assertion response)))) app') :
    ∃ payload, (request = .cbor (0x02 :: payload) ∧
        Nonempty (AssertionStages payload app trace (.ok (.assertion response)) app')) ∨
      (request = .cbor (0x08 :: payload) ∧
        Nonempty (NextStages app trace (.ok (.assertion response)) app')) := by
  match request, hrequest with
  | .cbor (command :: payload), hrequest =>
    refine ⟨payload, ?_⟩
    rcases of_decide_eq_true hrequest with rfl | rfl
    · obtain ⟨answer, heq, ⟨⟨_, rfl⟩, -⟩ | hstages⟩ := assertionStages_of_runs h
      · cases heq
      · cases heq
        exact .inl ⟨rfl, hstages⟩
    · obtain ⟨answer, heq, ⟨⟨_, rfl⟩, -⟩ | hstages⟩ := nextStages_of_runs h
      · cases heq
      · cases heq
        exact .inr ⟨rfl, hstages⟩

/-- The credential of an assertion is the first one of its getAssertion, or one of those
left for getNextAssertion, as the store has it when it signs. -/
def Beginning.Chooses {hs : List Happening} (b : Beginning hs) (trace : Trace)
    (credential : CredentialRecord) : Prop :=
  (b.nexts = [] ∧ trace = b.trace ∧ credential = b.stages.credential) ∨
    (b.nexts ≠ [] ∧ b.stages.choices.allowList = none ∧ credential.rpId = b.stages.rpId ∧
      ∃ id ∈ b.stages.rest.map (·.credentialId),
        (⟨.store (.get id), .ok (some credential)⟩ : env.Event) ∈ trace)

theorem Remembers.chooses {b : Beginning hs} {payload : Bytes}
    (stages : NextStages app trace answer app') (hb : Remembers b.stages stages.pending) :
    (b.next (h := .exchange (.cbor (0x08 :: payload)) trace (.cbor answer) app') rfl).Chooses
      trace stages.credential := by
  obtain ⟨skipped, id, hids, hrpId, hmem⟩ := runs_nextCredential stages.locates
  refine .inr ⟨by simp [Beginning.next], hb.allowList, hrpId.trans hb.rpId, id,
    hb.remaining.subset ?_, stages.locating_subset _ hmem⟩
  rw [hids]
  simp

theorem Remembers.asserts {b : Beginning hs}
    (stages : NextStages app trace (.ok (.assertion response)) app')
    (hb : Remembers b.stages stages.pending) :
    Asserts response trace stages.credential b.stages.rpId b.stages.clientHash
      b.stages.userPresent b.stages.userVerified := by
  obtain ⟨_, ⟨⟩, -, hasserts⟩ := stages.signs_cases.1 _ rfl
  rw [hb.rpId, hb.clientHash, hb.userPresent, hb.userVerified] at hasserts
  exact hasserts

/-- Every assertion belongs to the sequence of a getAssertion, and tells of what that
getAssertion was about. -/
theorem assertion_began {app' : CtapApp} (hrequest : request.isAssertion = true)
    (hrun : engine.Executes none
      (hs ++ [.exchange request trace (.cbor (.ok (.assertion response))) app'])) :
    ∃ (b : Beginning (hs ++ [.exchange request trace (.cbor (.ok (.assertion response))) app']))
      (credential : CredentialRecord), b.Chooses trace credential ∧
      Asserts response trace credential b.stages.rpId b.stages.clientHash b.stages.userPresent
        b.stages.userVerified := by
  obtain ⟨hbefore, henabled, -⟩ := (engine.along_append _ _ _ _).mp hrun
  obtain ⟨app, happ, hserve⟩ := served_of_enabled henabled
  obtain ⟨payload, ⟨rfl, ⟨stages⟩⟩ | ⟨rfl, ⟨stages⟩⟩⟩ := assertion_cases hrequest hserve
  · obtain ⟨_, ⟨⟩, -, hasserts⟩ := stages.signs_cases.1 _ rfl
    exact ⟨.here happ stages, stages.credential, .inl ⟨rfl, rfl, rfl⟩, hasserts⟩
  · obtain ⟨b, hb⟩ := pending_began hbefore happ stages.pending_eq
    exact ⟨b.next rfl, stages.credential, hb.chooses stages, hb.asserts stages⟩

end SoftwareAuthenticator.Ctap
