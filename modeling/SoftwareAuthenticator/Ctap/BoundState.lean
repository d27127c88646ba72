import SoftwareAuthenticator.Ctap.TokenConfinement
import SoftwareAuthenticator.Ctap.UploadWindow

/-!
# State that is bound to a token

A sequence of assertions and an upload are bound to the token that authenticated the first
request, by its number, which is read once more after the token was checked.
-/

namespace SoftwareAuthenticator.Ctap

open Cmd

namespace TokenState

theorem Continues.refl (state : TokenState) : state.Continues state :=
  fun token h => ⟨token, h, .refl token⟩

theorem Continues.trans {state state' state'' : TokenState} (h : state.Continues state')
    (h' : state'.Continues state'') : state.Continues state'' := by
  intro token'' hsome
  obtain ⟨token', hsome', hlater⟩ := h' token'' hsome
  obtain ⟨token, hsome₀, hearlier⟩ := h token' hsome'
  exact ⟨token, hsome₀, hearlier.trans hlater⟩

theorem inUseId_observe {state : TokenState} {token : InUseToken} {now : Duration}
    (hin : state.inUse = some token) (hused : token.used = true)
    (htime : now - token.startedAt < maxUsageTimePeriod) :
    (state.observe now).inUseId = some token.id := by
  have hexpired : token.isExpired now = false := by
    simp [InUseToken.isExpired, hused, Nat.not_le_of_lt htime]
  obtain ⟨present, hpresent⟩ := token.clearPresence_eq now
  simp [inUseId, observe, hin, hexpired, hpresent]

end TokenState

/-- A request that keeps the token or stops it, and leaves the PIN state alone. -/
structure UploadStep (app app' : CtapApp) : Prop where
  token : app.pinState.token.Continues app'.pinState.token
  persistent : app'.pinState.persistent = app.pinState.persistent

theorem UploadStep.refl (app : CtapApp) : UploadStep app app := ⟨.refl _, rfl⟩

theorem UploadStep.trans {app app' app'' : CtapApp} (h : UploadStep app app')
    (h' : UploadStep app' app'') : UploadStep app app'' :=
  ⟨h.token.trans h'.token, h'.persistent.trans h.persistent⟩

abbrev Uploading {ε α : Type} (c : EngineM ε α) : Prop :=
  Built (fun _ _ c => ∀ app tr x app', c.Runs app tr x app' → UploadStep app app') ε α c

section Commands

variable {ε α : Type} {c : EngineM ε α} {app app' : CtapApp} {tr : Trace} {x : Except ε α}

theorem Uploading.runs (hc : Uploading c) (h : c.Runs app tr x app') : UploadStep app app' :=
  Built.follows (R := fun app _ app' => UploadStep app app') .refl
    (fun _ _ _ _ _ => .trans) (fun _ _ _ hpart => hpart) hc h

theorem TokenLax.continues (hc : TokenLax c) (h : c.Runs app tr x app') :
    app.pinState.token.Continues app'.pinState.token := by
  have hmoves : Moves EnvOp.isTokenLax
      (fun app app' : CtapApp => app.pinState.token.Continues app'.pinState.token) c :=
    Moves.mono hc (fun _ h => h) fun _ _ h => h.continues
  exact (hmoves.runs (fun _ => .refl _) (fun _ _ _ => .trans) h).1

theorem TokenSteady.uploading (hc : TokenSteady c) : Uploading c := by
  refine Built.mono ?_ hc
  rintro ε α c (⟨op, hop⟩ | ⟨f, hf⟩)
  · refine .part fun app tr x app' h => ?_
    obtain ⟨_, -, -, rfl⟩ := runs_ask.mp h
    exact .refl _
  · refine .part fun app tr x app' h => ?_
    obtain ⟨-, -, rfl⟩ := runs_modify.mp h
    obtain ⟨token, hframe⟩ := (hf app).frame
    refine ⟨(hf app).token, ?_⟩
    rw [hframe]
    rfl

theorem PlainIn.uploading {scope : Scope} (hc : PlainIn scope c) : Uploading c := by
  refine .part fun app tr x app' h => ?_
  have hsame := (hc.confined.runs h).1
  have htoken : app'.pinState.token = app.pinState.token := congrArg Authority.token hsame
  have hpin : app'.pinState.pin = app.pinState.pin := congrArg Authority.pin hsame
  refine ⟨?_, congrArg PinRetryState.persistent hpin⟩
  rw [htoken]
  exact .refl _

theorem Plain.uploading (hc : Plain c) : Uploading c := PlainIn.uploading hc

end Commands

variable {hs : List Happening}

section Requests

variable {trace : Trace} {answer : Except Status Response} {ε : Type}

theorem uploading_now : Uploading (now (ε := ε)) := plain_now.uploading

theorem uploading_pinUvAuthTokenId : Uploading (pinUvAuthTokenId (ε := ε)) :=
  (tokenSteady_observed _).uploading

theorem uploading_discardLargeBlobState :
    Uploading (discardLargeBlobState (ε := ε)) := (plainIn_setLargeBlobState _).uploading

theorem uploading_observeLargeBlobState (command : Option UInt8) :
    Uploading (observeLargeBlobState (ε := ε) command) :=
  built_observeLargeBlobState uploading_now uploading_pinUvAuthTokenId
    uploading_discardLargeBlobState command

theorem uploading_setPendingAssertion (pending : Option PendingAssertion) :
    Uploading (setPendingAssertion (ε := ε) pending) :=
  .part fun app tr x app' h => by
    obtain ⟨-, -, rfl⟩ := runs_modify.mp h
    exact ⟨.refl _, rfl⟩

theorem uploading_beginRequest (command : UInt8) : Uploading (beginRequest command) :=
  .bind (uploading_observeLargeBlobState _) fun _ =>
    built_forgetAssertion (uploading_setPendingAssertion _) _

theorem tokenLax_readPinStateIfUnread : TokenLax readPinStateIfUnread :=
  built_readPinStateIfUnread (pinWork_refreshPersistentAuthority false).tokenQuiet.tokenLax

theorem InUseToken.bindRpId_eq (token : InUseToken) (rpId : String) :
    ∃ bound, token.bindRpId rpId = { token with permissionsRpId := bound } := by
  unfold bindRpId
  split
  · exact ⟨token.permissionsRpId, rfl⟩
  · exact ⟨some rpId, rfl⟩

def EnvOp.isTimeless : EnvOp → Bool
  | .now => false
  | _ => true

abbrev Timeless {ε α : Type} (c : EngineM ε α) : Prop :=
  Confined EnvOp.isTimeless (fun _ : CtapApp => ()) c

variable {app app' : CtapApp}

theorem Timeless.readings {ε α : Type} {c : EngineM ε α} (hc : Timeless c) {tr : Trace}
    {x : Except ε α} (h : c.Runs app tr x app') : readings tr = [] := by
  refine List.filterMap_eq_nil_iff.mpr fun e he => ?_
  have hop := (hc.runs h).2 e he
  obtain ⟨op, res⟩ := e
  cases op with
  | now => cases hop
  | _ => rfl

theorem timeless_askEnv (op : EnvOp) (h : op.isTimeless = true) :
    Timeless (askEnv (ε := ε) op) := .part (MovePart.ask (I := env) op h)

theorem timeless_nextCredential (rpId : String) (ids : List Bytes) :
    Timeless (nextCredential rpId ids) :=
  built_nextCredential (fun id => timeless_askEnv (.store (.get id)) rfl) rpId ids

variable [Externals]

theorem uploading_verifyPinUvAuthParam (protocol : PinProtocol) (message param : Bytes) :
    Uploading (verifyPinUvAuthParam protocol message param) := by
  refine .part fun app tr x app' h => ?_
  rcases runs_bind.mp h with ⟨_, _, state, _, rfl, hobserve, h₁⟩ | ⟨_, -, hobserve⟩
  · have hstep := tokenSteady_observeToken.uploading.runs hobserve
    obtain ⟨time, rfl, heq, rfl⟩ := runs_observeToken hobserve
    cases heq
    refine hstep.trans ?_
    -- What the token becomes depends on what was read of it.
    dsimp only at h₁
    obtain ⟨_, _, ⟨⟩, marked, rfl, hmodify, h₂⟩ := (sure_modify _).runs_then h₁
    obtain ⟨rfl, -, hmarked⟩ := runs_modify.mp hmodify
    have hset : UploadStep (app.mapToken (·.observe time)) marked := by
      rw [hmarked]
      refine ⟨?_, rfl⟩
      rcases (app.pinState.token.observe time).verify_cases protocol message param with
        ⟨status, heq⟩ | ⟨token, htoken, -, -, heq⟩
      · rw [heq]
        exact .refl _
      · rw [heq]
        rintro token' ⟨⟩
        exact ⟨token, htoken, token.continues_used⟩
    refine hset.trans (Uploading.runs ?_ h₂)
    split
    · exact .fail _
    · split
      · exact (tokenSteady_askEnv _ rfl).uploading
      · exact .pure _
  · exact tokenSteady_observeToken.uploading.runs hobserve

theorem uploading_verifyAssertionUser (pinUvAuth : Option (PinProtocol × Bytes))
    (clientHash : Bytes) (rpId : String) :
    Uploading (verifyAssertionUser pinUvAuth clientHash rpId) := by
  refine .bind (.bind (.gets _) fun set => ?_) fun verified => ?_
  · split
    · cases pinUvAuth with
      | none => exact .pure _
      | some auth =>
        exact .bind (uploading_verifyPinUvAuthParam _ _ _) fun _ =>
          .bind (tokenSteady_ensurePinTokenPermissionForRp _ _).uploading fun _ => .pure _
    · exact .pure _
  · split
    · exact .bind uploading_pinUvAuthTokenId fun _ => .pure _
    · exact .pure _

theorem uploading_handleGetNextAssertion : Uploading handleGetNextAssertion :=
  built_handleGetNextAssertion Plain.uploading uploading_pinUvAuthTokenId
    uploading_setPendingAssertion

theorem uploading_authorizeFragment (map : Entries) (offset : ℕ) (fragment : Bytes) :
    Uploading (authorizeFragment map offset fragment) := by
  refine .bind (.ofExcept _) fun auth => ?_
  dsimp only
  split
  · exact .fail _
  · exact .bind (uploading_verifyPinUvAuthParam _ _ _) fun _ =>
      (tokenSteady_ensurePermission _ _).uploading

theorem uploading_handleLargeBlobs (payload : Bytes) : Uploading (handleLargeBlobs payload) :=
  built_handleLargeBlobs PlainIn.uploading uploading_pinUvAuthTokenId uploading_authorizeFragment
    payload

def Request.goesOn : Request → Bool
  | .cbor (command :: _) => command = ctapCmdGetNextAssertion ∨ command = ctapCmdLargeBlobs
  | _ => false

theorem uploadStep_serve (request : Request) (app : CtapApp) (trace : Trace) (reply : Reply)
    (app' : CtapApp) (hrequest : request.goesOn = true)
    (h : (serve request).Runs app trace (.ok reply) app') : UploadStep app app' := by
  match request, hrequest with
  | .cbor (command :: payload), hrequest =>
    obtain ⟨answer, _, _, opened, rfl, rfl, hopen, hhandle⟩ := runs_serve_cbor h
    refine ((uploading_beginRequest command).runs hopen).trans ?_
    rcases of_decide_eq_true hrequest with rfl | rfl
    · exact uploading_handleGetNextAssertion.runs hhandle
    · exact (uploading_handleLargeBlobs payload).runs hhandle

theorem uploadStep_run
    (hall : ∀ h ∈ hs, ∃ request, h.request = some request ∧ request.goesOn = true)
    (hrun : engine.Executes (some app) hs) (hend : engine.run (some app) hs = some app') :
    UploadStep app app' :=
  requests_follow .refl (fun _ _ _ => .trans) uploadStep_serve hall hrun hend

theorem runs_verifyAssertionUser {pinUvAuth : Option (PinProtocol × Bytes)} {clientHash : Bytes}
    {rpId : String} {recorded : Option UInt64} {tr : Trace}
    (h : (verifyAssertionUser pinUvAuth clientHash rpId).Runs app tr (.ok (true, recorded)) app') :
    ∃ (token : InUseToken) (time time' last : Duration), app.pinState.token.inUse = some token ∧
      tr = [⟨.now, time⟩, mark (.verified token.id clientHash), ⟨.now, time'⟩,
        mark (.authorized token.id (.rpOperation permissionGa rpId)), ⟨.now, last⟩] ∧
      (last - token.startedAt < maxUsageTimePeriod → recorded = some token.id) := by
  obtain ⟨_, _, verified, app₃, rfl, hverifies, h₁⟩ := runs_bind_ok.mp h
  split at h₁
  · next hyes =>
    obtain rfl : verified = true := hyes
    obtain ⟨_, _, _, _, rfl, hrecord, h₂⟩ := runs_bind_ok.mp h₁
    obtain ⟨last, rfl, heq, rfl⟩ := runs_observed hrecord
    cases heq
    obtain ⟨rfl, heq, rfl⟩ := runs_pure.mp h₂
    cases heq
    have h₃ := runs_gets_bind.mp hverifies
    split at h₃
    · cases pinUvAuth with
      | none =>
        obtain ⟨-, heq, -⟩ := runs_pure.mp h₃
        cases heq
      | some auth =>
        obtain ⟨protocol, param⟩ := auth
        obtain ⟨_, _, ⟨⟩, checked, rfl, hverify, h₄⟩ := runs_bind_ok.mp h₃
        obtain ⟨_, _, ⟨⟩, _, rfl, hensure, h₅⟩ := runs_bind_ok.mp h₄
        obtain ⟨rfl, -, rfl⟩ := runs_pure.mp h₅
        obtain ⟨time, holder, rfl, hholder, -, -, hused⟩ := runs_verifyPinUvAuthParam hverify
        obtain ⟨time', granted, hgranted, -, -, -, rfl, hbound⟩ :=
          runs_ensurePinTokenPermissionForRp hensure
        obtain ⟨token, present, htoken, -, rfl⟩ :=
          (TokenState.Lasts.refl app.pinState.token).inUse_observe hholder
        obtain ⟨used, present', hsome, -, rfl⟩ :=
          (TokenState.Lasts.refl checked.pinState.token).inUse_observe hgranted
        -- What is recorded is the number of what is left of the token that verified.
        have hused' : used.used = true ∧ used.id = token.id ∧ used.startedAt = token.startedAt := by
          rw [← Option.some.inj (hused.symm.trans hsome)]
          exact ⟨rfl, rfl, rfl⟩
        obtain ⟨hyes, hid, hstarted⟩ := hused'
        obtain ⟨bound, hbind⟩ :=
          ({ used with userPresent := present' } : InUseToken).bindRpId_eq rpId
        rw [hbind] at hbound ⊢
        refine ⟨token, time, time', last, htoken, ?_, fun htime => ?_⟩
        · rw [← hid]
          rfl
        · rw [← hid]
          rw [← hstarted] at htime
          exact Eq.trans (TokenState.inUseId_observe hbound hyes htime) rfl
    · obtain ⟨-, heq, -⟩ := runs_pure.mp h₃
      cases heq
  · obtain ⟨-, heq, -⟩ := runs_pure.mp h₁
    cases heq

theorem AssertionStages.binds {payload : Bytes}
    (stages : AssertionStages payload app trace answer app') (huv : stages.userVerified = true) :
    ∃ (token : InUseToken) (early : Trace) (purpose : Purpose) (last : Duration) (late : Trace),
      app.pinState.token.inUse = some token ∧
      mark (.verified token.id stages.clientHash) ∈ trace ∧
      trace = early ++ mark (.authorized token.id purpose) :: ⟨.now, last⟩ :: late ∧
      (last - token.startedAt < maxUsageTimePeriod → stages.token = some token.id) := by
  have hready : app.pinState.token.Continues stages.ready.pinState.token := by
    obtain ⟨_, _, ⟨⟩, opened, -, hopen, hread⟩ := runs_bind_ok.mp stages.prepares
    exact ((uploading_beginRequest _).runs hopen).token.trans
      (tokenLax_readPinStateIfUnread.continues hread)
  have hverifies := stages.verifies
  rw [huv] at hverifies
  obtain ⟨token, time, time', last, htoken, htrace, hrecorded⟩ := runs_verifyAssertionUser hverifies
  obtain ⟨origin, horigin, hcontinues⟩ := hready token htoken
  rw [hcontinues.startedAt, hcontinues.id] at hrecorded
  rw [hcontinues.id] at htrace
  refine ⟨origin, stages.preparing ++ [⟨.now, time⟩, mark (.verified origin.id stages.clientHash),
    ⟨.now, time'⟩], .rpOperation permissionGa stages.rpId, last,
    stages.locating ++ stages.asking ++ stages.signing, horigin, ?_, ?_, hrecorded⟩
  · have hsub : ∀ e ∈ stages.verifying, e ∈ trace := by
      intro e he
      rw [stages.trace_eq]
      simp [he]
    exact hsub _ (by rw [htrace]; simp)
  · refine stages.trace_eq.trans ?_
    rw [htrace]
    simp

theorem AssertionStages.continues {payload : Bytes}
    (stages : AssertionStages payload app trace answer app') :
    app.pinState.token.Continues app'.pinState.token := by
  obtain ⟨_, _, ⟨⟩, opened, -, hopen, hread⟩ := runs_bind_ok.mp stages.prepares
  have hopened := ((uploading_beginRequest _).runs hopen).token
  have hready := tokenLax_readPinStateIfUnread.continues hread
  have hverified := ((uploading_verifyAssertionUser _ _ _).runs stages.verifies).token
  have hlocated := ((plain_applicableCredentials _ _ _).uploading.runs stages.locates).token
  have hpresent := TokenLax.continues (built_assertionPresence tokenLax_collectPresence _ _ _)
    stages.asks
  have hsigned := (tokenQuiet_assertFirst _ _ _ _ _ _ _ _).tokenLax.continues stages.signs
  exact ((((hopened.trans hready).trans hverified).trans hlocated).trans hpresent).trans hsigned

theorem timeless_nextHmacSecret (pending : PendingAssertion) (credential : CredentialRecord) :
    Timeless (nextHmacSecret pending credential) :=
  built_nextHmacSecret (.bind (timeless_askEnv (.random 16) rfl) fun _ => .pure _) pending credential

theorem timeless_signAssertion (credential : CredentialRecord) (rpId : String)
    (clientHash : Bytes) (userPresent userVerified : Bool) (extensions : Option Bytes) :
    Timeless (signAssertion credential rpId clientHash userPresent userVerified extensions) := by
  refine .bind (built_okOr _ _) fun key => .bind ?_ fun counted =>
    .bind (.bind (timeless_askEnv (.sign _ _ _ _) rfl) fun _ => built_okOr _ _) fun _ => .pure _
  unfold advanceSignatureCounter
  split
  · exact .bind (built_orStatus (timeless_askEnv (.store .signatureCounter) rfl)) fun _ =>
      .bind (built_orStatus (timeless_askEnv (.store (.setSignatureCounter _)) rfl)) fun _ =>
      .pure _
  · exact .bind (built_orStatus (timeless_askEnv (.store (.put _)) rfl)) fun _ => .pure _

/-- The clock is not read between the check of the token and the signature. -/
theorem NextStages.signs_soon {response : AssertionResponse}
    (stages : NextStages app trace (.ok (.assertion response)) app') :
    ∃ quiet late alg key, trace = stages.opening ++ stages.checking ++ quiet ++ late ∧
      readings quiet = [] ∧ (⟨.sign alg key response.authData.bytes stages.pending.clientHash,
        some response.signature⟩ : env.Event) ∈ quiet := by
  obtain ⟨hmac, _, output, _, hsigning, hhmac, h₁⟩ := runs_bind_ok.mp stages.signs
  obtain ⟨extensions, -, h₂⟩ := runs_ofExcept_bind_ok.mp h₁
  obtain ⟨signing, _, ⟨credential, authData, signature⟩, _, rfl, hsign, h₃⟩ :=
    runs_bind_ok.mp h₂
  obtain ⟨remembering, _, ⟨⟩, _, rfl, -, h₄⟩ := runs_bind_ok.mp h₃
  obtain ⟨heq, rfl, rfl⟩ := runs_respondWith h₄
  have hasserts := asserts_of_signed hsign none stages.pending.largeBlobKey
  rw [← Response.assertion.inj heq] at hasserts
  obtain ⟨key, -, hmem⟩ := hasserts.signed
  refine ⟨stages.locating ++ hmac ++ signing, remembering, stages.credential.alg, key, ?_, ?_, ?_⟩
  · refine stages.trace_eq.trans ?_
    rw [hsigning]
    simp
  · rw [readings_append, readings_append, (timeless_nextCredential _ _).readings stages.locates,
      (timeless_nextHmacSecret _ _).readings hhmac, (timeless_signAssertion _ _ _ _ _ _).readings hsign]
    rfl
  · exact List.mem_append_right _ hmem

theorem NextStages.holds (stages : NextStages app trace answer app') {id : UInt64}
    (hid : stages.pending.token = some id) :
    ∃ (token : InUseToken) (time time' : Duration), app.pinState.token.inUse = some token ∧
      stages.checking = [⟨.now, time⟩, ⟨.now, time'⟩] ∧ token.isExpired time' = false := by
  obtain ⟨_, _, time, _, htrace, hnow, h₁⟩ := runs_bind_ok.mp stages.checks
  obtain ⟨_, rfl, heq, rfl⟩ := runs_ask.mp hnow
  cases heq
  split at h₁
  · exact absurd h₁ not_runs_fail_ok
  rw [hid] at h₁
  obtain ⟨_, _, found, _, rfl, hobserve, h₂⟩ := runs_bind_ok.mp h₁
  obtain ⟨time', rfl, heq, rfl⟩ := runs_observed hobserve
  cases heq
  split at h₂
  · exact absurd h₂ not_runs_fail_ok
  · next hsame =>
    obtain ⟨rfl, -, -⟩ := runs_pure.mp h₂
    obtain ⟨found, hfound, -⟩ := Option.map_eq_some_iff.mp (not_not.mp hsame).symm
    obtain ⟨token, _, htoken, hexpired, -⟩ :=
      (opened_beginRequest stages.opens).token.inUse_observe hfound
    exact ⟨token, time, time', htoken, htrace, hexpired⟩

/-- If this is a getAssertion, the token in use has not reached its maximum usage period at the
reading of the clock that follows the check of its permission. -/
def Happening.InTime (h : Happening) (app : CtapApp) : Prop :=
  ∀ payload, h.request = some (.cbor (0x02 :: payload)) →
    ∀ early id purpose (time : Duration) late,
      h.trace = early ++ mark (.authorized id purpose) :: ⟨.now, time⟩ :: late →
      ∀ token, app.pinState.token.inUse = some token →
        time - token.startedAt < maxUsageTimePeriod

def RecordedInTime (hs : List Happening) : Prop :=
  engine.Along (fun s h => ∀ app, s = some app → h.InTime app) none hs

theorem Beginning.token_continues (b : Beginning hs) {app : CtapApp}
    (hrun : engine.Executes none hs) (happ : engine.run none hs = some app) :
    b.app.pinState.token.Continues app.pinState.token := by
  have hall : ∀ h ∈ b.nexts, ∃ request, h.request = some request ∧ request.goesOn = true := by
    intro h hmem
    have hnext := b.isNext h hmem
    unfold Happening.isNext at hnext
    split at hnext
    · exact ⟨_, rfl, decide_eq_true (.inl (of_decide_eq_true hnext))⟩
    · cases hnext
  rw [b.hs_eq] at hrun happ
  obtain ⟨-, -, hnexts⟩ := (engine.along_append _ _ _ _).mp hrun
  rw [engine.run_append] at happ
  exact b.stages.continues.trans (uploadStep_run hall hnexts happ).token

theorem Happening.goesOn_of_set {h : Happening} (hset : h.set.isSome = true) :
    ∃ request, h.request = some request ∧ request.goesOn = true := by
  unfold set at hset
  split at hset
  · next payload hrequest => exact ⟨_, hrequest, rfl⟩
  · cases hset

/-- Along every run whose getAssertion requests are in time, getNextAssertion with the "uv" bit
and, on a protected key, the fragments of an upload go on only while the token that the first
request was verified with is in use and has not run out. -/
theorem boundState_dies_with_token (before after : List Happening) (h : Happening)
    (hrun : engine.Executes none (before ++ h :: after)) (htime : RecordedInTime before) :
    (∀ payload trace response app',
      h = .exchange (.cbor (0x08 :: payload)) trace (.cbor (.ok (.assertion response))) app' →
      response.authData.userVerified = true →
      ∃ (b : Beginning before) (app : CtapApp) (origin token : InUseToken),
        engine.run none before = some app ∧ b.app.pinState.token.inUse = some origin ∧
        mark (.verified origin.id b.stages.clientHash) ∈ b.trace ∧
        app.pinState.token.inUse = some token ∧ origin.Continues token ∧
        ∃ (early quiet late : Trace) (time : Duration) (alg : CoseAlg) (key : CredentialSecretKey),
          trace = early ++ ⟨.now, time⟩ :: quiet ++ late ∧ readings quiet = [] ∧
          token.isExpired time = false ∧
          (⟨.sign alg key response.authData.bytes b.stages.clientHash,
            some response.signature⟩ : env.Event) ∈ quiet) ∧
    ∀ app payload answer app' (stages : FragmentStages payload app h.trace answer app'),
      engine.run none before = some app → h.request = some (.cbor (0x0C :: payload)) →
      stages.offset ≠ 0 → app.isProtected = true →
      ∃ earlier first rest app₀, before = earlier ++ first :: rest ∧
        (∀ x ∈ first :: rest, x.set.isSome = true) ∧ first.isAccepted = true ∧ first.offset = 0 ∧
        (∀ x ∈ rest, x.isAccepted = true → x.offset ≠ 0) ∧
        engine.run none earlier = some app₀ ∧ app₀.isProtected = true ∧
        ∃ origin token : InUseToken, app₀.pinState.token.inUse = some origin ∧
          mark (.verified origin.id (fragmentMessage 0 first.fragment)) ∈ first.trace ∧
          app.pinState.token.inUse = some token ∧ origin.Continues token ∧
          ∃ (early late : Trace) (time time' : Duration), h.trace = early ++ [⟨.now, time⟩,
              mark (.verified token.id (fragmentMessage stages.offset stages.fragment)),
              ⟨.now, time'⟩, mark (.authorized token.id .largeBlobWrite)] ++ late ∧
            token.isExpired time = false ∧ time' - token.startedAt < maxUsageTimePeriod := by
  obtain ⟨hbefore, henabled, -⟩ := (engine.along_append _ _ _ _).mp hrun
  constructor
  · rintro payload trace response app' rfl huv
    obtain ⟨app, happ, hserve⟩ := served_of_enabled henabled
    obtain ⟨_, heq, ⟨⟨_, rfl⟩, -⟩ | ⟨⟨stages⟩⟩⟩ := nextStages_of_runs hserve
    · cases heq
    · cases heq
      obtain ⟨b, hb⟩ := pending_began hbefore happ stages.pending_eq
      have hverified : b.stages.userVerified = true :=
        ((hb.asserts stages).userVerified).symm.trans huv
      -- The getAssertion was in time, so it recorded the number of its token.
      obtain ⟨origin, early, purpose, last, late, horigin, hmark, htrace, hrecorded⟩ :=
        b.stages.binds hverified
      have hin : last - origin.startedAt < maxUsageTimePeriod := by
        rw [RecordedInTime, b.hs_eq] at htime
        obtain ⟨-, hthis, -⟩ := (engine.along_append _ _ _ _).mp htime
        exact hthis b.app b.run_before b.payload rfl early _ purpose last late htrace origin
          horigin
      obtain ⟨token, time, time', htoken, hchecking, hexpired⟩ :=
        stages.holds (hb.token.trans (hrecorded hin))
      obtain ⟨origin', horigin', hcontinues⟩ := b.token_continues hbefore happ token htoken
      obtain rfl := Option.some.inj (horigin.symm.trans horigin')
      obtain ⟨quiet, rest, alg, key, hsplit, hquiet, hsigned⟩ := stages.signs_soon
      refine ⟨b, app, origin, token, happ, horigin, hmark, htoken, hcontinues,
        stages.opening ++ [⟨.now, time⟩], quiet, rest, time', alg, key, ?_, hquiet, hexpired,
        hb.clientHash ▸ hsigned⟩
      rw [hchecking] at hsplit
      refine hsplit.trans ?_
      simp
  · intro app payload answer app' stages happ hrequest hne hprotected
    obtain ⟨-, hnext, -⟩ := stages.later hne
    obtain ⟨earlier, window, hw⟩ := staged_of_run hbefore happ (hnext ▸ hne)
    obtain ⟨first, rest, app₀, payload₀, answer₀, app₁, rfl, happ₀, hrequest₀, origin₀, hzero, -⟩ :=
      hw.begins
    obtain ⟨first', rest', map, fragment, hwindow, haccepted, hset, -, hrest⟩ := hw.collects.starts
    cases hwindow
    -- Between the two there were only set requests.
    have hstep : UploadStep app₀ app := by
      rw [hw.hs_eq] at hbefore happ
      rw [engine.run_append, happ₀] at happ
      obtain ⟨-, hwindow⟩ := (engine.along_append _ _ _ _).mp hbefore
      rw [happ₀] at hwindow
      exact uploadStep_run (fun x hx => Happening.goesOn_of_set (hw.collects.sets x hx)) hwindow happ
    have hprotected₀ : app₀.isProtected = true := by
      rw [← hprotected]
      unfold CtapApp.isProtected
      rw [hstep.persistent]
    obtain ⟨-, -, -, -, time₀, _, origin, horigin, -, -, -, -, -, hauthorizing₀⟩ :=
      origin₀.authenticated hprotected₀
    obtain ⟨-, -, -, -, time, time', token, htoken, hexpired, hmax, -, -, -, hauthorizing⟩ :=
      stages.authenticated hprotected
    obtain ⟨origin', horigin', hcontinues⟩ := hstep.token token htoken
    obtain rfl := Option.some.inj (horigin.symm.trans horigin')
    have hfirst := origin₀.set_eq hrequest₀
    have hfragment : first.fragment = origin₀.fragment := by simp [Happening.fragment, hfirst]
    refine ⟨earlier, first, rest, app₀, hw.hs_eq, hw.collects.sets, haccepted,
      by simp [Happening.offset, hset], hrest, happ₀, hprotected₀, origin, token, horigin, ?_, htoken,
      hcontinues, stages.opening, stages.collecting ++ stages.committing, time, time', ?_, hexpired,
      hmax⟩
    · have hsub : ∀ e ∈ origin₀.authorizing, e ∈ first.trace := by
        intro e he
        rw [origin₀.trace_eq]
        simp [he]
      rw [hfragment, ← hzero]
      exact hsub _ (by rw [hauthorizing₀]; simp)
    · refine stages.trace_eq.trans ?_
      rw [hauthorizing]
      simp

end Requests

section Bench

local instance expiryExternals : Externals :=
  .bench [(getPinTokenPayload, getPinTokenValue), (assertionPayload true, assertionValue true)]

def expiryWorld (n : ℕ) : World :=
  { World.bench benchPinState [benchCredential [5], benchCredential [6]] 0 with
    surroundings := { Surroundings.bench 0 with
      answer := fun given op =>
        match op with
        | .now => if given < n then seconds 0 else maxUsageTimePeriod
        | op => (Surroundings.bench 0).answer given op } }

def expirySession (n : ℕ) : List Happening :=
  (expiryWorld n).session .bench
    [.cbor (0x06 :: getPinTokenPayload), .cbor (0x02 :: assertionPayload true), .cbor [0x08]]

/-- The token runs out after its permission was checked and before its number is recorded:
getNextAssertion still answers with the "uv" bit once no token is in use. -/
theorem expired_token_assertion_goes_on :
    engine.Executes none (expirySession 13) ∧
      (readings (record (expirySession 13))).Pairwise (· ≤ ·) ∧
      (engine.run none ((expirySession 13).take 3)).any
        (fun app => app.pinState.token.inUse = none) = true ∧
      ((expirySession 13).drop 3).any Happening.isVerifiedNext = true :=
  ⟨World.executes_session _ _ _, by decide +kernel, by decide +kernel, by decide +kernel⟩

theorem recordedInTime_of_readings (h : ∀ time ∈ readings (record hs), time = 0) :
    RecordedInTime hs := by
  refine engine.along_of_forall (fun x hx s app _ payload _ early id purpose time late htrace token
    _ => ?_) none
  have hmem : time ∈ readings (record hs) := by
    refine List.mem_filterMap.mpr ⟨⟨.now, time⟩, List.mem_flatMap.mpr ⟨x, hx, ?_⟩, rfl⟩
    rw [htrace]
    simp
  rw [h time hmem, Nat.zero_sub]
  decide

theorem boundState_dies_with_token_getNextAssertion :
    ∃ before h after, expirySession 100 = before ++ h :: after ∧ h.isVerifiedNext = true ∧
      ∃ (b : Beginning before) (app : CtapApp) (origin token : InUseToken),
        engine.run none before = some app ∧ b.app.pinState.token.inUse = some origin ∧
        app.pinState.token.inUse = some token ∧ origin.Continues token := by
  obtain ⟨h, hmem, hverified⟩ := List.any_eq_true.mp
    (show (expirySession 100).any Happening.isVerifiedNext = true by decide +kernel)
  obtain ⟨before, after, hsplit⟩ := List.append_of_mem hmem
  refine ⟨before, h, after, hsplit, hverified, ?_⟩
  have hrun : engine.Executes none (expirySession 100) := World.executes_session _ _ _
  have htime : RecordedInTime (expirySession 100) :=
    recordedInTime_of_readings (by decide +kernel)
  rw [hsplit] at hrun htime
  have hbefore : RecordedInTime before := ((engine.along_append _ _ _ _).mp htime).1
  have hbound := (boundState_dies_with_token before after h hrun hbefore).1
  unfold Happening.isVerifiedNext at hverified
  split at hverified
  · obtain ⟨b, app, origin, token, happ, horigin, -, htoken, hcontinues, -⟩ :=
      hbound [] _ _ _ rfl hverified
    exact ⟨b, app, origin, token, happ, horigin, htoken, hcontinues⟩
  · cases hverified

end Bench

end SoftwareAuthenticator.Ctap
