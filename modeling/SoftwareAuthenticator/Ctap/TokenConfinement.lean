import SoftwareAuthenticator.Ctap.MemoryStore
import SoftwareAuthenticator.Ctap.Tidy
import SoftwareAuthenticator.Ctap.TokenParts

/-!
# The confinement of a token

Along every run a token stays what it was issued as, or less, until the next is issued.
-/

namespace SoftwareAuthenticator.Ctap

open Cmd

variable {past : Trace}

section Runs

variable {token : InUseToken} {ε α : Type} {scope : Scope} {c : EngineM ε α}

theorem TokenTrace.concat_lax (h : TokenTrace token past) {e : env.Event}
    (he : EnvOp.isTokenLax e.op = true) : TokenTrace token (past ++ [e]) :=
  eachAfter_concat.mpr ⟨h, fun _ => tokenEvent_of_isTokenLax token past he⟩

theorem powerUp_held (settings : Settings) :
    Triple (tokenObserver token) (fun _ past => TokenTrace token past) (powerUp settings)
      fun _ app past => app.elim (TokenTrace token past) fun app => Held token app past := by
  refine Triple.bind (M := either (fun loaded _ past => TokenTrace token past ∧
    loaded.1.token.inUse = none) fun _ _ => False) ?_ (fun ⟨pinState, stored⟩ => ?_) fun e =>
    e.elim
  · refine loadPinState_rule (F := fun _ _ past => TokenTrace token past)
      (fun s past found h _ => ?_) (fun s past err h _ => ?_) fun s past err hash h _ => ?_
    · have h' := h.concat_lax (e := ⟨.store .pinState, .ok found⟩) rfl
      exact ⟨h', h', rfl⟩
    · have h' := h.concat_lax (e := ⟨.store .pinState, .error err⟩) rfl
      exact ⟨h', h'⟩
    · have h' := h.concat_lax (e := ⟨.random 16, hash⟩) rfl
      exact ⟨h', h', rfl⟩
  · refine triple_modify ?_
    rintro app past ⟨h, hnone⟩
    refine ⟨h, Or.inr fun token' ht' => ?_⟩
    have := hnone.symm.trans ht'
    cases this

variable [Externals]

theorem BasicPart.held (hc : BasicPart scope ε α c) :
    Keeps (tokenObserver token) (Held token) c := by
  cases hc with
  | plain h => exact h.tokenQuiet.tokenLax.keeps_held
  | setPendingAssertion pending => exact (tokenQuiet_setPendingAssertion _).tokenLax.keeps_held
  | discardLargeBlobState => exact (plainIn_setLargeBlobState _).tokenQuiet.tokenLax.keeps_held
  | observeToken => exact tokenQuiet_observeToken.tokenLax.keeps_held
  | verifyPinUvAuthParam protocol message param => exact verifyPinUvAuthParam_held _ _ _
  | ensurePinTokenPermissionForRp permission rpId => exact ensurePinTokenPermissionForRp_held _ _
  | ensureLargeBlobWrite =>
    refine ensurePermission_held (Or.inr rfl) ?_
    rintro permission rpId ⟨⟩
  | ensureConfig =>
    refine ensurePermission_held (Or.inl rfl) ?_
    rintro permission rpId ⟨⟩
  | cmAuthorize family subcommand params protocol => exact cmAuthorize_held _ _ _ _
  | continueEnumeration auth family rpHash => exact continueEnumeration_held _ _ _
  | refreshPersistentAuthority =>
    exact (pinWork_refreshPersistentAuthority false).tokenQuiet.tokenLax.keeps_held
  | toggleAlwaysUv => exact pinWork_toggleAlwaysUv.tokenQuiet.tokenLax.keeps_held
  | setMinPinLength params => exact (pinWork_setMinPinLength _).tokenQuiet.tokenLax.keeps_held
  | resetAuthenticator => exact pinWork_resetAuthenticator.tokenQuiet.tokenLax.keeps_held

theorem EnginePart.held (hc : EnginePart scope ε α c) :
    Keeps (tokenObserver token) (Held token) c := by
  cases hc with
  | basic h => exact h.held
  | verifyPinHashEnc protocol keys pinHashEnc =>
    exact (pinWork_verifyPinHashEnc _ _ _).tokenQuiet.tokenLax.keeps_held
  | storeNewPin pin hash length => exact (pinWork_storeNewPin _ _ _).tokenQuiet.tokenLax.keeps_held
  | grantPersistentToken protocol keys =>
    exact (pinWork_grantPersistentToken _ _).tokenQuiet.tokenLax.keeps_held
  | issuePinUvAuthToken protocol value grant => exact issuePinUvAuthToken_held _ _ _

theorem serve_held (request : Request) :
    Keeps (tokenObserver token) (Held token) (serve request) := by
  refine Built.keeps (fun ε α c h => ?_) (prompting_serve request).assembled
  cases h with
  | quiet h => exact h.held
  | askUser request => exact (tokenLax_askUser request).keeps_held
  | collectPresence pinUvAuth request => exact (tokenLax_collectPresence _ _).keeps_held

theorem tokenRecord_lasting (token : InUseToken) :
    (Surrounds.recording (TokenTrace token)).Lasting (Held token) (TokenTrace token) where
  start := by
    rintro _ rfl
    exact eachAfter_nil
  serve := serve_held
  powerUp := powerUp_held
  safe_on _ _ h := h.1
  safe_off _ h := h
  stop _ h := h
  loses _ _ _ h := h.elim

end Runs

variable {e : env.Event}

def Approved (past : Trace) : Prop :=
  ∃ request : PresenceRequest,
    (request.operation = .register ∨ request.operation = .authenticate) ∧
      (⟨.confirm request, PresenceOutcome.approved⟩ : env.Event) ∈ past

def NothingLater : Trace → Prop :=
  EachAfter fun past e => Approved past → ∀ id purpose, e ≠ mark (.authorized id purpose)

abbrev presenceObserver : Observer env Trace := .history NothingLater

def Unapproved (_ : CtapApp) (past : Trace) : Prop := ¬ Approved past

/-- Nothing was authorized after an approval, and an approval has spent the token. -/
structure Consumed (app : CtapApp) (past : Trace) : Prop where
  nothingLater : NothingLater past
  spent : Approved past → ∀ token, app.pinState.token.inUse = some token → token.Spent

structure Settled {α : Type} (x : Except Status α) (app : CtapApp) (past : Trace) : Prop where
  nothingLater : NothingLater past
  spent : Approved past → x = .error ctap2ErrCredentialExcluded ∨
    ∀ token, app.pinState.token.inUse = some token → token.Spent

theorem Approved.append (h : Approved past) (more : Trace) : Approved (past ++ more) := by
  obtain ⟨request, hop, hmem⟩ := h
  exact ⟨request, hop, List.mem_append_left _ hmem⟩

theorem approved_concat (h : Approved (past ++ [e])) (he : ∀ request : PresenceRequest,
      request.operation = .register ∨ request.operation = .authenticate →
        e ≠ ⟨.confirm request, PresenceOutcome.approved⟩) : Approved past := by
  obtain ⟨request, hop, hmem⟩ := h
  rcases List.mem_append.mp hmem with hmem | hmem
  · exact ⟨request, hop, hmem⟩
  · exact absurd (List.mem_singleton.mp hmem).symm (he request hop)

theorem not_confirm_of_isPromptless (he : EnvOp.isPromptless e.op = true)
    (request : PresenceRequest) (outcome : PresenceOutcome) : e ≠ ⟨.confirm request, outcome⟩ := by
  rintro rfl
  exact absurd he Bool.false_ne_true

theorem nothingLater_of_not_approved (h : ¬ Approved past) : NothingLater past := by
  rintro pre e post rfl happroved
  exact absurd (happroved.append _) h

theorem NothingLater.concat (h : NothingLater past)
    (he : ∀ id purpose, e ≠ mark (.authorized id purpose)) : NothingLater (past ++ [e]) :=
  eachAfter_concat.mpr ⟨h, fun _ => he⟩

theorem Unapproved.consumed {app : CtapApp} (h : Unapproved app past) : Consumed app past :=
  ⟨nothingLater_of_not_approved h, fun happroved => absurd happroved h⟩

section Presence

variable {ε α β : Type}

theorem Consumed.settled {x : Except Status α} {app : CtapApp} (h : Consumed app past) :
    Settled x app past :=
  ⟨h.nothingLater, fun happroved => Or.inr (h.spent happroved)⟩

theorem Promptless.unapproved {c : EngineM ε α} (hc : Promptless c) :
    Keeps presenceObserver Unapproved c := by
  refine Confined.keeps (P := fun _ past => ¬ Approved past) hc fun _ past e he h _ => ?_
  have h' : ¬ Approved (past ++ [e]) := fun happroved =>
    h (approved_concat happroved fun request _ => not_confirm_of_isPromptless he request _)
  exact ⟨nothingLater_of_not_approved h', h'⟩

theorem TokenQuiet.consumed {c : EngineM ε α} (hc : TokenQuiet c) :
    Keeps presenceObserver Consumed c := by
  refine Moves.keeps hc (fun app app' past hw h => ?_) fun app past e he h _ => ?_
  · refine ⟨h.nothingLater, fun happroved token' ht' => ?_⟩
    obtain ⟨token, ht, hweak⟩ := hw token' ht'
    have hspent := h.spent happroved token ht
    exact ((InUseToken.Descends.refl token).weakens hweak).spent hspent
  · have hlater : NothingLater (past ++ [e]) := by
      refine h.nothingLater.concat ?_
      rintro id purpose rfl
      exact absurd he Bool.false_ne_true
    refine ⟨hlater, hlater, fun happroved => h.spent (approved_concat happroved ?_)⟩
    rintro request - rfl
    exact absurd he Bool.false_ne_true

theorem Promptless.settles {c : EngineM Status α} {f : α → EngineM Status β} (hc : Promptless c)
    (hf : ∀ a, Triple presenceObserver Unapproved (f a) Settled) :
    Triple presenceObserver Unapproved (c >>= f) Settled :=
  hc.unapproved.bind hf fun _ _ _ h => h.consumed.settled

theorem askUser_approved (request : PresenceRequest) :
    Triple presenceObserver Unapproved (askUser (ε := ε) request)
      (either (fun outcome _ past => NothingLater past ∧
        (Approved past → outcome = .approved ∧
          (request.operation = .register ∨ request.operation = .authenticate))) Unapproved) := by
  have hask : ∀ op : EnvOp, op.isPromptless = true →
      Triple presenceObserver Unapproved (askEnv (ε := ε) op)
        (either (fun _ => Unapproved) Unapproved) := fun op hop =>
    (Promptless.unapproved (.part (MovePart.ask (I := env) op hop))).both
  refine (hask .isCancelled rfl).andThen fun cancelled => ?_
  split
  · exact triple_pure fun app past h =>
      ⟨nothingLater_of_not_approved h, fun happroved => absurd happroved h⟩
  · refine (hask (.keepalive true) rfl).andThen fun _ => Triple.andThen
      (M := fun outcome app past => NothingLater past ∧ (Approved past → outcome = .approved ∧
        (request.operation = .register ∨ request.operation = .authenticate))) ?_ fun outcome => ?_
    · refine triple_ask fun app past outcome h _ => ?_
      have hlater : NothingLater (past ++ [⟨.confirm request, outcome⟩]) := by
        refine (nothingLater_of_not_approved h).concat ?_
        rintro id purpose ⟨⟩
      refine ⟨hlater, hlater, fun ⟨request', hop, hmem⟩ => ?_⟩
      rcases List.mem_append.mp hmem with hmem | hmem
      · exact absurd ⟨request', hop, hmem⟩ h
      · have heq := List.mem_singleton.mp hmem
        cases heq
        exact ⟨rfl, hop⟩
    · refine Triple.andThen (M := fun _ app past => NothingLater past ∧
        (Approved past → outcome = .approved ∧
          (request.operation = .register ∨ request.operation = .authenticate))) ?_ fun _ =>
        triple_pure fun app past h => h
      refine triple_ask ?_
      rintro app past ⟨⟩ ⟨h, hout⟩ -
      have hlater : NothingLater (past ++ [⟨.keepalive false, ()⟩]) := by
        refine h.concat ?_
        rintro id purpose ⟨⟩
      refine ⟨hlater, hlater, fun happroved => hout (approved_concat happroved ?_)⟩
      rintro request' - ⟨⟩

theorem confirmUserPresence_approved (request : PresenceRequest) :
    Triple presenceObserver Unapproved (confirmUserPresence request)
      (either (fun _ _ past => NothingLater past) Unapproved) := by
  refine (askUser_approved request).andThen fun outcome => triple_ofExcept ?_
  rintro app past ⟨hlater, hout⟩
  cases hstatus : presenceStatus request.operation outcome with
  | ok u => exact hlater
  | error status =>
    intro happroved
    rw [(hout happroved).1] at hstatus
    cases hstatus

theorem collectPresence_consumed (pinUvAuth : Option (PinProtocol × Bytes))
    (request : PresenceRequest) :
    Triple presenceObserver Unapproved (collectPresence pinUvAuth request)
      (either (fun _ => Consumed) Unapproved) := by
  refine (tokenSteady_tokenPresence pinUvAuth).promptless.unapproved.both.andThen
    fun present => Triple.andThen (M := fun _ _ past => NothingLater past) ?_ fun _ => ?_
  · refine Triple.when (fun _ => confirmUserPresence_approved request) fun _ app past h => ?_
    exact nothingLater_of_not_approved h
  · refine Triple.andThen (M := fun _ _ past => NothingLater past)
      (observeToken_rule fun app past time h _ => ?_) fun _ => triple_modify ?_
    · have h' : NothingLater (past ++ [⟨.now, time⟩]) := by
        refine h.concat ?_
        rintro id purpose ⟨⟩
      exact ⟨h', h'⟩
    · refine fun app past h => ⟨h, fun _ token' ht' => ?_⟩
      obtain ⟨token, -, rfl⟩ := Option.map_eq_some_iff.mp ht'
      exact token.spent_consume

theorem refuseExcluded_settles (pinUvAuth : Option (PinProtocol × Bytes))
    (request : PresenceRequest) :
    Triple presenceObserver Unapproved (refuseExcluded pinUvAuth request) Settled := by
  refine (tokenSteady_tokenPresence pinUvAuth).promptless.settles fun present => ?_
  split
  · exact triple_fail fun app past h => h.consumed.settled
  · refine (confirmUserPresence_approved request).attemptThen fun outcome => ?_
    cases outcome with
    | ok u => exact triple_fail fun app past h => ⟨h, fun _ => Or.inl rfl⟩
    | error status => exact triple_fail fun app past h => h.consumed.settled

theorem selectForPinUvAuth_unapproved :
    Triple presenceObserver Unapproved (selectForPinUvAuth (ε := ε))
      (either (fun _ => Unapproved) Unapproved) := by
  refine Triple.andThen (M := fun _ => Unapproved) (triple_gets fun app past h => h)
    fun timeout => Triple.andThen (M := fun _ => Unapproved) ?_ fun outcome => ?_
  · refine (askUser_approved _).outcome (fun outcome app past h happroved => ?_)
      fun _ _ _ h => h
    rcases (h.2 happroved).2 with hop | hop
    · cases hop
    · cases hop
  · have hrest : ∀ status : Status, Triple presenceObserver Unapproved
        (pure status : EngineM ε Status) (either (fun _ => Unapproved) Unapproved) :=
      fun status => triple_pure fun app past h => h
    cases outcome with
    | approved =>
      exact Triple.andThen (M := fun _ => Unapproved) (triple_gets fun app past h => h)
        fun isSet => hrest _
    | denied | timedOut | cancelled => exact hrest _

end Presence

section Handlers

theorem TokenQuiet.settles {α : Type} {c : EngineM Status α} (hc : TokenQuiet c) :
    Triple presenceObserver Consumed c Settled :=
  hc.consumed.strengthen fun _ _ _ h => h.settled

theorem assertionPresence_consumed (rpId : String) (choices : AssertionChoices)
    (applicable : List CredentialRecord) :
    Triple presenceObserver Unapproved (assertionPresence rpId choices applicable)
      (either (fun _ => Consumed) Unapproved) := by
  unfold assertionPresence
  split
  · exact Triple.andThen (M := fun _ => Unapproved) (triple_gets fun app past h => h)
      fun timeout => (collectPresence_consumed _ _).andThen fun _ =>
      triple_pure fun app past h => h
  · split
    · exact triple_fail fun app past h => h
    · exact triple_pure fun app past h => h.consumed

theorem tokenQuiet_rememberAssertion (pending : Duration → PendingAssertion)
    (remaining : List Bytes) : TokenQuiet (rememberAssertion pending remaining) :=
  built_rememberAssertion plain_now.tokenQuiet tokenQuiet_setPendingAssertion pending remaining

variable [Externals]

theorem tokenQuiet_assertFirst (rpId : String) (clientHash : Bytes) (choices : AssertionChoices)
    (userPresent userVerified : Bool) (token : Option UInt64) (credential : CredentialRecord)
    (rest : List CredentialRecord) :
    TokenQuiet (assertFirst rpId clientHash choices userPresent userVerified token credential
      rest) :=
  .bind (.ofExcept _) fun _ => .bind (plain_assertionHmacSecret _ _ _).tokenQuiet fun _ =>
    .bind (.ofExcept _) fun _ => .bind (plain_signAssertion _ _ _ _ _ _).tokenQuiet fun _ =>
    .bind (tokenQuiet_rememberAssertion _ _) fun _ => built_respondWith _

theorem handleMakeCredential_settles (payload : Bytes) :
    Triple presenceObserver Unapproved (handleMakeCredential payload) Settled := by
  refine Promptless.settles (.ofExcept _) fun map => Promptless.settles (.ofExcept _)
    fun registration => composed_readPinStateIfUnread.promptless.settles fun _ => ?_
  split
  · refine selectForPinUvAuth_unapproved.bind (fun status => ?_) fun e app past h =>
      h.consumed.settled
    exact triple_fail fun app past h => h.consumed.settled
  · refine Promptless.settles (.ofExcept _) fun choices =>
      (composed_authorizeRegistration _ _ _).promptless.settles fun authorized =>
      Promptless.settles (.gets _) fun timeout =>
      (plain_findExcluded _ _ _).composed.promptless.settles fun excluded => ?_
    split
    · exact refuseExcluded_settles _ _
    · exact (collectPresence_consumed _ _).bind
        (fun _ => (plain_registerCredential _ _ _ _ _ _).tokenQuiet.settles)
        fun e app past h => h.consumed.settled

theorem handleGetAssertion_settles (payload : Bytes) :
    Triple presenceObserver Unapproved (handleGetAssertion payload) Settled := by
  refine Promptless.settles (.ofExcept _) fun map => Promptless.settles (.ofExcept _)
    fun rpId => Promptless.settles (.ofExcept _) fun clientHash =>
    composed_readPinStateIfUnread.promptless.settles fun _ => ?_
  split
  · refine selectForPinUvAuth_unapproved.bind (fun status => ?_) fun e app past h =>
      h.consumed.settled
    exact triple_fail fun app past h => h.consumed.settled
  · refine Promptless.settles (.ofExcept _) fun choices => Promptless.settles (.gets _)
      fun persistent => ?_
    split
    · exact triple_fail fun app past h => h.consumed.settled
    · refine (composed_verifyAssertionUser _ _ _).promptless.settles fun verified =>
        (plain_applicableCredentials _ _ _).composed.promptless.settles fun applicable => ?_
      split
      · exact triple_fail fun app past h => h.consumed.settled
      · exact (assertionPresence_consumed _ _ _).bind
          (fun _ => (tokenQuiet_assertFirst _ _ _ _ _ _ _ _).settles)
          fun e app past h => h.consumed.settled

def Request.isRpOperation : Request → Bool
  | .cbor (command :: _) => command = 0x01 ∨ command = 0x02
  | _ => false

theorem call_settles {command : UInt8} (hcommand : command = 0x01 ∨ command = 0x02)
    (payload : Bytes) :
    Triple presenceObserver Unapproved (call (command :: payload)) Settled := by
  refine (composed_observeLargeBlobState _).promptless.settles fun _ =>
    (composed_forgetAssertion _).promptless.settles fun _ => ?_
  rcases hcommand with rfl | rfl
  · exact handleMakeCredential_settles payload
  · exact handleGetAssertion_settles payload

theorem serve_settles {request : Request} (h : request.isRpOperation = true) :
    Triple presenceObserver Unapproved (serve request) fun x app past =>
      NothingLater past ∧ ∀ reply, x = .ok reply →
        reply ≠ .cbor (.error ctap2ErrCredentialExcluded) → Approved past →
        ∀ token, app.pinState.token.inUse = some token → token.Spent := by
  match request, h with
  | .cbor (command :: payload), h =>
    refine (call_settles (of_decide_eq_true h) payload).attemptThen fun answer =>
      triple_pure fun app past hsettled => ⟨hsettled.nothingLater, ?_⟩
    rintro reply ⟨⟩ hexcluded happroved
    refine (hsettled.spent happroved).resolve_left fun heq => hexcluded ?_
    rw [heq]

end Handlers

section Confinement

/-- Nothing but large-blob writes is authorized until the next token is issued. -/
def OnlyLargeBlobs : Trace → Prop :=
  EachAfter fun past e => ¬ Issued past → ∀ id purpose, e = mark (.authorized id purpose) →
    purpose = .largeBlobWrite

theorem onlyLargeBlobs_of_tokenTrace {token : InUseToken} (hs : token.Spent)
    (h : TokenTrace token past) : OnlyLargeBlobs past :=
  h.mono fun _ _ hevent hissued id purpose heq => ((hevent hissued).authorized id purpose heq).2 hs

variable [Externals]

variable {s : Option CtapApp}

/-- A makeCredential or getAssertion that the user approved in `early`, unless it ended
with CTAP2_ERR_CREDENTIAL_EXCLUDED. -/
def Happening.Collects (h : Happening) (early : Trace) : Prop :=
  Approved early ∧ match h with
    | .exchange request _ reply _ =>
      request.isRpOperation = true ∧ reply ≠ .cbor (.error ctap2ErrCredentialExcluded)
    | .cutRequest request _ => request.isRpOperation = true
    | _ => False

/-- From where every token in use is spent, only large blobs are authorized. -/
theorem onlyLargeBlobs_of_spent {hs : List Happening}
    (hspent : ∀ app token, s = some app → app.pinState.token.inUse = some token → token.Spent)
    (hrun : engine.Executes s hs) : OnlyLargeBlobs (record hs) := by
  have run : ∀ token : InUseToken, token.Spent →
      Throughout (Held token) (TokenTrace token) (s, []) → OnlyLargeBlobs (record hs) := by
    intro token htoken hstart
    have hend := (tokenRecord_lasting token).recorded hstart hrun
    rw [List.nil_append] at hend
    exact onlyLargeBlobs_of_tokenTrace htoken ((tokenRecord_lasting token).safe hend)
  -- Where no token is in use, any spent token will do to compare with.
  let nobody : InUseToken := ⟨[], .v1, none, 0, none, 0, 0, false, false, false⟩
  have hnobody : nobody.Spent := ⟨UInt8.zero_and, rfl, rfl⟩
  cases s with
  | none => exact run nobody hnobody eachAfter_nil
  | some app =>
    cases hin : app.pinState.token.inUse with
    | none =>
      refine run nobody hnobody ⟨eachAfter_nil, Or.inr fun token' ht' => ?_⟩
      rw [hin] at ht'
      cases ht'
    | some token =>
      refine run token (hspent app token rfl hin) ⟨eachAfter_nil, Or.inr fun token' ht' => ?_⟩
      rw [hin] at ht'
      obtain rfl := Option.some.inj ht'
      exact .refl token

theorem nothingLater_trace {h : Happening} {early : Trace} (hh : engine.enabled s h)
    (hcollects : h.Collects early) : NothingLater h.trace := by
  have hstart : ∀ app, Unapproved app [] := fun app ⟨request, _, hmem⟩ => by cases hmem
  obtain ⟨-, hkind⟩ := hcollects
  cases possible_of_enabled hh with
  | exchange hrun =>
    have := ((serve_settles hkind.1).runs (hstart _) hrun (Observer.history_admits _ _)).1
    rwa [Observer.history_after] at this
  | cutRequest hreach =>
    have := (serve_settles hkind).reaches (hstart _) eachAfter_nil hreach
      (Observer.history_admits _ _)
    rwa [Observer.history_after] at this
  | powerUp | cutPowerUp | powerOff => exact hkind.elim

theorem spent_of_collects {h : Happening} {early late : Trace} (hh : engine.enabled s h)
    (htrace : h.trace = early ++ late) (hcollects : h.Collects early) (app : CtapApp)
    (token : InUseToken) (hstep : engine.step s h = some app)
    (hin : app.pinState.token.inUse = some token) : token.Spent := by
  have hstart : ∀ app, Unapproved app [] := fun app ⟨request, _, hmem⟩ => by cases hmem
  obtain ⟨happroved, hkind⟩ := hcollects
  cases possible_of_enabled hh with
  | exchange hrun =>
    obtain rfl := Option.some.inj hstep
    have hafter := ((serve_settles hkind.1).runs (hstart _) hrun
      (Observer.history_admits _ _)).2 _ rfl hkind.2
    rw [Observer.history_after, List.nil_append] at hafter
    have hlate := happroved.append late
    rw [← htrace] at hlate
    exact hafter hlate token hin
  | cutRequest _ => cases hstep
  | powerUp | cutPowerUp | powerOff => exact hkind.elim

/-- Along every run from a state with a token in use: until the next issuance only this token
verifies and authorizes, in time and for one relying party; and after a makeCredential or
getAssertion that the user approved, unless a credential was excluded, only large-blob writes. -/
theorem token_confined (app : CtapApp) (token : InUseToken)
    (hin : app.pinState.token.inUse = some token) (hs : List Happening)
    (hrun : engine.Executes (some app) hs) :
    TokenTrace token (record hs) ∧
    (¬ Issued (record hs) → ∀ app' token', engine.run (some app) hs = some app' →
      app'.pinState.token.inUse = some token' → token.Descends (record hs) token') ∧
    ∀ before h after, hs = before ++ h :: after → ∀ early late, h.trace = early ++ late →
      h.Collects early → OnlyLargeBlobs (late ++ record after) := by
  have hstart : Throughout (Held token) (TokenTrace token) (some app, []) := by
    refine ⟨eachAfter_nil, Or.inr fun token' ht' => ?_⟩
    rw [hin] at ht'
    obtain rfl := Option.some.inj ht'
    exact .refl token
  have hend := (tokenRecord_lasting token).recorded hstart hrun
  rw [List.nil_append] at hend
  refine ⟨(tokenRecord_lasting token).safe hend, fun hissued app' token' happ' ht' => ?_, ?_⟩
  · rw [happ'] at hend
    exact hend.2.resolve_left hissued token' ht'
  · rintro before h after rfl early late htrace hcollects
    obtain ⟨-, hh, hafter⟩ := (engine.along_append _ _ _ _).mp hrun
    have hlate := nothingLater_trace hh hcollects
    rw [htrace] at hlate
    refine eachAfter_append.mpr ⟨(eachAfter_append.mp hlate).2.mono ?_, ?_⟩
    · intro pre e hnothing _ id purpose heq
      exact absurd heq (hnothing (hcollects.1.append pre) id purpose)
    · refine (onlyLargeBlobs_of_spent (spent_of_collects hh htrace hcollects) hafter).mono ?_
      exact fun pre e honly hissued => honly fun hissued' => hissued <| by
        obtain ⟨id, hmem⟩ := hissued'
        exact ⟨id, List.mem_append_right _ hmem⟩

end Confinement

section Bench

def approves : env.Event → Bool
  | ⟨.confirm request, .approved⟩ =>
    request.operation = .register ∨ request.operation = .authenticate
  | _ => false

theorem approved_of_any (h : past.any approves = true) : Approved past := by
  obtain ⟨e, hmem, he⟩ := List.any_eq_true.mp h
  unfold approves at he
  split at he
  · rename_i request
    exact ⟨request, of_decide_eq_true he, hmem⟩
  · cases he

def Phase.isIssuance : Phase → Bool
  | .token _ => true
  | _ => false

theorem not_issued_of_any (h : past.any (isMark Phase.isIssuance) = false) : ¬ Issued past := by
  rintro ⟨id, hmem⟩
  rw [any_isMark.mpr ⟨.token id, rfl, hmem⟩] at h
  cases h

def Phase.isRegistration (phase : Phase) : Bool :=
  phase = .authorized benchToken.id (.rpOperation permissionMc "a")

local instance registrationExternals : Externals :=
  .bench [(registrationPayload (some 5), registrationValue (some 5)),
    (registrationPayload none, registrationValue none)]

def registrations : List Happening :=
  (World.bench { PinStateRecord.initial with pinHash := some (List.replicate 16 9) }
    [benchCredential [5]] 0).exchanges
    (.benchWithToken { PinStateRecord.initial with pinHash := some (List.replicate 16 9) })
    [.cbor (0x01 :: registrationPayload (some 5)), .cbor (0x01 :: registrationPayload none)]

/-- The user approves the first makeCredential, which ends because a credential is
excluded; with the same token the second is then authorized. -/
theorem excluded_registration_keeps_token :
    (∃ app, app.pinState.token.inUse = some benchToken ∧
      engine.Executes (some app) registrations) ∧
    Approved (record (registrations.take 1)) ∧
    ¬ OnlyLargeBlobs (record (registrations.drop 1)) := by
  refine ⟨⟨_, rfl, World.executes_exchanges _ _ _⟩, approved_of_any (by decide +kernel), ?_⟩
  intro honly
  obtain ⟨phase, hphase, hmem⟩ := any_isMark.mp
    (show (record (registrations.drop 1)).any (isMark Phase.isRegistration) = true by
      decide +kernel)
  obtain ⟨pre, post, hsplit⟩ := List.append_of_mem hmem
  have hnone : ¬ Issued (record (registrations.drop 1)) := not_issued_of_any (by decide +kernel)
  have hissued : ¬ Issued pre := by
    intro hissued
    rw [hsplit] at hnone
    exact hnone (hissued.append _)
  rw [of_decide_eq_true hphase] at hsplit
  have := honly pre _ post hsplit hissued _ _ rfl
  cases this

theorem token_confined_registrations :
    (record registrations).any (isMark Phase.isRegistration) = true ∧
      TokenTrace benchToken (record registrations) := by
  refine ⟨by decide +kernel, ?_⟩
  exact (token_confined (.benchWithToken { PinStateRecord.initial with
    pinHash := some (List.replicate 16 9) }) benchToken rfl registrations
    (World.executes_exchanges _ _ _)).1

end Bench

end SoftwareAuthenticator.Ctap
