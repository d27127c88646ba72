import SoftwareAuthenticator.Ctap.UserVerification
import SoftwareAuthenticator.Ctap.TokenMoves

/-!
# User presence

A request turns to the user at most once. The responses that say the user was present go back to
one prompt that was approved, for that operation and relying party.
-/

namespace SoftwareAuthenticator.Ctap

open Cmd

variable {tr tr' turn : Trace}

def EnvOp.concernsUser : EnvOp → Bool
  | .isCancelled | .keepalive _ | .confirm _ => true
  | _ => false

def prompts (trace : Trace) : List (PresenceRequest × PresenceOutcome) :=
  trace.filterMap fun
    | ⟨.confirm request, outcome⟩ => some (request, outcome)
    | _ => none

def Quiet (trace : Trace) : Prop := ∀ e ∈ trace, EnvOp.concernsUser e.op = false

def promptEvents (request : PresenceRequest) (outcome : PresenceOutcome) : Trace :=
  [⟨.isCancelled, false⟩, ⟨.keepalive true, ()⟩, ⟨.confirm request, outcome⟩,
    ⟨.keepalive false, ()⟩]

inductive Turn : Trace → Prop
  | none : Turn []
  | cancelled : Turn [⟨.isCancelled, true⟩]
  | prompted (request : PresenceRequest) (outcome : PresenceOutcome) :
      Turn (promptEvents request outcome)

/-- The trace has `turn` in it, and else nothing that concerns the user. -/
def Around (turn trace : Trace) : Prop :=
  ∃ early late, trace = early ++ turn ++ late ∧ Quiet early ∧ Quiet late

def TurnsOnce (trace : Trace) : Prop := ∃ turn, Turn turn ∧ Around turn trace

theorem quiet_nil : Quiet [] := by
  simp [Quiet]

theorem Quiet.append (h : Quiet tr) (h' : Quiet tr') : Quiet (tr ++ tr') := by
  intro e he
  rcases List.mem_append.mp he with he | he
  · exact h e he
  · exact h' e he

theorem around_self (turn : Trace) : Around turn turn :=
  ⟨[], [], by simp, quiet_nil, quiet_nil⟩

theorem Around.of_eq (h : Around turn tr) (heq : tr' = tr) : Around turn tr' := by
  rw [heq]
  exact h

theorem Around.after (h : Around turn tr') (hquiet : Quiet tr) : Around turn (tr ++ tr') := by
  obtain ⟨early, late, rfl, hearly, hlate⟩ := h
  exact ⟨tr ++ early, late, by simp, hquiet.append hearly, hlate⟩

theorem Around.before (h : Around turn tr) (hquiet : Quiet tr') : Around turn (tr ++ tr') := by
  obtain ⟨early, late, rfl, hearly, hlate⟩ := h
  exact ⟨early, late ++ tr', by simp, hearly, hlate.append hquiet⟩

theorem Quiet.turnsOnce (h : Quiet tr) : TurnsOnce tr :=
  ⟨[], .none, tr, [], by simp, h, quiet_nil⟩

theorem Quiet.prompts (h : Quiet tr) : prompts tr = [] := by
  refine List.filterMap_eq_nil_iff.mpr ?_
  rintro ⟨op, res⟩ he
  cases op with
  | confirm request => cases h _ he
  | _ => rfl

theorem prompts_append (tr tr' : Trace) : prompts (tr ++ tr') = prompts tr ++ prompts tr' :=
  List.filterMap_append

theorem Around.prompts (h : Around turn tr) : Ctap.prompts tr = Ctap.prompts turn := by
  obtain ⟨early, late, rfl, hearly, hlate⟩ := h
  rw [prompts_append, prompts_append, hearly.prompts, hlate.prompts]
  simp

theorem TurnsOnce.length_prompts (h : TurnsOnce tr) : (prompts tr).length ≤ 1 := by
  obtain ⟨turn, hturn, haround⟩ := h
  rw [haround.prompts]
  cases hturn with
  | none | cancelled => exact Nat.zero_le _
  | prompted request outcome => exact Nat.le_refl _

variable {request : PresenceRequest}

/-- Right before a prompt, and never earlier, the platform was asked whether it has
cancelled the request. -/
theorem TurnsOnce.before_prompt {early late : Trace} {outcome : PresenceOutcome}
    (h : TurnsOnce (early ++ (⟨.confirm request, outcome⟩ : env.Event) :: late)) :
    ∃ quiet, early = quiet ++ [⟨.isCancelled, false⟩, ⟨.keepalive true, ()⟩] ∧ Quiet quiet := by
  obtain ⟨turn, hturn, first, last, heq, hfirst, hlast⟩ := h
  -- The prompt is an event of the turn, because the rest does not concern the user.
  have hshown : ∃ shown, early = first ++ shown ∧
      turn ++ last = shown ++ (⟨.confirm request, outcome⟩ : env.Event) :: late := by
    rw [List.append_assoc] at heq
    rcases List.append_eq_append_iff.mp heq.symm with ⟨shown, hearly, hrest⟩ | ⟨more, hmore, hrest⟩
    · exact ⟨shown, hearly, hrest⟩
    · cases more with
      | nil => exact ⟨[], by simpa using hmore.symm, by simpa using hrest.symm⟩
      | cons e more =>
        obtain ⟨rfl, -⟩ := List.cons.inj hrest
        have hmem : (⟨.confirm request, outcome⟩ : env.Event) ∈ first := by simp [hmore]
        cases hfirst _ hmem
  obtain ⟨shown, rfl, hshown⟩ := hshown
  have hnot : ∀ pre, last ≠ pre ++ (⟨.confirm request, outcome⟩ : env.Event) :: late := by
    rintro pre rfl
    cases hlast ⟨.confirm request, outcome⟩ (by simp)
  cases hturn with
  | none => exact absurd hshown (hnot shown)
  | cancelled =>
    cases shown with
    | nil => cases hshown
    | cons e shown => exact absurd (List.cons.inj hshown).2 (hnot shown)
  | prompted request' outcome' =>
    match shown with
    | [] => cases hshown
    | [_] => cases hshown
    | [_, _] =>
      cases hshown
      exact ⟨first, rfl, hfirst⟩
    | [_, _, _] => cases hshown
    | _ :: _ :: _ :: _ :: pre =>
      obtain ⟨-, hrest⟩ := List.cons.inj hshown
      obtain ⟨-, hrest⟩ := List.cons.inj hrest
      obtain ⟨-, hrest⟩ := List.cons.inj hrest
      exact absurd (List.cons.inj hrest).2 (hnot pre)

/-- Exactly one prompt was shown, for this operation and relying party, and it was
approved. -/
def Consented (trace : Trace) (operation : PresenceOperation) (rpId : Option String) : Prop :=
  ∃ request, prompts trace = [(request, .approved)] ∧ request.operation = operation ∧
    request.rpId = rpId

theorem Around.consented {trace : Trace} (h : Around (promptEvents request .approved) trace) :
    Consented trace request.operation request.rpId :=
  ⟨request, h.prompts, rfl, rfl⟩

theorem Consented.after {operation : PresenceOperation} {rpId : Option String}
    (h : Consented tr' operation rpId) (hquiet : Quiet tr) :
    Consented (tr ++ tr') operation rpId := by
  obtain ⟨request, hprompts, hoperation⟩ := h
  refine ⟨request, ?_, hoperation⟩
  rw [prompts_append, hquiet.prompts]
  exact hprompts

abbrev Discreet {ε α : Type} (c : EngineM ε α) : Prop :=
  Confined (fun op => !EnvOp.concernsUser op) (fun _ : CtapApp => ()) c

def AsksOnce {ε α : Type} (c : EngineM ε α) : Prop :=
  ∀ app tr x app', c.Runs app tr x app' → TurnsOnce tr

variable {app app' : CtapApp}

section Basic

variable {ε α β : Type} {scope : Scope} {c : EngineM ε α} {f : α → EngineM ε β}

theorem Discreet.quiet (hc : Discreet c) {tr : Trace} {x : Except ε α} (h : c.Runs app tr x app') :
    Quiet tr := by
  intro e he
  have hop := (hc.runs h).2 e he
  simpa using hop

theorem Tidy.discreet (hc : Tidy scope c) : Discreet c := by
  refine Moves.mono hc (fun op h => ?_) fun _ _ _ => rfl
  cases op with
  | isCancelled | keepalive | confirm => exact h
  | _ => rfl

theorem Plain.discreet (hc : Plain c) : Discreet c :=
  Tidy.discreet (Plain.tidy hc : Tidy .nothing c)

theorem TokenSteady.discreet (hc : TokenSteady c) : Discreet c :=
  Tidy.discreet (TokenSteady.tidy hc : Tidy .nothing c)

theorem Discreet.asksOnce (hc : Discreet c) : AsksOnce c :=
  fun _ _ _ _ h => (hc.quiet h).turnsOnce

theorem AsksOnce.after (hc : Discreet c) (hf : ∀ a, AsksOnce (f a)) : AsksOnce (c >>= f) := by
  intro app tr x app' h
  rcases runs_bind.mp h with ⟨tr₁, tr₂, a, app₁, rfl, h₁, h₂⟩ | ⟨e, rfl, h₁⟩
  · obtain ⟨turn, hturn, haround⟩ := hf a _ _ _ _ h₂
    exact ⟨turn, hturn, haround.after (hc.quiet h₁)⟩
  · exact (hc.quiet h₁).turnsOnce

theorem AsksOnce.before (hc : AsksOnce c) (hf : ∀ a, Discreet (f a)) : AsksOnce (c >>= f) := by
  intro app tr x app' h
  rcases runs_bind.mp h with ⟨tr₁, tr₂, a, app₁, rfl, h₁, h₂⟩ | ⟨e, rfl, h₁⟩
  · obtain ⟨turn, hturn, haround⟩ := hc _ _ _ _ h₁
    exact ⟨turn, hturn, haround.before ((hf a).quiet h₂)⟩
  · exact hc _ _ _ _ h₁

theorem AsksOnce.attempt {ε' : Type} (hc : AsksOnce c) :
    AsksOnce (c.attempt : EngineM ε' (Except ε α)) := by
  intro app tr x app' h
  obtain ⟨y, -, h₁⟩ := runs_attempt.mp h
  exact hc _ _ _ _ h₁

theorem AsksOnce.when {p : Bool} {c : EngineM ε Unit} (hc : AsksOnce c) :
    AsksOnce (Cmd.when p c) := by
  cases p with
  | true => exact hc
  | false => exact Discreet.asksOnce (.pure ())

end Basic

theorem runs_askUser {ε : Type} {tr : Trace} {x : Except ε PresenceOutcome}
    (h : (askUser request).Runs app tr x app') :
    app' = app ∧ ((x = .ok .cancelled ∧ tr = [⟨.isCancelled, true⟩]) ∨
      ∃ outcome, x = .ok outcome ∧ tr = promptEvents request outcome) := by
  rcases runs_bind.mp h with ⟨_, _, cancelled, _, rfl, hask, h₁⟩ | ⟨_, -, hask⟩
  · obtain ⟨_, rfl, heq, rfl⟩ := runs_ask.mp hask
    cases heq
    cases cancelled with
    | true =>
      obtain ⟨rfl, rfl, rfl⟩ := runs_pure.mp h₁
      exact ⟨rfl, .inl ⟨rfl, rfl⟩⟩
    | false =>
      rcases runs_bind.mp h₁ with ⟨_, _, ⟨⟩, _, rfl, hwait, h₂⟩ | ⟨_, -, hwait⟩
      · obtain ⟨_, rfl, -, rfl⟩ := runs_ask.mp hwait
        rcases runs_bind.mp h₂ with ⟨_, _, outcome, _, rfl, hconfirm, h₃⟩ | ⟨_, -, hconfirm⟩
        · obtain ⟨_, rfl, heq, rfl⟩ := runs_ask.mp hconfirm
          cases heq
          rcases runs_bind.mp h₃ with ⟨_, _, ⟨⟩, _, rfl, hdone, h₄⟩ | ⟨_, -, hdone⟩
          · obtain ⟨_, rfl, -, rfl⟩ := runs_ask.mp hdone
            obtain ⟨rfl, rfl, rfl⟩ := runs_pure.mp h₄
            exact ⟨rfl, .inr ⟨outcome, rfl, rfl⟩⟩
          · obtain ⟨_, -, heq, -⟩ := runs_ask.mp hdone
            cases heq
        · obtain ⟨_, -, heq, -⟩ := runs_ask.mp hconfirm
          cases heq
      · obtain ⟨_, -, heq, -⟩ := runs_ask.mp hwait
        cases heq
  · obtain ⟨_, -, heq, -⟩ := runs_ask.mp hask
    cases heq

theorem asksOnce_askUser {ε : Type} (request : PresenceRequest) :
    AsksOnce (askUser (ε := ε) request) := by
  intro app tr x app' h
  obtain ⟨-, ⟨-, rfl⟩ | ⟨outcome, -, rfl⟩⟩ := runs_askUser h
  · exact ⟨_, .cancelled, around_self _⟩
  · exact ⟨_, .prompted request outcome, around_self _⟩

theorem asksOnce_confirmUserPresence (request : PresenceRequest) :
    AsksOnce (confirmUserPresence request) :=
  (asksOnce_askUser request).before fun _ => .ofExcept _

theorem presenceStatus_eq_ok {operation : PresenceOperation} {outcome : PresenceOutcome}
    (h : presenceStatus operation outcome = .ok ()) : outcome = .approved := by
  cases outcome with
  | approved => rfl
  | denied => cases h
  | timedOut => cases operation <;> cases h
  | cancelled => cases h

/-- Presence is confirmed by an approved prompt only. -/
theorem runs_confirmUserPresence {tr : Trace}
    (h : (confirmUserPresence request).Runs app tr (.ok ()) app') :
    tr = promptEvents request .approved ∧ app' = app := by
  obtain ⟨_, _, outcome, _, rfl, hask, h₁⟩ := runs_bind_ok.mp h
  obtain ⟨rfl, hok, rfl⟩ := runs_ofExcept.mp h₁
  have happroved : outcome = .approved := presenceStatus_eq_ok hok.symm
  subst happroved
  obtain ⟨rfl, ⟨heq, -⟩ | ⟨_, heq, rfl⟩⟩ := runs_askUser hask
  · cases heq
  · cases heq
    exact ⟨by simp, rfl⟩

section Requests

theorem asksOnce_selectForPinUvAuth : AsksOnce (selectForPinUvAuth (ε := Status)) := by
  refine .after (.gets _) fun timeout => (asksOnce_askUser _).before fun outcome => ?_
  split
  · exact .bind (.gets _) fun _ => .pure _
  · exact .pure _
  · exact .pure _
  · exact .pure _

theorem asksOnce_probe {α : Type} :
    AsksOnce (selectForPinUvAuth >>= fun status => (Cmd.fail status : EngineM Status α)) :=
  asksOnce_selectForPinUvAuth.before fun _ => .fail _

theorem asksOnce_handleSelection : AsksOnce handleSelection :=
  .after (.gets _) fun _ => (asksOnce_confirmUserPresence _).before fun _ => .pure _

theorem asksOnce_u2fPresence (operation : PresenceOperation) : AsksOnce (u2fPresence operation) := by
  refine .after (.gets _) fun timeout => (asksOnce_askUser _).before fun outcome => ?_
  split
  · exact .pure _
  · exact .fail _

variable [Externals]

theorem Composed.discreet {ε α : Type} {scope : Scope} {c : EngineM ε α} (hc : Composed scope c) :
    Discreet c := hc.tidy.discreet

omit [Externals] in
theorem asksOnce_refuseExcluded (pinUvAuth : Option (PinProtocol × Bytes))
    (request : PresenceRequest) : AsksOnce (refuseExcluded pinUvAuth request) := by
  refine .after (tokenSteady_tokenPresence _).discreet fun present => ?_
  split
  · exact Discreet.asksOnce (.fail _)
  · refine (asksOnce_confirmUserPresence request).attempt.before fun outcome => ?_
    split
    · exact .fail _
    · exact .fail _

omit [Externals] in
theorem discreet_consumeTokenAfterUserPresence :
    Discreet (consumeTokenAfterUserPresence (ε := Status)) :=
  .bind tokenSteady_observeToken.discreet fun _ =>
    (tokenSteady_modifyToken _ fun state => state.weakens_consume.continues).discreet

omit [Externals] in
theorem asksOnce_collectPresence (pinUvAuth : Option (PinProtocol × Bytes))
    (request : PresenceRequest) : AsksOnce (collectPresence pinUvAuth request) :=
  .after (tokenSteady_tokenPresence _).discreet fun _ =>
    (asksOnce_confirmUserPresence request).when.before fun _ =>
    discreet_consumeTokenAfterUserPresence

theorem asksOnce_handleMakeCredential (payload : Bytes) :
    AsksOnce (handleMakeCredential payload) := by
  refine .after (.ofExcept _) fun map => .after (.ofExcept _) fun registration =>
    .after (composed_readPinStateIfUnread : Composed .nothing _).discreet fun _ => ?_
  split
  · exact asksOnce_probe
  · refine .after (.ofExcept _) fun choices =>
      .after (composed_authorizeRegistration _ _ _ : Composed .nothing _).discreet fun authorized =>
      .after (.gets _) fun timeout => .after (plain_findExcluded _ _ _).discreet fun excluded => ?_
    split
    · exact asksOnce_refuseExcluded _ _
    · exact (asksOnce_collectPresence _ _).before fun _ =>
        (plain_registerCredential _ _ _ _ _ _).discreet

omit [Externals] in
theorem asksOnce_assertionPresence (rpId : String) (choices : AssertionChoices)
    (applicable : List CredentialRecord) :
    AsksOnce (assertionPresence rpId choices applicable) := by
  unfold assertionPresence
  split
  · exact .after (.gets _) fun _ => (asksOnce_collectPresence _ _).before fun _ => .pure _
  · split
    · exact Discreet.asksOnce (.fail _)
    · exact Discreet.asksOnce (.pure _)

theorem asksOnce_handleGetAssertion (payload : Bytes) : AsksOnce (handleGetAssertion payload) := by
  refine .after (.ofExcept _) fun map => .after (.ofExcept _) fun rpId =>
    .after (.ofExcept _) fun clientHash =>
    .after (composed_readPinStateIfUnread : Composed .nothing _).discreet fun _ => ?_
  split
  · exact asksOnce_probe
  · refine .after (.ofExcept _) fun choices => .after (.gets _) fun persistent => ?_
    split
    · exact Discreet.asksOnce (.fail _)
    · refine .after (composed_verifyAssertionUser _ _ _ : Composed .nothing _).discreet
        fun verified => .after (plain_applicableCredentials _ _ _).discreet fun applicable => ?_
      split
      · exact Discreet.asksOnce (.fail _)
      · exact (asksOnce_assertionPresence _ _ _).before fun _ =>
          (composed_assertFirst _ _ _ _ _ _ _ _).discreet

omit [Externals] in
theorem asksOnce_handleReset : AsksOnce handleReset := by
  refine .after plain_checkResetWindow.discreet fun _ => .after (.gets _) fun _ =>
    (asksOnce_confirmUserPresence _).before fun _ => .bind ?_ fun _ => .pure _
  exact Tidy.discreet (pinWork_resetAuthenticator.tidy : Tidy .nothing _)

theorem asksOnce_handleCommand (command : UInt8) (payload : Bytes) :
    AsksOnce (handleCommand command payload) := by
  unfold handleCommand
  split
  · exact (composed_handleGetInfo : Composed .nothing _).discreet.asksOnce
  · exact asksOnce_handleMakeCredential payload
  · exact asksOnce_handleGetAssertion payload
  · exact composed_handleGetNextAssertion.discreet.asksOnce
  · exact (composed_handleClientPin payload).discreet.asksOnce
  · exact asksOnce_handleReset
  · exact (composed_handleCredentialManagement _ payload).discreet.asksOnce
  · exact (composed_handleCredentialManagement _ payload).discreet.asksOnce
  · exact asksOnce_handleSelection
  · exact (composed_handleAuthenticatorConfig payload : Composed .nothing _).discreet.asksOnce
  · exact (composed_handleLargeBlobs payload).discreet.asksOnce
  · exact Discreet.asksOnce (.fail _)

theorem asksOnce_u2fRequest (request : U2fApdu.Request) : AsksOnce (u2fRequest request) := by
  cases request with
  | version => exact Discreet.asksOnce (.pure _)
  | register challenge application =>
    obtain ⟨rest, hrest, heq⟩ := u2fRegister_eq challenge application
    change AsksOnce (u2fRegister challenge application)
    rw [heq]
    exact (asksOnce_u2fPresence _).before fun _ => hrest.discreet
  | authenticate control challenge application handle =>
    refine .after (plain_u2fCredential _ _).discreet fun record => ?_
    split
    · exact Discreet.asksOnce (.fail _)
    · exact (asksOnce_u2fPresence _).when.before fun _ => Plain.discreet
        (plain_u2fCount _ _ _ _)

theorem asksOnce_serve (request : Request) : AsksOnce (serve request) := by
  cases request with
  | cbor request =>
    refine (AsksOnce.attempt ?_).before fun _ => .pure _
    refine .after (composed_observeLargeBlobState _ : Composed .nothing _).discreet fun _ =>
      .after (composed_forgetAssertion _ : Composed .nothing _).discreet fun _ => ?_
    split
    · exact Discreet.asksOnce (.fail _)
    · exact asksOnce_handleCommand _ _
  | msg apdu =>
    refine (AsksOnce.attempt ?_).before fun _ => .pure _
    have hforget : Composed .nothing (setPendingAssertion (ε := U2fApdu.StatusWord) none) :=
      BasicPart.composed (.setPendingAssertion _ (.inr rfl))
    exact .after hforget.discreet fun _ =>
      .after (composed_observeLargeBlobState _ : Composed .nothing _).discreet fun _ =>
      .after (.gets _) fun _ => .after (.ofExcept _) fun request =>
      (asksOnce_u2fRequest request).before fun _ => (plain_fittingReply _).discreet

end Requests

def Unattended (app : CtapApp) : Prop :=
  ∀ token, app.pinState.token.inUse = some token → token.userPresent = false

theorem TokenState.Continues.unattended (h : app.pinState.token.Continues app'.pinState.token)
    (happ : Unattended app) :
    Unattended app' := by
  intro token' htoken'
  obtain ⟨token, htoken, hcontinues⟩ := h token' htoken'
  exact Bool.eq_false_iff.mpr fun hpresent =>
    Bool.eq_false_iff.mp (happ token htoken) (hcontinues.userPresent hpresent)

theorem TokenState.Weakens.unattended (h : app.pinState.token.Weakens app'.pinState.token)
    (happ : Unattended app) : Unattended app' := h.continues.unattended happ

section Unattended

variable {ε α : Type} {scope : Scope} {c : EngineM ε α}

abbrev anyHistory : Observer env Trace := .history fun _ => True

theorem TokenQuiet.unattended (hc : TokenQuiet c) :
    Keeps anyHistory (fun app _ => Unattended app) c :=
  Moves.keeps hc (fun _ _ _ h hw => h.unattended hw) fun _ _ _ _ hw _ => ⟨trivial, hw⟩

theorem issuePinUvAuthToken_unattended (protocol : PinProtocol) (value : Bytes)
    (grant : TokenGrant) :
    Keeps anyHistory (fun app _ => Unattended app)
      (issuePinUvAuthToken (ε := ε) protocol value grant) := by
  refine triple_gets_bind fun issued => Triple.same ?_
  refine Triple.andThen (M := fun _ _ _ => True)
    (triple_ask fun _ _ _ _ _ => ⟨trivial, trivial⟩) fun _ => ?_
  refine Triple.andThen (M := fun _ _ _ => True)
    (triple_ask fun _ _ _ _ _ => ⟨trivial, trivial⟩) fun time => ?_
  refine triple_modify ?_
  rintro app past - token htoken
  obtain rfl := Option.some.inj htoken
  rfl

theorem powerUp_unattended (settings : Settings) :
    Triple anyHistory (fun _ _ => True) (powerUp settings)
      fun _ app _ => app.elim True Unattended := by
  refine Triple.bind (M := either (fun loaded _ _ => loaded.1.token.inUse = none)
    fun _ _ => False) ?_ (fun ⟨pinState, stored⟩ => ?_) fun e => e.elim
  · exact loadPinState_rule (F := fun _ _ _ => True) (fun _ _ _ _ _ => ⟨trivial, rfl⟩)
      (fun _ _ _ _ _ => ⟨trivial, trivial⟩) fun _ _ _ _ _ _ => ⟨trivial, rfl⟩
  · refine triple_modify ?_
    rintro app past hnone token htoken
    cases hnone.symm.trans htoken

variable [Externals]

theorem EnginePart.unattended (hc : EnginePart scope ε α c) :
    Keeps anyHistory (fun app _ => Unattended app) c := by
  cases hc with
  | basic h =>
    exact basicPart_keeps h (fun h => h.tokenQuiet.unattended)
      (fun _ _ _ h hw => h.token.unattended hw) (fun _ _ _ _ hw _ => ⟨trivial, hw⟩)
      (fun _ _ => (tokenQuiet_setPendingAssertion _).unattended)
      (plainIn_setLargeBlobState _).tokenQuiet.unattended
      (pinWork_refreshPersistentAuthority false).tokenQuiet.unattended
      pinWork_toggleAlwaysUv.tokenQuiet.unattended
      (fun _ => (pinWork_setMinPinLength _).tokenQuiet.unattended)
      pinWork_resetAuthenticator.tokenQuiet.unattended
  | verifyPinHashEnc protocol keys pinHashEnc =>
    exact (pinWork_verifyPinHashEnc _ _ _).tokenQuiet.unattended
  | storeNewPin pin hash length => exact (pinWork_storeNewPin _ _ _).tokenQuiet.unattended
  | grantPersistentToken protocol keys =>
    exact (pinWork_grantPersistentToken _ _).tokenQuiet.unattended
  | issuePinUvAuthToken protocol value grant => exact issuePinUvAuthToken_unattended _ _ _

theorem Prompting.keeps_unattended (hc : Prompting scope c) :
    Keeps anyHistory (fun app _ => Unattended app) c := by
  refine Built.keeps (fun ε α c h => ?_) hc.assembled
  exact askingPart_keeps h (fun h => h.unattended) (fun _ _ _ h hw => h.token.unattended hw)
    fun _ _ _ _ hw _ => ⟨trivial, hw⟩

theorem Prompting.unattended (hc : Prompting scope c) {tr : Trace} {x : Except ε α}
    (h : c.Runs app tr x app') (happ : Unattended app) : Unattended app' :=
  hc.keeps_unattended.runs (w := []) happ h (Observer.history_admits _ _)

theorem unattended_lasting :
    (Surrounds.recording fun _ => True).Lasting (fun app _ => Unattended app) fun _ => True where
  start _ _ := trivial
  serve request := (prompting_serve request).keeps_unattended
  powerUp := powerUp_unattended
  safe_on _ _ _ := trivial
  safe_off _ _ := trivial
  stop _ _ := trivial
  loses _ _ _ _ := trivial

/-- Along every run no token stands for the user. -/
theorem unattended_of_run {hs : List Happening} (hrun : engine.Executes none hs) {app : CtapApp}
    (happ : engine.run none hs = some app) : Unattended app := by
  have h := unattended_lasting.recorded (show Throughout _ _ (none, []) from trivial) hrun
  rw [happ] at h
  exact h

end Unattended

section Presence

theorem runs_tokenPresence {pinUvAuth : Option (PinProtocol × Bytes)} {present : Bool}
    (h : (tokenPresence pinUvAuth).Runs app tr (.ok present) app') (happ : Unattended app) :
    present = false := by
  unfold tokenPresence at h
  split at h
  · obtain ⟨_, _, state, _, -, hobserve, h₁⟩ := runs_bind_ok.mp h
    obtain ⟨time, -, heq, rfl⟩ := runs_observeToken hobserve
    cases heq
    obtain ⟨-, heq, -⟩ := runs_pure.mp h₁
    cases heq
    refine Bool.eq_false_iff.mpr fun hpresent => ?_
    obtain ⟨token', htoken', hflag⟩ := (Option.any_eq_true _ _).mp hpresent
    obtain ⟨token, htoken, hcontinues⟩ := (app.pinState.token.weakens_observe time).continues token' htoken'
    exact Bool.eq_false_iff.mp (happ token htoken) (hcontinues.userPresent hflag)
  · obtain ⟨-, heq, -⟩ := runs_pure.mp h
    cases heq
    rfl

theorem runs_collectPresence {pinUvAuth : Option (PinProtocol × Bytes)}
    (h : (collectPresence pinUvAuth request).Runs app tr (.ok ()) app') (happ : Unattended app) :
    Around (promptEvents request .approved) tr := by
  obtain ⟨tr₁, _, present, _, rfl, htoken, h₁⟩ := runs_bind_ok.mp h
  obtain rfl := runs_tokenPresence htoken happ
  obtain ⟨_, tr₃, ⟨⟩, _, rfl, hconfirm, hconsume⟩ := runs_bind_ok.mp h₁
  obtain ⟨rfl, -⟩ := runs_confirmUserPresence hconfirm
  exact ((around_self _).before (discreet_consumeTokenAfterUserPresence.quiet hconsume)).after
    ((tokenSteady_tokenPresence _).discreet.quiet htoken)

theorem runs_u2fPresence {operation : PresenceOperation}
    (h : (u2fPresence operation).Runs app tr (.ok ()) app') :
    tr = promptEvents (.new operation app.presenceTimeout) .approved := by
  obtain ⟨_, _, outcome, _, rfl, hask, h₁⟩ := runs_bind_ok.mp (runs_gets_bind.mp h)
  cases outcome with
  | approved =>
    obtain ⟨rfl, -, -⟩ := runs_pure.mp h₁
    obtain ⟨-, ⟨heq, -⟩ | ⟨_, heq, rfl⟩⟩ := runs_askUser hask
    · cases heq
    · cases heq
      simp
  | denied | timedOut | cancelled => exact absurd h₁ not_runs_fail_ok

theorem quiet_powerUp {settings : Settings} {s s' : Option CtapApp} {x : Except Empty Unit}
    (h : (powerUp settings).Runs s tr x s') : Quiet tr := by
  intro e he
  have hop := ((confined_powerUp settings).runs h).2 e he
  unfold EnvOp.isLoading at hop
  split at hop
  · next heq => rw [heq]; rfl
  · next heq => rw [heq]; rfl
  · cases hop

variable [Externals]

theorem quiet_preparePin {command : UInt8} (h : (preparePin command).Runs app tr (.ok ()) app') :
    Quiet tr := by
  have hc : Composed .nothing (preparePin command) :=
    .bind (composed_beginRequest command) fun _ => composed_readPinStateIfUnread
  exact hc.discreet.quiet h

theorem unattended_preparePin {command : UInt8}
    (h : (preparePin command).Runs app tr (.ok ()) app') (happ : Unattended app) :
    Unattended app' := by
  have hc : Composed .nothing (preparePin command) :=
    .bind (composed_beginRequest command) fun _ => composed_readPinStateIfUnread
  exact hc.prompting.unattended h happ

theorem RegistrationStages.consented {payload : Bytes} {trace : Trace} {response : Response}
    (stages : RegistrationStages payload app trace response app') (happ : Unattended app) :
    Consented trace .register (some stages.registration.rpId) := by
  have hauthorize : Composed .nothing
      (authorizeRegistration stages.map stages.registration stages.choices) :=
    composed_authorizeRegistration _ _ _
  have hready := unattended_preparePin stages.prepares happ
  have hauthorized := hauthorize.prompting.unattended stages.authorizes hready
  have hsearch := plain_findExcluded stages.registration.rpId stages.userVerified
    stages.choices.excludeList
  have hsearched := (hsearch.prompting : Prompting .nothing _).unattended stages.searches
    hauthorized
  have hasking := runs_collectPresence stages.asks hsearched
  have hwhole := (hasking.after (hsearch.discreet.quiet stages.searches)).before
    ((plain_registerCredential _ _ _ _ _ _).discreet.quiet stages.registers)
  have htrace := (hwhole.after (hauthorize.discreet.quiet stages.authorizes)).after
    (quiet_preparePin stages.prepares)
  refine (htrace.of_eq (stages.trace_eq.trans ?_)).consented
  simp

theorem AssertionStages.consented {payload : Bytes} {trace : Trace}
    {answer : Except Status Response} (stages : AssertionStages payload app trace answer app')
    (happ : Unattended app) (hpresent : stages.userPresent = true) :
    Consented trace .authenticate (some stages.rpId) := by
  have hverify : Composed .nothing
      (verifyAssertionUser stages.choices.pinUvAuth stages.clientHash stages.rpId) :=
    composed_verifyAssertionUser _ _ _
  have hready := unattended_preparePin stages.prepares happ
  have hverified := hverify.prompting.unattended stages.verifies hready
  have hlocate := plain_applicableCredentials stages.rpId stages.userVerified
    stages.choices.allowList
  have hlocated := (hlocate.prompting : Prompting .nothing _).unattended stages.locates hverified
  have hasks := stages.asks
  unfold assertionPresence at hasks
  split at hasks
  · have h₀ := runs_gets_bind.mp hasks
    obtain ⟨_, _, _, _, htrace, hcollect, h₁⟩ := runs_bind_ok.mp h₀
    obtain ⟨rfl, -, -⟩ := runs_pure.mp h₁
    rw [List.append_nil] at htrace
    have hasking := (runs_collectPresence hcollect hlocated).of_eq htrace
    have hwhole := (hasking.after (hlocate.discreet.quiet stages.locates)).before
      ((composed_assertFirst _ _ _ _ _ _ _ _).discreet.quiet stages.signs)
    have htraces := (hwhole.after (hverify.discreet.quiet stages.verifies)).after
      (quiet_preparePin stages.prepares)
    refine (htraces.of_eq (stages.trace_eq.trans ?_)).consented
    simp
  · split at hasks
    · exact absurd hasks not_runs_fail_ok
    · obtain ⟨-, heq, -⟩ := runs_pure.mp hasks
      rw [hpresent] at heq
      cases heq

/-- A U2F registration, or an authentication with the presence byte, was approved. -/
theorem consented_u2fRequest {request : U2fApdu.Request} {reply : U2fReply}
    (h : (u2fRequest request).Runs app tr (.ok reply) app') :
    (∀ publicKey keyHandle certificate signature,
      reply = .registration publicKey keyHandle certificate signature →
      Consented tr .u2fRegister none) ∧
    ∀ counter signature, reply = .authentication true counter signature →
      Consented tr .u2fAuthenticate none := by
  cases request with
  | version =>
    obtain ⟨-, heq, -⟩ := runs_pure.mp h
    cases heq
    constructor
    · rintro _ _ _ _ ⟨⟩
    · rintro _ _ ⟨⟩
  | register challenge application =>
    have h₀ : (u2fRegister challenge application).Runs app tr (.ok reply) app' := h
    obtain ⟨_, _, _, _, rfl⟩ := runs_u2fRegister h₀
    obtain ⟨rest, hrest, heq⟩ := u2fRegister_eq challenge application
    rw [heq] at h₀
    obtain ⟨_, _, _, _, rfl, hpresence, h₁⟩ := runs_bind_ok.mp h₀
    obtain rfl := runs_u2fPresence hpresence
    constructor
    · intro _ _ _ _ _
      exact ((around_self _).before (hrest.discreet.quiet h₁)).consented
    · rintro _ _ ⟨⟩
  | authenticate control challenge application handle =>
    obtain ⟨stages⟩ := u2fStages_of_runs h
    obtain ⟨counter, signature, key, rfl, -, -⟩ := runs_u2fCount stages.signs
    constructor
    · rintro _ _ _ _ ⟨⟩
    · intro _ _ heq
      obtain ⟨hcontrol, -, -⟩ := U2fReply.authentication.inj heq
      have hasking := runs_u2fPresence ((runs_when_of_true hcontrol).mp stages.asks)
      have hwhole := ((around_self (promptEvents _ _)).of_eq hasking).after
        ((plain_u2fCredential _ _).discreet.quiet stages.locates)
      exact ((hwhole.before ((plain_u2fCount _ _ _ _).discreet.quiet stages.signs)).of_eq
        stages.trace_eq).consented

omit [Externals] in
theorem consented_handleReset {response : Response}
    (h : handleReset.Runs app tr (.ok response) app') : Consented tr .reset none := by
  obtain ⟨_, _, _, _, rfl, hwindow, h₁⟩ := runs_bind_ok.mp h
  have h₂ := runs_gets_bind.mp h₁
  obtain ⟨_, _, _, _, rfl, hconfirm, h₃⟩ := runs_bind_ok.mp h₂
  obtain ⟨rfl, -⟩ := runs_confirmUserPresence hconfirm
  have hreset : Discreet (resetAuthenticator >>= fun _ => pure Response.ok) :=
    .bind (Tidy.discreet (pinWork_resetAuthenticator.tidy : Tidy .nothing _)) fun _ => .pure _
  exact (((around_self _).before (hreset.quiet h₃)).after
    (plain_checkResetWindow.discreet.quiet hwindow)).consented

theorem turnsOnce_of_enabled {s : Option CtapApp} {h : Happening} (hh : engine.enabled s h) :
    ∃ rest, TurnsOnce (h.trace ++ rest) := by
  cases possible_of_enabled hh with
  | powerUp hrun =>
    refine ⟨[], ?_⟩
    rw [List.append_nil]
    exact (quiet_powerUp hrun).turnsOnce
  | cutPowerUp hreach =>
    obtain ⟨rest, ⟨x, s'⟩, hyields⟩ := Prog.Reaches.yields nonempty_res hreach
    exact ⟨rest, (quiet_powerUp hyields).turnsOnce⟩
  | exchange hrun =>
    refine ⟨[], ?_⟩
    rw [List.append_nil]
    exact asksOnce_serve _ _ _ _ _ hrun
  | cutRequest hreach =>
    obtain ⟨rest, ⟨x, s'⟩, hyields⟩ := Prog.Reaches.yields nonempty_res hreach
    exact ⟨rest, asksOnce_serve _ _ _ _ _ hyields⟩
  | powerOff => exact ⟨[], quiet_nil.turnsOnce⟩

/-- Along every run nothing shows more than one prompt, and none unless the platform had not
cancelled right before. What tells of the user's presence goes back to one prompt that was
approved for that operation and relying party, in that request or, for an assertion, in the
getAssertion that began its sequence. -/
theorem userPresence_sound (before after : List Happening) (h : Happening)
    (hrun : engine.Executes none (before ++ h :: after)) :
    (prompts h.trace).length ≤ 1 ∧
    (∀ early request outcome late,
      h.trace = early ++ (⟨.confirm request, outcome⟩ : env.Event) :: late →
      ∃ quiet, early = quiet ++ [⟨.isCancelled, false⟩, ⟨.keepalive true, ()⟩] ∧ Quiet quiet) ∧
    ∀ request trace reply app', h = .exchange request trace reply app' →
      (∀ payload response, request = .cbor (0x01 :: payload) → reply = .cbor (.ok response) →
        ∃ attestation rpId, response = .attestation attestation ∧
          attestation.authData.rpIdHash = sha256 (utf8 rpId) ∧
          Consented trace .register (some rpId)) ∧
      (∀ response, request.isAssertion = true → reply = .cbor (.ok (.assertion response)) →
        response.authData.userPresent = true →
        ∃ b : Beginning (before ++ [h]),
          response.authData.rpIdHash = sha256 (utf8 b.stages.rpId) ∧
          Consented b.trace .authenticate (some b.stages.rpId)) ∧
      (∀ apdu publicKey keyHandle certificate signature, request = .msg apdu →
        reply = .msg (.ok (.registration publicKey keyHandle certificate signature)) →
        Consented trace .u2fRegister none) ∧
      (∀ apdu counter signature, request = .msg apdu →
        reply = .msg (.ok (.authentication true counter signature)) →
        Consented trace .u2fAuthenticate none) ∧
      ∀ payload response, request = .cbor (0x07 :: payload) → reply = .cbor (.ok response) →
        Consented trace .reset none := by
  obtain ⟨hbefore, henabled, -⟩ := (engine.along_append _ _ _ _).mp hrun
  obtain ⟨rest, honce⟩ := turnsOnce_of_enabled henabled
  refine ⟨?_, ?_, ?_⟩
  · refine Nat.le_trans ?_ honce.length_prompts
    rw [prompts_append, List.length_append]
    exact Nat.le_add_right _ _
  · intro early request outcome late htrace
    rw [htrace, List.append_assoc, List.cons_append] at honce
    exact honce.before_prompt
  · rintro request trace reply app' rfl
    obtain ⟨app, happ, hserve⟩ := served_of_enabled henabled
    have hunattended := unattended_of_run hbefore happ
    refine ⟨?_, ?_, ?_, ?_, ?_⟩
    · rintro payload response rfl rfl
      obtain ⟨stages⟩ := registrationStages_of_runs hserve
      obtain ⟨attestation, _, record, _, _, rfl, hrpId, hdata⟩ := stages.registers_cases
      refine ⟨attestation, stages.registration.rpId, rfl, ?_, stages.consented hunattended⟩
      rw [hdata, ← hrpId]
      rfl
    · rintro response hrequest rfl hup
      have hrun' : engine.Executes none
          (before ++ [.exchange request trace (.cbor (.ok (.assertion response))) app']) := by
        refine (engine.along_append _ _ _ _).mpr ⟨hbefore, ?_, trivial⟩
        rw [happ]
        exact hserve
      obtain ⟨b, credential, -, hasserts⟩ := assertion_began hrequest hrun'
      have hbefore' : engine.Executes none b.before := by
        have hall := hrun'
        rw [b.hs_eq] at hall
        exact ((engine.along_append _ _ _ _).mp hall).1
      exact ⟨b, hasserts.rpIdHash, b.stages.consented (unattended_of_run hbefore' b.run_before)
        (hasserts.userPresent.symm.trans hup)⟩
    · rintro apdu publicKey keyHandle certificate signature rfl rfl
      obtain ⟨_, opening, handling, opened, rfl, hopen, -, hhandle⟩ := runs_serve_msg hserve
      have hquiet := (composed_beginU2f : Composed .nothing _).discreet.quiet hopen
      exact ((consented_u2fRequest hhandle).1 _ _ _ _ rfl).after hquiet
    · rintro apdu counter signature rfl rfl
      obtain ⟨_, opening, handling, opened, rfl, hopen, -, hhandle⟩ := runs_serve_msg hserve
      have hquiet := (composed_beginU2f : Composed .nothing _).discreet.quiet hopen
      exact ((consented_u2fRequest hhandle).2 _ _ rfl).after hquiet
    · rintro payload response rfl rfl
      obtain ⟨answer, opening, handling, opened, heq, rfl, hopen, hhandle⟩ :=
        runs_serve_cbor hserve
      cases heq
      have hquiet := (composed_beginRequest 0x07 : Composed .nothing _).discreet.quiet hopen
      exact (consented_handleReset hhandle).after hquiet

end Presence

section Bench

local instance presenceExternals : Externals :=
  .bench [(assertionPayload false, assertionValue false)]

def presenceSession : List Happening :=
  (World.bench .initial [benchCredential [5], benchCredential [6]] 0).session .bench
    [.cbor (0x02 :: assertionPayload false), .cbor [0x08]]

def Happening.isPresentNext : Happening → Bool
  | .exchange (.cbor [0x08]) _ (.cbor (.ok (.assertion response))) _ =>
    response.authData.userPresent
  | _ => false

theorem userPresence_sound_getNextAssertion :
    ∃ before h after, presenceSession = before ++ h :: after ∧ h.isPresentNext = true ∧
      ∃ b : Beginning (before ++ [h]),
        Consented b.trace .authenticate (some b.stages.rpId) := by
  obtain ⟨h, hmem, hpresent⟩ := List.any_eq_true.mp
    (show presenceSession.any Happening.isPresentNext = true by decide +kernel)
  obtain ⟨before, after, hsplit⟩ := List.append_of_mem hmem
  refine ⟨before, h, after, hsplit, hpresent, ?_⟩
  have hrun : engine.Executes none presenceSession := World.executes_session _ _ _
  rw [hsplit] at hrun
  obtain ⟨-, -, hsound⟩ := userPresence_sound before after h hrun
  unfold Happening.isPresentNext at hpresent
  split at hpresent
  · obtain ⟨b, -, hconsented⟩ := (hsound _ _ _ _ rfl).2.1 _ rfl rfl hpresent
    exact ⟨b, hconsented⟩
  · cases hpresent

end Bench

end SoftwareAuthenticator.Ctap
