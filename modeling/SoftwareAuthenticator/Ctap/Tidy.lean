import SoftwareAuthenticator.Ctap.TokenSteps

/-!
# What a request leaves of the others' work

A request outside the scope of an assertion to be continued, a cursor of credential management or
a large-blob write leaves it as it is or discards it.
-/

namespace SoftwareAuthenticator.Ctap

open Cmd

variable {app app' : CtapApp}

/-- Outside the scope, what was built up is left alone or discarded. -/
structure Discards (scope : Scope) (app app' : CtapApp) : Prop where
  pending : scope.remembers = true ∨ app'.pendingAssertion = app.pendingAssertion ∨
    app'.pendingAssertion = none
  largeBlobs : scope.stages = true ∨ app'.largeBlobState = app.largeBlobState ∨
    app'.largeBlobState = .initial
  management : scope.manages = true ∨ app'.credMgmtState = app.credMgmtState ∨
    app'.credMgmtState = .initial

theorem sameOr_trans {α : Type} {p : Prop} {a b c z : α} (h₁ : p ∨ b = a ∨ b = z)
    (h₂ : p ∨ c = b ∨ c = z) : p ∨ c = a ∨ c = z := by
  rcases h₂ with h₂ | rfl | rfl
  · exact .inl h₂
  · exact h₁
  · exact .inr (.inr rfl)

theorem Discards.trans {scope : Scope} {app'' : CtapApp} (h : Discards scope app app')
    (h' : Discards scope app' app'') : Discards scope app app'' :=
  ⟨sameOr_trans h.pending h'.pending, sameOr_trans h.largeBlobs h'.largeBlobs,
    sameOr_trans h.management h'.management⟩

theorem Discards.of_eq {scope : Scope} (hpending : app'.pendingAssertion = app.pendingAssertion)
    (hlarge : app'.largeBlobState = app.largeBlobState)
    (hmanagement : app'.credMgmtState = app.credMgmtState) : Discards scope app app' :=
  ⟨.inr (.inl hpending), .inr (.inl hlarge), .inr (.inl hmanagement)⟩

theorem Discards.refl (scope : Scope) (app : CtapApp) : Discards scope app app :=
  .of_eq rfl rfl rfl

def EnvOp.isTidy (scope : Scope) : EnvOp → Bool
  | .isCancelled | .keepalive _ | .confirm _ => false
  | .store (.setLargeBlobArray _) => scope.stages
  | _ => true

abbrev Tidy {ε α : Type} (scope : Scope) (c : EngineM ε α) : Prop :=
  Moves (EnvOp.isTidy scope) (Discards scope) c

theorem Tidy.runs {ε α : Type} {scope : Scope} {c : EngineM ε α} (hc : Tidy scope c) {tr : Trace}
    {x : Except ε α} (h : c.Runs app tr x app') :
    Discards scope app app' ∧ ∀ e ∈ tr, EnvOp.isTidy scope e.op = true :=
  Moves.runs hc (.refl scope) (fun _ _ _ => .trans) h

section Basic

variable {ε α : Type} {scope : Scope} {c : EngineM ε α}

theorem EnvOp.isTidy_of_isPlainIn {op : EnvOp} (h : op.isPlainIn scope = true) :
    op.isTidy scope = true := by
  cases op with
  | store op => cases op <;> first | rfl | exact h
  | isCancelled | keepalive | confirm => exact h
  | _ => rfl

theorem PlainStep.discards {app app' : CtapApp} (h : PlainStep scope app app') :
    Discards scope app app' :=
  ⟨.inr (.inl (congrArg Authority.pending h.authority)), h.largeBlobs.imp_right .inl,
    h.management⟩

theorem PlainIn.tidy (hc : PlainIn scope c) : Tidy scope c :=
  Moves.mono hc (fun _ => EnvOp.isTidy_of_isPlainIn) fun _ _ h => h.discards

theorem Plain.tidy (hc : Plain c) : Tidy scope c := PlainIn.tidy hc.within

theorem EnvOp.isTidy_of_isTokenOp {op : EnvOp} (h : op.isTokenOp = true) :
    op.isTidy scope = true := by
  cases op with
  | store op => cases op <;> first | rfl | exact Bool.noConfusion h
  | isCancelled | keepalive | confirm => exact h
  | _ => rfl

theorem TokenStep.discards {app app' : CtapApp} (h : TokenStep app app') :
    Discards scope app app' := by
  obtain ⟨⟨token, rfl⟩, -⟩ := h
  exact .of_eq rfl rfl rfl

theorem TokenSteady.tidy (hc : TokenSteady c) : Tidy scope c :=
  Moves.mono hc (fun _ => EnvOp.isTidy_of_isTokenOp) fun _ _ h => h.discards

theorem tidy_askEnv (op : EnvOp) (h : op.isTidy scope = true) : Tidy scope (askEnv (ε := ε) op) :=
  .part (MovePart.ask (I := env) op h)

theorem tidy_observePhase (phase : Phase) : Tidy scope (observePhase (ε := ε) phase) :=
  tidy_askEnv _ rfl

theorem tidy_modifyPinState (f : PinState → PinState) : Tidy scope (modifyPinState (ε := ε) f) :=
  .part (.modify _ fun _ => .of_eq rfl rfl rfl)

theorem PinWork.tidy {writes : Bool} (hc : PinWork writes c) : Tidy scope c := by
  refine Moves.mono hc (fun op hop => ?_) fun app app' h =>
    ⟨.inr (.inl h.pending), .inr (.inl h.largeBlobs), .inr h.management⟩
  cases op with
  | store op => cases op <;> first | rfl | exact Bool.noConfusion hop
  | isCancelled | keepalive | confirm => exact hop
  | _ => rfl

end Basic

section Token

variable {scope : Scope}

theorem tidy_issuePinUvAuthToken {ε : Type} (protocol : PinProtocol) (value : Bytes)
    (grant : TokenGrant) : Tidy scope (issuePinUvAuthToken (ε := ε) protocol value grant) :=
  .bind (.gets _) fun _ => .bind (tidy_observePhase _) fun _ => .bind plain_now.tidy fun _ =>
    tidy_modifyPinState _

variable [Externals]

theorem tidy_verifyPinUvAuthParam (protocol : PinProtocol) (message param : Bytes) :
    Tidy scope (verifyPinUvAuthParam protocol message param) := by
  refine .bind tokenSteady_observeToken.tidy fun token => ?_
  dsimp only
  refine .bind (tidy_modifyPinState _) fun _ => ?_
  split
  · exact .fail _
  · split
    · exact tidy_observePhase _
    · exact .pure _

end Token

section Requests

variable {ε α : Type} {scope : Scope} {c : EngineM ε α}

variable {tr : Trace}

theorem UserSteady.runs (hc : UserSteady c) {x : Except ε α} (h : c.Runs app tr x app') :
    Discards scope app app' ∧ ∀ e ∈ tr, EnvOp.isUserOp e.op = true := by
  have hmoves : Moves EnvOp.isUserOp (Discards scope) c :=
    Moves.mono hc (fun _ h => h) fun _ _ h => h.discards
  exact hmoves.runs (.refl scope) (fun _ _ _ => .trans) h

variable [Externals]

theorem BasicPart.tidy (hc : BasicPart scope ε α c) : Tidy scope c := by
  cases hc with
  | plain h => exact PlainIn.tidy h
  | setPendingAssertion pending h =>
    exact .part (.modify _ fun _ => ⟨h.imp_right .inr, .inr (.inl rfl), .inr (.inl rfl)⟩)
  | discardLargeBlobState =>
    exact .part (.modify _ fun _ => ⟨.inr (.inl rfl), .inr (.inr rfl), .inr (.inl rfl)⟩)
  | observeToken => exact tokenSteady_observeToken.tidy
  | verifyPinUvAuthParam protocol message param => exact tidy_verifyPinUvAuthParam _ _ _
  | ensurePinTokenPermissionForRp permission rpId =>
    exact (tokenSteady_ensurePinTokenPermissionForRp _ _).tidy
  | ensureLargeBlobWrite | ensureConfig => exact (tokenSteady_ensurePermission _ _).tidy
  | cmAuthorize family subcommand params protocol => exact (tokenSteady_cmAuthorize _ _ _ _).tidy
  | continueEnumeration auth family rpHash =>
    exact (tokenSteady_continueEnumeration _ _ _).tidy
  | refreshPersistentAuthority => exact (pinWork_refreshPersistentAuthority false).tidy
  | toggleAlwaysUv => exact pinWork_toggleAlwaysUv.tidy
  | setMinPinLength params => exact (pinWork_setMinPinLength _).tidy
  | resetAuthenticator => exact pinWork_resetAuthenticator.tidy

theorem EnginePart.tidy (hc : EnginePart scope ε α c) : Tidy scope c := by
  cases hc with
  | basic h => exact h.tidy
  | verifyPinHashEnc protocol keys pinHashEnc => exact (pinWork_verifyPinHashEnc _ _ _).tidy
  | storeNewPin pin hash length => exact (pinWork_storeNewPin _ _ _).tidy
  | grantPersistentToken protocol keys => exact (pinWork_grantPersistentToken _ _).tidy
  | issuePinUvAuthToken protocol value grant => exact tidy_issuePinUvAuthToken _ _ _

theorem Composed.tidy (hc : Composed scope c) : Tidy scope c :=
  Built.mono (fun _ _ _ h => h.tidy) hc.assembled

theorem Prompting.discards (hc : Prompting scope c) {x : Except ε α} (h : c.Runs app tr x app') :
    Discards scope app app' := by
  refine hc.assembled.follows (R := fun app _ app' => Discards scope app app') (.refl scope)
    (fun _ _ _ _ _ => .trans) ?_ h
  rintro ε α c hpart app tr x app' hrun
  cases hpart with
  | quiet hpart => exact (hpart.tidy.runs hrun).1
  | askUser request => exact (userSteady_askUser request).runs hrun |>.1
  | collectPresence pinUvAuth request =>
    exact (userSteady_collectPresence pinUvAuth request).runs hrun |>.1

end Requests

def EnvOp.isLoading : EnvOp → Bool
  | .store .pinState | .random _ => true
  | _ => false

theorem confined_powerUp (settings : Settings) :
    Confined EnvOp.isLoading (fun _ : Option CtapApp => ()) (powerUp settings) := by
  refine .bind (.bind (.part (MovePart.ask (I := env) (.store .pinState) rfl))
    fun loaded => ?_) fun _ => .part (.modify _ fun _ => rfl)
  split
  · exact .pure _
  · exact .pure _
  · exact .bind (.bind (.part (MovePart.ask (I := env) (.random 16) rfl)) fun _ =>
      .pure _) fun _ => .pure _

def EnvOp.isPromptless : EnvOp → Bool
  | .confirm _ => false
  | _ => true

abbrev Promptless {ε α : Type} (c : EngineM ε α) : Prop :=
  Confined EnvOp.isPromptless (fun _ : CtapApp => ()) c

section Promptless

variable {ε α : Type} {scope : Scope} {c : EngineM ε α}

theorem Tidy.promptless (hc : Tidy scope c) : Promptless c := by
  refine Moves.mono hc (fun op h => ?_) fun _ _ _ => rfl
  cases op with
  | confirm request => exact h
  | _ => rfl

theorem TokenSteady.promptless (hc : TokenSteady c) : Promptless c :=
  Tidy.promptless (TokenSteady.tidy hc : Tidy .nothing c)

theorem Composed.promptless [Externals] (hc : Composed .nothing c) : Promptless c :=
  hc.tidy.promptless

end Promptless

end SoftwareAuthenticator.Ctap
