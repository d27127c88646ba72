import SoftwareAuthenticator.Ctap.TokenSteps

/-!
# Commands that only weaken the token

Besides issuing, verifying and binding a token, all the engine does to the token in use
is to let it run out, stop it, or take permissions and flags away from it.
-/

namespace SoftwareAuthenticator.Ctap

def EnvOp.isTokenLax : EnvOp → Bool
  | .observe (.token _) | .observe (.verified _ _) | .observe (.authorized _ _) => false
  | _ => true

def EnvOp.isTokenQuiet : EnvOp → Bool
  | .confirm _ => false
  | op => op.isTokenLax

abbrev TokenLax {ε α : Type} (c : EngineM ε α) : Prop :=
  Cmd.Moves EnvOp.isTokenLax
    (fun app app' : CtapApp => app.pinState.token.Weakens app'.pinState.token) c

abbrev TokenQuiet {ε α : Type} (c : EngineM ε α) : Prop :=
  Cmd.Moves EnvOp.isTokenQuiet
    (fun app app' : CtapApp => app.pinState.token.Weakens app'.pinState.token) c

theorem EnvOp.isTokenLax_of_isTokenQuiet {op : EnvOp} (h : op.isTokenQuiet = true) :
    op.isTokenLax = true := by
  cases op with
  | confirm request => rfl
  | _ => exact h

theorem TokenQuiet.tokenLax {ε α : Type} {c : EngineM ε α} (hc : TokenQuiet c) : TokenLax c :=
  Cmd.Moves.mono hc (fun _ => EnvOp.isTokenLax_of_isTokenQuiet) fun _ _ h => h

theorem EnvOp.isTokenQuiet_of_isPlain {op : EnvOp} (h : op.isPlain = true) :
    op.isTokenQuiet = true := by
  cases op with
  | observe | confirm => exact absurd h (by simp [EnvOp.isPlain])
  | _ => rfl

theorem PlainIn.tokenQuiet {ε α : Type} {scope : Scope} {c : EngineM ε α}
    (hc : PlainIn scope c) : TokenQuiet c := by
  refine Cmd.Moves.mono hc.confined (fun _ => EnvOp.isTokenQuiet_of_isPlain) fun app app' h => ?_
  have htoken : app'.pinState.token = app.pinState.token := congrArg Authority.token h
  rw [htoken]
  exact .refl _

theorem PinWork.tokenQuiet {ε α : Type} {writes : Bool} {c : EngineM ε α}
    (hc : PinWork writes c) : TokenQuiet c := by
  refine Cmd.Moves.mono hc (fun op hop => ?_) fun app app' h => ?_
  · cases op with
    | observe phase => cases phase <;> first | rfl | exact Bool.noConfusion hop
    | confirm request => exact hop
    | _ => rfl
  · rcases h.token with htoken | htoken
    · rw [htoken]
      exact .refl _
    · rw [htoken]
      exact app.pinState.token.weakens_stopUsing

section Basic

variable {ε : Type}

theorem tokenQuiet_askEnv (op : EnvOp) (h : op.isTokenQuiet = true) : TokenQuiet (askEnv (ε := ε) op) :=
  .part (Cmd.MovePart.ask (I := env) op h)

theorem tokenQuiet_modifyPinState (f : PinState → PinState)
    (h : ∀ state : PinState, state.token.Weakens (f state).token) : TokenQuiet (modifyPinState (ε := ε) f) :=
  .part (.modify _ fun app => h app.pinState)

theorem tokenQuiet_setPendingAssertion (pending : Option PendingAssertion) :
    TokenQuiet (setPendingAssertion (ε := ε) pending) := .part (.modify _ fun _ => .refl _)

theorem tokenLax_askUser (request : PresenceRequest) : TokenLax (askUser (ε := ε) request) := by
  refine .bind (tokenQuiet_askEnv .isCancelled rfl).tokenLax fun cancelled => ?_
  split
  · exact .pure _
  · exact .bind (tokenQuiet_askEnv (.keepalive true) rfl).tokenLax fun _ =>
      .bind (.part (Cmd.MovePart.ask (I := env) (.confirm request) rfl)) fun _ =>
      .bind (tokenQuiet_askEnv (.keepalive false) rfl).tokenLax fun _ => .pure _

theorem tokenQuiet_observeToken : TokenQuiet (observeToken (ε := ε)) :=
  .bind plain_now.tokenQuiet fun _ =>
    .bind (tokenQuiet_modifyPinState _ fun state => state.token.weakens_observe _) fun _ => .gets _

theorem tokenQuiet_observed {α : Type} (f : TokenState → α) :
    TokenQuiet (do return f (← observeToken) : EngineM ε α) :=
  .bind tokenQuiet_observeToken fun _ => .pure _

end Basic

theorem tokenLax_confirmUserPresence (request : PresenceRequest) :
    TokenLax (confirmUserPresence request) :=
  .bind (tokenLax_askUser _) fun _ => .ofExcept _

theorem tokenQuiet_consumeTokenAfterUserPresence {ε : Type} :
    TokenQuiet (consumeTokenAfterUserPresence (ε := ε)) :=
  .bind tokenQuiet_observeToken fun _ =>
    tokenQuiet_modifyPinState _ fun state => state.token.weakens_consume

theorem tokenLax_collectPresence (pinUvAuth : Option (PinProtocol × Bytes))
    (request : PresenceRequest) : TokenLax (collectPresence pinUvAuth request) :=
  .bind (built_tokenPresence (tokenQuiet_observed _).tokenLax pinUvAuth) fun _ =>
    .bind (Cmd.Built.when (tokenLax_confirmUserPresence request)) fun _ =>
    tokenQuiet_consumeTokenAfterUserPresence.tokenLax

end SoftwareAuthenticator.Ctap
