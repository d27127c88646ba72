import SoftwareAuthenticator.Ctap.Plain

/-!
# Work on the PIN state

What the functions that read and write the PIN state leave alone: the assertion to be continued,
the large-blob write, and the token in use unless they stop it.
-/

namespace SoftwareAuthenticator.Ctap

structure PinTouch (app app' : CtapApp) : Prop where
  pending : app'.pendingAssertion = app.pendingAssertion
  largeBlobs : app'.largeBlobState = app.largeBlobState
  management : app'.credMgmtState = app.credMgmtState ∨ app'.credMgmtState = .initial
  token : app'.pinState.token = app.pinState.token ∨
    app'.pinState.token = app.pinState.token.stopUsing

def EnvOp.isPinWork (writes : Bool) : EnvOp → Bool
  | .store .pinState => true
  | .store (.setPinState _) | .store .clear => writes
  | .observe (.attempt _) | .observe .decryption | .observe (.comparison _ _)
  | .observe (.newPin _) => writes
  | op => op.isPlainIn .nothing

abbrev PinWork {ε α : Type} (writes : Bool) (c : EngineM ε α) : Prop :=
  Cmd.Moves (EnvOp.isPinWork writes) PinTouch c

variable {writes : Bool}

section Basic

variable {ε α : Type} {c : EngineM ε α}

theorem EnvOp.isPinWork_of_isPlainIn {op : EnvOp} (h : op.isPlainIn .nothing = true) :
    op.isPinWork writes = true := by
  cases op with
  | store op => cases op <;> first | exact h | exact Bool.noConfusion h
  | observe phase => exact Bool.noConfusion h
  | _ => exact h

theorem Plain.pinWork (hc : Plain c) : PinWork writes c := by
  refine Cmd.Moves.mono hc (fun _ => EnvOp.isPinWork_of_isPlainIn) fun app app' hstep => ?_
  exact ⟨congrArg Authority.pending hstep.authority,
    hstep.largeBlobs.resolve_left Bool.false_ne_true,
    hstep.management.resolve_left Bool.false_ne_true,
    .inl (congrArg Authority.token hstep.authority)⟩

theorem pinWork_askEnv (op : EnvOp) (h : op.isPinWork writes = true) :
    PinWork writes (askEnv (ε := ε) op) := .part (Cmd.MovePart.ask (I := env) op h)

theorem pinWork_observePhase (phase : Phase) (h : (EnvOp.observe phase).isPinWork writes = true) :
    PinWork writes (observePhase (ε := ε) phase) := pinWork_askEnv _ h

theorem pinWork_keep (f : PinState → PinState) (h : ∀ state, (f state).token = state.token) :
    PinWork writes (modifyPinState (ε := ε) f) :=
  .part (.modify _ fun app => ⟨rfl, rfl, .inl rfl, .inl (h app.pinState)⟩)

theorem pinWork_stop (f : PinState → PinState)
    (h : ∀ state, (f state).token = state.token.stopUsing) :
    PinWork writes (modifyPinState (ε := ε) f) :=
  .part (.modify _ fun app => ⟨rfl, rfl, .inl rfl, .inr (h app.pinState)⟩)

theorem pinWork_setStoredPinState (stored : StoredPinState) :
    PinWork writes (setStoredPinState (ε := ε) stored) :=
  .part (.modify _ fun _ => ⟨rfl, rfl, .inl rfl, .inl rfl⟩)

end Basic

theorem pinWork_loadPinState {ε : Type} :
    PinWork writes (loadPinState : EngineM ε (PinState × StoredPinState)) := by
  refine .bind (pinWork_askEnv (.store .pinState) rfl) fun loaded => ?_
  split
  · exact .pure _
  · exact .pure _
  · exact .bind (.bind (pinWork_askEnv (.random 16) rfl) fun _ => .pure _) fun _ => .pure _

theorem pinWork_closeAuthority : PinWork writes closeAuthority :=
  .bind (pinWork_stop _ fun _ => rfl) fun _ => .bind plain_clearCredMgmt.pinWork fun _ =>
    pinWork_setStoredPinState _

theorem pinWork_adoptStored (record : PinStateRecord) : PinWork writes (adoptStored record) := by
  refine .bind (.gets _) fun current => ?_
  dsimp only
  split
  · exact .bind (Cmd.Built.when (pinWork_stop _ fun _ => rfl)) fun _ =>
      .bind (pinWork_keep _ fun _ => rfl) fun _ => plain_clearCredMgmt.pinWork
  · exact .pure _

theorem pinWork_refreshPersistentAuthority (writes : Bool) :
    PinWork writes refreshPersistentAuthority := by
  refine .bind (.gets _) fun stored => ?_
  split
  · refine .bind (pinWork_askEnv (.store .pinState) rfl) fun found => ?_
    split
    · exact pinWork_adoptStored _
    · refine .bind (.gets _) fun current => ?_
      split
      · exact .pure _
      · exact .bind pinWork_closeAuthority fun _ => .fail _
    · exact .bind (Cmd.Built.when pinWork_closeAuthority) fun _ => .fail _
  · refine .bind pinWork_loadPinState fun loaded =>
      .bind (pinWork_setStoredPinState _) fun _ => ?_
    split
    · exact .bind (pinWork_stop _ fun _ => rfl) fun _ => plain_clearCredMgmt.pinWork
    · exact .fail _
    · exact .fail _
  · exact .pure _

theorem pinWork_savePinState (record : PersistentPinState) :
    PinWork true (savePinState record) := by
  refine .bind (.gets _) fun stored => ?_
  split
  · refine .bind (pinWork_askEnv (.store (.setPinState record)) rfl) fun answer => ?_
    split
    · exact .pure _
    · exact .fail _
  · exact .fail _
  · exact .fail _

theorem pinWork_requireConfirmedRetry (durability : CommitDurability) :
    PinWork true (requireConfirmedRetry durability) := by
  cases durability with
  | unconfirmed => exact .fail _
  | flushed | volatile => exact .pure _

theorem pinWork_toggleAlwaysUv : PinWork true toggleAlwaysUv :=
  .bind (.gets _) fun _ => .bind (pinWork_savePinState _) fun _ => pinWork_keep _ fun _ => rfl

theorem pinWork_setMinPinLength (params : Entries) : PinWork true (setMinPinLength params) :=
  .bind (.gets _) fun _ => .bind (.ofExcept _) fun _ =>
    .bind (plain_rotatePersistentTokensIf _ _).pinWork fun _ =>
    .bind (pinWork_savePinState _) fun _ =>
    .bind (Cmd.Built.when (.bind (pinWork_stop _ fun _ => rfl) fun _ =>
      plain_clearCredMgmt.pinWork)) fun _ => pinWork_keep _ fun _ => rfl

theorem pinWork_resetAuthenticator : PinWork true resetAuthenticator := by
  refine .bind plain_clearCredMgmt.pinWork fun _ =>
    .bind (pinWork_askEnv (.store .clear) rfl) fun answer => ?_
  split
  · refine .bind ?_ fun _ => .fail _
    refine .bind (Cmd.Built.attempt (pinWork_refreshPersistentAuthority true)) fun outcome => ?_
    split
    · exact .pure _
    · refine .bind (.gets _) fun stored => ?_
      split
      · exact .bind (.bind (pinWork_askEnv (.random 16) rfl) fun _ => .pure _) fun _ =>
          .bind (pinWork_stop _ fun _ => rfl) fun _ => .bind plain_clearCredMgmt.pinWork fun _ =>
          pinWork_setStoredPinState _
      · exact .pure _
      · exact .pure _
  · exact .bind (pinWork_stop _ fun _ => rfl) fun _ => pinWork_setStoredPinState _

theorem pinWork_storeNewPin (pin hash : Bytes) (length : ℕ) :
    PinWork true (storeNewPin pin hash length) :=
  .bind (.gets _) fun _ => .bind (plain_rotatePersistentTokensIf _ _).pinWork fun _ =>
    .bind (pinWork_observePhase _ rfl) fun _ => .bind (pinWork_savePinState _) fun _ =>
    .bind plain_clearCredMgmt.pinWork fun _ => pinWork_stop _ fun _ => rfl

section Checks

variable [Externals]

theorem pinWork_verifyPinHashEnc (protocol : PinProtocol) (keys : PinUvSessionKeys)
    (pinHashEnc : Bytes) : PinWork true (verifyPinHashEnc protocol keys pinHashEnc) := by
  refine .bind (pinWork_refreshPersistentAuthority true) fun _ => .bind ?_ fun _ => ?_
  · refine .bind (.gets _) fun pin => .bind (pinWork_observePhase _ rfl) fun _ =>
      .bind (.ofExcept _) fun debited =>
      .bind plain_unsupportedDirectoryFlush.pinWork fun unsupported => ?_
    split
    · exact .fail _
    · exact .bind (pinWork_savePinState _) fun _ => .bind (pinWork_keep _ fun _ => rfl) fun _ =>
        pinWork_requireConfirmedRetry _
  · refine .bind (pinWork_observePhase _ rfl) fun _ => .bind (.gets _) fun pin =>
      .bind (pinWork_observePhase _ rfl) fun _ => ?_
    split
    · exact .bind (pinWork_keep _ fun _ => rfl) fun _ => .bind (pinWork_keep _ fun _ => rfl)
        fun _ => .bind (.bind (.gets _) fun _ => pinWork_savePinState _) fun _ =>
        .bind (pinWork_requireConfirmedRetry _) fun _ => .fail _
    · exact .bind (pinWork_savePinState _) fun _ => .bind (pinWork_keep _ fun _ => rfl) fun _ =>
        pinWork_requireConfirmedRetry _

theorem pinWork_grantPersistentToken (protocol : PinProtocol) (keys : PinUvSessionKeys) :
    PinWork true (grantPersistentToken protocol keys) :=
  .bind (.gets _) fun _ => .bind (plain_persistentTokenFor _ _).pinWork fun _ =>
    .bind (plain_encryptForPlatform _ _ _).pinWork fun _ => .bind (pinWork_savePinState _)
    fun _ => .bind (pinWork_keep _ fun _ => rfl) fun _ => .bind plain_clearCredMgmt.pinWork
    fun _ => .bind (pinWork_requireConfirmedRetry _) fun _ => .pure _

end Checks

end SoftwareAuthenticator.Ctap
