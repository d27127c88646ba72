import SoftwareAuthenticator.Ctap.Parts
import SoftwareAuthenticator.Ctap.Silent

/-!
# Commands that use the token

Reading the token, verifying with it and letting it authorize changes nothing of the
engine's state but the token, and the token in use afterwards is the one before with
nothing added to what it may do.
-/

namespace SoftwareAuthenticator.Ctap

open Cmd

/-- `token'` is `token` with no right added. -/
structure InUseToken.Continues (token token' : InUseToken) : Prop where
  id : token'.id = token.id
  value : token'.value = token.value
  protocol : token'.protocol = token.protocol
  startedAt : token'.startedAt = token.startedAt
  permissions : token'.permissions &&& token.permissions = token'.permissions
  permissionsRpId : ∀ rpId, token.permissionsRpId = some rpId → token'.permissionsRpId = some rpId
  origin : token'.origin = token.origin ∨ token'.origin = none
  userVerified : token'.userVerified = true → token.userVerified = true
  userPresent : token'.userPresent = true → token.userPresent = true

structure InUseToken.Weakens (token token' : InUseToken) : Prop
    extends token.Continues token' where
  used : token'.used = token.used
  sameRpId : token'.permissionsRpId = token.permissionsRpId

theorem Permissions.within_trans {a b c : Permissions} (hab : a &&& b = a) (hbc : b &&& c = b) :
    a &&& c = a := by
  rw [← hab, UInt8.and_assoc, hbc]

namespace InUseToken

variable (token : InUseToken)

theorem Continues.refl : token.Continues token :=
  ⟨rfl, rfl, rfl, rfl, UInt8.and_self, fun _ h => h, Or.inl rfl, fun h => h, fun h => h⟩

theorem continues_used : token.Continues { token with used := true } :=
  ⟨rfl, rfl, rfl, rfl, UInt8.and_self, fun _ h => h, Or.inl rfl, fun h => h, fun h => h⟩

theorem continues_bindRpId (rpId : String) : token.Continues (token.bindRpId rpId) := by
  unfold bindRpId
  split
  · exact .refl token
  · rename_i hnone
    refine ⟨rfl, rfl, rfl, rfl, UInt8.and_self, fun rpId' h => ?_, Or.inl rfl, fun h => h,
      fun h => h⟩
    rw [hnone] at h
    cases h

theorem Continues.trans {token token' token'' : InUseToken} (h : token.Continues token')
    (h' : token'.Continues token'') : token.Continues token'' where
  id := h'.id.trans h.id
  value := h'.value.trans h.value
  protocol := h'.protocol.trans h.protocol
  startedAt := h'.startedAt.trans h.startedAt
  permissions := Permissions.within_trans h'.permissions h.permissions
  permissionsRpId rpId hrpId := h'.permissionsRpId rpId (h.permissionsRpId rpId hrpId)
  origin := by
    rcases h'.origin with hsame | hnone
    · rw [hsame]
      exact h.origin
    · exact .inr hnone
  userVerified huv := h.userVerified (h'.userVerified huv)
  userPresent hup := h.userPresent (h'.userPresent hup)

theorem Weakens.refl : token.Weakens token := ⟨.refl token, rfl, rfl⟩

theorem weakens_clearPresence (now : Duration) : token.Weakens (token.clearPresence now) := by
  unfold clearPresence
  split
  · exact ⟨⟨rfl, rfl, rfl, rfl, UInt8.and_self, fun _ h => h, Or.inl rfl, fun h => h,
      fun h => by cases h⟩, rfl, rfl⟩
  · exact .refl token

theorem weakens_consume : token.Weakens token.consume := by
  refine ⟨⟨rfl, rfl, rfl, rfl, ?_, fun _ h => h, Or.inr rfl, ?_, ?_⟩, rfl, rfl⟩
  · change token.permissions &&& permissionLbw &&& token.permissions =
      token.permissions &&& permissionLbw
    rw [UInt8.and_comm, ← UInt8.and_assoc, UInt8.and_self]
  · intro h
    cases h
  · intro h
    cases h

end InUseToken

def TokenState.Continues (state state' : TokenState) : Prop :=
  ∀ token', state'.inUse = some token' →
    ∃ token, state.inUse = some token ∧ token.Continues token'

def TokenState.Weakens (state state' : TokenState) : Prop :=
  ∀ token', state'.inUse = some token' → ∃ token, state.inUse = some token ∧ token.Weakens token'

namespace TokenState

theorem inUse_observe {state : TokenState} {now : Duration} {token' : InUseToken}
    (h : (state.observe now).inUse = some token') :
    ∃ token, state.inUse = some token ∧ token.isExpired now = false ∧
      token' = token.clearPresence now := by
  unfold observe at h
  split at h
  · rename_i hnone
    rw [hnone] at h
    cases h
  · rename_i token hsome
    split at h
    · cases h
    · rename_i hexpired
      exact ⟨token, hsome, by simpa using hexpired, (Option.some.inj h).symm⟩

variable (state : TokenState)

theorem Weakens.refl : state.Weakens state :=
  fun token h => ⟨token, h, .refl token⟩

theorem weakens_stopUsing : state.Weakens state.stopUsing :=
  fun _ h => by cases h

theorem weakens_observe (now : Duration) : state.Weakens (state.observe now) := by
  intro token' h
  obtain ⟨token, hsome, -, rfl⟩ := inUse_observe h
  exact ⟨token, hsome, token.weakens_clearPresence now⟩

theorem weakens_consume : state.Weakens (state.update InUseToken.consume) := by
  intro token' h
  obtain ⟨token, hsome, rfl⟩ := Option.map_eq_some_iff.mp h
  exact ⟨token, hsome, token.weakens_consume⟩

theorem Weakens.continues {state state' : TokenState} (h : state.Weakens state') :
    state.Continues state' := by
  intro token' hin
  obtain ⟨token, hsome, hweakens⟩ := h token' hin
  exact ⟨token, hsome, hweakens.toContinues⟩

theorem continues_bindRpId (rpId : String) : state.Continues (state.update (·.bindRpId rpId)) := by
  intro token' h
  obtain ⟨token, hsome, rfl⟩ := Option.map_eq_some_iff.mp h
  exact ⟨token, hsome, token.continues_bindRpId rpId⟩

theorem Continues.isNone {state state' : TokenState} (h : state.Continues state')
    (hnone : state.inUse = none) : state'.inUse = none := by
  cases hsome : state'.inUse with
  | none => rfl
  | some token' =>
    obtain ⟨token, htoken, -⟩ := h token' hsome
    rw [hnone] at htoken
    cases htoken

variable [Externals]

/-- A verification fails and changes nothing, or it succeeds and the token has been
used. -/
theorem verify_cases (protocol : PinProtocol) (message signature : Bytes) :
    (∃ status, state.verify protocol message signature = (.error status, state)) ∨
      ∃ token, state.inUse = some token ∧ token.protocol = protocol ∧
        Ctap.verify protocol token.value message signature = .ok () ∧
        state.verify protocol message signature =
          (.ok (), { state with inUse := some { token with used := true } }) := by
  unfold TokenState.verify
  cases hin : state.inUse with
  | none => exact Or.inl ⟨_, rfl⟩
  | some token =>
    dsimp only
    split
    · exact Or.inl ⟨_, rfl⟩
    · rename_i hprotocol
      cases hverify : Ctap.verify protocol token.value message signature with
      | error status => exact Or.inl ⟨status, rfl⟩
      | ok u =>
        refine Or.inr ⟨token, rfl, not_not.mp hprotocol, hverify, ?_⟩
        dsimp only
        rw [TokenState.update, hin]
        rfl

end TokenState

def CtapApp.mapToken (app : CtapApp) (f : TokenState → TokenState) : CtapApp :=
  { app with pinState := { app.pinState with token := f app.pinState.token } }

structure TokenStep (app app' : CtapApp) : Prop where
  frame : ∃ token, app' = app.mapToken fun _ => token
  token : app.pinState.token.Continues app'.pinState.token

theorem tokenStep_mapToken (app : CtapApp) {f : TokenState → TokenState}
    (hf : ∀ state : TokenState, state.Continues (f state)) : TokenStep app (app.mapToken f) :=
  ⟨⟨f app.pinState.token, rfl⟩, hf _⟩

def EnvOp.isTokenOp : EnvOp → Bool
  | .observe (.verified _ _) | .observe (.authorized _ _) => true
  | op => op.isPlainIn .nothing

abbrev TokenSteady {ε α : Type} (c : EngineM ε α) : Prop := Moves EnvOp.isTokenOp TokenStep c

theorem observeToken_rule {ε W : Type} {O : Observer env W} {P failed : CtapApp → W → Prop}
    {Q : TokenState → CtapApp → W → Prop}
    (h : ∀ app w (time : Duration), P app w → O.admits w ⟨.now, time⟩ →
      O.safe (O.next w ⟨.now, time⟩) ∧ Q (app.pinState.token.observe time)
        (app.mapToken (·.observe time)) (O.next w ⟨.now, time⟩)) :
    Triple O P (observeToken (ε := ε)) (either Q failed) := by
  refine Triple.andThen (M := fun time app w =>
    Q (app.pinState.token.observe time) (app.mapToken (·.observe time)) w) ?_ fun time => ?_
  · exact triple_ask fun app w time hw hadmits => h app w time hw hadmits
  · refine Triple.andThen (M := fun _ app w => Q app.pinState.token app w) ?_ fun _ => ?_
    · exact triple_modify fun app w hw => hw
    · exact triple_gets fun app w hw => hw

theorem runs_observeToken {ε : Type} {app app' : CtapApp} {tr : Trace} {x : Except ε TokenState}
    (h : observeToken.Runs app tr x app') :
    ∃ time : Duration, tr = [⟨.now, time⟩] ∧ x = .ok (app.pinState.token.observe time) ∧
      app' = app.mapToken (·.observe time) := by
  rcases runs_bind.mp h with ⟨_, _, time, _, rfl, hnow, h₁⟩ | ⟨_, -, hnow⟩
  · obtain ⟨_, rfl, heq, rfl⟩ := runs_ask.mp hnow
    cases heq
    rcases runs_bind.mp h₁ with ⟨_, _, ⟨⟩, _, rfl, hmodify, h₂⟩ | ⟨_, -, hmodify⟩
    · obtain ⟨rfl, -, rfl⟩ := runs_modify.mp hmodify
      obtain ⟨rfl, rfl, rfl⟩ := runs_gets.mp h₂
      exact ⟨time, rfl, rfl, rfl⟩
    · obtain ⟨-, heq, -⟩ := runs_modify.mp hmodify
      cases heq
  · obtain ⟨_, -, heq, -⟩ := runs_ask.mp hnow
    cases heq

section Steady

variable {ε : Type}

theorem tokenSteady_askEnv (op : EnvOp) (h : op.isTokenOp = true) :
    TokenSteady (askEnv (ε := ε) op) := .part (MovePart.ask (I := env) op h)

theorem tokenSteady_modifyToken (f : TokenState → TokenState)
    (hf : ∀ state : TokenState, state.Continues (f state)) :
    TokenSteady (modifyToken (ε := ε) f) := .part (.modify _ fun app => tokenStep_mapToken app hf)

theorem tokenSteady_observeToken : TokenSteady (observeToken (ε := ε)) :=
  .bind (tokenSteady_askEnv .now rfl) fun time =>
    .bind (tokenSteady_modifyToken _ fun state => (state.weakens_observe time).continues) fun _ => .gets _

theorem tokenSteady_observed {α : Type} (f : TokenState → α) :
    TokenSteady (do return f (← observeToken) : EngineM ε α) :=
  .bind tokenSteady_observeToken fun _ => .pure _

theorem tokenSteady_observeAuthorized (purpose : Purpose) :
    TokenSteady (observeAuthorized (ε := ε) purpose) := by
  refine .bind (.gets _) fun token => ?_
  cases token with
  | none => exact .pure _
  | some token => exact tokenSteady_askEnv (.observe (.authorized token.id purpose)) rfl

end Steady

theorem tokenSteady_ensurePinTokenPermissionForRp (permission : Permissions) (rpId : String) :
    TokenSteady (ensurePinTokenPermissionForRp permission rpId) := by
  refine .bind tokenSteady_observeToken fun token => ?_
  split
  · exact .fail _
  · split
    · exact .fail _
    · split
      · exact .fail _
      · exact .bind (tokenSteady_modifyToken _ fun state => state.continues_bindRpId rpId)
          fun _ => tokenSteady_observeAuthorized _

theorem tokenSteady_ensurePermission (permission : Permissions) (purpose : Purpose) :
    TokenSteady (ensurePermission permission purpose) := by
  refine .bind (tokenSteady_observed _) fun allowed => ?_
  split
  · exact tokenSteady_observeAuthorized _
  · exact .fail _

theorem tokenSteady_tokenPresence (pinUvAuth : Option (PinProtocol × Bytes)) :
    TokenSteady (tokenPresence pinUvAuth) := built_tokenPresence (tokenSteady_observed _) pinUvAuth

theorem tokenSteady_sameVerifiedToken (auth : EnumerationAuthorization)
    (family : ManagementFamily) : TokenSteady (sameVerifiedToken auth family) := by
  unfold sameVerifiedToken
  split
  · exact .pure _
  · refine .bind (tokenSteady_observed _) fun token => ?_
    split
    · exact .pure _
    · exact tokenSteady_observed _

section Management

theorem tokenSteady_legacyPreviewHolds (family : ManagementFamily) :
    TokenSteady (legacyPreviewHolds family) := by
  unfold legacyPreviewHolds
  split
  · refine .bind (tokenSteady_observed _) fun origin => ?_
    split
    · exact .bind (tokenSteady_observed _) fun _ => .pure _
    · exact .pure _
  · exact .pure _

variable [Externals]

theorem tokenSteady_cmPermissionHolds (rpHash : Option Bytes) :
    TokenSteady (cmPermissionHolds rpHash) := by
  refine .bind (tokenSteady_observed _) fun allowed => ?_
  split
  · refine .bind (tokenSteady_observed _) fun binding => ?_
    split
    · exact .pure _
    · exact .pure _
  · exact .pure _

theorem tokenSteady_continueEnumeration (auth : Option EnumerationAuthorization)
    (family : ManagementFamily) (rpHash : Option Bytes) :
    TokenSteady (continueEnumeration auth family rpHash) := by
  refine .bind ?_ fun allowed => .bind (Built.when ?_) fun _ => .pure _
  · unfold cmContinuationAuthorized
    split
    · exact .pure _
    · split
      · exact .bind (.gets _) fun _ => .pure _
      · refine .bind (tokenSteady_sameVerifiedToken _ _) fun same => ?_
        split
        · exact tokenSteady_legacyPreviewHolds family
        · exact .pure _
      · refine .bind (tokenSteady_sameVerifiedToken _ _) fun same => ?_
        split
        · exact tokenSteady_cmPermissionHolds rpHash
        · exact .pure _
  · unfold observeContinuation
    split
    · exact .pure _
    · exact .pure _
    · exact tokenSteady_observeAuthorized _

omit [Externals] in
theorem tokenSteady_managedCredential (id : Bytes) : TokenSteady (managedCredential id) := by
  unfold managedCredential
  split
  · exact built_storedCredential (tokenSteady_askEnv (.store (.get _)) rfl)
  · exact .pure _

theorem tokenSteady_ensurePinTokenPermissionForCm (subcommand : ManagementSubcommand)
    (params : Option Entries) : TokenSteady (ensurePinTokenPermissionForCm subcommand params) := by
  refine .bind (tokenSteady_observed _) fun allowed => ?_
  split
  · refine .bind (tokenSteady_observed _) fun binding => ?_
    split
    · exact .pure _
    · exact built_withinBinding tokenSteady_managedCredential _ _ _
  · exact .fail _

theorem tokenSteady_cmAuthorize (family : ManagementFamily) (subcommand : ManagementSubcommand)
    (params : Option Entries) (protocol : PinProtocol) :
    TokenSteady (cmAuthorize family subcommand params protocol) := by
  refine .bind ?_ fun mode => .bind (tokenSteady_observed _) fun token =>
    .bind (built_okOr _ _) fun _ => .bind (tokenSteady_observeAuthorized _) fun _ => .pure _
  have hcm := tokenSteady_ensurePinTokenPermissionForCm subcommand params
  cases family with
  | standard => exact .bind hcm fun _ => .pure _
  | preview =>
    refine .bind (tokenSteady_observed _) fun verified => ?_
    split
    · refine .bind (tokenSteady_observed _) fun origin => ?_
      split
      · refine .bind (tokenSteady_observed _) fun binding => ?_
        split
        · exact .pure _
        · exact .fail _
      · exact .bind hcm fun _ => .pure _
      · exact .fail _
    · exact .fail _

end Management

section Verify

variable [Externals] {W : Type} {O : Observer env W} {P : CtapApp → W → Prop}

theorem verifyPinUvAuthParam_keeps
    (hstep : ∀ app app' w, TokenStep app app' → P app w → P app' w)
    (hop : ∀ app w (e : env.Event), EnvOp.isTokenOp e.op = true → P app w → O.admits w e →
      O.safe (O.next w e) ∧ P app (O.next w e)) (protocol : PinProtocol)
    (message param : Bytes) : Keeps O P (verifyPinUvAuthParam protocol message param) := by
  refine Triple.same (Triple.andThen (M := fun state app w => P app w ∧
    app.pinState.token = state) (observeToken_rule fun app w time hw hadmits => ?_)
    fun state => ?_)
  · obtain ⟨hsafe, hw'⟩ := hop app w ⟨.now, time⟩ rfl hw hadmits
    exact ⟨hsafe, hstep _ _ _ (tokenStep_mapToken app fun state => (state.weakens_observe time).continues)
      hw', rfl⟩
  · rcases state.verify_cases protocol message param with
      ⟨status, heq⟩ | ⟨token, htoken, -, -, heq⟩
    · dsimp only
      rw [heq]
      refine Triple.andThen (M := fun _ => P) ?_ fun _ => triple_fail fun app w hw => hw
      refine triple_modify ?_
      rintro app w ⟨hw, rfl⟩
      exact hw
    · dsimp only
      rw [heq]
      refine Triple.andThen (M := fun _ => P) ?_ fun _ => ?_
      · refine triple_modify ?_
        rintro app w ⟨hw, rfl⟩
        refine hstep app _ w ⟨⟨_, rfl⟩, fun token' ht' => ⟨token, htoken, ?_⟩⟩ hw
        obtain rfl := Option.some.inj ht'
        exact token.continues_used
      · dsimp only
        rw [htoken]
        exact triple_ask fun app w answer hw hadmits => hop app w _ rfl hw hadmits

theorem basicPart_keeps {ε α : Type} {scope : Scope} {c : EngineM ε α}
    (hc : BasicPart scope ε α c)
    (hplain : ∀ {ε α : Type} {c : EngineM ε α}, PlainIn scope c → Keeps O P c)
    (hstep : ∀ app app' w, TokenStep app app' → P app w → P app' w)
    (hop : ∀ app w (e : env.Event), EnvOp.isTokenOp e.op = true → P app w → O.admits w e →
      O.safe (O.next w e) ∧ P app (O.next w e))
    (hpending : ∀ {ε : Type} pending, scope.remembers = true ∨ pending = none →
      Keeps O P (setPendingAssertion (ε := ε) pending))
    (hdiscard : ∀ {ε : Type}, Keeps O P (discardLargeBlobState (ε := ε)))
    (hrefresh : Keeps O P refreshPersistentAuthority)
    (htoggle : Keeps O P toggleAlwaysUv)
    (hminimum : ∀ params, Keeps O P (setMinPinLength params))
    (hreset : Keeps O P resetAuthenticator) : Keeps O P c := by
  cases hc with
  | plain h => exact hplain h
  | setPendingAssertion pending h => exact hpending pending h
  | discardLargeBlobState => exact hdiscard
  | observeToken => exact tokenSteady_observeToken.keeps hstep hop
  | verifyPinUvAuthParam protocol message param =>
    exact verifyPinUvAuthParam_keeps hstep hop protocol message param
  | ensurePinTokenPermissionForRp permission rpId =>
    exact (tokenSteady_ensurePinTokenPermissionForRp _ _).keeps hstep hop
  | ensureLargeBlobWrite | ensureConfig => exact (tokenSteady_ensurePermission _ _).keeps hstep hop
  | cmAuthorize family subcommand params protocol =>
    exact (tokenSteady_cmAuthorize _ _ _ _).keeps hstep hop
  | continueEnumeration auth family rpHash =>
    exact (tokenSteady_continueEnumeration _ _ _).keeps hstep hop
  | refreshPersistentAuthority => exact hrefresh
  | toggleAlwaysUv => exact htoggle
  | setMinPinLength params => exact hminimum params
  | resetAuthenticator => exact hreset

end Verify

section Ask

variable {W : Type} {O : Observer env W} {P : CtapApp → W → Prop}

def EnvOp.isUserOp : EnvOp → Bool
  | .isCancelled | .keepalive _ | .confirm _ => true
  | op => op.isTokenOp

abbrev UserSteady {ε α : Type} (c : EngineM ε α) : Prop := Moves EnvOp.isUserOp TokenStep c

theorem EnvOp.isUserOp_of_isTokenOp {op : EnvOp} (h : op.isTokenOp = true) :
    op.isUserOp = true := by
  cases op <;> first | rfl | exact h

theorem TokenSteady.userSteady {ε α : Type} {c : EngineM ε α} (hc : TokenSteady c) :
    UserSteady c := Moves.mono hc (fun _ => EnvOp.isUserOp_of_isTokenOp) fun _ _ h => h

theorem userSteady_askUser {ε : Type} (request : PresenceRequest) :
    UserSteady (askUser (ε := ε) request) := by
  refine .bind (.part (MovePart.ask (I := env) .isCancelled rfl)) fun cancelled => ?_
  split
  · exact .pure _
  · exact .bind (.part (MovePart.ask (I := env) (.keepalive true) rfl)) fun _ =>
      .bind (.part (MovePart.ask (I := env) (.confirm request) rfl)) fun _ =>
      .bind (.part (MovePart.ask (I := env) (.keepalive false) rfl)) fun _ => .pure _

theorem userSteady_collectPresence (pinUvAuth : Option (PinProtocol × Bytes))
    (request : PresenceRequest) : UserSteady (collectPresence pinUvAuth request) := by
  refine .bind (tokenSteady_tokenPresence pinUvAuth).userSteady fun present => ?_
  refine .bind (Built.when (.bind (userSteady_askUser request) fun _ => .ofExcept _)) fun _ => ?_
  exact .bind tokenSteady_observeToken.userSteady fun _ =>
    (tokenSteady_modifyToken _ fun state => state.weakens_consume.continues).userSteady

theorem askingPart_keeps {part : (ε α : Type) → EngineM ε α → Prop} {ε α : Type}
    {c : EngineM ε α} (hc : AskingPart part ε α c)
    (hpart : ∀ {ε α : Type} {c : EngineM ε α}, part ε α c → Keeps O P c)
    (hstep : ∀ app app' w, TokenStep app app' → P app w → P app' w)
    (hop : ∀ app w (e : env.Event), EnvOp.isUserOp e.op = true → P app w → O.admits w e →
      O.safe (O.next w e) ∧ P app (O.next w e)) : Keeps O P c := by
  cases hc with
  | quiet h => exact hpart h
  | askUser request => exact (userSteady_askUser request).keeps hstep hop
  | collectPresence pinUvAuth request =>
    exact (userSteady_collectPresence pinUvAuth request).keeps hstep hop

end Ask

end SoftwareAuthenticator.Ctap
