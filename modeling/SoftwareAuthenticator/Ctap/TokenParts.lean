import SoftwareAuthenticator.Ctap.TokenTrace

/-!
# Verifying, binding and issuing

Every part of a request keeps what is stated of the token in use: those that only
weaken it by what they are, the others by the checks they make first.
-/

namespace SoftwareAuthenticator.Ctap

open Cmd

section Marks

variable {token : InUseToken} {past : Trace}

theorem tokenEvent_verified {message : Bytes} {time : Duration}
    (htime : lastReading past = some time) (hlimit : time < token.startedAt + maxUsageTimePeriod)
    (hinitial : token.used = false → ¬ HasVerified past →
      time < token.startedAt + initialUsageTimeLimit) :
    TokenEvent token past (mark (.verified token.id message)) where
  verified := by
    intro id message heq
    cases heq
    exact ⟨rfl, time, htime, hlimit, hinitial⟩
  authorized := by rintro _ _ ⟨⟩
  rpOperation := by rintro _ _ _ ⟨⟩

theorem tokenEvent_authorized {purpose : Purpose}
    (hspent : token.Spent → purpose = .largeBlobWrite)
    (hrp : ∀ permission rpId, purpose = .rpOperation permission rpId →
      (∀ bound, token.permissionsRpId = some bound → bound = rpId) ∧
        ∀ rpId', AuthorizedFor past rpId' → rpId' = rpId) :
    TokenEvent token past (mark (.authorized token.id purpose)) where
  verified := by rintro _ _ ⟨⟩
  authorized := by
    intro id purpose heq
    cases heq
    exact ⟨rfl, hspent⟩
  rpOperation := by
    intro id permission rpId heq
    cases heq
    exact hrp permission rpId rfl

theorem tokenEvent_token (id : UInt64) : TokenEvent token past (mark (.token id)) where
  verified := by rintro _ _ ⟨⟩
  authorized := by rintro _ _ ⟨⟩
  rpOperation := by rintro _ _ _ ⟨⟩

end Marks

section Parts

variable {token : InUseToken} {ε : Type}

theorem InUseToken.lt_of_isExpired_eq_false {token : InUseToken} {time : Duration}
    (h : token.isExpired time = false) :
    time < token.startedAt + maxUsageTimePeriod ∧
      (token.used = false → time < token.startedAt + initialUsageTimeLimit) := by
  have h' := of_decide_eq_false h
  rw [not_or, not_and] at h'
  obtain ⟨hmax, hinitial⟩ := h'
  refine ⟨lt_add_of_tsub_lt_left (Nat.lt_of_not_le hmax), fun hused => ?_⟩
  exact lt_add_of_tsub_lt_left (Nat.lt_of_not_le (hinitial hused))

theorem observeAuthorized_held (purpose : Purpose) :
    Triple (tokenObserver token)
      (fun app past => Held token app past ∧ (Unspent token past ∨ purpose = .largeBlobWrite) ∧
        ∀ permission rpId, purpose = .rpOperation permission rpId →
          app.pinState.token.permissionsRpId = some rpId)
      (observeAuthorized (ε := ε) purpose) fun _ => Held token := by
  refine triple_gets_bind fun inUse => ?_
  cases inUse with
  | none => exact triple_pure fun app past h => h.2.1
  | some token' =>
    refine triple_ask ?_
    rintro app past ⟨⟩ ⟨ht', h, hunspent, hrp⟩ -
    have hbound : ∀ permission rpId, purpose = .rpOperation permission rpId →
        token'.permissionsRpId = some rpId := by
      intro permission rpId heq
      have := hrp permission rpId heq
      rw [TokenState.permissionsRpId, ht'] at this
      exact this
    have h' : Held token app (past ++ [mark (.authorized token'.id purpose)]) := by
      refine h.concat (fun hissued => ?_) ?_
      · have hd := (h.2.resolve_left hissued) token' ht'
        rw [hd.id]
        refine tokenEvent_authorized (fun hs => ?_) fun permission rpId heq => ⟨?_, ?_⟩
        · rcases hunspent with (hi | hns) | hlbw
          · exact absurd hi hissued
          · exact absurd hs hns
          · exact hlbw
        · intro bound hb
          have := (hd.permissionsRpId bound hb).symm.trans (hbound permission rpId heq)
          exact Option.some.inj this
        · intro rpId' ha
          have := (hd.authorizedFor rpId' ha).symm.trans (hbound permission rpId heq)
          exact Option.some.inj this
      · intro id permission rpId heq
        cases heq
        exact hrp permission rpId rfl
    exact ⟨h'.1, h'⟩

theorem ensurePermission_held {permission : Permissions} {purpose : Purpose}
    (hpurpose : permissionLbw &&& permission = 0 ∨ purpose = .largeBlobWrite)
    (hrp : ∀ permission rpId, purpose ≠ .rpOperation permission rpId) :
    Keeps (tokenObserver token) (Held token) (ensurePermission permission purpose) := by
  refine Triple.same (Triple.andThen (observed_held _) fun allowed => ?_)
  split
  · rename_i hallowed
    refine Triple.both ((observeAuthorized_held purpose).weaken ?_)
    rintro app past ⟨h, hpermission⟩
    refine ⟨h, ?_, fun permission rpId heq => absurd heq (hrp permission rpId)⟩
    rcases hpurpose with hlbw | hlbw
    · exact Or.inl (h.unspent_of_permission hlbw (hpermission.trans hallowed))
    · exact Or.inr hlbw
  · exact triple_fail fun app past h => h.1

theorem InUseToken.Descends.bindRpId {token' : InUseToken} {past : Trace} {rpId : String}
    (h : token.Descends past token') : token.Descends past (token'.bindRpId rpId) where
  toContinues := h.toContinues.trans (token'.continues_bindRpId rpId)
  authorizedFor rpId' hrp :=
    (token'.continues_bindRpId rpId).permissionsRpId rpId' (h.authorizedFor rpId' hrp)
  used := by
    unfold InUseToken.bindRpId
    split <;> exact h.used

theorem Held.bindRpId {app : CtapApp} {past : Trace} (h : Held token app past) (rpId : String) :
    Held token (app.mapToken (·.update (·.bindRpId rpId))) past := by
  refine ⟨h.1, h.2.imp_right fun hd token' ht' => ?_⟩
  obtain ⟨token'', ht'', rfl⟩ := Option.map_eq_some_iff.mp ht'
  exact (hd token'' ht'').bindRpId

theorem TokenState.permissionsRpId_bindRpId {state : TokenState} {rpId : String}
    (hin : state.inUse.isSome) (h : (state.permissionsRpId.any fun bound => bound ≠ rpId) = false) :
    (state.update (·.bindRpId rpId)).permissionsRpId = some rpId := by
  obtain ⟨token, htoken⟩ := Option.isSome_iff_exists.mp hin
  rw [TokenState.permissionsRpId, htoken] at h
  rw [TokenState.permissionsRpId, TokenState.update, htoken]
  change (token.bindRpId rpId).permissionsRpId = some rpId
  unfold InUseToken.bindRpId
  cases hbound : token.permissionsRpId with
  | none => rfl
  | some bound =>
    rw [Option.bind_some, hbound] at h
    have heq : bound = rpId := by simpa using h
    dsimp only
    rw [hbound, heq]

theorem TokenState.inUse_isSome_of_hasPermission {state : TokenState} {permission : Permissions}
    (h : state.hasPermission permission = true) : state.inUse.isSome := by
  obtain ⟨token, htoken, -⟩ := (Option.any_eq_true _ _).mp h
  rw [htoken]
  rfl

theorem ensurePinTokenPermissionForRp_held (permission : Permissions) (rpId : String) :
    Keeps (tokenObserver token) (Held token)
      (ensurePinTokenPermissionForRp permission rpId) := by
  refine Triple.same (Triple.andThen observeToken_held fun state => ?_)
  split
  · exact triple_fail fun app past h => h.1
  · rename_i hpermission
    split
    · exact triple_fail fun app past h => h.1
    · rename_i hbinding
      split
      · exact triple_fail fun app past h => h.1
      · rename_i hverified
        refine Triple.andThen (M := fun _ app past => Held token app past ∧
          Unspent token past ∧ app.pinState.token.permissionsRpId = some rpId) ?_ fun _ => ?_
        · refine triple_modify ?_
          rintro app past ⟨h, rfl, -⟩
          have hin : app.pinState.token.inUse.isSome :=
            TokenState.inUse_isSome_of_hasPermission (by simpa using hpermission)
          exact ⟨h.bindRpId rpId, h.unspent_of_userVerified (by simpa using hverified),
            TokenState.permissionsRpId_bindRpId hin (by simpa using hbinding)⟩
        · refine Triple.both ((observeAuthorized_held _).weaken ?_)
          rintro app past ⟨h, hunspent, hrp⟩
          refine ⟨h, Or.inl hunspent, fun permission' rpId' heq => ?_⟩
          cases heq
          exact hrp

theorem issuePinUvAuthToken_held (protocol : PinProtocol) (value : Bytes) (grant : TokenGrant) :
    Keeps (tokenObserver token) (Held token)
      (issuePinUvAuthToken (ε := ε) protocol value grant) := by
  refine triple_gets_bind fun issued => ?_
  refine Triple.same (Triple.andThen (M := fun _ _ past => TokenTrace token past ∧
    Issued past) ?_ fun _ => Triple.andThen (M := fun _ _ past => TokenTrace token past ∧
    Issued past) ?_ fun time => ?_)
  · refine triple_ask ?_
    rintro app past ⟨⟩ ⟨-, h⟩ -
    have htrace : TokenTrace token (past ++ [mark (.token (issued + 1))]) :=
      eachAfter_concat.mpr ⟨h.1, fun _ => tokenEvent_token _⟩
    exact ⟨htrace, htrace, issued + 1, List.mem_append_right _ (List.mem_singleton_self _)⟩
  · refine triple_ask ?_
    rintro app past time ⟨htrace, hi⟩ -
    have htrace' : TokenTrace token (past ++ [⟨.now, time⟩]) :=
      eachAfter_concat.mpr ⟨htrace, fun hni => absurd hi hni⟩
    exact ⟨htrace', htrace', hi.append _⟩
  · refine triple_modify ?_
    rintro app past ⟨htrace, hi⟩
    exact ⟨htrace, Or.inl hi⟩

end Parts

section Verify

variable {token : InUseToken}

theorem Held.verified {app : CtapApp} {past : Trace} {message : Bytes} {token' : InUseToken}
    (h : Held token app past) (ht' : app.pinState.token.inUse = some token')
    (htime : InTime app.pinState.token past) :
    Held token (app.mapToken fun state => { state with inUse := some { token' with used := true } })
      (past ++ [mark (.verified token'.id message)]) := by
  obtain ⟨time, hlast, hexpired⟩ := htime
  obtain ⟨hlimit, hinitial⟩ := InUseToken.lt_of_isExpired_eq_false (hexpired token' ht')
  refine ⟨eachAfter_concat.mpr ⟨h.1, fun hissued => ?_⟩, ?_⟩
  · have hd := (h.2.resolve_left hissued) token' ht'
    rw [hd.startedAt] at hlimit hinitial
    rw [hd.id]
    refine tokenEvent_verified hlast hlimit fun hunused hunverified => hinitial ?_
    rw [Bool.eq_false_iff]
    intro hused
    rcases hd.used hused with hused | hverified
    · rw [hunused] at hused
      cases hused
    · exact hunverified hverified
  · rcases h.2 with hissued | hd
    · exact Or.inl (hissued.append _)
    · refine Or.inr fun token'' ht'' => ?_
      obtain rfl := Option.some.inj ht''
      have hd' := (hd token' ht').concat (e := mark (.verified token'.id message)) (by
        intro id permission rpId heq
        cases heq)
      exact { hd' with used := fun _ => Or.inr ⟨token'.id, message,
        List.mem_append_right _ (List.mem_singleton_self _)⟩ }

theorem sameVerifiedToken_held (auth : EnumerationAuthorization) (family : ManagementFamily) :
    Triple (tokenObserver token) (Held token) (sameVerifiedToken auth family)
      (either (fun same app past => Held token app past ∧
        (same = true → Unspent token past)) (Held token)) := by
  have hno : Triple (tokenObserver token) (Held token)
      (pure false : EngineM Status Bool)
      (either (fun same app past => Held token app past ∧
        (same = true → Unspent token past)) (Held token)) :=
    triple_pure fun app past h => ⟨h, fun hfalse => by cases hfalse⟩
  unfold sameVerifiedToken
  split
  · exact hno
  · refine Triple.andThen (observed_held _) fun id => ?_
    split
    · exact hno.weaken fun app past h => h.1
    · refine ((observed_held TokenState.userVerifiedFlag).weaken fun app past h =>
        h.1).outcome (fun verified app past h => ?_) fun _ _ _ h => h
      exact ⟨h.1, fun htrue => h.1.unspent_of_userVerified (h.2.trans htrue)⟩

variable [Externals]

theorem verifyPinUvAuthParam_held (protocol : PinProtocol) (message param : Bytes) :
    Keeps (tokenObserver token) (Held token)
      (verifyPinUvAuthParam protocol message param) := by
  refine Triple.same (Triple.andThen observeToken_held fun state => ?_)
  rcases state.verify_cases protocol message param with
    ⟨status, heq⟩ | ⟨token', ht', -, -, heq⟩
  · dsimp only
    rw [heq]
    refine Triple.andThen (M := fun _ => Held token) ?_ fun _ =>
      triple_fail fun app past h => h
    refine triple_modify ?_
    rintro app past ⟨h, rfl, -⟩
    exact h
  · dsimp only
    rw [heq]
    dsimp only
    refine Triple.andThen (M := fun _ app past =>
      Held token app (past ++ [mark (.verified token'.id message)])) ?_ fun _ => ?_
    · refine triple_modify ?_
      rintro app past ⟨h, rfl, htime⟩
      exact h.verified ht' htime
    · rw [ht']
      refine triple_ask ?_
      rintro app past ⟨⟩ h -
      exact ⟨h.1, h⟩

theorem cmContinuationAuthorized_held (auth : EnumerationAuthorization)
    (family : ManagementFamily) (rpHash : Option Bytes) (hmode : auth.mode ≠ .persistentReadOnly) :
    Triple (tokenObserver token) (Held token)
      (cmContinuationAuthorized (some auth) family rpHash)
      (either (fun allowed app past => Held token app past ∧
        (allowed = true → Unspent token past)) (Held token)) := by
  have hrest : ∀ c : EngineM Status Bool, TokenQuiet c → ∀ same : Bool,
      Triple (tokenObserver token)
        (fun app past => Held token app past ∧ (same = true → Unspent token past))
        (if same = true then c else pure false)
        (either (fun allowed app past => Held token app past ∧
          (allowed = true → Unspent token past)) (Held token)) := by
    intro c hc same
    split
    · rename_i hsame
      exact (hc.tokenLax.keeps_unspent.weaken fun app past h => ⟨h.1, h.2 hsame⟩).outcome
        (fun _ app past h => ⟨h.1, fun _ => h.2⟩) fun _ _ _ h => h
    · exact triple_pure fun app past h => ⟨h.1, fun hfalse => by cases hfalse⟩
  unfold cmContinuationAuthorized
  cases hm : auth.mode with
  | persistentReadOnly => exact absurd hm hmode
  | legacyPreview =>
    dsimp only
    rw [hm]
    refine Triple.andThen (sameVerifiedToken_held auth family) fun same => hrest _ ?_ same
    unfold legacyPreviewHolds
    split
    · refine .bind (tokenQuiet_observed _) fun origin => ?_
      split
      · exact .bind (tokenQuiet_observed _) fun _ => .pure _
      · exact .pure _
    · exact .pure _
  | cmPermission =>
    dsimp only
    rw [hm]
    refine Triple.andThen (sameVerifiedToken_held auth family) fun same => hrest _ ?_ same
    refine .bind (tokenQuiet_observed _) fun allowed => ?_
    split
    · refine .bind (tokenQuiet_observed _) fun binding => ?_
      split
      · exact .pure _
      · exact .pure _
    · exact .pure _

theorem continueEnumeration_held (auth : Option EnumerationAuthorization)
    (family : ManagementFamily) (rpHash : Option Bytes) :
    Keeps (tokenObserver token) (Held token) (continueEnumeration auth family rpHash) := by
  have hquiet : ∀ allowed, Triple (tokenObserver token) (Held token)
      (Cmd.when allowed (pure ()) >>= fun _ => pure allowed : EngineM Status Bool)
      (either (fun _ => Held token) (Held token)) := fun allowed =>
    (TokenLax.keeps_held (.bind (Built.when (.pure _)) fun _ => .pure _)).both
  refine Triple.same ?_
  cases auth with
  | none => exact hquiet false
  | some auth =>
    by_cases hmode : auth.mode = .persistentReadOnly
    · obtain ⟨authFamily, protocol, id, mode⟩ := auth
      obtain rfl : mode = .persistentReadOnly := hmode
      refine Triple.andThen (M := fun _ => Held token) ?_ hquiet
      exact (TokenLax.keeps_held (.bind (.gets _) fun _ => .pure _)).both
    · refine Triple.andThen (cmContinuationAuthorized_held auth family rpHash hmode)
        fun allowed => Triple.andThen (M := fun _ => Held token) (Triple.both ?_)
        fun _ => triple_pure fun app past h => h
      refine Triple.when (fun hallowed => ?_) fun _ app past h => h.1
      have hmark : observeContinuation (some auth) = observeAuthorized .credentialManagement := by
        obtain ⟨authFamily, protocol, id, mode⟩ := auth
        cases mode with
        | persistentReadOnly => exact absurd rfl hmode
        | legacyPreview | cmPermission => rfl
      rw [hmark]
      refine (observeAuthorized_held _).weaken fun app past h => ?_
      exact ⟨h.1, Or.inl (h.2 hallowed), fun permission rpId heq => by cases heq⟩

theorem tokenQuiet_ensurePinTokenPermissionForCm (subcommand : ManagementSubcommand)
    (params : Option Entries) : TokenQuiet (ensurePinTokenPermissionForCm subcommand params) := by
  refine .bind (tokenQuiet_observed _) fun allowed => ?_
  split
  · refine .bind (tokenQuiet_observed _) fun binding => ?_
    split
    · exact .pure _
    · exact PlainIn.tokenQuiet (built_withinBinding plain_managedCredential _ _ _)
  · exact .fail _

theorem authorizationMode_held (family : ManagementFamily) (subcommand : ManagementSubcommand)
    (params : Option Entries) :
    Triple (tokenObserver token) (Held token) (authorizationMode family subcommand params)
      (either (fun _ app past => Held token app past ∧ Unspent token past) (Held token)) := by
  cases family with
  | standard =>
    refine Triple.andThen (M := fun _ app past => Held token app past ∧ Unspent token past)
      ?_ fun _ => triple_pure fun app past h => h
    refine Triple.andThen (observed_held _) fun allowed => ?_
    split
    · rename_i hallowed
      refine (TokenQuiet.tokenLax (.bind (tokenQuiet_observed _) fun binding =>
        ?_)).keeps_unspent.weaken
        fun app past h => ⟨h.1, h.1.unspent_of_permission rfl (h.2.trans hallowed)⟩
      split
      · exact .pure _
      · exact PlainIn.tokenQuiet (built_withinBinding plain_managedCredential _ _ _)
    · exact triple_fail fun app past h => h.1
  | preview =>
    refine Triple.andThen (observed_held _) fun verified => ?_
    split
    · rename_i hverified
      refine (TokenQuiet.tokenLax (.bind (tokenQuiet_observed _) fun origin =>
        ?_)).keeps_unspent.weaken
        fun app past h => ⟨h.1, h.1.unspent_of_userVerified (h.2.trans hverified)⟩
      split
      · refine .bind (tokenQuiet_observed _) fun binding => ?_
        split
        · exact .pure _
        · exact .fail _
      · exact .bind (tokenQuiet_ensurePinTokenPermissionForCm _ _) fun _ => .pure _
      · exact .fail _
    · exact triple_fail fun app past h => h.1

theorem cmAuthorize_held (family : ManagementFamily) (subcommand : ManagementSubcommand)
    (params : Option Entries) (protocol : PinProtocol) :
    Keeps (tokenObserver token) (Held token)
      (cmAuthorize family subcommand params protocol) := by
  refine Triple.same (Triple.andThen (authorizationMode_held family subcommand params)
    fun mode => ?_)
  refine Triple.andThen (tokenQuiet_observed _).tokenLax.keeps_unspent fun inUse =>
    Triple.andThen (TokenLax.keeps_unspent (built_okOr _ _)) fun id => ?_
  refine Triple.andThen (M := fun _ => Held token) (Triple.both
    ((observeAuthorized_held _).weaken fun app past h => ?_)) fun _ =>
    triple_pure fun app past h => h
  exact ⟨h.1, Or.inl h.2, fun permission rpId heq => by cases heq⟩

end Verify

end SoftwareAuthenticator.Ctap
