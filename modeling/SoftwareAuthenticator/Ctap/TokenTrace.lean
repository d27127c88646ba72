import SoftwareAuthenticator.Ctap.TokenMoves
import SoftwareAuthenticator.Ctap.Watch

/-!
# What a token does while it is in use

What the engine marks while a token is in use is stated against the token as it was at some
moment: it is this token that verifies and authorizes, in time and within what it was issued for.
-/

namespace SoftwareAuthenticator.Ctap

open Cmd

def Issued (past : Trace) : Prop := ∃ id, mark (.token id) ∈ past

def HasVerified (past : Trace) : Prop := ∃ id message, mark (.verified id message) ∈ past

def AuthorizedFor (past : Trace) (rpId : String) : Prop :=
  ∃ id permission, mark (.authorized id (.rpOperation permission rpId)) ∈ past

def clockReading : env.Event → Option Duration
  | ⟨.now, time⟩ => some time
  | _ => none

def lastReading (past : Trace) : Option Duration := (past.filterMap clockReading).getLast?

theorem lastReading_concat_now (past : Trace) (time : Duration) :
    lastReading (past ++ [⟨.now, time⟩]) = some time := by
  simp [lastReading, clockReading]

variable {past : Trace}

theorem Issued.append (h : Issued past) (more : Trace) : Issued (past ++ more) := by
  obtain ⟨id, hmem⟩ := h
  exact ⟨id, List.mem_append_left _ hmem⟩

theorem HasVerified.append (h : HasVerified past) (more : Trace) : HasVerified (past ++ more) := by
  obtain ⟨id, message, hmem⟩ := h
  exact ⟨id, message, List.mem_append_left _ hmem⟩

structure InUseToken.Spent (token : InUseToken) : Prop where
  permissions : token.permissions &&& permissionLbw = token.permissions
  userVerified : token.userVerified = false
  origin : token.origin = none

/-- `token'`, in use later, is what is left of `token` after `past`. -/
structure InUseToken.Descends (token : InUseToken) (past : Trace) (token' : InUseToken) :
    Prop extends token.Continues token' where
  authorizedFor : ∀ rpId, AuthorizedFor past rpId → token'.permissionsRpId = some rpId
  used : token'.used = true → token.used = true ∨ HasVerified past

/-- What may be marked while `token` is in use. -/
structure TokenEvent (token : InUseToken) (past : Trace) (e : env.Event) : Prop where
  verified : ∀ id message, e = mark (.verified id message) → id = token.id ∧
    ∃ time, lastReading past = some time ∧ time < token.startedAt + maxUsageTimePeriod ∧
      (token.used = false → ¬ HasVerified past → time < token.startedAt + initialUsageTimeLimit)
  authorized : ∀ id purpose, e = mark (.authorized id purpose) →
    id = token.id ∧ (token.Spent → purpose = .largeBlobWrite)
  rpOperation : ∀ id permission rpId, e = mark (.authorized id (.rpOperation permission rpId)) →
    (∀ bound, token.permissionsRpId = some bound → bound = rpId) ∧
      ∀ rpId', AuthorizedFor past rpId' → rpId' = rpId

/-- Until the next issuance only `token` verifies and authorizes. -/
def TokenTrace (token : InUseToken) : Trace → Prop :=
  EachAfter fun past e => ¬ Issued past → TokenEvent token past e

namespace InUseToken

variable {token token' : InUseToken}

theorem Descends.refl (token : InUseToken) : token.Descends [] token where
  toContinues := .refl token
  authorizedFor := by
    rintro rpId ⟨id, permission, hmem⟩
    cases hmem
  used h := Or.inl h

theorem Descends.weakens {token'' : InUseToken} (h : token.Descends past token')
    (hw : token'.Weakens token'') : token.Descends past token'' where
  toContinues := h.toContinues.trans hw.toContinues
  authorizedFor rpId hrp := hw.sameRpId.trans (h.authorizedFor rpId hrp)
  used hu := h.used (hw.used ▸ hu)

theorem Descends.concat (h : token.Descends past token') {e : env.Event}
    (he : ∀ id permission rpId, e = mark (.authorized id (.rpOperation permission rpId)) →
      token'.permissionsRpId = some rpId) :
    token.Descends (past ++ [e]) token' :=
  { h with
    authorizedFor := by
      rintro rpId ⟨id, permission, hmem⟩
      rcases List.mem_append.mp hmem with hmem | hmem
      · exact h.authorizedFor rpId ⟨id, permission, hmem⟩
      · exact he id permission rpId (List.mem_singleton.mp hmem).symm
    used := fun hu => (h.used hu).imp_right fun hv => hv.append _ }

theorem Descends.spent (h : token.Descends past token') (hs : token.Spent) : token'.Spent where
  permissions := Permissions.within_trans h.permissions hs.permissions
  userVerified := by
    rw [Bool.eq_false_iff]
    intro hv
    have hv' := h.userVerified hv
    rw [hs.userVerified] at hv'
    cases hv'
  origin := by
    rcases h.origin with ho | ho
    · exact ho.trans hs.origin
    · exact ho

theorem Spent.and_eq_zero (hs : token.Spent) {permission : Permissions}
    (hp : permissionLbw &&& permission = 0) : token.permissions &&& permission = 0 := by
  rw [← hs.permissions, UInt8.and_assoc, hp, UInt8.and_zero]

theorem spent_consume (token : InUseToken) : token.consume.Spent where
  permissions := by
    change token.permissions &&& permissionLbw &&& permissionLbw =
      token.permissions &&& permissionLbw
    rw [UInt8.and_assoc, UInt8.and_self]
  userVerified := rfl
  origin := rfl

end InUseToken

/-- The token in use is what is left of `token`, unless another was issued. -/
def Held (token : InUseToken) (app : CtapApp) (past : Trace) : Prop :=
  TokenTrace token past ∧ (Issued past ∨
    ∀ token', app.pinState.token.inUse = some token' → token.Descends past token')

/-- `token` may authorize more than large-blob writes, unless another was issued. -/
def Unspent (token : InUseToken) (past : Trace) : Prop := Issued past ∨ ¬ token.Spent

theorem Unspent.append {token : InUseToken} (h : Unspent token past) (more : Trace) :
    Unspent token (past ++ more) :=
  h.imp_left fun hissued => hissued.append more

abbrev tokenObserver (token : InUseToken) : Observer env Trace := .history (TokenTrace token)

section Keeps

variable {token : InUseToken} {ε α : Type} {e : env.Event} {app : CtapApp}

theorem tokenEvent_of_isTokenLax (token : InUseToken) (past : Trace)
    (he : EnvOp.isTokenLax e.op = true) : TokenEvent token past e where
  verified := by
    rintro id message rfl
    exact absurd he Bool.false_ne_true
  authorized := by
    rintro id purpose rfl
    exact absurd he Bool.false_ne_true
  rpOperation := by
    rintro id permission rpId rfl
    exact absurd he Bool.false_ne_true

theorem Held.weakens {app' : CtapApp} (h : Held token app past)
    (hw : app.pinState.token.Weakens app'.pinState.token) : Held token app' past := by
  refine ⟨h.1, h.2.imp_right fun hd token' ht' => ?_⟩
  obtain ⟨token'', ht, hweak⟩ := hw token' ht'
  exact (hd token'' ht).weakens hweak

theorem Held.concat (h : Held token app past) (hevent : ¬ Issued past → TokenEvent token past e)
    (he : ∀ id permission rpId, e = mark (.authorized id (.rpOperation permission rpId)) →
      app.pinState.token.permissionsRpId = some rpId) : Held token app (past ++ [e]) := by
  refine ⟨eachAfter_concat.mpr ⟨h.1, hevent⟩, ?_⟩
  rcases h.2 with hissued | hd
  · exact Or.inl (hissued.append _)
  · refine Or.inr fun token' ht' => (hd token' ht').concat fun id permission rpId heq => ?_
    have hrp := he id permission rpId heq
    rw [TokenState.permissionsRpId, ht'] at hrp
    exact hrp

theorem Held.concat_lax (h : Held token app past) (he : EnvOp.isTokenLax e.op = true) :
    Held token app (past ++ [e]) := by
  refine h.concat (fun _ => tokenEvent_of_isTokenLax token past he) ?_
  rintro id permission rpId rfl
  exact absurd he Bool.false_ne_true

theorem TokenLax.keeps_held {c : EngineM ε α} (hc : TokenLax c) :
    Keeps (tokenObserver token) (Held token) c := by
  refine Moves.keeps hc (fun _ _ _ hw h => h.weakens hw) fun app past e he h _ => ?_
  have h' := h.concat_lax he
  exact ⟨h'.1, h'⟩

theorem TokenLax.keeps_unspent {c : EngineM ε α} (hc : TokenLax c) :
    Triple (tokenObserver token)
      (fun app past => Held token app past ∧ Unspent token past) c
      (either (fun _ app past => Held token app past ∧ Unspent token past)
        (Held token)) := by
  have hkeeps : Keeps (tokenObserver token)
      (fun app past => Held token app past ∧ Unspent token past) c := by
    refine Moves.keeps hc (fun _ _ _ hw h => ⟨h.1.weakens hw, h.2⟩)
      fun app past e he h _ => ?_
    have h' := h.1.concat_lax he
    exact ⟨h'.1, h', h.2.append _⟩
  exact hkeeps.outcome (fun _ _ _ h => h) fun _ _ _ h => h.1

end Keeps

section Observe

variable {token : InUseToken} {ε : Type}

/-- The token in use had not run out when the clock was last read. -/
def InTime (state : TokenState) (past : Trace) : Prop :=
  ∃ time, lastReading past = some time ∧
    ∀ token', state.inUse = some token' → token'.isExpired time = false

theorem InUseToken.isExpired_clearPresence (token : InUseToken) (now time : Duration) :
    (token.clearPresence now).isExpired time = token.isExpired time := by
  unfold InUseToken.clearPresence
  split
  · rfl
  · rfl

theorem inTime_observe {state : TokenState} {time : Duration} (h : lastReading past = some time) :
    InTime (state.observe time) past := by
  refine ⟨time, h, fun token' ht' => ?_⟩
  obtain ⟨token, -, hexpired, rfl⟩ := TokenState.inUse_observe ht'
  rw [InUseToken.isExpired_clearPresence]
  exact hexpired

theorem observeToken_held : Triple (tokenObserver token) (Held token) (observeToken (ε := ε))
      (either (fun state app past => Held token app past ∧ app.pinState.token = state ∧
        InTime state past) (Held token)) := by
  refine observeToken_rule fun app past time h _ => ?_
  have h' := h.concat_lax (e := ⟨.now, time⟩) rfl
  exact ⟨h'.1, h'.weakens (app.pinState.token.weakens_observe time), rfl,
    inTime_observe (lastReading_concat_now past time)⟩

theorem observed_held {α : Type} (f : TokenState → α) :
    Triple (tokenObserver token) (Held token)
      (do return f (← observeToken) : EngineM ε α)
      (either (fun a app past => Held token app past ∧ f app.pinState.token = a)
        (Held token)) := by
  refine Triple.andThen observeToken_held fun state => triple_pure ?_
  rintro app past ⟨h, rfl, -⟩
  exact ⟨h, rfl⟩

theorem Held.unspent_of_userVerified {app : CtapApp} (h : Held token app past)
    (hv : app.pinState.token.userVerifiedFlag = true) : Unspent token past := by
  obtain ⟨token', ht', hverified⟩ := (Option.any_eq_true _ _).mp hv
  refine h.2.imp_right fun hd hs => ?_
  rw [((hd token' ht').spent hs).userVerified] at hverified
  cases hverified

theorem Held.unspent_of_permission {app : CtapApp} (h : Held token app past)
    {permission : Permissions} (hlbw : permissionLbw &&& permission = 0)
    (hp : app.pinState.token.hasPermission permission = true) : Unspent token past := by
  obtain ⟨token', ht', hpermitted⟩ := (Option.any_eq_true _ _).mp hp
  refine h.2.imp_right fun hd hs => ?_
  exact of_decide_eq_true hpermitted (((hd token' ht').spent hs).and_eq_zero hlbw)

end Observe

end SoftwareAuthenticator.Ctap
