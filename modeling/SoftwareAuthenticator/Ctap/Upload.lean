import SoftwareAuthenticator.Ctap.TokenTrace
import SoftwareAuthenticator.Ctap.UserVerification

/-!
# Large-blob uploads

The fragments of an upload stand in a window of the run that no other command and no get
interrupts.
-/

namespace SoftwareAuthenticator.Ctap

open Cmd

/-- A request that brings a fragment: its parameters, the offset and the fragment. -/
def setParameters [Externals] (payload : Bytes) : Option (Entries × ℕ × Bytes) :=
  match requestParameters payload with
  | .error _ => none
  | .ok map =>
    match mapGet map (.int 1), mapGet map (.int 2), requiredUnsigned (mapGet map (.int 3)) with
    | none, some (.bytes fragment), .ok offset => some (map, offset, fragment)
    | _, _, _ => none

def CtapApp.isProtected (app : CtapApp) : Bool :=
  app.pinState.persistent.pinHash.isSome || app.pinState.persistent.alwaysUv

/-- The write under way may go on: its last fragment is recent, and the token it began with
is in use. -/
structure CtapApp.Alive (app : CtapApp) (tr : Trace) : Prop where
  recent : ∀ last, app.largeBlobState.lastFragment = some last →
    ∃ (time : Duration) (rest : Trace), tr = ⟨.now, time⟩ :: rest ∧
      time - last < largeBlobWriteTimeout
  token : ∀ id, app.largeBlobState.token = some id → ∃ (token : InUseToken) (time : Duration),
    app.pinState.token.inUse = some token ∧ token.id = id ∧
      (⟨.now, time⟩ : env.Event) ∈ tr ∧ token.isExpired time = false

/-- All that may have changed of the token is its flag for the user's presence, or it is no
longer in use. -/
def TokenState.Lasts (state state' : TokenState) : Prop :=
  ∀ token', state'.inUse = some token' → ∃ token present, state.inUse = some token ∧
    token' = { token with userPresent := present }

structure CtapApp.Opened (app : CtapApp) (tr : Trace) (opened : CtapApp) : Prop where
  persistent : opened.pinState.persistent = app.pinState.persistent
  token : app.pinState.token.Lasts opened.pinState.token
  state : opened.largeBlobState = .initial ∨
    opened.largeBlobState = app.largeBlobState ∧ app.Alive tr

theorem InUseToken.clearPresence_eq (token : InUseToken) (now : Duration) :
    ∃ present, token.clearPresence now = { token with userPresent := present } := by
  unfold clearPresence
  split
  · exact ⟨false, rfl⟩
  · exact ⟨token.userPresent, rfl⟩

namespace TokenState

theorem Lasts.refl (state : TokenState) : state.Lasts state :=
  fun token h => ⟨token, token.userPresent, h, rfl⟩

theorem Lasts.trans {state state' state'' : TokenState} (h : state.Lasts state')
    (h' : state'.Lasts state'') : state.Lasts state'' := by
  intro token'' htoken
  obtain ⟨token', present', htoken', rfl⟩ := h' token'' htoken
  obtain ⟨token, present, hsome, rfl⟩ := h token' htoken'
  exact ⟨token, present', hsome, rfl⟩

theorem Lasts.inUse_observe {state state' : TokenState} (h : state.Lasts state') {now : Duration}
    {token' : InUseToken} (htoken : (state'.observe now).inUse = some token') :
    ∃ token present, state.inUse = some token ∧ token.isExpired now = false ∧
      token' = { token with userPresent := present } := by
  obtain ⟨middle, hmiddle, hexpired, rfl⟩ := TokenState.inUse_observe htoken
  obtain ⟨token, present, hsome, rfl⟩ := h middle hmiddle
  obtain ⟨present', hpresent⟩ :=
    ({ token with userPresent := present } : InUseToken).clearPresence_eq now
  exact ⟨token, present', hsome, hexpired, hpresent⟩

theorem lasts_observe (state : TokenState) (now : Duration) : state.Lasts (state.observe now) := by
  intro token' h
  obtain ⟨token, present, hsome, -, rfl⟩ := (Lasts.refl state).inUse_observe h
  exact ⟨token, present, hsome, rfl⟩

end TokenState

variable {ε : Type} {tr : Trace} {app app' : CtapApp}

theorem runs_observed {α : Type} {f : TokenState → α} {x : Except ε α}
    (h : (observeToken >>= fun state => pure (f state) : EngineM ε α).Runs app tr x app') :
    ∃ time : Duration, tr = [⟨.now, time⟩] ∧ x = .ok (f (app.pinState.token.observe time)) ∧
      app' = app.mapToken (·.observe time) := by
  rcases runs_bind.mp h with ⟨_, _, state, _, rfl, hobserve, h₁⟩ | ⟨_, -, hobserve⟩
  · obtain ⟨time, rfl, heq, rfl⟩ := runs_observeToken hobserve
    cases heq
    obtain ⟨rfl, rfl, rfl⟩ := runs_pure.mp h₁
    exact ⟨time, rfl, rfl, rfl⟩
  · obtain ⟨_, -, heq, -⟩ := runs_observeToken hobserve
    cases heq

theorem runs_largeBlobTokenChanged {token : Option UInt64} {x : Except ε Bool}
    (h : (largeBlobTokenChanged token).Runs app tr x app') :
    ∃ changed, x = .ok changed ∧ app'.largeBlobState = app.largeBlobState ∧
      app'.pinState.persistent = app.pinState.persistent ∧
      app.pinState.token.Lasts app'.pinState.token ∧
      (changed = false → ∀ id, token = some id → ∃ (holder : InUseToken) (time : Duration),
        app.pinState.token.inUse = some holder ∧ holder.id = id ∧
          (⟨.now, time⟩ : env.Event) ∈ tr ∧ holder.isExpired time = false) := by
  unfold largeBlobTokenChanged at h
  split at h
  · rcases runs_bind.mp h with ⟨_, _, inUse, _, rfl, hobserve, h₁⟩ | ⟨_, -, hobserve⟩
    · obtain ⟨time, rfl, heq, rfl⟩ := runs_observed hobserve
      cases heq
      obtain ⟨rfl, rfl, rfl⟩ := runs_pure.mp h₁
      refine ⟨_, rfl, rfl, rfl, app.pinState.token.lasts_observe time, fun hsame id hid => ?_⟩
      have hinUse : (app.pinState.token.observe time).inUseId = some id := by
        rw [← hid]
        exact (not_not.mp (of_decide_eq_false hsame)).symm
      obtain ⟨token', hsome, rfl⟩ := Option.map_eq_some_iff.mp hinUse
      obtain ⟨holder, present, hholder, hexpired, rfl⟩ :=
        (TokenState.Lasts.refl app.pinState.token).inUse_observe hsome
      exact ⟨holder, time, hholder, rfl, by simp, hexpired⟩
    · obtain ⟨_, -, heq, -⟩ := runs_observed hobserve
      cases heq
  · next hnone =>
    obtain ⟨rfl, rfl, rfl⟩ := runs_pure.mp h
    refine ⟨false, rfl, rfl, rfl, .refl _, fun _ id hid => ?_⟩
    rw [hid] at hnone
    exact absurd rfl hnone

theorem runs_observeLargeBlobState {command : Option UInt8} {x : Except ε Unit}
    (h : (observeLargeBlobState command).Runs app tr x app') :
    x = .ok () ∧ app.Opened tr app' ∧
      (command ≠ some ctapCmdLargeBlobs → app'.largeBlobState = .initial) := by
  obtain ⟨_, _, time, _, rfl, hnow, h₁⟩ := (sure_ask (I := env) .now).runs_then h
  obtain ⟨_, rfl, heq, rfl⟩ := runs_ask.mp hnow
  cases heq
  have h₂ := runs_gets_bind.mp h₁
  rcases runs_bind.mp h₂ with ⟨tr₁, tr₂, changed, app₁, rfl, hchanged, h₃⟩ | ⟨_, -, hchanged⟩
  · obtain ⟨_, heq, hsame, hpersistent, hlasts, hholder⟩ := runs_largeBlobTokenChanged hchanged
    cases heq
    unfold Cmd.when at h₃
    split at h₃
    · obtain ⟨rfl, rfl, rfl⟩ := runs_modify.mp h₃
      exact ⟨rfl, ⟨hpersistent, hlasts, .inl rfl⟩, fun _ => rfl⟩
    · next hkeeps =>
      obtain ⟨rfl, rfl, rfl⟩ := runs_pure.mp h₃
      simp only [decide_eq_true_eq, not_or] at hkeeps
      obtain ⟨hcommand, hrecent, hunchanged⟩ := hkeeps
      refine ⟨rfl, ⟨hpersistent, hlasts, .inr ⟨hsame, ⟨fun last hlast => ?_, fun id hid => ?_⟩⟩⟩,
        fun hne => absurd hne hcommand⟩
      · refine ⟨time, _, rfl, ?_⟩
        rw [hlast] at hrecent
        simpa using hrecent
      · obtain ⟨holder, time', hin, heq, hmem, hexpired⟩ :=
          hholder (Bool.eq_false_of_not_eq_true hunchanged) id hid
        exact ⟨holder, time', hin, heq, by simp [hmem], hexpired⟩
  · obtain ⟨_, heq, -⟩ := runs_largeBlobTokenChanged hchanged
    cases heq

theorem CtapApp.Alive.append {app : CtapApp} (h : app.Alive tr) (rest : Trace) :
    app.Alive (tr ++ rest) := by
  refine ⟨fun last hlast => ?_, fun id hid => ?_⟩
  · obtain ⟨time, tail, rfl, hrecent⟩ := h.recent last hlast
    exact ⟨time, tail ++ rest, rfl, hrecent⟩
  · obtain ⟨holder, time, hin, heq, hmem, hexpired⟩ := h.token id hid
    exact ⟨holder, time, hin, heq, List.mem_append_left _ hmem, hexpired⟩

theorem CtapApp.Opened.trans {app app₁ app₂ : CtapApp} {tr' : Trace} (h : app.Opened tr app₁)
    (h' : app₁.Opened tr' app₂) : app.Opened (tr ++ tr') app₂ := by
  refine ⟨h'.persistent.trans h.persistent, h.token.trans h'.token, ?_⟩
  rcases h'.state with hnone | ⟨hsame', -⟩
  · exact .inl hnone
  · rcases h.state with hnone | ⟨hsame, halive⟩
    · exact .inl (hsame'.trans hnone)
    · exact .inr ⟨hsame'.trans hsame, halive.append tr'⟩

def readings (tr : Trace) : List Duration := tr.filterMap clockReading

@[simp] theorem readings_append (tr tr' : Trace) :
    readings (tr ++ tr') = readings tr ++ readings tr' := List.filterMap_append

/-- What a request that appends nothing leaves of a write: all of it, nothing, or the buffer
with the counters of a new write. -/
def LargeBlobState.Reduces (state state' : LargeBlobState) : Prop :=
  state' = .initial ∨ state' = state ∨ state'.expectedNextOffset = 0

def EnvOp.writesArray : EnvOp → Bool
  | .store (.setLargeBlobArray _) => true
  | _ => false

def Unwritten (tr : Trace) : Prop := ∀ e ∈ tr, e.op.writesArray = false

theorem Unwritten.append {tr' : Trace} (h : Unwritten tr) (h' : Unwritten tr') :
    Unwritten (tr ++ tr') := by
  intro e he
  rcases List.mem_append.mp he with he | he
  · exact h e he
  · exact h' e he

theorem unwritten_nil : Unwritten [] := by simp [Unwritten]

theorem EnvOp.writesArray_of_isTidy {scope : Scope} (hscope : scope.stages = false) {op : EnvOp}
    (h : op.isTidy scope = true) : op.writesArray = false := by
  unfold writesArray
  split
  · exact absurd (hscope.symm.trans h) Bool.false_ne_true
  · rfl

theorem Tidy.unwritten {α : Type} {scope : Scope} {c : EngineM ε α} (hc : Tidy scope c)
    (hscope : scope.stages = false) {x : Except ε α} (h : c.Runs app tr x app') : Unwritten tr :=
  fun e he => EnvOp.writesArray_of_isTidy hscope ((hc.runs h).2 e he)

section Stages

variable {map : Entries} {offset : ℕ} {state : LargeBlobState} {α : Type} {opened : CtapApp}

theorem runs_beginFragment {x : Except Status Unit}
    (h : (beginFragment map offset).Runs app tr x app') :
    tr = [] ∧ ((∃ status, x = .error status) ∧ app' = app ∨ x = .ok () ∧
      (offset = 0 ∧ (∃ length, announcedLength map = .ok length ∧
        app' = { app with largeBlobState := { app.largeBlobState with
          expectedLength := length, expectedNextOffset := 0 } }) ∨
      offset ≠ 0 ∧ app' = app)) := by
  unfold beginFragment at h
  split at h
  · next hzero =>
    rcases runs_ofExcept_bind.mp h with ⟨length, hlength, h₁⟩ | ⟨e, -, rfl, rfl, rfl⟩
    · have h₂ := runs_gets_bind.mp h₁
      obtain ⟨rfl, rfl, rfl⟩ := runs_modify.mp h₂
      exact ⟨rfl, .inr ⟨rfl, .inl ⟨hzero, length, hlength, rfl⟩⟩⟩
    · exact ⟨rfl, .inl ⟨⟨e, rfl⟩, rfl⟩⟩
  · next hne =>
    split at h
    · obtain ⟨rfl, rfl, rfl⟩ := runs_fail.mp h
      exact ⟨rfl, .inl ⟨⟨_, rfl⟩, rfl⟩⟩
    · obtain ⟨rfl, rfl, rfl⟩ := runs_pure.mp h
      exact ⟨rfl, .inr ⟨rfl, .inr ⟨hne, rfl⟩⟩⟩

theorem reduces_beginFragment {x : Except Status Unit}
    (h : (beginFragment map offset).Runs app tr x app') :
    app.largeBlobState.Reduces app'.largeBlobState := by
  rcases (runs_beginFragment h).2 with ⟨-, rfl⟩ | ⟨-, ⟨-, -, -, rfl⟩ | ⟨-, rfl⟩⟩
  · exact .inr (.inl rfl)
  · exact .inr (.inr rfl)
  · exact .inr (.inl rfl)

theorem LargeBlobState.Reduces.trans {state' state'' : LargeBlobState} (h : state.Reduces state')
    (h' : state'.Reduces state'') : state.Reduces state'' := by
  rcases h' with rfl | rfl | hzero
  · exact .inl rfl
  · exact h
  · exact .inr (.inr hzero)

theorem sure_observed {ε : Type} (f : TokenState → α) :
    (observeToken >>= fun state => pure (f state) : EngineM ε α).Sure := by
  intro app tr x app' h
  obtain ⟨time, -, hx, -⟩ := runs_observed h
  exact ⟨_, hx⟩

theorem sure_collectFragment (authenticated : Bool) (offset : ℕ) (fragment : Bytes) :
    (collectFragment authenticated offset fragment).Sure := by
  refine .bind (.bind (sure_gets _) fun state => ?_) fun state =>
    .bind (sure_ask (I := env) .now) fun time => .bind (sure_modify _) fun _ =>
      sure_pure _
  split
  · refine .bind ?_ fun token => sure_pure _
    unfold writeToken
    split
    · exact sure_observed _
    · exact sure_pure _
  · exact sure_pure _

theorem runs_discardAndFail {status : Status} {x : Except Status α}
    (h : (discardLargeBlobState >>= fun _ => Cmd.fail status : EngineM Status α).Runs app tr x
      app') : tr = [] ∧ x = .error status ∧ app'.largeBlobState = .initial := by
  obtain ⟨_, _, ⟨⟩, _, rfl, hmodify, hfail⟩ := (sure_modify _).runs_then h
  obtain ⟨rfl, -, rfl⟩ := runs_modify.mp hmodify
  obtain ⟨rfl, rfl, rfl⟩ := runs_fail.mp hfail
  exact ⟨rfl, rfl, rfl⟩

variable {answer : Except Status Response}

theorem runs_orDiscardWrite {x : Except Status α} {f : α → EngineM Status Response}
    (h : (orDiscardWrite x >>= f).Runs app tr answer app') :
    (∃ a, x = .ok a ∧ (f a).Runs app tr answer app') ∨
      (∃ status, x = .error status) ∧ tr = [] ∧ (∃ status, answer = .error status) ∧
        app'.largeBlobState = .initial := by
  cases x with
  | ok a =>
    obtain ⟨_, _, _, _, rfl, hpure, h₁⟩ := (sure_pure a).runs_then h
    obtain ⟨rfl, heq, rfl⟩ := runs_pure.mp hpure
    cases heq
    exact .inl ⟨a, rfl, h₁⟩
  | error status =>
    refine .inr ⟨⟨status, rfl⟩, ?_⟩
    rcases runs_bind.mp h with ⟨_, _, _, _, -, hfail, -⟩ | ⟨e, rfl, hfail⟩
    · obtain ⟨-, ⟨⟩, -⟩ := runs_discardAndFail hfail
    · obtain ⟨rfl, -, hinitial⟩ := runs_discardAndFail hfail
      exact ⟨rfl, ⟨e, rfl⟩, hinitial⟩

theorem opened_beginRequest {command : UInt8} {app : CtapApp}
    (h : (beginRequest command).Runs app tr (.ok ()) opened) : app.Opened tr opened := by
  obtain ⟨_, _, ⟨⟩, app₁, rfl, hobserve, h₁⟩ := runs_bind_ok.mp h
  obtain ⟨-, hopened, -⟩ := runs_observeLargeBlobState hobserve
  unfold forgetAssertion at h₁
  split at h₁
  · obtain ⟨rfl, -, rfl⟩ := runs_pure.mp h₁
    rwa [List.append_nil]
  · obtain ⟨rfl, -, rfl⟩ := runs_modify.mp h₁
    rw [List.append_nil]
    exact ⟨hopened.persistent, hopened.token, hopened.state⟩

theorem CtapApp.Opened.reduces {app : CtapApp} (h : app.Opened tr opened) :
    app.largeBlobState.Reduces opened.largeBlobState :=
  h.state.imp_right fun hsame => .inl hsame.1

theorem runs_ensurePermission {permission : Permissions} {purpose : Purpose}
    (h : (ensurePermission permission purpose).Runs app tr (.ok ()) app') :
    ∃ (time : Duration) (token : InUseToken),
      tr = [⟨.now, time⟩, mark (.authorized token.id purpose)] ∧
      (app.pinState.token.observe time).inUse = some token ∧
      token.permissions &&& permission ≠ 0 ∧ app' = app.mapToken (·.observe time) := by
  obtain ⟨_, _, granted, _, rfl, hobserve, h₁⟩ := runs_bind_ok.mp h
  obtain ⟨time, rfl, heq, rfl⟩ := runs_observed hobserve
  cases heq
  split at h₁
  · next hgranted =>
    obtain ⟨token, htoken, hbits⟩ := (Option.any_eq_true _ _).mp hgranted
    have h₂ := runs_gets_bind.mp h₁
    have htoken' : (app.mapToken (·.observe time)).pinState.token.inUse = some token := htoken
    rw [htoken'] at h₂
    obtain ⟨_, rfl, -, rfl⟩ := runs_ask.mp h₂
    exact ⟨time, token, rfl, htoken, of_decide_eq_true hbits, rfl⟩
  · exact absurd h₁ not_runs_fail_ok

theorem runs_writeState {authenticated : Bool}
    (h : (writeState authenticated offset).Runs app tr (.ok state) app') :
    Unwritten tr ∧ app'.largeBlobState = app.largeBlobState ∧
      (offset ≠ 0 ∧ state = app.largeBlobState ∨
        offset = 0 ∧ (∃ token, state = { app.largeBlobState with buffer := [], token := token } ∧
          (authenticated = true → ∃ time : Duration, tr = [⟨.now, time⟩] ∧
            token = (app.pinState.token.observe time).inUseId))) := by
  have h₁ := runs_gets_bind.mp h
  split at h₁
  · next hzero =>
    obtain ⟨recording, _, token, _, rfl, htoken, h₂⟩ := runs_bind_ok.mp h₁
    obtain ⟨rfl, heq, rfl⟩ := runs_pure.mp h₂
    cases heq
    unfold writeToken at htoken
    split at htoken
    · obtain ⟨time, rfl, heq, rfl⟩ := runs_observed htoken
      cases heq
      exact ⟨by simp [Unwritten, EnvOp.writesArray], rfl,
        .inr ⟨hzero, _, rfl, fun _ => ⟨time, rfl, rfl⟩⟩⟩
    · next hopen =>
      obtain ⟨rfl, heq, rfl⟩ := runs_pure.mp htoken
      cases heq
      exact ⟨unwritten_nil, rfl, .inr ⟨hzero, _, rfl, fun hyes => absurd hyes hopen⟩⟩
  · next hne =>
    obtain ⟨rfl, heq, rfl⟩ := runs_pure.mp h₁
    cases heq
    exact ⟨unwritten_nil, rfl, .inl ⟨hne, rfl⟩⟩

theorem runs_collectFragment {authenticated : Bool} {fragment : Bytes}
    (h : (collectFragment authenticated offset fragment).Runs app tr (.ok state) app') :
    ∃ (recording : Trace) (time : Duration) (start : LargeBlobState) (recorded : CtapApp),
      tr = recording ++ [⟨.now, time⟩] ∧
      (writeState authenticated offset).Runs app recording (.ok start) recorded ∧
      state = { start with
        buffer := start.buffer ++ fragment
        expectedNextOffset := (start.buffer ++ fragment).length
        lastFragment := some time } ∧
      app' = { recorded with largeBlobState := state } := by
  obtain ⟨recording, _, start, recorded, rfl, hstart, h₁⟩ := runs_bind_ok.mp h
  obtain ⟨_, _, time, _, rfl, hnow, h₂⟩ := runs_bind_ok.mp h₁
  obtain ⟨_, rfl, heq, rfl⟩ := runs_ask.mp hnow
  cases heq
  obtain ⟨_, _, ⟨⟩, _, rfl, hset, h₃⟩ := runs_bind_ok.mp h₂
  obtain ⟨rfl, -, rfl⟩ := runs_modify.mp hset
  obtain ⟨rfl, heq, rfl⟩ := runs_pure.mp h₃
  cases heq
  exact ⟨recording, time, start, _, rfl, hstart, rfl, rfl⟩

theorem confined_observeToken {ε : Type} :
    Confined (fun _ => true) CtapApp.largeBlobState (observeToken (ε := ε)) :=
  .bind (.part (MovePart.ask (I := env) .now rfl)) fun _ =>
    .bind (.part (.modify _ fun _ => rfl)) fun _ => .gets _

variable [Externals]

/-- A set request, from its opening to the point where its fragment is appended. -/
structure FragmentStages (payload : Bytes) (app : CtapApp) (trace : Trace)
    (answer : Except Status Response) (app' : CtapApp) where
  map : Entries
  offset : ℕ
  fragment : Bytes
  (opened begun authorized collected : CtapApp)
  state : LargeBlobState
  (opening authorizing collecting committing : Trace)
  trace_eq : trace = opening ++ authorizing ++ collecting ++ committing
  parameters : setParameters payload = some (map, offset, fragment)
  opens : app.Opened opening opened
  quiet : Unwritten opening
  begins : (beginFragment map offset).Runs opened [] (.ok ()) begun
  follows : offset = begun.largeBlobState.expectedNextOffset
  authorizes : (Cmd.when begun.isProtected (authorizeFragment map offset fragment)).Runs begun
    authorizing (.ok ()) authorized
  fits : offset + fragment.length ≤ begun.largeBlobState.expectedLength
  collects : (collectFragment begun.isProtected offset fragment).Runs authorized collecting
    (.ok state) collected
  commits : (commitLargeBlobs state >>= fun _ => pure .ok).Runs collected committing answer app'

/-- A large-blob request that appends nothing; one that is not a set request also discards the
write. -/
structure FragmentRefused (payload : Bytes) (app : CtapApp) (trace : Trace)
    (answer : Except Status Response) (app' : CtapApp) : Prop where
  reduces : app.largeBlobState.Reduces app'.largeBlobState
  discards : setParameters payload = none → app'.largeBlobState = .initial
  fails : setParameters payload ≠ none → ∃ status, answer = .error status
  unwritten : Unwritten trace

theorem runs_writeFragment {payload : Bytes} {fragment : Bytes} {opening : Trace}
    (hparameters : setParameters payload = some (map, offset, fragment))
    (hopens : app.Opened opening opened) (hquiet : Unwritten opening)
    (h : (writeFragment map offset fragment).Runs opened tr answer app') :
    (opened.largeBlobState.Reduces app'.largeBlobState ∧ (∃ status, answer = .error status) ∧
        Unwritten tr) ∨
      Nonempty (FragmentStages payload app (opening ++ tr) answer app') := by
  unfold writeFragment at h
  split at h
  · obtain ⟨rfl, rfl, rfl⟩ := runs_fail.mp h
    exact .inl ⟨.inr (.inl rfl), ⟨_, rfl⟩, unwritten_nil⟩
  rcases runs_bind.mp h with ⟨_, _, ⟨⟩, begun, rfl, hbegin, h₁⟩ | ⟨e, rfl, hbegin⟩
  · have hreduces := reduces_beginFragment hbegin
    obtain ⟨rfl, -⟩ := runs_beginFragment hbegin
    have h₂ := runs_gets_bind.mp h₁
    split at h₂
    · obtain ⟨rfl, rfl, hinitial⟩ := runs_discardAndFail h₂
      exact .inl ⟨.inl hinitial, ⟨_, rfl⟩, unwritten_nil⟩
    · next hfollows =>
      have h₃ := runs_gets_bind.mp h₂
      have htidy : Tidy .nothing (Cmd.when begun.isProtected
          (authorizeFragment map offset fragment)) :=
        Composed.tidy (Built.when
          (composed_authorizeFragment map offset fragment : Composed .nothing _))
      -- Authorizing leaves the write as it is or discards it.
      have hleaves : ∀ {authorized : CtapApp}, Discards .nothing begun authorized →
          opened.largeBlobState.Reduces authorized.largeBlobState := by
        intro authorized hdiscards
        rcases hdiscards.largeBlobs with hscope | hsame | hnone
        · cases hscope
        · rwa [hsame]
        · exact .inl hnone
      rcases runs_bind.mp h₃ with
        ⟨authorizing, rest, ⟨⟩, authorized, rfl, hauthorize, h₄⟩ | ⟨e, rfl, hauthorize⟩
      · have hdiscards := (htidy.runs hauthorize).1
        have hauthorizing := htidy.unwritten rfl hauthorize
        dsimp only at h₄
        split at h₄
        · obtain ⟨rfl, rfl, rfl⟩ := runs_fail.mp h₄
          exact .inl ⟨hleaves hdiscards, ⟨_, rfl⟩, by simpa using hauthorizing⟩
        · next hfits =>
          obtain ⟨collecting, committing, state, collected, rfl, hcollect, hcommit⟩ :=
            (sure_collectFragment _ _ _).runs_then h₄
          exact .inr ⟨{
            map, offset, fragment, opened, begun, authorized, collected, state
            opening, authorizing, collecting, committing
            trace_eq := by simp
            parameters := hparameters
            opens := hopens
            quiet := hquiet
            begins := hbegin
            follows := not_not.mp hfollows
            authorizes := hauthorize
            fits := Nat.le_of_not_lt fun hlt => hfits (.inr hlt)
            collects := hcollect
            commits := hcommit }⟩
      · exact .inl ⟨hleaves (htidy.runs hauthorize).1, ⟨e, rfl⟩, htidy.unwritten rfl hauthorize⟩
  · obtain ⟨rfl, -⟩ := runs_beginFragment hbegin
    exact .inl ⟨reduces_beginFragment hbegin, ⟨e, rfl⟩, unwritten_nil⟩

theorem setParameters_of_get {payload : Bytes} {get : Value}
    (hmap : requestParameters payload = .ok map) (hget : mapGet map (.int 1) = some get) :
    setParameters payload = none := by
  unfold setParameters
  rw [hmap]
  simp only [hget]

/-- A large-blob request is refused, or its fragment comes to be appended. -/
theorem fragmentStages_of_runs {payload : Bytes} {trace : Trace} {reply : Reply}
    (h : (serve (.cbor (0x0C :: payload))).Runs app trace (.ok reply) app') :
    ∃ answer, reply = .cbor answer ∧ (FragmentRefused payload app trace answer app' ∨
      Nonempty (FragmentStages payload app trace answer app')) := by
  obtain ⟨answer, opening, handling, opened, rfl, rfl, hopen, h⟩ := runs_serve_cbor h
  refine ⟨answer, rfl, ?_⟩
  have h₀ : (handleLargeBlobs payload).Runs opened handling answer app' := h
  have hquiet : Unwritten opening :=
    (composed_beginRequest 0x0C : Composed .nothing _).tidy.unwritten rfl hopen
  obtain ⟨observing, rest, ⟨⟩, observed, rfl, hobserve, h₁⟩ :=
    (sure_observeLargeBlobState _).runs_then h₀
  have hopened := (opened_beginRequest hopen).trans (runs_observeLargeBlobState hobserve).2.1
  have hquiet' : Unwritten observing :=
    (composed_observeLargeBlobState _ : Composed .nothing _).tidy.unwritten rfl hobserve
  rcases runs_orDiscardWrite h₁ with ⟨map, hmap, h₂⟩ | ⟨⟨e, he⟩, rfl, hstatus, hinitial⟩
  · obtain ⟨keeping, _, ⟨⟩, kept, rfl, hwhen, h₃⟩ :=
      (Sure.when (sure_modify _)).runs_then h₂
    obtain ⟨rfl, hkept⟩ : keeping = [] ∧ (continuesWrite map = true ∧ kept = observed ∨
        continuesWrite map = false ∧ kept.largeBlobState = .initial) := by
      unfold Cmd.when at hwhen
      split at hwhen
      · next hnot =>
        obtain ⟨rfl, -, rfl⟩ := runs_modify.mp hwhen
        exact ⟨rfl, .inr ⟨by simpa using hnot, rfl⟩⟩
      · next hnot =>
        obtain ⟨rfl, -, rfl⟩ := runs_pure.mp hwhen
        exact ⟨rfl, .inl ⟨by simpa using hnot, rfl⟩⟩
    rcases runs_orDiscardWrite h₃ with ⟨offset, hoffset, h₄⟩ | ⟨⟨e, he⟩, rfl, hstatus, hinitial⟩
    · unfold largeBlobs at h₄
      split at h₄
      · next get hget hset =>
        -- A get: the write was discarded, and the array is read.
        have hnone := setParameters_of_get hmap hget
        have hkept' : kept.largeBlobState = .initial := by
          rcases hkept with ⟨hcontinues, -⟩ | ⟨-, hinitial⟩
          · simp [continuesWrite, hget] at hcontinues
          · exact hinitial
        have htidy : Tidy .nothing (readLargeBlobs map get offset) :=
          (plain_readLargeBlobs map get offset).tidy
        have hread := htidy.unwritten rfl h₄
        have hinitial : app'.largeBlobState = .initial := by
          rcases (htidy.runs h₄).1.largeBlobs with hscope | hsame | hinitial
          · cases hscope
          · exact hsame.trans hkept'
          · exact hinitial
        exact .inl ⟨.inl hinitial, fun _ => hinitial, fun hne => absurd hnone hne,
          by simpa using hquiet.append (hquiet'.append hread)⟩
      · next fragment hget hset =>
        have hparameters : setParameters payload = some (map, offset, fragment) := by
          unfold setParameters
          rw [hmap]
          simp only [hget, hset, hoffset]
        have hsame : kept = observed := by
          rcases hkept with ⟨-, hsame⟩ | ⟨hcontinues, -⟩
          · exact hsame
          · have hthird : (mapGet map (.int 3)).isSome = true := by
              cases hthree : mapGet map (.int 3) with
              | none =>
                rw [hthree] at hoffset
                cases hoffset
              | some value => rfl
            simp [continuesWrite, hget, hset, hthird] at hcontinues
        subst hsame
        rcases runs_writeFragment hparameters hopened (hquiet.append hquiet') h₄ with
          ⟨hreduces, hstatus, hwrite⟩ | ⟨⟨stages⟩⟩
        · exact .inl ⟨hopened.reduces.trans hreduces,
            fun hnone => absurd (hparameters.symm.trans hnone) (Option.some_ne_none _),
            fun _ => hstatus, by simpa using hquiet.append (hquiet'.append hwrite)⟩
        · rw [List.append_assoc] at stages
          exact .inr ⟨stages⟩
      · next hget hset hother =>
        obtain ⟨rfl, rfl, hinitial⟩ := runs_discardAndFail h₄
        exact .inl ⟨.inl hinitial, fun _ => hinitial, fun _ => ⟨_, rfl⟩,
          by simpa using hquiet.append hquiet'⟩
      · next hread hwrite hother =>
        obtain ⟨rfl, rfl, rfl⟩ := runs_fail.mp h₄
        have hinitial : app'.largeBlobState = .initial := by
          rcases hkept with ⟨hcontinues, -⟩ | ⟨-, hinitial⟩
          · obtain ⟨hnone, hsome, -⟩ := of_decide_eq_true hcontinues
            obtain ⟨value, hvalue⟩ := Option.isSome_iff_exists.mp hsome
            exact absurd hvalue fun h => hother value (Option.isNone_iff_eq_none.mp hnone) h
          · exact hinitial
        exact .inl ⟨.inl hinitial, fun _ => hinitial, fun _ => ⟨_, rfl⟩,
          by simpa using hquiet.append hquiet'⟩
    · exact .inl ⟨.inl hinitial, fun _ => hinitial, fun _ => hstatus,
        by simpa using hquiet.append hquiet'⟩
  · exact .inl ⟨.inl hinitial, fun _ => hinitial, fun _ => hstatus,
      by simpa using hquiet.append hquiet'⟩

/-- A write goes on, is stored, or was damaged. -/
theorem runs_commitLargeBlobs {state : LargeBlobState} {tr : Trace}
    (h : (commitLargeBlobs state >>= fun _ => pure .ok).Runs app tr answer app') :
    (state.expectedNextOffset ≠ state.expectedLength ∧ tr = [] ∧ answer = .ok .ok ∧ app' = app) ∨
      (state.expectedNextOffset = state.expectedLength ∧ validLargeBlobArray state.buffer = true ∧
        app' = app ∧ ∃ r, tr = [⟨.store (.setLargeBlobArray state.buffer), r⟩]) ∨
      (tr = [] ∧ (∃ status, answer = .error status) ∧ app'.largeBlobState = .initial) := by
  unfold commitLargeBlobs at h
  split at h
  · next hcomplete =>
    split at h
    · next hvalid =>
      refine .inr (.inl ⟨hcomplete, hvalid, ?_⟩)
      -- The store is asked, and whatever it answers nothing else is done.
      obtain ⟨_, _, r, _, rfl, hask, h₁⟩ : ∃ tr₁ tr₂ r app₁, tr = tr₁ ++ tr₂ ∧
          (storeAsk (.setLargeBlobArray state.buffer)).Runs app tr₁ (.ok r) app₁ ∧
          tr₂ = [] ∧ app' = app₁ := by
        rcases runs_bind.mp h with ⟨_, tr₂, ⟨⟩, _, rfl, hstatus, h₁⟩ | ⟨e, -, hstatus⟩
        · obtain ⟨rfl, -, rfl⟩ := runs_pure.mp h₁
          obtain ⟨tr₁, tr₂, r, app₁, rfl, hask, h₂⟩ := (sure_ask _).runs_then hstatus
          refine ⟨tr₁, tr₂, r, app₁, by simp, hask, ?_⟩
          split at h₂
          · obtain ⟨rfl, -, rfl⟩ := runs_pure.mp h₂
            exact ⟨rfl, rfl⟩
          · exact absurd h₂ not_runs_fail_ok
        · obtain ⟨tr₁, tr₂, r, app₁, rfl, hask, h₂⟩ := (sure_ask _).runs_then hstatus
          refine ⟨tr₁, tr₂, r, app₁, rfl, hask, ?_⟩
          split at h₂
          · obtain ⟨-, heq, -⟩ := runs_pure.mp h₂
            cases heq
          · obtain ⟨rfl, -, rfl⟩ := runs_fail.mp h₂
            exact ⟨rfl, rfl⟩
      obtain ⟨rfl, rfl⟩ := h₁
      obtain ⟨_, rfl, -, rfl⟩ := runs_ask.mp hask
      exact ⟨rfl, _, rfl⟩
    · refine .inr (.inr ?_)
      rcases runs_bind.mp h with ⟨_, _, ⟨⟩, _, -, hfail, -⟩ | ⟨e, rfl, hfail⟩
      · obtain ⟨-, ⟨⟩, -⟩ := runs_discardAndFail hfail
      · obtain ⟨rfl, -, hinitial⟩ := runs_discardAndFail hfail
        exact ⟨rfl, ⟨e, rfl⟩, hinitial⟩
  · next hopen =>
    obtain ⟨_, _, ⟨⟩, _, rfl, hpure, h₁⟩ := (sure_pure ()).runs_then h
    obtain ⟨rfl, -, rfl⟩ := runs_pure.mp hpure
    obtain ⟨rfl, rfl, rfl⟩ := runs_pure.mp h₁
    exact .inl ⟨hopen, rfl, rfl, rfl⟩

theorem confined_authorizeFragment (map : Entries) (offset : ℕ) (fragment : Bytes) :
    Confined (fun _ => true) CtapApp.largeBlobState
      (authorizeFragment map offset fragment) := by
  refine .bind (.ofExcept _) fun auth => ?_
  dsimp only
  split
  · exact .fail _
  refine .bind (.bind confined_observeToken fun token => ?_) fun _ => ?_
  · refine .bind (.part (.modify _ fun _ => rfl)) fun _ => ?_
    split
    · exact .fail _
    · split
      · exact .part (MovePart.ask (I := env) (.observe _) rfl)
      · exact .pure _
  · refine .bind (.bind confined_observeToken fun _ => .pure _) fun granted => ?_
    split
    · refine .bind (.gets _) fun holder => ?_
      split
      · exact .part (MovePart.ask (I := env) (.observe _) rfl)
      · exact .pure _
    · exact .fail _

namespace FragmentStages

variable {payload : Bytes} {trace : Trace} (stages : FragmentStages payload app trace answer app')

include stages

theorem pinState_begun : stages.begun.pinState = stages.opened.pinState := by
  rcases (runs_beginFragment stages.begins).2 with ⟨⟨_, ⟨⟩⟩, -⟩ | ⟨-, ⟨-, _, -, h⟩ | ⟨-, h⟩⟩
  · rw [h]
  · rw [h]

theorem isProtected : stages.begun.isProtected = app.isProtected := by
  unfold CtapApp.isProtected
  rw [stages.pinState_begun, stages.opens.persistent]

theorem largeBlobState_authorized :
    stages.authorized.largeBlobState = stages.begun.largeBlobState := by
  have hconfined : Confined (fun _ => true) CtapApp.largeBlobState (Cmd.when
      stages.begun.isProtected (authorizeFragment stages.map stages.offset stages.fragment)) :=
    Built.when (confined_authorizeFragment _ _ _)
  exact (hconfined.runs stages.authorizes).1

theorem recorded :
    stages.collected.largeBlobState = stages.state ∧
      stages.state.expectedNextOffset = stages.state.buffer.length ∧
      ∃ time, stages.state.lastFragment = some time ∧
        (readings stages.collecting).getLast? = some time := by
  obtain ⟨recording, time, start, recorded, hcollecting, -, hstate, hcollected⟩ :=
    runs_collectFragment stages.collects
  refine ⟨by rw [hcollected], by rw [hstate], time, by rw [hstate], ?_⟩
  rw [hcollecting]
  simp [readings, clockReading]

theorem first (hzero : stages.offset = 0) :
    announcedLength stages.map = .ok stages.state.expectedLength ∧
      stages.state.buffer = stages.fragment := by
  obtain ⟨recording, time, start, recorded, -, hstart, hstate, -⟩ :=
    runs_collectFragment stages.collects
  obtain ⟨-, -, ⟨hne, -⟩ | ⟨-, token, rfl, -⟩⟩ := runs_writeState hstart
  · exact absurd hzero hne
  · rcases (runs_beginFragment stages.begins).2 with
      ⟨⟨_, ⟨⟩⟩, -⟩ | ⟨-, ⟨-, length, hlength, hbegun⟩ | ⟨hne, -⟩⟩
    · rw [hstate, hlength, stages.largeBlobState_authorized, hbegun]
      exact ⟨rfl, rfl⟩
    · exact absurd hzero hne

theorem later (hne : stages.offset ≠ 0) :
    app.Alive trace ∧ app.largeBlobState.expectedNextOffset = stages.offset ∧
      stages.state.expectedLength = app.largeBlobState.expectedLength ∧
      stages.state.buffer = app.largeBlobState.buffer ++ stages.fragment ∧
      stages.state.token = app.largeBlobState.token := by
  have hbegun : stages.begun = stages.opened := by
    rcases (runs_beginFragment stages.begins).2 with ⟨⟨_, ⟨⟩⟩, -⟩ | ⟨-, ⟨hzero, -⟩ | ⟨-, h⟩⟩
    · exact absurd hzero hne
    · exact h
  have hfollows := stages.follows
  rw [hbegun] at hfollows
  rcases stages.opens.state with hinitial | ⟨hsame, halive⟩
  · rw [hinitial] at hfollows
    exact absurd hfollows hne
  · obtain ⟨recording, time, start, recorded, -, hstart, hstate, -⟩ :=
      runs_collectFragment stages.collects
    obtain ⟨-, -, ⟨-, rfl⟩ | ⟨hzero, -⟩⟩ := runs_writeState hstart
    · rw [hsame] at hfollows
      have halive' : app.Alive trace := by
        rw [stages.trace_eq, List.append_assoc, List.append_assoc]
        exact halive.append _
      rw [hstate, stages.largeBlobState_authorized, hbegun, hsame]
      exact ⟨halive', hfollows.symm, rfl, rfl, rfl⟩
    · exact absurd hzero hne

theorem unwritten : Unwritten (stages.opening ++ stages.authorizing ++ stages.collecting) := by
  have htidy : Tidy .nothing (Cmd.when stages.begun.isProtected
      (authorizeFragment stages.map stages.offset stages.fragment)) :=
    Composed.tidy (Built.when (composed_authorizeFragment _ _ _ : Composed .nothing _))
  obtain ⟨recording, time, start, recorded, hcollecting, hstart, -⟩ :=
    runs_collectFragment stages.collects
  have hcollect : Unwritten stages.collecting := by
    rw [hcollecting]
    exact (runs_writeState hstart).1.append (by simp [Unwritten, EnvOp.writesArray])
  exact (stages.quiet.append (htidy.unwritten rfl stages.authorizes)).append hcollect

/-- A fragment is appended, and the array stored if it was the last; or the array it completes
is damaged. -/
theorem commits_cases :
    (app'.largeBlobState = stages.state ∧ (readings trace).getLast? = stages.state.lastFragment ∧
      ((answer = .ok .ok ∧ Unwritten trace) ∨
        stages.state.expectedLength = stages.state.buffer.length ∧
          validLargeBlobArray stages.state.buffer = true ∧
          ∃ r, trace = stages.opening ++ stages.authorizing ++ stages.collecting ++
            [⟨.store (.setLargeBlobArray stages.state.buffer), r⟩])) ∨
      ((∃ status, answer = .error status) ∧ app'.largeBlobState = .initial ∧
        Unwritten trace) := by
  obtain ⟨hcollected, hnext, time, hlast, hread⟩ := stages.recorded
  have hreadings : readings stages.committing = [] →
      (readings trace).getLast? = stages.state.lastFragment := by
    intro hnone
    rw [hlast, stages.trace_eq, readings_append, readings_append, hnone, List.append_nil,
      List.getLast?_append, hread]
    rfl
  rcases runs_commitLargeBlobs stages.commits with
    ⟨-, hnone, hanswer, hsame⟩ | ⟨hcomplete, hvalid, hsame, r, hstore⟩ | ⟨hnone, hanswer, hinitial⟩
  · refine .inl ⟨(congrArg _ hsame).trans hcollected, hreadings (by rw [hnone]; rfl), .inl ⟨hanswer, ?_⟩⟩
    rw [stages.trace_eq, hnone, List.append_nil]
    exact stages.unwritten
  · refine .inl ⟨(congrArg _ hsame).trans hcollected, hreadings (by rw [hstore]; rfl), .inr ⟨?_, hvalid, r, ?_⟩⟩
    · rw [← hcomplete, hnext]
    · rw [← hstore]
      exact stages.trace_eq
  · refine .inr ⟨hanswer, hinitial, ?_⟩
    rw [stages.trace_eq, hnone, List.append_nil]
    exact stages.unwritten

/-- On a protected key a fragment comes with a proof of knowing the token. -/
theorem authenticated (hprotected : app.isProtected = true) :
    ∃ protocol param, fragmentAuth stages.map = .ok (protocol, param) ∧ stages.offset < 2 ^ 32 ∧
      ∃ (time time' : Duration) (token : InUseToken), app.pinState.token.inUse = some token ∧
        token.isExpired time = false ∧ time' - token.startedAt < maxUsageTimePeriod ∧
        token.protocol = protocol ∧
        verify protocol token.value (fragmentMessage stages.offset stages.fragment) param = .ok () ∧
        token.permissions &&& permissionLbw ≠ 0 ∧
        stages.authorizing = [⟨.now, time⟩,
          mark (.verified token.id (fragmentMessage stages.offset stages.fragment)),
          ⟨.now, time'⟩, mark (.authorized token.id .largeBlobWrite)] := by
  have h := (runs_when_of_true (stages.isProtected.trans hprotected)).mp stages.authorizes
  obtain ⟨⟨protocol, param⟩, hauth, h₁⟩ := runs_ofExcept_bind_ok.mp h
  dsimp only at h₁
  split at h₁
  · exact absurd h₁ not_runs_fail_ok
  next hoffset =>
  obtain ⟨_, _, ⟨⟩, checked, htrace, hverify, hensure⟩ := runs_bind_ok.mp h₁
  obtain ⟨time, verified, rfl, hverified, hprotocol, hmac, hused⟩ :=
    runs_verifyPinUvAuthParam hverify
  obtain ⟨time', granted, rfl, hgranted, hbits, -⟩ := runs_ensurePermission hensure
  -- What is checked later is what is left of the token that verified.
  have hlasts : app.pinState.token.Lasts stages.begun.pinState.token := by
    rw [stages.pinState_begun]
    exact stages.opens.token
  obtain ⟨token, present, hinUse, hexpired, rfl⟩ := hlasts.inUse_observe hverified
  obtain ⟨used, present', hsome, hinTime, rfl⟩ :=
    (TokenState.Lasts.refl checked.pinState.token).inUse_observe hgranted
  have hsame := Option.some.inj (hused.symm.trans hsome)
  have hkept : used.id = token.id ∧ used.startedAt = token.startedAt ∧
      used.permissions = token.permissions := by
    rw [← hsame]
    exact ⟨rfl, rfl, rfl⟩
  obtain ⟨hid, hstarted, hpermissions⟩ := hkept
  have hmax : time' - token.startedAt < maxUsageTimePeriod := by
    have hnot := of_decide_eq_false hinTime
    rw [not_or, hstarted] at hnot
    exact Nat.lt_of_not_le hnot.1
  refine ⟨protocol, param, hauth, Nat.lt_of_not_le hoffset, time, time', token, hinUse, hexpired,
    hmax, hprotocol, hmac, hpermissions ▸ hbits, ?_⟩
  rw [htrace, ← hid]
  rfl

end FragmentStages

end Stages

end SoftwareAuthenticator.Ctap
