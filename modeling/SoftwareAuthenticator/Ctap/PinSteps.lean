import SoftwareAuthenticator.Ctap.TokenSteps
import SoftwareAuthenticator.Ctap.Watch

/-!
# Steps of the PIN state

Whatever the engine does with its PIN state is a sequence of a few kinds of steps, each with one
operation of the environment. What every step keeps, every request keeps.
-/

namespace SoftwareAuthenticator.Ctap

open Cmd

section Records

variable {params : Entries} {current changed : PinStateRecord}

/-- A record with new secrets for its persistent tokens, if they were to be replaced. -/
structure Rotated (rotate : Bool) (record rotated : PinStateRecord) : Prop where
  rest : ∃ tokens, rotated = { record with persistentTokens := tokens }
  revoked : rotate = true → ∀ token ∈ rotated.persistentTokens.toList, token.granted = false
  kept : rotate = false → rotated = record

theorem rotatePersistentTokensIf_rotates {W : Type} {O : Observer env W}
    {P failed : CtapApp → W → Prop}
    (hsecret : ∀ forbidden, Triple O P (freshTokenSecret forbidden true)
      (either (fun _ => P) failed)) (rotate : Bool) (record : PinStateRecord) :
    Triple O P (rotatePersistentTokensIf rotate record)
      (either (fun rotated app w => P app w ∧ Rotated rotate record rotated) failed) := by
  cases rotate with
  | false =>
    refine triple_pure fun app w hw => ⟨hw, ⟨_, rfl⟩, fun h => ?_, fun _ => rfl⟩
    cases h
  | true =>
    refine (hsecret _).andThen fun first => (hsecret _).andThen fun second =>
      triple_pure fun app w hw => ⟨hw, ⟨_, rfl⟩, fun _ token htoken => ?_, fun h => ?_⟩
    · simp only [PersistentTokens.toList, Option.toList_some, List.singleton_append,
        List.mem_cons, List.not_mem_nil, or_false] at htoken
      rcases htoken with rfl | rfl
      · rfl
      · rfl
    · cases h

def SamePin (record record' : PinStateRecord) : Prop :=
  record'.pinHash = record.pinHash ∧ record'.pinRetries = record.pinRetries

theorem withForcedChange_cases (h : withForcedChange params current = .ok changed) :
    changed = current ∨
      (current.pinHash.isSome = true ∧ changed = { current with forcePinChange := true }) := by
  simp only [withForcedChange, bind, Except.bind] at h
  split at h
  · cases h
  split at h
  · split at h
    · cases h
    · rename_i hset
      cases h
      exact .inr ⟨by simpa [Option.isSome_iff_ne_none] using hset, rfl⟩
  · cases h
    exact .inl rfl

theorem withComplexity_cases (h : withComplexity params current = .ok changed) :
    changed = current ∨ changed = { current with
      pinComplexityPolicy := true
      forcePinChange := current.forcePinChange || current.pinHash.isSome } := by
  simp only [withComplexity, bind, Except.bind] at h
  split at h
  · cases h
  split at h
  · cases h
    exact .inr rfl
  · cases h
    exact .inl rfl

theorem withRpIds_cases (h : withRpIds params current = .ok changed) :
    ∃ rpIds, changed = { current with minPinLengthRpIds := rpIds } := by
  unfold withRpIds at h
  split at h
  · cases h
    exact ⟨_, rfl⟩
  simp only [bind, Except.bind] at h
  split at h
  · cases h
  split at h
  · cases h
  split at h
  · cases h
  split at h
  · cases h
    exact ⟨_, rfl⟩
  · cases h
    exact ⟨_, rfl⟩

theorem requestedMinimum_bounds {minimum : ℕ} (h : requestedMinimum params current = .ok minimum) :
    current.minPinLength ≤ minimum ∧ minimum ≤ maxPinLength := by
  have hbounds : ∀ asked : ℕ, (if asked < current.minPinLength then
      Except.error ctap2ErrPinPolicyViolation else if maxPinLength < asked then
      .error ctap1ErrInvalidParameter else .ok asked) = .ok minimum →
      current.minPinLength ≤ minimum ∧ minimum ≤ maxPinLength := by
    intro asked hasked
    split at hasked
    · cases hasked
    split at hasked
    · cases hasked
    · cases hasked
      omega
  simp only [requestedMinimum, bind, Except.bind] at h
  split at h
  · exact hbounds _ h
  split at h
  · cases h
  · exact hbounds _ h

theorem minPinLengthChange_cases (h : minPinLengthChange params current = .ok changed) :
    ∃ minimum rpIds forced complex,
      (current.minPinLength ≤ minimum ∧ minimum ≤ maxPinLength) ∧
      (forced = current ∨
        (current.pinHash.isSome = true ∧ forced = { current with forcePinChange := true })) ∧
      (complex = forced ∨ complex = { forced with
        pinComplexityPolicy := true
        forcePinChange := forced.forcePinChange || forced.pinHash.isSome }) ∧
      changed = { withMinimum minimum complex with
        minPinLengthRpIds := rpIds, minPinLength := minimum } := by
  simp only [minPinLengthChange, bind, Except.bind] at h
  split at h
  · cases h
  split at h
  · cases h
  split at h
  · cases h
  split at h
  · cases h
  rename_i _ minimum hminimum _ forced hforced _ complex hcomplex _ listed hlisted
  cases h
  obtain ⟨rpIds, rfl⟩ := withRpIds_cases hlisted
  exact ⟨minimum, rpIds, forced, complex, requestedMinimum_bounds hminimum,
    withForcedChange_cases hforced, withComplexity_cases hcomplex, rfl⟩

theorem minPinLengthChange_samePin (h : minPinLengthChange params current = .ok changed) :
    SamePin current changed := by
  obtain ⟨minimum, rpIds, forced, complex, -, hforced, hcomplex, rfl⟩ := minPinLengthChange_cases h
  rcases hforced with rfl | ⟨-, rfl⟩
  · rcases hcomplex with rfl | rfl
    · exact ⟨rfl, rfl⟩
    · exact ⟨rfl, rfl⟩
  · rcases hcomplex with rfl | rfl
    · exact ⟨rfl, rfl⟩
    · exact ⟨rfl, rfl⟩

end Records

theorem pinEvent_of_isPlain {e : env.Event} (h : EnvOp.isPlain e.op = true) : pinEvent e = none := by
  unfold pinEvent
  split <;> first | rfl | cases h

theorem pinEvent_of_isUserOp {e : env.Event} (h : EnvOp.isUserOp e.op = true) :
    pinEvent e = none := by
  unfold pinEvent
  split <;> first | rfl | cases h

/-- Where the engine stands between two operations on its PIN state. -/
inductive PinPoint where
  | idle
  /-- A retry is spent for good, and no candidate compared yet. -/
  | debited
  /-- The candidate was right. -/
  | matched
  /-- A new PIN was marked, and its record is about to be written. -/
  | announced (pin : Bytes) (record : PinStateRecord)
  /-- A reset has failed. -/
  | shaken
  /-- After a failed reset, the PIN state could not be read either. -/
  | lost

namespace PinPoint

/-- Where other operations may come in between. -/
def rests : PinPoint → Bool
  | .idle | .debited => true
  | _ => false

def writes : PinPoint → Bool
  | .idle | .matched | .announced _ _ => true
  | _ => false

def reads : PinPoint → Bool
  | .idle | .shaken => true
  | _ => false

def failing : PinPoint → PinPoint
  | .shaken => .lost
  | point => point

end PinPoint

inductive PinChange : PinPoint → PinRetryState → PinRetryState → Prop
  | toggle (pin : PinRetryState) : PinChange .idle pin { pin with
      persistent := { pin.persistent with alwaysUv := !pin.persistent.alwaysUv } }
  | minimum {pin : PinRetryState} {params : Entries} {changed rotated : PinStateRecord} :
      minPinLengthChange params pin.persistent = .ok changed →
      Rotated changed.forcePinChange changed rotated →
      PinChange .idle pin { pin with persistent := rotated }
  | debit {pin debited : PinRetryState} : pin.beginAttempt = .ok debited →
      PinChange .idle pin debited
  | rewrite (pin : PinRetryState) : PinChange .idle pin pin
  | complete (pin : PinRetryState) : PinChange .matched pin
      ⟨{ pin.persistent with pinRetries := maxPinRetries }, 0⟩
  | renew (new : Bytes) (record : PinStateRecord) (pin : PinRetryState) :
      PinChange (.announced new record) pin ⟨record, 0⟩
  | grant {pin : PinRetryState} (tokens : PersistentTokens) :
      pin.persistent.forcePinChange = false → PinChange .idle pin { pin with
        persistent := { pin.persistent with persistentTokens := tokens } }

variable {p : PinPoint}

theorem PinChange.writes {pin pin' : PinRetryState} (hchange : PinChange p pin pin') :
    p.writes = true := by
  cases hchange <;> rfl

/-- How the engine adopts what it has written: where it must change the PIN from now on, it has
ended the token. -/
structure Adopts (app app' : CtapApp) : Prop where
  stored : app'.storedPinState = app.storedPinState
  token : app.pinState.token.inUse = none → app'.pinState.token.inUse = none
  ended : app'.pinState.persistent.forcePinChange = true →
    app.pinState.persistent.forcePinChange = true ∨ app'.pinState.token.inUse = none

namespace CtapApp

def retry (app : CtapApp) (pin : PinRetryState) : CtapApp :=
  { app with pinState := { app.pinState with pin := pin } }

def replace (app : CtapApp) (record : PinStateRecord) (stored : StoredPinState) : CtapApp :=
  { app with
    pinState := (app.pinState.adoptPersistent record).invalidatePinUvAuthTokens
    credMgmtState := .initial
    storedPinState := stored }

def close (app : CtapApp) : CtapApp :=
  app.replace { app.pinState.persistent with
    persistentTokens := .none, pinRetries := 0, alwaysUv := true } .unreadable

def find (app : CtapApp) (record : PinStateRecord) : CtapApp :=
  let changed := changedPin app.pinState.persistent record
  if changed ∨ app.pinState.persistent.persistentTokens ≠ record.persistentTokens then
    { app with
      pinState := (if changed then app.pinState.invalidatePinUvAuthTokens
        else app.pinState).adoptPersistent record
      credMgmtState := .initial }
  else app

/-- Either the record is adopted, or nothing but the number of retries differs. -/
theorem find_cases (app : CtapApp) (record : PinStateRecord) :
    (app.find record).pinState.pin = { app.pinState.pin with persistent := record } ∨
      (app.find record = app ∧ changedPin app.pinState.persistent record = false ∧
        app.pinState.persistent.persistentTokens = record.persistentTokens) := by
  unfold find
  dsimp only
  split
  · split
    · exact .inl rfl
    · exact .inl rfl
  · rename_i hsame
    simp only [Bool.not_eq_true, ne_eq, not_or, not_not] at hsame
    exact .inr ⟨rfl, hsame⟩

theorem find_self (app : CtapApp) : app.find app.pinState.persistent = app := by
  simp [find, changedPin]

@[simp] theorem find_storedPinState (app : CtapApp) (record : PinStateRecord) :
    (app.find record).storedPinState = app.storedPinState := by
  unfold find
  dsimp only
  split
  · rfl
  · rfl

end CtapApp

/-- What the PIN state depends on between its steps. -/
structure Frame (app app' : CtapApp) : Prop where
  pin : app'.pinState.pin = app.pinState.pin
  stored : app'.storedPinState = app.storedPinState
  token : app.pinState.token.inUse = none → app'.pinState.token.inUse = none

variable {app app' : CtapApp}

theorem frame_of_authority (h : app'.authority = app.authority) : Frame app app' := by
  refine ⟨congrArg Authority.pin h, congrArg Authority.stored h, fun hnone => ?_⟩
  have htoken : app'.pinState.token = app.pinState.token := congrArg Authority.token h
  rw [htoken]
  exact hnone

section Steps

theorem request_of_renews {request : Request} (h : request.scope.renews = true) :
    ∃ payload, request = .cbor (0x06 :: payload) := by
  match request with
  | .cbor (command :: payload) =>
    have hcommand : (commandScope command).renews = true := h
    unfold commandScope at hcommand
    split at hcommand
    all_goals first | exact ⟨payload, rfl⟩ | cases hcommand

theorem powerUp_rule {W : Type} {O : Observer env W} {off : W → Prop} {on : CtapApp → W → Prop}
    {settings : Settings}
    (hfound : ∀ w found, off w → O.admits w ⟨.store .pinState, .ok found⟩ →
      O.safe (O.next w ⟨.store .pinState, .ok found⟩) ∧
        on (.new settings (.fromPersistent (found.getD .initial)) .read)
          (O.next w ⟨.store .pinState, .ok found⟩))
    {F : StoreError → W → Prop}
    (herror : ∀ w err, off w → O.admits w ⟨.store .pinState, .error err⟩ →
      O.safe (O.next w ⟨.store .pinState, .error err⟩) ∧
        F err (O.next w ⟨.store .pinState, .error err⟩))
    (hrandom : ∀ w err (hash : Vector UInt8 16), F err w → O.admits w ⟨.random 16, hash⟩ →
      O.safe (O.next w ⟨.random 16, hash⟩) ∧
        on (.new settings (.fromPersistent (closedPersistent hash.toList))
          (if closesAuthority err then .unreadable else .unread)) (O.next w ⟨.random 16, hash⟩)) :
    Triple O (fun _ w => off w) (powerUp settings)
      fun _ app w => app.elim (off w) fun app => on app w := by
  refine Triple.surely (M := fun (loaded : PinState × StoredPinState) _ w =>
    on (.new settings loaded.1 loaded.2) w)
    (loadPinState_rule (F := fun err _ w => F err w) (fun _ => hfound) (fun _ => herror)
      fun _ => hrandom) fun loaded => fun _ w h => h

variable [Externals]

structure Offered (v : Authority) (pin hash : Bytes) (length : ℕ) : Prop where
  hashed : pinHash pin = hash
  decoded : ∃ padded, decodeNewPin padded v.pin.persistent.minPinLength
    v.pin.persistent.pinComplexityPolicy = .ok (pin, length)

/-- Such a PIN may be set if there is none yet, or by a request that changes the PIN, has checked
it, and does not repeat one that must be changed. -/
structure NewPin (changing : Bool) (v : Authority) (pin hash : Bytes) (length : ℕ) : Prop
    extends Offered v pin hash length where
  renews : v.pin.isSet = false ∨
    (changing = true ∧ v.stored = .read ∧ repeatsForcedPin v.pin.persistent hash = false)

inductive PinStep (changing : Bool) : PinPoint → CtapApp → env.Event → PinPoint → CtapApp → Prop
  | quiet {p : PinPoint} {app : CtapApp} {e : env.Event} : p.rests = true →
      pinEvent e = none → PinStep changing p app e p app
  -- Writing
  | write {p : PinPoint} {app app' : CtapApp} {d : CommitDurability} :
      PinChange p app.pinState.pin app'.pinState.pin → Adopts app app' →
      app.storedPinState = .read → PinStep changing p app
        ⟨.store (.setPinState app'.pinState.persistent), .ok d⟩ .idle app'
  | debit {app : CtapApp} {debited : PinRetryState} {d : CommitDurability} :
      app.pinState.pin.beginAttempt = .ok debited → app.storedPinState = .read →
      d ≠ .unconfirmed → PinStep changing .idle app
        ⟨.store (.setPinState debited.persistent), .ok d⟩ .debited (app.retry debited)
  | unwritten {p : PinPoint} {app : CtapApp} {record : PinStateRecord} {err : StoreError} :
      p.writes = true → app.storedPinState = .read →
      PinStep changing p app ⟨.store (.setPinState record), .error err⟩ .idle app
  -- The PIN check and new PINs
  | right {app : CtapApp} {candidate : Option Bytes} :
      pinMatches app.pinState.persistent.pinHash candidate = true → PinStep changing .debited app
        ⟨.observe (.comparison app.pinState.persistent.pinHash candidate), ()⟩ .matched app
  | wrong {app : CtapApp} {candidate : Option Bytes} :
      pinMatches app.pinState.persistent.pinHash candidate = false → PinStep changing .debited app
        ⟨.observe (.comparison app.pinState.persistent.pinHash candidate), ()⟩ .idle
        (app.retry { app.pinState.pin with
          consecutiveMismatches := min (app.pinState.pin.consecutiveMismatches + 1) 255 })
  | announce {app : CtapApp} {pin hash : Bytes} {length : ℕ} {record : PinStateRecord} :
      NewPin changing app.authority pin hash length →
      Rotated app.pinState.isSet { app.pinState.persistent with
        pinHash := some hash
        pinRetries := maxPinRetries
        pinCodePointLength := length
        forcePinChange := false } record →
      PinStep changing .idle app ⟨.observe (.newPin pin), ()⟩ (.announced pin record) app
  -- Reading
  | found {p : PinPoint} {app : CtapApp} {record : PinStateRecord} : p.reads = true →
      app.storedPinState = .read →
      PinStep changing p app ⟨.store .pinState, .ok (some record)⟩ .idle (app.find record)
  | missing {p : PinPoint} {app : CtapApp} : p.reads = true → app.storedPinState = .read →
      missingAllowed app.pinState.persistent = true →
      PinStep changing p app ⟨.store .pinState, .ok none⟩ .idle app
  | vanished {p : PinPoint} {app : CtapApp} : p.reads = true → app.storedPinState = .read →
      missingAllowed app.pinState.persistent = false →
      PinStep changing p app ⟨.store .pinState, .ok none⟩ .idle app.close
  | condemned {p : PinPoint} {app : CtapApp} {err : StoreError} : p.reads = true →
      app.storedPinState = .read → closesAuthority err = true →
      PinStep changing p app ⟨.store .pinState, .error err⟩ .idle app.close
  | failing {p : PinPoint} {app : CtapApp} {err : StoreError} : p.reads = true →
      app.storedPinState = .read → closesAuthority err = false →
      PinStep changing p app ⟨.store .pinState, .error err⟩ p.failing app
  | loaded {p : PinPoint} {app : CtapApp} {found : Option PinStateRecord} : p.reads = true →
      app.storedPinState = .unread → PinStep changing p app ⟨.store .pinState, .ok found⟩ .idle
        (app.replace (PinState.fromPersistent (found.getD .initial)).persistent .read)
  | unloaded {p : PinPoint} {app : CtapApp} {err : StoreError} : p.reads = true →
      app.storedPinState = .unread → PinStep changing p app ⟨.store .pinState, .error err⟩ .idle
        { app with storedPinState := if closesAuthority err then .unreadable else .unread }
  -- Resetting
  | reset {app : CtapApp} {d : CommitDurability} :
      PinStep changing .idle app ⟨.store .clear, .ok d⟩ .idle
        { app with pinState := app.pinState.reset, storedPinState := .read }
  | shaken {app : CtapApp} {err : StoreError} :
      PinStep changing .idle app ⟨.store .clear, .error err⟩ .shaken app
  | sealed {app : CtapApp} {hash : Vector UInt8 16} :
      PinStep changing .lost app ⟨.random 16, hash⟩ .idle
        (app.replace (PinState.fromPersistent (closedPersistent hash.toList)).persistent .unread)

/-- An invariant of the engine and an observer, for every point, that the steps keep. -/
structure PinLaws {W : Type} (O : Observer env W) (I : PinPoint → CtapApp → W → Prop)
    (changing : Bool) : Prop where
  safe : ∀ {p app w}, I p app w → O.safe w
  step : ∀ {p app e p' app' w}, PinStep changing p app e p' app' → I p app w → O.admits w e →
    I p' app' (O.next w e)
  frame : ∀ {p app app' w}, Frame app app' → I p app w → I p app' w
  /-- A token may be issued once the PIN was checked, unless it must be changed. -/
  issue : ∀ {app app' w}, I .idle app w → app.storedPinState = .read →
    app.pinState.persistent.forcePinChange = false → app'.pinState.pin = app.pinState.pin →
    app'.storedPinState = app.storedPinState → I .idle app' w
  /-- Nothing is written while the PIN state is not read. -/
  refused : ∀ {p app w}, p.writes = true → app.storedPinState ≠ .read → I p app w → I .idle app w
  /-- A PIN state that is closed for good is not read again. -/
  settled : ∀ {app w}, app.storedPinState = .unreadable → I .shaken app w → I .idle app w

namespace PinLaws

variable {W : Type} {O : Observer env W} {I : PinPoint → CtapApp → W → Prop} {changing : Bool}
  (hI : PinLaws O I changing)

include hI

theorem asks {p p' : PinPoint} {e : env.Event} {w : W} (hstep : PinStep changing p app e p' app')
    (h : I p app w) (hadmits : O.admits w e) :
    O.safe (O.next w e) ∧ I p' app' (O.next w e) :=
  ⟨hI.safe (hI.step hstep h hadmits), hI.step hstep h hadmits⟩

variable {ε α : Type} {scope : Scope}

theorem plain {c : EngineM ε α} (hc : PlainIn scope c) (X : Authority → Prop) :
    Triple O (fun app w => I .idle app w ∧ X app.authority) c
      (either (fun _ app w => I .idle app w ∧ X app.authority) (I .idle)) := by
  refine (Moves.keeps hc.confined (fun app app' w h hw => ?_) fun app w e he hw hadmits => ?_).outcome
    (fun _ _ _ h => h) fun _ _ _ h => h.1
  · exact ⟨hI.frame (frame_of_authority h) hw.1, h ▸ hw.2⟩
  · obtain ⟨hsafe, h⟩ := hI.asks (.quiet rfl (pinEvent_of_isPlain he)) hw.1 hadmits
    exact ⟨hsafe, h, hw.2⟩

theorem plain_idle {c : EngineM ε α} (hc : PlainIn scope c) :
    Triple O (I .idle) c (either (fun _ => I .idle) (I .idle)) :=
  ((hI.plain hc fun _ => True).weaken fun _ _ h => ⟨h, trivial⟩).outcome (fun _ _ _ h => h.1)
    fun _ _ _ h => h

theorem observe (hp : p.rests = true) {phase : Phase}
    (hphase : pinEvent ⟨.observe phase, ()⟩ = none) (X : Authority → Prop)
    {failed : CtapApp → W → Prop} :
    Triple O (fun app w => I p app w ∧ X app.authority) (observePhase (ε := Status) phase)
      (either (fun _ app w => I p app w ∧ X app.authority) failed) := by
  refine triple_ask fun app w answer hw hadmits => ?_
  obtain ⟨hsafe, h⟩ := hI.asks (.quiet hp hphase) hw.1 hadmits
  exact ⟨hsafe, h, hw.2⟩

theorem save (p : PinPoint) (hp : p.writes = true)
    {record : PinStateRecord} {P : CtapApp → W → Prop} (g : CtapApp → CtapApp)
    (hP : ∀ app w, P app w → I p app w ∧ PinChange p app.pinState.pin (g app).pinState.pin ∧
      Adopts app (g app) ∧ (g app).pinState.persistent = record) :
    Triple O P (savePinState record) (either
      (fun _ app w => I .idle (g app) w ∧ app.storedPinState = .read) (I .idle)) := by
  refine savePinState_rule (fun app w d hw hread hadmits => ?_)
    (fun app w err hw hread hadmits => ?_) fun app w hw hread => hI.refused hp hread (hP app w hw).1
  · obtain ⟨h, hchange, hadopts, rfl⟩ := hP app w hw
    obtain ⟨hsafe, h'⟩ := hI.asks (.write hchange hadopts hread) h hadmits
    exact ⟨hsafe, h', hread⟩
  · exact hI.asks (.unwritten hp hread) (hP app w hw).1 hadmits

theorem save_adopt {record : PinStateRecord} {P : CtapApp → W → Prop}
    (hP : ∀ app w, P app w → I .idle app w ∧
      PinChange .idle app.pinState.pin { app.pinState.pin with persistent := record } ∧
      (record.forcePinChange = true → app.pinState.persistent.forcePinChange = true)) :
    Triple O P (savePinState record) (either (fun _ app w =>
      I .idle { app with pinState := app.pinState.adoptPersistent record } w) (I .idle)) := by
  refine (hI.save .idle rfl (fun app => { app with
    pinState := app.pinState.adoptPersistent record }) fun app w hw => ?_).outcome
    (fun _ _ _ h => h.1) fun _ _ _ h => h
  obtain ⟨h, hchange, hforce⟩ := hP app w hw
  exact ⟨h, hchange, ⟨rfl, id, fun hforced => .inl (hforce hforced)⟩, rfl⟩

omit [Externals] hI in
theorem confirm (durability : CommitDurability) {X : CtapApp → Prop} :
    Triple O (fun app w => I .idle app w ∧ X app) (requireConfirmedRetry durability)
      (either (fun _ app w => I .idle app w ∧ X app) (I .idle)) := by
  cases durability with
  | unconfirmed => exact triple_fail fun app w h => h.1
  | flushed | volatile => exact triple_pure fun app w h => h

theorem toggleAlwaysUv : Keeps O (I .idle) toggleAlwaysUv := by
  refine Triple.same (triple_gets_bind fun current => ?_)
  refine (hI.save_adopt ?_).andThen fun _ => triple_modify fun app w h => h
  rintro app w ⟨rfl, h⟩
  exact ⟨h, .toggle _, id⟩

theorem setMinPinLength (params : Entries) : Keeps O (I .idle) (setMinPinLength params) := by
  refine Triple.same (triple_gets_bind fun current => ?_)
  refine triple_ofExcept_bind (fun _ _ _ _ h => h.2) fun changed hchanged => ?_
  refine Triple.andThen ((rotatePersistentTokensIf_rotates (fun forbidden =>
    hI.plain (plain_freshTokenSecret forbidden true) fun v => v.pin.persistent = current)
    changed.forcePinChange changed).weaken fun app w h => h.symm) fun rotated =>
    Triple.weaken (Triple.of_pre fun hrotated => ?_) fun app w h => h.symm
  cases hforce : rotated.forcePinChange with
  | true =>
    refine (hI.save .idle rfl (fun app => { app with
      pinState := app.pinState.invalidatePinUvAuthTokens.adoptPersistent rotated
      credMgmtState := .initial }) ?_).andThen fun _ => ?_
    · rintro app w ⟨h, rfl⟩
      exact ⟨h, .minimum hchanged hrotated, ⟨rfl, fun _ => rfl, fun _ => .inr rfl⟩, rfl⟩
    · exact fun app w h => h.1
  | false =>
    refine (hI.save_adopt ?_).andThen fun _ => fun app w h => h
    rintro app w ⟨h, rfl⟩
    exact ⟨h, .minimum hchanged hrotated, fun hforced =>
      absurd (hforce.symm.trans hforced) Bool.false_ne_true⟩

theorem storeNewPin (pin hash : Bytes) (length : ℕ) :
    Triple O (fun app w => I .idle app w ∧ NewPin changing app.authority pin hash length)
      (storeNewPin pin hash length)
      (either (fun _ app w => I .idle app w ∧ app.storedPinState = .read) (I .idle)) := by
  refine triple_gets_bind fun state => ?_
  refine Triple.andThen ((rotatePersistentTokensIf_rotates (fun forbidden =>
    hI.plain (plain_freshTokenSecret forbidden true) fun v => v.pin = state.pin ∧
      NewPin changing v pin hash length) state.isSet _).weaken fun app w h =>
    ⟨h.2.1, congrArg PinState.pin h.1, h.2.2⟩) fun rotated =>
    Triple.weaken (Triple.of_pre fun hrotated => ?_) fun app w h => h.symm
  have hforce : rotated.forcePinChange = false := by
    obtain ⟨tokens, rfl⟩ := hrotated.rest
    rfl
  refine Triple.andThen (M := fun _ => I (.announced pin rotated)) (triple_ask ?_) fun _ => ?_
  · rintro app w answer ⟨h, hpin, hnew⟩ hadmits
    refine hI.asks (.announce hnew ?_) h hadmits
    rw [PinState.isSet, PinState.persistent, show app.pinState.pin = state.pin from hpin]
    exact hrotated
  · refine (hI.save (.announced pin rotated) rfl (fun app => { app with
      pinState := (app.pinState.setPin hash).adoptPersistent rotated
      credMgmtState := .initial }) fun app w h => ⟨h, .renew pin rotated _, ⟨rfl, fun _ => rfl,
      fun hforced => ?_⟩, rfl⟩).andThen fun _ => fun app w h => h
    exact absurd (hforce.symm.trans hforced) Bool.false_ne_true

variable (protocol : PinProtocol) (keys : PinUvSessionKeys)

theorem grantPersistentToken :
    Triple O (fun app w => I .idle app w ∧ app.pinState.persistent.forcePinChange = false)
      (grantPersistentToken protocol keys) (either (fun _ => I .idle) (I .idle)) := by
  refine triple_gets_bind fun persistent => ?_
  let X : Authority → Prop := fun v => v.pin.persistent = persistent ∧
    persistent.forcePinChange = false
  refine Triple.andThen ((hI.plain (plain_persistentTokenFor _ _) X).weaken
    fun app w h => ⟨h.2.1, h.1, h.1 ▸ h.2.2⟩) fun token =>
    (hI.plain (plain_encryptForPlatform _ _ _) X).andThen fun encrypted => ?_
  dsimp only
  refine (hI.save_adopt ?_).andThen fun durability => ?_
  · rintro app w ⟨h, rfl, hforce⟩
    exact ⟨h, .grant _ hforce, id⟩
  · refine Triple.andThen (M := fun _ => I .idle) (triple_modify fun app w h => h)
      fun _ => (hI.plain_idle plain_clearCredMgmt).andThen fun _ => ?_
    exact ((confirm durability (X := fun _ => True)).weaken fun app w h => ⟨h, trivial⟩).andThen
      fun _ => triple_pure fun app w h => h.1

theorem issueTransientToken (grant : TokenGrant) :
    Triple O (fun app w => (I .idle app w ∧ app.pinState.persistent.forcePinChange = false) ∧
        app.storedPinState = .read) (issueTransientToken protocol keys grant)
      (either (fun _ => I .idle) (I .idle)) := by
  let X : Authority → Prop := fun v => v.pin.persistent.forcePinChange = false ∧ v.stored = .read
  refine triple_gets_bind fun tokens => Triple.andThen
    ((hI.plain (plain_freshTokenSecret _ _) X).weaken fun app w h =>
      ⟨h.2.1.1, h.2.1.2, h.2.2⟩) fun token =>
    (hI.plain (plain_encryptForPlatform _ _ _) X).andThen fun encrypted => ?_
  refine Triple.andThen (M := fun _ => I .idle) ?_ fun _ =>
    (hI.plain_idle plain_clearCredMgmt).andThen fun _ => triple_pure fun app w h => h
  refine triple_gets_bind fun issued => (((hI.observe rfl rfl X).weaken fun app w h =>
    h.2).andThen fun _ => (hI.plain plain_now X).andThen fun time => triple_modify ?_)
  exact fun app w h => hI.issue h.1 h.2.2 h.2.1 rfl rfl

theorem grantToken (grant : TokenGrant) :
    Triple O (fun app w => (I .idle app w ∧ app.pinState.persistent.forcePinChange = false) ∧
        app.storedPinState = .read) (grantToken protocol keys grant)
      (either (fun _ => I .idle) (I .idle)) := by
  unfold Ctap.grantToken
  split
  · exact (hI.grantPersistentToken protocol keys).weaken fun app w h => h.1
  · exact hI.issueTransientToken protocol keys grant

theorem debitRetry : Triple O (I .idle) debitRetry (either (fun _ => I .debited) (I .idle)) := by
  refine triple_gets_bind fun pin => Triple.andThen
    ((hI.observe rfl rfl fun v => v.pin = pin).weaken fun app w h => h.symm) fun _ => ?_
  refine triple_ofExcept_bind (fun _ _ _ _ h => h.1) fun debited hdebited => ?_
  refine (hI.plain plain_unsupportedDirectoryFlush fun v => v.pin = pin).andThen
    fun unsupported => ?_
  split
  · exact triple_fail fun app w h => h.1
  · refine Triple.andThen (M := fun (d : CommitDurability) (app : CtapApp) w =>
      I (if d = .unconfirmed then .idle else .debited) (app.retry debited) w) ?_ fun d =>
      Triple.andThen (M := fun _ app w => I (if d = .unconfirmed then .idle else .debited) app w)
        (fun app w h => h) fun _ => ?_
    · refine savePinState_rule ?_ ?_ fun app w h hread => hI.refused rfl hread h.1
      · rintro app w d ⟨h, rfl⟩ hread hadmits
        split
        · have hadopts : Adopts app (app.retry debited) := by
            refine ⟨rfl, id, fun hforce => .inl ?_⟩
            obtain ⟨-, -, -, rfl⟩ := beginAttempt_cases hdebited
            exact hforce
          exact hI.asks (.write (.debit hdebited) hadopts hread) h hadmits
        · rename_i hd
          exact hI.asks (.debit hdebited hread hd) h hadmits
      · exact fun app w err h hread hadmits => hI.asks (.unwritten rfl hread) h.1 hadmits
    · cases d with
      | unconfirmed => exact triple_fail fun app w h => h
      | flushed | volatile => exact triple_pure fun app w h => h

theorem compareCandidate (pinHashEnc : Bytes) :
    Triple O (I .debited) (compareCandidate protocol keys pinHashEnc)
      (either (fun _ app w => I .idle app w ∧ app.storedPinState = .read) (I .idle)) := by
  refine Triple.andThen ((hI.observe rfl rfl fun _ => True).weaken fun app w h =>
    ⟨h, trivial⟩) fun _ => triple_gets_bind fun pin => ?_
  cases hmatch : pinMatches pin.persistent.pinHash (decrypt protocol keys pinHashEnc) with
  | true =>
    rw [finishAttempt_right hmatch]
    refine Triple.andThen (M := fun _ app w => I .matched app w ∧ app.pinState.pin = pin)
      (triple_ask ?_) fun _ => ?_
    · rintro app w answer ⟨rfl, h, -⟩ hadmits
      obtain ⟨hsafe, h'⟩ := hI.asks (.right hmatch) h hadmits
      exact ⟨hsafe, h', rfl⟩
    · refine (hI.save .matched rfl (·.retry _) ?_).andThen fun durability =>
        Triple.andThen (M := fun _ app w => I .idle app w ∧ app.storedPinState = .read)
          (triple_modify fun app w h => h) fun _ => confirm durability
      rintro app w ⟨h, rfl⟩
      exact ⟨h, .complete _, ⟨rfl, id, .inl⟩, rfl⟩
  | false =>
    obtain ⟨status, hwrong⟩ := finishAttempt_wrong hmatch
    rw [hwrong]
    refine Triple.andThen (M := fun _ (app : CtapApp) w => I .idle (app.retry { pin with
      consecutiveMismatches := min (pin.consecutiveMismatches + 1) 255 }) w)
      (triple_ask ?_) fun _ => Triple.andThen (M := fun _ => I .idle)
      (fun app w h => h) fun _ => Triple.andThen (M := fun _ => I .idle)
      (triple_modify fun app w h => hI.frame (show Frame app _ from ⟨rfl, rfl, id⟩) h)
      fun _ => ?_
    · rintro app w answer ⟨rfl, h, -⟩ hadmits
      exact hI.asks (.wrong hmatch) h hadmits
    · refine Triple.andThen (M := fun _ => I .idle) (triple_gets_bind fun record => ?_)
        fun durability => ((confirm durability (X := fun _ => True)).weaken fun app w h =>
          ⟨h, trivial⟩).andThen fun _ => triple_fail fun app w h => h.1
      refine (hI.save .idle rfl (fun app => app) ?_).outcome (fun _ _ _ h => h.1) fun _ _ _ h => h
      rintro app w ⟨rfl, h⟩
      exact ⟨h, .rewrite _, ⟨rfl, id, .inl⟩, rfl⟩

/-- How a failed read leaves the engine: its PIN state is closed or still not read, or the read
may be tried again. -/
def Failed (I : PinPoint → CtapApp → W → Prop) (p : PinPoint) (app : CtapApp) (w : W) : Prop :=
  (app.storedPinState ≠ .read ∧ I .idle app w) ∨ (app.storedPinState = .read ∧ I p.failing app w)

/-- What an answer of the store leaves to do. -/
def Reread (I : PinPoint → CtapApp → W → Prop) (p : PinPoint) :
    Except StoreError (Option PinStateRecord) → CtapApp → W → Prop
  | .ok (some record), app, w => I .idle (app.find record) w
  | .ok none, app, w => (missingAllowed app.pinState.persistent = true → I .idle app w) ∧
    (missingAllowed app.pinState.persistent = false → I .idle app.close w)
  | .error err, app, w => (closesAuthority err = true → I .idle app.close w) ∧
    (closesAuthority err = false → app.storedPinState = .read ∧ I p.failing app w)

theorem refreshRead (hp : p.reads = true) :
    Triple O (fun app w => app.storedPinState = .read ∧ I p app w) refreshRead
      (either (fun _ => I .idle) (Failed I p)) := by
  refine Triple.andThen (M := Reread I p) (triple_ask ?_) fun answer => ?_
  · rintro app w (err | _ | record) ⟨hread, h⟩ hadmits
    case ok.some => exact hI.asks (.found hp hread) h hadmits
    case ok.none =>
      cases hallowed : missingAllowed app.pinState.persistent with
      | true =>
        obtain ⟨hsafe, h'⟩ := hI.asks (.missing hp hread hallowed) h hadmits
        exact ⟨hsafe, fun _ => h', fun hnot => absurd (hallowed.symm.trans hnot) (by simp)⟩
      | false =>
        obtain ⟨hsafe, h'⟩ := hI.asks (.vanished hp hread hallowed) h hadmits
        exact ⟨hsafe, fun hnot => absurd (hallowed.symm.trans hnot) (by simp), fun _ => h'⟩
    case error =>
      cases hcloses : closesAuthority err with
      | true =>
        obtain ⟨hsafe, h'⟩ := hI.asks (.condemned hp hread hcloses) h hadmits
        exact ⟨hsafe, fun _ => h', fun hnot => absurd (hcloses.symm.trans hnot) (by simp)⟩
      | false =>
        obtain ⟨hsafe, h'⟩ := hI.asks (.failing hp hread hcloses) h hadmits
        exact ⟨hsafe, fun hnot => absurd (hcloses.symm.trans hnot) (by simp), fun _ => ⟨hread, h'⟩⟩
  · rcases answer with err | _ | record
    case ok.some =>
      refine triple_gets_bind fun current => ?_
      dsimp only
      split
      · rename_i hdiffers
        rintro app w ⟨rfl, h⟩
        rw [Reread, CtapApp.find, if_pos hdiffers] at h
        cases hchanged : changedPin app.pinState.persistent record with
        | true | false =>
          rw [hchanged] at h
          exact h
      · rename_i hsame
        refine triple_pure ?_
        rintro app w ⟨rfl, h⟩
        rwa [Reread, CtapApp.find, if_neg hsame] at h
    case ok.none =>
      refine triple_gets_bind fun current => ?_
      cases hallowed : missingAllowed current with
      | true =>
        rintro app w ⟨rfl, h⟩
        exact h.1 hallowed
      | false =>
        rintro app w ⟨rfl, h⟩
        exact .inl ⟨by rintro ⟨⟩, h.2 hallowed⟩
    case error =>
      refine Triple.andThen (M := fun _ => Failed I p) (Triple.when (fun hcloses app w h => ?_)
        fun hcloses app w h => .inr (h.2 hcloses)) fun _ => triple_fail fun app w h => h
      exact show Failed I p app.close w from .inl ⟨by rintro ⟨⟩, h.1 hcloses⟩

theorem readUnreadPinState (hp : p.reads = true) :
    Triple O (fun app w => app.storedPinState = .unread ∧ I p app w) readUnreadPinState
      (either (fun _ => I .idle) (Failed I p)) := by
  refine Triple.andThen (M := fun loaded app w => match loaded.2 with
    | .read => I .idle (app.replace loaded.1.persistent .read) w
    | stored => I .idle { app with storedPinState := stored } w)
    (loadPinState_rule (F := fun err app w => I .idle { app with
      storedPinState := if closesAuthority err then .unreadable else .unread } w) ?_ ?_ ?_) ?_
  · exact fun app w found h hadmits => hI.asks (.loaded hp h.1) h.2 hadmits
  · exact fun app w err h hadmits => hI.asks (.unloaded hp h.1) h.2 hadmits
  · intro app w err hash h hadmits
    have h' := hI.asks (.quiet rfl rfl) h hadmits
    cases hcloses : closesAuthority err with
    | true | false => simpa [hcloses] using h'
  · rintro ⟨loaded, stored⟩
    cases stored with
    | read => exact fun app w h => h
    | unread | unreadable => exact fun app w h => .inl ⟨by simp, h⟩

theorem refresh (hp : p.reads = true)
    (hunreadable : ∀ app w, app.storedPinState = .unreadable → I p app w → I .idle app w) :
    Triple O (I p) refreshPersistentAuthority
      (either (fun _ => I .idle) (Failed I p)) := by
  refine triple_gets_bind fun stored => ?_
  cases stored with
  | read => exact hI.refreshRead hp
  | unread => exact hI.readUnreadPinState hp
  | unreadable => exact triple_pure fun app w h => hunreadable app w h.1 h.2

theorem refreshPersistentAuthority : Keeps O (I .idle) refreshPersistentAuthority :=
  (hI.refresh rfl fun _ _ _ h => h).outcome (fun _ _ _ h => h)
    fun _ _ _ h => h.elim And.right And.right

theorem reconcilePersistentAuthority {ε : Type} :
    Triple O (I .shaken) (reconcilePersistentAuthority (ε := ε))
      (either (fun _ => I .idle) (I .idle)) := by
  refine (hI.refresh rfl fun _ _ => hI.settled).attemptThen fun outcome => ?_
  cases outcome with
  | ok _ => exact triple_pure fun app w h => h
  | error _ =>
    refine triple_gets_bind fun stored => ?_
    cases stored with
    | read =>
      refine Triple.andThen (M := fun (closed : PinState) (app : CtapApp) w =>
        I .idle (app.replace closed.persistent .unread) w) ?_ fun closed => fun app w h => h
      refine Triple.andThen (M := fun (hash : Vector UInt8 16) (app : CtapApp) w => I .idle
        (app.replace (PinState.fromPersistent (closedPersistent hash.toList)).persistent .unread) w)
        (triple_ask ?_) fun hash => fun app w h => h
      rintro app w hash ⟨hread, h | h⟩ hadmits
      · exact absurd hread h.1
      · exact hI.asks .sealed h.2 hadmits
    | unread | unreadable =>
      refine triple_pure fun app w h => h.2.elim And.right fun hlost => ?_
      cases h.1.symm.trans hlost.1

theorem resetAuthenticator : Keeps O (I .idle) resetAuthenticator := by
  refine Triple.same ((hI.plain_idle plain_clearCredMgmt).andThen fun _ => ?_)
  refine Triple.andThen (M := either (fun _ app w => I .idle { app with
      pinState := app.pinState.reset, storedPinState := .read } w) (I .shaken))
    (triple_ask fun app w answer h hadmits => ?_) fun answer => ?_
  · cases answer with
    | ok d => exact hI.asks .reset h hadmits
    | error err => exact hI.asks .shaken h hadmits
  · cases answer with
    | ok d => exact fun app w h => h
    | error err =>
      exact hI.reconcilePersistentAuthority.andThen fun _ => triple_fail fun app w h => h

theorem verifyPinHashEnc (pinHashEnc : Bytes) :
    Triple O (I .idle) (verifyPinHashEnc protocol keys pinHashEnc)
      (either (fun _ app w => I .idle app w ∧ app.storedPinState = .read) (I .idle)) :=
  hI.refreshPersistentAuthority.both.andThen fun _ => hI.debitRetry.andThen fun _ =>
    hI.compareCandidate protocol keys pinHashEnc

theorem offer (newPinEnc : Bytes) (X : Authority → Prop) :
    Triple O (fun app w => I .idle app w ∧ X app.authority)
      (newPinHash protocol keys newPinEnc) (either (fun new app w => I .idle app w ∧
        X app.authority ∧ Offered app.authority new.1 new.2.1 new.2.2) (I .idle)) := by
  refine (hI.plain (built_okOr _ _ : Plain _) X).andThen fun padded => triple_gets_bind fun policy => ?_
  refine triple_ofExcept_bind (fun _ _ _ _ h => h.2.1) fun new hnew => triple_pure ?_
  rintro app w ⟨rfl, h, hX⟩
  exact ⟨h, hX, rfl, padded, hnew⟩

theorem clientPinSetPin (map : Entries) :
    Triple O (I .idle) (clientPinSetPin map)
      (either (fun _ app w => I .idle app w ∧ app.storedPinState = .read) (I .idle)) := by
  refine triple_ofExcept_bind (fun _ _ _ _ h => h) fun p _ =>
    triple_gets_bind fun isSet => ?_
  cases isSet with
  | true => exact triple_fail fun app w h => h.2
  | false =>
    refine Triple.andThen ((hI.plain (plain_decapsulate _ _) fun v =>
      v.pin.isSet = false).weaken fun app w h => h.symm) fun keys =>
      triple_ofExcept_bind (fun _ _ _ _ h => h.1) fun _ _ => ?_
    refine Triple.andThen (hI.offer _ _ _ fun v => v.pin.isSet = false) fun new =>
      Triple.andThen
      (hI.plain plain_unsupportedDirectoryFlush fun v => v.pin.isSet = false ∧
        Offered v new.1 new.2.1 new.2.2) fun unsupported => ?_
    split
    · exact triple_fail fun app w h => h.1
    · exact ((hI.storeNewPin _ _ _).weaken fun app w h => ⟨h.1, h.2.2, .inl h.2.1⟩
        ).andThen fun _ => triple_pure fun app w h => h

omit hI in
theorem clientPinChangePin (hI : PinLaws O I true) (map : Entries) :
    Keeps O (I .idle) (clientPinChangePin map) := by
  refine Triple.same (triple_ofExcept_bind (fun _ _ _ _ h => h) fun p _ =>
    triple_gets_bind fun pin => triple_ofExcept_bind (fun _ _ _ _ h => h.2) fun _ _ => ?_)
  refine Triple.andThen ((hI.plain_idle (plain_decapsulate _ _)).weaken fun app w h => h.2)
    fun keys => triple_ofExcept_bind (fun _ _ _ _ h => h) fun _ _ => ?_
  refine (hI.verifyPinHashEnc _ _ _).andThen fun _ => ?_
  refine Triple.andThen (hI.offer _ _ _ fun v => v.stored = .read) fun new =>
    triple_gets_bind fun persistent => ?_
  split
  · exact triple_fail fun app w h => h.2.1
  · rename_i hrepeats
    refine ((hI.storeNewPin _ _ _).weaken ?_).andThen fun _ => triple_pure fun app w h => h.1
    rintro app w ⟨rfl, h, hread, hoffered⟩
    exact ⟨h, hoffered, .inr ⟨rfl, hread, Bool.eq_false_iff.mpr hrepeats⟩⟩

theorem clientPinGetTokenCommon (keyAgreement : Entries) (pinHashEnc : Bytes) (grant : TokenGrant)
    (forceChangeError : Status) :
    Keeps O (I .idle) (clientPinGetTokenCommon protocol keyAgreement pinHashEnc grant
      forceChangeError) := by
  refine Triple.same (triple_gets_bind fun pin =>
    triple_ofExcept_bind (fun _ _ _ _ h => h.2) fun _ _ => ?_)
  refine (hI.refreshPersistentAuthority.both.weaken fun app w h => h.2).andThen fun _ =>
    (hI.plain_idle (plain_decapsulate _ _)).andThen fun keys =>
    (hI.verifyPinHashEnc _ _ _).andThen fun _ => triple_gets_bind fun forced => ?_
  cases forced with
  | true => exact triple_fail fun app w h => h.2.1
  | false =>
    exact ((hI.grantToken protocol keys grant).weaken fun app w h => ⟨⟨h.2.1, h.1⟩, h.2.2⟩).andThen
      fun encrypted => hI.plain_idle (built_respondWith _ : Plain _)

theorem tokenStep {w : W} (hstep : TokenStep app app') (h : I .idle app w) : I .idle app' w := by
  obtain ⟨⟨token, rfl⟩, hcontinues⟩ := hstep
  exact hI.frame (show Frame app _ from ⟨rfl, rfl, hcontinues.isNone⟩) h

theorem userOp {app : CtapApp} {w : W} {e : env.Event}
    (he : EnvOp.isUserOp e.op = true) (h : I .idle app w) (hadmits : O.admits w e) :
    O.safe (O.next w e) ∧ I .idle app (O.next w e) :=
  hI.asks (.quiet rfl (pinEvent_of_isUserOp he)) h hadmits

theorem basicPart {c : EngineM ε α} (hc : BasicPart scope ε α c) : Keeps O (I .idle) c := by
  refine basicPart_keeps hc (fun h => (hI.plain_idle h).same) (fun _ _ _ => hI.tokenStep)
    (fun _ _ _ he => hI.userOp (EnvOp.isUserOp_of_isTokenOp he)) (fun _ _ => ?_)
    (hI.plain_idle (plainIn_setLargeBlobState _)).same hI.refreshPersistentAuthority
    hI.toggleAlwaysUv hI.setMinPinLength hI.resetAuthenticator
  exact triple_modify fun app w h => hI.frame (show Frame app _ from ⟨rfl, rfl, id⟩) h

theorem commandPart (hscope : scope.renews = false) {c : EngineM ε α}
    (hc : CommandPart scope ε α c) :
    Keeps O (I .idle) c := by
  cases hc with
  | basic h => exact hI.basicPart h
  | clientPinSetPin _ h | clientPinChangePin _ h =>
    exact absurd (hscope.symm.trans h) Bool.false_ne_true
  | clientPinGetTokenCommon protocol keyAgreement pinHashEnc grant forceChangeError =>
    exact hI.clientPinGetTokenCommon _ _ _ _ _

theorem composed {c : EngineM ε α} (hc : Composed .nothing c) : Keeps O (I .idle) c :=
  Built.keeps (fun _ _ _ h => hI.commandPart rfl h) hc

end PinLaws

def Request.clientPin : Request → Option ClientPinSubcommand
  | .cbor (0x06 :: payload) =>
    match requestParameters payload with
    | .ok map => (ClientPinSubcommand.parse (mapGet map (.int 2))).toOption
    | .error _ => none
  | _ => none

namespace PinLaws

variable {W : Type} {O : Observer env W} {I : PinPoint → CtapApp → W → Prop} {changing : Bool}

theorem handleClientPin (payload : Bytes) (hI : PinLaws O I
    (decide ((Request.cbor (0x06 :: payload)).clientPin = some .changePin))) :
    Keeps O (I .idle) (handleClientPin payload) := by
  refine Triple.same (triple_ofExcept_bind (fun _ _ _ _ h => h) fun map hmap =>
    triple_ofExcept_bind (fun _ _ _ _ h => h) fun subcommand hsubcommand => ?_)
  refine (hI.composed composed_readPinStateIfUnread.when).both.andThen fun _ => Triple.both ?_
  cases subcommand with
  | getPinRetries => exact hI.composed (.bind (.gets _) fun _ => built_respondWith _)
  | getKeyAgreement =>
    exact hI.composed (.bind (.ofExcept _) fun _ => .bind (plain_keyAgreementKey _).composed
      fun _ => built_respondWith _)
  | setPin =>
    exact (hI.clientPinSetPin map).outcome (fun _ _ _ h => h.1) fun _ _ _ h => h
  | changePin =>
    refine clientPinChangePin ?_ map
    have hrequest : (Request.cbor (0x06 :: payload)).clientPin = some .changePin := by
      simp only [Request.clientPin, hmap, hsubcommand]
      rfl
    rwa [decide_eq_true hrequest] at hI
  | getPinToken | getPinUvAuthTokenUsingPinWithPermissions =>
    exact hI.composed (.bind (.ofExcept _) fun _ => .part (.clientPinGetTokenCommon _ _ _ _ _))

theorem serve (request : Request)
    (hI : PinLaws O I (decide (request.clientPin = some .changePin))) :
    Keeps O (I .idle) (serve request) := by
  cases hscope : request.scope.renews with
  | false =>
    refine Built.keeps (fun ε α c h => ?_) (prompting_serve request)
    exact askingPart_keeps h (hI.commandPart hscope) (fun _ _ _ => hI.tokenStep)
      fun _ _ _ => hI.userOp
  | true =>
    obtain ⟨payload, rfl⟩ := request_of_renews hscope
    refine (serve_cbor_rule (Q := fun _ => I .idle) 0x06 payload
      (hI.composed (composed_observeLargeBlobState _)) (hI.composed (composed_forgetAssertion _))
      (handleClientPin payload hI)).strengthen ?_
    rintro x app w ⟨answer, -, h⟩
    exact h

end PinLaws

end Steps

end SoftwareAuthenticator.Ctap
