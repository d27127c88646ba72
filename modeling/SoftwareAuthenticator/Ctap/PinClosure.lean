import SoftwareAuthenticator.Ctap.PinMirror

/-!
# The closed PIN state

An engine that could not read its PIN state goes on with a closed one: a PIN nobody knows, no
retries, and no token. Closing a live state keeps its PIN hash.
-/

namespace SoftwareAuthenticator.Ctap

open Cmd

/-- Set and blocked, always user-verified, and without any token. -/
structure CtapApp.Closed (app : CtapApp) : Prop where
  isSet : app.pinState.isSet = true
  pinRetries : app.pinState.persistent.pinRetries = 0
  alwaysUv : app.pinState.persistent.alwaysUv = true
  inUse : app.pinState.token.inUse = none
  persistentTokens : app.pinState.persistent.persistentTokens = .none

theorem CtapApp.Closed.congr {app app' : CtapApp} (h : app.Closed)
    (hpin : app'.pinState.pin = app.pinState.pin)
    (htoken : app.pinState.token.inUse = none → app'.pinState.token.inUse = none) :
    app'.Closed := by
  obtain ⟨hset, hretries, huv, hin, htokens⟩ := h
  refine ⟨?_, ?_, ?_, htoken hin, ?_⟩
  · rw [PinState.isSet, hpin]
    exact hset
  · rw [PinState.persistent, hpin]
    exact hretries
  · rw [PinState.persistent, hpin]
    exact huv
  · rw [PinState.persistent, hpin]
    exact htokens

structure Holding where
  /-- The record the engine goes by, if it holds its PIN state to be read. -/
  last : Option PinStateRecord
  resetting : Bool
  /-- A candidate was compared, or a new PIN set, while no record was gone by. -/
  early : Bool

namespace Holding

/-- A missing record is the default, unless the engine went by more than that. -/
def missing (w : Holding) : Option PinStateRecord :=
  if w.last.all missingAllowed then some .initial else none

def next (w : Holding) (e : env.Event) : Holding :=
  match pinEvent e with
  | some (.read (.ok (some record))) => { w with last := some record, resetting := false }
  | some (.read (.ok none)) => { w with last := w.missing, resetting := false }
  -- An I/O error condemns the record only after a failed reset.
  | some (.read (.error err)) =>
    { w with last := if closesAuthority err ∨ w.resetting then none else w.last, resetting := false }
  | some (.write record (.ok _)) => { w with last := some record }
  | some (.reset (.ok _)) => { w with last := some .initial, resetting := false }
  | some (.reset (.error _)) => { w with resetting := true }
  | some (.comparison _ _) | some (.newPin _) => { w with early := w.early || w.last.isNone }
  | _ => w

/-- While the engine goes by a record without a PIN, a read is not refused for good: it
does not find the state damaged, nor missing although there are persistent tokens. -/
def admits (w : Holding) : env.Event → Prop
  | ⟨.store .pinState, .ok none⟩ =>
    ∀ record ∈ w.last, record.pinHash = none → record.persistentTokens = .none
  | ⟨.store .pinState, .error err⟩ =>
    closesAuthority err = true → ∀ record ∈ w.last, record.pinHash.isSome = true
  | _ => True

def observer : Observer env Holding where
  admits := admits
  next := next
  safe w := w.early = false

end Holding

variable {app app' : CtapApp} {w : Holding} {α : Type} {scope : Scope}

structure Resembles (record live : PinStateRecord) : Prop where
  pinHash : record.pinHash = live.pinHash
  persistentTokens : record.persistentTokens = live.persistentTokens

structure Open (app : CtapApp) (w : Holding) : Prop where
  early : w.early = false
  read : app.storedPinState = .read
  resetting : w.resetting = false
  last : ∃ record, w.last = some record ∧ Resembles record app.pinState.persistent

structure Shut (app : CtapApp) (w : Holding) : Prop where
  early : w.early = false
  not_read : app.storedPinState ≠ .read
  last : w.last = none
  closed : app.Closed

def Settles (app : CtapApp) (w : Holding) : Prop := Open app w ∨ Shut app w

theorem Settles.early (h : Settles app w) : w.early = false :=
  h.elim Open.early Shut.early

theorem Settles.opened (h : Settles app w) (hread : app.storedPinState = .read) : Open app w := by
  rcases h with h | h
  · exact h
  · exact absurd hread h.not_read

theorem Settles.shut (h : Settles app w) (hread : app.storedPinState ≠ .read) : Shut app w := by
  rcases h with h | h
  · exact absurd h.read hread
  · exact h

theorem Open.frame (h : Open app w) (hf : Frame app app') : Open app' w := by
  refine ⟨h.early, hf.stored.trans h.read, h.resetting, ?_⟩
  obtain ⟨record, hlast, hrecord⟩ := h.last
  refine ⟨record, hlast, ?_⟩
  rw [PinState.persistent, hf.pin]
  exact hrecord

theorem Shut.frame (h : Shut app w) (hf : Frame app app') : Shut app' w := by
  refine ⟨h.early, ?_, h.last, h.closed.congr hf.pin hf.token⟩
  rw [hf.stored]
  exact h.not_read

theorem Settles.frame (h : Settles app w) (hf : Frame app app') : Settles app' w :=
  h.imp (fun h => h.frame hf) fun h => h.frame hf

/-- The record the engine goes by, whether or not a reset has just failed. -/
structure GoesBy (app : CtapApp) (w : Holding) : Prop where
  early : w.early = false
  read : app.storedPinState = .read
  last : ∃ record, w.last = some record ∧ Resembles record app.pinState.persistent

theorem Open.goesBy {app : CtapApp} {w : Holding} (h : Open app w) : GoesBy app w :=
  ⟨h.early, h.read, h.last⟩

/-- An I/O error after a failed reset: the engine goes by no record although it has not
noticed yet. -/
structure Lost (app : CtapApp) (w : Holding) : Prop where
  early : w.early = false
  read : app.storedPinState = .read
  last : w.last = none

structure Shaken (app : CtapApp) (w : Holding) : Prop extends GoesBy app w where
  resetting : w.resetting = true

theorem Resembles.missingAllowed {record live : PinStateRecord} (h : Resembles record live) :
    missingAllowed record = missingAllowed live := by
  unfold Ctap.missingAllowed
  rw [h.pinHash, h.persistentTokens]

theorem Settles.open_of_isSet (h : Settles app w) (hset : app.pinState.isSet = false) :
    Open app w := by
  rcases h with h | h
  · exact h
  · rw [h.closed.isSet] at hset
    cases hset

theorem Open.mark (h : Open app w) (phase : Phase) (answer : Unit) :
    Open app (w.next ⟨.observe phase, answer⟩) := by
  obtain ⟨record, hlast, hsame⟩ := h.last
  have hearly : (w.early || w.last.isNone) = false := by simp [h.early, hlast]
  cases phase with
  | comparison | newPin => exact ⟨hearly, h.read, h.resetting, h.last⟩
  | _ => exact h

theorem GoesBy.found {record : PinStateRecord} (h : GoesBy app w) :
    Open (app.find record) (w.next ⟨.store .pinState, .ok (some record)⟩) := by
  refine ⟨h.early, (app.find_storedPinState record).trans h.read, rfl, record, rfl, ?_⟩
  rcases app.find_cases record with hfind | ⟨hfind, hchanged, htokens⟩
  · rw [PinState.persistent, hfind]
    exact ⟨rfl, rfl⟩
  · rw [hfind]
    simp only [changedPin, ne_eq, decide_eq_false_iff_not, not_or, not_not] at hchanged
    exact ⟨hchanged.1.symm, htokens.symm⟩

theorem GoesBy.next_missing (h : GoesBy app w) :
    (w.next ⟨.store .pinState, .ok none⟩).last =
      if missingAllowed app.pinState.persistent then some .initial else none := by
  obtain ⟨-, -, record, hlast, hsame⟩ := h
  rw [← hsame.missingAllowed]
  simp [Holding.next, pinEvent, Holding.missing, hlast]

theorem GoesBy.missing (h : GoesBy app w)
    (hallowed : missingAllowed app.pinState.persistent = true) :
    Open app (w.next ⟨.store .pinState, .ok none⟩) := by
  have hlast := h.next_missing.trans (if_pos hallowed)
  simp only [missingAllowed, Bool.decide_and, Bool.and_eq_true, decide_eq_true_eq,
    Option.isNone_iff_eq_none] at hallowed
  exact ⟨h.early, h.read, rfl, _, hlast, hallowed.1.symm, hallowed.2.symm⟩

theorem CtapApp.shut_close (hearly : w.early = false) (hlast : w.last = none)
    (hset : app.pinState.isSet = true) : Shut app.close w :=
  ⟨hearly, nofun, hlast, hset, rfl, rfl, rfl, rfl⟩

theorem GoesBy.vanished (h : GoesBy app w)
    (hadmits : w.admits ⟨.store .pinState, .ok none⟩)
    (hallowed : missingAllowed app.pinState.persistent = false) :
    Shut app.close (w.next ⟨.store .pinState, .ok none⟩) := by
  have hlast := h.next_missing.trans (if_neg (Bool.eq_false_iff.mp hallowed))
  refine CtapApp.shut_close h.early hlast ?_
  obtain ⟨-, -, record, hlast, hsame⟩ := h
  -- Without a PIN there are no tokens either, so nothing would be amiss.
  cases hhash : app.pinState.persistent.pinHash with
  | some hash =>
    rw [PinState.isSet, PinRetryState.isSet, ← PinState.persistent, hhash]
    rfl
  | none =>
    have htokens := hadmits record hlast (hsame.pinHash.trans hhash)
    rw [hsame.persistentTokens] at htokens
    simp [missingAllowed, hhash, htokens] at hallowed

theorem GoesBy.condemned {err : StoreError} (h : GoesBy app w)
    (hadmits : w.admits ⟨.store .pinState, .error err⟩) (hcloses : closesAuthority err = true) :
    Shut app.close (w.next ⟨.store .pinState, .error err⟩) := by
  obtain ⟨hearly, -, record, hlast, hsame⟩ := h
  have hset : record.pinHash.isSome = true := hadmits hcloses record hlast
  rw [hsame.pinHash] at hset
  exact CtapApp.shut_close hearly (if_pos (.inl hcloses)) hset

/-- Where the engine stands in between: a candidate is compared and a new PIN set only while it
goes by a record. -/
def Settling : PinPoint → CtapApp → Holding → Prop
  | .idle, app, w => Settles app w
  | .shaken, app, w => Shaken app w ∨ Shut app w
  | .lost, app, w => Lost app w
  | _, app, w => Open app w

theorem Settling.of_writes {p : PinPoint} (h : Settling p app w) (hp : p.writes = true)
    (hread : app.storedPinState = .read) : Open app w := by
  cases p with
  | idle => exact Settles.opened h hread
  | matched | announced _ _ => exact h
  | _ => cases hp

theorem Settling.of_reads {p : PinPoint} (h : Settling p app w) (hp : p.reads = true)
    (hread : app.storedPinState = .read) : GoesBy app w := by
  cases p with
  | idle => exact (Settles.opened h hread).goesBy
  | shaken =>
    rcases h with h | h
    · exact h.toGoesBy
    · exact absurd hread h.not_read
  | _ => cases hp

theorem Settling.shut {p : PinPoint} (h : Settling p app w) (hp : p.reads = true)
    (hread : app.storedPinState ≠ .read) : Shut app w := by
  cases p with
  | idle => exact Settles.shut h hread
  | shaken =>
    rcases h with h | h
    · exact absurd h.read hread
    · exact h
  | _ => cases hp

theorem Open.write (h : Open app w) (hstored : app'.storedPinState = app.storedPinState)
    (d : CommitDurability) :
    Open app' (w.next ⟨.store (.setPinState app'.pinState.persistent), .ok d⟩) :=
  ⟨h.early, hstored.trans h.read, h.resetting, _, rfl, rfl, rfl⟩

theorem Shut.loaded {found : Option PinStateRecord} (h : Shut app w) :
    Open (app.replace (PinState.fromPersistent (found.getD .initial)).persistent .read)
      (w.next ⟨.store .pinState, .ok found⟩) := by
  cases found with
  | some record => exact ⟨h.early, rfl, rfl, record, rfl, rfl, rfl⟩
  | none =>
    refine ⟨h.early, rfl, rfl, .initial, ?_, rfl, rfl⟩
    simp [Holding.next, pinEvent, Holding.missing, h.last]

section Runs

variable {changing : Bool}

theorem powerUp_settles (settings : Settings) :
    Triple Holding.observer (fun _ w => w.early = false ∧ w.last = none) (powerUp settings)
      fun _ app w => app.elim (w.early = false ∧ w.last = none) fun app => Settles app w := by
  refine powerUp_rule (F := fun _ w => w.early = false ∧ w.last = none) (fun w found h _ => ?_)
    (fun w err h _ => ⟨h.1, h.1, ?_⟩) fun w err hash h _ => ⟨h.1, .inr ⟨h.1, ?_, h.2, ?_⟩⟩
  · cases found with
    | some record => exact ⟨h.1, .inl ⟨h.1, rfl, rfl, record, rfl, rfl, rfl⟩⟩
    | none =>
      refine ⟨h.1, .inl ⟨h.1, rfl, rfl, .initial, ?_, rfl, rfl⟩⟩
      simp [Holding.observer, Holding.next, pinEvent, Holding.missing, h.2]
  · simp [Holding.observer, Holding.next, pinEvent, h.2]
  · change (if closesAuthority err then _ else _) ≠ _
    cases hcloses : closesAuthority err <;> simp
  · exact ⟨rfl, rfl, rfl, rfl, rfl⟩

theorem observeLargeBlobState_moves (command : Option UInt8) :
    Moves EnvOp.isTokenOp Frame (observeLargeBlobState (ε := Status) command) := by
  have hnow : Moves EnvOp.isTokenOp Frame (now (ε := Status)) :=
    .part (MovePart.ask (I := env) .now rfl)
  refine .bind hnow fun time => .bind (.gets _) fun state => .bind ?_ fun changed =>
    Built.when (.part (.modify _ fun _ => ⟨rfl, rfl, id⟩))
  unfold largeBlobTokenChanged
  split
  · refine .bind (.bind (.bind hnow fun time => .bind ?_ fun _ => .gets _) fun _ =>
      .pure _) fun _ => .pure _
    exact .part (.modify _ fun app =>
      ⟨rfl, rfl, (app.pinState.token.weakens_observe time).continues.isNone⟩)
  · exact .pure _

theorem forgetAssertion_moves (command : Option UInt8) :
    Moves EnvOp.isTokenOp Frame (forgetAssertion command) := by
  unfold forgetAssertion
  split
  · exact .pure _
  · exact .part (.modify _ fun _ => ⟨rfl, rfl, id⟩)

variable [Externals]

theorem settling_step {p p' : PinPoint} {e : env.Event} (hstep : PinStep changing p app e p' app')
    (h : Settling p app w) (hadmits : w.admits e) : Settling p' app' (w.next e) := by
  cases hstep with
  | quiet hp he =>
    rw [Holding.next, he]
    exact h
  | write hchange hadopts hread =>
    exact .inl ((h.of_writes hchange.writes hread).write hadopts.stored _)
  | @debit _ debited d hdebited hread hd =>
    have hstored : (app.retry debited).storedPinState = app.storedPinState := rfl
    exact (Settles.opened h hread).write hstored d
  | unwritten hp hread => exact .inl (h.of_writes hp hread)
  | right hmatch => exact Open.mark h _ ()
  | wrong hmatch =>
    obtain ⟨hearly, hread, hresetting, hlast⟩ := Open.mark h _ ()
    exact .inl ⟨hearly, hread, hresetting, hlast⟩
  | announce hnew hrotated =>
    rcases hnew.renews with hset | ⟨-, hread, -⟩
    · exact (Settles.open_of_isSet h hset).mark _ ()
    · exact (Settles.opened h hread).mark _ ()
  | found hp hread => exact .inl (h.of_reads hp hread).found
  | missing hp hread hallowed => exact .inl ((h.of_reads hp hread).missing hallowed)
  | vanished hp hread hallowed => exact .inr ((h.of_reads hp hread).vanished hadmits hallowed)
  | condemned hp hread hcloses => exact .inr ((h.of_reads hp hread).condemned hadmits hcloses)
  | failing hp hread hcloses =>
    cases p with
    | idle =>
      obtain ⟨hearly, -, hresetting, record, hlast, hsame⟩ := Settles.opened h hread
      refine .inl ⟨hearly, hread, rfl, record, (if_neg ?_).trans hlast, hsame⟩
      simp [hcloses, hresetting]
    | shaken =>
      rcases h with h | h
      · exact ⟨h.early, hread, if_pos (.inr h.resetting)⟩
      · exact absurd hread h.not_read
    | _ => cases hp
  | loaded hp hread => exact .inl (h.shut hp (by simp [hread])).loaded
  | @unloaded _ _ err hp hread =>
    obtain ⟨hearly, -, hlast, hclosed⟩ := h.shut hp (by simp [hread])
    refine .inr ⟨hearly, ?_, ?_, hclosed.congr rfl id⟩
    · cases hcloses : closesAuthority err <;> simp
    · change (if _ then none else w.last) = none
      rw [hlast, ite_self]
  | reset => exact .inl ⟨h.early, rfl, rfl, _, rfl, rfl, rfl⟩
  | shaken =>
    rcases h with h | h
    · exact .inl ⟨⟨h.early, h.read, h.last⟩, rfl⟩
    · exact .inr ⟨h.early, h.not_read, h.last, h.closed⟩
  | sealed => exact .inr ⟨h.early, (fun hread => by cases hread), h.last, rfl, rfl, rfl, rfl, rfl⟩

theorem settling_laws : PinLaws Holding.observer Settling changing where
  safe {p _ _} h := by
    cases p with
    | idle => exact Settles.early h
    | shaken => exact h.elim (fun h => h.early) Shut.early
    | lost => exact Lost.early h
    | _ => exact Open.early h
  step hstep h hadmits := settling_step hstep h hadmits
  frame {p _ _ _} hf h := by
    cases p with
    | idle => exact Settles.frame h hf
    | shaken =>
      refine h.imp (fun h => ⟨⟨h.early, hf.stored.trans h.read, ?_⟩, h.resetting⟩)
        fun h => h.frame hf
      rw [PinState.persistent, hf.pin]
      exact h.last
    | lost => exact ⟨h.early, hf.stored.trans h.read, h.last⟩
    | _ => exact Open.frame h hf
  issue h hread _ hpin hstored := by
    obtain ⟨hearly, -, hresetting, hlast⟩ := Settles.opened h hread
    refine .inl ⟨hearly, hstored.trans hread, hresetting, ?_⟩
    rw [PinState.persistent, hpin]
    exact hlast
  refused {p _ _} hp hread h := by
    cases p with
    | idle => exact h
    | matched | announced _ _ => exact .inl h
    | _ => cases hp
  settled hread h := .inr (Settling.shut (p := .shaken) h rfl (by simp [hread]))

/-- A store of any content and with any faults, but for those that condemn a PIN state
without a PIN. -/
def pinnedStore : Surrounds Holding where
  observer := Holding.observer
  start w := w.early = false ∧ w.last = none
  stop w := { w with last := none, resetting := false }
  loses w left := left = { w with last := none, resetting := false }

theorem pinnedStore_lasting :
    pinnedStore.Lasting Settles fun w => w.early = false ∧ w.last = none where
  start _ h := h
  serve request := PinLaws.serve request settling_laws
  powerUp := powerUp_settles
  safe_on _ _ h := h.early
  safe_off _ h := h.1
  stop _ h := ⟨h, rfl⟩
  loses := by
    rintro w _ h rfl
    exact ⟨h, rfl⟩

/-- A getInfo response says that a PIN is set and user verification always required. -/
def Reply.ReportsPin (reply : Reply) : Prop :=
  ∀ response, reply = .cbor (.ok response) →
    ∃ entries, response = .entries (.map entries) ∧ (uint 0x04, infoOptions true true) ∈ entries

theorem mem_infoEntries {app : CtapApp} (h : app.Closed) (remaining : Option ℕ) :
    (uint 0x04, infoOptions true true) ∈ canonicalSort (infoEntries app.aaguid
      app.attestationMode app.pinState.persistent remaining) := by
  have hset : app.pinState.persistent.pinHash.isSome = true := h.isSet
  refine (List.mem_insertionSort _).mpr ?_
  simp [infoEntries, hset, h.alwaysUv]

theorem handleGetInfo_reports :
    Triple Holding.observer Settles handleGetInfo fun x app w => Settles app w ∧
      (app.storedPinState ≠ .read → Reply.ReportsPin (.cbor x)) := by
  have hI : PinLaws Holding.observer Settling false := settling_laws
  refine Triple.bind (M := fun _ => Settles) hI.refreshPersistentAuthority.attempt
    (fun _ => ?_) fun e app w h => ⟨h, fun _ _ hx => by cases hx⟩
  refine triple_gets_bind fun app₀ => ?_
  have hslots : Plain remainingCredentialSlots := by
    refine .bind (plain_storeAsk _ rfl) fun count => ?_
    split
    · exact .pure _
    · exact .bind (plain_storeAsk .maxCredentials rfl) fun _ => .pure _
  refine Triple.bind ((hI.plain hslots (· = app₀.authority)).weaken ?_) (fun remaining => ?_)
    fun e app w h => ⟨h, fun _ _ hx => by cases hx⟩
  · rintro app w ⟨rfl, h⟩
    exact ⟨h, rfl⟩
  · refine Triple.bind (hI.plain (.ofExcept _ : Plain (Cmd.ofExcept _)) (· = app₀.authority))
      (fun _ => triple_pure ?_) fun e app w h => ⟨h, fun _ _ hx => by cases hx⟩
    rintro app w ⟨h, hauthority⟩
    refine ⟨h, fun hread response hresponse => ?_⟩
    cases hresponse
    have hframe := frame_of_authority hauthority.symm
    exact ⟨_, rfl, mem_infoEntries ((Settles.shut h hread).frame hframe).closed remaining⟩

/-- What a change of the token in use keeps, the beginning of every request keeps. -/
theorem serve_holding {P : CtapApp → Holding → Prop}
    {Q : Except Status Response → CtapApp → Holding → Prop}
    (hP : ∀ app app' w, Frame app app' → P app w → P app' w)
    (hsafe : ∀ app w, P app w → w.early = false) (command : UInt8) (payload : Bytes)
    (hhandler : Triple Holding.observer P (handleCommand command payload) Q) :
    Triple Holding.observer P (serve (.cbor (command :: payload))) fun x app w =>
      ∃ answer, x = .ok (.cbor answer) ∧ Q answer app w := by
  have hkeeps : ∀ {c : EngineM Status Unit}, Moves EnvOp.isTokenOp Frame c →
      Keeps Holding.observer P c := fun hc => hc.keeps hP fun app w e he h _ => by
    change (w.next e).early = false ∧ P app (w.next e)
    rw [Holding.next, pinEvent_of_isUserOp (EnvOp.isUserOp_of_isTokenOp he)]
    exact ⟨hsafe app w h, h⟩
  exact serve_cbor_rule command payload (hkeeps (observeLargeBlobState_moves _))
    (hkeeps (forgetAssertion_moves _)) hhandler

structure SetPinRequest (payload : Bytes) (map : Entries) (p : SetPinParameters) : Prop where
  parameters : requestParameters payload = .ok map
  subcommand : ClientPinSubcommand.parse (mapGet map (.int 2)) = .ok .setPin
  setPin : setPinParameters map = .ok p

section SetPin

variable {payload : Bytes} {map : Entries} {p : SetPinParameters}

/-- Setting a PIN succeeds only if the engine goes by a record afterwards. -/
theorem handleClientPin_opens (h : SetPinRequest payload map p) :
    Triple Holding.observer Settles (handleClientPin payload)
      (either (fun _ => Open) Settles) := by
  refine triple_ofExcept_ok h.parameters (triple_ofExcept_ok h.subcommand ?_)
  have hI : PinLaws Holding.observer Settling false := settling_laws
  refine (hI.composed composed_readPinStateIfUnread.when).both.andThen fun _ => ?_
  exact (hI.clientPinSetPin map).outcome (fun _ app w h => Settles.opened h.1 h.2)
    fun _ _ _ h => h

/-- Where the state is closed for good, setPIN is refused because a PIN is set. -/
theorem handleClientPin_closed (h : SetPinRequest payload map p) :
    Triple Holding.observer (fun app w => Shut app w ∧ app.storedPinState = .unreadable)
      (handleClientPin payload) fun x _ _ => x = .error ctap2ErrPinAuthInvalid := by
  refine triple_ofExcept_ok h.parameters (triple_ofExcept_ok h.subcommand ?_)
  refine Triple.bind (M := fun x app _ => x = .ok () ∧ app.Closed) ?_ (fun _ => ?_) ?_
  · refine triple_gets_bind fun stored => ?_
    cases stored with
    | unreadable => exact triple_pure fun app w hw => ⟨rfl, hw.2.1.closed⟩
    | read | unread =>
      rintro app w ⟨hread, -, hunreadable⟩
      rw [hunreadable] at hread
      cases hread
  · refine triple_ofExcept_ok h.setPin (triple_gets_bind fun isSet => ?_)
    cases isSet with
    | true => exact triple_fail fun app w _ => rfl
    | false =>
      rintro app w ⟨hset, -, hclosed⟩
      rw [hclosed.isSet] at hset
      cases hset
  · rintro e app w ⟨⟨⟩, -⟩

end SetPin

/-- In every run in which no read of the PIN state condemns one without a PIN: while the engine
holds its PIN state to be unread or unreadable, the live one is closed, getInfo reports a PIN,
setPIN is refused and no candidate is compared. -/
theorem unreadable_pinState_closed {app : CtapApp} {w : Holding}
    (hs : pinnedStore.machine.Reachable (some app, w)) :
    (w.last.isSome = true ↔ app.storedPinState = .read) ∧
    (app.storedPinState ≠ .read → app.Closed) ∧
    (∀ payload trace reply app', pinnedStore.machine.enabled (some app, w)
        (.happening (.exchange (.cbor (0x04 :: payload)) trace reply app')) →
      app'.storedPinState ≠ .read → reply.ReportsPin) ∧
    (∀ payload map p trace reply app', SetPinRequest payload map p →
      pinnedStore.machine.enabled (some app, w)
        (.happening (.exchange (.cbor (0x06 :: payload)) trace reply app')) →
      (app'.storedPinState ≠ .read → ∃ status, reply = .cbor (.error status)) ∧
        (app.storedPinState = .unreadable → reply = .cbor (.error ctap2ErrPinAuthInvalid))) ∧
    ∀ h, pinnedStore.machine.enabled (some app, w) (.happening h) →
      ∀ tr, tr <+: h.trace → (Holding.observer.after w tr).early = false := by
  have hthroughout := pinnedStore_lasting.reachable hs
  have hsettles : Settles app w := hthroughout
  refine ⟨?_, fun hread => (hsettles.shut hread).closed, ?_, ?_, ?_⟩
  · rcases hsettles with h | h
    · obtain ⟨record, hlast, -⟩ := h.last
      simp [hlast, h.read]
    · simp [h.last, h.not_read]
  · rintro payload trace reply app' ⟨hruns, hadmits⟩ hread
    have htriple := serve_holding (P := Settles) (fun _ _ _ hf h => h.frame hf)
      (fun _ _ h => h.early) 0x04 payload handleGetInfo_reports
    obtain ⟨_, ⟨⟩, -, hreports⟩ := htriple.runs hsettles hruns hadmits
    exact hreports hread
  · rintro payload map p trace reply app' hrequest ⟨hruns, hadmits⟩
    refine ⟨fun hread => ?_, fun hunreadable => ?_⟩
    · have htriple := serve_holding (P := Settles) (fun _ _ _ hf h => h.frame hf)
        (fun _ _ h => h.early) 0x06 payload (handleClientPin_opens hrequest)
      obtain ⟨answer, ⟨⟩, hanswer⟩ := htriple.runs hsettles hruns hadmits
      cases answer with
      | error status => exact ⟨status, rfl⟩
      | ok response => exact absurd hanswer.read hread
    · have htriple := serve_holding
        (P := fun app w => Shut app w ∧ app.storedPinState = .unreadable)
        (fun _ _ _ hf h => ⟨h.1.frame hf, hf.stored.trans h.2⟩) (fun _ _ h => h.1.early) 0x06
        payload (handleClientPin_closed hrequest)
      have hshut : Shut app w := hsettles.shut (by simp [hunreadable])
      obtain ⟨_, ⟨⟩, rfl⟩ := htriple.runs ⟨hshut, hunreadable⟩ hruns hadmits
      rfl
  · rintro h hh tr ⟨rest, hrest⟩
    have hadmits : Holding.observer.Admits w (tr ++ rest) := hrest ▸ hh.2
    exact pinnedStore_lasting.safe_during hthroughout hh.1 hrest.symm
      ((Holding.observer.admits_append _ _ _).mp hadmits).1

end Runs

section Bench

local instance damagedExternals : Externals := .bench []

def CtapApp.benchDamaged : CtapApp :=
  .new .bench (.fromPersistent (closedPersistent (List.replicate 16 1))) .unreadable

theorem benchDamaged_reachable :
    pinnedStore.machine.Reachable (some .benchDamaged, ⟨none, false, false⟩) := by
  refine ⟨(none, ⟨none, false, false⟩), [.happening (.powerUp .bench
    [⟨.store .pinState, .error .corrupt⟩, ⟨.random 16, Vector.replicate 16 1⟩] .benchDamaged)],
    ⟨rfl, rfl, rfl⟩, ⟨⟨?_, ?_⟩, trivial⟩, rfl⟩
  · exact ⟨_, _, rfl, ⟨_, _, rfl, rfl, rfl⟩⟩
  · refine ⟨fun _ record h => ?_, trivial, trivial⟩
    cases h

theorem unreadable_pinState_closed_startUp :
    CtapApp.benchDamaged.storedPinState = .unreadable ∧ CtapApp.benchDamaged.Closed :=
  ⟨rfl, (unreadable_pinState_closed benchDamaged_reachable).2.1 (by decide)⟩

def damagedAnswer (_ : Unit) : (op : EnvOp) → op.Res × Unit
  | .store .pinState => (.error .corrupt, ())
  | op => ((Surroundings.bench 0).answer 0 op, ())

def damagedRun : (Except Empty Reply × CtapApp) × Trace × Unit :=
  (serve (.cbor [0x04]) (.bench .initial)).eval damagedAnswer ()

theorem pinless_pinState_not_closed : ∃ app, engine.Reachable (some app) ∧
    app.storedPinState = .unreadable ∧ app.pinState.isSet = false ∧ ¬ app.Closed := by
  have hruns : (serve (.cbor [0x04])).Runs (.bench .initial) damagedRun.2.1 damagedRun.1.1
      damagedRun.1.2 := Prog.eval_yields (I := env) damagedAnswer
        (serve (.cbor [0x04]) (.bench .initial)) ()
  have hstored : damagedRun.1.2.storedPinState = .unreadable := by decide +kernel
  have hset : damagedRun.1.2.pinState.isSet = false := by decide +kernel
  generalize damagedRun = result at hruns hstored hset
  obtain ⟨⟨outcome, app⟩, trace, _⟩ := result
  cases outcome with
  | error e => exact e.elim
  | ok reply =>
    refine ⟨app, ⟨none, [.powerUp .bench [⟨.store .pinState, .ok none⟩] (.bench .initial),
      .exchange (.cbor [0x04]) trace reply app], rfl, ⟨⟨_, _, rfl, rfl, rfl⟩, hruns, trivial⟩, rfl⟩,
      hstored, hset, fun hclosed => ?_⟩
    rw [hclosed.isSet] at hset
    cases hset

end Bench

end SoftwareAuthenticator.Ctap
