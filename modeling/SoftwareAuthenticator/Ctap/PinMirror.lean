import SoftwareAuthenticator.Ctap.GuessLimit

/-!
# The live and the stored PIN state

While nothing but the engine writes the PIN state, the live state of an engine that has read it
is the stored one. A failed reset leaves it open which of two records is stored.
-/

namespace SoftwareAuthenticator.Ctap

abbrev Shelf := Set (Option PinStateRecord)

structure PinStateRecord.Ordinary (record : PinStateRecord) : Prop where
  retries_le : record.pinRetries ≤ maxPinRetries
  retries_eq : record.pinHash = none → record.pinRetries = maxPinRetries

namespace Shelf

/-- A failed write publishes nothing, and any other publishes the record. A failed reset
may have published the default. -/
def next (w : Shelf) (e : env.Event) : Shelf :=
  match pinEvent e with
  | some (.read (.ok found)) => {found}
  | some (.write record (.ok _)) => {some record}
  | some (.reset (.ok _)) => Guessing.blank
  | some (.reset (.error _)) => insert (some .initial) w
  | _ => w

/-- A read finds what is stored, or fails. A store without a record may write that of
a new authenticator by itself. -/
def admits (w : Shelf) : env.Event → Prop
  | ⟨.store .pinState, .ok found⟩ => found ∈ w ∨ (found = some .initial ∧ none ∈ w)
  | _ => True

structure Usual (w : Shelf) : Prop where
  nonempty : w.Nonempty
  ordinary : ∀ found ∈ w, (found.getD .initial).Ordinary

def observer : Observer env Shelf where
  admits := admits
  next := next
  safe := Usual

end Shelf

variable {app : CtapApp} {α : Type}

theorem PinStateRecord.ordinary_initial : PinStateRecord.initial.Ordinary :=
  ⟨le_rfl, fun _ => rfl⟩

theorem PinStateRecord.Ordinary.congr {record record' : PinStateRecord} (h : record.Ordinary)
    (hhash : record'.pinHash = record.pinHash) (hretries : record'.pinRetries = record.pinRetries) :
    record'.Ordinary := by
  refine ⟨?_, ?_⟩
  · rw [hretries]
    exact h.retries_le
  · rw [hhash, hretries]
    exact h.retries_eq

theorem Shelf.getD_blank {found : Option PinStateRecord} (h : found ∈ Guessing.blank) :
    found.getD .initial = .initial := by
  rcases h with rfl | rfl
  · rfl
  · rfl

theorem Shelf.usual_blank : Shelf.Usual Guessing.blank := by
  refine ⟨⟨none, Or.inl rfl⟩, fun found h => ?_⟩
  rw [Shelf.getD_blank h]
  exact PinStateRecord.ordinary_initial

theorem Shelf.usual_singleton {found : Option PinStateRecord}
    (h : (found.getD .initial).Ordinary) : Shelf.Usual {found} :=
  ⟨Set.singleton_nonempty found, fun _ hfound => hfound ▸ h⟩

variable {w : Shelf}

theorem Shelf.Usual.insert_initial (h : w.Usual) : Shelf.Usual (insert (some .initial) w) := by
  refine ⟨Set.insert_nonempty _ _, ?_⟩
  rintro found (rfl | hfound)
  · exact PinStateRecord.ordinary_initial
  · exact h.ordinary found hfound

theorem Shelf.Usual.found (h : w.Usual) {found : Option PinStateRecord}
    (hadmits : w.admits ⟨.store .pinState, .ok found⟩) : (found.getD .initial).Ordinary := by
  rcases hadmits with hfound | ⟨rfl, -⟩
  · exact h.ordinary found hfound
  · exact PinStateRecord.ordinary_initial

structure Mirrors (app : CtapApp) (w : Shelf) : Prop where
  usual : w.Usual
  live : app.storedPinState = .read → ∀ found ∈ w, found.getD .initial = app.pinState.persistent

/-- After a failed reset a read PIN state may also have become the default. -/
structure Blurs (app : CtapApp) (w : Shelf) : Prop where
  usual : w.Usual
  ordinary : app.storedPinState = .read → app.pinState.persistent.Ordinary
  live : app.storedPinState = .read → ∀ found ∈ w,
    found.getD .initial = app.pinState.persistent ∨ found = some .initial

theorem Mirrors.ordinary (h : Mirrors app w) (hread : app.storedPinState = .read) :
    app.pinState.persistent.Ordinary := by
  obtain ⟨found, hfound⟩ := h.usual.nonempty
  rw [← h.live hread found hfound]
  exact h.usual.ordinary found hfound

theorem Mirrors.blurs (h : Mirrors app w) : Blurs app w :=
  ⟨h.usual, h.ordinary, fun hread found hfound => Or.inl (h.live hread found hfound)⟩

theorem Mirrors.of_not_read (h : w.Usual) (hstored : app.storedPinState ≠ .read) : Mirrors app w :=
  ⟨h, fun hread => absurd hread hstored⟩

theorem Mirrors.of_eq {found : Option PinStateRecord} (h : (found.getD .initial).Ordinary)
    (heq : found.getD .initial = app.pinState.persistent) : Mirrors app {found} := by
  refine ⟨Shelf.usual_singleton h, fun _ found' hfound => ?_⟩
  rw [show found' = found from hfound]
  exact heq

theorem PinRetryState.beginAttempt_ordinary {pin debited : PinRetryState}
    (h : pin.beginAttempt = .ok debited) (hpin : pin.persistent.Ordinary) :
    debited.persistent.Ordinary := by
  obtain ⟨hset, -, -, rfl⟩ := beginAttempt_cases h
  refine ⟨(Nat.sub_le _ _).trans hpin.retries_le, fun hnone => ?_⟩
  rw [PinRetryState.isSet, show pin.persistent.pinHash = none from hnone] at hset
  cases hset

variable {p : PinPoint}

theorem PinChange.ordinary {pin pin' : PinRetryState} (hchange : PinChange p pin pin')
    (h : pin.persistent.Ordinary) (hnew : ∀ new record, p = .announced new record → record.Ordinary) :
    pin'.persistent.Ordinary := by
  cases hchange with
  | toggle _ => exact h.congr rfl rfl
  | minimum hchanged hrotated =>
    obtain ⟨tokens, rfl⟩ := hrotated.rest
    have hsame := minPinLengthChange_samePin hchanged
    exact h.congr hsame.1 hsame.2
  | debit hdebited => exact PinRetryState.beginAttempt_ordinary hdebited h
  | rewrite _ => exact h
  | complete _ => exact ⟨le_rfl, fun _ => rfl⟩
  | renew new record _ => exact hnew new record rfl
  | grant tokens hforce => exact h.congr rfl rfl

theorem eq_of_changedPin {current record : PinStateRecord} (h : changedPin current record = false)
    (htokens : current.persistentTokens = record.persistentTokens)
    (hretries : current.pinRetries = record.pinRetries) : current = record := by
  simp only [changedPin, ne_eq, decide_eq_false_iff_not, not_or, not_not] at h
  obtain ⟨h₁, h₂, h₃, h₄, h₅, h₆, h₇⟩ := h
  cases current
  cases record
  simp_all

/-- Without a PIN, nothing but the retries could have been left out. -/
theorem PinStateRecord.Ordinary.eq_initial {current : PinStateRecord} (h : current.Ordinary)
    (hsame : changedPin current .initial = false)
    (htokens : current.persistentTokens = PinStateRecord.initial.persistentTokens) :
    current = .initial := by
  refine eq_of_changedPin hsame htokens (h.retries_eq ?_)
  simp only [changedPin, ne_eq, decide_eq_false_iff_not, not_or, not_not] at hsame
  exact hsame.1

theorem fromPersistent_persistent {record : PinStateRecord} (h : record.Ordinary) :
    (PinState.fromPersistent record).persistent = record := by
  obtain ⟨hash, retries, minimum, rpIds, force, length, uv, complexity, tokens⟩ := record
  have hretries : min retries maxPinRetries = retries := min_eq_left h.retries_le
  simp only [PinState.persistent, PinState.fromPersistent, PinRetryState.powerUp, hretries]

theorem Blurs.found {record : PinStateRecord} (h : Blurs app w) (hread : app.storedPinState = .read)
    (hadmits : w.admits ⟨.store .pinState, .ok (some record)⟩) :
    Mirrors (app.find record) {some record} := by
  have hrecord : record.Ordinary := h.usual.found hadmits
  refine .of_eq hrecord ?_
  rcases app.find_cases record with hfind | ⟨hfind, hchanged, htokens⟩
  · rw [PinState.persistent, hfind]
    rfl
  · rw [hfind]
    obtain hmem | ⟨hfound, -⟩ := hadmits
    · obtain hlive | hlive := h.live hread _ hmem
      · exact hlive
      · obtain rfl := Option.some.inj hlive
        exact ((h.ordinary hread).eq_initial hchanged htokens).symm
    · obtain rfl := Option.some.inj hfound
      exact ((h.ordinary hread).eq_initial hchanged htokens).symm

theorem Blurs.missing (h : Blurs app w) (hread : app.storedPinState = .read)
    (hadmits : w.admits ⟨.store .pinState, .ok none⟩) : Mirrors app {none} := by
  obtain hnone | ⟨hfound, -⟩ := hadmits
  · obtain hlive | hlive := h.live hread none hnone
    · exact .of_eq PinStateRecord.ordinary_initial hlive
    · cases hlive
  · cases hfound

def Mirroring : PinPoint → CtapApp → Shelf → Prop
  | .announced _ record, app, w => Mirrors app w ∧ record.Ordinary
  | .shaken, app, w => Blurs app w
  | .lost, _, w => w.Usual
  | _, app, w => Mirrors app w

theorem Mirroring.of_writes (h : Mirroring p app w) (hp : p.writes = true) :
    Mirrors app w ∧ ∀ new record, p = .announced new record → record.Ordinary := by
  cases p with
  | idle | matched => exact ⟨h, nofun⟩
  | announced new record =>
    refine ⟨h.1, ?_⟩
    rintro _ _ ⟨⟩
    exact h.2
  | _ => cases hp

theorem Mirroring.of_reads (h : Mirroring p app w) (hp : p.reads = true) : Blurs app w := by
  cases p with
  | idle => exact Mirrors.blurs h
  | shaken => exact h
  | _ => cases hp

theorem Mirroring.congr {app' : CtapApp} (h : Mirroring p app w)
    (hpin : app'.pinState.pin = app.pinState.pin)
    (hstored : app'.storedPinState = app.storedPinState) : Mirroring p app' w := by
  have hmirrors : Mirrors app w → Mirrors app' w := fun h => ⟨h.usual, by
    rw [hstored, PinState.persistent, hpin]
    exact h.live⟩
  cases p with
  | announced new record => exact ⟨hmirrors h.1, h.2⟩
  | shaken =>
    refine ⟨h.usual, ?_, ?_⟩
    · rw [hstored, PinState.persistent, hpin]
      exact h.ordinary
    · rw [hstored, PinState.persistent, hpin]
      exact h.live
  | lost => exact h
  | _ => exact hmirrors h

section Runs

variable {changing : Bool}

theorem powerUp_mirrors (settings : Settings) :
    Cmd.Triple Shelf.observer (fun _ w => Shelf.Usual w) (powerUp settings)
      fun _ app w => app.elim (Shelf.Usual w) fun app => Mirrors app w := by
  refine powerUp_rule (F := fun _ => Shelf.Usual) (fun w found h hadmits => ?_)
    (fun w err h _ => ⟨h, h⟩) fun w err hash h _ => ⟨h, .of_not_read h ?_⟩
  · have hfound := h.found hadmits
    exact ⟨Shelf.usual_singleton hfound, .of_eq hfound (fromPersistent_persistent hfound).symm⟩
  · change (if closesAuthority err then _ else _) ≠ _
    cases hcloses : closesAuthority err <;> simp

/-- The records the two observers take for possible agree, but for a failed reset. -/
theorem Guessing.visible_next (w : Guessing) (e : env.Event)
    (he : ∀ err, pinEvent e ≠ some (.reset (.error err))) :
    (w.next e).visible = Shelf.next w.visible e := by
  unfold next Shelf.next
  generalize pinEvent e = event at he
  rcases event with _ | (_ | _) | ⟨_, _ | _⟩ | (_ | _) | _ | _
  any_goals rfl
  · simp only [write]
    split <;> rfl
  · exact absurd rfl (he _)
  · simp only [compare]
    split <;> rfl

variable [Externals]

theorem mirroring_step {app' : CtapApp} {p p' : PinPoint} {e : env.Event}
    (hstep : PinStep changing p app e p' app') (h : Mirroring p app w) (hadmits : w.admits e) :
    Mirroring p' app' (w.next e) := by
  cases hstep with
  | quiet hp he =>
    rw [Shelf.next, he]
    exact h
  | write hchange hadopts hread =>
    obtain ⟨hmirrors, hnew⟩ := h.of_writes hchange.writes
    exact .of_eq (hchange.ordinary (hmirrors.ordinary hread) hnew) rfl
  | debit hdebited hread hd =>
    exact .of_eq (PinRetryState.beginAttempt_ordinary hdebited (Mirrors.ordinary h hread)) rfl
  | unwritten hp hread => exact (h.of_writes hp).1
  | right hmatch => exact h
  | wrong hmatch => exact ⟨h.usual, h.live⟩
  | announce hnew hrotated =>
    obtain ⟨tokens, rfl⟩ := hrotated.rest
    exact ⟨h, le_rfl, nofun⟩
  | found hp hread => exact (h.of_reads hp).found hread hadmits
  | missing hp hread hallowed => exact (h.of_reads hp).missing hread hadmits
  | vanished hp hread hallowed =>
    exact .of_not_read (Shelf.usual_singleton PinStateRecord.ordinary_initial) nofun
  | condemned hp hread hcloses => exact .of_not_read (h.of_reads hp).usual nofun
  | failing hp hread hcloses =>
    cases p with
    | idle => exact h
    | shaken => exact Blurs.usual h
    | _ => cases hp
  | loaded hp hread =>
    have hfound := (h.of_reads hp).usual.found hadmits
    exact .of_eq hfound (fromPersistent_persistent hfound).symm
  | @unloaded _ _ err hp hread =>
    refine .of_not_read (h.of_reads hp).usual ?_
    cases hcloses : closesAuthority err <;> simp
  | reset => exact ⟨Shelf.usual_blank, fun _ found hfound => Shelf.getD_blank hfound⟩
  | shaken =>
    refine ⟨h.usual.insert_initial, h.ordinary, ?_⟩
    rintro hread found (rfl | hfound)
    · exact .inr rfl
    · exact .inl (h.live hread found hfound)
  | sealed => exact .of_not_read h nofun

theorem mirroring_laws : PinLaws Shelf.observer Mirroring changing where
  safe {p _ _} h := by
    cases p with
    | announced _ _ => exact h.1.usual
    | shaken => exact Blurs.usual h
    | lost => exact h
    | _ => exact Mirrors.usual h
  step hstep h hadmits := mirroring_step hstep h hadmits
  frame hframe h := h.congr hframe.pin hframe.stored
  issue h _ _ hpin hstored := h.congr hpin hstored
  refused hp _ h := (h.of_writes hp).1
  settled hread h := .of_not_read (Blurs.usual h) (by simp [hread])

/-- A store to which only the engine writes. It begins with an ordinary record or none,
and a power loss may leave any ordinary record. -/
def soleWriterStore : Surrounds Shelf where
  observer := Shelf.observer
  start w := ∃ found : Option PinStateRecord, (found.getD .initial).Ordinary ∧ w = {found}
  stop w := w
  loses _ left := ∃ found : Option PinStateRecord, (found.getD .initial).Ordinary ∧ left = {found}

theorem soleWriterStore_lasting : soleWriterStore.Lasting Mirrors Shelf.Usual where
  start := by
    rintro _ ⟨found, hfound, rfl⟩
    exact Shelf.usual_singleton hfound
  serve request := PinLaws.serve request mirroring_laws
  powerUp := powerUp_mirrors
  safe_on _ _ h := h.usual
  safe_off _ h := h
  stop _ h := h
  loses := by
    rintro w _ h ⟨found, hfound, rfl⟩
    exact Shelf.usual_singleton hfound

/-- In every run, whenever the engine is between two requests and holds its PIN state to
be read, the live PIN state is the published record, or the default if there is none. -/
theorem live_pinState_published {app : CtapApp} {w : Shelf}
    (hs : soleWriterStore.machine.Reachable (some app, w)) (hread : app.storedPinState = .read) :
    w.Nonempty ∧ ∀ found ∈ w, app.pinState.persistent = found.getD .initial := by
  have hmirrors : Mirrors app w := soleWriterStore_lasting.reachable hs
  exact ⟨hmirrors.usual.nonempty, fun found hfound => (hmirrors.live hread found hfound).symm⟩

theorem World.admits_soleWriter {σ ε : Type} (world : World) (c : Cmd env σ ε α) (s : σ)
    {w : Shelf} (h : world.store.pinState ∈ w) : Shelf.observer.Admits w (world.run c s).2.1 := by
  refine (Observer.eval_admits (R := fun world w => ∃ g : Guessing, g.visible = w ∧
    Guessing.Covers world.store g) ?_ (c s) ⟨{ Guessing.found none with visible := w }, rfl,
    Or.inl h⟩).1
  rintro world _ op ⟨g, rfl, hw⟩
  cases op with
  | store op =>
    obtain ⟨hadmits, hcovers⟩ := covers_handle (world.surroundings.sealed world.given)
      world.store g op hw
    refine ⟨?_, _, g.visible_next _ ?_, hcovers⟩
    · cases op with
      | pinState => exact hadmits
      | _ => trivial
    · cases op <;> nofun
  | observe phase => cases phase <;> exact ⟨trivial, g, rfl, hw⟩
  | _ => exact ⟨trivial, g, rfl, hw⟩

end Runs

section Bench

attribute [local instance] pinTokenExternals

theorem wrongPinRun_reachable : soleWriterStore.machine.Reachable
    (some wrongPinRun.1.2, Shelf.observer.after {some otherPinState} wrongPinRun.2.1) := by
  have hruns : (serve (.cbor (0x06 :: getPinTokenPayload))).Runs (.bench otherPinState)
      wrongPinRun.2.1 wrongPinRun.1.1 wrongPinRun.1.2 := World.runs_run _ _ _
  have hadmits : Shelf.observer.Admits {some otherPinState} wrongPinRun.2.1 :=
    World.admits_soleWriter _ _ _ rfl
  generalize wrongPinRun = result at hruns hadmits
  obtain ⟨⟨outcome, app⟩, trace, world⟩ := result
  cases outcome with
  | error e => exact e.elim
  | ok reply =>
    refine ⟨(none, {some otherPinState}), [.happening (.powerUp .bench
      [⟨.store .pinState, .ok (some otherPinState)⟩] (.bench otherPinState)),
      .happening (.exchange (.cbor (0x06 :: getPinTokenPayload)) trace reply app)],
      ⟨rfl, some otherPinState, ?_, rfl⟩,
      ⟨⟨⟨_, _, rfl, rfl, rfl⟩, Or.inl rfl, trivial⟩, ⟨hruns, hadmits⟩, trivial⟩, rfl⟩
    exact ⟨by decide, fun h => by cases h⟩

theorem live_pinState_published_wrongPin :
    wrongPinRun.1.2.pinState.persistent.pinRetries = 4 ∧
      ∀ found ∈ Shelf.observer.after {some otherPinState} wrongPinRun.2.1,
        wrongPinRun.1.2.pinState.persistent = found.getD .initial := by
  refine ⟨by decide +kernel, ?_⟩
  exact (live_pinState_published wrongPinRun_reachable (by decide +kernel)).2

end Bench

end SoftwareAuthenticator.Ctap
