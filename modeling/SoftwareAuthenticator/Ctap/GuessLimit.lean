import SoftwareAuthenticator.Ctap.PinBalance
import SoftwareAuthenticator.Ctap.PinCheck

/-!
# The limit on guesses at the PIN

Every run keeps guesses and retries in balance, so there are never more than eight wrong guesses,
nor more than three in a row.
-/

namespace SoftwareAuthenticator.Ctap

section Limit

variable {ε α : Type}

/-- A restart comes up with a live state in balance with the guesses made before. -/
theorem powerUp_balances (settings : Settings) :
    Cmd.Triple Guessing.observer (fun _ w => Guarded 0 .initial w) (powerUp settings)
      fun _ app w => app.elim (Guarded 0 .initial w) fun app => Balanced app w := by
  refine powerUp_rule (F := fun _ => Guarded 0 .initial) (fun w found h hadmits => ?_)
    (fun w err h _ => ⟨(h.renewing false).sound, h.renewing false⟩) fun w err hash h _ => ?_
  · obtain ⟨hread, hrecord⟩ := h.read hadmits
    have hallows : (found.getD .initial).Allows w.mismatches := by
      cases found with
      | none => exact PinStateRecord.allows_initial _
      | some record => exact hrecord record rfl
    exact ⟨hread.sound, hread.store, fromPersistent_allows hallows, hread.bounded,
      hread.streak_le_live⟩
  · exact ⟨(h.renewing false).sound, h.store, PinStateRecord.allows_blocked rfl
      h.bounded.mismatches_le, (h.renewing false).bounded, h.streak_le_live⟩

variable {w : Guessing}

theorem Guessing.Sound.rest (h : w.Sound) {visible durable : Set (Option PinStateRecord)}
    (hsub : ∀ record, some record ∈ visible ∪ durable → some record ∈ w.visible ∪ w.durable) :
    Guarded 0 .initial { w with
      visible := visible, durable := durable, renewing := false, streak := 0 } :=
  ⟨fun record hmem => h.store record (hsub record hmem), PinStateRecord.allows_initial _,
    ⟨h.bounded.mismatches_le, Nat.zero_le _, h.bounded.not_late⟩, Nat.zero_le _⟩

/-- What the observer takes for possible is what the store holds. -/
def Guessing.Covers (store : MemoryStore) (w : Guessing) : Prop :=
  store.pinState ∈ w.visible ∨ (store.pinState = some .initial ∧ none ∈ w.visible)

theorem Guessing.Covers.congr {store store' : MemoryStore} {w' : Guessing}
    (h : Guessing.Covers store w) (hpin : store'.pinState = store.pinState)
    (hvisible : w'.visible = w.visible) : Guessing.Covers store' w' := by
  unfold Guessing.Covers
  rw [hpin, hvisible]
  exact h

variable [Externals]

theorem serve_balances (request : Request) : Cmd.Keeps Guessing.observer Balanced (serve request) :=
  PinLaws.serve request balancing_laws

def Guessing.found (record : Option PinStateRecord) : Guessing where
  visible := {record}
  durable := {record}
  renewing := false
  mismatches := 0
  streak := 0
  late := false

/-- A store that may hold any PIN state with at most eight retries. A restart begins a
new row of guesses; a power loss leaves one of the records that may be durable. -/
def pinStore : Surrounds Guessing where
  observer := Guessing.observer
  start w := ∃ found, w = .found found ∧
    ∀ record, found = some record → record.pinRetries ≤ maxPinRetries
  stop w := { w with renewing := false, streak := 0 }
  loses w left := ∃ found ∈ w.durable, left = { w with
    visible := {found}, durable := {found}, renewing := false, streak := 0 }

theorem pinStore_lasting : pinStore.Lasting Balanced (Guarded 0 .initial) where
  start := by
    rintro _ ⟨found, rfl, hfound⟩
    refine ⟨?_, PinStateRecord.allows_initial _, ⟨Nat.zero_le _, Nat.zero_le _, rfl⟩,
      Nat.zero_le _⟩
    rintro record (hmem | hmem)
    · exact fun _ => hfound record hmem.symm
    · exact fun _ => hfound record hmem.symm
  serve := serve_balances
  powerUp := powerUp_balances
  safe_on _ _ h := h.sound
  safe_off _ h := h.sound
  stop w h := h.rest fun _ hmem => hmem
  loses := by
    rintro w _ h ⟨found, hfound, rfl⟩
    refine h.rest ?_
    rintro record (hmem | hmem)
    · exact Or.inr (hmem ▸ hfound)
    · exact Or.inr (hmem ▸ hfound)

/-- In every run of the engine, at every moment: at most eight wrong guesses since the
last right one, new PIN or reset, at most three in a row since the last restart, and no
guess is compared after three in a row. -/
theorem pin_guesses_bounded (s : Option CtapApp × Guessing) (hs : pinStore.machine.Reachable s) :
    s.2.Bounded ∧ ∀ h, pinStore.machine.enabled s (.happening h) →
      ∀ tr, tr <+: h.trace → (Guessing.observer.after s.2 tr).Bounded := by
  have hthroughout := pinStore_lasting.reachable hs
  refine ⟨(pinStore_lasting.safe hthroughout).bounded, fun h hh tr htr => ?_⟩
  obtain ⟨rest, hrest⟩ := htr
  have hadmits : Guessing.observer.Admits s.2 (tr ++ rest) := hrest ▸ hh.2
  exact (pinStore_lasting.safe_during hthroughout hh.1 hrest.symm
    ((Guessing.observer.admits_append _ _ _).mp hadmits).1).bounded

/-- An operation that leaves the PIN state alone may still write that of a new authenticator. -/
theorem Guessing.Covers.handle {store : MemoryStore} {w' : Guessing} {op : StoreOp}
    (h : Guessing.Covers store w) (sealed : Bytes) (hop : (EnvOp.store op).leavesPinState = true)
    (hvisible : w'.visible = w.visible) : Guessing.Covers (store.handle sealed op).2 w' := by
  obtain hpin | ⟨hnone, hpin⟩ := store.pinState_handle sealed hop
  · exact h.congr hpin hvisible
  · refine Or.inr ⟨hpin, ?_⟩
    rw [Guessing.Covers, hnone] at h
    rw [hvisible]
    exact h.elim id fun h => absurd h.1 (by simp)

theorem covers_handle (sealed : Bytes) (store : MemoryStore) (w : Guessing) (op : StoreOp)
    (h : Guessing.Covers store w) :
    w.admits ⟨.store op, (store.handle sealed op).1⟩ ∧
      Guessing.Covers (store.handle sealed op).2
        (w.next ⟨.store op, (store.handle sealed op).1⟩) := by
  cases op with
  | pinState => exact ⟨h, Or.inl rfl⟩
  | setPinState record =>
    refine ⟨trivial, ?_⟩
    cases hfault : record.fault with
    | some reason =>
      have hset : store.setPinState record = (.error (.invalidRecord reason), store) := by
        simp [MemoryStore.setPinState, hfault]
      simp only [MemoryStore.handle, hset]
      exact h.congr rfl rfl
    | none =>
      have hset : store.setPinState record =
          (.ok .volatile, { store with pinState := some record }) := by
        simp [MemoryStore.setPinState, hfault]
      simp only [MemoryStore.handle, hset, Guessing.next, pinEvent, Guessing.write]
      split
      · exact Or.inl rfl
      · exact Or.inl rfl
  | clear => exact ⟨trivial, Or.inl (Or.inr rfl)⟩
  | _ => exact ⟨trivial, h.handle sealed rfl rfl⟩

theorem World.admits_run {σ : Type} (world : World) (c : Cmd env σ ε α) (s : σ)
    (h : Guessing.Covers world.store w) : Guessing.observer.Admits w (world.run c s).2.1 := by
  refine (Observer.eval_admits (R := fun world w => Guessing.Covers world.store w) ?_ (c s) h).1
  intro world w op hw
  cases op with
  | store op => exact covers_handle _ world.store w op hw
  | observe phase =>
    refine ⟨trivial, ?_⟩
    cases phase with
    | comparison stored candidate =>
      change Guessing.Covers world.store (({ w with renewing := false } : Guessing).compare _)
      unfold Guessing.compare
      split
      · exact hw
      · exact hw
    | _ => exact hw
  | _ => exact ⟨trivial, hw⟩

end Limit

section Bench

def otherPinState : PinStateRecord := { benchPinState with pinHash := some (List.replicate 16 8) }

attribute [local instance] pinTokenExternals

def wrongPinRun : (Except Empty Reply × CtapApp) × Trace × World :=
  (World.bench otherPinState [] 0).run (serve (.cbor (0x06 :: getPinTokenPayload)))
    (.bench otherPinState)

theorem bench_reachable : pinStore.machine.Reachable
    (some (.bench otherPinState), .found (some otherPinState)) := by
  refine ⟨(none, .found (some otherPinState)), [.happening (.powerUp .bench
    [⟨.store .pinState, .ok (some otherPinState)⟩] (.bench otherPinState))],
    ⟨rfl, _, rfl, ?_⟩, ⟨⟨?_, ?_⟩, trivial⟩, rfl⟩
  · rintro record he
    rw [← Option.some.inj he]
    decide
  · exact ⟨_, _, rfl, rfl, rfl⟩
  · exact ⟨Or.inl rfl, trivial⟩

theorem pin_guesses_bounded_wrongPin :
    (Guessing.observer.after (.found (some otherPinState)) wrongPinRun.2.1).mismatches = 1 ∧
      (Guessing.observer.after (.found (some otherPinState)) wrongPinRun.2.1).Bounded := by
  refine ⟨by decide +kernel, ?_⟩
  refine (pin_guesses_bounded _ bench_reachable).2
    (.cutRequest (.cbor (0x06 :: getPinTokenPayload)) wrongPinRun.2.1) ⟨?_, ?_⟩ _
    (List.prefix_refl _)
  · exact (World.runs_run _ _ _).reaches
  · exact World.admits_run _ _ _ (Or.inl rfl)

end Bench

end SoftwareAuthenticator.Ctap
