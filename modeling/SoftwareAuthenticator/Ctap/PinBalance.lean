import SoftwareAuthenticator.Ctap.PinGuessing
import SoftwareAuthenticator.Ctap.PinSteps

/-!
# Guesses and retries in balance

In a PIN check the confirmed debit pays for the comparison in advance.
-/

namespace SoftwareAuthenticator.Ctap

abbrev Balanced (app : CtapApp) (w : Guessing) : Prop := Guarded 0 app.pinState.pin w

variable {app app' : CtapApp} {pin pin' : PinRetryState} {w : Guessing} {record : PinStateRecord}
  {candidate : Option Bytes} {d : CommitDurability}

theorem fromPersistent_allows {record : PinStateRecord} {n : ℕ} (h : record.Allows n) :
    (PinState.fromPersistent record).persistent.Allows n := by
  intro hset
  have := h hset
  have hmin : (PinState.fromPersistent record).persistent.pinRetries ≤ record.pinRetries :=
    Nat.min_le_left _ _
  omega

theorem maxPinRetries_allows (h : record.pinRetries = maxPinRetries) : record.Allows 0 := by
  intro _
  omega

/-- After a confirmed debit, one more wrong guess is already paid for. -/
structure Prepaid (pin : PinRetryState) (w : Guessing) : Prop where
  guarded : Guarded 1 pin w
  row : pin.consecutiveMismatches < maxConsecutivePinMismatches
  isSet : pin.isSet = true

theorem Prepaid.renewing (h : Prepaid pin w) (renewing : Bool) :
    Prepaid pin { w with renewing := renewing } :=
  ⟨h.guarded.renewing renewing, h.row, h.isSet⟩

theorem PinStateRecord.Allows.debit {n : ℕ} (h : record.Allows n)
    (hset : record.pinHash.isSome = true) (hretries : record.pinRetries ≠ 0) :
    ({ record with pinRetries := record.pinRetries - 1 } : PinStateRecord).Allows (n + 1) := by
  intro _
  have := h hset
  dsimp only
  omega

theorem Prepaid.compare_right (h : Prepaid pin w) :
    Guarded 0 pin (w.compare true) ∧ (w.compare true).mismatches = 0 ∧
      (w.compare true).streak = 0 := by
  obtain ⟨hguarded, hrow, -⟩ := h
  have hstreak : ¬ maxConsecutivePinMismatches ≤ w.streak := by
    have := hguarded.streak_le_live
    omega
  refine ⟨Guarded.forgive (hguarded.store.mono (Nat.zero_le _))
    (hguarded.live.mono (Nat.zero_le _)) ?_, rfl, rfl⟩
  simp [hguarded.bounded.not_late, hstreak]

theorem Prepaid.compare_wrong (h : Prepaid pin w) :
    Guarded 0 { pin with consecutiveMismatches := min (pin.consecutiveMismatches + 1) 255 }
      (w.compare false) := by
  obtain ⟨hguarded, hrow, hset⟩ := h
  have hstreak := hguarded.streak_le_live
  have hlive := hguarded.live hset
  have hrow' : pin.consecutiveMismatches < 3 := hrow
  refine ⟨hguarded.store, hguarded.live, ⟨?_, ?_, ?_⟩, ?_⟩
  · change w.mismatches + 1 ≤ maxPinRetries
    omega
  · change w.streak + 1 ≤ 3
    omega
  · have hlate : ¬ maxConsecutivePinMismatches ≤ w.streak := by omega
    simp [Guessing.compare, hguarded.bounded.not_late, hlate]
  · change w.streak + 1 ≤ min (pin.consecutiveMismatches + 1) 255
    omega

theorem next_comparison (w : Guessing) {stored : Option Bytes} {right : Bool}
    (h : pinMatches stored candidate = right) :
    w.next ⟨.observe (.comparison stored candidate), ()⟩ =
      ({ w with renewing := false } : Guessing).compare right :=
  congrArg ({ w with renewing := false } : Guessing).compare h

theorem Guarded.renew (h : Guarded 0 pin w) (hrecord : record.Allows 0)
    (hmismatches : w.mismatches = 0) (hstreak : w.streak = 0) :
    Guarded 0 ⟨record, 0⟩ w :=
  ⟨h.store, hrecord.mono hmismatches.le, h.bounded, hstreak.le⟩

def Balancing : PinPoint → CtapApp → Guessing → Prop
  | .debited, app, w => Prepaid app.pinState.pin w
  | .matched, app, w => Balanced app w ∧ w.mismatches = 0 ∧ w.streak = 0
  | .announced _ record, app, w =>
    Balanced app w ∧ w.renewing = true ∧ record.pinRetries = maxPinRetries
  | _, app, w => Balanced app w

theorem PinChange.allows {n : ℕ} (hchange : PinChange .idle pin pin')
    (h : pin.persistent.Allows n) : pin'.persistent.Allows n ∧
      pin'.consecutiveMismatches = pin.consecutiveMismatches := by
  cases hchange with
  | toggle _ => exact ⟨h.congr rfl rfl, rfl⟩
  | minimum hchanged hrotated =>
    obtain ⟨tokens, rfl⟩ := hrotated.rest
    have hsame := minPinLengthChange_samePin hchanged
    exact ⟨h.congr hsame.1 hsame.2, rfl⟩
  | debit hdebited =>
    obtain ⟨hset, hretries, -, rfl⟩ := beginAttempt_cases hdebited
    exact ⟨(h.debit hset hretries).mono (Nat.le_succ _), rfl⟩
  | rewrite _ => exact ⟨h, rfl⟩
  | grant tokens hforce => exact ⟨h.congr rfl rfl, rfl⟩

theorem PinChange.balancing {p : PinPoint} (hchange : PinChange p app.pinState.pin pin')
    (h : Balancing p app w) (d : CommitDurability) :
    Guarded 0 pin' (w.write pin'.persistent d) := by
  cases p with
  | idle =>
    obtain ⟨hrecord, hrow⟩ := hchange.allows h.live
    have hwrite := Guarded.write h hrecord d
    exact ⟨hwrite.store, hrecord.mono (w.write_mismatches_le _ d), hwrite.bounded,
      hwrite.streak_le_live.trans hrow.ge⟩
  | matched =>
    cases hchange
    obtain ⟨h, hmismatches, hstreak⟩ := h
    have hall : ({ app.pinState.pin.persistent with
      pinRetries := maxPinRetries } : PinStateRecord).Allows 0 := maxPinRetries_allows rfl
    have hwrite := h.write (hall.mono hmismatches.le) d
    exact hwrite.renew hall (Nat.le_zero.mp ((w.write_mismatches_le _ d).trans hmismatches.le))
      (Nat.le_zero.mp ((w.write_streak_le _ d).trans hstreak.le))
  | announced new record =>
    cases hchange
    obtain ⟨h, hrenewing, hretries⟩ := h
    obtain ⟨hwrite, hmismatches, hstreak⟩ :=
      h.write_renewing (maxPinRetries_allows hretries) hrenewing d
    exact hwrite.renew (maxPinRetries_allows hretries) hmismatches hstreak
  | _ => cases hchange

theorem Guarded.debit {debited : PinRetryState} (h : Guarded 0 pin w)
    (hdebited : pin.beginAttempt = .ok debited) (hd : d ≠ .unconfirmed) :
    Prepaid debited (w.write debited.persistent d) := by
  obtain ⟨hset, hretries, hrow, rfl⟩ := beginAttempt_cases hdebited
  have hpaid := h.live.debit hset hretries
  have hle := Nat.succ_le_succ (w.write_mismatches_le { pin.persistent with
    pinRetries := pin.persistent.pinRetries - 1 } d)
  have hsave := h.write (hpaid.mono (Nat.le_succ _)) d
  exact ⟨⟨(Guessing.Allows.write_confirmed hpaid hd).mono hle, hpaid.mono hle, hsave.bounded,
    hsave.streak_le_live⟩, hrow, hset⟩

theorem Balancing.of_reads {p : PinPoint} (hp : p.reads = true) (h : Balancing p app w) :
    Balanced app w := by
  cases p with
  | idle | shaken => exact h
  | _ => cases hp

theorem Guarded.close (h : Balanced app w) : Balanced app.close w :=
  h.adopt (PinStateRecord.allows_blocked rfl h.bounded.mismatches_le)

theorem Guarded.adoptFound (h : Balanced app w)
    (hadmits : w.admits ⟨.store .pinState, .ok (some record)⟩) :
    Balanced (app.find record) (w.next ⟨.store .pinState, .ok (some record)⟩) := by
  obtain ⟨hread, hrecord⟩ := h.read hadmits
  rcases app.find_cases record with hfind | ⟨hfind, -⟩
  · rw [Balanced, hfind]
    exact hread.adopt (hrecord record rfl)
  · rw [Balanced, hfind]
    exact hread

section Steps

variable [Externals] {changing : Bool}

theorem balancing_step {p p' : PinPoint} {e : env.Event} (hstep : PinStep changing p app e p' app')
    (h : Balancing p app w) (hadmits : w.admits e) : Balancing p' app' (w.next e) := by
  cases hstep with
  | quiet hp he =>
    rw [Guessing.next, he]
    cases p with
    | idle => exact Guarded.renewing h false
    | debited => exact Prepaid.renewing h false
    | _ => cases hp
  | write hchange hadopts hread => exact hchange.balancing h _
  | debit hdebited hread hd => exact Guarded.debit h hdebited hd
  | unwritten hp hread =>
    cases p with
    | idle => exact Guarded.renewing h false
    | matched | announced => exact h.1.renewing false
    | _ => cases hp
  | right hmatch =>
    rw [next_comparison w hmatch]
    exact (Prepaid.renewing h false).compare_right
  | wrong hmatch =>
    rw [next_comparison w hmatch]
    exact (Prepaid.renewing h false).compare_wrong
  | announce hnew hrotated =>
    obtain ⟨tokens, rfl⟩ := hrotated.rest
    exact ⟨Guarded.renewing h true, rfl, rfl⟩
  | found hp hread => exact Guarded.adoptFound (h.of_reads hp) hadmits
  | missing hp hread hallowed => exact ((h.of_reads hp).read hadmits).1
  | vanished hp hread hallowed => exact ((h.of_reads hp).read hadmits).1.close
  | condemned hp hread hcloses => exact ((h.of_reads hp).renewing false).close
  | failing hp hread hcloses =>
    have h' := (h.of_reads hp).renewing false
    cases p with
    | idle | shaken => exact h'
    | _ => cases hp
  | @loaded _ _ found hp hread =>
    obtain ⟨h', hrecord⟩ := (h.of_reads hp).read hadmits
    refine h'.adopt (fromPersistent_allows ?_)
    cases found with
    | none => exact PinStateRecord.allows_initial _
    | some record => exact hrecord record rfl
  | unloaded hp hread => exact (h.of_reads hp).renewing false
  | @reset _ d =>
    have hstore : (({ w with renewing := false } : Guessing).publish Guessing.blank d).Allows 0 :=
      Guessing.Allows.publish (h.store.mono (Nat.zero_le _)) fun _ => Guessing.allows_blank 0
    exact Guarded.forgive hstore (PinStateRecord.allows_initial _) h.bounded.not_late
  | shaken => exact Guarded.uncertain h
  | sealed =>
    exact (Guarded.renewing h false).adopt
      (PinStateRecord.allows_blocked rfl h.bounded.mismatches_le)

theorem balancing_laws : PinLaws Guessing.observer Balancing changing where
  safe {p _ _} h := by
    cases p with
    | debited => exact h.guarded.sound
    | matched | announced _ _ => exact h.1.sound
    | _ => exact Guarded.sound h
  step hstep h hadmits := balancing_step hstep h hadmits
  frame {p _ _ _} hframe h := by
    cases p <;> simp only [Balancing, Balanced, hframe.pin] <;> exact h
  issue h _ _ hpin _ := by
    change Guarded 0 _ _
    rw [hpin]
    exact h
  refused {p _ _} hp _ h := by
    cases p with
    | idle => exact h
    | matched | announced _ _ => exact h.1
    | _ => cases hp
  settled _ h := h

end Steps

end SoftwareAuthenticator.Ctap
