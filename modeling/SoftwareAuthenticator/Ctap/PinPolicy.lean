import SoftwareAuthenticator.Ctap.PinMirror
import Mathlib.Logic.Relation

/-!
# The PIN policy

While the stored PIN state can be read and no reset fails, one invariant ties the policy, the
PIN, the forced change and both kinds of token together, and every record that is published
revises the one before it.
-/

namespace SoftwareAuthenticator.Ctap

def codePoints (pin : Bytes) : Option ℕ := (fromUtf8 pin).map String.length

structure PinStateRecord.Accepts (record : PinStateRecord) (pin : Bytes) : Prop where
  long : ∃ length, codePoints pin = some length ∧ record.minPinLength ≤ length
  mixed : record.pinComplexityPolicy = true →
    pin.any isAsciiAlphabetic = true ∧ pin.any isAsciiDigit = true

def PersistentTokens.Ungranted (tokens : PersistentTokens) : Prop :=
  ∀ token ∈ tokens.toList, token.granted = false

theorem decodeNewPin_accepts {padded pin : Bytes} {length : ℕ} {record : PinStateRecord}
    (h : decodeNewPin padded record.minPinLength record.pinComplexityPolicy = .ok (pin, length)) :
    codePoints pin = some length ∧ record.Accepts pin := by
  unfold decodeNewPin at h
  split at h
  · cases h
  dsimp only at h
  split at h
  · cases h
  split at h
  · cases h
  rename_i text htext
  split at h
  · cases h
  rename_i hpolicy
  obtain ⟨rfl, rfl⟩ : dropTrailingZeros padded = pin ∧ text.length = length := by
    simpa using h
  have hlength : codePoints (dropTrailingZeros padded) = some text.length := by
    rw [codePoints, htext]
    rfl
  refine ⟨hlength, ⟨text.length, hlength, ?_⟩, fun hcomplex => ?_⟩
  · by_contra hshort
    exact hpolicy (.inl (not_le.mp hshort))
  · constructor
    · by_contra hletter
      exact hpolicy (.inr ⟨hcomplex, .inl (Bool.eq_false_iff.mpr hletter)⟩)
    · by_contra hdigit
      exact hpolicy (.inr ⟨hcomplex, .inr (Bool.eq_false_iff.mpr hdigit)⟩)

section Policy

variable [Externals]

/-- A record in which the PIN that is set, the policy, the forced change and the persistent
tokens agree. -/
structure PinStateRecord.Sound (record : PinStateRecord) (set : Option Bytes) : Prop where
  retries_le : record.pinRetries ≤ maxPinRetries
  minimum : defaultMinPinLength ≤ record.minPinLength ∧ record.minPinLength ≤ maxPinLength
  pin : ∀ hash, record.pinHash = some hash → ∃ pin, set = some pin ∧ Ctap.pinHash pin = hash ∧
    codePoints pin = some record.pinCodePointLength ∧
    (record.forcePinChange = false → record.Accepts pin)
  forced : record.forcePinChange = true →
    record.pinHash.isSome = true ∧ record.persistentTokens.Ungranted

theorem PinStateRecord.sound_initial (set : Option Bytes) : PinStateRecord.initial.Sound set where
  retries_le := le_rfl
  minimum := by decide
  pin := fun _ h => by cases h
  forced := fun h => by cases h

/-- What a record keeps of the one before it: the policy is not weakened, and a forced change
ends only where a request that changes the PIN sets one with another hash. -/
structure PinStateRecord.Upholds (changing : Bool) (record record' : PinStateRecord) : Prop where
  minimum : record.minPinLength ≤ record'.minPinLength
  complexity : record.pinComplexityPolicy = true → record'.pinComplexityPolicy = true
  forced : record.forcePinChange = true → record'.forcePinChange = true ∨
    (changing = true ∧ record'.pinHash ≠ record.pinHash)

/-- What one write may do, if `set` is the PIN after it. -/
structure PinStateRecord.Revises (changing : Bool) (record record' : PinStateRecord)
    (set : Option Bytes) : Prop extends record.Upholds changing record' where
  sound : record'.Sound set

variable {set : Option Bytes}

theorem PinStateRecord.Sound.revises {record : PinStateRecord} (h : record.Sound set)
    {changing : Bool} {retries : ℕ} {alwaysUv : Bool} {tokens : PersistentTokens}
    (hretries : retries ≤ maxPinRetries)
    (htokens : record.forcePinChange = true → tokens.Ungranted) :
    record.Revises changing { record with
      pinRetries := retries, alwaysUv := alwaysUv, persistentTokens := tokens } set where
  sound :=
    { retries_le := hretries
      minimum := h.minimum
      pin := fun hash hhash => by
        obtain ⟨pin, hset, hpin, hlength, haccepts⟩ := h.pin hash hhash
        exact ⟨pin, hset, hpin, hlength, fun hforce =>
          ⟨(haccepts hforce).long, (haccepts hforce).mixed⟩⟩
      forced := fun hforce => ⟨(h.forced hforce).1, htokens hforce⟩ }
  minimum := le_rfl
  complexity := id
  forced := Or.inl

/-- The record a read finds, the PIN of the last setPIN or changePIN that was published, the
one that is about to be written, and the writes so far, each with the record it replaced. -/
structure Chronicle where
  record : PinStateRecord
  pin : Option Bytes
  announced : Option Bytes
  writes : List (PinStateRecord × PinStateRecord)

variable {w : Chronicle}

namespace Chronicle

def new : Chronicle := ⟨.initial, none, none, []⟩

def announce (w : Chronicle) (announced : Option Bytes) : Chronicle := { w with announced }

def written (w : Chronicle) : Option Bytes := w.announced.or w.pin

def write (w : Chronicle) (record : PinStateRecord) : Chronicle :=
  ⟨record, w.written, none, w.writes ++ [(w.record, record)]⟩

def reset (w : Chronicle) : Chronicle := ⟨.initial, none, none, w.writes⟩

/-- A failed write publishes nothing, and what was announced is not written later. -/
def next (w : Chronicle) (e : env.Event) : Chronicle :=
  match pinEvent e with
  | some (.newPin pin) => w.announce (some pin)
  | some (.write record (.ok _)) => w.write record
  | some (.write _ (.error _)) => w.announce none
  | some (.reset (.ok _)) => w.reset
  | some (.read _) => w.announce none
  | _ => w

def admits (w : Chronicle) : env.Event → Prop
  | ⟨.store .pinState, answer⟩ => ∃ found, answer = .ok found ∧ found.getD .initial = w.record
  | ⟨.store .clear, answer⟩ => ∃ durability, answer = .ok durability
  | _ => True

def observer (safe : Chronicle → Prop) : Observer env Chronicle where
  admits := admits
  next := next
  safe := safe

/-- What becomes of the record by one write or one reset, and what is announced. -/
inductive Evolves (changing : Bool) : Chronicle → Chronicle → Prop
  | announce (w : Chronicle) (announced : Option Bytes) :
      Evolves changing w (w.announce announced)
  | revise {w : Chronicle} {record : PinStateRecord} :
      w.record.Revises changing record w.written → Evolves changing w (w.write record)
  | reset (w : Chronicle) : Evolves changing w w.reset

omit [Externals] in
theorem admits_observer {safe safe' : Chronicle → Prop} {tr : Trace}
    (h : (observer safe).Admits w tr) : (observer safe').Admits w tr := by
  induction tr generalizing w with
  | nil => trivial
  | cons e tr ih => exact ⟨h.1, ih h.2⟩

end Chronicle

/-- The engine has read the stored record, holds it as its own, and keeps no token in use
while a change is forced. No PIN is about to be written. -/
structure Governed (safe : Chronicle → Prop) (v : Authority) (w : Chronicle) : Prop where
  safe : safe w
  sound : w.record.Sound w.pin
  idle : w.announced = none
  read : v.stored = .read
  live : v.pin.persistent = w.record
  forced : w.record.forcePinChange = true → v.token.inUse = none

abbrev Governs {ε α : Type} (safe : Chronicle → Prop) (c : EngineM ε α) : Prop :=
  Cmd.Keeps (Chronicle.observer safe) (fun app w => Governed safe app.authority w) c

variable {safe : Chronicle → Prop} {changing : Bool}

variable {record : PinStateRecord} {e : env.Event}

/-- A set of chronicles that no write and no reset leaves. -/
def Lasts (changing : Bool) (safe : Chronicle → Prop) : Prop :=
  ∀ w w', safe w → Chronicle.Evolves changing w w' → safe w'

theorem minPinLengthChange_revises {params : Entries} {current changed rotated : PinStateRecord}
    (hchanged : minPinLengthChange params current = .ok changed)
    (hrotated : Rotated changed.forcePinChange changed rotated) (h : current.Sound set) :
    current.Revises changing rotated set := by
  obtain ⟨minimum, rpIds, forced, complex, ⟨hlow, hhigh⟩, hforced, hcomplex, rfl⟩ :=
    minPinLengthChange_cases hchanged
  obtain ⟨⟨tokens, rfl⟩, hrevoked, -⟩ := hrotated
  -- Both earlier changes keep the PIN, and force a change unless they keep the policy too.
  have hpin : complex.pinHash = current.pinHash ∧ complex.pinRetries = current.pinRetries ∧
      complex.pinCodePointLength = current.pinCodePointLength := by
    rcases hforced with rfl | ⟨-, rfl⟩ <;> rcases hcomplex with rfl | rfl <;> exact ⟨rfl, rfl, rfl⟩
  have hpolicy : current.pinComplexityPolicy = true → complex.pinComplexityPolicy = true := by
    rcases hforced with rfl | ⟨-, rfl⟩ <;> rcases hcomplex with rfl | rfl <;>
      first | exact id | exact fun _ => rfl
  have hforce : current.forcePinChange = true → complex.forcePinChange = true := by
    rcases hforced with rfl | ⟨-, rfl⟩ <;> rcases hcomplex with rfl | rfl <;> simp +contextual
  have hset : complex.forcePinChange = true → current.pinHash.isSome = true := by
    have hcurrent : current.forcePinChange = true → current.pinHash.isSome = true :=
      fun hforce => (h.forced hforce).1
    rcases hforced with rfl | ⟨hisSome, rfl⟩
    · rcases hcomplex with rfl | rfl
      · exact hcurrent
      · intro hor
        exact (Bool.or_eq_true_iff.mp hor).elim hcurrent id
    · exact fun _ => hisSome
  have hsame : current.pinHash.isSome = true → complex.forcePinChange = false →
      current.forcePinChange = false ∧
        complex.pinComplexityPolicy = current.pinComplexityPolicy := by
    intro hisSome hnot
    rcases hforced with rfl | ⟨-, rfl⟩
    · rcases hcomplex with rfl | rfl
      · exact ⟨hnot, rfl⟩
      · simp [hisSome] at hnot
    · rcases hcomplex with rfl | rfl
      · cases hnot
      · simp at hnot
  refine ⟨⟨hlow, hpolicy, fun hforced' => .inl ?_⟩, ?_, ⟨h.minimum.1.trans hlow, hhigh⟩,
    fun hash hhash => ?_, fun hforced' => ?_⟩
  · exact Bool.or_eq_true_iff.mpr (.inl (hforce hforced'))
  · exact hpin.2.1.le.trans h.retries_le
  · have hhash' : current.pinHash = some hash := hpin.1.symm.trans hhash
    obtain ⟨pin, hset', hpinHash, hlength, haccepts⟩ := h.pin hash hhash'
    have hlength' : codePoints pin = some complex.pinCodePointLength := by rw [hpin.2.2, hlength]
    refine ⟨pin, hset', hpinHash, hlength', fun hnot => ?_⟩
    obtain ⟨hnot, hlong⟩ : complex.forcePinChange = false ∧
        minimum ≤ complex.pinCodePointLength := by
      simpa [withMinimum, hpin.1, hhash'] using hnot
    obtain ⟨hcurrent, hcomplexity⟩ := hsame (by rw [hhash']; rfl) hnot
    refine ⟨⟨_, hlength', hlong⟩, fun hmixed => (haccepts hcurrent).mixed ?_⟩
    rw [← hcomplexity]
    exact hmixed
  · refine ⟨?_, hrevoked hforced'⟩
    rcases Bool.or_eq_true_iff.mp hforced' with hforced' | hshort
    · exact (congrArg Option.isSome hpin.1).trans (hset hforced')
    · exact (Bool.and_eq_true_iff.mp hshort).1

/-- A PIN that the record's policy accepts, with its hash and its length. -/
def PinStateRecord.Offers (record : PinStateRecord) (pin hash : Bytes) (length : ℕ) : Prop :=
  Ctap.pinHash pin = hash ∧ codePoints pin = some length ∧ record.Accepts pin

theorem PinStateRecord.Sound.revises_newPin (h : record.Sound set) {pin hash : Bytes} {length : ℕ}
    {tokens : PersistentTokens} (hoffers : record.Offers pin hash length)
    (hforced : record.forcePinChange = true → changing = true ∧ record.pinHash ≠ some hash) :
    record.Revises changing { record with
      pinHash := some hash
      pinRetries := maxPinRetries
      pinCodePointLength := length
      forcePinChange := false
      persistentTokens := tokens } (some pin) := by
  obtain ⟨hpin, hlength, haccepts⟩ := hoffers
  refine ⟨⟨le_rfl, id, fun hforce => .inr ⟨(hforced hforce).1, (hforced hforce).2.symm⟩⟩,
    le_rfl, h.minimum, fun hash' hhash' => ?_, fun hforce => ?_⟩
  · obtain rfl : hash = hash' := Option.some.inj hhash'
    exact ⟨pin, rfl, hpin, hlength, fun _ => ⟨haccepts.long, haccepts.mixed⟩⟩
  · cases hforce

theorem PinChange.revises {p : PinPoint} {pin pin' : PinRetryState} (hchange : PinChange p pin pin')
    (h : pin.persistent.Sound set) (hnew : ∀ new record, p ≠ .announced new record) :
    pin.persistent.Revises changing pin'.persistent set := by
  have hkept : ∀ retries ≤ maxPinRetries, pin.persistent.Revises changing { pin.persistent with
      pinRetries := retries } set := fun retries hretries =>
    h.revises hretries fun hforce => (h.forced hforce).2
  cases hchange with
  | toggle _ => exact h.revises h.retries_le fun hforce => (h.forced hforce).2
  | minimum hchanged hrotated => exact minPinLengthChange_revises hchanged hrotated h
  | debit hdebited =>
    obtain ⟨-, -, -, rfl⟩ := beginAttempt_cases hdebited
    exact hkept _ ((Nat.sub_le _ 1).trans h.retries_le)
  | rewrite _ => exact hkept _ h.retries_le
  | complete _ => exact hkept _ le_rfl
  | renew new record _ => exact absurd rfl (hnew new record)
  | grant tokens hforce =>
    refine h.revises h.retries_le fun hforced => ?_
    cases hforce.symm.trans hforced

def Governing (changing : Bool) (safe : Chronicle → Prop) : PinPoint → CtapApp → Chronicle → Prop
  | .announced pin record, app, w => (Governed safe app.authority (w.announce none) ∧ safe w) ∧
    w.announced = some pin ∧ w.record.Revises changing record (some pin)
  | .shaken, _, _ | .lost, _, _ => False
  | _, app, w => Governed safe app.authority w

theorem Governed.announce_none {v : Authority} (h : Governed safe v w) : w.announce none = w := by
  obtain ⟨record, pin, announced, writes⟩ := w
  obtain rfl : announced = none := h.idle
  rfl

variable {app app' : CtapApp}

theorem Governed.write (hsafe : Lasts changing safe)
    (h : Governed safe app.authority (w.announce none)) (hw : safe w) (hadopts : Adopts app app')
    (hrevises : w.record.Revises changing app'.pinState.persistent w.written) :
    Governed safe app'.authority (w.write app'.pinState.persistent) := by
  refine ⟨hsafe _ _ hw (.revise hrevises), hrevises.sound, rfl, hadopts.stored.trans h.read, rfl,
    fun hforce => ?_⟩
  rcases hadopts.ended hforce with hforced | hended
  · refine hadopts.token (h.forced ?_)
    rw [← h.live]
    exact hforced
  · exact hended

theorem PinChange.governs {p : PinPoint} (hsafe : Lasts changing safe)
    (hchange : PinChange p app.pinState.pin app'.pinState.pin) (hadopts : Adopts app app')
    (h : Governing changing safe p app w) :
    Governed safe app'.authority (w.write app'.pinState.persistent) := by
  have hkept : Governed safe app.authority w → (∀ new record, p ≠ .announced new record) →
      Governed safe app'.authority (w.write app'.pinState.persistent) := by
    intro h hnew
    refine Governed.write hsafe (h.announce_none.symm ▸ h) h.safe hadopts ?_
    have hlive : app.pinState.pin.persistent = w.record := h.live
    rw [Chronicle.written, h.idle, ← hlive]
    exact hchange.revises (hlive.symm ▸ h.sound) hnew
  cases p with
  | idle | matched => exact hkept h nofun
  | announced new record =>
    obtain ⟨⟨h, hw⟩, hannounced, hrevises⟩ := h
    have hrecord : app'.pinState.persistent = record := by
      generalize hpin : app'.pinState.pin = pin' at hchange
      cases hchange
      exact congrArg PinRetryState.persistent hpin
    refine Governed.write hsafe h hw hadopts ?_
    rw [hrecord, Chronicle.written, hannounced]
    exact hrevises
  | _ => cases hchange

theorem Governed.announce {app : CtapApp} {pin hash : Bytes} {length : ℕ} {record : PinStateRecord}
    (hsafe : Lasts changing safe) (h : Governed safe app.authority w)
    (hnew : NewPin changing app.authority pin hash length)
    (hrotated : Rotated app.pinState.isSet { app.pinState.persistent with
      pinHash := some hash
      pinRetries := maxPinRetries
      pinCodePointLength := length
      forcePinChange := false } record) :
    Governing changing safe (.announced pin record) app (w.announce (some pin)) := by
  obtain ⟨tokens, rfl⟩ := hrotated.rest
  have hlive : app.pinState.persistent = w.record := h.live
  obtain ⟨⟨hhashed, padded, hdecoded⟩, hrenews⟩ := hnew
  obtain ⟨hlength, haccepts⟩ := decodeNewPin_accepts hdecoded
  refine ⟨⟨?_, hsafe _ _ h.safe (.announce w _)⟩, rfl, ?_⟩
  · have hnone := h.announce_none
    exact hnone.symm ▸ h
  · rw [hlive]
    refine h.sound.revises_newPin ⟨hhashed, hlength, h.live ▸ haccepts⟩ fun hforce => ?_
    rcases hrenews with hset | ⟨hchanging, -, hrepeats⟩
    · -- A change is forced only if there is a PIN.
      have hisSome := (h.sound.forced hforce).1
      rw [← h.live] at hisSome
      cases hset.symm.trans hisSome
    · refine ⟨hchanging, fun hsame => ?_⟩
      rw [h.live] at hrepeats
      simp [repeatsForcedPin, hforce, hsame] at hrepeats

theorem governing_step (hsafe : Lasts changing safe) {p p' : PinPoint}
    (hstep : PinStep changing p app e p' app') (h : Governing changing safe p app w)
    (hadmits : w.admits e) :
    Governing changing safe p' app' (w.next e) := by
  have hgoverned : p.reads = true → Governed safe app.authority w := fun hp => by
    cases p with
    | idle => exact h
    | shaken => exact h.elim
    | _ => cases hp
  cases hstep with
  | quiet hp he =>
    rw [Chronicle.next, he]
    exact h
  | write hchange hadopts hread => exact hchange.governs hsafe hadopts h
  | @debit _ debited d hdebited hread hd =>
    have hadopts : Adopts app (app.retry debited) := by
      refine ⟨rfl, id, fun hforce => .inl ?_⟩
      obtain ⟨-, -, -, rfl⟩ := beginAttempt_cases hdebited
      exact hforce
    exact PinChange.governs (p := .idle) hsafe (.debit hdebited) hadopts h
  | unwritten hp hread =>
    cases p with
    | idle | matched => exact h.announce_none.symm ▸ h
    | announced pin record => exact h.1.1
    | _ => cases hp
  | right hmatch => exact h
  | wrong hmatch => exact ⟨h.safe, h.sound, h.idle, h.read, h.live, h.forced⟩
  | announce hnew hrotated => exact Governed.announce hsafe h hnew hrotated
  | found hp hread =>
    have h := hgoverned hp
    obtain ⟨found, hfound, hrecord⟩ := hadmits
    cases hfound
    obtain rfl : app.pinState.persistent = _ := h.live.trans hrecord.symm
    rw [app.find_self]
    exact h.announce_none.symm ▸ h
  | missing hp hread hallowed =>
    exact (hgoverned hp).announce_none.symm ▸ hgoverned hp
  | vanished hp hread hallowed =>
    obtain ⟨found, hfound, hrecord⟩ := hadmits
    cases hfound
    have hlive : app.pinState.persistent = .initial := (hgoverned hp).live.trans hrecord.symm
    rw [hlive] at hallowed
    cases hallowed
  | condemned hp hread hcloses | failing hp hread hcloses =>
    obtain ⟨found, hfound, -⟩ := hadmits
    cases hfound
  | loaded hp hread | unloaded hp hread => cases hread.symm.trans (hgoverned hp).read
  | reset =>
    exact ⟨hsafe _ _ h.safe (.reset w), PinStateRecord.sound_initial _, rfl, rfl, rfl, fun _ => rfl⟩
  | shaken =>
    obtain ⟨durability, hanswer⟩ := hadmits
    cases hanswer
  | sealed => exact h.elim

theorem Governed.congr (h : Governed safe app.authority w)
    (hpin : app'.pinState.pin = app.pinState.pin)
    (hstored : app'.storedPinState = app.storedPinState)
    (htoken : w.record.forcePinChange = true → app.pinState.token.inUse = none →
      app'.pinState.token.inUse = none) : Governed safe app'.authority w :=
  ⟨h.safe, h.sound, h.idle, hstored.trans h.read,
    (congrArg PinRetryState.persistent hpin).trans h.live, fun hforce =>
      htoken hforce (h.forced hforce)⟩

theorem governing_laws (hsafe : Lasts changing safe) :
    PinLaws (Chronicle.observer safe) (Governing changing safe) changing where
  safe {p _ _} h := by
    cases p with
    | announced _ _ => exact h.1.2
    | shaken | lost => exact h.elim
    | _ => exact Governed.safe h
  step hstep h hadmits := governing_step hsafe hstep h hadmits
  frame {p _ _ _} hf h := by
    cases p with
    | announced _ _ => exact ⟨⟨h.1.1.congr hf.pin hf.stored fun _ => hf.token, h.1.2⟩, h.2⟩
    | shaken | lost => exact h
    | _ => exact Governed.congr h hf.pin hf.stored fun _ => hf.token
  issue {app _ _} h _ hforce hpin hstored := by
    refine Governed.congr h hpin hstored fun hforced => ?_
    rw [← h.live] at hforced
    cases hforce.symm.trans hforced
  refused {p _ _} hp hread h := by
    cases p with
    | idle | matched => exact h
    | announced _ _ => exact absurd h.1.1.read hread
    | _ => cases hp
  settled _ h := h.elim

/-- Only a request that changes the PIN may end a forced change. -/
theorem serve_governs (request : Request)
    (hsafe : Lasts (decide (request.clientPin = some .changePin)) safe) :
    Governs safe (serve request) :=
  PinLaws.serve request (governing_laws hsafe)

theorem powerUp_governs (hsafe : Lasts changing safe) (settings : Settings) :
    Cmd.Triple (Chronicle.observer safe) (fun _ w => safe w ∧ w.record.Sound w.pin)
      (powerUp settings) fun _ app w => app.elim (safe w ∧ w.record.Sound w.pin)
        fun app => Governed safe app.authority w := by
  refine powerUp_rule (F := fun _ _ => False) ?_ ?_ fun _ _ _ h => h.elim
  · rintro w found h ⟨found', hfound, hrecord⟩
    cases hfound
    have hnext : safe (w.announce none) := hsafe _ _ h.1 (.announce w none)
    refine ⟨hnext, hnext, h.2, rfl, rfl, ?_, fun _ => rfl⟩
    -- Only a number of retries above the maximum would be corrected.
    change (PinRetryState.powerUp (found.getD .initial)).persistent = w.record
    rw [hrecord, PinRetryState.powerUp, min_eq_left h.2.retries_le]
  · rintro w err h ⟨found, hfound, -⟩
    cases hfound

theorem lasts_of_revises {safe : Chronicle → Prop}
    (hannounce : ∀ w announced, safe w → safe (w.announce announced))
    (hwrite : ∀ w record, safe w → w.record.Revises changing record w.written →
      safe (w.write record)) (hreset : ∀ w, safe w → safe w.reset) : Lasts changing safe := by
  rintro w _ h (_ | hrevises | _)
  · exact hannounce w _ h
  · exact hwrite w _ h hrevises
  · exact hreset w h

def Chronicle.Sound (w : Chronicle) : Prop := w.record.Sound w.pin

/-- A new authenticator whose stored PIN state stays readable, and on which no reset fails. Its
PIN state may fail to be written. -/
def readableStore : Surrounds Chronicle where
  observer := Chronicle.observer Chronicle.Sound
  start w := w = .new
  stop w := w
  loses _ _ := False

theorem lasts_sound : Lasts changing Chronicle.Sound :=
  lasts_of_revises (fun _ _ h => h) (fun _ _ _ h => h.sound) fun _ _ =>
    PinStateRecord.sound_initial _

abbrev Orderly (s : Option CtapApp × Chronicle) : Prop :=
  Throughout (fun app w => Governed Chronicle.Sound app.authority w) Chronicle.Sound s

theorem readableStore_lasting : readableStore.Lasting
    (fun app w => Governed Chronicle.Sound app.authority w) Chronicle.Sound where
  start := by
    rintro _ rfl
    exact PinStateRecord.sound_initial _
  serve request := serve_governs request lasts_sound
  powerUp settings := (powerUp_governs (@lasts_sound _ false) settings).conseq
    (fun _ _ h => ⟨h, h⟩) fun _ app w h => by
      cases app with
      | none => exact h.2
      | some app => exact h
  safe_on _ _ h := h.sound
  safe_off _ h := h
  stop _ h := h
  loses _ _ _ h := h.elim

def Happening.changesPin (h : Happening) : Bool :=
  h.request.any fun request => request.clientPin = some .changePin

/-- Every write of a happening upholds the record it replaces. -/
theorem writes_uphold {s : Option CtapApp × Chronicle} (hs : Orderly s) {h : Happening}
    (hh : engine.enabled s.1 h) {tr rest : Trace} (htr : h.trace = tr ++ rest)
    (hadmits : readableStore.observer.Admits s.2 tr) :
    ∃ writes, (readableStore.observer.after s.2 tr).writes = s.2.writes ++ writes ∧
      ∀ write ∈ writes, write.1.Upholds h.changesPin write.2 := by
  let safe : Chronicle → Prop := fun w => ∃ writes, w.writes = s.2.writes ++ writes ∧
    ∀ write ∈ writes, write.1.Upholds h.changesPin write.2
  have hbegin : safe s.2 := ⟨[], (List.append_nil _).symm, by simp⟩
  have hlasts : Lasts h.changesPin safe := by
    refine lasts_of_revises (fun _ _ h => h) ?_ fun _ h => h
    rintro w record ⟨writes, heq, hall⟩ hrevises
    refine ⟨writes ++ [(w.record, record)], ?_, ?_⟩
    · rw [Chronicle.write, heq, List.append_assoc]
    · intro write hwrite
      rcases List.mem_append.mp hwrite with hwrite | hwrite
      · exact hall write hwrite
      · obtain rfl := List.mem_singleton.mp hwrite
        exact hrevises.toUpholds
  have hserve : ∀ request, h.request = some request → Governs safe (serve request) := by
    intro request hrequest
    have hchanges : h.changesPin = decide (request.clientPin = some .changePin) := by
      rw [Happening.changesPin, hrequest]
      rfl
    rw [hchanges] at hlasts
    exact serve_governs request hlasts
  have hthroughout : Throughout (fun app w => Governed safe app.authority w)
      (fun w => safe w ∧ w.record.Sound w.pin) s := by
    obtain ⟨state, w⟩ := s
    cases state with
    | none => exact ⟨hbegin, hs⟩
    | some app =>
      have hs : Governed _ app.authority w := hs
      exact ⟨hbegin, hs.sound, hs.idle, hs.read, hs.live, hs.forced⟩
  exact safe_happening hserve (powerUp_governs hlasts) hbegin hthroughout hh htr
    (Chronicle.admits_observer hadmits)

def isReset (e : env.Event) : Bool :=
  match pinEvent e with
  | some (.reset (.ok _)) => true
  | _ => false

omit [Externals] in
/-- Apart from a reset, only a write that succeeds changes the record. -/
theorem Chronicle.next_cases (w : Chronicle) (he : isReset e = false) :
    (w.next e).record = w.record ∨ ∃ record, w.next e = w.write record := by
  unfold next
  split
  · exact .inl rfl
  · exact .inr ⟨_, rfl⟩
  · exact .inl rfl
  · next heq =>
    rw [isReset, heq] at he
    cases he
  · exact .inl rfl
  · exact .inl rfl

/-- What one event of a happening does to the stored record, unless it is a reset. -/
theorem event_upholds {s : Option CtapApp × Chronicle} (hs : Orderly s) {h : Happening}
    (hh : engine.enabled s.1 h) {tr rest : Trace} (htr : h.trace = tr ++ e :: rest)
    (hadmits : readableStore.observer.Admits s.2 h.trace) (he : isReset e = false) :
    (readableStore.observer.after s.2 tr).record.Upholds h.changesPin
      (readableStore.observer.after s.2 (tr ++ [e])).record := by
  have htr' : h.trace = (tr ++ [e]) ++ rest := by
    rw [htr, List.append_assoc]
    rfl
  rw [htr'] at hadmits
  have hafter := ((readableStore.observer.admits_append _ _ _).mp hadmits).1
  have hbefore := ((readableStore.observer.admits_append _ _ _).mp hafter).1
  obtain ⟨writes, hwrites, -⟩ := writes_uphold hs hh htr hbefore
  obtain ⟨writes', hwrites', hupholds⟩ := writes_uphold hs hh htr' hafter
  rw [Observer.after_append] at hwrites' ⊢
  generalize readableStore.observer.after s.2 tr = w at hwrites hwrites' ⊢
  change (w.next e).writes = _ at hwrites'
  change w.record.Upholds h.changesPin (w.next e).record
  obtain hnext | ⟨record, hnext⟩ := w.next_cases he
  · rw [hnext]
    exact ⟨le_rfl, id, .inl⟩
  · rw [hnext, Chronicle.write, hwrites, List.append_assoc] at hwrites'
    have hmem : (w.record, record) ∈ writes' := by
      rw [← List.append_cancel_left hwrites']
      simp
    rw [hnext]
    exact hupholds _ hmem

/-- While the stored PIN state can be read and no reset fails: the minimum PIN length is
between 4 and 63, a PIN that need not be changed meets the policy, a forced change goes with
no token in use or granted, and every event but a reset upholds the record it finds. -/
theorem pin_policy_enforced {state : Option CtapApp} {w : Chronicle}
    (hs : readableStore.machine.Reachable (state, w)) :
    (4 ≤ w.record.minPinLength ∧ w.record.minPinLength ≤ 63) ∧
      (∀ hash, w.record.pinHash = some hash → w.record.forcePinChange = false →
        ∃ pin, w.pin = some pin ∧ pinHash pin = hash ∧ w.record.Accepts pin) ∧
      (w.record.forcePinChange = true → w.record.persistentTokens.Ungranted) ∧
      (∀ app, state = some app → app.pinState.persistent = w.record ∧
        (w.record.forcePinChange = true → app.pinState.token.inUse = none)) ∧
      ∀ h tr e rest, readableStore.machine.enabled (state, w) (.happening h) →
        h.trace = tr ++ e :: rest → isReset e = false →
        (readableStore.observer.after w tr).record.Upholds h.changesPin
          (readableStore.observer.after w (tr ++ [e])).record := by
  have hthroughout := readableStore_lasting.reachable hs
  have hsound : w.record.Sound w.pin := readableStore_lasting.safe hthroughout
  refine ⟨hsound.minimum, fun hash hhash hforce => ?_, fun hforce => (hsound.forced hforce).2,
    ?_, fun h tr e rest henabled htr he => ?_⟩
  · obtain ⟨pin, hset, hpin, -, haccepts⟩ := hsound.pin hash hhash
    exact ⟨pin, hset, hpin, haccepts hforce⟩
  · rintro app rfl
    have hgoverned : Governed _ app.authority w := hthroughout
    exact ⟨hgoverned.live, hgoverned.forced⟩
  · exact event_upholds hthroughout henabled.1 htr henabled.2 he

end Policy

theorem MemoryStore.pinState_getD_handle [Externals] {store : MemoryStore} {op : StoreOp}
    {record : PinStateRecord} (sealed : Bytes) (hop : (EnvOp.store op).leavesPinState = true)
    (h : store.pinState.getD .initial = record) :
    (store.handle sealed op).2.pinState.getD .initial = record := by
  obtain hpin | ⟨hnone, hpin⟩ := store.pinState_handle sealed hop
  · rw [hpin, h]
  · rw [hpin, ← h, hnone]
    rfl

theorem World.chronicle_handle [Externals] {safe : Chronicle → Prop} (world : World) (w : Chronicle)
    (op : EnvOp) (h : world.store.pinState.getD .initial = w.record) :
    (Chronicle.observer safe).admits w ⟨op, (world.handle op).1⟩ ∧
      (world.handle op).2.store.pinState.getD .initial =
        ((Chronicle.observer safe).next w ⟨op, (world.handle op).1⟩).record := by
  cases op with
  | store op =>
    cases op with
    | pinState => exact ⟨⟨_, rfl, h⟩, h⟩
    | clear => exact ⟨⟨_, rfl⟩, rfl⟩
    | setPinState record =>
      refine ⟨trivial, ?_⟩
      change ((world.store.setPinState record).2.pinState).getD .initial =
        (w.next ⟨.store (.setPinState record), (world.store.setPinState record).1⟩).record
      unfold MemoryStore.setPinState
      split
      · exact h
      · rfl
    | _ => exact ⟨trivial, MemoryStore.pinState_getD_handle _ rfl h⟩
  | observe phase => cases phase <;> exact ⟨trivial, h⟩
  | _ => exact ⟨trivial, h⟩

section Bench

def minPinLengthPayload : Bytes := [0xa2, 0x01, 0x03, 0x02, 0xa1, 0x01, 0x06]

def minPinLengthValue : Value :=
  .map [(.integer 1, .integer 3), (.integer 2, .map [(.integer 1, .integer 6)])]

def setPinPayload : Bytes :=
  [0xa5, 0x01, 0x01, 0x02, 0x03, 0x03, 0xa5, 0x01, 0x02, 0x03, 0x38, 0x18, 0x20, 0x01, 0x21,
    0x58, 0x20] ++ List.replicate 32 7 ++ [0x22, 0x58, 0x20] ++ List.replicate 32 7 ++
    [0x04, 0x50] ++ List.replicate 16 0 ++ [0x05, 0x58, 0x40] ++ utf8 "123456" ++
    List.replicate 58 0

def setPinValue : Value :=
  .map [(.integer 1, .integer 1), (.integer 2, .integer 3), (.integer 3, benchPlatformKey),
    (.integer 4, .bytes (List.replicate 16 0)),
    (.integer 5, .bytes (utf8 "123456" ++ List.replicate 58 0))]

local instance policyExternals : Externals :=
  .bench [(minPinLengthPayload, minPinLengthValue), (setPinPayload, setPinValue)]

def policySession : List Happening :=
  World.session ⟨.empty, .bench 0, 0⟩ .bench
    [.cbor (0x0D :: minPinLengthPayload), .cbor (0x06 :: setPinPayload)]

def policyChronicle : Chronicle :=
  readableStore.observer.after .new (record policySession)

theorem policyChronicle_reachable :
    readableStore.machine.Reachable (engine.run none policySession, policyChronicle) := by
  have hadmits : readableStore.observer.Admits .new (record policySession) :=
    World.admits_session (R := fun world (w : Chronicle) =>
      world.store.pinState.getD .initial = w.record) World.chronicle_handle _ _ rfl
  obtain ⟨hexecutes, hend⟩ := readableStore.executes_of_admits (fun _ => rfl)
    (World.executes_session _ _ _) hadmits
  exact ⟨(none, .new), _, ⟨rfl, rfl⟩, hexecutes, hend⟩

theorem pin_policy_enforced_setPin : policyChronicle.record.minPinLength = 6 ∧
    policyChronicle.pin = some (utf8 "123456") ∧
    policyChronicle.record.Accepts (utf8 "123456") := by
  have hpin : policyChronicle.pin = some (utf8 "123456") := by decide +kernel
  obtain ⟨pin, hset, -, haccepts⟩ := (pin_policy_enforced policyChronicle_reachable).2.1
    (List.replicate 16 0) (by decide +kernel) (by decide +kernel)
  obtain rfl : utf8 "123456" = pin := Option.some.inj (hpin.symm.trans hset)
  exact ⟨by decide +kernel, hpin, haccepts⟩

end Bench

end SoftwareAuthenticator.Ctap
