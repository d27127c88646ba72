import SoftwareAuthenticator.Ctap.Parts
import SoftwareAuthenticator.Ctap.Silent
import Mathlib.Data.Set.Insert

/-!
# Guesses at the PIN

An observer of the PIN state in the store: it knows the records a read may find and those a power
loss may leave, and counts the wrong guesses. No record that may be read again, and no live
state, has more retries than there are guesses left.
-/

namespace SoftwareAuthenticator.Ctap

structure Guessing where
  /-- The records a read may find. -/
  visible : Set (Option PinStateRecord)
  /-- The records a power loss may leave. -/
  durable : Set (Option PinStateRecord)
  renewing : Bool
  /-- The wrong guesses since the last right one, new PIN or reset. -/
  mismatches : ℕ
  /-- The wrong guesses since the last right one, new PIN, reset or restart. -/
  streak : ℕ
  /-- A guess was compared after three wrong ones in a row. -/
  late : Bool

namespace Guessing

def blank : Set (Option PinStateRecord) := {none, some .initial}

/-- One of `found` is written. A store in memory is gone after a power loss. -/
def publish (w : Guessing) (found : Set (Option PinStateRecord)) (durability : CommitDurability) :
    Guessing :=
  { w with
    visible := found
    durable := match durability with
      | .flushed => found
      | .volatile => insert none found
      | .unconfirmed => found ∪ w.durable }

def forgive (w : Guessing) : Guessing := { w with mismatches := 0, streak := 0 }

def compare (w : Guessing) (right : Bool) : Guessing :=
  let w := { w with late := w.late || decide (maxConsecutivePinMismatches ≤ w.streak) }
  if right then w.forgive
  else { w with mismatches := w.mismatches + 1, streak := w.streak + 1 }

/-- A write of the PIN state that succeeds; that of a new PIN starts the counts again. -/
def write (w : Guessing) (record : PinStateRecord) (durability : CommitDurability) : Guessing :=
  let written := { w with renewing := false }.publish {some record} durability
  if w.renewing then written.forgive else written

def next (w : Guessing) (e : env.Event) : Guessing :=
  match pinEvent e with
  | some (.read (.ok found)) => { w with renewing := false, visible := {found} }
  | some (.write record (.ok durability)) => w.write record durability
  | some (.reset (.ok durability)) =>
    ({ w with renewing := false }.publish blank durability).forgive
  -- A failed reset may have come as far as the new PIN state.
  | some (.reset (.error _)) =>
    { w with renewing := false, visible := blank ∪ w.visible, durable := blank ∪ w.durable }
  | some (.newPin _) => { w with renewing := true }
  | some (.comparison stored candidate) =>
    { w with renewing := false }.compare (pinMatches stored candidate)
  | _ => { w with renewing := false }

theorem write_mismatches_le (w : Guessing) (record : PinStateRecord)
    (durability : CommitDurability) : (w.write record durability).mismatches ≤ w.mismatches := by
  unfold write
  split
  · exact Nat.zero_le _
  · exact le_rfl

theorem write_streak_le (w : Guessing) (record : PinStateRecord)
    (durability : CommitDurability) : (w.write record durability).streak ≤ w.streak := by
  unfold write
  split
  · exact Nat.zero_le _
  · exact le_rfl

/-- A read finds a visible record, or fails. A store without a record may write that of
a new authenticator by itself. -/
def admits (w : Guessing) : env.Event → Prop
  | ⟨.store .pinState, .ok found⟩ =>
    found ∈ w.visible ∨ (found = some .initial ∧ none ∈ w.visible)
  | _ => True

/-- At most eight wrong guesses, at most three in a row, and none compared after that. -/
structure Bounded (w : Guessing) : Prop where
  mismatches_le : w.mismatches ≤ maxPinRetries
  streak_le : w.streak ≤ maxConsecutivePinMismatches
  not_late : w.late = false

end Guessing

/-- The retries of a record with a PIN fit into what `n` spent guesses leave. -/
def PinStateRecord.Allows (record : PinStateRecord) (n : ℕ) : Prop :=
  record.pinHash.isSome = true → record.pinRetries + n ≤ maxPinRetries

variable {record : PinStateRecord}

theorem PinStateRecord.Allows.mono {n n' : ℕ} (h : record.Allows n) (hn : n' ≤ n) :
    record.Allows n' := by
  intro hset
  have := h hset
  omega

theorem PinStateRecord.allows_initial (n : ℕ) : PinStateRecord.initial.Allows n := by
  intro hset
  cases hset

theorem PinStateRecord.allows_blocked {n : ℕ} (hretries : record.pinRetries = 0)
    (hn : n ≤ maxPinRetries) : record.Allows n := by
  intro _
  omega

theorem PinStateRecord.Allows.congr {record' : PinStateRecord} {n : ℕ} (h : record.Allows n)
    (hhash : record'.pinHash = record.pinHash) (hretries : record'.pinRetries = record.pinRetries) :
    record'.Allows n := by
  intro hset
  rw [hretries]
  exact h (by rwa [hhash] at hset)

def Guessing.Allows (w : Guessing) (n : ℕ) : Prop :=
  ∀ record, some record ∈ w.visible ∪ w.durable → record.Allows n

namespace Guessing.Allows

variable {w : Guessing} {n : ℕ} {found : Set (Option PinStateRecord)}
  {durability : CommitDurability}

theorem mono (h : w.Allows n) {n' : ℕ} (hn : n' ≤ n) : w.Allows n' :=
  fun record hmem => (h record hmem).mono hn

theorem publish_confirmed (hfound : ∀ record, some record ∈ found → record.Allows n)
    (hd : durability ≠ .unconfirmed) : (w.publish found durability).Allows n := by
  intro record hmem
  cases durability with
  | flushed | volatile => exact hfound record (by simpa [Guessing.publish] using hmem)
  | unconfirmed => exact absurd rfl hd

theorem publish (h : w.Allows n) (hfound : ∀ record, some record ∈ found → record.Allows n) :
    (w.publish found durability).Allows n := by
  by_cases hd : durability = .unconfirmed
  · subst hd
    rintro record (hmem | hmem | hmem)
    · exact hfound record hmem
    · exact hfound record hmem
    · exact h record (Or.inr hmem)
  · exact publish_confirmed hfound hd

theorem write_confirmed {record : PinStateRecord} (hrecord : record.Allows n)
    (hd : durability ≠ .unconfirmed) : (w.write record durability).Allows n := by
  have hstore : (({ w with renewing := false } : Guessing).publish {some record}
      durability).Allows n := by
    refine publish_confirmed (fun record' hmem => ?_) hd
    rw [Option.some.inj hmem]
    exact hrecord
  unfold Guessing.write
  split
  · exact hstore
  · exact hstore

end Guessing.Allows

theorem Guessing.allows_blank (n : ℕ) {record : PinStateRecord}
    (hmem : some record ∈ Guessing.blank) : record.Allows n := by
  rcases hmem with hmem | hmem
  · cases hmem
  · rw [Option.some.inj hmem]
    exact PinStateRecord.allows_initial n

/-- The guesses are bounded, and whatever record is found next allows no more than what
is left of them. -/
structure Guessing.Sound (w : Guessing) : Prop where
  store : w.Allows w.mismatches
  bounded : w.Bounded

def Guessing.observer : Observer env Guessing where
  admits := Guessing.admits
  next := Guessing.next
  safe := Guessing.Sound

/-- With the live state `pin`, `spare` more guesses than were made could still be made,
and the retries everywhere account for them. -/
structure Guarded (spare : ℕ) (pin : PinRetryState) (w : Guessing) : Prop where
  store : w.Allows (w.mismatches + spare)
  live : pin.persistent.Allows (w.mismatches + spare)
  bounded : w.Bounded
  streak_le_live : w.streak ≤ pin.consecutiveMismatches

namespace Guarded

variable {spare : ℕ} {pin : PinRetryState} {w : Guessing}

theorem sound (h : Guarded spare pin w) : w.Sound :=
  ⟨h.store.mono (Nat.le_add_right _ _), h.bounded⟩

theorem renewing (h : Guarded spare pin w) (renewing : Bool) :
    Guarded spare pin { w with renewing := renewing } :=
  ⟨h.store, h.live, ⟨h.bounded.1, h.bounded.2, h.bounded.3⟩, h.streak_le_live⟩

theorem adopt (h : Guarded spare pin w) (hrecord : record.Allows (w.mismatches + spare)) :
    Guarded spare { pin with persistent := record } w :=
  ⟨h.store, hrecord, h.bounded, h.streak_le_live⟩

/-- Once the counts start again, only the retries themselves have to be bounded. -/
theorem forgive (hstore : w.Allows 0) (hlive : pin.persistent.Allows 0) (hlate : w.late = false) :
    Guarded 0 pin w.forgive :=
  ⟨hstore, hlive, ⟨Nat.zero_le _, Nat.zero_le _, hlate⟩, Nat.zero_le _⟩

theorem write (h : Guarded 0 pin w) (hrecord : record.Allows w.mismatches)
    (durability : CommitDurability) : Guarded 0 pin (w.write record durability) := by
  have hstore : (({ w with renewing := false } : Guessing).publish {some record}
      durability).Allows w.mismatches := by
    refine Guessing.Allows.publish h.store fun record' hmem => ?_
    rw [Option.some.inj hmem]
    exact hrecord
  unfold Guessing.write
  split
  · exact forgive (hstore.mono (Nat.zero_le _)) (h.live.mono (Nat.zero_le _)) h.bounded.not_late
  · exact ⟨hstore, h.live, ⟨h.bounded.1, h.bounded.2, h.bounded.3⟩, h.streak_le_live⟩

theorem write_renewing (h : Guarded 0 pin w) (hrecord : record.Allows 0)
    (hrenewing : w.renewing = true) (durability : CommitDurability) :
    Guarded 0 pin (w.write record durability) ∧ (w.write record durability).mismatches = 0 ∧
      (w.write record durability).streak = 0 := by
  unfold Guessing.write
  rw [if_pos hrenewing]
  refine ⟨forgive ?_ (h.live.mono (Nat.zero_le _)) h.bounded.not_late, rfl, rfl⟩
  refine Guessing.Allows.publish (h.store.mono (Nat.zero_le _)) fun record' hmem => ?_
  rw [Option.some.inj hmem]
  exact hrecord

theorem read (h : Guarded spare pin w) {found : Option PinStateRecord}
    (hfound : w.admits ⟨.store .pinState, .ok found⟩) :
    Guarded spare pin (w.next ⟨.store .pinState, .ok found⟩) ∧
      ∀ record, found = some record → record.Allows (w.mismatches + spare) := by
  have hrecord : ∀ record, found = some record → record.Allows (w.mismatches + spare) := by
    rintro record rfl
    rcases hfound with hmem | ⟨he, -⟩
    · exact h.store record (Or.inl hmem)
    · rw [Option.some.inj he]
      exact PinStateRecord.allows_initial _
  refine ⟨⟨?_, h.live, ⟨h.bounded.1, h.bounded.2, h.bounded.3⟩, h.streak_le_live⟩, hrecord⟩
  rintro record (hmem | hmem)
  · exact hrecord record hmem.symm
  · exact h.store record (Or.inr hmem)

theorem uncertain (h : Guarded spare pin w) : Guarded spare pin
    { w with
      renewing := false
      visible := Guessing.blank ∪ w.visible
      durable := Guessing.blank ∪ w.durable } := by
  refine ⟨?_, h.live, ⟨h.bounded.1, h.bounded.2, h.bounded.3⟩, h.streak_le_live⟩
  rintro record ((hmem | hmem) | (hmem | hmem))
  · exact Guessing.allows_blank _ hmem
  · exact h.store record (Or.inl hmem)
  · exact Guessing.allows_blank _ hmem
  · exact h.store record (Or.inr hmem)

end Guarded

end SoftwareAuthenticator.Ctap
