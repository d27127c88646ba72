import SoftwareAuthenticator.Ctaphid.Packets
import SoftwareAuthenticator.Machine

/-!
# The seat of the device

The key keeps a device only while each check made for a report finds the record of its seat to be
the one that the device was created under. logind saves another record whenever it likes, also
within a check. What is only logged is left out.
-/

namespace SoftwareAuthenticator.Service

open Ctaphid (Frame)

inductive Active where
  | nobody
  | session (id : String) (uid : UInt32)
  | unknown
  deriving DecidableEq

inductive Record where
  | absent (changes : UInt64)
  | file (dev ino : UInt64)
  deriving DecidableEq

structure Look where
  active : Active
  record : Record

inductive IoError where
  | unplugged
  | other

/-- What the source answers to `changed` and then to `look`, before which logind may have saved
`replaced`. -/
structure Answers where
  changed : Option Bool
  replaced : Option Look
  look : Option Look

structure Seat where
  owner : UInt32
  active : Option Active
  record : Option Record
  under : Option Record
  retired : Bool

namespace Seat

def new (owner : UInt32) : Seat := ⟨owner, none, none, none, false⟩

def allows (owner : UInt32) : Active → Bool
  | .nobody => true
  | .session _ uid => uid = owner
  | .unknown => false

def allowed (seat : Seat) : Bool := seat.active.any (allows seat.owner)

/-- An error counts as a replacement. -/
def changed (answers : Answers) : Bool := answers.changed.getD true

def look (seat : Seat) (answers : Answers) : Seat :=
  { seat with
    active := some (answers.look.elim .unknown Look.active)
    record := answers.look.map Look.record }

def plugged (seat : Seat) : Seat := { seat with under := seat.record, retired := false }

def mustLook (seat : Seat) (answers : Answers) : Bool := !seat.retired && changed answers

def check (seat : Seat) (answers : Answers) : Seat × Except IoError Unit :=
  let seat :=
    if seat.mustLook answers then
      let seat := seat.look answers
      { seat with retired := !seat.allowed || decide (seat.record ≠ seat.under) }
    else seat
  (seat, if seat.retired then .error .unplugged else .ok ())

/-- `SeatDevice::try_read_frame`, where the device has a report, has none, or fails. -/
def tryReadFrame (seat : Seat) (frame : Option (Option Frame)) (answers : Answers) :
    Seat × Except IoError (Option Frame) :=
  match frame with
  | none => (seat, .error .other)
  | some frame => ((seat.check answers).1, (seat.check answers).2.map fun () => frame)

/-- `SeatDevice::write_frame`. -/
def writeFrame (seat : Seat) (written : Bool) (answers : Answers) : Seat × Except IoError Unit :=
  ((seat.check answers).1, (seat.check answers).2.bind fun () =>
    if written then .ok () else .error .other)

end Seat

/-- Where `serve_plugged_with_presence` is: before `wait_for_turn`, in its loop, before a device
is created, and while the transport serves it. -/
inductive Point where
  | turn | waiting | creating | serving | ended

/-- `current` is the record that logind has, and `seen` says that it had it at the last look. -/
structure Daemon where
  seat : Seat
  point : Point
  current : Look
  seen : Bool

/-- `unplug` ends the transport, and `fail` is any other error or a shutdown. -/
inductive Act where
  | save (look : Look)
  | approach (answers : Answers)
  | wait (answers : Answers)
  | create
  | read (frame : Option (Option Frame)) (answers : Answers)
  | write (written : Bool) (answers : Answers)
  | unplug
  | fail

namespace Daemon

open Seat (changed)

def looked (d : Daemon) (looks : Bool) (answers : Answers) (seat : Seat) : Daemon :=
  { d with
    seat := seat
    current := if looks then answers.replaced.getD d.current else d.current
    seen := looks || d.seen }

/-- On to the head of the loop of `wait_for_turn`. -/
def turned (d : Daemon) (looks : Bool) (answers : Answers) : Daemon :=
  let seat := if looks then d.seat.look answers else d.seat
  { d.looked looks answers seat with point := if seat.allowed then .creating else .waiting }

def step (d : Daemon) : Act → Daemon
  | .save look => { d with current := look, seen := false }
  | .approach answers => d.turned (d.seat.active.isNone || changed answers) answers
  | .wait answers => d.turned (changed answers || d.seat.active = some .unknown) answers
  | .create => { d with seat := d.seat.plugged, point := .serving }
  | .read frame answers =>
    d.looked (frame.isSome && d.seat.mustLook answers) answers (d.seat.tryReadFrame frame answers).1
  | .write written answers =>
    d.looked (d.seat.mustLook answers) answers (d.seat.writeFrame written answers).1
  | .unplug => { d with point := .turn }
  | .fail => { d with point := .ended }

/-- The source says that nothing changed only if the record is the one of the last look, and a
look finds the record that is there. -/
def Honest (d : Daemon) (answers : Answers) : Prop :=
  (answers.changed = some false → d.seen = true) ∧
    ∀ look ∈ answers.look, look = answers.replaced.getD d.current

def Enabled (d : Daemon) : Act → Prop
  | .save _ | .fail => True
  | .approach answers => d.point = .turn ∧ d.Honest answers
  | .wait answers => d.point = .waiting ∧ d.Honest answers
  | .create => d.point = .creating
  | .read _ answers | .write _ answers => d.point = .serving ∧ d.Honest answers
  | .unplug => d.point = .serving

/-- A report comes from the device to the transport, or goes from there to the device. -/
def passes (d : Daemon) : Act → Bool
  | .read frame answers => (d.seat.tryReadFrame frame answers).2.toOption.join.isSome
  | .write _ answers => (d.seat.check answers).2.isOk
  | _ => false

end Daemon

def daemon : Machine Daemon Act where
  initial d := d.seat = .new d.seat.owner ∧ d.point = .turn
  enabled := Daemon.Enabled
  step := Daemon.step

namespace Daemon

variable {d : Daemon} {answers : Answers} {act : Act} {owner : UInt32} {under : Option Record}

theorem Honest.look (h : d.Honest answers) (hallowed : (d.seat.look answers).allowed = true) :
    (d.seat.look answers).active = some (answers.replaced.getD d.current).active ∧
      (d.seat.look answers).record = some (answers.replaced.getD d.current).record := by
  unfold Seat.look at hallowed ⊢
  cases hlook : answers.look with
  | none =>
    rw [hlook] at hallowed
    cases hallowed
  | some look =>
    rw [← h.2 look hlook]
    exact ⟨rfl, rfl⟩

/-- If nothing has changed since the last look and it allows a device, it is about the record
that is there. A device that need not go stands under the record of the last look. -/
structure Sound (owner : UInt32) (under : Option Record) (d : Daemon) : Prop where
  owner : d.seat.owner = owner
  under : d.seat.under = under
  knows : d.seen = true → d.seat.allowed = true →
    d.seat.active = some d.current.active ∧ d.seat.record = some d.current.record
  creating : d.point = .creating → d.seat.allowed = true
  serving : d.point = .serving → d.seat.retired = false →
    d.seat.allowed = true ∧ d.seat.record = d.seat.under

theorem Sound.turned (h : d.Sound owner under) (hhonest : d.Honest answers) (looks : Bool) :
    (d.turned looks answers).Sound owner under := by
  refine ⟨?_, ?_, ?_, fun hpoint => ?_, fun hpoint => ?_⟩
  · cases looks <;> exact h.owner
  · cases looks <;> exact h.under
  · cases looks with
    | false => exact h.knows
    | true => exact fun _ => hhonest.look
  · exact of_not_not fun hnot => by cases (if_neg hnot).symm.trans hpoint
  · change (if (d.turned looks answers).seat.allowed then Point.creating else _) = _ at hpoint
    split at hpoint <;> cases hpoint

theorem Sound.check (h : d.Sound owner under) (hhonest : d.Honest answers)
    (hpoint : d.point = .serving) :
    Sound owner under
      (d.looked (d.seat.mustLook answers) answers (d.seat.check answers).1) := by
  unfold looked Seat.check
  cases d.seat.mustLook answers with
  | false => exact h
  | true =>
    refine ⟨h.owner, h.under, fun _ => hhonest.look, fun hcreating => ?_, fun _ hretired => ?_⟩
    · cases hpoint.symm.trans hcreating
    · obtain ⟨hallowed, hunder⟩ : _ ∧ _ := by simpa using hretired
      exact ⟨hallowed, hunder⟩

theorem sound_step (h : d.Sound owner under) (hact : d.Enabled act) (hnew : act ≠ .create) :
    (d.step act).Sound owner under := by
  cases act with
  | save look => exact ⟨h.owner, h.under, by simp [step], h.creating, h.serving⟩
  | approach answers | wait answers => exact h.turned hact.2 _
  | create => exact absurd rfl hnew
  | read frame answers =>
    cases frame with
    | none => exact h
    | some frame => exact h.check hact.2 hact.1
  | write written answers => exact h.check hact.2 hact.1
  | unplug | fail => exact ⟨h.owner, h.under, h.knows, by simp [step], by simp [step]⟩

/-- A device is created under the record of the last look. -/
theorem Sound.create (h : d.Sound owner under) (hpoint : d.point = .creating) :
    (d.step .create).Sound owner d.seat.record :=
  ⟨h.owner, rfl, h.knows, by simp [step], fun _ _ => ⟨h.creating hpoint, rfl⟩⟩

theorem sound_run {acts : List Act} (h : d.Sound owner under) (hrun : daemon.Executes d acts)
    (hnew : .create ∉ acts) : (daemon.run d acts).Sound owner under := by
  induction acts generalizing d with
  | nil => exact h
  | cons act acts ih =>
    obtain ⟨hact, hnew⟩ := not_or.mp (mt List.mem_cons.mpr hnew)
    exact ih (sound_step h hrun.1 (Ne.symm hact)) hrun.2 hnew

theorem sound_reachable (h : daemon.Reachable d) : ∃ owner under, d.Sound owner under := by
  refine Machine.invariant_reachable (I := fun d => ∃ owner under, d.Sound owner under) ?_ ?_ h
  · intro d hd
    refine ⟨_, _, rfl, rfl, fun _ hallowed => ?_, fun hpoint => ?_, fun hpoint => ?_⟩
    · rw [hd.1] at hallowed
      cases hallowed
    · cases hd.2.symm.trans hpoint
    · cases hd.2.symm.trans hpoint
  · rintro d act ⟨owner, under, h⟩ hact
    by_cases hnew : act = .create
    · subst hnew
      exact ⟨owner, _, h.create hact⟩
    · exact ⟨owner, under, sound_step h hact hnew⟩

/-- A check that lets a report pass has found the record that is there, or knew it. -/
theorem Honest.check (h : d.Honest answers) (hok : (d.seat.check answers).2.isOk = true) :
    (d.seat.check answers).1.retired = false ∧ (d.seat.mustLook answers || d.seen) = true := by
  have hretired : (d.seat.check answers).1.retired = false := by
    change Except.isOk (if (d.seat.check answers).1.retired then _ else _) = true at hok
    cases hretired : (d.seat.check answers).1.retired with
    | false => rfl
    | true =>
      rw [hretired] at hok
      cases hok
  refine ⟨hretired, ?_⟩
  cases hlook : d.seat.mustLook answers with
  | true => rfl
  | false =>
    have hretired : d.seat.retired = false := by simpa [Seat.check, hlook] using hretired
    have hchanged : Seat.changed answers = false := by simpa [Seat.mustLook, hretired] using hlook
    exact h.1 ((Option.getD_eq_iff.mp hchanged).resolve_right (by simp))

theorem checked_of_passes (hact : d.Enabled act) (h : d.passes act = true) :
    act ≠ .create ∧ (d.step act).point = .serving ∧ (d.step act).seat.retired = false ∧
      (d.step act).seen = true := by
  cases act with
  | read frame answers =>
    cases frame with
    | none => cases h
    | some frame =>
      refine ⟨by simp, hact.1, hact.2.check ?_⟩
      cases hcheck : (d.seat.check answers).2 with
      | ok u => rfl
      | error err => simp [passes, Seat.tryReadFrame, hcheck, Except.map, Except.toOption] at h
  | write written answers => exact ⟨by simp, hact.1, hact.2.check h⟩
  | _ => cases h

/-- At the check made for a report that passes to or from a device, the record of the seat is
the one that the last look before the creation of the device read, and names the owner or nobody
as active. -/
theorem serves_under_own_record {since : List Act} (hd : daemon.Reachable d)
    (h : daemon.Executes d (.create :: since ++ [act])) (hsince : .create ∉ since)
    (hpasses : (daemon.run d (.create :: since)).passes act = true) :
    let now := (daemon.run d (.create :: since ++ [act])).current
    d.seat.record = some now.record ∧ Seat.allows d.seat.owner now.active = true := by
  obtain ⟨owner, under, hd⟩ := sound_reachable hd
  obtain ⟨hrun, hact, -⟩ := (daemon.along_append _ _ _ _).mp h
  obtain ⟨hnew, hpoint, hretired, hseen⟩ := checked_of_passes hact hpasses
  rw [daemon.run_append]
  have hserved := sound_run (hd.create hrun.1) hrun.2 hsince
  have hnow := sound_step hserved hact hnew
  obtain ⟨hallowed, hrecord⟩ := hnow.serving hpoint hretired
  obtain ⟨hactive, hcurrent⟩ := hnow.knows hseen hallowed
  refine ⟨(hnow.under.symm.trans hrecord.symm).trans hcurrent, ?_⟩
  rw [Seat.allowed, hactive, hnow.owner] at hallowed
  exact hd.owner ▸ hallowed

end Daemon

theorem serves_under_own_record_again :
    let yours : Look := ⟨.session "2" 1000, .file 1 7⟩
    let theirs : Look := ⟨.session "3" 1001, .file 1 8⟩
    let again : Look := ⟨.session "2" 1000, .file 1 9⟩
    let start : Daemon := ⟨.new 1000, .turn, yours, false⟩
    let first : List Act := [.approach ⟨none, none, some yours⟩, .create, .save theirs,
      .write true ⟨some true, none, some theirs⟩]
    let second : List Act := [.unplug, .approach ⟨some false, none, none⟩, .save again,
      .wait ⟨some true, none, some again⟩]
    let d := daemon.run start (first ++ second)
    let since : List Act := [.read (some none) ⟨none, none, some again⟩]
    let write : Act := .write true ⟨some false, none, none⟩
    (daemon.run start first).seat.retired = true ∧
      d.seat.record = some (daemon.run d (.create :: since ++ [write])).current.record := by
  intro yours theirs again start first second d since write
  have hsame {d : Daemon} (h : d.seen = true) : d.Honest ⟨some false, none, none⟩ :=
    ⟨fun _ => h, by simp⟩
  have hlook {d : Daemon} {changed : Option Bool} (h : changed ≠ some false) :
      d.Honest ⟨changed, none, some d.current⟩ := ⟨fun heq => absurd heq h, by simp⟩
  have hd : daemon.Reachable d := ⟨start, first ++ second, ⟨rfl, rfl⟩,
    ⟨⟨rfl, hlook nofun⟩, rfl, trivial, ⟨rfl, hlook nofun⟩, rfl, ⟨rfl, hsame rfl⟩, trivial,
      ⟨rfl, hlook nofun⟩, trivial⟩, rfl⟩
  have hrun : daemon.Executes d (.create :: since ++ [write]) :=
    ⟨rfl, ⟨rfl, hlook nofun⟩, ⟨rfl, hsame rfl⟩, trivial⟩
  exact ⟨rfl, (Daemon.serves_under_own_record hd hrun (by simp [since]) rfl).1⟩

end SoftwareAuthenticator.Service
