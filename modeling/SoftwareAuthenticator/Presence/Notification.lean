import SoftwareAuthenticator.Presence.Prompt

/-!
# Asking the user with a notification

The program asks the notification server, the clock, the platform's cancellation and the record
file one after the other; any answer is possible. The loop that waits for the user is modelled
with a number of rounds, after which it may still be waiting.
-/

namespace SoftwareAuthenticator.Presence

open Ctap (PresenceRequest PresenceOutcome Duration seconds)

inductive NotificationEvent where
  | actionInvoked (id : UInt32) (key : String)
  | closed (id : UInt32) (expired : Bool)
  deriving DecidableEq, Repr

structure ServerInfo where
  supportsActions : Bool
  supportsBody : Bool
  bodyMarkup : Bool
  /-- The scope and the instance of the server. -/
  identity : Option (String × String)
  refreshInterval : Option Duration
  deriving DecidableEq, Repr

/-- What came of `fs::remove_file`. -/
inductive Removal where
  | removed
  | notFound
  | failed
  deriving DecidableEq, Repr

inductive ScreenOp where
  | now
  | isCancelled
  | connect
  | notify (notification : Notification)
  | nextEvent (wait : Duration)
  | close (id : UInt32)
  | nudge
  | disconnect
  | readRecord
  | writeRecord (text : String)
  | removeRecord

/-- The answers; the reasons of failures are only logged. -/
abbrev ScreenOp.Res : ScreenOp → Type
  | .now => Duration
  | .isCancelled => Bool
  | .connect => Option ServerInfo
  | .notify _ => Option UInt32
  | .nextEvent _ => Option (Option NotificationEvent)
  | .close _ => Bool
  | .nudge => Option UInt32
  | .disconnect => Unit
  | .readRecord => Option String
  | .writeRecord _ => Bool
  | .removeRecord => Removal

abbrev screen : Interface := ⟨ScreenOp, ScreenOp.Res⟩

abbrev query (op : ScreenOp) : Prog screen op.Res := Prog.ask (I := screen) op

def chomp (line : List Char) : List Char :=
  if line.getLast? = some '\r' then line.dropLast else line

/-- `str::lines`, with what is already read of the first line. -/
def linesFrom (line : List Char) : List Char → List (List Char)
  | [] => if line = [] then [] else [line]
  | c :: text => if c = '\n' then chomp line :: linesFrom [] text else linesFrom (line ++ [c]) text

/-- `str::parse::<u32>`. -/
def parseU32 (text : List Char) : Option UInt32 :=
  let digits := if text.head? = some '+' then text.tail else text
  let number := Nat.ofDigitChars 10 digits 0
  if digits ≠ [] ∧ digits.all Char.isDigit ∧ number < 2 ^ 32 then some (.ofNat number) else none

/-- The recorded ID, if the record is of this server. -/
def staleId (info : ServerInfo) (recorded : String) : Option UInt32 :=
  match linesFrom [] recorded.toList with
  | scope :: inst :: id :: _ =>
    if info.identity = some (.ofList scope, .ofList inst) then parseU32 id else none
  | _ => none

def recordText (scope inst : String) (id : UInt32) : String :=
  scope ++ "\n" ++ inst ++ "\n" ++ toString id.toNat ++ "\n"

structure NotificationPresence where
  nudgeInterval : Option Duration
  /-- Whether prompts are recorded in a file. -/
  record : Bool

namespace NotificationPresence

variable (presence : NotificationPresence)

def forgetPrompt : Prog screen Unit := do
  if presence.record then let _ ← query .removeRecord

def closeStalePrompt (info : ServerInfo) : Prog screen Unit := do
  if presence.record then
    match ← query .readRecord with
    | none => return
    | some recorded =>
      if let some id := staleId info recorded then let _ ← query (.close id)
      presence.forgetPrompt

def recordPrompt (info : ServerInfo) (id : UInt32) : Prog screen Unit := do
  if presence.record then
    if let some (scope, inst) := info.identity then
      let _ ← query (.writeRecord (recordText scope inst id))

end NotificationPresence

def approveAction : String := "approve"

def cancellationPoll : Duration := 20000000

/-- How the loop is left. -/
inductive Exit where
  /-- The prompt is still to be withdrawn. -/
  | breaks (outcome : PresenceOutcome)
  | returns (outcome : PresenceOutcome)

def exitFor (id : UInt32) : Option NotificationEvent → Option Exit
  | some (.actionInvoked eventId key) =>
    if eventId = id then some (.breaks (if key = approveAction then .approved else .denied))
    else none
  | some (.closed eventId expired) =>
    if eventId = id then some (.returns (if expired then .timedOut else .denied)) else none
  | none => none

/-- The time, whether the prompt is to be refreshed, and when next. -/
def nudgeIfDue (interval now : Duration) (nudging : Bool) (nextNudge : Duration) :
    Prog screen (Duration × Bool × Duration) := do
  if nudging ∧ nextNudge ≤ now then
    let nudged ← query .nudge
    let now ← query .now
    return (now, nudged.isSome, now + interval)
  return (now, nudging, nextNudge)

def waitFor (deadline now : Duration) (nudging : Bool) (nextNudge : Duration) : Duration :=
  let wait := min cancellationPoll (deadline - now)
  if nudging then min wait (nextNudge - now) else wait

/-- At most `rounds` rounds of the loop of `ask`; `none` if it goes on. -/
def waitForAnswer (deadline interval : Duration) (id : UInt32) :
    ℕ → Bool → Duration → Prog screen (Option Exit)
  | 0, _, _ => return none
  | rounds + 1, nudging, nextNudge => do
    if ← query .isCancelled then return some (.breaks .cancelled)
    let now ← query .now
    if deadline ≤ now then return some (.breaks .timedOut)
    let (now, nudging, nextNudge) ← nudgeIfDue interval now nudging nextNudge
    match ← query (.nextEvent (waitFor deadline now nudging nextNudge)) with
    | none => return some (.breaks .denied)
    | some event =>
      match exitFor id event with
      | some exit => return some exit
      | none => waitForAnswer deadline interval id rounds nudging nextNudge

namespace NotificationPresence

variable (presence : NotificationPresence)

def ask (request : PresenceRequest) (rounds : ℕ) : Prog screen (Option PresenceOutcome) := do
  let started ← query .now
  match ← query .connect with
  | none => return some .denied
  | some info =>
    presence.closeStalePrompt info
    if !info.supportsActions then return some .denied
    if !info.supportsBody then return some .denied
    if ← query .isCancelled then return some .cancelled
    match ← query (.notify (notificationFor request info.bodyMarkup)) with
    | none => return some .denied
    | some id =>
      presence.recordPrompt info id
      let interval := info.refreshInterval.map (presence.nudgeInterval.getD ·)
      let now ← query .now
      match ← waitForAnswer (started + request.timeout) (interval.getD 0) id rounds
          interval.isSome (now + interval.getD 0) with
      | none => return none
      | some (.returns outcome) => return some outcome
      | some (.breaks outcome) =>
        let _ ← query (.close id)
        return some outcome

/-- The outcome of a request, unless the loop goes on. -/
def confirm (request : PresenceRequest) (rounds : ℕ) : Prog screen (Option PresenceOutcome) := do
  match ← presence.ask request rounds with
  | none => return none
  | some outcome =>
    presence.forgetPrompt
    let _ ← query .disconnect
    return some outcome

end NotificationPresence

abbrev Trace := List screen.Event

/-- What the server is told about prompts. -/
inductive Act where
  | shows (id : Option UInt32)
  | closes (id : UInt32)
  | disconnects

def act : screen.Event → Option Act
  | ⟨.notify _, id⟩ => some (.shows id)
  | ⟨.close id, _⟩ => some (.closes id)
  | ⟨.disconnect, _⟩ => some .disconnects
  | _ => none

def acts (trace : Trace) : List Act := trace.filterMap act

def readings (trace : Trace) : List Duration :=
  trace.filterMap fun
    | ⟨.now, time⟩ => some time
    | _ => none

/-- The record file after an event. -/
def fileAfter (file : Option String) : screen.Event → Option String
  | ⟨.writeRecord text, true⟩ => some text
  | ⟨.removeRecord, removal⟩ => if removal = .failed then file else none
  | _ => file

theorem acts_append (tr tr' : Trace) : acts (tr ++ tr') = acts tr ++ acts tr' :=
  List.filterMap_append

theorem readings_append (tr tr' : Trace) : readings (tr ++ tr') = readings tr ++ readings tr' :=
  List.filterMap_append

/-- A round up to its `next_event`. -/
inductive Polls (deadline : Duration) : Trace → Prop
  | plain (time : Duration) (h : time < deadline) :
      Polls deadline [⟨.isCancelled, false⟩, ⟨.now, time⟩]
  | nudged (time : Duration) (h : time < deadline) (nudged : Option UInt32) (later : Duration) :
      Polls deadline [⟨.isCancelled, false⟩, ⟨.now, time⟩, ⟨.nudge, nudged⟩, ⟨.now, later⟩]

/-- What at most so many rounds see, and how the loop is left. -/
inductive Waits (deadline : Duration) (id : UInt32) : ℕ → Trace → Option Exit → Prop
  | goesOn : Waits deadline id 0 [] none
  | cancelled (rounds : ℕ) :
      Waits deadline id (rounds + 1) [⟨.isCancelled, true⟩] (some (.breaks .cancelled))
  | timedOut (rounds : ℕ) {time : Duration} (h : deadline ≤ time) :
      Waits deadline id (rounds + 1) [⟨.isCancelled, false⟩, ⟨.now, time⟩]
        (some (.breaks .timedOut))
  | failed (rounds : ℕ) {round : Trace} (h : Polls deadline round) (wait : Duration) :
      Waits deadline id (rounds + 1) (round ++ [⟨.nextEvent wait, none⟩]) (some (.breaks .denied))
  | ends (rounds : ℕ) {round : Trace} (h : Polls deadline round) (wait : Duration)
      {event : Option NotificationEvent} {exit : Exit} (hexit : exitFor id event = some exit) :
      Waits deadline id (rounds + 1) (round ++ [⟨.nextEvent wait, some event⟩]) (some exit)
  | next {rounds : ℕ} {round rest : Trace} {exit : Option Exit} (h : Polls deadline round)
      (wait : Duration) {event : Option NotificationEvent} (hevent : exitFor id event = none)
      (hrest : Waits deadline id rounds rest exit) :
      Waits deadline id (rounds + 1) (round ++ ⟨.nextEvent wait, some event⟩ :: rest) exit

section

variable {deadline interval nextNudge : Duration} {id : UInt32} {rounds : ℕ} {nudging : Bool}
  {trace : Trace} {exit : Option Exit}

theorem polls_of_yields {time : Duration} {result : Duration × Bool × Duration}
    (htime : time < deadline)
    (h : (nudgeIfDue interval time nudging nextNudge).Yields trace result) :
    Polls deadline (⟨.isCancelled, false⟩ :: ⟨.now, time⟩ :: trace) := by
  unfold nudgeIfDue at h
  split at h
  · obtain ⟨nudged, _, rfl, hnow⟩ := Prog.yields_ask_bind.mp h
    obtain ⟨later, _, rfl, rfl, -⟩ := Prog.yields_ask_bind.mp hnow
    exact .nudged time htime nudged later
  · obtain ⟨rfl, -⟩ := h
    exact .plain time htime

theorem waits_of_yields
    (h : (waitForAnswer deadline interval id rounds nudging nextNudge).Yields trace exit) :
    Waits deadline id rounds trace exit := by
  induction rounds generalizing trace nudging nextNudge with
  | zero =>
    obtain ⟨rfl, rfl⟩ := h
    exact .goesOn
  | succ rounds ih =>
    obtain ⟨cancelled, _, rfl, h₁⟩ := Prog.yields_ask_bind.mp h
    split at h₁
    · obtain ⟨rfl, rfl⟩ := h₁
      obtain rfl : cancelled = true := ‹_›
      exact .cancelled rounds
    obtain rfl : cancelled = false := Bool.eq_false_iff.mpr ‹_›
    obtain ⟨time, _, rfl, h₂⟩ := Prog.yields_ask_bind.mp h₁
    split at h₂
    · obtain ⟨rfl, rfl⟩ := h₂
      exact .timedOut rounds ‹_›
    obtain ⟨_, _, _, rfl, hnudge, h₃⟩ := Prog.yields_bind.mp h₂
    have hround := polls_of_yields (not_le.mp ‹_›) hnudge
    obtain ⟨answer, _, rfl, h₄⟩ := Prog.yields_ask_bind.mp h₃
    rw [← List.cons_append, ← List.cons_append]
    cases answer with
    | none =>
      obtain ⟨rfl, rfl⟩ := h₄
      exact .failed rounds hround _
    | some event =>
      dsimp only at h₄
      split at h₄
      · obtain ⟨rfl, rfl⟩ := h₄
        exact .ends rounds hround _ ‹_›
      · exact .next hround _ ‹_› (ih h₄)

theorem Polls.acts {round : Trace} (h : Polls deadline round) : acts round = [] := by
  cases h <;> rfl

theorem Polls.not_cancelled {round : Trace} (h : Polls deadline round) :
    ⟨.isCancelled, true⟩ ∉ round := by
  cases h <;> simp

theorem Waits.acts (h : Waits deadline id rounds trace exit) : acts trace = [] := by
  induction h with
  | goesOn | cancelled | timedOut => rfl
  | failed rounds h wait | ends rounds h wait =>
    rw [acts_append, h.acts]
    rfl
  | next h wait _ _ ih =>
    rw [acts_append, h.acts]
    exact ih

/-- As long as the loop goes on, every round reads a time before the deadline. -/
theorem Waits.rounds_le (h : Waits deadline id rounds trace none) :
    rounds ≤ (readings trace).countP (· < deadline) ∧ ⟨.isCancelled, true⟩ ∉ trace := by
  generalize hexit : none = exit at h
  induction h with
  | goesOn => exact ⟨Nat.zero_le _, nofun⟩
  | cancelled | timedOut | failed | ends => cases hexit
  | @next rounds round rest exit h wait event _ _ ih =>
    obtain ⟨hle, hmem⟩ := ih hexit
    have hone : 1 ≤ (readings round).countP (· < deadline) := by
      cases h with
      | plain time htime => simp [readings, htime]
      | nudged time htime => simp [readings, List.countP_cons, htime]
    have hrest : readings (⟨.nextEvent wait, some event⟩ :: rest) = readings rest := rfl
    refine ⟨?_, by simp [h.not_cancelled, hmem]⟩
    rw [readings_append, hrest, List.countP_append]
    omega

/-- The loop approves only by an approve action of the prompt, in a round that began in time. -/
theorem Waits.approved (h : Waits deadline id rounds trace (some (.breaks .approved))) :
    ∃ past round wait, Polls deadline round ∧ ⟨.isCancelled, true⟩ ∉ past ∧
      trace = past ++ round ++
        [⟨.nextEvent wait, some (some (.actionInvoked id approveAction))⟩] := by
  generalize hexit : some (Exit.breaks .approved) = exit at h
  induction h with
  | goesOn | cancelled | timedOut | failed => cases hexit
  | @ends _ round h wait event _ hevent =>
    obtain rfl := Option.some.inj hexit
    have happrove : event = some (.actionInvoked id approveAction) := by
      unfold exitFor at hevent
      split at hevent <;> grind
    rw [happrove]
    exact ⟨[], _, wait, h, nofun, rfl⟩
  | @next rounds round rest exit h wait event _ _ ih =>
    obtain ⟨past, last, wait', hlast, hpast, rfl⟩ := ih hexit
    refine ⟨round ++ ⟨.nextEvent wait, some event⟩ :: past, last, wait', hlast, ?_, by simp⟩
    simp [h.not_cancelled, hpast]

theorem Waits.returns {outcome : PresenceOutcome}
    (h : Waits deadline id rounds trace (some (.returns outcome))) :
    outcome ≠ .approved ∧
      ∃ wait expired, ⟨.nextEvent wait, some (some (.closed id expired))⟩ ∈ trace := by
  generalize hexit : some (Exit.returns outcome) = exit at h
  induction h with
  | goesOn | cancelled | timedOut | failed => cases hexit
  | ends rounds h wait hevent =>
    obtain rfl := Option.some.inj hexit
    unfold exitFor at hevent
    split at hevent <;> grind
  | next h wait _ _ ih =>
    obtain ⟨hne, wait', expired, hmem⟩ := ih hexit
    exact ⟨hne, wait', expired, by simp [hmem]⟩

end

/-- Texts without line breaks. -/
def Unbroken (text : String) : Prop := '\n' ∉ text.toList ∧ '\r' ∉ text.toList

/-- The file holds the scope and the instance of a server and an ID, one on each line. -/
def Records (recorded scope inst : String) (id : UInt32) : Prop :=
  ∃ number rest, linesFrom [] recorded.toList = scope.toList :: inst.toList :: number :: rest ∧
    parseU32 number = some id

theorem records_of_staleId {info : ServerInfo} {recorded : String} {id : UInt32}
    (h : staleId info recorded = some id) :
    ∃ scope inst, info.identity = some (scope, inst) ∧ Records recorded scope inst id := by
  unfold staleId at h
  split at h
  · rename_i scope inst number rest hlines
    split_ifs at h with hidentity
    exact ⟨_, _, hidentity, number, rest, by simpa using hlines, h⟩
  · cases h

theorem linesFrom_append {line text rest : List Char} (h : '\n' ∉ text) :
    linesFrom line (text ++ '\n' :: rest) = chomp (line ++ text) :: linesFrom [] rest := by
  induction text generalizing line with
  | nil => simp [linesFrom]
  | cons c text ih =>
    rw [List.mem_cons, not_or] at h
    rw [List.cons_append, linesFrom, if_neg (Ne.symm h.1), ih h.2, List.append_assoc,
      List.singleton_append]

theorem chomp_eq {line : List Char} (h : '\r' ∉ line) : chomp line = line :=
  if_neg fun hlast => h (List.mem_of_getLast? hlast)

theorem parseU32_toDigits (id : UInt32) : parseU32 (Nat.toDigits 10 id.toNat) = some id := by
  have hdigits : ∀ c ∈ Nat.toDigits 10 id.toNat, c.isDigit = true := fun c hc =>
    Nat.isDigit_of_mem_toDigits (by decide) (by decide) hc
  have hhead : (Nat.toDigits 10 id.toNat).head? ≠ some '+' := fun hhead =>
    absurd (hdigits '+' (List.mem_of_head? hhead)) (by decide)
  have hall : (Nat.toDigits 10 id.toNat).all Char.isDigit = true := List.all_eq_true.mpr hdigits
  simp only [parseU32, if_neg hhead, Nat.ofDigitChars_ten_toDigits, hall]
  rw [if_pos ⟨Nat.toDigits_ne_nil, trivial, id.toNat_lt⟩, UInt32.ofNat_toNat]

theorem records_recordText {scope inst scope' inst' : String} {id id' : UInt32}
    (hscope : Unbroken scope') (hinst : Unbroken inst')
    (h : Records (recordText scope' inst' id') scope inst id) :
    scope = scope' ∧ inst = inst' ∧ id = id' := by
  obtain ⟨number, rest, hlines, hnumber⟩ := h
  have hdigit : ∀ c ∈ Nat.toDigits 10 id'.toNat, c.isDigit = true := fun c hc =>
    Nat.isDigit_of_mem_toDigits (by decide) (by decide) hc
  have htext : (recordText scope' inst' id').toList = scope'.toList ++ '\n' ::
      (inst'.toList ++ '\n' :: (Nat.toDigits 10 id'.toNat ++ '\n' :: [])) := by
    simp [recordText, Nat.toString_eq_repr]
  have hbreak : '\n' ∉ Nat.toDigits 10 id'.toNat := fun hmem => absurd (hdigit _ hmem) (by decide)
  have hreturn : '\r' ∉ Nat.toDigits 10 id'.toNat := fun hmem => absurd (hdigit _ hmem) (by decide)
  rw [htext, linesFrom_append hscope.1, linesFrom_append hinst.1, linesFrom_append hbreak,
    List.nil_append, List.nil_append, List.nil_append, chomp_eq hscope.2, chomp_eq hinst.2,
    chomp_eq hreturn] at hlines
  obtain ⟨h₁, h₂, h₃, -⟩ : _ ∧ _ ∧ _ ∧ _ := by simpa using hlines
  rw [← h₃, parseU32_toDigits] at hnumber
  exact ⟨String.ext h₁.symm, String.ext h₂.symm, (Option.some.inj hnumber).symm⟩

/-- Before anything is shown, at most a prompt is closed that this server has on record. -/
def Opening (trace : Trace) (opening : List Act) : Prop :=
  opening = [] ∨ ∃ id info scope inst recorded, opening = [.closes id] ∧
    ⟨.connect, some info⟩ ∈ trace ∧ ⟨.readRecord, some recorded⟩ ∈ trace ∧
    info.identity = some (scope, inst) ∧ Records recorded scope inst id

theorem Opening.mono {before trace : Trace} {opening : List Act} (h : Opening before opening)
    (hsub : ∀ e ∈ before, e ∈ trace) : Opening trace opening := by
  rcases h with hnone | ⟨id, info, scope, inst, recorded, hclose, hinfo, hread, hid⟩
  · exact .inl hnone
  · exact .inr ⟨id, info, scope, inst, recorded, hclose, hsub _ hinfo, hsub _ hread, hid⟩

/-- What is done after the loop, and what the request comes to. -/
inductive Leaves (id : UInt32) : Option Exit → Trace → Option PresenceOutcome → Prop
  | waits : Leaves id none [] none
  | gone (outcome : PresenceOutcome) : Leaves id (some (.returns outcome)) [] (some outcome)
  | answered (outcome : PresenceOutcome) (closed : Bool) :
      Leaves id (some (.breaks outcome)) [⟨.close id, closed⟩] (some outcome)

inductive Asks (deadline : Duration) (rounds : ℕ) : Trace → Option PresenceOutcome → Prop
  | refused {before : Trace} {outcome : PresenceOutcome} (h : Opening before (acts before))
      (houtcome : outcome ≠ .approved) : Asks deadline rounds before (some outcome)
  | unshown {before : Trace} (h : Opening before (acts before)) (notification : Notification) :
      Asks deadline rounds (before ++ [⟨.notify notification, none⟩]) (some .denied)
  | shown {before recorded loop closing : Trace} {id : UInt32} {exit : Option Exit}
      {result : Option PresenceOutcome} (h : Opening before (acts before))
      (notification : Notification) (hrecorded : acts recorded = [])
      (hcancelled : ⟨.isCancelled, true⟩ ∉ before ++ recorded)
      (hloop : Waits deadline id rounds loop exit) (hclosing : Leaves id exit closing result) :
      Asks deadline rounds
        (before ++ ⟨.notify notification, some id⟩ :: (recorded ++ loop ++ closing)) result

namespace NotificationPresence

variable {presence : NotificationPresence} {info : ServerInfo} {trace : Trace}
  {request : PresenceRequest} {rounds : ℕ} {result : Option PresenceOutcome}

/-- The events of `forget_prompt`. -/
def forgets (presence : NotificationPresence) (removal : Removal) : Trace :=
  if presence.record then [⟨.removeRecord, removal⟩] else []

theorem acts_forgets (removal : Removal) : acts (presence.forgets removal) = [] := by
  unfold forgets
  split <;> rfl

theorem forgetPrompt_cases (h : presence.forgetPrompt.Yields trace ()) :
    ∃ removal, trace = presence.forgets removal := by
  unfold forgetPrompt at h
  unfold forgets
  split_ifs at h ⊢
  · obtain ⟨removal, _, rfl, rfl, -⟩ := Prog.yields_ask_bind.mp h
    exact ⟨removal, rfl⟩
  · exact ⟨.removed, h.1⟩

theorem closeStalePrompt_opening (started : Duration)
    (h : (presence.closeStalePrompt info).Yields trace ()) :
    Opening (⟨.now, started⟩ :: ⟨.connect, some info⟩ :: trace) (acts trace) ∧
      ⟨.isCancelled, true⟩ ∉ trace := by
  have hforgets (removal : Removal) : ⟨.isCancelled, true⟩ ∉ presence.forgets removal := by
    unfold forgets
    split <;> simp
  unfold closeStalePrompt at h
  split at h
  · obtain ⟨recorded, _, rfl, h₁⟩ := Prog.yields_ask_bind.mp h
    cases recorded with
    | none =>
      obtain ⟨rfl, -⟩ := h₁
      exact ⟨.inl rfl, by simp⟩
    | some recorded =>
      dsimp only at h₁
      split at h₁
      · rename_i id hid
        obtain ⟨closed, _, rfl, h₂⟩ := Prog.yields_ask_bind.mp h₁
        obtain ⟨removal, rfl⟩ := forgetPrompt_cases h₂
        obtain ⟨scope, inst, hidentity, hrecords⟩ := records_of_staleId hid
        refine ⟨.inr ⟨id, info, scope, inst, recorded, ?_, by simp, by simp, hidentity, hrecords⟩,
          by simp [hforgets]⟩
        exact congrArg (Act.closes id :: ·) (acts_forgets removal)
      · obtain ⟨removal, rfl⟩ := forgetPrompt_cases h₁
        exact ⟨.inl (acts_forgets removal), by simp [hforgets]⟩
  · obtain ⟨rfl, -⟩ := h
    exact ⟨.inl rfl, nofun⟩

theorem acts_recordPrompt {id : UInt32} (h : (presence.recordPrompt info id).Yields trace ()) :
    acts trace = [] ∧ ⟨.isCancelled, true⟩ ∉ trace := by
  unfold recordPrompt at h
  split at h
  · split at h
    · obtain ⟨written, _, rfl, rfl, -⟩ := Prog.yields_ask_bind.mp h
      exact ⟨rfl, by simp⟩
    · obtain ⟨rfl, -⟩ := h
      exact ⟨rfl, nofun⟩
  · obtain ⟨rfl, -⟩ := h
    exact ⟨rfl, nofun⟩

theorem asks_of_yields (h : (presence.ask request rounds).Yields trace result) :
    ∃ started rest, trace = ⟨.now, started⟩ :: rest ∧
      Asks (started + request.timeout) rounds trace result := by
  obtain ⟨started, _, rfl, h₁⟩ := Prog.yields_ask_bind.mp h
  refine ⟨started, _, rfl, ?_⟩
  obtain ⟨answer, _, rfl, h₂⟩ := Prog.yields_ask_bind.mp h₁
  cases answer with
  | none =>
    obtain ⟨rfl, rfl⟩ := h₂
    exact .refused (.inl rfl) (by decide)
  | some info =>
  obtain ⟨stale, _, _, rfl, hstale, h₃⟩ := Prog.yields_bind.mp h₂
  obtain ⟨hopen, hnot⟩ := closeStalePrompt_opening started hstale
  split at h₃
  · obtain ⟨rfl, rfl⟩ := h₃
    rw [List.append_nil]
    exact .refused hopen (by decide)
  split at h₃
  · obtain ⟨rfl, rfl⟩ := h₃
    rw [List.append_nil]
    exact .refused hopen (by decide)
  obtain ⟨cancelled, _, rfl, h₄⟩ := Prog.yields_ask_bind.mp h₃
  have hasked : Opening (⟨.now, started⟩ :: ⟨.connect, some info⟩ :: stale ++
      [⟨.isCancelled, cancelled⟩]) (acts (stale ++ [⟨.isCancelled, cancelled⟩])) := by
    rw [acts_append]
    exact (List.append_nil (acts stale)).symm ▸ hopen.mono fun e he => List.mem_append_left _ he
  split at h₄
  · obtain ⟨rfl, rfl⟩ := h₄
    exact .refused hasked (by decide)
  obtain ⟨shown, _, rfl, h₅⟩ := Prog.yields_ask_bind.mp h₄
  rw [List.append_cons, ← List.cons_append, ← List.cons_append]
  cases shown with
  | none =>
    obtain ⟨rfl, rfl⟩ := h₅
    exact .unshown hasked _
  | some id =>
  obtain ⟨recorded, _, _, rfl, hrecorded, h₆⟩ := Prog.yields_bind.mp h₅
  obtain ⟨time, _, rfl, h₇⟩ := Prog.yields_ask_bind.mp h₆
  obtain ⟨loop, ending, exit, rfl, hloop, h₈⟩ := Prog.yields_bind.mp h₇
  obtain ⟨hrecorded, hnot'⟩ := acts_recordPrompt hrecorded
  have hclosing : Leaves id exit ending result := by
    rcases exit with _ | outcome | outcome
    · obtain ⟨rfl, rfl⟩ := h₈
      exact .waits
    · obtain ⟨closed, _, rfl, rfl, rfl⟩ := Prog.yields_ask_bind.mp h₈
      exact .answered outcome closed
    · obtain ⟨rfl, rfl⟩ := h₈
      exact .gone outcome
  have hrecorded : acts (recorded ++ [⟨.now, time⟩]) = [] := by
    rw [acts_append, hrecorded]
    rfl
  simpa using Asks.shown hasked (notificationFor request info.bodyMarkup) hrecorded
    (by simp_all) (waits_of_yields hloop) hclosing

end NotificationPresence

section

variable {deadline : Duration} {rounds : ℕ} {asked : Trace} {outcome : PresenceOutcome}

theorem Asks.waiting (h : Asks deadline rounds asked none) :
    rounds ≤ (readings asked).countP (· < deadline) ∧ ⟨.isCancelled, true⟩ ∉ asked := by
  generalize hresult : none = result at h
  cases h with
  | refused | unshown => cases hresult
  | shown _ _ _ hcancelled hloop hclosing =>
    cases hclosing with
    | gone | answered => cases hresult
    | waits =>
      obtain ⟨hle, hmem⟩ := hloop.rounds_le
      refine ⟨hle.trans ?_, by simp_all⟩
      rw [List.append_nil, List.append_cons, ← List.append_assoc, readings_append,
        List.countP_append]
      exact Nat.le_add_left _ _

theorem Asks.approved (h : Asks deadline rounds asked (some .approved)) :
    ∃ past round id notification wait closed, Polls deadline round ∧
      ⟨.notify notification, some id⟩ ∈ past ∧ ⟨.isCancelled, true⟩ ∉ past ∧
      asked = past ++ round ++ [⟨.nextEvent wait, some (some (.actionInvoked id approveAction))⟩,
        ⟨.close id, closed⟩] := by
  generalize hresult : some PresenceOutcome.approved = result at h
  cases h with
  | refused _ houtcome =>
    obtain rfl := Option.some.inj hresult
    exact absurd rfl houtcome
  | unshown => cases hresult
  | @shown before recorded loop closing id exit _ h notification _ hcancelled hloop hclosing =>
    cases hclosing with
    | waits => cases hresult
    | gone outcome =>
      obtain rfl := Option.some.inj hresult
      exact absurd rfl hloop.returns.1
    | answered outcome closed =>
      obtain rfl := Option.some.inj hresult
      obtain ⟨past, round, wait, hround, hpast, rfl⟩ := hloop.approved
      refine ⟨before ++ ⟨.notify notification, some id⟩ :: (recorded ++ past), round, id,
        notification, wait, closed, hround, by simp, ?_, by simp⟩
      simp_all

/-- A prompt that was shown is closed once, or was reported closed. -/
def Withdrawn (trace : Trace) (shown : List Act) : Prop :=
  shown = [] ∨ shown = [.shows none] ∨ ∃ id, shown = [.shows (some id), .closes id] ∨
    shown = [.shows (some id)] ∧ ∃ before after notification wait expired,
      trace = before ++ ⟨.notify notification, some id⟩ :: after ∧
      ⟨.nextEvent wait, some (some (.closed id expired))⟩ ∈ after

theorem Asks.withdrawn (h : Asks deadline rounds asked (some outcome)) (ending : Trace) :
    ∃ opening shown, acts asked = opening ++ shown ∧ Opening (asked ++ ending) opening ∧
      Withdrawn (asked ++ ending) shown := by
  generalize hresult : some outcome = result at h
  have hmono {before rest : Trace} (h : Opening before (acts before)) :
      Opening (before ++ rest ++ ending) (acts before) := h.mono (by simp_all)
  cases h with
  | refused h =>
    exact ⟨acts asked, [], (List.append_nil _).symm, h.mono (by simp_all), .inl rfl⟩
  | @unshown before h notification =>
    exact ⟨acts before, [.shows none], acts_append _ _, hmono h, .inr (.inl rfl)⟩
  | @shown before recorded loop closing id exit _ h notification hrecorded _ hloop hclosing =>
    have hacts : acts (before ++ ⟨.notify notification, some id⟩ :: (recorded ++ loop ++ closing)) =
        acts before ++ .shows (some id) :: acts closing := by
      rw [acts_append]
      refine congrArg (fun rest => acts before ++ Act.shows (some id) :: rest) ?_
      exact (acts_append _ _).trans (by rw [acts_append, hrecorded, hloop.acts]; rfl)
    refine ⟨acts before, _, hacts, hmono h, .inr (.inr ⟨id, ?_⟩)⟩
    cases hclosing with
    | waits => cases hresult
    | answered => exact .inl rfl
    | gone outcome =>
      obtain ⟨-, wait, expired, hmem⟩ := hloop.returns
      exact .inr ⟨rfl, before, recorded ++ loop ++ ending, notification, wait, expired,
        by simp, by simp [hmem]⟩

end

/-- Every nudge is over before the deadline. -/
def NudgesInTime (deadline : Duration) (trace : Trace) : Prop :=
  ∀ nudged time, [⟨.nudge, nudged⟩, ⟨.now, time⟩] <:+: trace → time < deadline

/-- A request that has come to `outcome`. When a call begins is told by the last reading of the
clock before it. -/
structure NotificationPresence.Settles (presence : NotificationPresence) (deadline : Duration)
    (trace : Trace) (outcome : PresenceOutcome) : Prop where
  approved : outcome = .approved → NudgesInTime deadline trace →
    ∃ before after notification id wait,
      trace = before ++
        ⟨.nextEvent wait, some (some (.actionInvoked id approveAction))⟩ :: after ∧
      ⟨.notify notification, some id⟩ ∈ before ∧ ⟨.isCancelled, true⟩ ∉ before ∧
      ∃ time ∈ (readings before).getLast?, time < deadline
  /-- All that the server is told about prompts, in order. -/
  told : ∃ opening shown, acts trace = opening ++ shown ++ [.disconnects] ∧
    Opening trace opening ∧ Withdrawn trace shown
  forgotten : presence.record = true →
    (∀ removal, ⟨.removeRecord, removal⟩ ∈ trace → removal ≠ .failed) →
      ∀ file, trace.foldl fileAfter file = none

theorem Polls.last_reading {deadline : Duration} {past round after : Trace}
    (h : Polls deadline round) (hnudges : NudgesInTime deadline (past ++ round ++ after)) :
    ∃ time ∈ (readings (past ++ round)).getLast?, time < deadline := by
  rw [readings_append]
  cases h with
  | plain time htime => exact ⟨time, by simp [readings], htime⟩
  | nudged time htime nudged later =>
    refine ⟨later, by simp [readings], hnudges nudged later ?_⟩
    exact ⟨past ++ [⟨.isCancelled, false⟩, ⟨.now, time⟩], after, by simp⟩

theorem Asks.settles {presence : NotificationPresence} {deadline : Duration} {rounds : ℕ}
    {asked : Trace} {outcome : PresenceOutcome} (h : Asks deadline rounds asked (some outcome))
    (removal : Removal) : presence.Settles deadline
      (asked ++ (presence.forgets removal ++ [⟨.disconnect, ()⟩])) outcome := by
  refine ⟨?_, ?_, fun hrecord hremoved file => ?_⟩
  · rintro rfl hnudges
    obtain ⟨past, round, id, notification, wait, closed, hround, hshown, hcancelled, rfl⟩ :=
      h.approved
    rw [List.append_assoc] at hnudges
    refine ⟨past ++ round, _, notification, id, wait, List.append_assoc _ _ _, by simp [hshown], ?_,
      hround.last_reading hnudges⟩
    simp [hcancelled, hround.not_cancelled]
  · obtain ⟨opening, shown, hacts, hopening, hshown⟩ := h.withdrawn _
    refine ⟨opening, shown, ?_, hopening, hshown⟩
    rw [acts_append, hacts, acts_append, NotificationPresence.acts_forgets]
    rfl
  · have hforgets : presence.forgets removal = [⟨.removeRecord, removal⟩] := if_pos hrecord
    have hremoval : removal ≠ .failed := hremoved removal (by simp [hforgets])
    simp [hforgets, fileAfter, hremoval]

/-- A request that goes on has read a time before the deadline in every round. One that returns
has told the server what it should, and a prompt on record is read as it was written. -/
theorem prompt_answered_once (presence : NotificationPresence) (request : PresenceRequest)
    (rounds : ℕ) (trace : Trace) (result : Option PresenceOutcome)
    (h : (presence.confirm request rounds).Yields trace result) :
    (∃ started rest, trace = ⟨.now, started⟩ :: rest ∧
      (result = none → rounds ≤ (readings trace).countP (· < started + request.timeout) ∧
        ⟨.isCancelled, true⟩ ∉ trace) ∧
      ∀ outcome, result = some outcome →
        presence.Settles (started + request.timeout) trace outcome) ∧
    ∀ scope inst id scope' inst' id', Unbroken scope → Unbroken inst →
      Records (recordText scope inst id) scope' inst' id' →
        scope' = scope ∧ inst' = inst ∧ id' = id := by
  refine ⟨?_, fun _ _ _ _ _ _ hscope hinst => records_recordText hscope hinst⟩
  obtain ⟨_, _, answer, rfl, hask, h₁⟩ := Prog.yields_bind.mp h
  obtain ⟨started, rest, rfl, hasks⟩ := NotificationPresence.asks_of_yields hask
  refine ⟨started, _, List.cons_append, ?_⟩
  cases answer with
  | none =>
    obtain ⟨rfl, rfl⟩ := h₁
    rw [List.append_nil]
    exact ⟨fun _ => hasks.waiting, nofun⟩
  | some outcome =>
    obtain ⟨_, _, _, rfl, hforget, h₂⟩ := Prog.yields_bind.mp h₁
    obtain ⟨removal, rfl⟩ := NotificationPresence.forgetPrompt_cases hforget
    obtain ⟨_, _, rfl, rfl, rfl⟩ := Prog.yields_ask_bind.mp h₂
    refine ⟨nofun, fun _ houtcome => ?_⟩
    obtain rfl := Option.some.inj houtcome
    exact hasks.settles removal

/-- A server that approves at once, where a nudge takes a minute. -/
def answering (refreshInterval : Option Duration) (time : Duration) :
    (op : ScreenOp) → op.Res × Duration
  | .now => (time, time)
  | .isCancelled => (false, time)
  | .connect => (some ⟨true, true, false, none, refreshInterval⟩, time)
  | .notify _ => (some 1, time)
  | .nextEvent _ => (some (some (.actionInvoked 1 approveAction)), time)
  | .close _ => (true, time)
  | .nudge => (some 2, time + seconds 60)
  | .disconnect => ((), time)
  | .readRecord => (none, time)
  | .writeRecord _ => (true, time)
  | .removeRecord => (.removed, time)

/-- A request that times out after half a minute. -/
def askedRun (refreshInterval : Option Duration) : Option PresenceOutcome × Trace × Duration :=
  ((⟨none, true⟩ : NotificationPresence).confirm (.new .select (seconds 30)) 1).eval
    (I := screen) (answering refreshInterval) 0

theorem prompt_answered_once_approved :
    (askedRun none).1 = some .approved ∧ NudgesInTime (seconds 30) (askedRun none).2.1 ∧
      (⟨none, true⟩ : NotificationPresence).Settles (seconds 30) (askedRun none).2.1 .approved := by
  refine ⟨rfl, fun nudged time hnudge => ?_, ?_⟩
  · have hnone : (askedRun none).2.1.all (!·.op matches .nudge) = true := rfl
    cases List.all_eq_true.mp hnone _ (hnudge.subset (List.mem_cons_self ..))
  · obtain ⟨⟨started, rest, hstart, -, hsettles⟩, -⟩ := prompt_answered_once ⟨none, true⟩
      (.new .select (seconds 30)) 1 _ _ (Prog.eval_yields (I := screen) (answering none) _ 0)
    obtain rfl : 0 = started := congrArg (fun e : Trace => (readings e).head?.getD 0) hstart
    exact hsettles _ rfl

/-- A nudge that takes too long: the approval comes from a call begun after the deadline. -/
theorem approved_after_deadline :
    (askedRun (some 0)).1 = some .approved ∧ ∃ before after,
      (askedRun (some 0)).2.1 = ⟨.now, 0⟩ :: before ++
        ⟨.nextEvent 0, some (some (.actionInvoked 1 approveAction))⟩ :: after ∧
      (∀ e ∈ before ++ after, !(e.op matches .nextEvent _)) ∧
      (readings before).getLast? = some (seconds 60) := by
  exact ⟨rfl, (askedRun (some 0)).2.1.tail.take 9, (askedRun (some 0)).2.1.drop 11, rfl,
    List.all_eq_true.mp rfl, rfl⟩

end SoftwareAuthenticator.Presence
