import SoftwareAuthenticator.Ctaphid.Approval
import SoftwareAuthenticator.Ctaphid.Transport

/-!
# A cancellation reaches only the request it was meant for

The transport passes an interrupt on before it hands out another request, and the shared flag
takes it only while that request is being worked on.
-/

namespace SoftwareAuthenticator.Ctaphid

def Event.isMute : Event → Bool
  | .packet _ _ | .timeout _ | .interrupt => false
  | _ => true

namespace Host

variable {R : Type}

variable {host host' : Host R}

theorem interruptApp_enqueueMessage (host : Host R) (channel : UInt32) (command : Command)
    (payload : Bytes) :
    (enqueueMessage host channel command payload).interruptApp = host.interruptApp := by
  rw [enqueueMessage_eq]
  rfl

/-- The application works on a request: it serves the transaction under way, or a prompt. -/
def Works (host : Host R) : Prop :=
  (∃ channel command, host.errand = .served channel command) ∨
    ∃ poll, host.u2f = some poll ∧ poll.answer = none

/-- An interrupt that was raised stays, and is raised only for an application at work. -/
structure Raises (host host' : Host R) : Prop where
  stays : host.interruptApp = true → host'.interruptApp = true
  works : host'.interruptApp = true → host.interruptApp = true ∨ host.Works

theorem Raises.of_eq (h : host'.interruptApp = host.interruptApp) : Raises host host' :=
  ⟨fun hraised => h.trans hraised, fun hraised => .inl (h.symm.trans hraised)⟩

theorem Raises.trans {after : Host R} (h : Raises host after) (hworks : after.Works → host.Works)
    (h' : Raises after host') : Raises host host' where
  stays hraised := h'.stays (h.stays hraised)
  works hraised := (h'.works hraised).elim h.works fun hafter => .inr (hworks hafter)

theorem raises_resynchronise (host : Host R) (channel assigned : UInt32) (data : Bytes) :
    Raises host (host.resynchronise channel assigned data) := by
  unfold resynchronise
  dsimp only
  refine ⟨fun hraised => ?_, fun hraised => ?_⟩
  · rw [interruptApp_enqueueMessage]
    simp only [hraised, Bool.true_or]
  · rw [interruptApp_enqueueMessage] at hraised
    simp only [Bool.or_eq_true] at hraised
    rcases hraised with (hraised | hprompt) | happ
    · exact .inl hraised
    · cases hpoll : host.u2f with
      | none =>
        rw [hpoll] at hprompt
        contradiction
      | some poll =>
        rw [hpoll] at hprompt
        have hasked : poll.channel = channel ∧ poll.answer.isNone = true := by simpa using hprompt
        exact .inr (.inr ⟨poll, hpoll, Option.isNone_iff_eq_none.mp hasked.2⟩)
    · unfold appWorks at happ
      split at happ
      · next processing hstate =>
        refine .inr (.inl ⟨processing.channel, processing.command, ?_⟩)
        rw [errand, hstate]
        simp only [Option.isNone_iff_eq_none.mp happ]
      · contradiction

variable {call : Call} {completed : Option (UInt32 × Bytes)}

theorem Raises.move (hcall : call ≠ .event .interrupt) (hmove : Move call completed host host') :
    Raises host host' := by
  cases hmove with
  | interruptTaken h => exact absurd h hcall
  | @interrupts processing _ hstate hrequest =>
    refine ⟨fun _ => rfl, fun _ => .inr (.inl ⟨processing.channel, processing.command, ?_⟩)⟩
    rw [errand, hstate]
    simp only [hrequest]
  | @expires poll _ _ hpoll =>
    refine ⟨fun hraised => ?_, fun hraised => ?_⟩
    · simp only [hraised, Bool.true_or]
    · rcases (Bool.or_eq_true _ _).mp hraised with hraised | hasked
      · exact .inl hraised
      · exact .inr (.inr ⟨poll, hpoll, Option.isNone_iff_eq_none.mp hasked⟩)
  | replies | collects | delivers => exact .of_eq (interruptApp_enqueueMessage _ _ _ _)
  | _ => exact .of_eq rfl

/-- Only handing out a request sets the application to work. -/
theorem works_of_move (hcall : call ≠ .event .take) (hmove : Move call completed host host')
    (h : host'.Works) : host.Works := by
  have hended {after : Host R} (h : after.Works) (herrand : ∀ c k, after.errand ≠ .served c k)
      (hu2f : ∀ poll, after.u2f = some poll → host.u2f = some poll) : host.Works := by
    rcases h with ⟨channel, command, hserved⟩ | ⟨poll, hpoll, hanswer⟩
    · exact absurd hserved (herrand channel command)
    · exact .inr ⟨poll, hu2f poll hpoll, hanswer⟩
  cases hmove with
  | takes htakes => exact absurd htakes hcall
  | replies =>
    rw [enqueueMessage_eq] at h
    exact hended h (by rintro _ _ ⟨⟩) fun _ hpoll => hpoll
  | delivers =>
    rw [enqueueAnswer, enqueueMessage_eq] at h
    exact hended h (by rintro _ _ ⟨⟩) fun _ hpoll => hpoll
  | collects =>
    rw [enqueueAnswer, enqueueMessage_eq] at h
    exact hended h (by rintro _ _ ⟨⟩) (by rintro _ ⟨⟩)
  | receives | continues | identifies | submits | ends =>
    exact hended h (by rintro _ _ ⟨⟩) fun _ hpoll => hpoll
  | holds | holdsMsg => exact hended h (by rintro _ _ ⟨⟩) (by rintro _ ⟨⟩)
  | polls hpoll | asks hpoll =>
    rcases h with hserved | ⟨_, ⟨⟩, hanswer⟩
    · exact .inl hserved
    · exact .inr ⟨_, hpoll, hanswer⟩
  | keeps =>
    rcases h with hserved | ⟨_, ⟨⟩, hanswer⟩
    · exact .inl hserved
    · cases hanswer
  | expires | withdraws | resets | denies =>
    rcases h with hserved | ⟨_, ⟨⟩, _⟩
    exact .inl hserved
  | waits hstate =>
    refine h.imp (fun hserved => ?_) id
    unfold errand at hserved ⊢
    rw [hstate]
    exact hserved
  | _ => exact h

theorem Moves.raises (htake : call ≠ .event .take) (hinterrupt : call ≠ .event .interrupt)
    (h : Moves call completed host host') : Raises host host' ∧ (host'.Works → host.Works) := by
  refine h.keeps (I := fun after => Raises host after ∧ (after.Works → host.Works))
    (fun hmove hI => ?_) ⟨.of_eq rfl, id⟩
  exact ⟨hI.1.trans hI.2 (.move hinterrupt hmove), fun h => hI.2 (works_of_move htake hmove h)⟩

variable [CryptoRng R]

/-- Only packets and time-outs raise an interrupt, and only the transport takes it back. -/
theorem interruptApp_handle (host : Host R) {event : Event} (h : event.isMute = true) :
    (host.handle event).interruptApp = host.interruptApp := by
  have hpacket : (Call.event event).isPacket = false := by
    cases event with
    | packet frame now => cases h
    | _ => rfl
  refine (host.moves_of_not_packet hpacket).keeps
    (I := fun after => after.interruptApp = host.interruptApp) (fun hmove hsame => ?_) rfl
  refine Eq.trans ?_ hsame
  cases hmove with
  | interruptTaken hcall | expires hcall =>
    cases hcall
    cases h
  | interrupts hcall =>
    rw [hpacket] at hcall
    cases hcall
  | replies | collects | delivers => exact interruptApp_enqueueMessage _ _ _ _
  | _ => rfl

theorem interruptApp_run (host : Host R) {events : List Event}
    (h : ∀ event ∈ events, event.isMute = true) :
    ((hostMachine R).run host events).interruptApp = host.interruptApp := by
  induction events generalizing host with
  | nil => rfl
  | cons event events ih =>
    exact (ih (host.handle event) fun e he => h e (List.mem_cons_of_mem _ he)).trans
      (interruptApp_handle host (h event List.mem_cons_self))

theorem raises_handle (host : Host R) {event : Event} (h : event ≠ .interrupt) :
    Raises host (host.handle event) := by
  cases hmute : event.isMute with
  | true => exact .of_eq (interruptApp_handle host hmute)
  | false =>
    have htake : Call.event event ≠ .event .take := by
      rintro ⟨⟩
      cases hmute
    have hinterrupt : Call.event event ≠ .event .interrupt := fun heq => h (Call.event.inj heq)
    rcases host.moves_call (.event event) with hmoves | hresync
    · exact (hmoves.raises htake hinterrupt).1
    · change Raises host (host.call (.event event))
      generalize host.call (.event event) = host' at hresync
      cases hresync with
      | refuses =>
        rw [enqueueError_eq]
        exact .of_eq rfl
      | resynchronises _ _ hmoves _ assigned data =>
        obtain ⟨hraises, hworks⟩ := hmoves.raises htake hinterrupt
        exact hraises.trans hworks (raises_resynchronise _ _ assigned data)

end Host

def Event.isBeside : Event → Bool
  | .take | .answer _ _ _ | .interrupt => false
  | _ => true

namespace Host

variable {R : Type}

variable {host : Host R}

theorem takeAppRequest_some {request : AppRequest} (h : host.takeAppRequest.2 = some request) :
    host.appBusy = false ∧ host.takeAppRequest.1.appBusy = true ∧
      ∃ channel, host.takeAppRequest.1.taken = host.taken ++ [⟨channel, request⟩] := by
  unfold takeAppRequest at h ⊢
  split at h
  · contradiction
  · next hbusy =>
    rw [if_neg hbusy]
    split at h
    · split at h
      · contradiction
      · cases h
        exact ⟨Bool.eq_false_of_not_eq_true hbusy, rfl, _, rfl⟩
    · contradiction

variable [CryptoRng R]

/-- The application keeps its request, and an interrupt is raised only if it has one. -/
structure Beside (host host' : Host R) : Prop where
  reachable : (hostMachine R).Reachable host'
  taken : host'.taken = host.taken
  busy : host'.appBusy = host.appBusy
  stays : host.interruptApp = true → host'.interruptApp = true
  raises : host'.interruptApp = true → host.interruptApp = true ∨ host.appBusy = true

theorem Works.busy (h : host.Works) (hreachable : (hostMachine R).Reachable host) :
    host.appBusy = true := by
  have hsound := reachable_sound hreachable
  rcases h with ⟨channel, command, hserved⟩ | ⟨poll, hpoll, hanswer⟩
  · exact (hsound.served channel command hserved).1
  · refine (hsound.asked (U2fPoll.prompt poll) ?_).2 ?_
    · simp only [desk, hpoll, Option.map_some]
    · simp only [U2fPoll.prompt, hanswer, Option.map_none]

theorem reachable_handle (h : (hostMachine R).Reachable host) (event : Event)
    (henabled : Enabled host event) : (hostMachine R).Reachable (host.handle event) :=
  h.step henabled

theorem beside_handle (h : (hostMachine R).Reachable host) {event : Event}
    (hevent : event.isBeside = true) : Beside host (host.handle event) := by
  have haside : event.isAside = true := by cases event <;> first | rfl | cases hevent
  have hinterrupt : event ≠ .interrupt := by rintro rfl; cases hevent
  have happ := (ages_handle host haside 0).app
  have hraises := raises_handle host hinterrupt
  refine ⟨h.step ?_, happ.1, happ.2, hraises.stays,
    fun hraised => (hraises.works hraised).imp_right fun hworks => hworks.busy h⟩
  cases event with
  | answer response now finished => cases hevent
  | _ => trivial

theorem beside_run (h : (hostMachine R).Reachable host) {events : List Event}
    (hevents : ∀ event ∈ events, event.isBeside = true) :
    Beside host ((hostMachine R).run host events) := by
  induction events generalizing host with
  | nil => exact ⟨h, rfl, rfl, id, .inl⟩
  | cons event events ih =>
    have hstep := beside_handle h (hevents event List.mem_cons_self)
    have hrest := ih hstep.reachable fun e he => hevents e (List.mem_cons_of_mem _ he)
    refine ⟨hrest.reachable, hrest.taken.trans hstep.taken, hrest.busy.trans hstep.busy,
      fun hraised => hrest.stays (hstep.stays hraised), fun hraised => ?_⟩
    rcases hrest.raises hraised with hraised | hbusy
    · exact hstep.raises hraised
    · exact .inr (hstep.busy.symm.trans hbusy)

omit [CryptoRng R] in
theorem appResponse_free (host : Host R) (response : Bytes) (now : ℕ) (finished : Option ℕ) :
    (host.appResponse response now finished).appBusy = false ∧
      (host.appResponse response now finished).taken = host.taken := by
  have hrespond := respond_appResponse host response now finished
  generalize hdesk : (host.appResponse response now finished).desk = desk at hrespond
  have hbusy : (host.appResponse response now finished).appBusy = desk.busy :=
    congrArg Desk.busy hdesk
  have htaken : (host.appResponse response now finished).taken = desk.taken :=
    congrArg Desk.taken hdesk
  rw [hbusy, htaken]
  cases hrespond <;> exact ⟨rfl, rfl⟩

end Host

namespace Point

def sent : Point → Option (ℕ × AppRequest)
  | .sending serial request => some (serial, request)
  | _ => none

def isPassing : Point → Bool
  | .passing _ => true
  | _ => false

def isClear : Point → Bool
  | .passing _ | .collecting | .submitting => true
  | _ => false

end Point

inductive Place where
  | free
  | sending (request : AppRequest)
  | queued (request : AppRequest)
  | calling (request : AppRequest)
  | answering (response : AppResponse)
  | answered (response : AppResponse)

namespace Place

def busy : Place → Bool
  | .free => false
  | _ => true

def sent (serial : ℕ) : Place → Option (ℕ × AppRequest)
  | .sending request => some (serial, request)
  | _ => none

def requests (serial : ℕ) : Place → List (ℕ × AppRequest)
  | .queued request => [(serial, request)]
  | _ => []

def responses (serial : ℕ) : Place → List (ℕ × AppResponse)
  | .answered response => [(serial, response)]
  | _ => []

def worker (serial : ℕ) : Place → Worker
  | .calling request => .calling serial request
  | .answering response => .answering serial response
  | _ => .waiting

def flagged : Place → Bool
  | .sending _ | .queued _ | .calling _ => true
  | _ => false

end Place

namespace Transport

variable {R : Type}

/-- What the two threads hold while the request is at a place. -/
structure Custody (t : Transport R) (place : Place) : Prop where
  busy : t.host.appBusy = place.busy
  sent : t.point.sent = place.sent (serial t.host)
  requests : t.requests = place.requests (serial t.host)
  responses : t.responses = place.responses (serial t.host)
  worker : t.worker = place.worker (serial t.host)
  flag : t.flag ≠ .idle ↔ place.flagged = true

/-- The host or the transport holds an interrupt that the flag has not been given. -/
def Holds (t : Transport R) : Prop := t.host.interruptApp = true ∨ t.point.isPassing = true

variable {t t' : Transport R} {events : List Event} {request : AppRequest} {place : Place}

theorem Custody.moves (h : t.Custody place) (hpoint : t.point.sent = none)
    (hpoint' : t'.point.sent = none) (hbusy : t'.host.appBusy = t.host.appBusy)
    (htaken : t'.host.taken = t.host.taken) (hrequests : t'.requests = t.requests)
    (hresponses : t'.responses = t.responses) (hworker : t'.worker = t.worker)
    (hflag : t'.flag = t.flag ∨ t'.flag = t.flag.interrupt) : t'.Custody place := by
  have hserial : serial t'.host = serial t.host := by rw [serial, htaken, serial]
  refine ⟨hbusy.trans h.busy, ?_, ?_, ?_, ?_, ?_⟩
  · rw [hpoint', hserial, ← h.sent, hpoint]
  · rw [hrequests, hserial]
    exact h.requests
  · rw [hresponses, hserial]
    exact h.responses
  · rw [hworker, hserial]
    exact h.worker
  · rw [← h.flag]
    rcases hflag with hsame | hinterrupt
    · rw [hsame]
    · rw [hinterrupt]
      cases t.flag <;> simp [InterruptFlag.interrupt]

theorem Custody.flag_idle (h : t.Custody place) (hplace : place.flagged = false) :
    t.flag = .idle := by
  by_contra hflag
  rw [h.flag.mp hflag] at hplace
  contradiction

theorem Custody.busy_of_flag (h : t.Custody place) (hflag : t.flag ≠ .idle) :
    t.host.appBusy = true := by
  have hflagged := h.flag.mp hflag
  rw [h.busy]
  cases place with
  | free => contradiction
  | _ => rfl

theorem mute_responseEvents (response : AppResponse) (now : ℕ) :
    ∀ event ∈ responseEvents response now, event.isMute = true := by
  intro event hevent
  unfold responseEvents at hevent
  split at hevent <;> simp at hevent <;> rcases hevent with rfl | rfl | rfl <;> rfl

theorem isBeside_presenceEvents (observed : Option (Option ℕ)) :
    ∀ event ∈ presenceEvents observed, event.isBeside = true := by
  unfold presenceEvents
  split <;> simp [Event.isBeside]

theorem isBeside_identifyEvents (host : Host R) (submitted : Bool) (now : ℕ) :
    ∀ event ∈ identifyEvents host submitted now, event.isBeside = true := by
  unfold identifyEvents
  split
  · simp
  · split <;> simp [Event.isBeside]

variable [CryptoRng R]

structure Sane (t : Transport R) : Prop where
  reachable : (hostMachine R).Reachable t.host
  custody : ∃ place, t.Custody place
  below : ∀ n ∈ t.raised, n < t.host.taken.length
  observed : t.flag = .interrupted → serial t.host ∈ t.raised
  meant : t.host.appBusy = true → t.Holds → serial t.host ∈ t.raised
  kept : serial t.host ∈ t.raised → t.host.appBusy = true → t.flag ≠ .idle →
    t.Holds ∨ t.flag = .interrupted
  clear : t.point.isClear = true → t.host.interruptApp = false

theorem calls_eq
    (h : ((hostMachine R).run t.host events).interruptApp = true → t.host.interruptApp = true) :
    t.calls events = { t with host := (hostMachine R).run t.host events } := by
  have hno : ¬ (t.host.interruptApp = false ∧
      ((hostMachine R).run t.host events).interruptApp = true) := by
    rintro ⟨hfalse, htrue⟩
    rw [h htrue] at hfalse
    contradiction
  unfold Transport.calls
  simp only [hno, if_false]

theorem mem_raised_calls {n : ℕ} :
    n ∈ (t.calls events).raised ↔ n ∈ t.raised ∨ n = serial t.host ∧
      t.host.interruptApp = false ∧ ((hostMachine R).run t.host events).interruptApp = true := by
  change n ∈ (if _ then _ else _) ↔ _
  split
  · next hnew => simp [hnew]
  · next hold => simp only [hold, and_false, or_false]

section

variable (h : t.Sane)

include h

theorem Sane.serial_lt (hbusy : t.host.appBusy = true) : serial t.host < t.host.taken.length := by
  obtain ⟨request, hlast, -⟩ := (reachable_sound h.reachable).busy hbusy
  have hne : t.host.taken ≠ [] := by
    intro hnil
    change t.host.taken.getLast? = some request at hlast
    rw [hnil] at hlast
    contradiction
  have hpos := List.length_pos_of_ne_nil hne
  unfold serial
  omega

theorem Sane.calls (hevents : ∀ event ∈ events, event.isBeside = true) {point : Point}
    (hfrom : t.point.sent = none ∧ t.point.isPassing = false)
    (hto : point.sent = none ∧ point.isPassing = false)
    (hclear : point.isClear = true → ((hostMachine R).run t.host events).interruptApp = false) :
    ((t.calls events).goto point).Sane := by
  have hbeside := Host.beside_run h.reachable hevents
  have hserial : serial ((hostMachine R).run t.host events) = serial t.host := by
    rw [serial, hbeside.taken, serial]
  refine ⟨hbeside.reachable, h.custody.imp fun _ hplace => hplace.moves hfrom.1 hto.1 hbeside.busy
    hbeside.taken rfl rfl rfl (.inl rfl), ?_, ?_, ?_, ?_, hclear⟩
  · intro n hn
    change n < ((hostMachine R).run t.host events).taken.length
    rw [hbeside.taken]
    rcases mem_raised_calls.mp hn with hold | ⟨rfl, hnot, hnew⟩
    · exact h.below n hold
    · refine h.serial_lt ((hbeside.raises hnew).resolve_left ?_)
      rw [hnot]
      exact Bool.false_ne_true
  · intro hflag
    refine mem_raised_calls.mpr (.inl ?_)
    change serial ((hostMachine R).run t.host events) ∈ t.raised
    rw [hserial]
    exact h.observed hflag
  · intro hbusy hholds
    change ((hostMachine R).run t.host events).appBusy = true at hbusy
    rw [hbeside.busy] at hbusy
    refine mem_raised_calls.mpr ?_
    change serial ((hostMachine R).run t.host events) ∈ t.raised ∨ _
    rw [hserial]
    rcases hholds with hraise | hpassing
    · by_cases hold : t.host.interruptApp = true
      · exact .inl (h.meant hbusy (.inl hold))
      · exact .inr ⟨hserial, Bool.eq_false_of_not_eq_true hold, hraise⟩
    · exact absurd (hto.2.symm.trans hpassing) Bool.false_ne_true
  · intro hmem hbusy hflag
    change ((hostMachine R).run t.host events).appBusy = true at hbusy
    rw [hbeside.busy] at hbusy
    rcases mem_raised_calls.mp hmem with hold | ⟨-, -, hnew⟩
    · change serial ((hostMachine R).run t.host events) ∈ t.raised at hold
      rw [hserial] at hold
      rcases h.kept hold hbusy hflag with (hraise | hpassing) | hinterrupted
      · exact .inl (.inl (hbeside.stays hraise))
      · exact absurd (hfrom.2.symm.trans hpassing) Bool.false_ne_true
      · exact .inr hinterrupted
    · exact .inl (.inl hnew)

theorem Sane.goto {point : Point} (hfrom : t.point.sent = none ∧ t.point.isPassing = false)
    (hto : point.sent = none ∧ point.isPassing = false)
    (hclear : point.isClear = true → t.point.isClear = true) : (t.goto point).Sane := by
  have hnone : ∀ event ∈ ([] : List Event), event.isBeside = true := nofun
  have hcalls := h.calls hnone hfrom hto fun hp => h.clear (hclear hp)
  rwa [calls_eq id] at hcalls

theorem Sane.takeInterrupt {caller : Caller} (hpoint : t.point = .taking caller) :
    ((t.calls [.interrupt]).goto
      (if t.host.interruptApp then .passing caller else caller.next)).Sane := by
  have hcalls : t.calls [.interrupt] = { t with host := t.host.takeInterrupt.1 } :=
    calls_eq fun htrue => absurd htrue Bool.false_ne_true
  have hnext : (Caller.next caller).sent = none ∧ (Caller.next caller).isPassing = false := by
    cases caller <;> exact ⟨rfl, rfl⟩
  have hto : (if t.host.interruptApp then Point.passing caller else caller.next).sent = none := by
    split
    · rfl
    · exact hnext.1
  rw [hcalls]
  refine ⟨Host.reachable_handle h.reachable .interrupt trivial,
    h.custody.imp fun _ hplace => hplace.moves (by rw [hpoint]; rfl) hto rfl rfl rfl rfl rfl
      (.inl rfl), h.below, h.observed, ?_, ?_, fun _ => rfl⟩
  · rintro hbusy (hraised | hpassing)
    · contradiction
    · refine h.meant hbusy (.inl ?_)
      by_contra hnot
      change (if t.host.interruptApp = true then Point.passing caller else caller.next).isPassing =
        true at hpassing
      rw [if_neg hnot, hnext.2] at hpassing
      contradiction
  · intro hmem hbusy hflag
    rcases h.kept hmem hbusy hflag with (hraised | hpassing) | hinterrupted
    · refine .inl (.inr ?_)
      change (if t.host.interruptApp = true then Point.passing caller else caller.next).isPassing =
        true
      rw [if_pos hraised]
      rfl
    · rw [hpoint] at hpassing
      contradiction
    · exact .inr hinterrupted

theorem Sane.interrupt {caller : Caller} (hpoint : t.point = .passing caller) :
    ({ t with flag := t.flag.interrupt, point := caller.next } : Transport R).Sane := by
  have hnext : (Caller.next caller).sent = none ∧ (Caller.next caller).isPassing = false := by
    cases caller <;> exact ⟨rfl, rfl⟩
  have hcleared := h.clear (by rw [hpoint]; rfl)
  obtain ⟨place, hplace⟩ := h.custody
  refine ⟨h.reachable, ⟨place, hplace.moves (by rw [hpoint]; rfl) hnext.1 rfl rfl rfl rfl rfl
    (.inr rfl)⟩, h.below, ?_, ?_, ?_, fun _ => hcleared⟩
  · intro hflag
    have hold : t.flag ≠ .idle := by
      intro hidle
      change t.flag.interrupt = .interrupted at hflag
      rw [hidle] at hflag
      contradiction
    exact h.meant (hplace.busy_of_flag hold) (.inr (by rw [hpoint]; rfl))
  · rintro - (hraised | hpassing)
    · exact absurd (hcleared.symm.trans hraised) Bool.false_ne_true
    · exact absurd (hnext.2.symm.trans hpassing) Bool.false_ne_true
  · intro _ _ hflag
    right
    change t.flag.interrupt = .interrupted
    cases hold : t.flag with
    | idle =>
      change t.flag.interrupt ≠ .idle at hflag
      rw [hold] at hflag
      exact absurd rfl hflag
    | working | interrupted => rfl

theorem Sane.collect {serial' : ℕ} {response : AppResponse} {responses : List (ℕ × AppResponse)}
    (hresponses : t.responses = (serial', response) :: responses) (hpoint : t.point.sent = none)
    (now : ℕ) :
    (({ t with responses := responses } : Transport R).calls
      (responseEvents response now)).Sane := by
  have hinterrupt := Host.interruptApp_run t.host (mute_responseEvents response now)
  -- Everything before the answer itself leaves the application's request alone.
  have hbefore : ∃ before, responseEvents response now =
      before ++ [.answer response.payload now response.presenceFinished] ∧
      ∀ event ∈ before, event.isBeside = true := by
    refine ⟨(if response.reset then [.u2fReset] else []) ++ [.u2fEnabled response.u2fEnabled],
      ?_, ?_⟩
    · rw [responseEvents, List.append_assoc]
      rfl
    · split <;> simp [Event.isBeside]
  obtain ⟨before, hevents, hbeside⟩ := hbefore
  have hhost := Host.beside_run h.reachable hbeside
  have hrun : (hostMachine R).run t.host (responseEvents response now) =
      ((hostMachine R).run t.host before).appResponse response.payload now
        response.presenceFinished := by
    rw [hevents, Machine.run_append]
    rfl
  obtain ⟨hfree, htaken⟩ := Host.appResponse_free ((hostMachine R).run t.host before)
    response.payload now response.presenceFinished
  rw [← hrun] at hfree htaken
  rw [hhost.taken] at htaken
  rw [calls_eq (t := { t with responses := responses }) fun htrue => hinterrupt.symm.trans htrue]
  obtain ⟨place, hplace⟩ := h.custody
  have hanswered := hresponses.symm.trans hplace.responses
  cases place with
  | answered response' =>
    have hidle := hplace.flag_idle rfl
    obtain ⟨-, rfl⟩ := List.cons.inj hanswered
    refine ⟨?_, ⟨.free, hfree, hpoint, hplace.requests, rfl, hplace.worker, hplace.flag⟩,
      fun n hn => ?_, fun hflag => absurd (hidle.symm.trans hflag) nofun,
      fun hbusy => absurd (hfree.symm.trans hbusy) Bool.false_ne_true,
      fun _ hbusy => absurd (hfree.symm.trans hbusy) Bool.false_ne_true,
      fun hclear => hinterrupt.trans (h.clear hclear)⟩
    · change (hostMachine R).Reachable ((hostMachine R).run t.host (responseEvents response now))
      rw [hrun]
      exact Host.reachable_handle hhost.reachable
        (.answer response.payload now response.presenceFinished) (hhost.busy.trans hplace.busy)
    · exact htaken ▸ h.below n hn
  | _ => exact absurd hanswered (List.cons_ne_nil _ _)

theorem Sane.takeRequest (hpoint : t.point = .submitting)
    (hrequest : t.host.takeAppRequest.2 = some request) :
    ({ t.calls [.take] with
      flag := .working, point := .sending t.host.taken.length request } : Transport R).Sane := by
  obtain ⟨hfree, hbusy, channel, htaken⟩ := Host.takeAppRequest_some hrequest
  have hinterrupt : t.host.takeAppRequest.1.interruptApp = t.host.interruptApp :=
    Host.interruptApp_handle t.host (show Event.isMute .take = true from rfl)
  have hclear := h.clear (by rw [hpoint]; rfl)
  have hserial : serial t.host.takeAppRequest.1 = t.host.taken.length := by
    rw [serial, htaken, List.length_append]
    rfl
  have hnew : serial t.host.takeAppRequest.1 ∉ t.raised := by
    rw [hserial]
    exact fun hmem => lt_irrefl _ (h.below _ hmem)
  have hcalls : t.calls [.take] = { t with host := t.host.takeAppRequest.1 } :=
    calls_eq fun htrue => hinterrupt.symm.trans htrue
  rw [hcalls]
  obtain ⟨place, hplace⟩ := h.custody
  have hplaceFree := hfree.symm.trans hplace.busy
  cases place with
  | free =>
    refine ⟨Host.reachable_handle h.reachable .take trivial, ⟨.sending request, hbusy, ?_,
      hplace.requests, hplace.responses, hplace.worker, ⟨fun _ => rfl, fun _ => nofun⟩⟩,
      fun n hn => ?_, nofun, ?_, fun hmem => absurd hmem hnew, nofun⟩
    · exact congrArg (fun n => some (n, request)) hserial.symm
    · change n < t.host.takeAppRequest.1.taken.length
      rw [htaken, List.length_append]
      exact Nat.lt_succ_of_lt (h.below n hn)
    · rintro - (hraised | hpassing)
      · exact absurd ((hinterrupt.trans hclear).symm.trans hraised) Bool.false_ne_true
      · contradiction
  | _ => contradiction

theorem Sane.exchange (hcustody : ∃ place, t'.Custody place) (hhost : t'.host = t.host)
    (hraised : t'.raised = t.raised) (hpassing : t'.point.isPassing = t.point.isPassing)
    (hclear : t'.point.isClear = true → t.point.isClear = true)
    (hflag : t'.flag = t.flag ∨ t'.flag = .idle) : t'.Sane := by
  have hholds : t'.Holds ↔ t.Holds := by rw [Holds, Holds, hhost, hpassing]
  refine ⟨hhost ▸ h.reachable, hcustody, by rw [hraised, hhost]; exact h.below,
    fun hinterrupted => ?_,
    by rw [hraised, hhost, hholds]; exact h.meant, fun hmem hbusy hnot => ?_,
    fun hp => hhost ▸ h.clear (hclear hp)⟩
  · rw [hraised, hhost]
    rcases hflag with hsame | hidle
    · exact h.observed (hsame.symm.trans hinterrupted)
    · exact absurd (hidle.symm.trans hinterrupted) nofun
  · rw [hraised, hhost] at hmem
    rw [hhost] at hbusy
    rcases hflag with hsame | hidle
    · rw [hholds, hsame]
      exact h.kept hmem hbusy (hsame ▸ hnot)
    · exact absurd hidle hnot

theorem Sane.sendRequest {n : ℕ} (hpoint : t.point = .sending n request) :
    ({ t with requests := t.requests ++ [(n, request)], point := .identifying } :
      Transport R).Sane := by
  refine h.exchange ?_ rfl rfl (by rw [hpoint]; rfl) nofun (.inl rfl)
  obtain ⟨place, hplace⟩ := h.custody
  have hsent := hplace.sent
  rw [hpoint] at hsent
  cases place with
  | sending request' =>
    cases hsent
    refine ⟨.queued request, hplace.busy, rfl, ?_, hplace.responses, hplace.worker, hplace.flag⟩
    change t.requests ++ _ = _
    rw [hplace.requests]
    rfl
  | _ => contradiction

theorem Sane.startCall {n : ℕ} {requests : List (ℕ × AppRequest)}
    (hrequests : t.requests = (n, request) :: requests) :
    ({ t with requests := requests, worker := .calling n request } : Transport R).Sane := by
  refine h.exchange ?_ rfl rfl rfl id (.inl rfl)
  obtain ⟨place, hplace⟩ := h.custody
  have hqueued := hrequests.symm.trans hplace.requests
  cases place with
  | queued request' =>
    cases hqueued
    exact ⟨.calling request, hplace.busy, hplace.sent, rfl, hplace.responses, rfl, hplace.flag⟩
  | _ => exact absurd hqueued (List.cons_ne_nil _ _)

theorem Sane.endCall {n : ℕ} (hworker : t.worker = .calling n request) (response : AppResponse) :
    ({ t with flag := .idle, worker := .answering n response } : Transport R).Sane := by
  refine h.exchange ?_ rfl rfl rfl id (.inr rfl)
  obtain ⟨place, hplace⟩ := h.custody
  have hcalling := hworker.symm.trans hplace.worker
  cases place with
  | calling request' =>
    cases hcalling
    exact ⟨.answering response, hplace.busy, hplace.sent, hplace.requests, hplace.responses, rfl,
      ⟨fun hflag => absurd rfl hflag, nofun⟩⟩
  | _ => contradiction

theorem Sane.sendResponse {n : ℕ} {response : AppResponse}
    (hworker : t.worker = .answering n response) :
    ({ t with responses := t.responses ++ [(n, response)], worker := .waiting } :
      Transport R).Sane := by
  refine h.exchange ?_ rfl rfl rfl id (.inl rfl)
  obtain ⟨place, hplace⟩ := h.custody
  have hanswering := hworker.symm.trans hplace.worker
  cases place with
  | answering response' =>
    cases hanswering
    refine ⟨.answered response, hplace.busy, hplace.sent, hplace.requests, ?_, rfl, hplace.flag⟩
    change t.responses ++ _ = _
    rw [hplace.responses]
    rfl
  | _ => contradiction

theorem Sane.step {act : Act} (hact : t.Enabled act) : (t.step act).Sane := by
  cases act with
  | beginPoll =>
    have hpoint : t.point = .outside := hact
    exact h.goto (by rw [hpoint]; exact ⟨rfl, rfl⟩) ⟨rfl, rfl⟩ nofun
  | readFrame | endRead =>
    obtain ⟨caller, hpoint⟩ := hact
    simp only [Transport.step, hpoint]
    exact h.goto (by rw [hpoint]; exact ⟨rfl, rfl⟩) ⟨rfl, rfl⟩ nofun
  | collect now =>
    obtain ⟨hresponses, hpoint⟩ := hact
    obtain ⟨⟨n, response⟩, responses, heq⟩ := List.exists_cons_of_ne_nil hresponses
    simp only [Transport.step, heq]
    refine h.collect heq ?_ now
    rcases hpoint with hpoint | ⟨caller, frame, hpoint⟩ <;> rw [hpoint] <;> rfl
  | collectIdentification token delivered now =>
    have hmute : ∀ event ∈ [Event.identified token delivered now], event.isMute = true := by
      simp [Event.isMute]
    have hfrom : t.point.sent = none ∧ t.point.isPassing = false := by
      rcases hact with hpoint | ⟨caller, frame, hpoint⟩ <;> rw [hpoint] <;> exact ⟨rfl, rfl⟩
    exact show ((t.calls [.identified token delivered now]).goto t.point).Sane from
      h.calls (by simp [Event.isBeside]) hfrom hfrom fun hclear =>
        (Host.interruptApp_run t.host hmute).trans (h.clear hclear)
  | handleFrame observed now =>
    obtain ⟨caller, frame, hpoint⟩ := hact
    simp only [Transport.step, hpoint]
    refine h.calls ?_ (by rw [hpoint]; exact ⟨rfl, rfl⟩) ⟨rfl, rfl⟩ nofun
    simp only [List.forall_mem_append]
    exact ⟨isBeside_presenceEvents observed, by simp [Event.isBeside]⟩
  | takeInterrupt =>
    obtain ⟨caller, hpoint⟩ := hact
    simp only [Transport.step, hpoint]
    exact h.takeInterrupt hpoint
  | interrupt =>
    obtain ⟨caller, hpoint⟩ := hact
    simp only [Transport.step, hpoint]
    exact h.interrupt hpoint
  | endCollect =>
    have hpoint : t.point = .collecting := hact
    exact h.goto (by rw [hpoint]; exact ⟨rfl, rfl⟩) ⟨rfl, rfl⟩ fun _ => by rw [hpoint]; rfl
  | takeRequest =>
    have hpoint : t.point = .submitting := hact
    cases hrequest : t.host.takeAppRequest.2 with
    | none =>
      simp only [Transport.step, hrequest]
      exact h.goto (by rw [hpoint]; exact ⟨rfl, rfl⟩) ⟨rfl, rfl⟩ nofun
    | some request =>
      simp only [Transport.step, hrequest]
      exact h.takeRequest hpoint hrequest
  | sendRequest =>
    obtain ⟨n, request, hpoint⟩ := hact
    simp only [Transport.step, hpoint]
    exact h.sendRequest hpoint
  | identify submitted now =>
    have hpoint : t.point = .identifying := hact
    exact h.calls (isBeside_identifyEvents t.host submitted now)
      (by rw [hpoint]; exact ⟨rfl, rfl⟩) ⟨rfl, rfl⟩ nofun
  | observe observed waiting now =>
    have hpoint : t.point = .observing := hact
    refine h.calls ?_ (by rw [hpoint]; exact ⟨rfl, rfl⟩) ⟨rfl, rfl⟩ nofun
    simp only [List.forall_mem_append]
    exact ⟨isBeside_presenceEvents observed, by simp [Event.isBeside]⟩
  | selectFrame =>
    obtain ⟨wrote, hpoint⟩ := hact
    simp only [Transport.step, hpoint]
    split
    · exact h.goto (by rw [hpoint]; exact ⟨rfl, rfl⟩) ⟨rfl, rfl⟩ nofun
    · cases wrote <;> exact h.goto (by rw [hpoint]; exact ⟨rfl, rfl⟩) ⟨rfl, rfl⟩ nofun
  | writeFrame now =>
    obtain ⟨frame, wrote, hpoint⟩ := hact
    have hbeside : ∀ event ∈ [Event.timeout now], event.isBeside = true := by
      simp [Event.isBeside]
    have hchecked : (t.calls [.timeout now]).Sane :=
      show ((t.calls [.timeout now]).goto t.point).Sane from
        h.calls hbeside (by rw [hpoint]; exact ⟨rfl, rfl⟩) (by rw [hpoint]; exact ⟨rfl, rfl⟩)
          (by rw [hpoint]; exact nofun)
    have hfrom : (t.calls [.timeout now]).point = .writing frame wrote := hpoint
    simp only [Transport.step, hpoint]
    split
    · exact hchecked.calls (by simp [Event.isBeside]) (by rw [hfrom]; exact ⟨rfl, rfl⟩) ⟨rfl, rfl⟩
        nofun
    · exact hchecked.goto (by rw [hfrom]; exact ⟨rfl, rfl⟩) ⟨rfl, rfl⟩ nofun
  | startCall =>
    obtain ⟨-, hrequests⟩ := hact
    obtain ⟨⟨n, request⟩, requests, heq⟩ := List.exists_cons_of_ne_nil hrequests
    simp only [Transport.step, heq]
    exact h.startCall heq
  | endCall response =>
    obtain ⟨n, request, hworker⟩ := hact
    simp only [Transport.step, hworker]
    exact h.endCall hworker response
  | sendResponse =>
    obtain ⟨n, response, hworker⟩ := hact
    simp only [Transport.step, hworker]
    exact h.sendResponse hworker

end

theorem sane_reachable (h : (transportMachine R).Reachable t) : t.Sane := by
  refine Machine.invariant_reachable ?_ (fun t act hs ha => hs.step ha) h
  rintro _ ⟨rng, version, capabilities, rfl⟩
  have hreachable : (hostMachine R).Reachable (Host.withRng rng version capabilities) :=
    ⟨_, [], ⟨rng, version, capabilities, rfl⟩, trivial, rfl⟩
  refine ⟨hreachable, ⟨.free, rfl, rfl, rfl, rfl, rfl, ?_⟩, nofun, nofun, nofun, nofun, nofun⟩
  exact ⟨fun hflag => absurd rfl hflag, nofun⟩

theorem step_calls {act : Act} (hact : t.Enabled act) :
    ∃ events, (t.step act).host = (hostMachine R).run t.host events ∧
      (t.step act).raised = (t.calls events).raised ∧
      ((∀ event ∈ events, event.isBeside = true) ∨ (∀ event ∈ events, event.isMute = true) ∨
        events = [.interrupt]) := by
  have hnothing : (t.calls []).raised = t.raised := by rw [calls_eq id]
  -- A step that does not call the host.
  have hsame : (t.step act).host = t.host → (t.step act).raised = t.raised → ∃ events,
      (t.step act).host = (hostMachine R).run t.host events ∧
      (t.step act).raised = (t.calls events).raised ∧
      ((∀ event ∈ events, event.isBeside = true) ∨ (∀ event ∈ events, event.isMute = true) ∨
        events = [.interrupt]) :=
    fun hhost hraised => ⟨[], hhost, hraised.trans hnothing.symm, .inl nofun⟩
  cases act with
  | handleFrame observed now =>
    obtain ⟨caller, frame, hpoint⟩ := hact
    simp only [Transport.step, hpoint]
    refine ⟨_, rfl, rfl, .inl ?_⟩
    simp only [List.forall_mem_append]
    exact ⟨isBeside_presenceEvents observed, by simp [Event.isBeside]⟩
  | observe observed waiting now =>
    refine ⟨_, rfl, rfl, .inl ?_⟩
    simp only [List.forall_mem_append]
    exact ⟨isBeside_presenceEvents observed, by simp [Event.isBeside]⟩
  | identify submitted now =>
    exact ⟨_, rfl, rfl, .inl (isBeside_identifyEvents t.host submitted now)⟩
  | writeFrame now =>
    obtain ⟨frame, wrote, hpoint⟩ := hact
    simp only [Transport.step, hpoint]
    split
    · have hmute : ((hostMachine R).run t.host [.timeout now, .written]).interruptApp =
          ((hostMachine R).run t.host [.timeout now]).interruptApp :=
        @Host.interruptApp_run _ _ _ [.written] (by simp [Event.isMute])
      refine ⟨[.timeout now, .written], rfl, ?_, .inl (by simp [Event.isBeside])⟩
      change ((t.calls [.timeout now]).calls [.written]).raised = _
      rw [calls_eq (Eq.mp (congrArg (· = true) hmute))]
      unfold Transport.calls
      change (if _ ∧ _ = true then _ else _) = if _ ∧ _ = true then _ else _
      congr 3
      exact hmute.symm
    · exact ⟨[.timeout now], rfl, rfl, .inl (by simp [Event.isBeside])⟩
  | collect now =>
    obtain ⟨hresponses, -⟩ := hact
    obtain ⟨⟨m, response⟩, responses, heq⟩ := List.exists_cons_of_ne_nil hresponses
    simp only [Transport.step, heq]
    exact ⟨_, rfl, rfl, .inr (.inl (mute_responseEvents response now))⟩
  | collectIdentification token delivered now =>
    exact ⟨_, rfl, rfl, .inr (.inl (by simp [Event.isMute]))⟩
  | takeInterrupt =>
    obtain ⟨caller, hpoint⟩ := hact
    simp only [Transport.step, hpoint]
    exact ⟨_, rfl, rfl, .inr (.inr rfl)⟩
  | takeRequest =>
    cases hrequest : t.host.takeAppRequest.2 with
    | none => apply hsame <;> simp only [Transport.step, hrequest] <;> rfl
    | some request =>
      simp only [Transport.step, hrequest]
      exact ⟨[.take], rfl, rfl, .inr (.inl (by simp [Event.isMute]))⟩
  | selectFrame =>
    obtain ⟨wrote, hpoint⟩ := hact
    apply hsame <;> simp only [Transport.step, hpoint] <;> split <;> rfl
  | readFrame | endRead | interrupt =>
    obtain ⟨caller, hpoint⟩ := hact
    apply hsame <;> simp only [Transport.step, hpoint] <;> rfl
  | startCall =>
    obtain ⟨-, hrequests⟩ := hact
    obtain ⟨⟨m, request⟩, requests, heq⟩ := List.exists_cons_of_ne_nil hrequests
    apply hsame <;> simp only [Transport.step, heq]
  | sendRequest | endCall | sendResponse =>
    obtain ⟨m, _, heq⟩ := hact
    apply hsame <;> simp only [Transport.step, heq]
  | beginPoll | endCollect => exact hsame rfl rfl

def Raises (t : Transport R) (act : Act) (n : ℕ) : Prop :=
  t.host.appBusy = true ∧ n + 1 = t.host.taken.length ∧ t.host.interruptApp = false ∧
    (t.step act).host.interruptApp = true

/-- Request `n` has been handed over, and the worker has not marked the flag idle for it. -/
def Pending (t : Transport R) (n : ℕ) : Prop :=
  ∃ request, t.point = .sending n request ∨ (n, request) ∈ t.requests ∨
    t.worker = .calling n request

def Processing (t : Transport R) (n : ℕ) : Prop :=
  (∃ request, t.worker = .calling n request) ∨ ∃ response, t.worker = .answering n response

variable {n : ℕ}

theorem Sane.mem_raised_step (h : t.Sane) {act : Act} (hact : t.Enabled act) :
    n ∈ (t.step act).raised ↔ n ∈ t.raised ∨ t.Raises act n := by
  obtain ⟨events, hhost, hraised, hkind⟩ := step_calls hact
  rw [hraised, mem_raised_calls]
  refine or_congr_right ⟨?_, ?_⟩
  · rintro ⟨rfl, hnot, hnew⟩
    have hbusy : t.host.appBusy = true := by
      rcases hkind with hbeside | hmute | rfl
      · refine ((Host.beside_run h.reachable hbeside).raises hnew).resolve_left ?_
        rw [hnot]
        exact Bool.false_ne_true
      · rw [Host.interruptApp_run t.host hmute, hnot] at hnew
        contradiction
      · exact absurd hnew Bool.false_ne_true
    have hlt := h.serial_lt hbusy
    refine ⟨hbusy, ?_, hnot, hhost ▸ hnew⟩
    unfold serial at hlt ⊢
    omega
  · rintro ⟨-, hlast, hnot, hnew⟩
    refine ⟨?_, hnot, hhost ▸ hnew⟩
    unfold serial
    omega

omit [CryptoRng R] in
theorem Custody.pending (h : t.Custody place) (hn : t.Pending n) :
    n = serial t.host ∧ t.flag ≠ .idle := by
  obtain ⟨request, hpoint | hqueued | hcalling⟩ := hn
  · have hsent := h.sent
    rw [hpoint] at hsent
    cases place with
    | sending _ =>
      cases hsent
      exact ⟨rfl, h.flag.mpr rfl⟩
    | _ => contradiction
  · rw [h.requests] at hqueued
    cases place with
    | queued _ => exact ⟨congrArg Prod.fst (List.mem_singleton.mp hqueued), h.flag.mpr rfl⟩
    | _ => contradiction
  · have hworker := hcalling.symm.trans h.worker
    cases place with
    | calling _ =>
      cases hworker
      exact ⟨rfl, h.flag.mpr rfl⟩
    | _ => contradiction

omit [CryptoRng R] in
theorem Custody.processing (h : t.Custody place) (hn : t.Processing n) : n = serial t.host := by
  rcases hn with ⟨request, hcalling⟩ | ⟨response, hanswering⟩
  · exact (h.pending ⟨request, .inr (.inr hcalling)⟩).1
  · have hworker := hanswering.symm.trans h.worker
    cases place with
    | answering _ =>
      cases hworker
      rfl
    | _ => contradiction

/-- An interrupt for a pending request is with the flag or on its way there. -/
theorem Sane.not_lost (h : t.Sane) (hpending : t.Pending n) (hn : n ∈ t.raised) :
    t.Holds ∨ t.flag = .interrupted := by
  obtain ⟨place, hplace⟩ := h.custody
  obtain ⟨rfl, hflag⟩ := hplace.pending hpending
  exact h.kept hn (hplace.busy_of_flag hflag) hflag

/-- The worker sees the flag interrupted only while it processes a request for which the host
raised an interrupt; an interrupt for a request that is pending stays with the host or the
transport until the flag has it. -/
theorem cancellation_confined {t : Transport R} (ht : (transportMachine R).Reachable t) :
    (∀ act n, t.Enabled act → (n ∈ (t.step act).raised ↔ n ∈ t.raised ∨ t.Raises act n)) ∧
    (∀ n, t.Processing n → t.flag = .interrupted → n ∈ t.raised) ∧
    (∀ n, t.Pending n → n ∈ t.raised → t.Holds ∨ t.flag = .interrupted) ∧
    ∀ n, t.Pending n → n ∈ t.raised → t.point = .collecting ∨ t.point = .submitting →
      t.flag = .interrupted := by
  have h := sane_reachable ht
  refine ⟨fun act n hact => h.mem_raised_step hact, ?_, fun n => h.not_lost, ?_⟩
  · intro n hn hflag
    obtain ⟨place, hplace⟩ := h.custody
    rw [hplace.processing hn]
    exact h.observed hflag
  · intro n hpending hn hpoint
    refine (h.not_lost hpending hn).resolve_left ?_
    rintro (hraised | hpassing)
    · have hclear : t.point.isClear = true := by rcases hpoint with hp | hp <;> rw [hp] <;> rfl
      rw [h.clear hclear] at hraised
      contradiction
    · rcases hpoint with hp | hp <;> rw [hp] at hpassing <;> contradiction

end Transport

def cancelledCall : List Act :=
  [.beginPoll, .readFrame (Host.initFrame 5 .cbor [4]), .handleFrame none 0, .endRead,
    .takeInterrupt, .endCollect, .takeRequest, .sendRequest, .startCall, .identify true 1,
    .observe none false 2, .selectFrame, .beginPoll, .readFrame (Host.initFrame 5 .cancel []),
    .handleFrame none 5, .endRead, .takeInterrupt, .interrupt]

theorem executes_cancelledCall :
    (transportMachine Draws).Executes (Transport.fresh freshHost) cancelledCall :=
  ⟨rfl, ⟨.poll, rfl⟩, ⟨.poll, _, rfl⟩, ⟨.poll, rfl⟩, ⟨.poll, rfl⟩, rfl, rfl, ⟨_, _, rfl⟩,
    ⟨rfl, by decide +kernel⟩, rfl, rfl, ⟨_, rfl⟩, rfl, ⟨.poll, rfl⟩, ⟨.poll, _, rfl⟩,
    ⟨.poll, rfl⟩, ⟨.poll, rfl⟩, ⟨.poll, rfl⟩, trivial⟩

theorem cancellation_confined_cancel :
    let t := (transportMachine Draws).run (Transport.fresh freshHost) cancelledCall
    t.Processing 0 ∧ t.flag = .interrupted ∧ 0 ∈ t.raised := by
  intro t
  have hprocessing : t.Processing 0 := .inl ⟨⟨.cbor, [4]⟩, by decide +kernel⟩
  have hflag : t.flag = .interrupted := by decide +kernel
  have ht : (transportMachine Draws).Reachable t :=
    ⟨_, _, ⟨_, _, _, rfl⟩, executes_cancelledCall, rfl⟩
  obtain ⟨-, hobserved, -⟩ := Transport.cancellation_confined ht
  exact ⟨hprocessing, hflag, hobserved 0 hprocessing hflag⟩

end SoftwareAuthenticator.Ctaphid
