import SoftwareAuthenticator.Ctaphid.DeskSteps

/-!
# Who receives the application's answers

The desk's invariant holds in every reachable state of the host, so an answer is given out at
most once, only for the channel whose request was handed out last.
-/

namespace SoftwareAuthenticator.Ctaphid

variable {R : Type}

variable {host : Host R} {event : Event} {events : List Event} {request : Taken}

def EndsInError (host : Host R) : Prop :=
  ∃ outgoing, host.pending.getLast? = some outgoing ∧
    outgoing.frame.byte 4 = Command.error.intoU8 ||| 0x80

theorem endsInError_enqueueError (host : Host R) (channel : UInt32) (code : ErrorCode) :
    EndsInError (host.enqueueError channel code) := by
  rw [Host.enqueueError_eq]
  exact ⟨⟨Host.initFrame channel .error [code.toU8], host.nextToken⟩,
    by simp [Host.pushFrames, Host.numbered], rfl⟩

theorem endsInError_finishError (host : Host R) (channel : UInt32) (code : ErrorCode) :
    EndsInError (host.finishError channel code) := by
  have hshort : Host.framesOf channel .error [code.toU8] =
      [Host.initFrame channel .error [code.toU8]] := Host.framesOf_short (by
    simp [initData, packetSize])
  refine ⟨⟨Host.initFrame channel .error [code.toU8], host.nextToken⟩, ?_, rfl⟩
  simp [Host.finishError, Host.enqueueMessage_eq, hshort, Host.pushFrames, Host.numbered]

variable [CryptoRng R]

def completedBy (host : Host R) : Event → Option (UInt32 × Bytes)
  | .packet frame _ => host.completedMsg frame
  | _ => none

theorem desk_handle (host : Host R) (event : Event) :
    (∃ response now presenceFinished, event = .answer response now presenceFinished ∧
      Desk.Respond response host.desk (host.handle event).desk) ∨
    Desk.Step (completedBy host event) host.desk (host.handle event).desk := by
  cases event with
  | packet frame now => exact .inr (host.step_handleFrame frame now)
  | take => exact .inr host.step_takeAppRequest
  | answer response now presenceFinished =>
    exact .inl ⟨response, now, presenceFinished, rfl,
      host.respond_appResponse response now presenceFinished⟩
  | _ => exact .inr (host.quiet_handle rfl).step

theorem sound_handle (h : host.desk.Sound) (henabled : Enabled host event) :
    (host.handle event).desk.Sound := by
  rcases desk_handle host event with ⟨response, now, finished, rfl, hr⟩ | hs
  · exact h.respond henabled hr
  · exact h.step hs

theorem sound_initial (h : (hostMachine R).initial host) : host.desk.Sound := by
  obtain ⟨rng, version, capabilities, rfl⟩ := h
  constructor <;> simp [Host.desk, Host.withRng, Host.errand]

theorem reachable_sound (h : (hostMachine R).Reachable host) : host.desk.Sound :=
  Machine.invariant_reachable (I := fun host : Host R => host.desk.Sound)
    (fun _ => sound_initial) (fun _ _ hs he => sound_handle hs he) h

def given (host : Host R) : Event → List AppAnswer
  | .answer response _ _ => [⟨host.taken.length - 1, response⟩]
  | _ => []

theorem committed_handle (h : host.desk.Sound) (henabled : Enabled host event) :
    (host.handle event).desk.committed.Sublist (host.desk.committed ++ given host event) := by
  rcases desk_handle host event with ⟨response, now, finished, rfl, hr⟩ | hs
  · exact h.committed_respond henabled hr
  · exact (Desk.committed_step hs).trans (List.sublist_append_left _ _)

/-- The answers committed in a run are among those handed over, in order. -/
theorem committed_run (h : host.desk.Sound) (hevents : (hostMachine R).Executes host events) :
    ((hostMachine R).run host events).desk.committed.Sublist
      (host.desk.committed ++ (hostMachine R).outputs given host events) := by
  induction events generalizing host with
  | nil => simp [Machine.outputs]
  | cons event events ih =>
    have hnext := ih (sound_handle h hevents.1) hevents.2
    have hstep := committed_handle h hevents.1
    refine hnext.trans ?_
    rw [Machine.outputs, ← List.append_assoc]
    exact hstep.append (List.Sublist.refl _)

theorem onlyFrom_run {serial count : ℕ} (hsound : host.desk.Sound)
    (h : Desk.OnlyFrom serial count host.desk) (hevents : (hostMachine R).Executes host events) :
    Desk.OnlyFrom serial count ((hostMachine R).run host events).desk := by
  have hboth := Machine.invariant_along (m := hostMachine R) (p := Enabled)
    (I := fun host => host.desk.Sound ∧ Desk.OnlyFrom serial count host.desk)
    (fun host event h he => ⟨sound_handle h.1 he, by
      rcases desk_handle host event with ⟨response, now, finished, rfl, hr⟩ | hs
      · exact h.2.respond h.1 he hr
      · exact h.2.step h.1 hs⟩) ⟨hsound, h⟩ hevents
  exact hboth.2

def Lasts (host : Host R) (event : Event) : Prop :=
  Enabled host event ∧ ∃ p, (host.handle event).state = .processing p

theorem Lasts.errand (h : Lasts host event) : (host.handle event).desk.errand ≠ .other := by
  obtain ⟨-, p, hs⟩ := h
  cases hp : p.request <;> simp [Host.desk, Host.errand, hs, hp]

theorem carries_run {taken : List Taken} (h : Desk.Carries taken request host.desk)
    (hevents : (hostMachine R).Along Lasts host events) :
    Desk.Carries taken request ((hostMachine R).run host events).desk := by
  refine Machine.invariant_along (I := fun host : Host R =>
    Desk.Carries taken request host.desk) (fun host event h hlasts => ?_) h hevents
  rcases desk_handle host event with ⟨response, now, finished, rfl, hr⟩ | hs
  · exact h.respond hr hlasts.errand
  · exact h.step hs hlasts.errand

theorem sound_run (h : host.desk.Sound) (hevents : (hostMachine R).Executes host events) :
    ((hostMachine R).run host events).desk.Sound :=
  Machine.invariant_along (I := fun host : Host R => host.desk.Sound)
    (fun _ _ hs he => sound_handle hs he) h hevents

theorem executes_of_lasts (h : (hostMachine R).Along Lasts host events) :
    (hostMachine R).Executes host events := by
  induction events generalizing host with
  | nil => trivial
  | cons event events ih => exact ⟨h.1.1, ih h.2⟩

/-- `delivery` answers the request handed out last: with the answer just given, or with one
kept for the MSG request that is repeated. -/
def AnswersLast (host : Host R) (event : Event) (delivery : Delivery) : Prop :=
  ∃ request, host.taken.getLast? = some request ∧ delivery.channel = request.channel ∧
    delivery.command = request.request.command ∧
    delivery.answer.serial + 1 = host.taken.length ∧
    ((∃ now presenceFinished, event = .answer delivery.answer.response now presenceFinished) ∨
      ∃ frame now, event = .packet frame now ∧ request.request.command = .msg ∧
        host.completedMsg frame = some (request.channel, request.request.payload))

theorem deliveries_handle (h : host.desk.Sound) (henabled : Enabled host event) :
    (host.handle event).deliveries = host.deliveries ∨
      ∃ delivery, (host.handle event).deliveries = host.deliveries ++ [delivery] ∧
        AnswersLast host event delivery := by
  rcases desk_handle host event with ⟨response, now, finished, rfl, hr⟩ | hs
  · rcases h.deliveries_respond henabled hr with hsame | ⟨request, hlast, hnew, hserial⟩
    · exact .inl hsame
    · exact .inr ⟨_, hnew, request, hlast, rfl, rfl, hserial, .inl ⟨now, finished, rfl⟩⟩
  · rcases h.deliveries_step hs with hsame | ⟨prompt, answer, hcompleted, hnew, hserial, hlast⟩
    · exact .inl hsame
    · refine .inr ⟨_, hnew, _, hlast, rfl, rfl, hserial, .inr ?_⟩
      cases event with
      | packet frame now => exact ⟨frame, now, rfl, rfl, hcompleted⟩
      | _ => cases hcompleted

theorem deliveries_run (h : host.desk.Sound) (hevents : (hostMachine R).Executes host events) :
    host.deliveries <+: ((hostMachine R).run host events).deliveries := by
  induction events generalizing host with
  | nil => exact List.prefix_refl _
  | cons event events ih =>
    have hstep : host.deliveries <+: (host.handle event).deliveries := by
      rcases deliveries_handle h hevents.1 with hsame | ⟨delivery, hnew, -⟩
      · rw [hsame]
      · rw [hnew]
        exact List.prefix_append _ _
    exact hstep.trans (ih (sound_handle h hevents.1) hevents.2)

def InitAccepted (host : Host R) (frame : Frame) (now : ℕ) : Prop :=
  frame.isInit ∧ ∃ outgoing, (host.handleFrame frame now).pending.getLast? = some outgoing ∧
    outgoing.frame.byte 4 = Command.init.intoU8 ||| 0x80

variable {frame : Frame}

/-- An accepted INIT resynchronises a channel that nothing hinders. -/
theorem handleFrame_initAccepted {now : ℕ} (h : InitAccepted host frame now) :
    ∃ lease channels rng assigned data,
      ({ host with lease, channels, rng } : Host R).Admits frame.channel ∧
      host.handleFrame frame now =
        Host.resynchronise { host with lease, channels, rng } frame.channel assigned data := by
  obtain ⟨hinit, outgoing, hlast, hbyte⟩ := h
  have herror : ¬ EndsInError (host.handleFrame frame now) := by
    rintro ⟨outgoing', hlast', hbyte'⟩
    rw [hlast, Option.some.injEq] at hlast'
    rw [← hlast', hbyte] at hbyte'
    exact absurd hbyte' (by decide)
  obtain ⟨lease, hlease⟩ := host.expireLease_eq now
  have heq : host.handleFrame frame now = Host.handleInit
      { host with lease, channels := host.channels.touch frame.channel } frame.channel
      (ofBeBytes16 (frame.byte 5) (frame.byte 6)) (frame.bytes.drop 7) := by
    unfold Host.handleFrame
    dsimp only
    rw [hlease, if_neg hinit.1, hinit.2]
  rcases Host.handleInit_cases { host with lease, channels := host.channels.touch frame.channel }
      frame.channel (ofBeBytes16 (frame.byte 5) (frame.byte 6)) (frame.bytes.drop 7) with
    hcase | ⟨hfree, hbusy, rng, channels, -, ⟨underWay, code, hcase⟩ | ⟨assigned, hcase⟩⟩
  · rw [heq, hcase] at herror
    exact absurd (endsInError_enqueueError _ _ _) herror
  · rw [heq, hcase] at herror
    cases underWay with
    | true => exact absurd (endsInError_enqueueError _ _ _) herror
    | false => exact absurd (endsInError_finishError _ _ _) herror
  · exact ⟨lease, channels, rng, assigned, _, ⟨hfree, hbusy⟩, heq.trans hcase⟩

/-- An accepted INIT ends the transaction, and the prompt of its channel. -/
theorem desk_initAccepted {now : ℕ} (h : InitAccepted host frame now) :
    (host.handleFrame frame now).errand = .other ∧
      (host.handleFrame frame now).taken = host.taken ∧
      (host.handleFrame frame now).deliveries = host.deliveries ∧
      ∀ poll, (host.handleFrame frame now).u2f = some poll →
        host.u2f = some poll ∧ poll.channel ≠ frame.channel := by
  obtain ⟨lease, channels, rng, assigned, data, -, heq⟩ := handleFrame_initAccepted h
  rw [heq, Host.resynchronise, Host.enqueueMessage_eq]
  refine ⟨rfl, rfl, rfl, fun poll hpoll => ?_⟩
  simp only [Host.pushFrames] at hpoll
  split at hpoll
  · cases hpoll
  · next hother =>
    rw [hpoll] at hother
    exact ⟨hpoll, by simpa using hother⟩

theorem onlyFrom_initAccepted {now : ℕ} (hsound : host.desk.Sound)
    (hlast : host.taken.getLast? = some request) (hchannel : frame.channel = request.channel)
    (h : InitAccepted host frame now) :
    Desk.OnlyFrom host.taken.length host.deliveries.length
      (host.handleFrame frame now).desk := by
  obtain ⟨herrand, htaken, hdeliveries, hu2f⟩ := desk_initAccepted h
  have hnone : (host.handleFrame frame now).u2f = none := by
    cases hp : (host.handleFrame frame now).u2f with
    | none => rfl
    | some poll =>
      obtain ⟨hpoll, hne⟩ := hu2f poll hp
      have hasked := (hsound.asked (Host.U2fPoll.prompt poll) (by simp [Host.desk, hpoll])).1
      have hlast' : host.desk.taken.getLast? = some request := hlast
      rw [hlast', Option.some.injEq] at hasked
      rw [hchannel, hasked] at hne
      exact absurd rfl hne
  have htaken' : (host.handleFrame frame now).desk.taken = host.taken := htaken
  have hdeliveries' : (host.handleFrame frame now).desk.deliveries = host.deliveries :=
    hdeliveries
  refine ⟨by rw [htaken'], ?_, by rw [hdeliveries'], fun _ channel command => ?_, fun _ => ?_⟩
  · rw [hdeliveries', List.drop_length]
    intro delivery hd
    cases hd
  · have herrand' : (host.handleFrame frame now).desk.errand = .other := herrand
    rw [herrand']
    simp
  · simp [Host.desk, hnone]

omit [CryptoRng R] in
/-- A request that waits for the application can only be given answers to come. -/
theorem onlyFrom_waiting (hsound : host.desk.Sound) (h : host.desk.errand = .waiting request) :
    Desk.OnlyFrom host.taken.length host.deliveries.length host.desk where
  taken := le_refl _
  deliveries delivery hd := by
    have hnil : host.desk.deliveries.drop host.deliveries.length = [] := List.drop_length
    rw [hnil] at hd
    cases hd
  count := le_refl _
  errand _ channel command := by simp [h]
  prompt _ := hsound.waiting request h

/-- A request whose channel is resynchronised while the application works on it is not answered. -/
theorem serial_ne_of_initAccepted {now : ℕ} {later : List Event} (hsound : host.desk.Sound)
    (hbusy : host.appBusy = true) (hlast : host.taken.getLast? = some request)
    (hchannel : frame.channel = request.channel) (haccepted : InitAccepted host frame now)
    (hlater : (hostMachine R).Executes (host.handleFrame frame now) later) :
    ∀ delivery ∈ ((hostMachine R).run (host.handleFrame frame now) later).deliveries,
      delivery.answer.serial + 1 ≠ host.taken.length := by
  intro delivery hdelivery
  have hnext : (host.handleFrame frame now).desk.Sound :=
    hsound.step (host.step_handleFrame frame now)
  have honly := onlyFrom_run hnext (onlyFrom_initAccepted hsound hlast hchannel haccepted) hlater
  have hprefix : host.deliveries <+:
      ((hostMachine R).run (host.handleFrame frame now) later).deliveries := by
    rw [← (desk_initAccepted haccepted).2.2.1]
    exact deliveries_run hnext hlater
  obtain ⟨new, hnew⟩ := hprefix
  rw [← hnew] at hdelivery
  rcases List.mem_append.mp hdelivery with hold | hfresh
  · have := hsound.undelivered hbusy delivery hold
    have hlen : host.desk.taken.length = host.taken.length := rfl
    omega
  · have hdrop := honly.deliveries delivery (by
      have hdesk : ((hostMachine R).run (host.handleFrame frame now) later).desk.deliveries =
        host.deliveries ++ new := hnew.symm
      rw [hdesk, List.drop_left]
      exact hfresh)
    omega

/-- As long as its transaction lasts, a request that waits is given only the answer to itself. -/
theorem own_answer_of_waiting {later : List Event} (hsound : host.desk.Sound)
    (hwaiting : host.desk.errand = .waiting request)
    (hlasts : (hostMachine R).Along Lasts host later)
    (henabled : Enabled ((hostMachine R).run host later) event) (delivery : Delivery)
    (hnew : (((hostMachine R).run host later).handle event).deliveries =
      ((hostMachine R).run host later).deliveries ++ [delivery]) :
    delivery.channel = request.channel ∧ delivery.answer.serial = host.taken.length ∧
      ((hostMachine R).run host later).taken = host.taken ++ [request] := by
  have hcarries := carries_run (.inl ⟨hwaiting, rfl⟩) hlasts
  have hlater := sound_run hsound (executes_of_lasts hlasts)
  rcases deliveries_handle hlater henabled with hsame | ⟨delivery', hnew', taken, hlast,
    hchannel, -, hserial, -⟩
  · rw [hsame] at hnew
    simp at hnew
  · rw [hnew', List.append_cancel_left_eq, List.cons.injEq] at hnew
    obtain ⟨rfl, -⟩ := hnew
    rcases hcarries with ⟨hstill, htaken⟩ | ⟨-, htaken⟩
    · -- The request still waits, so the answer would be one to an earlier request.
      have honly := onlyFrom_run hlater (onlyFrom_waiting hlater hstill)
        (show (hostMachine R).Executes _ [event] from ⟨henabled, trivial⟩)
      have hserial' := honly.deliveries delivery' (by
        have hdesk : ((hostMachine R).run ((hostMachine R).run host later) [event]).desk.deliveries
          = ((hostMachine R).run host later).deliveries ++ [delivery'] := hnew'
        rw [hdesk, List.drop_left]
        exact List.mem_singleton.mpr rfl)
      omega
    · have htaken' : ((hostMachine R).run host later).taken = host.taken ++ [request] := htaken
      rw [htaken'] at hlast hserial
      simp only [List.getLast?_append, List.getLast?_singleton, Option.some_or,
        Option.some.injEq] at hlast
      simp only [List.length_append, List.length_singleton] at hserial
      exact ⟨by rw [hchannel, ← hlast], by omega, htaken'⟩

def freshHost : Host Draws := Host.withRng ⟨[]⟩ ⟨0, 0, 0⟩ 0

end SoftwareAuthenticator.Ctaphid
