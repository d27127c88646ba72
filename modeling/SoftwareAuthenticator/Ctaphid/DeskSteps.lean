import SoftwareAuthenticator.Ctaphid.Noninterference
import SoftwareAuthenticator.Ctaphid.Desk

/-!
# The host keeps an answer desk

Every event of the host is a step at the answer desk. A packet is a step for the MSG
request it completes, and an answer of the application is a response at the desk.
-/

namespace SoftwareAuthenticator.Ctaphid

def Call.isQuiet : Call → Bool
  | .event (.packet _ _) | .event .take | .event (.answer _ _ _) => false
  | _ => true

namespace Host

variable {R : Type}

variable {host host' : Host R} {kept : Option Prompt}

def errand (host : Host R) : Errand :=
  match host.state with
  | .processing p =>
    match p.request with
    | some payload => .waiting ⟨p.channel, ⟨p.command, payload⟩⟩
    | none => .served p.channel p.command
  | _ => .other

def U2fPoll.prompt (poll : U2fPoll) : Prompt :=
  ⟨poll.channel, poll.request, poll.answer.map Prod.fst⟩

def desk (host : Host R) : Desk where
  taken := host.taken
  deliveries := host.deliveries
  busy := host.appBusy
  command := host.appCommand
  errand := host.errand
  prompt := host.u2f.map U2fPoll.prompt

variable {completed : Option (UInt32 × Bytes)}

@[simp] theorem desk_pushFrames (host : Host R) (frames : List Frame) :
    (host.pushFrames frames).desk = host.desk := rfl

@[simp] theorem desk_enqueueError (host : Host R) (channel : UInt32) (code : ErrorCode) :
    (host.enqueueError channel code).desk = host.desk := by
  rw [enqueueError_eq, desk_pushFrames]

@[simp] theorem desk_enqueueMessage (host : Host R) (channel : UInt32) (command : Command)
    (payload : Bytes) :
    (enqueueMessage host channel command payload).desk = { host.desk with errand := .other } := by
  simp [enqueueMessage_eq, desk, errand, pushFrames]

theorem step_refl (host : Host R) : Desk.Step completed host.desk host.desk :=
  .of_fields rfl rfl rfl rfl (.inl rfl) (.inl rfl)

theorem step_enqueueMessage (host : Host R) (channel : UInt32) (command : Command)
    (payload : Bytes) :
    Desk.Step completed host.desk (enqueueMessage host channel command payload).desk := by
  rw [desk_enqueueMessage]
  exact .quiet (.inr rfl) (.inl rfl)

def logs (host : Host R) : List Taken × List Delivery × Bool × Option Command :=
  (host.taken, host.deliveries, host.appBusy, host.appCommand)

def prompt (host : Host R) : Option Prompt := host.u2f.map U2fPoll.prompt

/-- An update that keeps the logs, and at most drops the transaction or the prompt. -/
theorem step_of_logs (hlogs : host'.logs = host.logs)
    (herrand : host'.errand = host.errand ∨ host'.errand = .other)
    (hprompt : host'.prompt = host.prompt ∨ host'.prompt = none) :
    Desk.Step completed host.desk host'.desk := by
  simp only [logs, Prod.mk.injEq] at hlogs
  exact .of_fields hlogs.1 hlogs.2.1 hlogs.2.2.1 hlogs.2.2.2 herrand hprompt

theorem step_respondWith (hlogs : host'.logs = host.logs)
    (hprompt : host'.prompt = host.prompt ∨ host'.prompt = none) (channel : UInt32)
    (command : Command) (payload : Bytes) :
    Desk.Step completed host.desk (enqueueMessage host' channel command payload).desk := by
  simp only [logs, Prod.mk.injEq] at hlogs
  rw [desk_enqueueMessage]
  exact .of_fields hlogs.1 hlogs.2.1 hlogs.2.2.1 hlogs.2.2.2 (.inr rfl) hprompt

theorem step_processMessage (hlogs : host'.logs = host.logs) (hidle : host.errand = .other)
    (channel : UInt32) (command : Command) (now : ℕ) :
    Desk.Step completed host.desk (host'.processMessage channel command now).desk := by
  have haccept : Desk.Step completed host.desk _ :=
    .accept ⟨channel, ⟨command, host'.message⟩⟩ hidle
  have hdesk : (host'.processMessage channel command now).desk = { host.desk with
      errand := .waiting ⟨channel, ⟨command, host'.message⟩⟩, prompt := none } := by
    simp only [logs, Prod.mk.injEq] at hlogs
    simp [desk, processMessage, errand, hlogs]
  rw [hdesk]
  exact haccept

theorem step_completeUnpolled (hlogs : host'.logs = host.logs) (hidle : host.errand = .other)
    (hprompt : host'.prompt = host.prompt) (channel : UInt32) (now : ℕ) :
    Desk.Step completed host.desk (host'.completeUnpolled channel now).desk := by
  unfold completeUnpolled
  split
  · apply step_respondWith
    · exact hlogs
    · exact .inl hprompt
  · dsimp only
    split
    · apply step_respondWith
      · exact hlogs
      · exact .inl hprompt
    · apply step_processMessage
      · exact hlogs
      · exact hidle

/-- A complete MSG request collects the answer kept for it, or waits, or is refused. -/
theorem step_completeMsg (hidle : host.errand = .other) (channel : UInt32) (now : ℕ)
    (hcompleted : completed = some (channel, host.message)) :
    Desk.Step completed host.desk (host.completeMsg channel now).desk := by
  unfold completeMsg
  split
  · exact step_completeUnpolled rfl hidle rfl _ _
  · next poll hpoll =>
    split
    · next hmatch =>
      split
      · apply step_respondWith
        · rfl
        · exact .inl (by simp [prompt, hpoll, U2fPoll.prompt])
      · next answer expires hanswer =>
        split
        · apply step_completeUnpolled
          · rfl
          · exact hidle
          · simp [prompt, hpoll, U2fPoll.prompt]
        · have hkept : host.desk.prompt = some (U2fPoll.prompt poll) := by simp [desk, hpoll]
          have hreply : (U2fPoll.prompt poll).answer = some answer := by
            simp [U2fPoll.prompt, hanswer]
          have hcollect : Desk.Step completed host.desk _ := .collect hidle hkept hreply
            (by rw [hcompleted, U2fPoll.prompt, hmatch.1, hmatch.2])
          have hdesk : (enqueueAnswer { host with u2f := none, state := .idle } channel .msg
                answer).desk =
              { host.desk with
                deliveries := host.deliveries ++ [⟨poll.channel, .msg, answer⟩]
                prompt := none } := by
            rw [enqueueAnswer, desk_enqueueMessage]
            simp [desk, hidle, hmatch.1]
          rw [hdesk]
          exact hcollect
    · split
      · exact step_enqueueMessage _ _ _ _
      · exact step_completeUnpolled rfl hidle rfl _ _

theorem step_completeMessage (hidle : host.errand = .other) (channel : UInt32) (command : Command)
    (now : ℕ) (hcompleted : command = .msg → completed = some (channel, host.message)) :
    Desk.Step completed host.desk (host.completeMessage channel command now).desk := by
  unfold completeMessage
  split
  · exact step_of_logs rfl (.inr rfl) (.inl rfl)
  · unfold completeLock
    dsimp only
    split
    · exact step_enqueueMessage _ _ _ _
    · apply step_respondWith
      · rfl
      · exact .inl rfl
  · exact step_completeMsg hidle channel now (hcompleted rfl)
  · apply step_respondWith
    · rfl
    · exact .inl rfl
  · exact step_processMessage rfl hidle _ _ _

theorem step_startMessage (hidle : host.errand = .other) (channel : UInt32)
    (command : Option Command) (length : ℕ) (data : Bytes) (now : ℕ)
    (hcompleted : command = some .msg → length ≤ initData →
      completed = some (channel, data.take length)) :
    Desk.Step completed host.desk
      (host.startMessage channel command length data now).desk := by
  unfold startMessage
  split
  · exact step_enqueueMessage _ _ _ _
  · split
    · exact step_enqueueMessage _ _ _ _
    · next command =>
      split
      · exact step_enqueueMessage _ _ _ _
      · split
        · exact step_enqueueMessage _ _ _ _
        · dsimp only
          split
          · next hlength =>
            have hmessage : ({ host with message := data.take (min length initData) } :
                Host R).errand = .other := hidle
            refine step_completeMessage hmessage channel command now (fun hmsg => ?_)
            rw [hcompleted (by rw [hmsg]) hlength, Nat.min_eq_left hlength]
          · exact step_of_logs rfl (.inr rfl) (.inl rfl)

theorem errand_of_busyChannel_none (h : host.busyChannel = none) : host.errand = .other := by
  rw [busyChannel_eq, Option.or_eq_none_iff] at h
  cases hs : host.state with
  | processing p => simp [State.channel, hs] at h
  | _ => simp [errand, hs]

theorem step_handleRequest (host : Host R) (channel : UInt32) (command : Option Command)
    (length : ℕ) (data : Bytes) (now : ℕ)
    (hcompleted : command = some .msg → length ≤ initData →
      completed = some (channel, data.take length)) :
    Desk.Step completed host.desk
      (host.handleRequest channel command length data now).desk := by
  unfold handleRequest
  split
  · rw [desk_enqueueError]
    exact step_refl host
  · split
    · next hbusy =>
      exact step_startMessage (errand_of_busyChannel_none hbusy) _ _ _ _ _ hcompleted
    · next busy hbusy =>
      split
      · rw [desk_enqueueError]
        exact step_refl host
      · next hrefused =>
        have hidle : host.errand = .other := by
          cases hs : host.state with
          | processing p => simp [refusedWhileBusy, hs] at hrefused
          | _ => simp [errand, hs]
        split
        · exact step_enqueueMessage _ _ _ _
        · exact step_startMessage hidle _ _ _ _ _ hcompleted

theorem step_handleCancel (host : Host R) (channel : UInt32) :
    Desk.Step completed host.desk (host.handleCancel channel).desk := by
  unfold handleCancel
  split
  · split
    · exact step_refl host
    · split
      · apply step_respondWith
        · rfl
        · exact .inl rfl
      · exact step_of_logs rfl (.inl rfl) (.inl rfl)
  · exact step_refl host

theorem step_resynchronise (host : Host R) (channel assigned : UInt32) (data : Bytes) :
    Desk.Step completed host.desk (host.resynchronise channel assigned data).desk := by
  unfold resynchronise
  dsimp only
  apply step_respondWith
  · rfl
  · simp only [prompt]
    split
    · exact .inr rfl
    · exact .inl rfl

theorem step_refuseInit (host : Host R) (underWay : Bool) (channel : UInt32) (code : ErrorCode) :
    Desk.Step completed host.desk (host.refuseInit underWay channel code).desk := by
  unfold refuseInit
  split
  · rw [desk_enqueueError]
    exact step_refl host
  · exact step_enqueueMessage _ _ _ _

theorem step_handleContinuation (host : Host R) (frame : Frame) (now : ℕ)
    (hcontinuation : frame.byte 4 &&& 0x80 = 0) :
    Desk.Step (host.completedMsg frame) host.desk
      (host.handleContinuation frame.channel (frame.byte 4) (frame.bytes.drop 5) now).desk := by
  unfold handleContinuation
  split
  · next receiving command length nextSequence last hs =>
    split
    · exact step_refl host
    · next hchannel =>
      simp only [ne_eq, not_not] at hchannel
      split
      · exact step_enqueueMessage _ _ _ _
      · next hsequence =>
        simp only [ne_eq, not_not] at hsequence
        dsimp only
        split
        · next hlength =>
          have hidle : ({ host with
              state := .receiving receiving command length (nextSequence + 1) now
              message := host.message ++ (frame.bytes.drop 5).take
                (min (length - host.message.length) contData) } : Host R).errand = .other := rfl
          have hcompleted : command = .msg → host.completedMsg frame =
              some (frame.channel, host.message ++ (frame.bytes.drop 5).take
                (min (length - host.message.length) contData)) := by
            rintro rfl
            simp only [completedMsg, if_pos hcontinuation, hs]
            rw [if_pos ⟨hchannel, hsequence, hlength⟩]
          have hstep := step_completeMessage hidle frame.channel command now hcompleted
          have hdesk : ({ host with
              state := .receiving receiving command length (nextSequence + 1) now
              message := host.message ++ (frame.bytes.drop 5).take
                (min (length - host.message.length) contData) } : Host R).desk = host.desk := by
            simp [desk, errand, hs]
          rwa [hdesk] at hstep
        · exact step_of_logs rfl (.inr rfl) (.inl rfl)
  · exact step_refl host

/-- The logs are the same, and at most the transaction or the prompt is dropped. -/
structure Quiet (host host' : Host R) : Prop where
  logs : host'.logs = host.logs
  errand : host'.errand = host.errand ∨ host'.errand = .other
  prompt : host'.prompt = host.prompt ∨ host'.prompt = none

theorem Quiet.step (h : Quiet host host') :
    Desk.Step completed host.desk host'.desk := step_of_logs h.logs h.errand h.prompt

theorem Quiet.refl (host : Host R) : Quiet host host := ⟨rfl, .inl rfl, .inl rfl⟩

theorem Quiet.trans {a b c : Host R} (hab : Quiet a b) (hbc : Quiet b c) : Quiet a c where
  logs := hbc.logs.trans hab.logs
  errand := by
    rcases hbc.errand with h | h
    · rw [h]
      exact hab.errand
    · exact .inr h
  prompt := by
    rcases hbc.prompt with h | h
    · rw [h]
      exact hab.prompt
    · exact .inr h

theorem isPacket_of_isQuiet {call : Call} (h : call.isQuiet = true) : call.isPacket = false := by
  unfold Call.isPacket
  split
  · cases h
  · rfl

theorem Quiet.move {call : Call} (hcall : call.isQuiet = true)
    (hmove : Move call completed host host') : Quiet host host' := by
  have hpacket := isPacket_of_isQuiet hcall
  cases hmove with
  | receives h | continues h | collects h | identifies h | holds h | holdsMsg h
  | takes h | delivers h | withdraws h | frees h | denies h | keeps h =>
    rw [h] at hcall
    cases hcall
  | leases h | buffers h | interrupts h =>
    rw [hpacket] at h
    cases h
  | replies =>
    rw [enqueueMessage_eq]
    exact ⟨rfl, .inr rfl, .inl rfl⟩
  | polls hpoll | asks hpoll =>
    exact ⟨rfl, .inl rfl, .inl (by simp [Host.prompt, hpoll, U2fPoll.prompt])⟩
  | expires | resets => exact ⟨rfl, .inl rfl, .inr rfl⟩
  | waits hstate => exact ⟨rfl, .inl (by simp [Host.errand, hstate, pushFrames]), .inl rfl⟩
  | submits | ends => exact ⟨rfl, .inr rfl, .inl rfl⟩
  | _ => exact ⟨rfl, .inl rfl, .inl rfl⟩

theorem quiet_handle [CryptoRng R] (host : Host R) {event : Event}
    (hevent : (Call.event event).isQuiet = true) : Quiet host (host.handle event) := by
  have hkeep : ∀ {a b : Host R}, Move (.event event) (host.submittedBy (.event event)) a b →
      Quiet host a → Quiet host b := fun hmove h => h.trans (.move hevent hmove)
  exact (host.moves_of_not_packet (isPacket_of_isQuiet hevent)).keeps hkeep (.refl host)

theorem step_takeAppRequest (host : Host R) :
    Desk.Step completed host.desk host.takeAppRequest.1.desk := by
  unfold takeAppRequest
  split
  · exact step_refl host
  · next hfree =>
    split
    · next p hs =>
      split
      · exact step_refl host
      · next payload hp =>
        have hwaiting : host.desk.errand = .waiting ⟨p.channel, ⟨p.command, payload⟩⟩ := by
          simp [desk, errand, hs, hp]
        refine .take (by simpa [desk] using hfree) hwaiting ?_
        dsimp only
        split
        · next hmsg => exact .inr ⟨hmsg.1, rfl⟩
        · exact .inl rfl
    · exact step_refl host

/-- The desk of a host that has just noted that the application is free. -/
structure Freed (host host' : Host R) (kept : Option Prompt) : Prop where
  desk : host'.desk = { host.desk.free with prompt := kept }

theorem Freed.errand (h : Freed host host' kept) :
    host'.errand = host.desk.errand := congrArg Desk.errand h.desk

theorem respond_respond (response : Bytes) (hfreed : Freed host host' kept)
    (hkept : kept = none ∨ kept = host.desk.prompt ∧ host.desk.command ≠ some .msg) :
    Desk.Respond response host.desk (host'.respond ⟨host.desk.serial, response⟩).desk := by
  have hdiscard (hnot : ∀ channel command, host.desk.errand ≠ .served channel command) :
      Desk.Respond response host.desk host'.desk := by
    rw [hfreed.desk]
    exact .discard (.inr ⟨rfl, fun channel command _ => hnot channel command⟩) hkept
  unfold respond
  split
  · next p hs =>
    cases hp : p.request with
    | some payload =>
      have hwaiting : host.desk.errand = .waiting ⟨p.channel, ⟨p.command, payload⟩⟩ := by
        rw [← hfreed.errand]
        simp [Host.errand, hs, hp]
      simp only [Option.isSome_some, if_true]
      exact hdiscard (by simp [hwaiting])
    | none =>
      have hserved : host.desk.errand = .served p.channel p.command := by
        rw [← hfreed.errand]
        simp [Host.errand, hs, hp]
      have hdeliver : Desk.Respond response host.desk _ := .deliver hserved hkept
      have hdesk : (enqueueAnswer { host' with state := .idle } p.channel p.command
            ⟨host.desk.serial, response⟩).desk =
          { host'.desk with
            deliveries := host'.desk.deliveries ++
              [⟨p.channel, p.command, ⟨host.desk.serial, response⟩⟩]
            errand := .other } := by
        rw [enqueueAnswer, desk_enqueueMessage]
        rfl
      simp only [Option.isSome_none, Bool.false_eq_true, if_false]
      rw [hdesk, hfreed.desk]
      exact hdeliver
  · next hstate =>
    have hother : host.desk.errand = .other := by
      rw [← hfreed.errand]
      cases hs : host'.state with
      | processing p => exact absurd hs (hstate p)
      | _ => simp [Host.errand, hs]
    exact hdiscard (by simp [hother])

theorem respond_retainAnswer {poll : U2fPoll} {errand : Errand} (response : Bytes) (now : ℕ)
    (presenceFinished : Option ℕ)
    (hdesk : host'.desk = { host.desk.free with errand := errand, prompt := none })
    (hcommand : host.desk.command = some .msg)
    (hpoll : host.desk.prompt = some (U2fPoll.prompt poll))
    (herrand : errand = .other ∨ errand = host.desk.errand ∧ host.desk.Detached) :
    Desk.Respond response host.desk
      (host'.retainAnswer poll ⟨host.desk.serial, response⟩ now presenceFinished).desk := by
  unfold retainAnswer
  dsimp only
  split
  · have hretain : Desk.Respond response host.desk _ := .retain hcommand hpoll herrand
    have hkept : ∀ expires, ({ host' with
          u2f := some { poll with answer := some (⟨host.desk.serial, response⟩, expires) } } :
          Host R).desk =
        { host'.desk with
          prompt := some { U2fPoll.prompt poll with
            answer := some ⟨host.desk.serial, response⟩ } } := fun _ => rfl
    rw [hkept, hdesk]
    exact hretain
  · rw [hdesk]
    exact .discard herrand (.inl rfl)

theorem detached_of_servesMsg (hfreed : Freed host host' kept)
    (hcommand : host.desk.command = some .msg) (hserves : host'.servesMsg = false) :
    host.desk.Detached := by
  intro channel command hc hserved
  rw [hcommand, Option.some.injEq] at hc
  rw [← hfreed.errand, ← hc] at hserved
  unfold Host.errand at hserved
  split at hserved
  · next p hs =>
    split at hserved
    · cases hserved
    · next hp =>
      simp only [Errand.served.injEq] at hserved
      simp [servesMsg, hs, hp, hserved.2] at hserves
  · cases hserved

theorem respond_respondToPoll {poll : U2fPoll} (response : Bytes) (now : ℕ)
    (presenceFinished : Option ℕ) (hfreed : Freed host host' none)
    (hcommand : host.desk.command = some .msg)
    (hpoll : host.desk.prompt = some (U2fPoll.prompt poll)) :
    Desk.Respond response host.desk
      (host'.respondToPoll poll ⟨host.desk.serial, response⟩ now presenceFinished).desk := by
  unfold respondToPoll
  split
  · apply respond_respond
    · exact ⟨hfreed.desk⟩
    · exact .inl rfl
  · split
    · refine respond_retainAnswer response now presenceFinished ?_ hcommand hpoll (.inl rfl)
      rw [desk_enqueueMessage]
      exact congrArg (fun desk : Desk => { desk with errand := .other }) hfreed.desk
    · split
      · next hserves =>
        refine respond_retainAnswer response now presenceFinished hfreed.desk hcommand hpoll
          (.inr ⟨rfl, ?_⟩)
        exact detached_of_servesMsg hfreed hcommand (by simpa using hserves)
      · exact respond_respond response hfreed (.inl rfl)

theorem respond_appResponse (host : Host R) (response : Bytes) (now : ℕ)
    (presenceFinished : Option ℕ) :
    Desk.Respond response host.desk (host.appResponse response now presenceFinished).desk := by
  unfold appResponse
  dsimp only
  split
  · next poll hcommand hpoll =>
    apply respond_respondToPoll
    · exact ⟨rfl⟩
    · exact hcommand
    · simp [desk, hpoll]
  · next hnot =>
    have hfreed : Freed host { host with appBusy := false, appCommand := none }
      host.desk.prompt := ⟨rfl⟩
    refine respond_respond response hfreed ?_
    cases hp : host.u2f with
    | none => exact .inl (by simp [desk, hp])
    | some poll => exact .inr ⟨rfl, fun hcommand => hnot poll hcommand hp⟩

theorem expireLease_desk (host : Host R) (now : ℕ) : (host.expireLease now).desk = host.desk := by
  obtain ⟨lease, h⟩ := host.expireLease_eq now
  rw [h]
  rfl

theorem expireLease_completedMsg (host : Host R) (now : ℕ) (frame : Frame) :
    (host.expireLease now).completedMsg frame = host.completedMsg frame := by
  obtain ⟨lease, h⟩ := host.expireLease_eq now
  rw [h]
  rfl

variable [CryptoRng R]

theorem step_handleInit (host : Host R) (channel : UInt32) (length : ℕ) (data : Bytes) :
    Desk.Step completed host.desk (host.handleInit channel length data).desk := by
  rcases handleInit_cases host channel length data with
    heq | ⟨-, -, rng, channels, -, ⟨underWay, code, heq⟩ | ⟨assigned, heq⟩⟩
  · rw [heq, desk_enqueueError]
    exact step_refl host
  · rw [heq]
    exact step_refuseInit { host with rng, channels } underWay channel code
  · rw [heq]
    exact step_resynchronise { host with rng, channels } channel assigned data

theorem step_handleFrame (host : Host R) (frame : Frame) (now : ℕ) :
    Desk.Step (host.completedMsg frame) host.desk (host.handleFrame frame now).desk := by
  rw [← expireLease_desk host now, ← expireLease_completedMsg host now]
  unfold handleFrame
  dsimp only
  split
  · next hcontinuation => exact step_handleContinuation _ frame now hcontinuation
  · next hinit =>
    let touched := (host.expireLease now).withChannels
      ((host.expireLease now).channels.touch frame.channel)
    split
    · exact step_handleCancel touched frame.channel
    · exact step_handleInit touched frame.channel _ _
    · refine step_handleRequest touched frame.channel _ _ _ now (fun hmsg hlength => ?_)
      simp [completedMsg, hinit, hmsg, hlength]

end Host

end SoftwareAuthenticator.Ctaphid
