import SoftwareAuthenticator.Ctaphid.Bounds

/-!
# A refused U2F request is not asked again while it is repeated

The host remembers a refusal with the time at which the client last polled. A repeat within three
seconds is refused by the host itself and renews that time.
-/

namespace SoftwareAuthenticator.Ctaphid

open U2fApdu (requestsPresence)

namespace Host

variable {R : Type}

variable {host pre : Host R} {length : ℕ}

/-- What a packet leaves alone before its message is looked into. -/
structure Prepared (host pre : Host R) : Prop where
  pending : pre.pending = host.pending
  nextToken : pre.nextToken = host.nextToken
  u2f : pre.u2f = host.u2f
  deniedPolls : pre.deniedPolls = host.deniedPolls

/-- A request that comes amid something else is refused, or its message is complete. -/
def TakenUp (host host' pre : Host R) (channel : UInt32) (request : Bytes) (now : ℕ) : Prop :=
  (pre.state = host.state ∧ host' = pre.enqueueError channel .channelBusy) ∨
    (pre.message = request ∧ host' = pre.completeMsg channel now)

theorem prepared_expireLease (host : Host R) (now : ℕ) : Prepared host (host.expireLease now) := by
  unfold expireLease
  split
  · split
    · exact ⟨rfl, rfl, rfl, rfl⟩
    · exact ⟨rfl, rfl, rfl, rfl⟩
  · exact ⟨rfl, rfl, rfl, rfl⟩

variable {channel : UInt32}

theorem startMessage_msg (data : Bytes) (now : ℕ)
    (hproper : ¬ (channel = 0 ∨ channel = broadcastCid)) (hlength : length ≤ initData)
    (hdata : length ≠ 0) :
    host.startMessage channel (some .msg) length data now =
      completeMsg { host with message := data.take length } channel now := by
  have hmax : ¬ length > maxMessageSize := Nat.not_lt_of_le (le_trans hlength (by decide))
  have hallowed : lengthAllowed .msg length = true := by
    simp [lengthAllowed, hmax, hdata]
  unfold startMessage
  rw [if_neg hproper]
  simp only [Command.isRequest, hallowed, Bool.not_true, Bool.false_eq_true, if_false,
    if_pos hlength, Nat.min_eq_left hlength]
  rfl

theorem handleRequest_msg (data : Bytes) (now : ℕ)
    (hstate : ∀ c m l s t, host.state ≠ .receiving c m l s t)
    (hproper : ¬ (channel = 0 ∨ channel = broadcastCid)) (hlength : length ≤ initData)
    (hdata : length ≠ 0) :
    ∃ pre, Prepared host pre ∧
      TakenUp host (host.handleRequest channel (some .msg) length data now) pre channel
        (data.take length) now := by
  have hrefused : TakenUp host (host.enqueueError channel .channelBusy) host channel
      (data.take length) now := .inl ⟨rfl, rfl⟩
  have hstarted : TakenUp host (host.startMessage channel (some .msg) length data now)
      { host with message := data.take length } channel (data.take length) now :=
    .inr ⟨rfl, startMessage_msg data now hproper hlength hdata⟩
  unfold handleRequest
  split
  · exact ⟨host, ⟨rfl, rfl, rfl, rfl⟩, hrefused⟩
  · split
    · exact ⟨{ host with message := data.take length }, ⟨rfl, rfl, rfl, rfl⟩, hstarted⟩
    · split
      · exact ⟨host, ⟨rfl, rfl, rfl, rfl⟩, hrefused⟩
      · split
        · rename_i hs
          exact absurd hs (hstate _ _ _ _ _)
        · exact ⟨{ host with message := data.take length }, ⟨rfl, rfl, rfl, rfl⟩, hstarted⟩

theorem handleContinuation_msg {last : ℕ} {sequence : UInt8} {data : Bytes} (now : ℕ)
    (hstate : host.state = .receiving channel .msg length sequence last)
    (hlength : (host.message ++ data.take (min (length - host.message.length) contData)).length =
      length) :
    host.handleContinuation channel sequence data now = completeMsg { host with
        state := .receiving channel .msg length (sequence + 1) now
        message := host.message ++ data.take (min (length - host.message.length) contData) }
      channel now := by
  unfold handleContinuation
  simp only [hstate, ne_eq, not_true_eq_false, if_false]
  rw [if_pos hlength]
  rfl

theorem pending_enqueueMessage_short {command : Command} {payload : Bytes}
    (hpending : pre.pending = host.pending) (htoken : pre.nextToken = host.nextToken)
    (hshort : payload.length ≤ initData) :
    (enqueueMessage pre channel command payload).pending =
      host.pending ++ [⟨initFrame channel command payload, host.nextToken⟩] := by
  rw [enqueueMessage_eq, framesOf_short hshort]
  simp [pushFrames, numbered, hpending, htoken]

variable [CryptoRng R]

variable {request : Bytes}

theorem handleFrame_submitted {frame : Frame}
    (h : host.submittedMsg frame = some (channel, request)) (now : ℕ) :
    ∃ pre, Prepared host pre ∧
      TakenUp host (host.handleFrame frame now) pre channel request now := by
  have hlease := host.prepared_expireLease now
  have hmessage : (host.expireLease now).message = host.message := by
    unfold expireLease
    split
    · split
      · rfl
      · rfl
    · rfl
  unfold submittedMsg at h
  unfold handleFrame
  dsimp only
  split at h
  · rename_i hbyte
    rw [if_pos hbyte]
    unfold completedMsg at h
    rw [if_pos hbyte] at h
    split at h
    · rename_i receiving length sequence last hstate
      dsimp only at h
      split at h
      · rename_i hdone
        obtain ⟨rfl, hsequence, hlength⟩ := hdone
        cases h
        rw [← hmessage] at hlength
        rw [← expireLease_state host now, ← hsequence] at hstate
        rw [handleContinuation_msg now hstate hlength]
        refine ⟨{ host.expireLease now with
            state := .receiving frame.channel .msg length (frame.byte 4 + 1) now
            message := (host.expireLease now).message ++ (frame.bytes.drop 5).take
              (min (length - (host.expireLease now).message.length) contData) },
          ⟨hlease.pending, hlease.nextToken, hlease.u2f, hlease.deniedPolls⟩,
          .inr ⟨?_, rfl⟩⟩
        rw [hmessage]
      · cases h
    · cases h
  · rename_i hbyte
    rw [if_neg hbyte]
    split at h
    · cases h
    · rename_i hstate
      split at h
      · cases h
      · rename_i hproper
        unfold completedMsg at h
        rw [if_neg hbyte] at h
        dsimp only at h
        split at h
        · rename_i hdone
          obtain ⟨hcommand, hlength⟩ := hdone
          cases h
          rw [hcommand]
          rw [not_or, not_or] at hproper
          let touched : Host R := { host.expireLease now with
            channels := (host.expireLease now).channels.touch frame.channel }
          have hnot : ∀ c m l s t, touched.state ≠ .receiving c m l s t := fun c m l s t hs =>
            hstate c m l s t ((expireLease_state host now).symm.trans hs)
          obtain ⟨pre, hpre, htaken⟩ := handleRequest_msg (frame.bytes.drop 7) now hnot
            (not_or.mpr ⟨hproper.1, hproper.2.1⟩) hlength hproper.2.2
          exact ⟨pre, ⟨hpre.pending.trans hlease.pending, hpre.nextToken.trans hlease.nextToken,
            hpre.u2f.trans hlease.u2f, hpre.deniedPolls.trans hlease.deniedPolls⟩,
            htaken.imp_left fun hrefused => ⟨hrefused.1.trans (expireLease_state host now),
              hrefused.2⟩⟩
        · cases h

def busyReport (channel : UInt32) : Frame := initFrame channel .error [ErrorCode.channelBusy.toU8]

def refusalReport (channel : UInt32) : Frame := initFrame channel .msg conditionsNotSatisfied

def Reports (host : Host R) (call : Call) (report : Frame) : Prop :=
  (host.call call).pending = host.pending ++ [⟨report, host.nextToken⟩]

instance (host : Host R) (call : Call) (report : Frame) : Decidable (Reports host call report) :=
  inferInstanceAs (Decidable (_ = _))

/-- The time of a call that completes the MSG request `request` on `channel` and is not
refused as busy. -/
def submission (channel : UInt32) (request : Bytes) (host : Host R) (call : Call) : Option ℕ :=
  if host.submittedBy call = some (channel, request) ∧ ¬ Reports host call (busyReport channel) then
    call.time
  else none

omit [CryptoRng R] in
theorem not_busy_of_refused {host' : Host R}
    (h : host'.pending = host.pending ++ [⟨refusalReport channel, host.nextToken⟩]) :
    host'.pending ≠ host.pending ++ [⟨busyReport channel, host.nextToken⟩] := by
  intro hbusy
  have hreports := h.symm.trans hbusy
  simp only [List.append_cancel_left_eq, List.cons.injEq, OutgoingFrame.mk.injEq] at hreports
  have hbyte : Command.msg.intoU8 ||| 0x80 = Command.error.intoU8 ||| 0x80 :=
    congrArg (Frame.byte · 4) hreports.1.1
  exact absurd hbyte (by decide)

omit [CryptoRng R] in
theorem not_busy_of_held {host' : Host R} (h : host'.pending = host.pending) :
    host'.pending ≠ host.pending ++ [⟨busyReport channel, host.nextToken⟩] := by
  simp [h]

/-- What becomes of a complete request: it is refused as busy, or told to poll, or collects
an answer that was kept, or it is held. -/
inductive Outcome (channel : UInt32) (request : Bytes) (now : ℕ) (host : Host R) : Host R → Prop
  where
  | busy {host' : Host R}
      (hreport : host'.pending = host.pending ++ [⟨busyReport channel, host.nextToken⟩])
      (hu2f : ∀ poll, host'.u2f = some poll → poll.answer = none → host.u2f = some poll)
      (hstate : ∀ processing, host'.state = .processing processing →
        host.state = .processing processing)
      (hdenied : host'.deniedPolls = host.deniedPolls ∨
        refreshDenied channel request now host.deniedPolls = none) :
      Outcome channel request now host host'
  | polled {host' : Host R} {poll : U2fPoll}
      (hpoll : host.u2f = some poll) (hsame : poll.channel = channel ∧ poll.request = request)
      (hu2f : host'.u2f = some { poll with lastPoll := now })
      (hreport : host'.pending = host.pending ++ [⟨refusalReport channel, host.nextToken⟩])
      (hstate : ∀ processing, host'.state ≠ .processing processing) :
      Outcome channel request now host host'
  | collected {host' : Host R} {poll : U2fPoll}
      (hpoll : host.u2f = some poll) (hsame : poll.channel = channel ∧ poll.request = request)
      (hu2f : host'.u2f = none)
      (hstate : ∀ processing, host'.state ≠ .processing processing) :
      Outcome channel request now host host'
  | refused {host' : Host R}
      (hrefreshed : refreshDenied channel request now host.deniedPolls = some host'.deniedPolls)
      (hreport : host'.pending = host.pending ++ [⟨refusalReport channel, host.nextToken⟩])
      (hu2f : ∀ poll, host'.u2f = some poll → poll.answer.isSome = true)
      (hstate : ∀ processing, host'.state ≠ .processing processing) :
      Outcome channel request now host host'
  | held {host' : Host R}
      (hrefused : refreshDenied channel request now host.deniedPolls = none)
      (hpending : host'.pending = host.pending) (hu2f : host'.u2f = none)
      (hstate : host'.state = heldAt channel .msg now request) :
      Outcome channel request now host host'

omit [CryptoRng R] in
theorem outcome_completeUnpolled (now : ℕ) (hpending : pre.pending = host.pending)
    (htoken : pre.nextToken = host.nextToken) (hdenied : pre.deniedPolls = host.deniedPolls)
    (hmessage : pre.message = request)
    (hu2f : ∀ poll, pre.u2f = some poll → poll.answer.isSome = true) :
    Outcome channel request now host (pre.completeUnpolled channel now) := by
  unfold completeUnpolled
  rw [hmessage, hdenied]
  split
  · rename_i polls hpolls
    refine .refused ?_ (pending_enqueueMessage_short hpending htoken (by decide)) ?_ ?_
    · rw [enqueueMessage_eq]
      exact hpolls
    · rw [enqueueMessage_eq]
      exact hu2f
    · rw [enqueueMessage_eq]
      simp
  · rename_i hnone
    dsimp only
    split
    · refine .busy (pending_enqueueMessage_short hpending htoken (by decide)) ?_ ?_ (.inr hnone)
      · rw [finishError, enqueueMessage_eq]
        intro poll hpoll hanswer
        have := hu2f poll hpoll
        rw [hanswer] at this
        cases this
      · rw [finishError, enqueueMessage_eq]
        intro processing hprocessing
        cases hprocessing
    · exact .held hnone hpending rfl rfl

omit [CryptoRng R] in
theorem outcome_completeMsg (hpre : Prepared host pre) (now : ℕ)
    (hmessage : pre.message = request) :
    Outcome channel request now host (pre.completeMsg channel now) := by
  unfold completeMsg
  split
  · rename_i hnone
    refine outcome_completeUnpolled now hpre.pending hpre.nextToken hpre.deniedPolls hmessage ?_
    rw [hnone]
    nofun
  · rename_i poll hpoll
    have hhost : host.u2f = some poll := hpre.u2f.symm.trans hpoll
    split
    · rename_i hsame
      rw [hmessage] at hsame
      split
      · refine .polled hhost hsame ?_
          (pending_enqueueMessage_short hpre.pending hpre.nextToken (by decide)) ?_
        · rw [enqueueMessage_eq]
          rfl
        · rw [enqueueMessage_eq]
          simp
      · rename_i answer expires hanswer
        split
        · refine outcome_completeUnpolled now hpre.pending hpre.nextToken hpre.deniedPolls hmessage ?_
          rintro _ ⟨⟩
          rw [hanswer]
          rfl
        · refine .collected hhost hsame ?_ ?_
          · rw [enqueueAnswer, enqueueMessage_eq]
            rfl
          · rw [enqueueAnswer, enqueueMessage_eq]
            simp
    · split
      · refine .busy (pending_enqueueMessage_short hpre.pending hpre.nextToken (by decide)) ?_ ?_
          (.inl ?_)
        · rw [finishError, enqueueMessage_eq]
          intro poll' hpoll' _
          exact hpre.u2f.symm.trans hpoll'
        · rw [finishError, enqueueMessage_eq]
          intro processing hprocessing
          cases hprocessing
        · rw [finishError, enqueueMessage_eq]
          exact hpre.deniedPolls
      · rename_i hanswered
        refine outcome_completeUnpolled now hpre.pending hpre.nextToken hpre.deniedPolls hmessage ?_
        intro poll' hpoll'
        rw [hpoll] at hpoll'
        cases hpoll'
        cases hanswer : poll.answer with
        | none => rw [hanswer] at hanswered; exact absurd rfl hanswered
        | some answer => rfl

theorem outcome_handleFrame {frame : Frame} (h : host.submittedMsg frame = some (channel, request))
    (now : ℕ) :
    Outcome channel request now host (host.handleFrame frame now) := by
  obtain ⟨pre, hpre, ⟨hstate, heq⟩ | ⟨hmessage, heq⟩⟩ := handleFrame_submitted h now
  · rw [heq, enqueueError_eq]
    refine .busy ?_ (fun poll hpoll _ => hpre.u2f.symm.trans hpoll)
      (fun processing hp => hstate.symm.trans hp) (.inl hpre.deniedPolls)
    change pre.pending ++ numbered pre.nextToken [_] = _
    rw [hpre.pending, hpre.nextToken]
    rfl
  · rw [heq]
    exact outcome_completeMsg hpre now hmessage

end Host

namespace Core

open Host (Move)

variable {R : Type} {call : Call} {completed : Option (UInt32 × Bytes)} {core : Core}
  {host host' : Host R} {channel : UInt32} {request : Bytes}

def Awaits (channel : UInt32) (request : Bytes) (processing : Processing) : Prop :=
  processing.channel = channel ∧ processing.command = .msg ∧ processing.request = some request

/-- What holds of the time since which the request waits, and of the last poll of its prompt,
whether that has an answer or not. -/
structure Pursued (channel : UInt32) (request : Bytes) (waits : ℕ → Prop)
    (polled : Option (AppAnswer × ℕ) → ℕ → Prop) (core : Core) : Prop where
  held : ∀ processing, core.state = .processing processing → Awaits channel request processing →
    waits processing.started
  poll : ∀ poll, core.u2f = some poll → poll.channel = channel → poll.request = request →
    polled poll.answer poll.lastPoll

theorem Pursued.move {waits : ℕ → Prop} {polled : Option (AppAnswer × ℕ) → ℕ → Prop}
    (hasked : ∀ time, waits time → polled none time)
    (hkept : ∀ before after time, polled before time → polled (some after) time)
    (h : host.core.Pursued channel request waits polled)
    (hother : completed ≠ some (channel, request)) (hmove : Move call completed host host') :
    host'.core.Pursued channel request waits polled := by
  cases hmove with
  | receives | continues | identifies | submits | ends => exact ⟨nofun, h.poll⟩
  | replies | delivers =>
    simp only [Host.core_enqueueMessage, Host.core_enqueueAnswer]
    exact ⟨nofun, h.poll⟩
  | collects =>
    rw [Host.core_enqueueAnswer]
    exact ⟨nofun, nofun⟩
  | holds _ _ hcommand =>
    refine ⟨?_, nofun⟩
    rintro _ ⟨⟩ hawaits
    exact absurd hawaits.2.1 hcommand
  | holdsMsg _ _ hcompleted =>
    refine ⟨?_, nofun⟩
    rintro _ ⟨⟩ ⟨rfl, -, hrequest⟩
    cases hrequest
    exact absurd hcompleted hother
  | polls _ _ hcompleted =>
    refine ⟨h.held, ?_⟩
    rintro _ ⟨⟩ rfl rfl
    exact absurd hcompleted hother
  | expires | withdraws | resets | denies => exact ⟨h.held, nofun⟩
  | @waits processing _ _ _ hstate =>
    refine ⟨?_, h.poll⟩
    rintro _ ⟨⟩ hawaits
    exact h.held processing hstate hawaits
  | @asks poll _ _ hpoll =>
    refine ⟨h.held, ?_⟩
    rintro _ ⟨⟩ hchannel hrequest
    exact h.poll poll hpoll hchannel hrequest
  | @takes processing payload _ _ hstate hrequest =>
    refine ⟨?_, fun poll hpoll hchannel hsame => ?_⟩
    · rintro _ ⟨⟩ hawaits
      cases hawaits.2.2
    · dsimp only [Host.core] at hpoll
      split at hpoll
      · rename_i hmsg
        cases hpoll
        refine hasked _ (h.held processing hstate ⟨hchannel, hmsg.1, ?_⟩)
        rw [hrequest]
        exact congrArg some hsame
      · exact h.poll poll hpoll hchannel hsame
  | @keeps poll _ _ _ _ _ _ hpoll =>
    refine ⟨h.held, ?_⟩
    rintro _ ⟨⟩ hchannel hrequest
    exact hkept _ _ _ (h.poll poll hpoll hchannel hrequest)
  | _ => exact ⟨h.held, h.poll⟩

theorem Pursued.aborted {waits : ℕ → Prop} {polled : Option (AppAnswer × ℕ) → ℕ → Prop}
    (h : core.Pursued channel request waits polled) {channel' : UInt32} {u2f : Option U2fPoll}
    (hu2f : u2f = core.u2f ∨ u2f = none) (token : ℕ) :
    (core.aborted channel' u2f token).Pursued channel request waits polled := by
  refine ⟨nofun, ?_⟩
  rcases hu2f with rfl | rfl
  · exact h.poll
  · exact nofun

/-- The request waits since, or its prompt was polled at, the time `last`. -/
abbrev Tracks (channel : UInt32) (request : Bytes) (last : Option ℕ) : Core → Prop :=
  Pursued channel request (last = some ·) fun answer time => answer = none → last = some time

end Core

variable {R : Type} [CryptoRng R] {channel : UInt32} {request : Bytes}

/-- The host, and the time at which `request` was last submitted on `channel`. -/
structure Polling (R : Type) where
  host : Host R
  last : Option ℕ

def pollingMachine (R : Type) [CryptoRng R] (channel : UInt32) (request : Bytes) :
    Machine (Polling R) Call where
  initial s := ∃ rng version capabilities, s = ⟨Host.withRng rng version capabilities, none⟩
  enabled _ _ := True
  step s call := ⟨s.host.call call, (s.host.submission channel request call).or s.last⟩

variable {call : Call}

namespace Host

variable {host : Host R}

theorem submission_of_not (h : host.submittedBy call ≠ some (channel, request)) :
    host.submission channel request call = none := by
  unfold submission
  rw [if_neg fun hboth => h hboth.1]

theorem submission_of_busy (h : Reports host call (busyReport channel)) :
    host.submission channel request call = none := by
  unfold submission
  rw [if_neg fun hboth => hboth.2 h]

theorem submission_packet {frame : Frame} {now : ℕ}
    (h : host.submittedBy (.event (.packet frame now)) = some (channel, request))
    (hbusy : ¬ Reports host (.event (.packet frame now)) (busyReport channel)) :
    host.submission channel request (.event (.packet frame now)) = some now := by
  unfold submission
  rw [if_pos ⟨h, hbusy⟩]
  rfl

omit [CryptoRng R] in
theorem submittedBy_eq_some (h : host.submittedBy call = some (channel, request)) :
    ∃ frame now, call = .event (.packet frame now) ∧
      host.submittedMsg frame = some (channel, request) := by
  unfold submittedBy at h
  split at h
  · exact ⟨_, _, rfl, h⟩
  · cases h

end Host

theorem tracks_call {s : Polling R} (h : s.host.core.Tracks channel request s.last) (call : Call) :
    ((pollingMachine R channel request).step s call).host.core.Tracks channel request
      ((pollingMachine R channel request).step s call).last := by
  change (s.host.call call).core.Tracks channel request
    ((s.host.submission channel request call).or s.last)
  by_cases hsubmitted : s.host.submittedBy call = some (channel, request)
  · obtain ⟨frame, now, rfl, hframe⟩ := Host.submittedBy_eq_some hsubmitted
    cases Host.outcome_handleFrame hframe now with
    | busy hreport hu2f hstate =>
      have hnone : s.host.submission channel request (.event (.packet frame now)) = none :=
        Host.submission_of_busy hreport
      rw [hnone, Option.none_or]
      exact ⟨fun processing hp => h.held processing (hstate processing hp),
        fun poll hpoll hc hr hanswer => h.poll poll (hu2f poll hpoll hanswer) hc hr hanswer⟩
    | polled _ _ hu2f hreport hstate =>
      rw [Host.submission_packet hsubmitted (Host.not_busy_of_refused hreport), Option.some_or]
      refine ⟨fun processing hp => absurd hp (hstate processing), fun poll hpoll _ _ _ => ?_⟩
      have hpoll := hu2f.symm.trans hpoll
      cases hpoll
      rfl
    | collected _ _ hu2f hstate =>
      refine ⟨fun processing hp => absurd hp (hstate processing), fun poll hpoll => ?_⟩
      have hpoll := hu2f.symm.trans hpoll
      cases hpoll
    | refused _ _ hu2f hstate =>
      refine ⟨fun processing hp => absurd hp (hstate processing),
        fun poll hpoll _ _ hanswer => ?_⟩
      have hsome := hu2f poll hpoll
      rw [hanswer] at hsome
      cases hsome
    | held _ hpending hu2f hstate =>
      rw [Host.submission_packet hsubmitted (Host.not_busy_of_held hpending), Option.some_or]
      refine ⟨fun processing hp _ => ?_, fun poll hpoll => ?_⟩
      · have hp := hstate.symm.trans hp
        cases hp
        rfl
      · have hpoll := hu2f.symm.trans hpoll
        cases hpoll
  · rw [Host.submission_of_not hsubmitted, Option.none_or]
    exact s.host.core_keeps call (fun hmove htracks => htracks.move (fun _ h _ => h) nofun hsubmitted hmove)
      (fun token _ _ hu2f htracks => htracks.aborted hu2f token) h

namespace Core

open Host (Move)

omit [CryptoRng R]

variable {completed : Option (UInt32 × Bytes)} {core : Core} {host host' : Host R}

/-- The request does not wait and has no prompt, and is not among those handed out after
the first `n`. -/
structure Declined (channel : UInt32) (request : Bytes) (n : ℕ) (core : Core) : Prop where
  nowhere : core.Pursued channel request (fun _ => False) fun _ _ => False
  taken : ∀ request' ∈ core.taken.drop n, request' ≠ ⟨channel, ⟨.msg, request⟩⟩

theorem Declined.move {n : ℕ} (h : host.core.Declined channel request n)
    (hother : completed ≠ some (channel, request)) (hmove : Move call completed host host') :
    host'.core.Declined channel request n := by
  refine ⟨h.nowhere.move (fun _ => id) (fun _ _ _ => id) hother hmove, ?_⟩
  cases hmove with
  | replies | collects | delivers =>
    simp only [Host.core_enqueueMessage, Host.core_enqueueAnswer]
    exact h.taken
  | @takes processing payload _ _ hstate hrequest =>
    intro request' hmem hsame
    change request' ∈ (host.taken ++ [_]).drop n at hmem
    rw [List.drop_append] at hmem
    rcases List.mem_append.mp hmem with hold | hnew
    · exact h.taken request' hold hsame
    · have hnew := List.mem_singleton.mp (List.mem_of_mem_drop hnew)
      rw [hsame] at hnew
      simp only [Taken.mk.injEq, AppRequest.mk.injEq] at hnew
      obtain ⟨hchannel, hcommand, rfl⟩ := hnew
      exact h.nowhere.held processing hstate ⟨hchannel.symm, hcommand.symm, hrequest⟩
  | _ => exact h.taken

theorem Declined.aborted {n : ℕ} (h : core.Declined channel request n) {channel' : UInt32}
    {u2f : Option U2fPoll} (hu2f : u2f = core.u2f ∨ u2f = none) (token : ℕ) :
    (core.aborted channel' u2f token).Declined channel request n :=
  ⟨h.nowhere.aborted hu2f token, h.taken⟩

/-- Only when a request is handed out can it be asked about. -/
theorem notAsked_move (hmove : Move call completed host host') (hcall : call ≠ .event .take)
    {taken : List Taken}
    (h : host.core.taken = taken ∧
      ∀ poll, host.core.u2f = some poll → ¬ (poll.channel = channel ∧ poll.request = request)) :
    host'.core.taken = taken ∧
      ∀ poll, host'.core.u2f = some poll → ¬ (poll.channel = channel ∧ poll.request = request) := by
  cases hmove with
  | takes htake => exact absurd htake hcall
  | holds | holdsMsg | expires | withdraws | resets | denies => exact ⟨h.1, nofun⟩
  | @polls poll _ hpoll | @asks poll _ _ hpoll | @keeps poll _ _ _ _ _ _ hpoll =>
    refine ⟨h.1, ?_⟩
    rintro _ ⟨⟩
    exact h.2 poll hpoll
  | replies | delivers =>
    simp only [Host.core_enqueueMessage, Host.core_enqueueAnswer]
    exact h
  | collects =>
    rw [Host.core_enqueueAnswer]
    exact ⟨h.1, nofun⟩
  | _ => exact h

end Core

variable {now : ℕ} {calls : List Call} {s : Polling R}

/-- The times of the calls to come all lie more than three seconds after `last`. -/
def Past (last : ℕ) (calls : List Call) : Prop :=
  ∀ time ∈ calls.filterMap Call.time, last + u2fPollTimeoutMs < time

/-- The refusal is remembered since the last submission, or that was too long ago. -/
def Refuses (channel : UInt32) (request : Bytes) (s : Polling R) (calls : List Call) : Prop :=
  ∃ last, s.last = some last ∧
    ((⟨channel, request, last⟩ : DeniedPoll) ∈ s.host.deniedPolls ∨ Past last calls)

/-- A repeat comes at most three seconds after the submission before it. -/
def Repeats (channel : UInt32) (request : Bytes) (s : Polling R) (call : Call) : Prop :=
  ∀ now ∈ s.host.submission channel request call, ∃ last ∈ s.last, now ≤ last + 3000

instance (s : Polling R) (call : Call) : Decidable (Repeats channel request s call) :=
  inferInstanceAs (Decidable (∀ now ∈ _, ∃ last ∈ _, _))

def Refused (channel : UInt32) (request : Bytes) (s : Polling R) (call : Call) : Prop :=
  ∀ now ∈ s.host.submission channel request call,
    Host.Reports s.host call (Host.refusalReport channel)

omit [CryptoRng R] in
theorem past_of_lt {last : ℕ} (htime : call.time = some now) (hlt : last + u2fPollTimeoutMs < now)
    (htimes : ((call :: calls).filterMap Call.time).Pairwise (· ≤ ·)) : Past last calls := by
  rw [List.filterMap_cons_some htime, List.pairwise_cons] at htimes
  exact fun time hmem => lt_of_lt_of_le hlt (htimes.1 time hmem)

omit [CryptoRng R] in
theorem Past.tail {last : ℕ} (h : Past last (call :: calls)) : Past last calls := fun time hmem =>
  h time (((List.sublist_cons_self call calls).filterMap _).subset hmem)

theorem Host.refreshDenied_ne_none {polls : List DeniedPoll} {last : ℕ}
    (hdistinct : (polls.map DeniedPoll.key).Nodup)
    (hmem : (⟨channel, request, last⟩ : DeniedPoll) ∈ polls)
    (hrecent : now ≤ last + u2fPollTimeoutMs) :
    Host.refreshDenied channel request now polls ≠ none := by
  intro hnone
  have hold := Host.refreshDenied_none hdistinct hnone _ hmem rfl
  dsimp only at hold
  omega

theorem Host.mem_refreshDenied_self {polls polls' : List DeniedPoll}
    (h : Host.refreshDenied channel request now polls = some polls') :
    (⟨channel, request, now⟩ : DeniedPoll) ∈ polls' := by
  induction polls generalizing polls' with
  | nil => cases h
  | cons poll rest ih =>
    unfold Host.refreshDenied at h
    split at h
    · rename_i hsame
      obtain ⟨rfl, rfl⟩ := hsame
      split at h
      · cases h
        exact List.mem_cons_self
      · cases h
    · obtain ⟨rest', hrest, rfl⟩ := Option.map_eq_some_iff.mp h
      exact List.mem_cons_of_mem _ (ih hrest)

section Calls

variable {n : ℕ} (hdeclined : s.host.core.Declined channel request n)
  (hrefuses : Refuses channel request s (call :: calls))
  (htimes : ((call :: calls).filterMap Call.time).Pairwise (· ≤ ·))
  (hspares : Core.Spares call channel)

include hdeclined hrefuses htimes hspares

theorem refuses_other (hsubmitted : s.host.submittedBy call ≠ some (channel, request)) :
    Refused channel request s call ∧
      ((pollingMachine R channel request).step s call).host.core.Declined channel request n ∧
      Refuses channel request ((pollingMachine R channel request).step s call) calls := by
  obtain ⟨last, hlast, hremembered⟩ := hrefuses
  have hnone := Host.submission_of_not hsubmitted
  refine ⟨fun time htime => ?_, s.host.core_keeps call
    (fun hmove h => h.move hsubmitted hmove) (fun token _ _ hu2f h => h.aborted hu2f token)
    hdeclined, last, ?_, ?_⟩
  · rw [hnone] at htime
    cases htime
  · change (s.host.submission channel request call).or s.last = _
    rw [hnone]
    exact hlast
  · rcases hremembered with hmem | hold
    · by_cases hrecent : ∀ now, call.time = some now → now - last ≤ u2fPollTimeoutMs
      · exact .inl (s.host.core_keeps call
          (I := fun core => (⟨channel, request, last⟩ : DeniedPoll) ∈ core.deniedPolls)
          (fun hmove h => (Core.denied_move hspares hrecent h hmove).resolve_right
            fun hnew => hsubmitted hnew.1)
          (fun _ hcall hinit _ h =>
            List.mem_filter.mpr ⟨h, decide_eq_true (hspares.1 _ _ hcall hinit).symm⟩) hmem)
      · simp only [not_forall] at hrecent
        obtain ⟨now, htime, hold⟩ := hrecent
        exact .inr (past_of_lt htime (by omega) htimes)
    · exact .inr hold.tail

/-- A call after the refusal: a repeat is answered as refused, and nothing else makes the
host ask again. -/
theorem refuses_call (hbounded : s.host.core.Bounded)
    (hrepeats : Repeats channel request s call) :
    Refused channel request s call ∧
      ((pollingMachine R channel request).step s call).host.core.Declined channel request n ∧
      Refuses channel request ((pollingMachine R channel request).step s call) calls := by
  by_cases hsubmitted : s.host.submittedBy call = some (channel, request)
  · obtain ⟨last, hlast, hremembered⟩ := hrefuses
    obtain ⟨frame, now, rfl, hframe⟩ := Host.submittedBy_eq_some hsubmitted
    obtain ⟨htaken, hnotAsked⟩ := s.host.core_keeps (.event (.packet frame now))
      (I := fun core => core.taken = s.host.core.taken ∧ ∀ poll, core.u2f = some poll →
        ¬ (poll.channel = channel ∧ poll.request = request))
      (fun hmove => Core.notAsked_move hmove (by simp)) (fun _ _ _ hu2f h => ⟨h.1, by
        rcases hu2f with rfl | rfl
        · exact h.2
        · exact nofun⟩) ⟨rfl, fun poll hpoll hsame => hdeclined.nowhere.poll poll hpoll hsame.1 hsame.2⟩
    have hdeclined' : (∀ processing, (s.host.handleFrame frame now).state = .processing processing →
          ¬ Core.Awaits channel request processing) →
        (s.host.handleFrame frame now).core.Declined channel request n := by
      refine fun hnotHeld => ⟨⟨hnotHeld, fun poll hpoll hc hr => hnotAsked poll hpoll ⟨hc, hr⟩⟩, ?_⟩
      rw [show (s.host.handleFrame frame now).core.taken = s.host.core.taken from htaken]
      exact hdeclined.taken
    -- A request that is not refused as busy is a repeat in time.
    have hintime : ∀ {host' : Host R}, s.host.handleFrame frame now = host' →
        host'.pending ≠ s.host.pending ++ [⟨Host.busyReport channel, s.host.nextToken⟩] →
        s.host.submission channel request (.event (.packet frame now)) = some now ∧
          now ≤ last + u2fPollTimeoutMs ∧
          (⟨channel, request, last⟩ : DeniedPoll) ∈ s.host.deniedPolls := by
      rintro _ rfl hbusy
      have hnow := Host.submission_packet hsubmitted hbusy
      obtain ⟨last', hlast', hle⟩ := hrepeats now hnow
      rw [hlast] at hlast'
      cases hlast'
      refine ⟨hnow, hle, hremembered.resolve_right fun hold => ?_⟩
      exact absurd (hold now (by simp [Call.time])) (Nat.not_lt_of_le hle)
    generalize heq : s.host.handleFrame frame now = host' at *
    have hstep : (pollingMachine R channel request).step s (.event (.packet frame now)) =
        ⟨host', (s.host.submission channel request (.event (.packet frame now))).or s.last⟩ := by
      rw [← heq]
      rfl
    rw [hstep]
    have houtcome : Host.Outcome channel request now s.host host' := by
      rw [← heq]
      exact Host.outcome_handleFrame hframe now
    cases houtcome with
    | busy hreport hu2f hstate hdenied =>
      have hnone : s.host.submission channel request (.event (.packet frame now)) = none :=
        Host.submission_of_busy (by rw [← heq] at hreport; exact hreport)
      refine ⟨fun time htime => ?_, hdeclined' fun processing hp =>
        hdeclined.nowhere.held processing (hstate processing hp), last, ?_, ?_⟩
      · rw [hnone] at htime
        cases htime
      · rw [hnone]
        exact hlast
      · rcases hremembered with hmem | hold
        · by_cases hrecent : now ≤ last + u2fPollTimeoutMs
          · refine .inl ?_
            rw [hdenied.resolve_right (Host.refreshDenied_ne_none hbounded.distinct hmem hrecent)]
            exact hmem
          · exact .inr (past_of_lt rfl (Nat.lt_of_not_le hrecent) htimes)
        · exact .inr hold.tail
    | polled hpoll hsame | collected hpoll hsame =>
      exact (hdeclined.nowhere.poll _ hpoll hsame.1 hsame.2).elim
    | refused hrefreshed hreport hu2f hstate =>
      obtain ⟨hnow, -, -⟩ := hintime rfl (Host.not_busy_of_refused hreport)
      refine ⟨fun _ _ => ?_, hdeclined' fun processing hp => absurd hp (hstate processing), now, ?_,
        .inl (Host.mem_refreshDenied_self hrefreshed)⟩
      · rw [← heq] at hreport
        exact hreport
      · rw [hnow]
        rfl
    | held hrefused hpending =>
      obtain ⟨-, hrecent, hmem⟩ := hintime rfl (Host.not_busy_of_held hpending)
      exact absurd hrefused (Host.refreshDenied_ne_none hbounded.distinct hmem hrecent)
  · exact refuses_other hdeclined hrefuses htimes hspares hsubmitted

end Calls

theorem refuses_run {n : ℕ} (hbounded : s.host.core.Bounded)
    (hdeclined : s.host.core.Declined channel request n)
    (hrefuses : Refuses channel request s calls)
    (htimes : (calls.filterMap Call.time).Pairwise (· ≤ ·))
    (hspares : ∀ call ∈ calls, Core.Spares call channel)
    (hrepeats : (pollingMachine R channel request).Along (Repeats channel request) s calls) :
    (pollingMachine R channel request).Along (Refused channel request) s calls ∧
      ((pollingMachine R channel request).run s calls).host.core.Declined channel request n := by
  induction calls generalizing s with
  | nil => exact ⟨trivial, hdeclined⟩
  | cons call calls ih =>
    obtain ⟨hrefused, hdeclined', hrefuses'⟩ := refuses_call hdeclined hrefuses htimes
      (hspares call List.mem_cons_self) hbounded hrepeats.1
    have hlater : (calls.filterMap Call.time).Pairwise (· ≤ ·) :=
      htimes.sublist ((List.sublist_cons_self call calls).filterMap _)
    obtain ⟨hrun, hend⟩ := ih (Host.bounded_call hbounded call) hdeclined' hrefuses' hlater
      (fun call' hmem => hspares call' (List.mem_cons_of_mem _ hmem)) hrepeats.2
    exact ⟨⟨hrefused, hrun⟩, hend⟩

omit [CryptoRng R] in
/-- The refusal enters the table, and the request is not on its way any more. -/
theorem declined_answer {poll : U2fPoll} (hbounded : s.host.core.Bounded)
    (hcommand : s.host.appCommand = some .msg) (hpoll : s.host.u2f = some poll) {response : Bytes}
    (hdenied : Host.statusBytes response = Host.conditionsNotSatisfied) (now : ℕ)
    (finished : Option ℕ) :
    (s.host.appResponse response now finished).core.Declined poll.channel poll.request
        s.host.taken.length ∧
      (⟨poll.channel, poll.request, poll.lastPoll⟩ : DeniedPoll) ∈
        (s.host.appResponse response now finished).deniedPolls := by
  have heq : s.host.appResponse response now finished = Host.respond { s.host with
      appBusy := false, appCommand := none, u2f := none
      deniedPolls := s.host.deniedPolls ++ [⟨poll.channel, poll.request, poll.lastPoll⟩] }
      ⟨s.host.taken.length - 1, response⟩ := by
    simp only [Host.appResponse, hcommand, hpoll, Host.respondToPoll, if_pos hdenied]
  have hdrop : s.host.taken.drop s.host.taken.length = [] := List.drop_length
  rw [heq]
  generalize hfreed : ({ s.host with
      appBusy := false, appCommand := none, u2f := none
      deniedPolls := s.host.deniedPolls ++
        [⟨poll.channel, poll.request, poll.lastPoll⟩] } : Host R) = freed
  have hmem : (⟨poll.channel, poll.request, poll.lastPoll⟩ : DeniedPoll) ∈ freed.deniedPolls := by
    rw [← hfreed]
    simp
  have hnone : freed.u2f = none := by rw [← hfreed]
  have htaken : freed.taken.drop s.host.taken.length = [] := by rw [← hfreed]; exact hdrop
  have hstate : freed.state = s.host.state := by rw [← hfreed]
  rcases Host.core_respond freed ⟨s.host.taken.length - 1, response⟩ with
    ⟨processing, token, -, -, hcore⟩ | ⟨hheld, hsame⟩
  · refine ⟨?_, ?_⟩
    · rw [hcore]
      refine ⟨⟨by simp, ?_⟩, ?_⟩
      · intro poll' hpoll'
        exact absurd (hnone.symm.trans hpoll') (by simp)
      · change ∀ request' ∈ freed.taken.drop _, _
        rw [htaken]
        simp
    · rw [show (freed.respond _).deniedPolls = freed.deniedPolls from congrArg Core.deniedPolls hcore]
      exact hmem
  · rw [hsame]
    refine ⟨⟨⟨fun processing hp hawaits => ?_, ?_⟩, ?_⟩, hmem⟩
    · -- A request with a prompt was handed out.
      have htied := (hbounded.coherent.tied processing poll (hstate.symm.trans hp) hpoll).1
      rw [hawaits.2.2] at htied
      cases htied
    · intro poll' hpoll'
      exact absurd (hnone.symm.trans hpoll') (by simp)
    · change ∀ request' ∈ freed.taken.drop _, _
      rw [htaken]
      simp

/-- A U2F request that was refused, and is repeated on its channel at most 3000 ms after it was
last submitted, is answered 0x6985 again and not handed to the application, as long as there
is no INIT on the channel and U2F is neither reset nor disabled. -/
theorem refused_request_not_asked_again (rng : R) (version : Version) (capabilities : UInt8)
    (before after : List Call) (response : Bytes) (now : ℕ) (finished : Option ℕ)
    (poll : U2fPoll) (s : Polling R) (hs : (pollingMachine R poll.channel poll.request).run
      ⟨Host.withRng rng version capabilities, none⟩ before = s)
    (hcommand : s.host.appCommand = some .msg) (hpoll : s.host.u2f = some poll)
    (hdenied : Host.statusBytes response = Host.conditionsNotSatisfied)
    (htimes : ((before ++ .event (.answer response now finished) :: after).filterMap
      Call.time).Pairwise (· ≤ ·))
    (hspares : ∀ call ∈ after, Core.Spares call poll.channel)
    (hrepeats : (pollingMachine R poll.channel poll.request).Along
      (Repeats poll.channel poll.request) ((pollingMachine R poll.channel poll.request).step s
        (.event (.answer response now finished))) after) :
    let m := pollingMachine R poll.channel poll.request
    let s' := m.step s (.event (.answer response now finished))
    m.Along (Refused poll.channel poll.request) s' after ∧
      ∀ taken ∈ (m.run s' after).host.taken.drop s.host.taken.length,
        taken ≠ ⟨poll.channel, ⟨.msg, poll.request⟩⟩ := by
  intro m s'
  have hinvariant : s.host.core.Bounded ∧
      s.host.core.Tracks poll.channel poll.request s.last := by
    rw [← hs]
    refine Machine.invariant_along (m := m) (p := fun _ _ => True)
      (I := fun s => s.host.core.Bounded ∧ s.host.core.Tracks poll.channel poll.request s.last)
      (fun s call h _ => ⟨Host.bounded_call h.1 call, tracks_call h.2 call⟩)
      ⟨Host.bounded_withRng rng version capabilities, ?_⟩ (m.along_of_forall (fun _ _ _ => trivial) _)
    exact ⟨by simp [Host.core, Host.withRng], by simp [Host.core, Host.withRng]⟩
  obtain ⟨hbounded, htracks⟩ := hinvariant
  obtain ⟨hdeclined, hmem⟩ := declined_answer hbounded hcommand hpoll hdenied now finished
  have hlast : s.last = some poll.lastPoll :=
    htracks.poll poll hpoll rfl rfl ((hbounded.coherent.prompt poll hpoll).mpr hcommand)
  have hrefuses : Refuses poll.channel poll.request s' after :=
    ⟨poll.lastPoll, hlast, .inl hmem⟩
  have hlater : (after.filterMap Call.time).Pairwise (· ≤ ·) := by
    refine htimes.sublist (List.Sublist.filterMap _ ?_)
    exact (List.sublist_cons_self _ _).trans (List.sublist_append_right _ _)
  obtain ⟨hrun, hend⟩ := refuses_run (Host.bounded_call hbounded _) hdeclined hrefuses hlater hspares
    hrepeats
  exact ⟨hrun, hend.taken⟩

def registrationCalls (now : ℕ) : List Call :=
  (Host.messageFrames 5 .msg ([0, 1, 0, 0, 64] ++ List.replicate 64 7)).map
    fun frame => .event (.packet frame now)

theorem refused_request_not_asked_again_registration :
    let m := pollingMachine Draws 5 ([0, 1, 0, 0, 64] ++ List.replicate 64 7)
    let s := m.run ⟨freshHost, none⟩ (registrationCalls 0 ++ [.event .take,
      .event (.answer Host.conditionsNotSatisfied 1000 none), .event .written])
    let s' := m.run s (registrationCalls 3000 ++ .event .written :: registrationCalls 6000)
    s'.last = some 6000 ∧ m.Along (Refused 5 ([0, 1, 0, 0, 64] ++ List.replicate 64 7)) s
        (registrationCalls 3000 ++ .event .written :: registrationCalls 6000) ∧
      s'.host.taken.length = 1 := by
  intro m s s'
  have hrun := refused_request_not_asked_again (⟨[]⟩ : Draws) ⟨0, 0, 0⟩ 0
    (registrationCalls 0 ++ [.event .take])
    (.event .written :: (registrationCalls 3000 ++ .event .written :: registrationCalls 6000))
    Host.conditionsNotSatisfied 1000 none
    (.start 5 ([0, 1, 0, 0, 64] ++ List.replicate 64 7) 0) _ rfl (by decide +kernel) (by decide +kernel)
    (by decide +kernel) (by decide +kernel) ?_ (by decide +kernel)
  · exact ⟨by decide +kernel, hrun.1.2, by decide +kernel⟩
  · have hframes : ∀ frame ∈ Host.messageFrames 5 .msg ([0, 1, 0, 0, 64] ++ List.replicate 64 7),
        Command.tryFrom (frame.byte 4 &&& 0x7f) ≠ some .init := by decide +kernel
    have hpackets : ∀ now, ∀ call ∈ registrationCalls now, Core.Spares call 5 := by
      intro now call hmem
      obtain ⟨frame, hframe, rfl⟩ := List.mem_map.mp hmem
      refine ⟨?_, nofun, nofun⟩
      rintro _ _ ⟨⟩ hinit
      exact absurd hinit.2 (hframes frame hframe)
    have hwritten : Core.Spares (.event .written) 5 := ⟨nofun, nofun, nofun⟩
    intro call hmem
    simp only [List.mem_cons, List.mem_append] at hmem
    rcases hmem with rfl | hmem | rfl | hmem
    · exact hwritten
    · exact hpackets 3000 call hmem
    · exact hwritten
    · exact hpackets 6000 call hmem

end SoftwareAuthenticator.Ctaphid
