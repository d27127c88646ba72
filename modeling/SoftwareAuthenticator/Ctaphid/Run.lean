import SoftwareAuthenticator.Ctaphid.Host
import SoftwareAuthenticator.Machine

/-!
# Runs of the CTAPHID host

The calls that the transport makes, as events of a machine. Before them stand the
equations that say what queueing a message does to the host record.
-/

namespace SoftwareAuthenticator.Ctaphid

namespace Host

variable {R : Type}

def numbered (token : ℕ) : List Frame → List OutgoingFrame
  | [] => []
  | frame :: frames => ⟨frame, token⟩ :: numbered (token + 1) frames

def framesOf (channel : UInt32) (command : Command) (payload : Bytes) : List Frame :=
  if payload.length ≤ maxMessageSize then messageFrames channel command payload
  else messageFrames channel .error [ErrorCode.other.toU8]

def pushFrames (host : Host R) (frames : List Frame) : Host R :=
  { host with
    nextToken := host.nextToken + frames.length
    pending := host.pending ++ numbered host.nextToken frames }

@[simp] theorem pushFrames_nil (host : Host R) : pushFrames host [] = host := by
  simp [pushFrames, numbered]

theorem pushFrames_cons (host : Host R) (frame : Frame) (frames : List Frame) :
    pushFrames host (frame :: frames) = pushFrames (queueFrame host frame).1 frames := by
  simp [pushFrames, queueFrame, numbered, Nat.add_comm, Nat.add_left_comm]

theorem foldl_queueFrame (frames : List Frame) (host : Host R) (token : ℕ)
    (htoken : token + 1 = host.nextToken) :
    frames.foldl (fun queued frame => queueFrame queued.1 frame) (host, token) =
      (pushFrames host frames, token + frames.length) := by
  induction frames generalizing host token with
  | nil => simp
  | cons frame frames ih =>
    have hnext : host.nextToken + 1 = (queueFrame host frame).1.nextToken := rfl
    rw [List.foldl_cons, pushFrames_cons]
    refine (ih _ _ hnext).trans ?_
    simp [← htoken, Nat.add_comm, Nat.add_left_comm]

theorem mem_numbered {token : ℕ} {frames : List Frame} {outgoing : OutgoingFrame}
    (h : outgoing ∈ numbered token frames) :
    token ≤ outgoing.token ∧ outgoing.token < token + frames.length := by
  induction frames generalizing token with
  | nil => cases h
  | cons frame frames ih =>
    simp only [numbered, List.mem_cons] at h
    rcases h with rfl | h
    · simp
    · have := ih h
      simp only [List.length_cons]
      omega

theorem addressedTo_initFrame (channel c : UInt32) (command : Command) (payload : Bytes) :
    (initFrame channel command payload).addressedTo c = true ↔ channel = c := by
  have htake : (initFrame channel command payload).bytes.take 4 = beBytes32 channel := rfl
  simp only [Frame.addressedTo, htake, decide_eq_true_eq]
  exact beBytes32_injective.eq_iff

theorem frame_mem_of_numbered {token : ℕ} {frames : List Frame} {outgoing : OutgoingFrame}
    (h : outgoing ∈ numbered token frames) : outgoing.frame ∈ frames := by
  induction frames generalizing token with
  | nil => cases h
  | cons frame frames ih =>
    simp only [numbered, List.mem_cons] at h
    rcases h with rfl | h
    · simp
    · exact List.mem_cons_of_mem _ (ih h)

theorem framesOf_ne_nil (channel : UInt32) (command : Command) (payload : Bytes) :
    framesOf channel command payload ≠ [] := by
  unfold framesOf messageFrames
  split <;> simp

theorem framesOf_short {channel : UInt32} {command : Command} {payload : Bytes}
    (h : payload.length ≤ initData) :
    framesOf channel command payload = [initFrame channel command payload] := by
  have hmax : payload.length ≤ maxMessageSize := le_trans h (by decide)
  simp [framesOf, messageFrames, hmax, List.drop_eq_nil_of_le h, contFrames]

/-- The token of a message's last packet, if it is queued next. -/
def finalToken (host : Host R) (channel : UInt32) (command : Command) (payload : Bytes) : ℕ :=
  host.nextToken + (framesOf channel command payload).length - 1

theorem queueFrames_eq (host : Host R) (frames : List Frame) (hframes : frames ≠ []) :
    queueFrames host frames = (pushFrames host frames, host.nextToken + frames.length - 1) := by
  cases frames with
  | nil => contradiction
  | cons frame frames =>
    have hnext : host.nextToken + 1 = (queueFrame host frame).1.nextToken := rfl
    rw [queueFrames, List.foldl_cons, pushFrames_cons]
    exact (foldl_queueFrame frames _ _ hnext).trans (by simp)

theorem queueMessage_eq (host : Host R) (channel : UInt32) (command : Command)
    (payload : Bytes) :
    queueMessage host channel command payload =
      (pushFrames host (framesOf channel command payload),
        finalToken host channel command payload) := by
  unfold queueMessage finalToken framesOf
  split <;> exact queueFrames_eq _ _ (by simp [messageFrames])

theorem enqueueMessage_eq (host : Host R) (channel : UInt32) (command : Command)
    (payload : Bytes) :
    enqueueMessage host channel command payload =
      { pushFrames host (framesOf channel command payload) with
        state := .transmitting channel (finalToken host channel command payload) } := by
  simp [enqueueMessage, queueMessage_eq]

theorem enqueueError_eq (host : Host R) (channel : UInt32) (code : ErrorCode) :
    enqueueError host channel code =
      pushFrames host [initFrame channel .error [code.toU8]] := by
  rw [enqueueError, queueMessage_eq, framesOf_short (by simp [initData, packetSize])]

def headWritten (host : Host R) : Host R :=
  match host.nextOutgoingFrame with
  | some frame => (host.outgoingFrameWritten frame).1
  | none => host

end Host

/-- One call of the transport. A `written` report is the head of the queue: a
report that INIT invalidated after its selection is not written. -/
inductive Event where
  | packet (frame : Frame) (now : ℕ)
  | timeout (now : ℕ)
  | presence (waiting : Bool)
  | presenceFinished (at_ : ℕ)
  | u2fEnabled (enabled : Bool)
  | u2fReset
  | keepalive (waitingForUser : Bool) (now : ℕ)
  | identify
  | identified (token : ℕ) (delivered : Bool) (now : ℕ)
  | take
  | interrupt
  | answer (response : Bytes) (now : ℕ) (presenceFinished : Option ℕ)
  | written
  deriving DecidableEq

variable {R : Type} [CryptoRng R]

def Host.handle (host : Host R) : Event → Host R
  | .packet frame now => host.handleFrame frame now
  | .timeout now => host.handleTimeout now
  | .presence waiting => host.appPresence waiting
  | .presenceFinished at_ => host.appPresenceFinished at_
  | .u2fEnabled enabled => host.setU2fEnabled enabled
  | .u2fReset => host.resetU2f
  | .keepalive waitingForUser now => (host.sendKeepalive waitingForUser now).1
  | .identify => host.takeIdentificationRequest.1
  | .identified token delivered now => host.identificationResponse token delivered now
  | .take => host.takeAppRequest.1
  | .interrupt => host.takeInterrupt.1
  | .answer response now presenceFinished => host.appResponse response now presenceFinished
  | .written => host.headWritten

/-- The application answers only a request it has taken, and once. -/
def Enabled (host : Host R) : Event → Prop
  | .answer _ _ _ => host.appBusy = true
  | _ => True

/-- The host as a machine, started with any random source, version and capabilities. -/
def hostMachine (R : Type) [CryptoRng R] : Machine (Host R) Event where
  initial host := ∃ rng version capabilities, host = Host.withRng rng version capabilities
  enabled := Enabled
  step := Host.handle

def Event.isAnswer : Event → Bool
  | .answer _ _ _ => true
  | _ => false

/-- Without answers every sequence of events can happen. -/
theorem executes_of_no_answers {events : List Event}
    (h : ∀ event ∈ events, event.isAnswer = false) (host : Host R) :
    (hostMachine R).Executes host events := by
  induction events generalizing host with
  | nil => trivial
  | cons event events ih =>
    refine ⟨?_, ih (fun e he => h e (by simp [he])) _⟩
    have hevent := h event (by simp)
    cases event with
    | answer => cases hevent
    | _ => trivial

end SoftwareAuthenticator.Ctaphid
