import SoftwareAuthenticator.Ctaphid.Packets

/-!
# The CTAPHID host

The state machine that turns packets into requests for the application and answers into packets.
Two fields, `taken` and `deliveries`, are logs that no function reads: the requests handed to the
application, and the answers queued for output.
-/

namespace SoftwareAuthenticator.Ctaphid

open U2fApdu (requestsPresence swConditionsNotSatisfied)

structure Host (R : Type) where
  state : State
  lease : Option (UInt32 × ℕ)
  message : Bytes
  pending : List OutgoingFrame
  nextToken : ℕ
  nextIdentification : ℕ
  channels : Channels
  rng : R
  capabilities : UInt8
  version : Version
  appBusy : Bool
  interruptApp : Bool
  appCommand : Option Command
  u2f : Option U2fPoll
  deniedPolls : List DeniedPoll
  taken : List Taken
  deliveries : List Delivery

namespace Host

variable {R : Type}

/-- A new host, after `set_version` and `set_capabilities`. -/
def withRng (rng : R) (version : Version) (capabilities : UInt8) : Host R where
  state := .idle
  lease := none
  message := []
  pending := []
  nextToken := 0
  nextIdentification := 0
  channels := ⟨[]⟩
  rng := rng
  capabilities := capabilities
  version := version
  appBusy := false
  interruptApp := false
  appCommand := none
  u2f := none
  deniedPolls := []
  taken := []
  deliveries := []

def queueFrame (host : Host R) (frame : Frame) : Host R × ℕ :=
  ({ host with
      nextToken := host.nextToken + 1
      pending := host.pending ++ [⟨frame, host.nextToken⟩] }, host.nextToken)

def initFrame (channel : UInt32) (command : Command) (payload : Bytes) : Frame :=
  Frame.pad (beBytes32 channel ++ [command.intoU8 ||| 0x80] ++
    beBytes16 (UInt16.ofNat payload.length) ++ payload.take initData)

/-- The continuation packets for the rest of a message, numbered from `sequence`.
There is one for each of the first `fuel` chunks. -/
def contFrames (channel : UInt32) : ℕ → UInt8 → Bytes → List Frame
  | _, _, [] => []
  | 0, _, _ :: _ => []
  | fuel + 1, sequence, byte :: rest =>
    Frame.pad (beBytes32 channel ++ [sequence] ++ (byte :: rest).take contData) ::
      contFrames channel fuel (sequence + 1) ((byte :: rest).drop contData)

def messageFrames (channel : UInt32) (command : Command) (payload : Bytes) : List Frame :=
  initFrame channel command payload :: contFrames channel 128 0 (payload.drop initData)

def queueFrames (host : Host R) (frames : List Frame) : Host R × ℕ :=
  frames.foldl (fun queued frame => queueFrame queued.1 frame) (host, host.nextToken)

/-- Append a whole message without changing transaction ownership. A payload
that is too long is replaced by ERR_OTHER. -/
def queueMessage (host : Host R) (channel : UInt32) (command : Command)
    (payload : Bytes) : Host R × ℕ :=
  if payload.length ≤ maxMessageSize then
    queueFrames host (messageFrames channel command payload)
  else queueFrames host (messageFrames channel .error [ErrorCode.other.toU8])

def enqueueMessage (host : Host R) (channel : UInt32) (command : Command)
    (payload : Bytes) : Host R :=
  let queued := queueMessage host channel command payload
  { queued.1 with state := .transmitting channel queued.2 }

def enqueueAnswer (host : Host R) (channel : UInt32) (command : Command)
    (answer : AppAnswer) : Host R :=
  enqueueMessage { host with deliveries := host.deliveries ++ [⟨channel, command, answer⟩] }
    channel command answer.response

/-- An auxiliary rejection, never the owned transaction's response. -/
def enqueueError (host : Host R) (channel : UInt32) (code : ErrorCode) : Host R :=
  (queueMessage host channel .error [code.toU8]).1

def finishError (host : Host R) (channel : UInt32) (code : ErrorCode) : Host R :=
  enqueueMessage host channel .error [code.toU8]

def conditionsNotSatisfied : Bytes := beBytes16 swConditionsNotSatisfied

def expireLease (host : Host R) (now : ℕ) : Host R :=
  match host.lease with
  | some (_, expires) => if now ≥ expires then { host with lease := none } else host
  | none => host

def leaseConflicts (host : Host R) (channel : UInt32) : Bool :=
  match host.lease with
  | some (owner, _) => owner != channel
  | none => false

def promptChannel (host : Host R) : Option UInt32 :=
  match host.u2f with
  | some poll => if poll.answer.isNone then some poll.channel else none
  | none => none

def busyChannel (host : Host R) : Option UInt32 :=
  match host.state with
  | .idle => host.promptChannel
  | .receiving channel _ _ _ _ => some channel
  | .processing processing => some processing.channel
  | .identifying channel _ _ => some channel
  | .transmitting channel _ => some channel

def processMessage (host : Host R) (channel : UInt32) (command : Command) (now : ℕ) : Host R :=
  { host with
    u2f := none
    state := .processing
      { channel := channel
        command := command
        started := now
        request := some host.message
        keepaliveAt := now
        keepaliveStatus := .processing } }

def refreshDenied (channel : UInt32) (request : Bytes) (now : ℕ) :
    List DeniedPoll → Option (List DeniedPoll)
  | [] => none
  | poll :: rest =>
    if poll.channel = channel ∧ poll.request = request then
      if now - poll.lastPoll ≤ u2fPollTimeoutMs then some ({ poll with lastPoll := now } :: rest)
      else none
    else (refreshDenied channel request now rest).map (poll :: ·)

def retainRecentDenied (now : ℕ) (polls : List DeniedPoll) : List DeniedPoll :=
  polls.filter fun poll => now - poll.lastPoll ≤ u2fPollTimeoutMs

/-- A MSG request that no prompt answers: it is a repeat of a refused prompt,
or one too many of them, or it goes to the application. -/
def completeUnpolled (host : Host R) (channel : UInt32) (now : ℕ) : Host R :=
  match refreshDenied channel host.message now host.deniedPolls with
  | some polls =>
    enqueueMessage { host with deniedPolls := polls, state := .idle } channel .msg
      conditionsNotSatisfied
  | none =>
    let host := { host with deniedPolls := retainRecentDenied now host.deniedPolls }
    if requestsPresence host.message = true ∧ host.deniedPolls.length ≥ maxChannels then
      finishError host channel .channelBusy
    else processMessage host channel .msg now

/-- A complete MSG request, matched with the U2F prompt under way. -/
def completeMsg (host : Host R) (channel : UInt32) (now : ℕ) : Host R :=
  match host.u2f with
  | none => completeUnpolled host channel now
  | some poll =>
    if poll.channel = channel ∧ poll.request = host.message then
      match poll.answer with
      | none =>
        enqueueMessage { host with u2f := some { poll with lastPoll := now }, state := .idle }
          channel .msg conditionsNotSatisfied
      | some (answer, expires) =>
        if now > expires then
          completeUnpolled { host with u2f := some { poll with lastPoll := now } } channel now
        else enqueueAnswer { host with u2f := none, state := .idle } channel .msg answer
    else if poll.answer.isNone then finishError host channel .channelBusy
    else completeUnpolled host channel now

def completeWink (host : Host R) (channel : UInt32) (now : ℕ) : Host R :=
  { host with
    nextIdentification := host.nextIdentification + 1
    state := .identifying channel
      { token := host.nextIdentification
        deadline := saturatingAdd now identificationTimeoutMs } false }

def completeLock (host : Host R) (channel : UInt32) (now : ℕ) : Host R :=
  let seconds := (host.message.getD 0 0).toNat
  if seconds > 10 then finishError host channel .invalidParameter
  else
    enqueueMessage { host with
        lease := if seconds ≠ 0 then some (channel, saturatingAdd now (seconds * 1000)) else none }
      channel .lock []

def completeMessage (host : Host R) (channel : UInt32) (command : Command) (now : ℕ) : Host R :=
  match command with
  | .wink => completeWink host channel now
  | .lock => completeLock host channel now
  | .msg => completeMsg host channel now
  | .ping => enqueueMessage { host with state := .idle } channel .ping host.message
  | command => processMessage host channel command now

def handleCancel (host : Host R) (channel : UInt32) : Host R :=
  match host.state with
  | .processing processing =>
    if processing.channel ≠ channel ∨ processing.command ≠ .cbor then host
    else if processing.request.isSome then
      -- The application has not started on it.
      enqueueMessage { host with state := .idle } channel .cbor [ctap2ErrKeepaliveCancel]
    else { host with interruptApp := true }
  | _ => host

def allocateChannelLoop [CryptoRng R] : ℕ → Host R → Option UInt32 × Host R
  | 0, host => (none, host)
  | fuel + 1, host =>
    let (candidate, rng) := CryptoRng.nextU32 host.rng
    let host := { host with rng := rng }
    if candidate = 0 ∨ candidate = broadcastCid then allocateChannelLoop fuel host
    else
      match host.channels.insert candidate with
      | some channels => (some candidate, { host with channels := channels })
      | none => allocateChannelLoop fuel host

def allocateChannel [CryptoRng R] (host : Host R) : Option UInt32 × Host R :=
  allocateChannelLoop channelGenerationRetryLimit host

def appWorks (host : Host R) : Bool :=
  match host.state with
  | .processing processing => processing.request.isNone
  | _ => false

/-- The part of INIT after its checks: the channel's transaction, its unsent
output and its U2F state are dropped, and the reply owns the host. -/
def resynchronise (host : Host R) (channel assigned : UInt32) (data : Bytes) : Host R :=
  let polls := host.u2f.any fun poll => poll.channel = channel
  let prompts := host.u2f.any fun poll => poll.channel = channel ∧ poll.answer.isNone
  enqueueMessage
    { host with
      pending := host.pending.filter fun outgoing => !outgoing.frame.addressedTo channel
      message := []
      u2f := if polls then none else host.u2f
      deniedPolls := host.deniedPolls.filter fun poll => poll.channel ≠ channel
      interruptApp := host.interruptApp || prompts || host.appWorks
      state := .idle }
    channel .init
    (data.take 8 ++ beBytes32 assigned ++
      [2, host.version.major, host.version.minor, host.version.build, host.capabilities])

/-- An INIT that is refused: an error beside the transaction under way, or a
transaction of its own. -/
def refuseInit (host : Host R) (underWay : Bool) (channel : UInt32) (code : ErrorCode) : Host R :=
  if underWay then enqueueError host channel code else finishError host channel code

def handleInit [CryptoRng R] (host : Host R) (channel : UInt32) (length : ℕ) (data : Bytes) :
    Host R :=
  if host.leaseConflicts channel then enqueueError host channel .channelBusy
  else if host.busyChannel.any fun busy => busy ≠ channel then
    enqueueError host channel .channelBusy
  else if length ≠ 8 then refuseInit host host.busyChannel.isSome channel .invalidLength
  else
    let aborted := decide (host.state ≠ .idle)
    if channel = broadcastCid then
      match allocateChannel host with
      | (some assigned, host) => resynchronise host channel assigned data
      | (none, host) => refuseInit host aborted channel .channelBusy
    else if channel ≠ 0 ∧ (aborted = true ∨ host.channels.contains channel = true) then
      -- An active channel remains valid even after it was forgotten.
      resynchronise host channel channel data
    else refuseInit host aborted channel .invalidChannel

def lengthAllowed (command : Command) (length : ℕ) : Bool :=
  !(length > maxMessageSize || ((command = .cbor || command = .msg) && length = 0) ||
    (command = .lock && length ≠ 1) || (command = .wink && length ≠ 0))

/-- Whether a request must wait for the transaction or prompt of `busy`. -/
def refusedWhileBusy (host : Host R) (busy channel : UInt32) (command : Option Command) : Bool :=
  busy ≠ channel ||
    (match host.state with
      | .processing _ | .identifying _ _ _ | .transmitting _ _ => true
      | _ => false) ||
    (host.state = .idle && command ≠ some .msg)

def startMessage (host : Host R) (channel : UInt32) (command : Option Command) (length : ℕ)
    (data : Bytes) (now : ℕ) : Host R :=
  if channel = 0 ∨ channel = broadcastCid then finishError host channel .invalidChannel
  else
    match command with
    | none => finishError host channel .invalidCommand
    | some command =>
      if !command.isRequest then finishError host channel .invalidCommand
      else if !lengthAllowed command length then finishError host channel .invalidLength
      else
        let host := { host with message := data.take (min length initData) }
        if length ≤ initData then completeMessage host channel command now
        else { host with state := .receiving channel command length 0 now }

/-- The initialization packet of any request but INIT and CANCEL. -/
def handleRequest (host : Host R) (channel : UInt32) (command : Option Command) (length : ℕ)
    (data : Bytes) (now : ℕ) : Host R :=
  if host.leaseConflicts channel then enqueueError host channel .channelBusy
  else
    match host.busyChannel with
    | none => startMessage host channel command length data now
    | some busy =>
      if host.refusedWhileBusy busy channel command then enqueueError host channel .channelBusy
      else
        match host.state with
        | .receiving _ _ _ _ _ => finishError host channel .invalidSeq
        | _ => startMessage host channel command length data now

def handleContinuation (host : Host R) (channel : UInt32) (sequence : UInt8) (data : Bytes)
    (now : ℕ) : Host R :=
  match host.state with
  | .receiving receiving command length nextSequence _ =>
    if receiving ≠ channel then host
    else if sequence ≠ nextSequence then finishError host channel .invalidSeq
    else
      let missing := length - host.message.length
      let host := { host with
        state := .receiving receiving command length (nextSequence + 1) now
        message := host.message ++ data.take (min missing contData) }
      if host.message.length = length then completeMessage host channel command now else host
  | _ => host

def handleFrame [CryptoRng R] (host : Host R) (frame : Frame) (now : ℕ) : Host R :=
  let host := host.expireLease now
  let channel := frame.channel
  if frame.byte 4 &&& 0x80 = 0 then
    handleContinuation host channel (frame.byte 4) (frame.bytes.drop 5) now
  else
    let length := ofBeBytes16 (frame.byte 5) (frame.byte 6)
    let data := frame.bytes.drop 7
    let host := { host with channels := host.channels.touch channel }
    match Command.tryFrom (frame.byte 4 &&& 0x7f) with
    | some .cancel => handleCancel host channel
    | some .init => handleInit host channel length data
    | command => handleRequest host channel command length data now

def expireIdentification (host : Host R) (now : ℕ) : Host R :=
  match host.state with
  | .identifying channel request _ =>
    if now ≥ request.deadline then finishError host channel .other else host
  | _ => host

def expirePoll (host : Host R) (now : ℕ) : Host R :=
  match host.u2f with
  | some poll =>
    if now ≥ poll.deadline then
      { host with
        interruptApp := host.interruptApp || poll.answer.isNone
        u2f := none }
    else host
  | none => host

/-- Tell the client to poll once the user has been asked for long enough. -/
def answerWaitingPoll (host : Host R) (now : ℕ) : Host R :=
  match host.state, host.u2f with
  | .processing processing, some poll =>
    if processing.command = .msg ∧ processing.request.isNone ∧ poll.presenceStarted = true ∧
        now - poll.started ≥ u2fResponseWaitMs then
      enqueueMessage { host with state := .idle } processing.channel .msg conditionsNotSatisfied
    else host
  | _, _ => host

def expireReceiving (host : Host R) (now : ℕ) : Host R :=
  match host.state with
  | .receiving channel _ _ _ lastPacketAt =>
    if now ≥ lastPacketAt + continuationTimeoutMs then finishError host channel .timeout else host
  | _ => host

def expireDenied (host : Host R) (now : ℕ) : Host R :=
  { host with deniedPolls := retainRecentDenied now host.deniedPolls }

def handleTimeout (host : Host R) (now : ℕ) : Host R :=
  ((((((host.expireLease now).expireIdentification now).expireDenied now).expirePoll
    now).answerWaitingPoll now).expireReceiving now)

/-- The status to report. A held request is not being worked on, whatever the
application reports about the one it is finishing. -/
def keepaliveStatus (processing : Processing) (waitingForUser : Bool) : KeepaliveStatus :=
  if waitingForUser = true ∧ processing.request.isNone then .upNeeded else .processing

def sendKeepalive (host : Host R) (waitingForUser : Bool) (now : ℕ) : Host R × Bool :=
  match host.state with
  | .processing processing =>
    let status := keepaliveStatus processing waitingForUser
    if status = processing.keepaliveStatus ∧
        now < processing.keepaliveAt + keepaliveIntervalMs then (host, false)
    else
      let host := { host with
        state := .processing { processing with keepaliveAt := now, keepaliveStatus := status } }
      ((queueFrame host (initFrame processing.channel .keepAlive [status.toU8])).1, true)
  | _ => (host, false)

def transactionDeadline (host : Host R) : Option ℕ :=
  match host.state with
  | .idle | .transmitting _ _ => none
  | .receiving _ _ _ _ lastPacketAt => some (lastPacketAt + continuationTimeoutMs)
  | .processing processing => some (processing.keepaliveAt + keepaliveIntervalMs)
  | .identifying _ request _ => some request.deadline

def pollDeadline (host : Host R) (poll : U2fPoll) : ℕ :=
  match host.state with
  | .processing processing =>
    if poll.answer.isNone ∧ poll.presenceStarted = true ∧ processing.command = .msg ∧
        processing.request.isNone then
      min (saturatingAdd poll.started u2fResponseWaitMs) poll.deadline
    else poll.deadline
  | _ => poll.deadline

/-- When `handleTimeout` or `sendKeepalive` next has something to do, if anything. -/
def nextDeadline (host : Host R) : Option ℕ :=
  (host.transactionDeadline.toList ++ (host.u2f.map host.pollDeadline).toList ++
    (host.lease.map Prod.snd).toList).min?

def appPresence (host : Host R) (waiting : Bool) : Host R :=
  match host.u2f with
  | some poll =>
    if waiting = true ∧ host.appCommand = some .msg then
      { host with u2f := some { poll with presenceStarted := true } }
    else host
  | none => host

def appPresenceFinished (host : Host R) (at_ : ℕ) : Host R :=
  match host.u2f with
  | some poll =>
    if host.appCommand = some .msg then
      { host with u2f := some { poll with presenceFinished := some at_ } }
    else host
  | none => host

def resetU2f (host : Host R) : Host R := { host with u2f := none, deniedPolls := [] }

def setU2fEnabled (host : Host R) (enabled : Bool) : Host R :=
  if enabled then host else host.resetU2f

def takeIdentificationRequest (host : Host R) : Host R × Option IdentificationRequest :=
  match host.state with
  | .identifying channel request false =>
    ({ host with state := .identifying channel request true }, some request)
  | _ => (host, none)

/-- Complete only the current identification, within its original budget. -/
def identificationResponse (host : Host R) (token : ℕ) (delivered : Bool) (now : ℕ) : Host R :=
  match host.state with
  | .identifying channel request _ =>
    if request.token ≠ token then host
    else if delivered = true ∧ now < request.deadline then enqueueMessage host channel .wink []
    else finishError host channel .other
  | _ => host

/-- The request the application should work on next, if it is free and one is ready. -/
def takeAppRequest (host : Host R) : Host R × Option AppRequest :=
  if host.appBusy then (host, none)
  else
    match host.state with
    | .processing processing =>
      match processing.request with
      | none => (host, none)
      | some payload =>
        let request : AppRequest := ⟨processing.command, payload⟩
        let poll : U2fPoll :=
          { channel := processing.channel
            request := payload
            lastPoll := processing.started
            started := processing.started
            presenceStarted := false
            presenceFinished := none
            answer := none }
        ({ host with
            state := .processing { processing with request := none }
            u2f := if processing.command = .msg ∧ requestsPresence payload = true then some poll
              else host.u2f
            appBusy := true
            appCommand := some processing.command
            taken := host.taken ++ [⟨processing.channel, request⟩] }, some request)
    | _ => (host, none)

def takeInterrupt (host : Host R) : Host R × Bool :=
  ({ host with interruptApp := false }, host.interruptApp)

def servesMsg (host : Host R) : Bool :=
  match host.state with
  | .processing processing => processing.command = .msg ∧ processing.request.isNone
  | _ => false

/-- Answer the transaction under way, unless it waits for the application itself. -/
def respond (host : Host R) (answer : AppAnswer) : Host R :=
  match host.state with
  | .processing processing =>
    if processing.request.isSome then host
    else enqueueAnswer { host with state := .idle } processing.channel processing.command answer
  | _ => host

def statusBytes (response : Bytes) : Bytes := response.drop (response.length - 2)

/-- Whether the approved answer comes too late to be the response to the transaction
under way, whose client is told to poll. -/
def isLate (host : Host R) (poll : U2fPoll) (now : ℕ) (presenceFinished : Option ℕ) : Bool :=
  host.servesMsg && presenceFinished.isSome && now - poll.started > u2fResponseWaitMs

def retainAnswer (host : Host R) (poll : U2fPoll) (answer : AppAnswer) (now : ℕ)
    (presenceFinished : Option ℕ) : Host R :=
  let expires := saturatingAdd (presenceFinished.getD now) u2fApprovalMs
  if presenceFinished.isSome ∧ now ≤ expires then
    { host with u2f := some { poll with answer := some (answer, expires) } }
  else host

/-- A U2F answer that comes while its prompt is kept. A refusal is remembered. -/
def respondToPoll (host : Host R) (poll : U2fPoll) (answer : AppAnswer) (now : ℕ)
    (presenceFinished : Option ℕ) : Host R :=
  if statusBytes answer.response = conditionsNotSatisfied then
    respond { host with
        deniedPolls := host.deniedPolls ++ [⟨poll.channel, poll.request, poll.lastPoll⟩] } answer
  else if host.isLate poll now presenceFinished then
    retainAnswer
      (enqueueMessage { host with state := .idle } poll.channel .msg conditionsNotSatisfied)
      poll answer now presenceFinished
  else if !host.servesMsg then retainAnswer host poll answer now presenceFinished
  else respond host answer

def appResponse (host : Host R) (response : Bytes) (now : ℕ) (presenceFinished : Option ℕ) :
    Host R :=
  let answer : AppAnswer := ⟨host.taken.length - 1, response⟩
  let command := host.appCommand
  let host := { host with appBusy := false, appCommand := none }
  match command, host.u2f with
  | some .msg, some poll =>
    respondToPoll { host with u2f := none } poll answer now presenceFinished
  | _, _ => respond host answer

def nextOutgoingFrame (host : Host R) : Option OutgoingFrame := host.pending.head?

def isOutgoingCurrent (host : Host R) (frame : OutgoingFrame) : Bool :=
  host.pending.head?.any fun head => head.token = frame.token

/-- Retire a report after it was written. A token that is not the queue's head changes
nothing. -/
def outgoingFrameWritten (host : Host R) (frame : OutgoingFrame) : Host R × Bool :=
  if !host.isOutgoingCurrent frame then (host, false)
  else
    let host := { host with pending := host.pending.tail }
    match host.state with
    | .transmitting _ finalFrame =>
      if finalFrame = frame.token then ({ host with state := .idle }, true) else (host, true)
    | _ => (host, true)

end Host

end SoftwareAuthenticator.Ctaphid
