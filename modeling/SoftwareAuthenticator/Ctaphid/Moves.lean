import Mathlib.Logic.Relation
import SoftwareAuthenticator.Ctaphid.Run

/-!
# Calls are sequences of small moves

Every call on the host is a sequence of small guarded moves, each of which says all that
changes. What each move preserves, calls preserve.
-/

namespace SoftwareAuthenticator.Ctaphid

open Relation (ReflTransGen)
open U2fApdu (requestsPresence)

/-- A call on the host. Besides the events of the transport there are the two setters,
and a report whose write is acknowledged need not be the head of the queue. -/
inductive Call where
  | event (event : Event)
  | written (frame : OutgoingFrame)
  | setVersion (version : Version)
  | setCapabilities (capabilities : UInt8)
  deriving DecidableEq

def Host.call {R : Type} [CryptoRng R] (host : Host R) : Call → Host R
  | .event event => host.handle event
  | .written frame => (host.outgoingFrameWritten frame).1
  | .setVersion version => { host with version }
  | .setCapabilities capabilities => { host with capabilities }

def callMachine (R : Type) [CryptoRng R] : Machine (Host R) Call where
  initial host := ∃ rng version capabilities, host = Host.withRng rng version capabilities
  enabled _ _ := True
  step := Host.call

def Call.time : Call → Option ℕ
  | .event (.packet _ now) | .event (.timeout now) | .event (.keepalive _ now)
  | .event (.identified _ _ now) | .event (.answer _ now _) => some now
  | _ => none

def Call.isPacket : Call → Bool
  | .event (.packet _ _) => true
  | _ => false

def Call.isWritten : Call → Bool
  | .event .written | .written _ => true
  | _ => false

def Frame.isInit (frame : Frame) : Prop :=
  frame.byte 4 &&& 0x80 ≠ 0 ∧ Command.tryFrom (frame.byte 4 &&& 0x7f) = some .init

def State.channel : State → Option UInt32
  | .idle => none
  | .receiving channel _ _ _ _ => some channel
  | .processing p => some p.channel
  | .identifying channel _ _ => some channel
  | .transmitting channel _ => some channel

def State.isTransmitting : State → Bool
  | .transmitting _ _ => true
  | _ => false

def heldAt (channel : UInt32) (command : Command) (now : ℕ) (message : Bytes) : State :=
  .processing
    { channel := channel
      command := command
      started := now
      request := some message
      keepaliveAt := now
      keepaliveStatus := .processing }

def U2fPoll.start (channel : UInt32) (request : Bytes) (now : ℕ) : U2fPoll where
  channel := channel
  request := request
  lastPoll := now
  started := now
  presenceStarted := false
  presenceFinished := none
  answer := none

namespace Host

variable {R : Type}

theorem busyChannel_eq (host : Host R) :
    host.busyChannel = host.state.channel.or host.promptChannel := by
  cases h : host.state <;> simp [busyChannel, State.channel, h]

def Admits (host : Host R) (channel : UInt32) : Prop :=
  host.leaseConflicts channel = false ∧ ∀ busy, host.busyChannel = some busy → busy = channel

def Completes (host : Host R) (channel : UInt32) : Prop :=
  (host.state = .idle ∧ host.Admits channel) ∨
    ∃ command length sequence last, host.state = .receiving channel command length sequence last

/-- A response may be queued for `channel`: the transaction under way or its prompt is its
own, or a packet of it came to an idle host. -/
structure Answers (host : Host R) (call : Call) (channel : UInt32) : Prop where
  free : host.state.isTransmitting = false
  owner : host.state.channel = some channel ∨
    (host.state = .idle ∧ call.isPacket = true ∧ host.Admits channel) ∨
    ∃ processing poll, host.state = .processing processing ∧ host.u2f = some poll ∧
      poll.channel = channel

def IsDetached (host : Host R) : Prop :=
  ∀ processing, host.state = .processing processing →
    host.appCommand = some processing.command → processing.request.isSome = true

/-- What the host replies by itself: to a CBOR or MSG request only a status of its own. -/
def ownReply : Command → Bytes → Bool
  | .cbor, payload => payload = [ctap2ErrKeepaliveCancel]
  | .msg, payload => payload = conditionsNotSatisfied
  | _, _ => true

/-- A small move of a call that completes the MSG request `completed`, if any. -/
inductive Move (call : Call) (completed : Option (UInt32 × Bytes)) (host : Host R) :
    Host R → Prop where
  | configures (version : Version) (capabilities : UInt8) :
      Move call completed host { host with version, capabilities }
  | touches (channel : UInt32) :
      Move call completed host { host with channels := host.channels.touch channel }
  | draws (rng : R) : Move call completed host { host with rng }
  | allocates {id : UInt32} {channels : Channels} (hzero : id ≠ 0)
      (hbroadcast : id ≠ broadcastCid) (hinsert : host.channels.insert id = some channels) :
      Move call completed host { host with channels }
  | leaseEnds {channel : UInt32} {expires now : ℕ} (hlease : host.lease = some (channel, expires))
      (htime : call.time = some now) (hexpires : expires ≤ now) :
      Move call completed host { host with lease := none }
  | leases {channel : UInt32} {lease : Option (UInt32 × ℕ)} (hpacket : call.isPacket = true)
      (hserved : host.Completes channel) (hlease : ∀ owner ∈ lease, owner.1 = channel) :
      Move call completed host { host with lease }
  | buffers {message : Bytes} (hpacket : call.isPacket = true) (hidle : host.state = .idle)
      (hlength : message.length ≤ maxMessageSize) :
      Move call completed host { host with message }
  | receives {channel : UInt32} {command : Command} {length : ℕ} {message : Bytes}
      {frame : Frame} {now : ℕ} (hcall : call = .event (.packet frame now))
      (hidle : host.state = .idle) (hadmits : host.Admits channel)
      (hlength : message.length ≤ length) (hmax : length ≤ maxMessageSize) :
      Move call completed host { host with
        message, state := .receiving channel command length 0 now }
  | continues {channel : UInt32} {command : Command} {length : ℕ} {sequence : UInt8}
      {last now : ℕ} {frame : Frame} (hcall : call = .event (.packet frame now))
      (hstate : host.state = .receiving channel command length sequence last) (data : Bytes) :
      Move call completed host { host with
        state := .receiving channel command length (sequence + 1) now
        message := host.message ++ data.take (min (length - host.message.length) contData) }
  | replies {channel : UInt32} (hanswers : host.Answers call channel) (command : Command)
      (payload : Bytes) (hown : ownReply command payload = true) :
      Move call completed host (enqueueMessage host channel command payload)
  /-- An approved answer is collected in time. -/
  | collects {poll : U2fPoll} {answer : AppAnswer} {expires now : ℕ} {frame : Frame}
      (hcall : call = .event (.packet frame now)) (hserved : host.Completes poll.channel)
      (hpoll : host.u2f = some poll) (hanswer : poll.answer = some (answer, expires))
      (hexpires : now ≤ expires) :
      Move call completed host (enqueueAnswer { host with u2f := none } poll.channel .msg answer)
  | identifies {channel : UInt32} {now : ℕ} {frame : Frame}
      (hcall : call = .event (.packet frame now)) (hserved : host.Completes channel) :
      Move call completed host (host.completeWink channel now)
  | holds {channel : UInt32} {command : Command} {now : ℕ} {frame : Frame}
      (hcall : call = .event (.packet frame now)) (hserved : host.Completes channel)
      (hcommand : command ≠ .msg) :
      Move call completed host { host with
        u2f := none, state := heldAt channel command now host.message }
  /-- A MSG request is held only if no recent refusal answers it, and one more refusal
  could be remembered. -/
  | holdsMsg {channel : UInt32} {now : ℕ} {frame : Frame}
      (hcall : call = .event (.packet frame now)) (hserved : host.Completes channel)
      (hcompleted : completed = some (channel, host.message))
      (hunanswered : ∀ poll, host.u2f = some poll → poll.answer.isSome = true)
      (hrefused : refreshDenied channel host.message now host.deniedPolls = none)
      (hroom : requestsPresence host.message = true →
        (retainRecentDenied now host.deniedPolls).length < maxChannels) :
      Move call completed host { host with
        deniedPolls := retainRecentDenied now host.deniedPolls
        u2f := none, state := heldAt channel .msg now host.message }
  | refreshes {channel : UInt32} {now : ℕ} {polls : List DeniedPoll}
      (htime : call.time = some now) (hcompleted : completed = some (channel, host.message))
      (hpolls : refreshDenied channel host.message now host.deniedPolls = some polls) :
      Move call completed host { host with deniedPolls := polls }
  | retains {now : ℕ} (htime : call.time = some now) :
      Move call completed host { host with
        deniedPolls := retainRecentDenied now host.deniedPolls }
  | polls {poll : U2fPoll} {now : ℕ} (hpoll : host.u2f = some poll)
      (htime : call.time = some now) (hcompleted : completed = some (poll.channel, poll.request)) :
      Move call completed host { host with u2f := some { poll with lastPoll := now } }
  | interrupts {processing : Processing} (hpacket : call.isPacket = true)
      (hstate : host.state = .processing processing) (hrequest : processing.request = none) :
      Move call completed host { host with interruptApp := true }
  | expires {poll : U2fPoll} {now : ℕ} (hcall : call = .event (.timeout now))
      (hpoll : host.u2f = some poll) :
      Move call completed host { host with
        interruptApp := host.interruptApp || poll.answer.isNone, u2f := none }
  | waits {processing : Processing} {now : ℕ} {waitingForUser : Bool} {status : KeepaliveStatus}
      (hstate : host.state = .processing processing)
      (hcall : call = .event (.keepalive waitingForUser now)) :
      Move call completed host (pushFrames { host with
          state := .processing { processing with keepaliveAt := now, keepaliveStatus := status } }
        [initFrame processing.channel .keepAlive [status.toU8]])
  | asks {poll : U2fPoll} {presenceStarted : Bool} {presenceFinished : Option ℕ}
      (hpoll : host.u2f = some poll) (hcommand : host.appCommand = some .msg) :
      Move call completed host { host with u2f := some { poll with
        presenceStarted, presenceFinished } }
  | resets (hcall : call = .event .u2fReset ∨ call = .event (.u2fEnabled false)) :
      Move call completed host { host with u2f := none, deniedPolls := [] }
  | submits {channel : UInt32} {request : IdentificationRequest}
      (hstate : host.state = .identifying channel request false) :
      Move call completed host { host with state := .identifying channel request true }
  | takes {processing : Processing} {payload : Bytes} (hcall : call = .event .take)
      (hfree : host.appBusy = false) (hstate : host.state = .processing processing)
      (hrequest : processing.request = some payload) :
      Move call completed host { host with
        state := .processing { processing with request := none }
        u2f := if processing.command = .msg ∧ requestsPresence payload = true then
            some (.start processing.channel payload processing.started)
          else host.u2f
        appBusy := true
        appCommand := some processing.command
        taken := host.taken ++ [⟨processing.channel, ⟨processing.command, payload⟩⟩] }
  | interruptTaken (hcall : call = .event .interrupt) :
      Move call completed host { host with interruptApp := false }
  | delivers {processing : Processing} {response : Bytes} {now : ℕ} {finished : Option ℕ}
      (hcall : call = .event (.answer response now finished))
      (hstate : host.state = .processing processing) (hrequest : processing.request = none) :
      Move call completed host (enqueueAnswer host processing.channel processing.command
        ⟨host.taken.length - 1, response⟩)
  | withdraws {response : Bytes} {now : ℕ} {finished : Option ℕ}
      (hcall : call = .event (.answer response now finished)) :
      Move call completed host { host with u2f := none }
  /-- The application is free again, after the transaction it worked on was answered. -/
  | frees {response : Bytes} {now : ℕ} {finished : Option ℕ}
      (hcall : call = .event (.answer response now finished)) (hdetached : host.IsDetached)
      (hpoll : host.appCommand = some .msg → host.u2f = none) :
      Move call completed host { host with appBusy := false, appCommand := none }
  | denies {poll : U2fPoll} {response : Bytes} {now : ℕ} {finished : Option ℕ}
      (hcall : call = .event (.answer response now finished))
      (hdenied : statusBytes response = conditionsNotSatisfied)
      (hcommand : host.appCommand = some .msg) (hpoll : host.u2f = some poll) :
      Move call completed host { host with
        u2f := none
        deniedPolls := host.deniedPolls ++ [⟨poll.channel, poll.request, poll.lastPoll⟩] }
  | keeps {poll : U2fPoll} {response : Bytes} {now : ℕ} {finished : Option ℕ}
      (hcall : call = .event (.answer response now finished)) (hdetached : host.IsDetached)
      (hcommand : host.appCommand = some .msg) (hpoll : host.u2f = some poll) :
      Move call completed host { host with
        appBusy := false, appCommand := none
        u2f := some { poll with answer := some (⟨host.taken.length - 1, response⟩,
          saturatingAdd (finished.getD now) u2fApprovalMs) } }
  | writes {head : OutgoingFrame} {rest : List OutgoingFrame} (hcall : call.isWritten = true)
      (hpending : host.pending = head :: rest)
      (hmore : ∀ channel, host.state ≠ .transmitting channel head.token) :
      Move call completed host { host with pending := rest }
  | ends {head : OutgoingFrame} {rest : List OutgoingFrame} {channel : UInt32}
      (hcall : call.isWritten = true) (hpending : host.pending = head :: rest)
      (hstate : host.state = .transmitting channel head.token) :
      Move call completed host { host with pending := rest, state := .idle }

abbrev Moves (call : Call) (completed : Option (UInt32 × Bytes)) : Host R → Host R → Prop :=
  ReflTransGen (Move call completed)

/-- A packet is refused, or INIT resynchronises its channel. Only the lease, the channels and
the random source were touched before, and nothing follows. -/
inductive Concludes (call : Call) (completed : Option (UInt32 × Bytes)) (host : Host R) :
    Host R → Prop where
  | refuses {frame : Frame} {now : ℕ} {lease : Option (UInt32 × ℕ)} {channels : Channels} {rng : R}
      (hcall : call = .event (.packet frame now))
      (hmoves : Moves call completed host { host with lease, channels, rng }) (code : ErrorCode) :
      Concludes call completed host
        (enqueueError { host with lease, channels, rng } frame.channel code)
  | resynchronises {frame : Frame} {now : ℕ} {lease : Option (UInt32 × ℕ)} {channels : Channels}
      {rng : R} (hcall : call = .event (.packet frame now)) (hinit : frame.isInit)
      (hmoves : Moves call completed host { host with lease, channels, rng })
      (hadmits : ({ host with lease, channels, rng } : Host R).Admits frame.channel)
      (assigned : UInt32) (data : Bytes) :
      Concludes call completed host
        (resynchronise { host with lease, channels, rng } frame.channel assigned data)

theorem Concludes.after {call : Call} {completed : Option (UInt32 × Bytes)}
    {host host' : Host R} {lease : Option (UInt32 × ℕ)} {channels : Channels} {rng : R}
    (hmoves : Moves call completed host { host with lease, channels, rng })
    (h : Concludes call completed { host with lease, channels, rng } host') :
    Concludes call completed host host' := by
  cases h with
  | refuses hcall hmore code => exact .refuses hcall (hmoves.trans hmore) code
  | resynchronises hcall hinit hmore hadmits assigned data =>
    exact .resynchronises hcall hinit (hmoves.trans hmore) hadmits assigned data

theorem Moves.keeps {call : Call} {completed : Option (UInt32 × Bytes)} {I : Host R → Prop}
    (hmove : ∀ {host host'}, Move call completed host host' → I host → I host')
    {host host' : Host R} (h : Moves call completed host host') (hI : I host) : I host' := by
  induction h with
  | refl => exact hI
  | tail _ hlast ih => exact hmove hlast ih

variable {call : Call} {completed : Option (UInt32 × Bytes)} {host host' : Host R}

theorem enqueueMessage_state (host : Host R) (state : State) (channel : UInt32)
    (command : Command) (payload : Bytes) :
    enqueueMessage { host with state } channel command payload =
      enqueueMessage host channel command payload := by
  rw [enqueueMessage_eq, enqueueMessage_eq]
  rfl

/-- A message is queued by a host that differs from `host` in its transaction at most. -/
theorem moves_reply {channel : UInt32} (hanswers : host.Answers call channel) (command : Command)
    (payload : Bytes) (hsame : { host' with state := host.state } = host)
    (hown : ownReply command payload = true) :
    Moves call completed host (enqueueMessage host' channel command payload) := by
  have hreply : Move call completed host (enqueueMessage host channel command payload) :=
    .replies hanswers command payload hown
  rw [← enqueueMessage_state host' host.state, hsame]
  exact .single hreply

theorem moves_finish {channel : UInt32} (hfree : host.state.isTransmitting = false)
    (howner : host.state.channel = some channel) (command : Command) (payload : Bytes)
    (hsame : { host' with state := host.state } = host) (hown : ownReply command payload = true) :
    Moves call completed host (enqueueMessage host' channel command payload) :=
  moves_reply ⟨hfree, .inl howner⟩ command payload hsame hown

section Packets

variable {frame : Frame} {now : ℕ} {channel : UInt32} {length : ℕ} {data : Bytes}

theorem Completes.free (h : host.Completes channel) : host.state.isTransmitting = false := by
  rcases h with ⟨hidle, -⟩ | ⟨command, length, sequence, last, hstate⟩
  · rw [hidle]
    rfl
  · rw [hstate]
    rfl

theorem Completes.answers (h : host.Completes channel) (hpacket : call.isPacket = true) :
    host.Answers call channel := by
  refine ⟨h.free, ?_⟩
  rcases h with ⟨hidle, hadmits⟩ | ⟨command, length, sequence, last, hstate⟩
  · exact .inr (.inl ⟨hidle, hpacket, hadmits⟩)
  · exact .inl (by rw [hstate]; rfl)

/-- A prompt that was touched stands in nobody's way who was not hindered before. -/
theorem Completes.polled {poll : U2fPoll} (h : host.Completes channel)
    (hpoll : host.u2f = some poll) (now : ℕ) :
    ({ host with u2f := some { poll with lastPoll := now } } : Host R).Completes channel := by
  refine h.imp (fun h => ⟨h.1, h.2.1, fun busy hbusy => h.2.2 busy ?_⟩) id
  simpa [busyChannel, h.1, promptChannel, hpoll] using hbusy

theorem Completes.leased {lease : Option (UInt32 × ℕ)} (h : host.Completes channel)
    (hlease : ∀ owner ∈ lease, owner.1 = channel) :
    ({ host with lease } : Host R).Completes channel := by
  refine h.imp (fun h => ⟨h.1, ?_, h.2.2⟩) id
  cases lease with
  | none => rfl
  | some owner => simp [leaseConflicts, hlease owner rfl]

theorem lengthAllowed_le {command : Command} (h : lengthAllowed command length = true) :
    length ≤ maxMessageSize := by
  by_contra hlong
  have : decide (length > maxMessageSize) = true := decide_eq_true (by omega)
  simp [lengthAllowed, this] at h

section

variable (hcall : call = .event (.packet frame now))

include hcall

theorem moves_completeUnpolled (hserved : host.Completes channel)
    (hcompleted : completed = some (channel, host.message))
    (hunanswered : ∀ poll, host.u2f = some poll → poll.answer.isSome = true) :
    Moves call completed host (host.completeUnpolled channel now) := by
  have hpacket : call.isPacket = true := by rw [hcall]; rfl
  have htime : call.time = some now := by rw [hcall]; rfl
  unfold completeUnpolled
  split
  · rename_i polls hpolls
    have hrefreshed : Move call completed host { host with deniedPolls := polls } :=
      .refreshes htime hcompleted hpolls
    exact .head hrefreshed (moves_reply (Completes.answers (by exact hserved) hpacket) _ _ rfl rfl)
  · rename_i hnone
    have hretained : Move call completed host
        { host with deniedPolls := retainRecentDenied now host.deniedPolls } := .retains htime
    dsimp only
    split
    · exact .head hretained (moves_reply (Completes.answers (by exact hserved) hpacket) _ _ rfl rfl)
    · rename_i hroom
      refine .single (.holdsMsg hcall hserved hcompleted hunanswered hnone fun hpresence => ?_)
      exact Nat.lt_of_not_le fun hfull => hroom ⟨hpresence, hfull⟩

theorem moves_completeMsg (hserved : host.Completes channel)
    (hcompleted : completed = some (channel, host.message)) :
    Moves call completed host (host.completeMsg channel now) := by
  have hpacket : call.isPacket = true := by rw [hcall]; rfl
  have htime : call.time = some now := by rw [hcall]; rfl
  unfold completeMsg
  split
  · rename_i hnone
    refine moves_completeUnpolled hcall hserved hcompleted fun poll hpoll => ?_
    rw [hnone] at hpoll
    cases hpoll
  · rename_i poll hpoll
    split
    · rename_i hsame
      have hpolled : Move call completed host
          { host with u2f := some { poll with lastPoll := now } } := by
        refine .polls hpoll htime ?_
        rw [hcompleted, hsame.1, hsame.2]
      split
      · exact .head hpolled (moves_reply ((hserved.polled hpoll now).answers hpacket) _ _ rfl rfl)
      · rename_i answer expires hanswer
        split
        · refine .head hpolled
            (moves_completeUnpolled hcall (hserved.polled hpoll now) hcompleted ?_)
          rintro _ ⟨⟩
          simp [hanswer]
        · rename_i hexpires
          obtain ⟨rfl, -⟩ := hsame
          have hcollects : Move call completed host
              (enqueueAnswer { host with u2f := none } poll.channel .msg answer) :=
            .collects hcall hserved hpoll hanswer (Nat.le_of_not_lt hexpires)
          unfold enqueueAnswer at hcollects ⊢
          rw [← enqueueMessage_state _ .idle] at hcollects
          exact .single hcollects
    · split
      · exact moves_reply (hserved.answers hpacket) _ _ rfl rfl
      · rename_i hanswered
        refine moves_completeUnpolled hcall hserved hcompleted fun poll' hpoll' => ?_
        rw [hpoll] at hpoll'
        cases hpoll'
        simpa [Option.isSome_iff_ne_none] using hanswered

theorem moves_completeMessage {command : Command} (hserved : host.Completes channel)
    (hcompleted : command = .msg → completed = some (channel, host.message)) :
    Moves call completed host (host.completeMessage channel command now) := by
  have hpacket : call.isPacket = true := by rw [hcall]; rfl
  unfold completeMessage
  split
  · exact .single (.identifies hcall hserved)
  · unfold completeLock
    dsimp only
    split
    · exact moves_reply (hserved.answers hpacket) _ _ rfl rfl
    · have hlease : ∀ owner ∈ (if (host.message.getD 0 0).toNat ≠ 0 then
          some (channel, saturatingAdd now ((host.message.getD 0 0).toNat * 1000))
          else none), owner.1 = channel := by
        intro owner howner
        split at howner
        · cases howner
          rfl
        · cases howner
      exact .head (.leases hpacket hserved hlease)
        (moves_reply ((hserved.leased hlease).answers hpacket) _ _ rfl rfl)
  · exact moves_completeMsg hcall hserved (hcompleted rfl)
  · exact moves_reply (hserved.answers hpacket) _ _ rfl rfl
  · rename_i command' _ _ hmsg _
    exact .single (.holds hcall hserved fun h => hmsg h)

theorem moves_startMessage {command : Option Command} (hidle : host.state = .idle)
    (hadmits : host.Admits channel)
    (hcompleted : ¬ (channel = 0 ∨ channel = broadcastCid) → command = some .msg →
      length ≤ initData → length ≠ 0 → completed = some (channel, data.take length)) :
    Moves call completed host (host.startMessage channel command length data now) := by
  have hpacket : call.isPacket = true := by rw [hcall]; rfl
  have hserved : host.Completes channel := .inl ⟨hidle, hadmits⟩
  have hanswers := hserved.answers hpacket
  unfold startMessage
  split
  · exact moves_reply hanswers _ _ rfl rfl
  · rename_i hproper
    split
    · exact moves_reply hanswers _ _ rfl rfl
    · rename_i command
      split
      · exact moves_reply hanswers _ _ rfl rfl
      · split
        · exact moves_reply hanswers _ _ rfl rfl
        · rename_i hallowed
          have hmax : length ≤ maxMessageSize := by
            have hallowed : lengthAllowed command length = true := by simpa using hallowed
            exact lengthAllowed_le hallowed
          have htake : (data.take (min length initData)).length ≤ length := by
            rw [List.length_take]
            omega
          dsimp only
          split
          · rename_i hshort
            refine .head (.buffers hpacket hidle (le_trans htake hmax))
              (moves_completeMessage hcall (by exact hserved) ?_)
            rintro rfl
            have hdata : length ≠ 0 := by
              rintro rfl
              exact hallowed (by decide)
            rw [hcompleted hproper rfl hshort hdata, Nat.min_eq_left hshort]
          · exact .single (.receives hcall hidle hadmits htake hmax)

theorem moves_handleRequest {command : Option Command}
    (hcompleted : host.state = .idle → ¬ (frame.channel = 0 ∨ frame.channel = broadcastCid) →
      command = some .msg → length ≤ initData → length ≠ 0 →
        completed = some (frame.channel, data.take length)) :
    Moves call completed host (host.handleRequest frame.channel command length data now) ∨
      Concludes call completed host
        (host.handleRequest frame.channel command length data now) := by
  unfold handleRequest
  split
  · exact .inr (.refuses hcall .refl _)
  · rename_i hlease
    split
    · rename_i hbusy
      have hidle : host.state = .idle := by
        unfold busyChannel at hbusy
        cases hstate : host.state with
        | idle => rfl
        | _ => simp [hstate] at hbusy
      have hadmits : host.Admits frame.channel := by
        refine ⟨eq_false_of_ne_true hlease, fun busy h => ?_⟩
        rw [hbusy] at h
        cases h
      exact .inl (moves_startMessage hcall hidle hadmits (hcompleted hidle))
    · rename_i busy hbusy
      split
      · exact .inr (.refuses hcall .refl _)
      · rename_i hrefused
        simp only [refusedWhileBusy, Bool.or_eq_true, not_or, decide_eq_true_eq, ne_eq,
          not_not] at hrefused
        obtain ⟨⟨hmine, hfree⟩, -⟩ := hrefused
        rw [hmine] at hbusy
        split
        · rename_i owner _ _ _ _ hstate
          have howner : host.state.channel = some frame.channel := by
            rw [busyChannel_eq, hstate] at hbusy
            rw [hstate]
            exact hbusy
          exact .inl (moves_finish (by rw [hstate]; rfl) howner _ _ rfl rfl)
        · rename_i hreceiving
          have hidle : host.state = .idle := by
            cases hstate : host.state with
            | idle => rfl
            | receiving c m l s t => exact absurd hstate (hreceiving c m l s t)
            | _ => simp [hstate] at hfree
          have hadmits : host.Admits frame.channel := by
            refine ⟨eq_false_of_ne_true hlease, fun other h => ?_⟩
            rw [hbusy] at h
            exact (Option.some.inj h).symm
          exact .inl (moves_startMessage hcall hidle hadmits (hcompleted hidle))

theorem moves_handleContinuation {sequence : UInt8}
    (hcompleted : ∀ {length last}, host.state = .receiving channel .msg length sequence last →
      (host.message ++ data.take (min (length - host.message.length) contData)).length = length →
      completed = some (channel,
        host.message ++ data.take (min (length - host.message.length) contData))) :
    Moves call completed host (host.handleContinuation channel sequence data now) := by
  unfold handleContinuation
  split
  · rename_i receiving command length nextSequence last hstate
    split
    · exact .refl
    · rename_i hchannel
      obtain rfl : receiving = channel := not_not.mp hchannel
      split
      · exact moves_finish (by rw [hstate]; rfl) (by rw [hstate]; rfl) _ _ rfl rfl
      · rename_i hsequence
        obtain rfl : sequence = nextSequence := not_not.mp hsequence
        have hcontinued : Move call completed host { host with
            state := .receiving receiving command length (sequence + 1) now
            message := host.message ++
              data.take (min (length - host.message.length) contData) } :=
          .continues hcall hstate data
        dsimp only
        split
        · rename_i hlength
          refine .head hcontinued (moves_completeMessage hcall (.inr ⟨_, _, _, _, rfl⟩) ?_)
          rintro rfl
          exact hcompleted hstate hlength
        · exact .single hcontinued
  · exact .refl

end

theorem moves_handleCancel (host : Host R) (channel : UInt32) (hpacket : call.isPacket = true) :
    Moves call completed host (host.handleCancel channel) := by
  unfold handleCancel
  split
  · rename_i processing hstate
    split
    · exact .refl
    · rename_i hmine
      simp only [not_or, not_not] at hmine
      obtain ⟨rfl, -⟩ := hmine
      split
      · exact moves_finish (by rw [hstate]; rfl) (by rw [hstate]; rfl) _ _ rfl rfl
      · rename_i hworks
        exact .single (.interrupts hpacket hstate (Option.not_isSome_iff_eq_none.mp hworks))
  · exact .refl

theorem moves_refuseInit {underWay : Bool} (code : ErrorCode)
    (hcall : call = .event (.packet frame now)) (hadmits : host.Admits frame.channel)
    (hidle : underWay = false → host.state = .idle) :
    Moves call completed host (host.refuseInit underWay frame.channel code) ∨
      Concludes call completed host (host.refuseInit underWay frame.channel code) := by
  unfold refuseInit
  split
  · exact .inr (.refuses hcall .refl _)
  · rename_i hunder
    have hstate := hidle (by simpa using hunder)
    have hpacket : call.isPacket = true := by rw [hcall]; rfl
    exact .inl (moves_reply (Completes.answers (.inl ⟨hstate, hadmits⟩) hpacket) _ _ rfl rfl)

theorem moves_expireLease (host : Host R) (htime : call.time = some now) :
    Moves call completed host (host.expireLease now) := by
  unfold expireLease
  split
  · rename_i hlease
    split
    · rename_i hexpires
      exact .single (.leaseEnds hlease htime hexpires)
    · exact .refl
  · exact .refl

theorem expireLease_eq (host : Host R) (now : ℕ) :
    ∃ lease, host.expireLease now = { host with lease } := by
  unfold expireLease
  split
  · split
    · exact ⟨none, rfl⟩
    · exact ⟨host.lease, rfl⟩
  · exact ⟨host.lease, rfl⟩

@[simp] theorem expireLease_state (host : Host R) (now : ℕ) :
    (host.expireLease now).state = host.state := by
  obtain ⟨lease, h⟩ := host.expireLease_eq now
  rw [h]

def completedMsg (host : Host R) (frame : Frame) : Option (UInt32 × Bytes) :=
  if frame.byte 4 &&& 0x80 = 0 then
    match host.state with
    | .receiving channel .msg length nextSequence _ =>
      let message := host.message ++
        (frame.bytes.drop 5).take (min (length - host.message.length) contData)
      if channel = frame.channel ∧ frame.byte 4 = nextSequence ∧ message.length = length then
        some (frame.channel, message)
      else none
    | _ => none
  else
    let length := ofBeBytes16 (frame.byte 5) (frame.byte 6)
    if Command.tryFrom (frame.byte 4 &&& 0x7f) = some .msg ∧ length ≤ initData then
      some (frame.channel, (frame.bytes.drop 7).take length)
    else none

/-- The MSG request that a packet completes. An initialization packet amid a message is out
of sequence, and one on a reserved channel or without data is malformed: neither completes
a request. -/
def submittedMsg (host : Host R) (frame : Frame) : Option (UInt32 × Bytes) :=
  if frame.byte 4 &&& 0x80 = 0 then host.completedMsg frame
  else
    match host.state with
    | .receiving _ _ _ _ _ => none
    | _ =>
      if frame.channel = 0 ∨ frame.channel = broadcastCid ∨
          ofBeBytes16 (frame.byte 5) (frame.byte 6) = 0 then none
      else host.completedMsg frame

theorem submittedMsg_continuation {last : ℕ} (hbyte : frame.byte 4 &&& 0x80 = 0)
    (hstate : host.state = .receiving frame.channel .msg length (frame.byte 4) last)
    (hlength : (host.message ++ (frame.bytes.drop 5).take
      (min (length - host.message.length) contData)).length = length) :
    host.submittedMsg frame = some (frame.channel, host.message ++
      (frame.bytes.drop 5).take (min (length - host.message.length) contData)) := by
  simp only [submittedMsg, completedMsg, hstate, if_pos hbyte]
  exact if_pos ⟨trivial, trivial, hlength⟩

theorem submittedMsg_short (hbyte : frame.byte 4 &&& 0x80 ≠ 0) (hidle : host.state = .idle)
    (hproper : ¬ (frame.channel = 0 ∨ frame.channel = broadcastCid))
    (hcommand : Command.tryFrom (frame.byte 4 &&& 0x7f) = some .msg)
    (hlength : ofBeBytes16 (frame.byte 5) (frame.byte 6) ≤ initData)
    (hdata : ofBeBytes16 (frame.byte 5) (frame.byte 6) ≠ 0) :
    host.submittedMsg frame = some (frame.channel,
      (frame.bytes.drop 7).take (ofBeBytes16 (frame.byte 5) (frame.byte 6))) := by
  rw [not_or] at hproper
  simp only [submittedMsg, completedMsg, hidle, if_neg hbyte]
  rw [if_neg (by simp [hproper, hdata])]
  exact if_pos ⟨hcommand, hlength⟩

section Random

variable [CryptoRng R]

theorem allocateChannelLoop_snd (fuel : ℕ) (host : Host R) :
    ∃ rng channels, (allocateChannelLoop fuel host).2 =
      { host with rng := rng, channels := channels } := by
  induction fuel generalizing host with
  | zero => exact ⟨host.rng, host.channels, rfl⟩
  | succ fuel ih =>
    simp only [allocateChannelLoop]
    split
    · obtain ⟨rng, channels, h⟩ := ih { host with rng := (CryptoRng.nextU32 host.rng).2 }
      exact ⟨rng, channels, h⟩
    · split
      · next channels _ => exact ⟨_, channels, rfl⟩
      · obtain ⟨rng, channels, h⟩ := ih { host with rng := (CryptoRng.nextU32 host.rng).2 }
        exact ⟨rng, channels, h⟩

theorem moves_allocateChannelLoop (fuel : ℕ) (host : Host R) :
    Moves call completed host (allocateChannelLoop fuel host).2 := by
  induction fuel generalizing host with
  | zero => exact .refl
  | succ fuel ih =>
    simp only [allocateChannelLoop]
    refine .head (.draws (CryptoRng.nextU32 host.rng).2) ?_
    split
    · exact ih _
    · rename_i hproper
      rw [not_or] at hproper
      split
      · rename_i channels hinsert
        exact .single (.allocates hproper.1 hproper.2 hinsert)
      · exact ih _

theorem moves_handleInit (host : Host R) (length : ℕ) (data : Bytes)
    (hcall : call = .event (.packet frame now)) (hinit : frame.isInit) :
    Moves call completed host (host.handleInit frame.channel length data) ∨
      Concludes call completed host (host.handleInit frame.channel length data) := by
  have hfree : decide (host.state ≠ .idle) = false → host.state = .idle := by simp
  unfold handleInit
  split
  · exact .inr (.refuses hcall .refl _)
  · rename_i hlease
    split
    · exact .inr (.refuses hcall .refl _)
    · rename_i hbusy
      have hadmits : host.Admits frame.channel :=
        ⟨eq_false_of_ne_true hlease, fun busy h => by simpa [h] using hbusy⟩
      split
      · refine moves_refuseInit _ hcall hadmits fun hnone => ?_
        cases hstate : host.state with
        | idle => rfl
        | _ => simp [busyChannel, hstate] at hnone
      · dsimp only
        split
        · have halloc : Moves call completed host
              (allocateChannelLoop channelGenerationRetryLimit host).2 :=
            moves_allocateChannelLoop channelGenerationRetryLimit host
          obtain ⟨rng, channels, heq⟩ := allocateChannelLoop_snd channelGenerationRetryLimit host
          rw [heq] at halloc
          split
          · rename_i assigned host₁ hassigned
            obtain rfl : host₁ = { host with rng, channels } :=
              (congrArg Prod.snd hassigned).symm.trans heq
            exact .inr (.resynchronises hcall hinit halloc (by exact hadmits) _ _)
          · rename_i host₁ hassigned
            obtain rfl : host₁ = { host with rng, channels } :=
              (congrArg Prod.snd hassigned).symm.trans heq
            exact Or.imp halloc.trans (.after halloc)
              (moves_refuseInit _ hcall (by exact hadmits) (by exact hfree))
        · split
          · exact .inr (.resynchronises hcall hinit .refl hadmits _ _)
          · exact moves_refuseInit _ hcall hadmits hfree

theorem moves_handleFrame (host : Host R) (frame : Frame) (now : ℕ) :
    Moves (.event (.packet frame now)) (host.submittedMsg frame) host
        (host.handleFrame frame now) ∨
      Concludes (.event (.packet frame now)) (host.submittedMsg frame) host
        (host.handleFrame frame now) := by
  obtain ⟨lease, hlease⟩ := host.expireLease_eq now
  have hexpired : Moves (.event (.packet frame now)) (host.submittedMsg frame) host
      { host with lease } := by
    rw [← hlease]
    exact moves_expireLease host rfl
  unfold handleFrame
  dsimp only
  rw [hlease]
  split
  · rename_i hbyte
    refine .inl (hexpired.trans (moves_handleContinuation rfl fun {length last} hstate hlength => ?_))
    exact submittedMsg_continuation hbyte hstate hlength
  · rename_i hbyte
    have htouched := hexpired.tail (.touches frame.channel)
    split
    · exact .inl (htouched.trans (moves_handleCancel _ _ rfl))
    · rename_i hcommand
      exact Or.imp htouched.trans (.after htouched)
        (moves_handleInit _ _ _ rfl ⟨hbyte, hcommand⟩)
    · refine Or.imp htouched.trans (.after htouched) (moves_handleRequest rfl ?_)
      exact fun hidle hproper hcommand hlength hdata =>
        submittedMsg_short hbyte hidle hproper hcommand hlength hdata

end Random

end Packets

theorem moves_expireIdentification (host : Host R) (now : ℕ) :
    Moves call completed host (host.expireIdentification now) := by
  unfold expireIdentification
  split
  · rename_i hstate
    split
    · exact moves_finish (by rw [hstate]; rfl) (by rw [hstate]; rfl) _ _ rfl rfl
    · exact .refl
  · exact .refl

theorem moves_expirePoll (host : Host R) (now : ℕ) :
    Moves (.event (.timeout now)) completed host (host.expirePoll now) := by
  unfold expirePoll
  split
  · rename_i hpoll
    split
    · exact .single (.expires rfl hpoll)
    · exact .refl
  · exact .refl

theorem moves_answerWaitingPoll (host : Host R) (now : ℕ) :
    Moves call completed host (host.answerWaitingPoll now) := by
  unfold answerWaitingPoll
  split
  · rename_i hstate _
    split
    · exact moves_finish (by rw [hstate]; rfl) (by rw [hstate]; rfl) _ _ rfl rfl
    · exact .refl
  · exact .refl

theorem moves_expireReceiving (host : Host R) (now : ℕ) :
    Moves call completed host (host.expireReceiving now) := by
  unfold expireReceiving
  split
  · rename_i hstate
    split
    · exact moves_finish (by rw [hstate]; rfl) (by rw [hstate]; rfl) _ _ rfl rfl
    · exact .refl
  · exact .refl

theorem moves_handleTimeout (host : Host R) (now : ℕ) :
    Moves (.event (.timeout now)) completed host (host.handleTimeout now) := by
  have hearly : Moves (.event (.timeout now)) completed host
      (((host.expireLease now).expireIdentification now).expireDenied now) :=
    ((moves_expireLease host rfl).trans (moves_expireIdentification _ now)).tail (.retains rfl)
  refine (hearly.trans (moves_expirePoll _ now)).trans ?_
  exact (moves_answerWaitingPoll _ now).trans (moves_expireReceiving _ now)

theorem moves_sendKeepalive (host : Host R) (waitingForUser : Bool) (now : ℕ) :
    Moves (.event (.keepalive waitingForUser now)) completed host
      (host.sendKeepalive waitingForUser now).1 := by
  unfold sendKeepalive
  split
  · rename_i processing hstate
    dsimp only
    split
    · exact .refl
    · exact .single (.waits hstate rfl)
  · exact .refl

theorem moves_appPresence (host : Host R) (waiting : Bool) :
    Moves call completed host (host.appPresence waiting) := by
  unfold appPresence
  split
  · rename_i hpoll
    split
    · rename_i hwaiting
      exact .single (.asks hpoll hwaiting.2)
    · exact .refl
  · exact .refl

theorem moves_appPresenceFinished (host : Host R) (at_ : ℕ) :
    Moves call completed host (host.appPresenceFinished at_) := by
  unfold appPresenceFinished
  split
  · rename_i hpoll
    split
    · rename_i hcommand
      exact .single (.asks hpoll hcommand)
    · exact .refl
  · exact .refl

theorem moves_takeIdentificationRequest (host : Host R) :
    Moves call completed host host.takeIdentificationRequest.1 := by
  unfold takeIdentificationRequest
  split
  · rename_i hstate
    exact .single (.submits hstate)
  · exact .refl

theorem moves_identificationResponse (host : Host R) (token : ℕ) (delivered : Bool) (now : ℕ) :
    Moves call completed host (host.identificationResponse token delivered now) := by
  unfold identificationResponse
  split
  · rename_i hstate
    split
    · exact .refl
    · split
      · exact moves_finish (by rw [hstate]; rfl) (by rw [hstate]; rfl) _ _ rfl rfl
      · exact moves_finish (by rw [hstate]; rfl) (by rw [hstate]; rfl) _ _ rfl rfl
  · exact .refl

theorem moves_takeAppRequest (host : Host R) :
    Moves (.event .take) completed host host.takeAppRequest.1 := by
  unfold takeAppRequest
  split
  · exact .refl
  · rename_i hfree
    split
    · rename_i processing hstate
      split
      · exact .refl
      · rename_i payload hrequest
        exact .single (.takes rfl (eq_false_of_ne_true hfree) hstate hrequest)
    · exact .refl

/-- A response answers the transaction under way, if the application works on it, and frees
the application. -/
theorem moves_respond {response : Bytes} {now : ℕ} {finished : Option ℕ}
    (hcall : call = .event (.answer response now finished))
    (hpoll : host.appCommand = some .msg → host.u2f = none) :
    Moves call completed host (respond { host with appBusy := false, appCommand := none }
      ⟨host.taken.length - 1, response⟩) := by
  unfold respond
  split
  · rename_i processing hstate
    have hstate : host.state = .processing processing := hstate
    split
    · rename_i hheld
      refine .single (.frees hcall (fun processing' hstate' _ => ?_) hpoll)
      rw [hstate] at hstate'
      cases hstate'
      exact hheld
    · rename_i hworks
      refine .head (.delivers hcall hstate (Option.not_isSome_iff_eq_none.mp hworks)) (.single ?_)
      unfold enqueueAnswer
      rw [enqueueMessage_eq, enqueueMessage_eq]
      exact .frees hcall (fun _ h _ => by cases h) hpoll
  · rename_i hstate
    exact .single (.frees hcall (fun processing h _ => absurd h (hstate processing)) hpoll)

theorem moves_retainAnswer {poll : U2fPoll} {response : Bytes} {now : ℕ}
    {finished : Option ℕ} (hcall : call = .event (.answer response now finished))
    (hdetached : host.IsDetached) (hcommand : host.appCommand = some .msg)
    (hpoll : host.u2f = some poll) :
    Moves call completed host (retainAnswer
      { host with appBusy := false, appCommand := none, u2f := none } poll
      ⟨host.taken.length - 1, response⟩ now finished) := by
  unfold retainAnswer
  dsimp only
  split
  · exact .single (.keeps hcall hdetached hcommand hpoll)
  · refine .head (.withdraws hcall) (.single ?_)
    exact .frees hcall (by exact hdetached) (fun _ => rfl)

theorem servesMsg_eq_true (h : host.servesMsg = true) :
    ∃ p, host.state = .processing p ∧ p.command = .msg ∧ p.request = none := by
  unfold servesMsg at h
  split at h
  · next p hs => exact ⟨p, hs, by simpa using h⟩
  · cases h

theorem isSome_of_servesMsg (h : host.servesMsg = false) {processing : Processing}
    (hstate : host.state = .processing processing) (hcommand : processing.command = .msg) :
    processing.request.isSome = true := by
  unfold servesMsg at h
  rw [hstate] at h
  cases hrequest : processing.request with
  | some payload => rfl
  | none => simp [hcommand, hrequest] at h

theorem isLate_servesMsg {poll : U2fPoll} {now : ℕ} {presenceFinished : Option ℕ}
    (h : host.isLate poll now presenceFinished = true) : host.servesMsg = true := by
  simp only [isLate, Bool.and_eq_true] at h
  exact h.1.1

theorem moves_appResponse (host : Host R) (response : Bytes) (now : ℕ) (finished : Option ℕ) :
    Moves (.event (.answer response now finished)) completed host
      (host.appResponse response now finished) := by
  unfold appResponse
  dsimp only
  split
  · rename_i poll hcommand hpoll
    have hpoll : host.u2f = some poll := hpoll
    unfold respondToPoll
    split
    · rename_i hdenied
      have hdenies : Move (.event (.answer response now finished)) completed host { host with
          u2f := none
          deniedPolls := host.deniedPolls ++ [⟨poll.channel, poll.request, poll.lastPoll⟩] } :=
        .denies rfl hdenied hcommand hpoll
      exact .head hdenies (moves_respond rfl fun _ => rfl)
    · split
      · rename_i hlate
        obtain ⟨processing, hstate, -⟩ := servesMsg_eq_true (isLate_servesMsg hlate)
        have hstate : host.state = .processing processing := hstate
        have hreply : Move (.event (.answer response now finished)) completed host
            (enqueueMessage host poll.channel .msg conditionsNotSatisfied) := by
          refine .replies ⟨?_, .inr (.inr ⟨processing, poll, hstate, hpoll, rfl⟩)⟩ _ _ rfl
          rw [hstate]
          rfl
        refine .head hreply ?_
        rw [enqueueMessage_eq, enqueueMessage_eq]
        exact moves_retainAnswer rfl (fun _ h _ => by cases h) hcommand hpoll
      · split
        · rename_i hserves
          refine moves_retainAnswer rfl (fun processing hstate hsame => ?_) hcommand hpoll
          rw [hcommand] at hsame
          have hserves : servesMsg { host with
              appBusy := false, appCommand := none, u2f := none } = false := by simpa using hserves
          exact isSome_of_servesMsg hserves hstate (Option.some.inj hsame).symm
        · have hdrops : Move (.event (.answer response now finished)) completed host
              { host with u2f := none } := .withdraws rfl
          exact .head hdrops (moves_respond rfl fun _ => rfl)
  · rename_i hnot
    refine moves_respond rfl fun hcommand => ?_
    cases hpoll : host.u2f with
    | none => rfl
    | some poll => exact absurd hpoll (hnot poll hcommand)

theorem moves_outgoingFrameWritten (host : Host R) (frame : OutgoingFrame)
    (hcall : call.isWritten = true) :
    Moves call completed host (host.outgoingFrameWritten frame).1 := by
  unfold outgoingFrameWritten
  split
  · exact .refl
  · rename_i hcurrent
    obtain ⟨head, rest, hpending, htoken⟩ : ∃ head rest,
        host.pending = head :: rest ∧ head.token = frame.token := by
      cases hpending : host.pending with
      | nil => simp [isOutgoingCurrent, hpending] at hcurrent
      | cons head rest => exact ⟨head, rest, rfl, by simpa [isOutgoingCurrent, hpending] using hcurrent⟩
    dsimp only
    rw [hpending, List.tail_cons]
    split
    · rename_i channel final hstate
      split
      · rename_i hfinal
        exact .single (.ends hcall hpending (by rw [hstate, hfinal, htoken]))
      · rename_i hfinal
        refine .single (.writes hcall hpending fun other hother => hfinal ?_)
        rw [hstate] at hother
        cases hother
        exact htoken
    · rename_i hstate
      exact .single (.writes hcall hpending fun other hother => hstate other _ hother)

variable [CryptoRng R]

def submittedBy (host : Host R) : Call → Option (UInt32 × Bytes)
  | .event (.packet frame _) => host.submittedMsg frame
  | _ => none

/-- Every call is a sequence of small moves, unless it is a packet that is refused or
resynchronises its channel. -/
theorem moves_call (host : Host R) (call : Call) :
    Moves call (host.submittedBy call) host (host.call call) ∨
      Concludes call (host.submittedBy call) host (host.call call) := by
  cases call with
  | setVersion version => exact .inl (.single (.configures version host.capabilities))
  | setCapabilities capabilities => exact .inl (.single (.configures host.version capabilities))
  | written frame => exact .inl (host.moves_outgoingFrameWritten frame rfl)
  | event event =>
    cases event with
    | packet frame now => exact host.moves_handleFrame frame now
    | timeout now => exact .inl (host.moves_handleTimeout now)
    | presence waiting => exact .inl (host.moves_appPresence waiting)
    | presenceFinished at_ => exact .inl (host.moves_appPresenceFinished at_)
    | u2fEnabled enabled =>
      cases enabled with
      | true => exact .inl .refl
      | false => exact .inl (.single (.resets (.inr rfl)))
    | u2fReset => exact .inl (.single (.resets (.inl rfl)))
    | keepalive waitingForUser now => exact .inl (host.moves_sendKeepalive waitingForUser now)
    | identify => exact .inl host.moves_takeIdentificationRequest
    | identified token delivered now =>
      exact .inl (host.moves_identificationResponse token delivered now)
    | take => exact .inl host.moves_takeAppRequest
    | interrupt => exact .inl (.single (.interruptTaken rfl))
    | answer response now finished => exact .inl (host.moves_appResponse response now finished)
    | written =>
      refine .inl ?_
      change Moves _ _ host host.headWritten
      unfold headWritten
      split
      · exact host.moves_outgoingFrameWritten _ rfl
      · exact .refl

/-- Only a packet is refused or resynchronises. -/
theorem moves_of_not_packet (host : Host R) {call : Call} (hpacket : call.isPacket = false) :
    Moves call (host.submittedBy call) host (host.call call) := by
  rcases host.moves_call call with hmoves | hresync
  · exact hmoves
  · generalize host.call call = host' at hresync
    cases hresync with
    | refuses hcall | resynchronises hcall =>
      rw [hcall] at hpacket
      cases hpacket

/-- What every small move of a call keeps, and a refusal and a resynchronisation keep, the
call keeps. -/
theorem call_keeps {I : Host R → Prop} (host : Host R) (call : Call)
    (hmove : ∀ {a b}, Move call (host.submittedBy call) a b → I a → I b)
    (hrefuse : ∀ {a : Host R} {channel code}, I a → I (a.enqueueError channel code))
    (hresync : ∀ {a : Host R} {channel assigned data}, a.Admits channel → I a →
      I (a.resynchronise channel assigned data))
    (hI : I host) : I (host.call call) := by
  rcases host.moves_call call with hmoves | hconcludes
  · exact hmoves.keeps hmove hI
  · generalize host.call call = host' at hconcludes
    cases hconcludes with
    | refuses _ hmoves => exact hrefuse (hmoves.keeps hmove hI)
    | resynchronises _ _ hmoves hadmits => exact hresync hadmits (hmoves.keeps hmove hI)

end Host

end SoftwareAuthenticator.Ctaphid
