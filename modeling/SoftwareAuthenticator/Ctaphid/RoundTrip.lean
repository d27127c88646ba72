import SoftwareAuthenticator.Ctaphid.Approval
import SoftwareAuthenticator.Ctaphid.Framing

/-!
# Messages arrive whole

A message reaches the application byte for byte, whatever packets other channels send in between;
and a message that the host queues is what the client receives.
-/

namespace SoftwareAuthenticator.Ctaphid

def State.isReceiving : State → Bool
  | .receiving _ _ _ _ _ => true
  | _ => false

variable {channel : UInt32} {frames : List Frame} {frame : Frame}

namespace Host

variable {R : Type}

variable {data : Bytes}

def Leaves (host host' : Host R) : Prop :=
  host'.state.isReceiving = true → host'.state = host.state ∧ host'.message = host.message

theorem Leaves.refl (host : Host R) : Leaves host host := fun _ => ⟨rfl, rfl⟩

theorem Leaves.trans {a b c : Host R} (hab : Leaves a b) (hbc : Leaves b c) : Leaves a c := by
  intro hc
  obtain ⟨hstate, hmessage⟩ := hbc hc
  obtain ⟨hstate', hmessage'⟩ := hab (hstate ▸ hc)
  exact ⟨hstate.trans hstate', hmessage.trans hmessage'⟩

variable {host host' : Host R}

theorem Leaves.of_not (h : host'.state.isReceiving = false) :
    Leaves host host' := fun h' => absurd h' (by rw [h]; exact Bool.false_ne_true)

theorem leaves_enqueueMessage (host host' : Host R) (channel : UInt32) (command : Command)
    (payload : Bytes) : Leaves host (enqueueMessage host' channel command payload) :=
  .of_not rfl

theorem leaves_enqueueError (host : Host R) (channel : UInt32) (code : ErrorCode) :
    Leaves host (host.enqueueError channel code) := by
  rw [enqueueError_eq]
  exact .refl host

theorem leaves_expireLease (host : Host R) (now : ℕ) : Leaves host (host.expireLease now) := by
  unfold expireLease
  split
  · split
    · exact fun _ => ⟨rfl, rfl⟩
    · exact .refl host
  · exact .refl host

theorem leaves_completeUnpolled (host host' : Host R) (channel : UInt32) (now : ℕ) :
    Leaves host (host'.completeUnpolled channel now) := by
  unfold completeUnpolled
  split
  · exact leaves_enqueueMessage _ _ _ _ _
  · dsimp only
    split
    · exact leaves_enqueueMessage _ _ _ _ _
    · exact .of_not rfl

theorem leaves_completeMsg (host host' : Host R) (channel : UInt32) (now : ℕ) :
    Leaves host (host'.completeMsg channel now) := by
  unfold completeMsg
  split
  · exact leaves_completeUnpolled _ _ _ _
  · split_ifs
    · split
      · exact leaves_enqueueMessage _ _ _ _ _
      · split_ifs
        · exact leaves_completeUnpolled _ _ _ _
        · exact leaves_enqueueMessage _ _ _ _ _
    · exact leaves_enqueueMessage _ _ _ _ _
    · exact leaves_completeUnpolled _ _ _ _

theorem leaves_completeMessage (host host' : Host R) (channel : UInt32) (command : Command)
    (now : ℕ) : Leaves host (host'.completeMessage channel command now) := by
  unfold completeMessage
  split
  · exact .of_not rfl
  · unfold completeLock
    dsimp only
    split_ifs <;> exact leaves_enqueueMessage _ _ _ _ _
  · exact leaves_completeMsg _ _ _ _
  · exact leaves_enqueueMessage _ _ _ _ _
  · exact .of_not rfl

theorem leaves_handleCancel (host : Host R) (channel : UInt32) :
    Leaves host (host.handleCancel channel) := by
  unfold handleCancel
  split
  · split_ifs
    · exact .refl host
    · exact leaves_enqueueMessage _ _ _ _ _
    · exact fun _ => ⟨rfl, rfl⟩
  · exact .refl host

theorem leaves_refuseInit (host : Host R) (underWay : Bool) (channel : UInt32) (code : ErrorCode) :
    Leaves host (host.refuseInit underWay channel code) := by
  unfold refuseInit
  split
  · exact leaves_enqueueError _ _ _
  · exact leaves_enqueueMessage _ _ _ _ _

theorem Leaves.move {call : Call} {completed : Option (UInt32 × Bytes)}
    (hcall : call.isPacket = false) (hmove : Move call completed host host') :
    Leaves host host' := by
  cases hmove with
  | receives h | continues h | collects h | identifies h | holds h | holdsMsg h | leases h
  | buffers h | interrupts h =>
    rw [h] at hcall
    cases hcall
  | replies | delivers | waits | submits | takes | ends => exact .of_not rfl
  | _ => exact fun _ => ⟨rfl, rfl⟩

theorem leaves_handle [CryptoRng R] (host : Host R) {event : Event}
    (h : (Call.event event).isPacket = false) : Leaves host (host.handle event) := by
  refine (host.moves_of_not_packet h).keeps (I := Leaves host) (fun hmove hleaves => ?_) (.refl host)
  exact hleaves.trans (.move h hmove)

/-- The message received so far fills its initialization packet and the continuation packets
counted, and is not complete. -/
def Counts (host : Host R) : Prop :=
  ∀ channel command length sequence last,
    host.state = .receiving channel command length sequence last →
      host.message.length = initData + sequence.toNat * contData ∧
      host.message.length < length ∧ length ≤ maxMessageSize

theorem Counts.leaves (h : host.Counts) (hleaves : Leaves host host') : host'.Counts := by
  intro channel command length sequence last hstate
  obtain ⟨hsame, hmessage⟩ := hleaves (by rw [hstate]; rfl)
  rw [hmessage]
  exact h channel command length sequence last (hsame ▸ hstate)

/-- While a message is received, the counter can be increased and the length subtracted. -/
theorem Counts.bounds (h : host.Counts) {command : Command} {length last : ℕ} {sequence : UInt8}
    (hstate : host.state = .receiving channel command length sequence last) :
    sequence.toNat < 128 ∧ host.message.length < length := by
  obtain ⟨hlength, hmore, hmax⟩ := h _ _ _ _ _ hstate
  simp only [maxMessageSize, initData, contData, packetSize] at hlength hmax
  omega

theorem Counts.startMessage (h : host.Counts) (channel : UInt32) (command : Option Command)
    (length : ℕ) (hdata : data.length = initData) (now : ℕ) :
    (host.startMessage channel command length data now).Counts := by
  unfold Host.startMessage
  split
  · exact h.leaves (leaves_enqueueMessage _ _ _ _ _)
  · split
    · exact h.leaves (leaves_enqueueMessage _ _ _ _ _)
    · split
      · exact h.leaves (leaves_enqueueMessage _ _ _ _ _)
      · split
        · exact h.leaves (leaves_enqueueMessage _ _ _ _ _)
        · next hallowed =>
          dsimp only
          split
          · exact h.leaves (leaves_completeMessage _ _ _ _ _)
          · next hlong =>
            rintro _ _ _ _ _ ⟨⟩
            have hmax : length ≤ maxMessageSize := by
              simp only [lengthAllowed, Bool.not_not, Bool.or_eq_true, decide_eq_true_eq,
                not_or, gt_iff_lt, not_lt] at hallowed
              exact hallowed.1.1.1
            have hmessage : (data.take (min length initData)).length = initData := by
              rw [List.length_take, hdata]
              omega
            refine ⟨hmessage, ?_, hmax⟩
            change (data.take (min length initData)).length < length
            omega

theorem Counts.handleRequest (h : host.Counts) (channel : UInt32) (command : Option Command)
    (length : ℕ) (hdata : data.length = initData) (now : ℕ) :
    (host.handleRequest channel command length data now).Counts := by
  unfold Host.handleRequest
  split
  · exact h.leaves (leaves_enqueueError _ _ _)
  · split
    · exact h.startMessage channel command length hdata now
    · split
      · exact h.leaves (leaves_enqueueError _ _ _)
      · split
        · exact h.leaves (leaves_enqueueMessage _ _ _ _ _)
        · exact h.startMessage channel command length hdata now

theorem Counts.handleContinuation (h : host.Counts) (channel : UInt32) (sequence : UInt8)
    (hdata : data.length = contData) (now : ℕ) :
    (host.handleContinuation channel sequence data now).Counts := by
  unfold Host.handleContinuation
  split
  case h_2 => exact h
  case h_1 receiving command length next last hstate =>
    obtain ⟨hlength, hmore, hmax⟩ := h _ _ _ _ _ hstate
    obtain ⟨hnext, -⟩ := h.bounds hstate
    split_ifs with hforeign hsequence
    · exact h
    · exact h.leaves (leaves_enqueueMessage _ _ _ _ _)
    · dsimp only
      split_ifs with hcomplete
      · exact h.leaves (leaves_completeMessage _ _ _ _ _)
      · rintro _ _ _ _ _ ⟨⟩
        have hsucc : (next + 1).toNat = next.toNat + 1 := by
          rw [UInt8.toNat_add]
          change (next.toNat + 1) % 256 = next.toNat + 1
          omega
        simp only [List.length_append, List.length_take, hdata] at hcomplete ⊢
        rw [hsucc, Nat.succ_mul]
        exact ⟨by omega, by omega, hmax⟩

def queuedFor (host : Host R) (channel : UInt32) : List Frame :=
  (host.pending.map OutgoingFrame.frame).filter fun frame => frame.addressedTo channel

/-- No lease, no U2F prompt or answer, and no remembered refusal. -/
structure Unbound (host : Host R) : Prop where
  lease : host.lease = none
  u2f : host.u2f = none
  denied : host.deniedPolls = []

/-- What a channel's transaction is: its state and data, the application's business, and the
reports queued for the channel. -/
structure Same (channel : UInt32) (host host' : Host R) : Prop where
  state : host'.state = host.state
  message : host'.message = host.message
  lease : host'.lease = host.lease
  u2f : host'.u2f = host.u2f
  denied : host'.deniedPolls = host.deniedPolls
  busy : host'.appBusy = host.appBusy
  command : host'.appCommand = host.appCommand
  taken : host'.taken = host.taken
  queued : host'.queuedFor channel = host.queuedFor channel

theorem Unbound.same (h : host.Unbound) (hsame : Same channel host host') : host'.Unbound :=
  ⟨hsame.lease.trans h.lease, hsame.u2f.trans h.u2f, hsame.denied.trans h.denied⟩

theorem Unbound.expireLease (h : host.Unbound) (now : ℕ) : host.expireLease now = host := by
  unfold Host.expireLease
  rw [h.lease]

theorem frames_numbered (token : ℕ) (frames : List Frame) :
    (numbered token frames).map OutgoingFrame.frame = frames := by
  induction frames generalizing token with
  | nil => rfl
  | cons frame frames ih => rw [numbered, List.map_cons, ih]

theorem queuedFor_pushFrames (host : Host R) (frames : List Frame) (channel : UInt32) :
    (host.pushFrames frames).queuedFor channel =
      host.queuedFor channel ++ frames.filter fun frame => frame.addressedTo channel := by
  simp only [queuedFor, pushFrames, List.map_append, List.filter_append, frames_numbered]

theorem addressedTo_busyFrame {channel other : UInt32} (h : other ≠ channel) :
    (busyFrame other).addressedTo channel = false := by
  have htake : (busyFrame other).bytes.take 4 = beBytes32 other := by
    simp [busyFrame, initFrame, Frame.pad, packetSize, initData, List.take_append]
  rw [Frame.addressedTo, htake]
  exact decide_eq_false fun heq => h (beBytes32_injective heq)

theorem handleTimeout_eq {now : ℕ} (h : host.Unbound)
    (hidentify : ∀ channel request submitted, host.state ≠ .identifying channel request submitted)
    (hreceiving : ∀ channel command length sequence last,
      host.state = .receiving channel command length sequence last →
        now < last + continuationTimeoutMs) :
    host.handleTimeout now = host := by
  have hidentification : host.expireIdentification now = host := by
    unfold expireIdentification
    split
    · next hstate => exact absurd hstate (hidentify _ _ _)
    · rfl
  have hdenied : host.expireDenied now = host := by
    have hnil : retainRecentDenied now host.deniedPolls = host.deniedPolls := by
      rw [h.denied]
      rfl
    rw [expireDenied, hnil]
  have hpoll : host.expirePoll now = host := by
    unfold expirePoll
    rw [h.u2f]
  have hwaiting : host.answerWaitingPoll now = host := by
    unfold answerWaitingPoll
    rw [h.u2f]
    split
    · contradiction
    · rfl
  have hexpire : host.expireReceiving now = host := by
    unfold expireReceiving
    split
    · next hstate =>
      have hlate := hreceiving _ _ _ _ _ hstate
      rw [if_neg (by omega)]
    · rfl
  rw [handleTimeout, h.expireLease, hidentification, hdenied, hpoll, hwaiting, hexpire]

variable [CryptoRng R]

theorem Counts.handleInit (h : host.Counts) (channel : UInt32) (length : ℕ) (data : Bytes) :
    (host.handleInit channel length data).Counts := by
  obtain hbusy | ⟨-, -, rng, channels, -, ⟨underWay, code, hrefused⟩ | ⟨assigned, hinit⟩⟩ :=
    handleInit_cases host channel length data
  · rw [hbusy]
    exact h.leaves (leaves_enqueueError _ _ _)
  · rw [hrefused]
    exact h.leaves (Leaves.trans (fun _ => ⟨rfl, rfl⟩) (leaves_refuseInit _ _ _ _))
  · rw [hinit]
    exact h.leaves (leaves_enqueueMessage _ _ _ _ _)

theorem Counts.handleFrame (h : host.Counts) (frame : Frame) (now : ℕ) :
    (host.handleFrame frame now).Counts := by
  have hsize := frame.size
  have hleased : (host.expireLease now).Counts := h.leaves (leaves_expireLease host now)
  unfold Host.handleFrame
  dsimp only
  split
  · refine hleased.handleContinuation _ _ ?_ now
    rw [List.length_drop, hsize]
    rfl
  · have htouched : ({ host.expireLease now with
        channels := (host.expireLease now).channels.touch frame.channel } : Host R).Counts :=
      hleased.leaves fun _ => ⟨rfl, rfl⟩
    have hdata : (frame.bytes.drop 7).length = initData := by
      rw [List.length_drop, hsize]
      rfl
    split
    · exact htouched.leaves (leaves_handleCancel _ _)
    · exact htouched.handleInit _ _ _
    · exact htouched.handleRequest _ _ _ hdata now

theorem counts_reachable (h : (hostMachine R).Reachable host) : host.Counts := by
  refine Machine.invariant_reachable ?_ ?_ h
  · rintro _ ⟨rng, version, capabilities, rfl⟩ _ _ _ _ _ ⟨⟩
  · intro host event hcounts _
    cases event with
    | packet frame now => exact hcounts.handleFrame frame now
    | _ => exact hcounts.leaves (leaves_handle host rfl)

theorem same_foreign (h : host.Unbound) (hstate : host.state.channel = some channel)
    (hframe : frame.channel ≠ channel) (now : ℕ) :
    Same channel host (host.handleFrame frame now) := by
  have howner {d : UInt32} (hd : host.Owner d) : d = channel := by
    rcases hd with hd | hd | ⟨expires, hd⟩
    · exact Option.some.inj (hd.symm.trans hstate)
    · rw [promptChannel, h.u2f] at hd
      contradiction
    · rw [h.lease] at hd
      contradiction
  have hexclusive : host.Exclusive :=
    ⟨fun a b ha hb => (howner ha).trans (howner hb).symm, fun _ _ _ hpoll => by
      rw [h.u2f] at hpoll
      contradiction⟩
  have hheld : host.HeldAt channel now := ⟨.inl hstate, fun _ _ hl => by
    rw [h.lease] at hl
    contradiction⟩
  obtain ⟨channels, -, frames, hframes, heq⟩ := hexclusive.handleFrame_foreign hheld hframe
  rw [heq]
  refine ⟨rfl, rfl, rfl, rfl, rfl, rfl, rfl, rfl, ?_⟩
  have hnone : (frames.filter fun frame => frame.addressedTo channel) = [] := by
    refine List.filter_eq_nil_iff.mpr fun f hf => ?_
    rw [List.mem_singleton.mp (hframes.subset hf), addressedTo_busyFrame hframe]
    exact Bool.false_ne_true
  rw [queuedFor_pushFrames, hnone, List.append_nil]
  rfl

structure Gathered (start : Host R) (channel : UInt32) (payload : Bytes) (host : Host R) :
    Prop where
  message : host.message = payload
  unbound : host.Unbound
  app : host.appBusy = start.appBusy ∧ host.appCommand = start.appCommand ∧
    host.taken = start.taken
  queued : host.queuedFor channel = start.queuedFor channel

/-- The channel's message, of which `n` continuation packets have come since `start`, the last
packet at `last`. -/
structure Underway (start : Host R) (channel : UInt32) (command : Command) (payload : Bytes)
    (n last : ℕ) (host : Host R) : Prop
    extends Gathered start channel (payload.take (initData + n * contData)) host where
  state : host.state = .receiving channel command payload.length (UInt8.ofNat n) last
  more : initData + n * contData < payload.length

/-- The whole message has come: it is held for the application, or echoed. -/
structure Arrived (start : Host R) (channel : UInt32) (command : Command) (payload : Bytes)
    (host : Host R) : Prop where
  unbound : host.Unbound
  app : host.appBusy = start.appBusy ∧ host.appCommand = start.appCommand ∧
    host.taken = start.taken
  reply : command = .ping → (∃ final, host.state = .transmitting channel final) ∧
    host.queuedFor channel = start.queuedFor channel ++ framesOf channel .ping payload
  held : command ≠ .ping → (∃ processing, host.state = .processing processing ∧
      processing.channel = channel ∧ processing.command = command ∧
      processing.request = some payload) ∧
    host.queuedFor channel = start.queuedFor channel

section

variable {start : Host R} {command : Command} {payload : Bytes} {n last : ℕ}

omit [CryptoRng R] in
theorem Underway.same (h : Underway start channel command payload n last host)
    (hsame : Same channel host host') : Underway start channel command payload n last host' :=
  ⟨⟨hsame.message.trans h.message, h.unbound.same hsame,
    ⟨hsame.busy.trans h.app.1, hsame.command.trans h.app.2.1, hsame.taken.trans h.app.2.2⟩,
    hsame.queued.trans h.queued⟩, hsame.state.trans h.state, h.more⟩

omit [CryptoRng R] in
theorem Arrived.same (h : Arrived start channel command payload host)
    (hsame : Same channel host host') : Arrived start channel command payload host' where
  unbound := h.unbound.same hsame
  app := ⟨hsame.busy.trans h.app.1, hsame.command.trans h.app.2.1, hsame.taken.trans h.app.2.2⟩
  reply hping := by
    obtain ⟨hstate, hqueued⟩ := h.reply hping
    rw [hsame.state, hsame.queued]
    exact ⟨hstate, hqueued⟩
  held hping := by
    obtain ⟨hstate, hqueued⟩ := h.held hping
    rw [hsame.state, hsame.queued]
    exact ⟨hstate, hqueued⟩

omit [CryptoRng R] in
theorem arrived_processMessage (h : Gathered start channel payload host) (hping : command ≠ .ping)
    (now : ℕ) : Arrived start channel command payload (host.processMessage channel command now) where
  unbound := ⟨h.unbound.lease, rfl, h.unbound.denied⟩
  app := h.app
  reply hcommand := absurd hcommand hping
  held _ := ⟨⟨_, rfl, rfl, rfl, congrArg some h.message⟩, h.queued⟩

omit [CryptoRng R] in
theorem arrived_completeMessage (h : Gathered start channel payload host)
    (hcommand : command = .cbor ∨ command = .msg ∨ command = .ping) (now : ℕ) :
    Arrived start channel command payload (host.completeMessage channel command now) := by
  rcases hcommand with rfl | rfl | rfl
  · exact arrived_processMessage h (by decide) now
  · have hunpolled : host.completeMessage channel .msg now =
        Host.processMessage { host with deniedPolls := [] } channel .msg now := by
      change host.completeMsg channel now = _
      rw [completeMsg, h.unbound.u2f]
      change host.completeUnpolled channel now = _
      rw [completeUnpolled, h.unbound.denied]
      exact if_neg (by simp [retainRecentDenied, maxChannels])
    rw [hunpolled]
    refine arrived_processMessage ?_ (by decide) now
    exact ⟨h.message, ⟨h.unbound.lease, h.unbound.u2f, rfl⟩, h.app, h.queued⟩
  · change Arrived start channel .ping payload
      (enqueueMessage { host with state := .idle } channel .ping host.message)
    rw [h.message, enqueueMessage_eq]
    refine ⟨⟨h.unbound.lease, h.unbound.u2f, h.unbound.denied⟩, h.app, fun _ => ⟨⟨_, rfl⟩, ?_⟩,
      fun hne => absurd rfl hne⟩
    have hall : (framesOf channel .ping payload).filter (fun frame => frame.addressedTo channel) =
        framesOf channel .ping payload :=
      List.filter_eq_self.mpr fun frame hframe => addressedTo_framesOf hframe
    rw [← h.queued]
    refine (queuedFor_pushFrames { host with state := .idle } _ channel).trans ?_
    rw [hall]
    rfl

omit [CryptoRng R] in
theorem sequence_bit {n : ℕ} (h : n < 128) : UInt8.ofNat n &&& 0x80 = 0 := by
  have hall : ∀ m : Fin 128, UInt8.ofNat m &&& 0x80 = 0 := by decide
  exact hall ⟨n, h⟩

theorem Underway.packet (h : Underway start channel command payload n last host)
    (hcommand : command = .cbor ∨ command = .msg ∨ command = .ping)
    (hframes : Continues channel n (payload.drop (initData + n * contData)) (frame :: frames))
    (now : ℕ) :
    Continues channel (n + 1) (payload.drop (initData + (n + 1) * contData)) frames ∧
      (Underway start channel command payload (n + 1) now (host.handleFrame frame now) ∨
        Arrived start channel command payload (host.handleFrame frame now) ∧ frames = []) := by
  obtain ⟨hn, -, hchannel, hsequence, hdata, hnext⟩ := hframes.cons_inv
  rw [List.drop_drop, Nat.add_assoc, ← Nat.succ_mul] at hnext
  refine ⟨hnext, ?_⟩
  have hmore := h.more
  have hlength : host.message.length = initData + n * contData := by
    rw [h.message, List.length_take]
    omega
  rw [List.length_drop] at hdata
  have hmessage : host.message ++ (frame.bytes.drop 5).take
      (min (payload.length - host.message.length) contData) =
        payload.take (initData + (n + 1) * contData) := by
    rw [hlength, hdata, h.message, ← List.take_add, Nat.add_assoc, ← Nat.succ_mul]
  have hstep : host.handleFrame frame now =
      if (payload.take (initData + (n + 1) * contData)).length = payload.length then
        Host.completeMessage { host with
          state := .receiving channel command payload.length (UInt8.ofNat n + 1) now
          message := payload.take (initData + (n + 1) * contData) } channel command now
      else { host with
        state := .receiving channel command payload.length (UInt8.ofNat n + 1) now
        message := payload.take (initData + (n + 1) * contData) } := by
    rw [Host.handleFrame, h.unbound.expireLease]
    simp only [hsequence, sequence_bit hn, if_true, hchannel]
    rw [handleContinuation, h.state]
    simp only [ne_eq, not_true_eq_false, if_false]
    rw [hmessage]
  rw [hstep]
  split
  case isTrue hcomplete =>
    rw [List.length_take] at hcomplete
    have hdone : payload.length ≤ initData + (n + 1) * contData := by omega
    refine .inr ⟨arrived_completeMessage ?_ hcommand now, ?_⟩
    · exact ⟨List.take_of_length_le hdone,
        ⟨h.unbound.lease, h.unbound.u2f, h.unbound.denied⟩, h.app, h.queued⟩
    · rw [List.drop_eq_nil_of_le hdone] at hnext
      exact hnext.frames_nil
  case isFalse hmore' =>
    rw [List.length_take] at hmore'
    refine .inl ⟨⟨rfl, ⟨h.unbound.lease, h.unbound.u2f, h.unbound.denied⟩, h.app, h.queued⟩,
      ?_, by omega⟩
    rw [UInt8.ofNat_add n 1]
    rfl

theorem underway_first (hidle : host.state = .idle) (hunbound : host.Unbound)
    (hcommand : command = .cbor ∨ command = .msg ∨ command = .ping) (hpos : 1 ≤ payload.length)
    (hmax : payload.length ≤ maxMessageSize) (hchannel : channel ≠ 0 ∧ channel ≠ broadcastCid)
    {first : Frame} (hfirst : Begins channel command payload first)
    (hframes : Continues channel 0 (payload.drop initData) frames) (now : ℕ) :
    Underway host channel command payload 0 now (host.handleFrame first now) ∨
      Arrived host channel command payload (host.handleFrame first now) ∧ frames = [] := by
  have hallowed : lengthAllowed command payload.length = true := by
    have hle : ¬ maxMessageSize < payload.length := by omega
    have hne : payload.length ≠ 0 := by omega
    rcases hcommand with rfl | rfl | rfl <;> simp [lengthAllowed, hle, hne]
  have hrequest : command.isRequest = true := by
    rcases hcommand with rfl | rfl | rfl <;> rfl
  have hstep : host.handleFrame first now =
      if payload.length ≤ initData then
        Host.completeMessage { host with
          channels := host.channels.touch channel
          message := payload.take initData } channel command now
      else { host with
        channels := host.channels.touch channel
        message := payload.take initData
        state := .receiving channel command payload.length 0 now } := by
    rw [Host.handleFrame, hunbound.expireLease]
    simp only [hfirst.isInit, if_false, hfirst.channel_eq, hfirst.command_eq, hfirst.length_eq]
    rcases hcommand with rfl | rfl | rfl <;>
    · simp only [handleRequest, leaseConflicts, busyChannel, promptChannel, hunbound.lease,
        hunbound.u2f, hidle, Bool.false_eq_true, if_false, startMessage, hrequest, hallowed,
        Bool.not_true, hchannel.1, hchannel.2, or_self, hfirst.data]
  rw [hstep]
  split
  case isTrue hshort =>
    refine .inr ⟨arrived_completeMessage ?_ hcommand now, ?_⟩
    · exact ⟨List.take_of_length_le hshort, ⟨hunbound.lease, hunbound.u2f, hunbound.denied⟩,
        ⟨rfl, rfl, rfl⟩, rfl⟩
    · rw [List.drop_eq_nil_of_le hshort] at hframes
      exact hframes.frames_nil
  case isFalse hlong =>
    refine .inl ⟨⟨?_, ⟨hunbound.lease, hunbound.u2f, hunbound.denied⟩, ⟨rfl, rfl, rfl⟩, rfl⟩,
      rfl, by omega⟩
    rw [Nat.zero_mul, Nat.add_zero]

omit [CryptoRng R] in
theorem Arrived.owns (h : Arrived start channel command payload host) :
    host.state.channel = some channel ∧ host.state.isReceiving = false ∧
      ∀ channel request submitted, host.state ≠ .identifying channel request submitted := by
  by_cases hping : command = .ping
  · obtain ⟨⟨final, hstate⟩, -⟩ := h.reply hping
    rw [hstate]
    exact ⟨rfl, rfl, by rintro _ _ _ ⟨⟩⟩
  · obtain ⟨⟨processing, hstate, rfl, -⟩, -⟩ := h.held hping
    rw [hstate]
    exact ⟨rfl, rfl, by rintro _ _ _ ⟨⟩⟩

end

end Host

def packetsOn (channel : UInt32) (events : List Event) : List (Frame × ℕ) :=
  events.filterMap fun
    | .packet frame now => if frame.channel = channel then some (frame, now) else none
    | _ => none

def Event.isInput : Event → Bool
  | .packet _ _ | .timeout _ => true
  | _ => false

/-- The packets `frames` of a channel arrive, in order and in time, the first after `last`,
among packets of other channels and checks of the time-outs. -/
structure Feeds (channel : UInt32) (last : ℕ) (frames : List Frame) (events : List Event) :
    Prop where
  kinds : ∀ event ∈ events, event.isInput = true
  own : (packetsOn channel events).map Prod.fst = frames
  ordered : (events.filterMap Event.time).Pairwise (· ≤ ·)
  gaps : (last :: (packetsOn channel events).map Prod.snd).IsChain
    fun s t => t < s + continuationTimeoutMs

theorem packetsOn_own (h : frame.channel = channel) (now : ℕ) (events : List Event) :
    packetsOn channel (.packet frame now :: events) = (frame, now) :: packetsOn channel events := by
  simp [packetsOn, h]

theorem packetsOn_foreign (h : frame.channel ≠ channel) (now : ℕ) (events : List Event) :
    packetsOn channel (.packet frame now :: events) = packetsOn channel events := by
  simp [packetsOn, h]

theorem packetsOn_timeout (channel : UInt32) (now : ℕ) (events : List Event) :
    packetsOn channel (.timeout now :: events) = packetsOn channel events := rfl

variable {events : List Event}

theorem mem_times {now : ℕ} (h : (frame, now) ∈ packetsOn channel events) :
    now ∈ events.filterMap Event.time := by
  obtain ⟨event, hevent, hpacket⟩ := List.mem_filterMap.mp h
  refine List.mem_filterMap.mpr ⟨event, hevent, ?_⟩
  cases event with
  | packet frame' now' =>
    dsimp only at hpacket
    split at hpacket
    · cases hpacket
      rfl
    · contradiction
  | _ => contradiction

namespace Feeds

variable {last now : ℕ}

theorem timeout (h : Feeds channel last (frame :: frames) (.timeout now :: events)) :
    now < last + continuationTimeoutMs ∧ Feeds channel last (frame :: frames) events := by
  have hown := h.own
  have hgaps := h.gaps
  have hordered : (now :: events.filterMap Event.time).Pairwise (· ≤ ·) := h.ordered
  rw [packetsOn_timeout] at hown hgaps
  refine ⟨?_, fun e he => h.kinds e (List.mem_cons_of_mem _ he), hown, hordered.of_cons, hgaps⟩
  obtain ⟨⟨frame', next⟩, rest, hpackets⟩ := List.exists_cons_of_ne_nil
    (show packetsOn channel events ≠ [] by rintro hnil; rw [hnil] at hown; contradiction)
  have hle : now ≤ next :=
    List.rel_of_pairwise_cons hordered (mem_times (hpackets ▸ List.mem_cons_self))
  rw [hpackets, List.map_cons, List.isChain_cons_cons] at hgaps
  exact Nat.lt_of_le_of_lt hle hgaps.1

theorem foreign (h : Feeds channel last frames (.packet frame now :: events))
    (hframe : frame.channel ≠ channel) : Feeds channel last frames events := by
  have hown := h.own
  have hgaps := h.gaps
  have hordered : (now :: events.filterMap Event.time).Pairwise (· ≤ ·) := h.ordered
  rw [packetsOn_foreign hframe] at hown hgaps
  exact ⟨fun e he => h.kinds e (List.mem_cons_of_mem _ he), hown, hordered.of_cons, hgaps⟩

theorem packet (h : Feeds channel last frames (.packet frame now :: events))
    (hframe : frame.channel = channel) :
    ∃ rest, frames = frame :: rest ∧ Feeds channel now rest events := by
  have hown := h.own
  have hgaps := h.gaps
  have hordered : (now :: events.filterMap Event.time).Pairwise (· ≤ ·) := h.ordered
  rw [packetsOn_own hframe, List.map_cons] at hown hgaps
  exact ⟨_, hown.symm, fun e he => h.kinds e (List.mem_cons_of_mem _ he), rfl, hordered.of_cons,
    (List.isChain_cons_cons.mp hgaps).2⟩

end Feeds

namespace Host

variable {R : Type} {start host : Host R} {command : Command} {payload : Bytes} {n last : ℕ}

def freed (host : Host R) (response : Bytes) (now : ℕ) (finished : Option ℕ) : Host R :=
  if host.appBusy then host.appResponse response now finished else host

/-- A held request outlasts the answer to an earlier one, and is handed over once. -/
theorem Arrived.taken (h : Arrived start channel command payload host) (hping : command ≠ .ping)
    (response : Bytes) (now : ℕ) (finished : Option ℕ) :
    let host := host.freed response now finished
    host.takeAppRequest.2 = some ⟨command, payload⟩ ∧
      host.takeAppRequest.1.taken = start.taken ++ [⟨channel, command, payload⟩] ∧
      host.takeAppRequest.1.takeAppRequest.2 = none := by
  obtain ⟨⟨processing, hstate, hchannel, hcommand, hrequest⟩, -⟩ := h.held hping
  have hfree : (host.freed response now finished).appBusy = false ∧
      (host.freed response now finished).state = .processing processing ∧
      (host.freed response now finished).taken = host.taken := by
    unfold freed
    split
    case isFalse hbusy => exact ⟨Bool.eq_false_of_not_eq_true hbusy, hstate, rfl⟩
    case isTrue =>
      have hrespond : host.appResponse response now finished =
          { host with appBusy := false, appCommand := none } := by
        unfold appResponse
        dsimp only
        rw [h.unbound.u2f]
        split
        · contradiction
        · rw [respond]
          simp only [hstate, hrequest, Option.isSome_some, if_true]
      rw [hrespond]
      exact ⟨rfl, hstate, rfl⟩
  obtain ⟨hbusy, hstate', htaken⟩ := hfree
  have htake : (host.freed response now finished).takeAppRequest.2 = some ⟨command, payload⟩ ∧
      (host.freed response now finished).takeAppRequest.1.taken =
        (host.freed response now finished).taken ++ [⟨channel, command, payload⟩] ∧
      (host.freed response now finished).takeAppRequest.1.appBusy = true := by
    unfold takeAppRequest
    simp only [hbusy, hstate', hrequest, hcommand, hchannel, Bool.false_eq_true, if_false]
    exact ⟨trivial, trivial, trivial⟩
  refine ⟨htake.1, ?_, ?_⟩
  · rw [htake.2.1, htaken, h.app.2.2]
  · rw [takeAppRequest, if_pos htake.2.2]

variable [CryptoRng R]

theorem Arrived.run (h : Arrived start channel command payload host)
    (hkinds : ∀ event ∈ events, event.isInput = true) (hown : packetsOn channel events = []) :
    Arrived start channel command payload ((hostMachine R).run host events) := by
  induction events generalizing host with
  | nil => exact h
  | cons event events ih =>
    rw [Machine.run_cons]
    obtain ⟨hchannel, hreceiving, hidentify⟩ := h.owns
    have hrest : ∀ event ∈ events, event.isInput = true :=
      fun e he => hkinds e (List.mem_cons_of_mem _ he)
    cases event with
    | packet frame now =>
      by_cases hframe : frame.channel = channel
      · rw [packetsOn_own hframe] at hown
        contradiction
      · rw [packetsOn_foreign hframe] at hown
        exact ih (h.same (same_foreign h.unbound hchannel hframe now)) hrest hown
    | timeout now =>
      have heq : (hostMachine R).step host (.timeout now) = host := by
        refine handleTimeout_eq h.unbound hidentify ?_
        intro _ _ _ _ _ hstate
        rw [hstate] at hreceiving
        contradiction
      rw [heq]
      exact ih h hrest hown
    | _ => exact absurd (hkinds _ List.mem_cons_self) Bool.false_ne_true

theorem Underway.run (h : Underway start channel command payload n last host)
    (hcommand : command = .cbor ∨ command = .msg ∨ command = .ping)
    (hframes : Continues channel n (payload.drop (initData + n * contData)) frames)
    (hevents : Feeds channel last frames events) :
    Arrived start channel command payload ((hostMachine R).run host events) := by
  induction events generalizing host n last frames with
  | nil =>
    obtain rfl : [] = frames := hevents.own
    exact absurd (List.drop_eq_nil_iff.mp hframes.nil_inv) (Nat.not_le.mpr h.more)
  | cons event events ih =>
    rw [Machine.run_cons]
    have hchannel : host.state.channel = some channel := by
      rw [h.state]
      rfl
    cases event with
    | packet frame now =>
      by_cases hframe : frame.channel = channel
      · obtain ⟨rest, rfl, hrest⟩ := hevents.packet hframe
        obtain ⟨hnext, hmore | ⟨harrived, rfl⟩⟩ := h.packet hcommand hframes now
        · exact ih hmore hnext hrest
        · exact harrived.run hrest.kinds (List.map_eq_nil_iff.mp hrest.own)
      · exact ih (h.same (same_foreign h.unbound hchannel hframe now)) hframes
          (hevents.foreign hframe)
    | timeout now =>
      cases frames with
      | nil =>
        exact absurd (List.drop_eq_nil_iff.mp hframes.nil_inv) (Nat.not_le.mpr h.more)
      | cons frame frames =>
        obtain ⟨hearly, hrest⟩ := hevents.timeout
        have heq : (hostMachine R).step host (.timeout now) = host := by
          refine handleTimeout_eq h.unbound ?_ ?_
          · rw [h.state]
            rintro _ _ _ ⟨⟩
          · rw [h.state]
            rintro _ _ _ _ _ ⟨⟩
            exact hearly
        rw [heq]
        exact ih h hframes hrest
    | _ => exact absurd (hevents.kinds _ List.mem_cons_self) Bool.false_ne_true

theorem arrived_run (hidle : host.state = .idle) (hunbound : host.Unbound)
    (hcommand : command = .cbor ∨ command = .msg ∨ command = .ping) (hpos : 1 ≤ payload.length)
    (hmax : payload.length ≤ maxMessageSize) (hchannel : channel ≠ 0 ∧ channel ≠ broadcastCid)
    {first : Frame} (hfirst : Begins channel command payload first)
    (hframes : Continues channel 0 (payload.drop initData) frames) {now : ℕ}
    (hevents : Feeds channel now frames events) :
    Arrived host channel command payload
      ((hostMachine R).run host (.packet first now :: events)) := by
  rw [Machine.run_cons]
  obtain hmore | ⟨harrived, rfl⟩ :=
    underway_first hidle hunbound hcommand hpos hmax hchannel hfirst hframes now
  · refine hmore.run hcommand ?_ hevents
    rw [Nat.zero_mul, Nat.add_zero]
    exact hframes
  · exact harrived.run hevents.kinds (List.map_eq_nil_iff.mp hevents.own)

end Host

namespace Session

variable {length : ℕ}

/-- An incomplete message fills its initialization packet and the continuation packets
counted, and no message is longer than declared. -/
structure Reception.Counts (length : ℕ) (reception : Reception) : Prop where
  le : reception.payload.length ≤ length
  filled : reception.payload.length < length →
    ∃ n, reception.payload.length = initData + n * contData ∧ reception.sequence = UInt8.ofNat n

theorem counts_beginReception (report : Frame) :
    (beginReception report).Counts (declaredLength report) := by
  have hlength : (beginReception report).payload.length = min (declaredLength report) initData := by
    rw [beginReception, List.length_take, List.length_drop, report.size]
    change min (min (declaredLength report) initData) initData = _
    omega
  refine ⟨by omega, fun hmore => ⟨0, by omega, rfl⟩⟩

variable {reception : Reception}

theorem Reception.Counts.receiveNext (h : reception.Counts length) {next : Frame}
    {reception' : Reception} (hnext : receiveNext channel length reception next = .ok reception') :
    reception'.Counts length := by
  unfold Session.receiveNext at hnext
  split_ifs at hnext
  · cases hnext
    exact h
  · cases hnext
    have hle := h.le
    have hdata : (next.bytes.drop 5).length = contData := by
      rw [List.length_drop, next.size]
      rfl
    constructor
    · simp only [List.length_append, List.length_take, hdata]
      omega
    · simp only [List.length_append, List.length_take, hdata]
      intro hmore
      obtain ⟨n, hlength, hsequence⟩ := h.filled (by omega)
      refine ⟨n + 1, ?_, ?_⟩
      · rw [Nat.succ_mul]
        omega
      · rw [hsequence, UInt8.ofNat_add n 1]
        rfl

theorem Reception.Counts.receive {reception' : Reception} (h : reception.Counts length)
    (hframes : frames.foldlM (Session.receiveNext channel length) reception = .ok reception') :
    reception'.Counts length := by
  induction frames generalizing reception with
  | nil =>
    cases hframes
    exact h
  | cons frame frames ih =>
    rw [List.foldlM_cons] at hframes
    cases hnext : Session.receiveNext channel length reception frame with
    | error err =>
      rw [hnext] at hframes
      contradiction
    | ok next =>
      rw [hnext] at hframes
      exact ih (h.receiveNext hnext) hframes

/-- In a message that fits, the counter stays below 128 while packets are missing. -/
theorem Reception.Counts.sequence_lt (h : reception.Counts length)
    (hmax : length ≤ maxMessageSize) (hmore : reception.payload.length < length) :
    reception.sequence.toNat < 128 := by
  obtain ⟨n, hlength, hsequence⟩ := h.filled hmore
  simp only [maxMessageSize, initData, contData, packetSize] at hlength hmax
  rw [hsequence, UInt8.toNat_ofNat']
  omega

def numberedPacket (n : ℕ) : Frame := Frame.pad (beBytes32 5 ++ [UInt8.ofNat n])

theorem receiveNext_numbered {length n : ℕ} {before : Reception}
    (hnumber : before.sequence = UInt8.ofNat n)
    (hlength : before.payload.length = initData + n * contData)
    (hn : initData + (n + 1) * contData ≤ length) :
    ∃ after, receiveNext 5 length before (numberedPacket n) = .ok after ∧
      after.sequence = UInt8.ofNat (n + 1) ∧
      after.payload.length = initData + (n + 1) * contData := by
  have hchannel : (numberedPacket n).channel = 5 :=
    Frame.channel_pad 5 (show [UInt8.ofNat n].length + 4 ≤ packetSize by simp [packetSize])
  have hbyte : (numberedPacket n).byte 4 = before.sequence := by
    rw [hnumber, numberedPacket, Frame.byte_pad (by simp [packetSize]) (by simp)]
    rfl
  have hdata : ((numberedPacket n).bytes.drop 5).length = contData := by
    rw [List.length_drop, (numberedPacket n).size]
    rfl
  rw [receiveNext, if_neg (not_not.mpr hchannel), if_neg (not_not.mpr hbyte)]
  refine ⟨_, rfl, ?_, ?_⟩
  · rw [hnumber, UInt8.ofNat_add n 1]
    rfl
  · simp only [List.length_append, List.length_take, hdata, hlength]
    rw [Nat.succ_mul] at hn ⊢
    omega

theorem receive_numbered {length n : ℕ} {reception : Reception}
    (hsequence : reception.sequence = 0) (hpayload : reception.payload.length = initData)
    (hn : initData + n * contData ≤ length) :
    ∃ after, ((List.range n).map numberedPacket).foldlM (receiveNext 5 length) reception =
        .ok after ∧ after.sequence = UInt8.ofNat n ∧
      after.payload.length = initData + n * contData := by
  induction n with
  | zero => exact ⟨reception, rfl, hsequence, by omega⟩
  | succ n ih =>
    obtain ⟨before, hbefore, hnumber, hlength⟩ := ih (by rw [Nat.succ_mul] at hn; omega)
    obtain ⟨after, hafter, hnumbered⟩ := receiveNext_numbered hnumber hlength hn
    refine ⟨after, ?_, hnumbered⟩
    have hlast : [numberedPacket n].foldlM (receiveNext 5 length) before = .ok after := by
      rw [List.foldlM_cons, hafter]
      rfl
    rw [List.range_succ, List.map_append, List.foldlM_append, hbefore]
    exact (pure_bind before _).trans hlast

def longestPacket : Frame := Frame.pad (beBytes32 5 ++ [Command.cbor.intoU8 ||| 0x80, 0xff, 0xff])

/-- A message that declares 65535 bytes makes the client's counter wrap around: the loop goes on
with the number 255, and then with 0. -/
theorem client_sequence_wraps :
    ∃ before after, ((List.range 255).map numberedPacket).foldlM
        (receiveNext 5 (declaredLength longestPacket)) (beginReception longestPacket) = .ok before ∧
      before.payload.length < declaredLength longestPacket ∧ before.sequence = 255 ∧
      receiveNext 5 (declaredLength longestPacket) before (numberedPacket 255) = .ok after ∧
      after.sequence = 0 := by
  have hdeclared : declaredLength longestPacket = 65535 := by decide
  rw [hdeclared]
  obtain ⟨before, hbefore, hnumber, hlength⟩ :=
    @receive_numbered 65535 255 (beginReception longestPacket) (by decide) (by decide) (by decide)
  obtain ⟨after, hafter, hwrapped, -⟩ :=
    @receiveNext_numbered 65535 255 before hnumber hlength (by decide)
  refine ⟨before, after, hbefore, ?_, hnumber, hafter, hwrapped⟩
  rw [hlength]
  decide

end Session

/-- Messages between client and host arrive byte for byte from among packets of other
channels. No subtraction of lengths underflows, the host's counter does not overflow whatever
it receives, and the client's does not in a message that fits. -/
theorem framing_round_trip {R : Type} [CryptoRng R] {payload : Bytes} (hpos : 1 ≤ payload.length)
    (hmax : payload.length ≤ 7609) {channel : UInt32} (hzero : channel ≠ 0)
    (hbroadcast : channel ≠ broadcastCid) :
    (∀ (session : Session) (command : Command), session.Works →
      command = .cbor ∨ command = .msg ∨ command = .ping →
      ∃ first rest,
        session.sendMessage channel command payload = (.ok (), session.wrote (first :: rest)) ∧
        ∀ (host : Host R) (now : ℕ) (events : List Event), host.state = .idle → host.Unbound →
          Feeds channel now rest events →
          let host' := (hostMachine R).run host (.packet first now :: events)
          (command ≠ .ping → host'.queuedFor channel = host.queuedFor channel ∧
            ∀ response time finished,
              let free := host'.freed response time finished
              free.takeAppRequest.2 = some ⟨command, payload⟩ ∧
              free.takeAppRequest.1.taken = host.taken ++ [⟨channel, command, payload⟩] ∧
              free.takeAppRequest.1.takeAppRequest.2 = none) ∧
          (command = .ping → host'.taken = host.taken ∧ host'.queuedFor channel =
            host.queuedFor channel ++ Host.framesOf channel .ping payload)) ∧
    (∀ (host : Host R) (command : Command), command ≠ .keepAlive → command ≠ .error →
      ∃ queued, (host.queueMessage channel command payload).1.pending = host.pending ++ queued ∧
        ∀ (session : Session) (frames : List Frame) (later : List Arrival)
          (accept : Bytes → Bool), accept payload = true →
          onChannel channel frames = queued.map OutgoingFrame.frame →
          session.arrivals = Session.arriving frames later →
          (session.receiveMessage channel accept).1 = .ok payload) ∧
    (∀ host : Host R, (hostMachine R).Reachable host → ∀ channel command length sequence last,
      host.state = .receiving channel command length sequence last →
      sequence.toNat + 1 < 256 ∧ host.message.length ≤ length) ∧
    ∀ (first : Frame) (frames : List Frame) (reception : Session.Reception),
      frames.foldlM (Session.receiveNext channel (Session.declaredLength first))
        (Session.beginReception first) = .ok reception →
      reception.payload.length ≤ Session.declaredLength first ∧
      (Session.declaredLength first ≤ 7609 →
        reception.payload.length < Session.declaredLength first →
        reception.sequence.toNat + 1 < 256) := by
  refine ⟨?_, ?_, ?_, ?_⟩
  · intro session command hworks hcommand
    obtain ⟨first, rest, hframes, hfirst, hrest⟩ := framesOf_spec channel command hmax
    refine ⟨first, rest, hframes ▸ Session.sendMessage_eq hworks channel command hmax, ?_⟩
    intro host now events hidle hunbound hevents host'
    have harrived : Host.Arrived host channel command payload host' :=
      Host.arrived_run hidle hunbound hcommand hpos hmax ⟨hzero, hbroadcast⟩ hfirst hrest hevents
    exact ⟨fun hping => ⟨(harrived.held hping).2, harrived.taken hping⟩,
      fun hping => ⟨harrived.app.2.2, (harrived.reply hping).2⟩⟩
  · intro host command hkeepalive herror
    obtain ⟨first, rest, hframes, hfirst, hrest⟩ := framesOf_spec channel command hmax
    refine ⟨Host.numbered host.nextToken (Host.framesOf channel command payload), ?_, ?_⟩
    · rw [Host.queueMessage_eq]
      rfl
    · intro session frames later accept haccept hown harrivals
      rw [Host.frames_numbered, hframes] at hown
      refine Session.receiveLoop_eq ⟨hkeepalive, herror⟩ haccept hfirst hrest hown harrivals ?_
      rw [harrivals, Session.arriving, List.length_append, List.length_map]
      omega
  · intro host hreachable channel command length sequence last hstate
    obtain ⟨hsequence, hmore⟩ := (Host.counts_reachable hreachable).bounds hstate
    omega
  · intro first frames reception hframes
    have hcounts := (Session.counts_beginReception first).receive hframes
    refine ⟨hcounts.le, fun hfits hmore => ?_⟩
    have hsequence := hcounts.sequence_lt hfits hmore
    omega

theorem framing_round_trip_cbor :
    let payload : Bytes := List.replicate 60 7
    let events : List Event :=
      [.packet (Host.initFrame 9 .ping [1]) 10, .timeout 20,
        .packet (Frame.pad (beBytes32 5 ++ [0] ++ [7, 7, 7])) 500]
    let host := (hostMachine Draws).run freshHost
      (.packet (Host.initFrame 5 .cbor payload) 0 :: events)
    Feeds 5 0 [Frame.pad (beBytes32 5 ++ [0] ++ [7, 7, 7])] events ∧
      (host.freed [] 500 none).takeAppRequest.2 = some ⟨.cbor, payload⟩ := by
  intro payload events host
  have hfeeds : Feeds 5 0 [Frame.pad (beBytes32 5 ++ [0] ++ [7, 7, 7])] events :=
    ⟨by decide, by decide, by decide, by decide⟩
  have hboth := @framing_round_trip Draws _ payload (by decide) (by decide) 5 (by decide) (by decide)
  obtain ⟨first, rest, hsent, hhost⟩ := hboth.1
    ⟨[], [], [], fun _ => false, fun _ => false⟩ .cbor (fun _ => rfl) (.inl rfl)
  have hwritten : first :: rest =
      [Host.initFrame 5 .cbor payload, Frame.pad (beBytes32 5 ++ [0] ++ [7, 7, 7])] :=
    congrArg (fun sent => sent.2.written) hsent.symm
  obtain ⟨rfl, rfl⟩ := List.cons.inj hwritten
  have hheld := (hhost freshHost 0 events rfl ⟨rfl, rfl, rfl⟩ hfeeds).1 (by decide)
  exact ⟨hfeeds, (hheld.2 [] 500 none).1⟩

end SoftwareAuthenticator.Ctaphid
