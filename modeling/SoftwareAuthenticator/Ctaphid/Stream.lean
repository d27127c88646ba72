import SoftwareAuthenticator.Ctaphid.RoundTrip

/-!
# The output stream parses

Every call queues at most one message, as a whole; only INIT takes queued packets back, and it
takes all of its channel. An answer of the application is queued once at most, for the request
it answers.
-/

namespace SoftwareAuthenticator.Ctaphid

def continuations (length : ℕ) : ℕ := (length - initData + (contData - 1)) / contData

/-- The packets of one message: an initialization packet with the command and the length,
and the continuation packets that the length needs, numbered from 0; all of them are filled
up with zeros. -/
structure IsMessage (channel : UInt32) (command : Command) (payload : Bytes)
    (frames : List Frame) : Prop where
  fits : payload.length ≤ maxMessageSize
  count : frames.length = 1 + continuations payload.length
  first : frames[0]?.map Frame.bytes = some (beBytes32 channel ++ [command.intoU8 ||| 0x80] ++
    beBytes16 (UInt16.ofNat payload.length) ++ payload.take initData ++
    List.replicate (initData - payload.length) 0)
  next : ∀ n < continuations payload.length, frames[n + 1]?.map Frame.bytes =
    some (beBytes32 channel ++ [UInt8.ofNat n] ++
      (payload.drop (initData + n * contData)).take contData ++
      List.replicate (contData - (payload.length - (initData + n * contData))) 0)

theorem bytes_initFrame (channel : UInt32) (command : Command) (payload : Bytes) :
    (Host.initFrame channel command payload).bytes =
      beBytes32 channel ++ [command.intoU8 ||| 0x80] ++
        beBytes16 (UInt16.ofNat payload.length) ++ payload.take initData ++
        List.replicate (initData - payload.length) 0 := by
  have hlength : (beBytes32 channel ++ [command.intoU8 ||| 0x80] ++
      beBytes16 (UInt16.ofNat payload.length) ++ payload.take initData).length =
      7 + min initData payload.length := by
    simp only [List.length_append, List.length_take]
    rfl
  have hinit : initData = 57 := rfl
  have hpacket : packetSize = 64 := rfl
  rw [Host.initFrame, Frame.bytes_pad (by omega), hlength]
  congr 2
  omega

variable {channel : UInt32}

theorem bytes_contFrame (sequence : UInt8) {rest : Bytes} :
    (Frame.pad (beBytes32 channel ++ [sequence] ++ rest.take contData)).bytes =
      beBytes32 channel ++ [sequence] ++ rest.take contData ++
        List.replicate (contData - rest.length) 0 := by
  have hlength : (beBytes32 channel ++ [sequence] ++ rest.take contData).length =
      5 + min contData rest.length := by
    simp only [List.length_append, List.length_take]
    rfl
  have hcont : contData = 59 := rfl
  have hpacket : packetSize = 64 := rfl
  rw [Frame.bytes_pad (by omega), hlength]
  congr 2
  omega

theorem length_contFrames {fuel : ℕ} {sequence : UInt8} {rest : Bytes}
    (hfuel : rest.length ≤ fuel * contData) :
    (Host.contFrames channel fuel sequence rest).length =
      (rest.length + (contData - 1)) / contData := by
  have hcont : contData = 59 := rfl
  induction fuel generalizing sequence rest with
  | zero =>
    rw [Nat.zero_mul, Nat.le_zero, List.length_eq_zero_iff] at hfuel
    subst hfuel
    rfl
  | succ fuel ih =>
    cases rest with
    | nil => rfl
    | cons byte rest =>
      have hdrop : ((byte :: rest).drop contData).length = rest.length + 1 - contData :=
        List.length_drop
      rw [List.length_cons] at hfuel
      rw [hcont] at hfuel
      have hfuel' : ((byte :: rest).drop contData).length ≤ fuel * contData := by
        rw [hdrop, hcont]
        omega
      rw [Host.contFrames, List.length_cons, ih hfuel', hdrop, List.length_cons, hcont]
      omega

theorem getElem?_contFrames {fuel n i : ℕ} {rest : Bytes} (hfuel : rest.length ≤ fuel * contData)
    (hi : i < (rest.length + (contData - 1)) / contData) :
    (Host.contFrames channel fuel (UInt8.ofNat n) rest)[i]?.map Frame.bytes =
      some (beBytes32 channel ++ [UInt8.ofNat (n + i)] ++
        (rest.drop (i * contData)).take contData ++
        List.replicate (contData - (rest.length - i * contData)) 0) := by
  have hcont : contData = 59 := rfl
  induction fuel generalizing n i rest with
  | zero =>
    rw [Nat.zero_mul, Nat.le_zero] at hfuel
    rw [hfuel, hcont] at hi
    omega
  | succ fuel ih =>
    cases rest with
    | nil => simp [hcont] at hi
    | cons byte rest =>
      rw [Host.contFrames]
      cases i with
      | zero =>
        rw [List.getElem?_cons_zero, Option.map_some, bytes_contFrame]
        simp
      | succ i =>
        have hnext : UInt8.ofNat n + 1 = UInt8.ofNat (n + 1) := by
          simp [UInt8.ofNat_add]
        have hdrop : ((byte :: rest).drop contData).length =
            (byte :: rest).length - contData := List.length_drop
        rw [hcont] at hfuel hi
        have hfuel' : ((byte :: rest).drop contData).length ≤ fuel * contData := by
          rw [hdrop, hcont]
          omega
        have hi' : i < (((byte :: rest).drop contData).length + (contData - 1)) / contData := by
          rw [hdrop, hcont]
          omega
        rw [List.getElem?_cons_succ, hnext, ih hfuel' hi', List.drop_drop, hdrop]
        congr 3
        · congr 3
          omega
        · rw [Nat.succ_mul, Nat.add_comm]
        · congr 1
          rw [Nat.succ_mul]
          omega

theorem isMessage_messageFrames {payload : Bytes} (channel : UInt32) (command : Command)
    (h : payload.length ≤ maxMessageSize) :
    IsMessage channel command payload (Host.messageFrames channel command payload) := by
  have hrest : (payload.drop initData).length = payload.length - initData := List.length_drop
  have hfuel : (payload.drop initData).length ≤ 128 * contData := by
    rw [hrest]
    rw [maxMessageSize] at h
    omega
  refine ⟨h, ?_, ?_, fun n hn => ?_⟩
  · rw [Host.messageFrames, List.length_cons, length_contFrames hfuel, hrest, continuations,
      Nat.add_comm]
  · rw [Host.messageFrames, List.getElem?_cons_zero, Option.map_some, bytes_initFrame]
  · rw [continuations, ← hrest] at hn
    have hframe : (Host.contFrames channel 128 (UInt8.ofNat 0) (payload.drop initData))[n]?.map
      Frame.bytes = _ := getElem?_contFrames hfuel hn
    rw [Host.messageFrames, List.getElem?_cons_succ]
    refine hframe.trans ?_
    rw [List.drop_drop, hrest, Nat.zero_add, Nat.sub_sub]

/-- What is queued is a whole message; a payload that is too long is replaced by an error. -/
theorem isMessage_framesOf (channel : UInt32) (command : Command) (payload : Bytes) :
    ∃ sent content, IsMessage channel sent content (Host.framesOf channel command payload) := by
  unfold Host.framesOf
  split
  · next h => exact ⟨command, payload, isMessage_messageFrames channel command h⟩
  · exact ⟨.error, _, isMessage_messageFrames channel .error (by decide)⟩

namespace Host

variable {R : Type} {host host' : Host R} {call : Call} {completed : Option (UInt32 × Bytes)}

/-- What is queued in `pending'` and not in `pending` are messages of the host itself. -/
def OwnSince (pending pending' : List OutgoingFrame) : Prop :=
  ∀ outgoing ∈ pending', outgoing ∈ pending ∨ ∃ channel command payload,
    ownReply command payload = true ∧ outgoing.frame ∈ framesOf channel command payload

structure Mute (host host' : Host R) : Prop where
  pending : host'.pending = host.pending
  nextToken : host'.nextToken = host.nextToken
  deliveries : host'.deliveries = host.deliveries

/-- One message is queued. If an answer of the application is given out, it is that. -/
structure Speaks (channel : UInt32) (command : Command) (payload : Bytes) (host host' : Host R) :
    Prop where
  pending : host'.pending =
    host.pending ++ numbered host.nextToken (framesOf channel command payload)
  nextToken : host'.nextToken = host.nextToken + (framesOf channel command payload).length
  deliveries : (host'.deliveries = host.deliveries ∧ ownReply command payload = true) ∨
    ∃ answer, payload = answer.response ∧
      host'.deliveries = host.deliveries ++ [⟨channel, command, answer⟩]

theorem speaks_enqueueMessage {before : Host R} (hpending : before.pending = host.pending)
    (htoken : before.nextToken = host.nextToken) {command : Command} {payload : Bytes}
    (hdeliveries : (before.deliveries = host.deliveries ∧ ownReply command payload = true) ∨
      ∃ answer : AppAnswer, payload = answer.response ∧
        before.deliveries = host.deliveries ++ [⟨channel, command, answer⟩]) :
    Speaks channel command payload host (enqueueMessage before channel command payload) := by
  rw [enqueueMessage_eq]
  refine ⟨?_, ?_, hdeliveries⟩
  · rw [← hpending, ← htoken]
    rfl
  · rw [← htoken]
    rfl

/-- A move queues its message where no response is under way, and then one is. -/
theorem Move.speaks (hwritten : call.isWritten = false)
    (hkeepalive : ∀ waiting now, call ≠ .event (.keepalive waiting now))
    (hmove : Move call completed host host') :
    (Mute host host' ∧ (host.state.isTransmitting = true → host'.state.isTransmitting = true)) ∨
    (host.state.isTransmitting = false ∧ host'.state.isTransmitting = true ∧
      ∃ channel command payload, Speaks channel command payload host host') := by
  have hnot {state : State} (h : host.state.isTransmitting = false)
      (h' : host.state.isTransmitting = true) : state.isTransmitting = true := by
    rw [h] at h'
    cases h'
  cases hmove with
  | writes h | ends h =>
    rw [hwritten] at h
    cases h
  | waits _ h => exact absurd h (hkeepalive _ _)
  | replies hanswers _ _ hown =>
    exact .inr ⟨hanswers.free, rfl, _, _, _, speaks_enqueueMessage rfl rfl (.inl ⟨rfl, hown⟩)⟩
  | collects _ hserved =>
    exact .inr ⟨hserved.free, rfl, _, _, _,
      speaks_enqueueMessage (by rfl) (by rfl) (.inr ⟨_, rfl, rfl⟩)⟩
  | delivers _ hstate =>
    exact .inr ⟨by rw [hstate]; rfl, rfl, _, _, _,
      speaks_enqueueMessage (by rfl) (by rfl) (.inr ⟨_, rfl, rfl⟩)⟩
  | receives _ hidle => exact .inl ⟨⟨rfl, rfl, rfl⟩, hnot (by rw [hidle]; rfl)⟩
  | identifies _ hserved | holds _ hserved | holdsMsg _ hserved =>
    exact .inl ⟨⟨rfl, rfl, rfl⟩, hnot hserved.free⟩
  | continues _ hstate | submits hstate | takes _ _ hstate =>
    exact .inl ⟨⟨rfl, rfl, rfl⟩, hnot (by rw [hstate]; rfl)⟩
  | _ => exact .inl ⟨⟨rfl, rfl, rfl⟩, id⟩

theorem Moves.speaks (hwritten : call.isWritten = false)
    (hkeepalive : ∀ waiting now, call ≠ .event (.keepalive waiting now))
    (h : Moves call completed host host') :
    Mute host host' ∨ ∃ channel command payload, Speaks channel command payload host host' := by
  have hone := h.keeps (I := fun after => Mute host after ∨ (after.state.isTransmitting = true ∧
    ∃ channel command payload, Speaks channel command payload host after))
    (fun {a b} hmove hI => ?_) (.inl ⟨rfl, rfl, rfl⟩)
  · exact hone.imp id And.right
  rcases Move.speaks hwritten hkeepalive hmove with ⟨hmute, hstays⟩ | ⟨hfree, hbusy, c, m, p, hspeaks⟩
  · refine hI.imp (fun h => ?_) (fun h => ⟨hstays h.1, ?_⟩)
    · exact ⟨hmute.pending.trans h.pending, hmute.nextToken.trans h.nextToken,
        hmute.deliveries.trans h.deliveries⟩
    · obtain ⟨-, c, m, p, h⟩ := h
      refine ⟨c, m, p, hmute.pending.trans h.pending, hmute.nextToken.trans h.nextToken, ?_⟩
      rw [hmute.deliveries]
      exact h.deliveries
  · rcases hI with h | ⟨hbefore, -⟩
    · refine .inr ⟨hbusy, c, m, p, ?_, ?_, ?_⟩
      · rw [hspeaks.pending, h.pending, h.nextToken]
      · rw [hspeaks.nextToken, h.nextToken]
      · rw [← h.deliveries]
        exact hspeaks.deliveries
    · rw [hfree] at hbefore
      cases hbefore

variable [CryptoRng R]

/-- Unless a report is written, a call queues at most one message, or resynchronises. -/
theorem call_speaks (host : Host R) (hwritten : call.isWritten = false) :
    Mute host (host.call call) ∨
    (∃ channel command payload, Speaks channel command payload host (host.call call)) ∨
    ∃ frame now, call = .event (.packet frame now) ∧ InitAccepted host frame now ∧
      Resyncs frame.channel host (host.call call) := by
  by_cases hkeepalive : ∃ waiting now, call = .event (.keepalive waiting now)
  · obtain ⟨waiting, now, rfl⟩ := hkeepalive
    change Mute host (host.sendKeepalive waiting now).1 ∨ (∃ channel command payload,
      Speaks channel command payload host (host.sendKeepalive waiting now).1) ∨ _
    unfold sendKeepalive
    split
    · next processing _ =>
      dsimp only
      split
      · exact .inl ⟨rfl, rfl, rfl⟩
      · refine .inr (.inl ⟨processing.channel, .keepAlive,
          [(keepaliveStatus processing waiting).toU8], ?_⟩)
        have hshort : framesOf processing.channel .keepAlive
            [(keepaliveStatus processing waiting).toU8] = _ := framesOf_short (show 1 ≤ initData by decide)
        refine ⟨?_, ?_, .inl ⟨rfl, rfl⟩⟩
        · rw [hshort]
          rfl
        · rw [hshort]
          rfl
    · exact .inl ⟨rfl, rfl, rfl⟩
  rcases host.moves_call call with hmoves | hconcludes
  · refine (hmoves.speaks hwritten fun waiting now h => hkeepalive ⟨waiting, now, h⟩).imp id .inl
  rcases hconcludes.output with
    ⟨frame, now, rfl, code, -, hdeliveries, hpending, htoken⟩ | ⟨frame, now, rfl, hinit, hresyncs⟩
  · have hshort : framesOf frame.channel .error [code] = _ :=
      framesOf_short (show 1 ≤ initData by decide)
    refine .inr (.inl ⟨frame.channel, .error, [code], ?_, ?_, .inl ⟨hdeliveries, rfl⟩⟩)
    · rw [hshort]
      exact hpending
    · rw [hshort]
      exact htoken
  · exact .inr (.inr ⟨frame, now, rfl, Resyncs.initAccepted hinit hresyncs, hresyncs⟩)

end Host

def Whole (channel : UInt32) (frames : List Frame) : Prop :=
  ∃ messages : List (List Frame), frames = messages.flatten ∧
    ∀ message ∈ messages, ∃ command payload, IsMessage channel command payload message

/-- Whole messages of a channel, and the beginning of another. -/
def Parses (channel : UInt32) (frames : List Frame) : Prop :=
  ∃ (messages : List (List Frame)) (part message : List Frame) (command : Command)
    (payload : Bytes), frames = messages.flatten ++ part ∧
    (∀ message ∈ messages, ∃ command payload, IsMessage channel command payload message) ∧
    IsMessage channel command payload message ∧ part <+: message

theorem Whole.append {frames frames' : List Frame} (h : Whole channel frames)
    (h' : Whole channel frames') : Whole channel (frames ++ frames') := by
  obtain ⟨messages, rfl, hmessages⟩ := h
  obtain ⟨messages', rfl, hmessages'⟩ := h'
  refine ⟨messages ++ messages', List.flatten_append.symm, fun message hmem => ?_⟩
  exact (List.mem_append.mp hmem).elim (hmessages message) (hmessages' message)

theorem whole_nil (channel : UInt32) : Whole channel [] := ⟨[], rfl, by simp⟩

theorem whole_framesOf (channel : UInt32) (command : Command) (payload : Bytes) :
    Whole channel (Host.framesOf channel command payload) := by
  refine ⟨[Host.framesOf channel command payload], by simp, fun message hmem => ?_⟩
  rw [List.mem_singleton.mp hmem]
  exact isMessage_framesOf channel command payload

/-- What has been written of whole messages parses. -/
theorem Whole.parses {written rest : List Frame} (h : Whole channel (written ++ rest)) :
    Parses channel written := by
  obtain ⟨messages, heq, hmessages⟩ := h
  induction messages generalizing written with
  | nil =>
    obtain ⟨rfl, -⟩ := List.append_eq_nil_iff.mp heq
    exact ⟨[], [], _, .ping, [], rfl, by simp,
      isMessage_messageFrames channel .ping (by decide), List.nil_prefix⟩
  | cons message messages ih =>
    rw [List.flatten_cons, List.append_eq_append_iff] at heq
    rcases heq with ⟨tail, rfl, -⟩ | ⟨tail, rfl, heq⟩
    · obtain ⟨command, payload, hmessage⟩ := hmessages _ List.mem_cons_self
      exact ⟨[], written, _, command, payload, rfl, by simp, hmessage, List.prefix_append _ _⟩
    · obtain ⟨whole, part, last, command, payload, rfl, hwhole, hlast, hpart⟩ :=
        ih heq.symm fun m hm => hmessages m (List.mem_cons_of_mem _ hm)
      refine ⟨message :: whole, part, last, command, payload, ?_, ?_, hlast, hpart⟩
      · rw [List.flatten_cons, List.append_assoc]
      · intro m hm
        rcases List.mem_cons.mp hm with rfl | hm
        · exact hmessages m List.mem_cons_self
        · exact hwhole m hm

theorem addressedTo_unique {frame : Frame} {a b : UInt32} (ha : frame.addressedTo a = true)
    (hb : frame.addressedTo b = true) : a = b := by
  simp only [Frame.addressedTo, decide_eq_true_eq] at ha hb
  exact beBytes32_injective (ha.symm.trans hb)

theorem filter_framesOf (channel owner : UInt32) (command : Command) (payload : Bytes) :
    (Host.framesOf owner command payload).filter (·.addressedTo channel) =
      if owner = channel then Host.framesOf owner command payload else [] := by
  split
  · next h =>
    subst h
    exact List.filter_eq_self.mpr fun frame hmem => addressedTo_framesOf hmem
  · next h =>
    exact List.filter_eq_nil_iff.mpr fun frame hmem haddressed =>
      h (addressedTo_unique (addressedTo_framesOf hmem) haddressed)

theorem whole_filter_framesOf (channel owner : UInt32) (command : Command) (payload : Bytes) :
    Whole channel ((Host.framesOf owner command payload).filter (·.addressedTo channel)) := by
  rw [filter_framesOf]
  split
  · next h =>
    subst h
    exact whole_framesOf owner command payload
  · exact whole_nil channel

section Stream

variable {R : Type} {host host' : Host R} {call : Call} {written : List Frame}

def writtenBy (host : Host R) : Call → Option Frame
  | .event .written => host.pending.head?.map (·.frame)
  | .written frame =>
    if host.isOutgoingCurrent frame then host.pending.head?.map (·.frame) else none
  | _ => none

theorem writtenBy_of_not_written (h : call.isWritten = false) : writtenBy host call = none := by
  unfold writtenBy
  split
  · cases h
  · cases h
  · rfl

theorem queuedFor_writes {head : OutgoingFrame}
    (h : Host.Writes head host host') :
    host.queuedFor channel =
      [head.frame].filter (·.addressedTo channel) ++ host'.queuedFor channel := by
  unfold Host.queuedFor
  rw [h.pending, List.map_cons, ← List.singleton_append, List.filter_append]

theorem queuedFor_resyncs {owner : UInt32} (h : Host.Resyncs owner host host')
    (hother : owner ≠ channel) : host'.queuedFor channel = host.queuedFor channel := by
  obtain ⟨reply, hpending⟩ := h.reply
  have hreply : [Host.initFrame owner .init reply].filter (fun frame => frame.addressedTo channel) =
      [] := by
    refine List.filter_eq_nil_iff.mpr fun frame hmem hto => hother ?_
    rw [List.mem_singleton.mp hmem] at hto
    exact (Host.addressedTo_initFrame owner channel .init reply).mp hto
  have hkept : ∀ outgoing ∈ host.pending, (outgoing.frame.addressedTo channel &&
      !outgoing.frame.addressedTo owner) = outgoing.frame.addressedTo channel := by
    intro outgoing _
    cases howner : outgoing.frame.addressedTo owner with
    | false => simp
    | true =>
      cases hto : outgoing.frame.addressedTo channel with
      | false => rfl
      | true => exact absurd (addressedTo_unique howner hto) hother
  unfold Host.queuedFor
  rw [hpending, List.map_append, List.filter_append, List.map_singleton, hreply,
    List.append_nil, List.filter_map, List.filter_map, List.filter_filter]
  exact congrArg _ (List.filter_congr hkept)

variable [CryptoRng R]

instance (frame : Frame) : Decidable frame.isInit := inferInstanceAs (Decidable (_ ∧ _))

instance (host : Host R) (frame : Frame) (now : ℕ) : Decidable (InitAccepted host frame now) :=
  decidable_of_iff (frame.isInit ∧ ((host.handleFrame frame now).pending.getLast?.any
    fun outgoing => outgoing.frame.byte 4 = Command.init.intoU8 ||| 0x80) = true) (by
      simp [InitAccepted, Option.any_eq_true])

/-- A valid INIT on the channel takes back what is queued for it. -/
def flushes (host : Host R) (channel : UInt32) : Call → Bool
  | .event (.packet frame now) => frame.channel = channel ∧ InitAccepted host frame now
  | _ => false

/-- What is written to a channel, cut where an INIT takes back what is queued for it;
`written` is what the first piece begins with. -/
def pieces (channel : UInt32) : Host R → List Frame → List Call → List (List Frame)
  | _, written, [] => [written]
  | host, written, call :: calls =>
    if flushes host channel call then written :: pieces channel (host.call call) [] calls
    else pieces channel (host.call call)
      (written ++ (writtenBy host call).toList.filter (·.addressedTo channel)) calls

/-- An accepted INIT leaves only its reply in the queue of its channel. -/
theorem whole_flush (hflush : flushes host channel call = true) :
    Whole channel ((host.call call).queuedFor channel) := by
  unfold flushes at hflush
  split at hflush
  · next frame now =>
    obtain ⟨rfl, haccepted⟩ := of_decide_eq_true hflush
    obtain ⟨lease, channels, rng, assigned, data, -, heq⟩ := handleFrame_initAccepted haccepted
    change Whole _ ((host.handleFrame frame now).queuedFor _)
    rw [heq, Host.resynchronise, Host.enqueueMessage_eq]
    change Whole _ ((Host.pushFrames _ _).queuedFor _)
    rw [Host.queuedFor_pushFrames]
    refine Whole.append ?_ (whole_filter_framesOf _ _ _ _)
    have hnone : ((host.pending.filter fun outgoing =>
        !outgoing.frame.addressedTo frame.channel).map OutgoingFrame.frame).filter
          (fun f => f.addressedTo frame.channel) = [] := by
      refine List.filter_eq_nil_iff.mpr fun f hf => ?_
      obtain ⟨outgoing, hmem, rfl⟩ := List.mem_map.mp hf
      simpa using (List.mem_filter.mp hmem).2
    unfold Host.queuedFor
    rw [hnone]
    exact whole_nil _
  · cases hflush

/-- Any other call writes the head of the queue or queues whole messages. -/
theorem Whole.after (h : Whole channel (written ++ host.queuedFor channel))
    (hflush : flushes host channel call = false) :
    Whole channel (written ++ (writtenBy host call).toList.filter (·.addressedTo channel) ++
      (host.call call).queuedFor channel) := by
  cases hwritten : call.isWritten with
  | false =>
    rw [writtenBy_of_not_written hwritten]
    simp only [Option.toList_none, List.filter_nil, List.append_nil]
    rcases host.call_speaks hwritten with
      hmute | ⟨owner, command, payload, hspeaks⟩ | ⟨frame, now, rfl, haccepted, hresyncs⟩
    · rwa [Host.queuedFor, hmute.pending]
    · rw [Host.queuedFor, hspeaks.pending, List.map_append, List.filter_append,
        Host.frames_numbered, ← List.append_assoc]
      exact h.append (whole_filter_framesOf channel owner command payload)
    · have hother : frame.channel ≠ channel := fun heq =>
        absurd (decide_eq_true ⟨heq, haccepted⟩) (ne_true_of_eq_false hflush)
      rwa [queuedFor_resyncs hresyncs hother]
  | true =>
    have hwrites {head : OutgoingFrame} (hw : Host.Writes head host (host.call call)) :
        Whole channel (written ++ [head.frame].filter (·.addressedTo channel) ++
          (host.call call).queuedFor channel) := by
      rwa [List.append_assoc, ← queuedFor_writes hw]
    unfold Call.isWritten at hwritten
    split at hwritten
    · cases hhead : host.pending.head? with
      | none =>
        have hsame : host.call (.event .written) = host := by
          change host.headWritten = host
          rw [Host.headWritten, Host.nextOutgoingFrame, hhead]
        rw [writtenBy, hhead, hsame]
        simpa using h
      | some head =>
        have hcall : host.call (.event .written) = (host.outgoingFrameWritten head).1 := by
          change host.headWritten = _
          rw [Host.headWritten, Host.nextOutgoingFrame, hhead]
        rw [writtenBy, hhead]
        rcases host.outgoingFrameWritten_cases head with ⟨hne, -⟩ | ⟨head', hhead', -, -, hw⟩
        · exact absurd rfl (hne head hhead)
        · rw [hhead] at hhead'
          cases hhead'
          exact hwrites (hcall ▸ hw)
    · rename_i frame
      rcases host.outgoingFrameWritten_cases frame with ⟨hne, heq⟩ | ⟨head, hhead, htoken, -, hw⟩
      · have hstale : host.isOutgoingCurrent frame ≠ true := by
          intro hcurrent
          cases hhead : host.pending.head? with
          | none => simp [Host.isOutgoingCurrent, hhead] at hcurrent
          | some head =>
            exact hne head hhead (by simpa [Host.isOutgoingCurrent, hhead] using hcurrent)
        have hsame : host.call (.written frame) = host := congrArg Prod.fst heq
        rw [writtenBy, if_neg hstale, hsame]
        simpa using h
      · have hcurrent : host.isOutgoingCurrent frame = true := by
          rw [Host.isOutgoingCurrent, hhead, Option.any_some, htoken, decide_eq_true rfl]
        rw [writtenBy, if_pos hcurrent, hhead]
        exact hwrites hw
    · cases hwritten

/-- Every piece of the stream parses, if what was written and is queued are whole messages. -/
theorem Whole.pieces (h : Whole channel (written ++ host.queuedFor channel)) {calls : List Call} :
    ∀ piece ∈ pieces channel host written calls, Parses channel piece := by
  induction calls generalizing host written with
  | nil =>
    intro piece hpiece
    rw [List.mem_singleton.mp hpiece]
    exact h.parses
  | cons call calls ih =>
    intro piece hpiece
    unfold Ctaphid.pieces at hpiece
    split at hpiece
    · next hflush =>
      rcases List.mem_cons.mp hpiece with rfl | hpiece
      · exact h.parses
      · exact ih (whole_flush hflush) piece hpiece
    · next hflush => exact ih (h.after (eq_false_of_ne_true hflush)) piece hpiece

theorem ownSince_append {before pending : List OutgoingFrame} (hsub : before ⊆ pending)
    {command : Command} {payload : Bytes} (hown : Host.ownReply command payload = true)
    (channel : UInt32) (token : ℕ) : Host.OwnSince pending
      (before ++ Host.numbered token (Host.framesOf channel command payload)) := by
  intro outgoing hmem
  rcases List.mem_append.mp hmem with hold | hnew
  · exact .inl (hsub hold)
  · exact .inr ⟨channel, command, payload, hown, Host.frame_mem_of_numbered hnew⟩

/-- An answer of the application that is given out is the one message that the call queues. If
none is, the call queues only messages of the host itself. -/
theorem call_output (host : Host R) (call : Call) :
    ((host.call call).deliveries = host.deliveries ∧
      Host.OwnSince host.pending (host.call call).pending) ∨
    ∃ delivery, (host.call call).deliveries = host.deliveries ++ [delivery] ∧
      (host.call call).pending = host.pending ++ Host.numbered host.nextToken
        (Host.framesOf delivery.channel delivery.command delivery.answer.response) := by
  have hself : Host.OwnSince host.pending host.pending := fun _ => .inl
  cases hwritten : call.isWritten with
  | true =>
    have hpacket : call.isPacket = false := by
      unfold Call.isPacket
      split
      · cases hwritten
      · rfl
    refine .inl ((host.moves_of_not_packet hpacket).keeps (I := fun after =>
      after.deliveries = host.deliveries ∧ Host.OwnSince host.pending after.pending)
      (fun hmove ⟨hsame, hown⟩ => ?_) ⟨rfl, hself⟩)
    cases hmove with
    | collects hcall | delivers hcall | waits _ hcall =>
      rw [hcall] at hwritten
      cases hwritten
    | replies _ _ _ hreply =>
      rw [Host.enqueueMessage_eq]
      refine ⟨hsame, fun outgoing hmem => ?_⟩
      rcases ownSince_append (List.Subset.refl _) hreply _ _ outgoing hmem with hold | hnew
      · exact hown outgoing hold
      · exact .inr hnew
    | writes _ hpending | ends _ hpending =>
      exact ⟨hsame, fun outgoing hmem => hown outgoing (hpending ▸ List.mem_cons_of_mem _ hmem)⟩
    | _ => exact ⟨hsame, hown⟩
  | false =>
    rcases host.call_speaks hwritten with
      hmute | ⟨owner, command, payload, hspeaks⟩ | ⟨frame, now, rfl, haccepted, -⟩
    · exact .inl ⟨hmute.deliveries, hmute.pending ▸ hself⟩
    · rcases hspeaks.deliveries with ⟨hsame, hown⟩ | ⟨answer, rfl, hone⟩
      · exact .inl ⟨hsame, hspeaks.pending ▸ ownSince_append (List.Subset.refl _) hown _ _⟩
      · exact .inr ⟨_, hone, hspeaks.pending⟩
    · obtain ⟨lease, channels, rng, assigned, data, -, heq⟩ := handleFrame_initAccepted haccepted
      refine .inl ⟨(desk_initAccepted haccepted).2.2.1, ?_⟩
      change Host.OwnSince _ (host.handleFrame frame now).pending
      rw [heq, Host.resynchronise, Host.enqueueMessage_eq]
      refine ownSince_append List.filter_sublist.subset ?_ _ _
      rfl

theorem speaks_of_deliveries (call : Call) {delivery : Delivery}
    (h : (host.call call).deliveries = host.deliveries ++ [delivery]) :
    (host.call call).pending = host.pending ++ Host.numbered host.nextToken
      (Host.framesOf delivery.channel delivery.command delivery.answer.response) := by
  rcases call_output host call with ⟨hsame, -⟩ | ⟨delivery', hnew, hpending⟩
  · rw [hsame] at h
    simp at h
  · rw [hnew, List.append_cancel_left_eq, List.singleton_inj] at h
    rw [← h]
    exact hpending

theorem ownSince_of_deliveries (call : Call)
    (h : (host.call call).deliveries = host.deliveries) :
    Host.OwnSince host.pending (host.call call).pending := by
  rcases call_output host call with ⟨-, hown⟩ | ⟨delivery, hnew, -⟩
  · exact hown
  · rw [hnew] at h
    simp at h

end Stream

/-- Each piece of what is written to a channel, cut where a valid INIT takes back what is
queued for it, consists of whole messages and at most the beginning of one more. An answer
that is too long for a message is queued as a single error. -/
theorem output_stream_parses {R : Type} [CryptoRng R] (rng : R) (version : Version)
    (capabilities : UInt8) (calls : List Call) (channel : UInt32) :
    (∀ piece ∈ pieces channel (Host.withRng rng version capabilities) [] calls,
      Parses channel piece) ∧
    ∀ call delivery,
      let host := (callMachine R).run (Host.withRng rng version capabilities) calls
      (host.call call).deliveries = host.deliveries ++ [delivery] →
      maxMessageSize < delivery.answer.response.length →
      (host.call call).pending = host.pending ++
        [⟨Host.initFrame delivery.channel .error [ErrorCode.other.toU8], host.nextToken⟩] := by
  refine ⟨Whole.pieces (whole_nil channel), ?_⟩
  intro call delivery host hgiven hlong
  have hframes : Host.framesOf delivery.channel delivery.command delivery.answer.response =
      [Host.initFrame delivery.channel .error [ErrorCode.other.toU8]] := by
    rw [Host.framesOf, if_neg (Nat.not_le_of_lt hlong)]
    rfl
  rw [speaks_of_deliveries call hgiven, hframes]
  rfl

theorem output_stream_parses_ping :
    pieces 5 freshHost [] (pingCalls ++ [.event .written]) = [[Host.initFrame 5 .ping [7]]] ∧
      Parses 5 [Host.initFrame 5 .ping [7]] := by
  have hpieces : pieces 5 freshHost [] (pingCalls ++ [.event .written]) =
      [[Host.initFrame 5 .ping [7]]] := by decide
  have hparses := (output_stream_parses (⟨[]⟩ : Draws) ⟨0, 0, 0⟩ 0
    (pingCalls ++ [.event .written]) 5).1
  rw [← freshHost, hpieces] at hparses
  exact ⟨hpieces, hparses _ (List.mem_singleton_self _)⟩

/-- In every run in which each taken request is answered once, the answers are given out in the
order in which they are handed over, each at most once and for the channel and command of the
request taken last; none for a request whose channel was resynchronised, and a request that
waits is given only the answer to itself. An event queues the answer that it gives out, and
otherwise nothing but messages of the host itself. -/
theorem answers_never_cross {R : Type} [CryptoRng R] (host₀ : Host R) (events : List Event)
    (hinitial : (hostMachine R).initial host₀) (hevents : (hostMachine R).Executes host₀ events)
    (host : Host R) (hrun : (hostMachine R).run host₀ events = host) :
    (host.deliveries.map (·.answer)).Sublist ((hostMachine R).outputs given host₀ events) ∧
    (∀ event, Enabled host event →
      ((host.handle event).deliveries = host.deliveries ∧
        Host.OwnSince host.pending (host.handle event).pending) ∨
      ∃ delivery, (host.handle event).deliveries = host.deliveries ++ [delivery] ∧
        (host.handle event).pending = host.pending ++ Host.numbered host.nextToken
          (Host.framesOf delivery.channel delivery.command delivery.answer.response) ∧
        AnswersLast host event delivery) ∧
    (∀ frame now request later, host.appBusy = true → host.taken.getLast? = some request →
      frame.channel = request.channel → InitAccepted host frame now →
      (hostMachine R).Executes (host.handleFrame frame now) later →
      ∀ delivery ∈ ((hostMachine R).run (host.handleFrame frame now) later).deliveries,
        delivery.answer.serial + 1 ≠ host.taken.length) ∧
    (∀ p payload, host.appBusy = true → host.state = .processing p → p.request = some payload →
      (∀ later, (hostMachine R).Executes host later →
        ∀ delivery ∈ ((hostMachine R).run host later).deliveries.drop host.deliveries.length,
          host.taken.length ≤ delivery.answer.serial) ∧
      (∀ later event, (hostMachine R).Along Lasts host later →
        Enabled ((hostMachine R).run host later) event →
        ∀ delivery, (((hostMachine R).run host later).handle event).deliveries =
            ((hostMachine R).run host later).deliveries ++ [delivery] →
          delivery.channel = p.channel ∧ delivery.answer.serial = host.taken.length ∧
            ((hostMachine R).run host later).taken =
              host.taken ++ [⟨p.channel, ⟨p.command, payload⟩⟩])) := by
  have hsound : host.desk.Sound := reachable_sound ⟨host₀, events, hinitial, hevents, hrun⟩
  refine ⟨?_, fun event henabled => ?_, ?_, ?_⟩
  · have hcommitted := committed_run (sound_initial hinitial) hevents
    have hstart : host₀.desk.committed = [] := by
      obtain ⟨rng, version, capabilities, rfl⟩ := hinitial
      rfl
    rw [hstart, hrun, List.nil_append] at hcommitted
    exact (List.sublist_append_left _ _).trans hcommitted
  · rcases deliveries_handle hsound henabled with hsame | ⟨delivery, hnew, hanswers⟩
    · exact .inl ⟨hsame, ownSince_of_deliveries (.event event) hsame⟩
    · exact .inr ⟨delivery, hnew, speaks_of_deliveries (.event event) hnew, hanswers⟩
  · intro frame now request later hbusy hlast hchannel haccepted hlater
    exact serial_ne_of_initAccepted hsound hbusy hlast hchannel haccepted hlater
  · intro p payload hbusy hstate hrequest
    have hwaiting : host.desk.errand = .waiting ⟨p.channel, ⟨p.command, payload⟩⟩ := by
      simp [Host.desk, Host.errand, hstate, hrequest]
    exact ⟨fun later hlater => (onlyFrom_run hsound (onlyFrom_waiting hsound hwaiting)
      hlater).deliveries, fun later event => own_answer_of_waiting hsound hwaiting⟩

/-- A CBOR request on channel 5 is taken, aborted by INIT, and sent again while the
application still works on the first one. -/
def resubmission : List Event :=
  [.packet (Host.initFrame 5 .cbor [4]) 0, .take,
    .packet (Host.initFrame 5 .init [1, 2, 3, 4, 5, 6, 7, 8]) 1, .written,
    .packet (Host.initFrame 5 .cbor [4]) 2]

def resubmittedHost : Host Draws := (hostMachine Draws).run freshHost resubmission

theorem answers_never_cross_resubmission :
    resubmittedHost.appBusy = true ∧
      Host.OwnSince resubmittedHost.pending (resubmittedHost.handle (.answer [0, 1] 4 none)).pending ∧
      (∀ delivery ∈ ((hostMachine Draws).run
          (resubmittedHost.handleFrame (Host.initFrame 5 .init [1, 2, 3, 4, 5, 6, 7, 8]) 3)
          [.answer [0, 1] 4 none]).deliveries, delivery.answer.serial + 1 ≠ 1) ∧
      (∀ delivery ∈ ((hostMachine Draws).run resubmittedHost
          [.answer [0, 1] 4 none, .take, .answer [0, 2] 5 none]).deliveries.drop 0,
        1 ≤ delivery.answer.serial) ∧
      (((hostMachine Draws).run resubmittedHost [.answer [0, 1] 4 none, .take]).handle
          (.answer [0, 2] 5 none)).deliveries = [⟨5, .cbor, ⟨1, [0, 2]⟩⟩] ∧
      ((hostMachine Draws).run resubmittedHost [.answer [0, 1] 4 none, .take]).taken =
        resubmittedHost.taken ++ [⟨5, ⟨.cbor, [4]⟩⟩] := by
  have hexecutes : (hostMachine Draws).Executes freshHost resubmission :=
    executes_of_no_answers (by decide) _
  obtain ⟨-, hqueued, hinit, hheld⟩ := answers_never_cross freshHost resubmission
    ⟨_, _, _, rfl⟩ hexecutes resubmittedHost rfl
  obtain ⟨honly, hanswer⟩ := hheld ⟨5, .cbor, 2, some [4], 2, .processing⟩ [4] (by decide)
    (by decide) rfl
  have hbusy : resubmittedHost.appBusy = true := by decide
  have hlate : (resubmittedHost.handle (.answer [0, 1] 4 none)).deliveries = [] := by decide
  have hown := hqueued (.answer [0, 1] 4 none) hbusy
  simp only [hlate, List.nil_eq_append_iff, List.cons_ne_nil, and_false, false_and, exists_false,
    or_false] at hown
  have hsecond : ((hostMachine Draws).run resubmittedHost
      [.answer [0, 1] 4 none, .take]).appBusy = true := by decide
  have hlasts : (hostMachine Draws).Along Lasts resubmittedHost [.answer [0, 1] 4 none, .take] :=
    ⟨⟨hbusy, _, by rfl⟩, ⟨trivial, _, by rfl⟩, trivial⟩
  have haccepted : InitAccepted resubmittedHost
      (Host.initFrame 5 .init [1, 2, 3, 4, 5, 6, 7, 8]) 3 :=
    ⟨⟨by decide, by decide⟩, _, by rfl, by decide⟩
  have hstill : (resubmittedHost.handleFrame
      (Host.initFrame 5 .init [1, 2, 3, 4, 5, 6, 7, 8]) 3).appBusy = true := by decide
  exact ⟨hbusy, hown.2,
    hinit _ 3 ⟨5, ⟨.cbor, [4]⟩⟩ _ hbusy (by decide) (by decide) haccepted ⟨hstill, trivial⟩,
    honly _ ⟨hbusy, trivial, hsecond, trivial⟩, by decide,
    (hanswer _ (.answer [0, 2] 5 none) hlasts hsecond ⟨5, .cbor, ⟨1, [0, 2]⟩⟩ (by decide)).2.2⟩

end SoftwareAuthenticator.Ctaphid
