import SoftwareAuthenticator.Ctaphid.Deadlines
import SoftwareAuthenticator.Progress

/-!
# No client can wedge the host

First the application finishes what it has and what waits for it; then the timers run out; then
the queue is written.
-/

namespace SoftwareAuthenticator.Ctaphid

def State.isHeld : State → Bool
  | .processing p => p.request.isSome
  | _ => false

/-- When a transaction that the application has nothing to do with ends by itself. -/
def State.timer : State → Option ℕ
  | .receiving _ _ _ _ lastPacketAt => some (lastPacketAt + continuationTimeoutMs)
  | .identifying _ request _ => some request.deadline
  | _ => none

/-- The channel of a transaction whose message was complete and has no final reply. -/
def State.awaits : State → Option UInt32
  | .processing p => some p.channel
  | .identifying channel _ _ => some channel
  | _ => none

variable {channel : UInt32}

namespace Core

open Host (Move)

variable {R : Type} {call : Call} {core start : Core} {host host' : Host R}

/-- Without packets no request comes to wait. -/
theorem isHeld_move (hpacket : call.isPacket = false) (hmove : Move call none host host')
    (hheld : host'.core.state.isHeld = true) : host.core.state.isHeld = true := by
  cases hmove with
  | receives | continues | identifies | submits | takes | ends => cases hheld
  | replies | collects | delivers =>
    simp only [Host.core_enqueueMessage, Host.core_enqueueAnswer] at hheld
    cases hheld
  | holds hcall | holdsMsg hcall =>
    rw [hcall] at hpacket
    cases hpacket
  | waits hstate =>
    change host.state.isHeld = true
    rw [hstate]
    exact hheld
  | _ => exact hheld

structure Free (core : Core) : Prop where
  command : core.appCommand = none
  state : ∀ processing, core.state ≠ .processing processing

theorem Coherent.free_of (h : core.Coherent) (hbusy : core.appBusy = false)
    (hheld : core.state.isHeld = false) : core.Free := by
  have hcommand : core.appCommand = none := by
    rw [h.busy] at hbusy
    exact Option.isNone_iff_eq_none.mp (Option.isSome_eq_false_iff.mp hbusy)
  refine ⟨hcommand, fun processing hstate => ?_⟩
  rw [hstate] at hheld
  have hnone : processing.request = none :=
    Option.isNone_iff_eq_none.mp (Option.isSome_eq_false_iff.mp hheld)
  have hserved := h.served processing hstate hnone
  rw [hcommand] at hserved
  cases hserved

def Answering (channel : UInt32) (state : State) : Prop :=
  state.awaits = some channel ∨ ∃ token, state = .transmitting channel token

theorem channel_of_awaits {state : State} (h : state.awaits = some channel) :
    state.channel = some channel := by
  cases state with
  | processing | identifying => exact h
  | _ => cases h

/-- Without packets a transaction whose message was complete only gets its final reply. -/
theorem answering_move (hpacket : call.isPacket = false) (hwritten : call.isWritten = false)
    (hcoherent : host.core.Coherent) (hmove : Move call none host host')
    (h : Answering channel host.core.state) :
    Answering channel host'.core.state := by
  cases hmove with
  | receives hcall | continues hcall | collects hcall | identifies hcall | holds hcall
  | holdsMsg hcall =>
    rw [hcall] at hpacket
    cases hpacket
  | @replies channel' hanswers =>
    rw [Host.core_enqueueMessage]
    obtain ⟨token, hawaits⟩ | hawaits := h.symm
    · have hfree := hanswers.free
      rw [show host.state = _ from hawaits] at hfree
      cases hfree
    · suffices channel' = channel by
        subst this
        exact .inr ⟨_, rfl⟩
      have hchannel : host.state.channel = some channel := channel_of_awaits hawaits
      rcases hanswers.owner with howner | ⟨-, hcall, -⟩ | ⟨processing, poll, hstate, hpoll, rfl⟩
      · exact Option.some.inj (howner.symm.trans hchannel)
      · rw [hpacket] at hcall
        cases hcall
      · -- The prompt is for the channel of the transaction.
        rw [(hcoherent.tied processing poll hstate hpoll).2.2]
        rw [hstate] at hchannel
        exact Option.some.inj hchannel
  | delivers _ hstate =>
    rw [Host.core_enqueueAnswer]
    rw [show host.core.state = _ from hstate] at h
    rcases h with hawaits | ⟨token, htransmitting⟩
    · cases hawaits
      exact .inr ⟨_, rfl⟩
    · cases htransmitting
  | submits hstate | waits hstate | takes _ _ hstate =>
    rw [show host.core.state = _ from hstate] at h
    rcases h with hawaits | ⟨token, htransmitting⟩
    · exact .inl hawaits
    · cases htransmitting
  | ends hcall =>
    rw [hcall] at hwritten
    cases hwritten
  | _ => exact h

/-- Without packets an idle host stays so, and a response under way ends in idleness. -/
theorem over_move {state : State} (hover : state = .idle ∨ state.isTransmitting = true)
    (hpacket : call.isPacket = false) (hmove : Move call none host host')
    (h : host.core.state = state ∨ host.core.state = .idle) :
    host'.core.state = state ∨ host'.core.state = .idle := by
  have hquiet : host.state = .idle ∨ host.state.isTransmitting = true := by
    rcases h with rfl | h
    · exact hover
    · exact .inl h
  have hprocessing : ∀ processing, host.state ≠ .processing processing := by
    intro processing hp
    rw [hp] at hquiet
    simp [State.isTransmitting] at hquiet
  cases hmove with
  | receives hcall | continues hcall | collects hcall | identifies hcall | holds hcall
  | holdsMsg hcall =>
    rw [hcall] at hpacket
    cases hpacket
  | replies hanswers =>
    rcases hquiet with hidle | hbusy
    · rcases hanswers.owner with howner | ⟨-, hcall, -⟩ | ⟨processing, -, hstate, -⟩
      · rw [hidle] at howner
        cases howner
      · rw [hpacket] at hcall
        cases hcall
      · exact absurd hstate (hprocessing processing)
    · rw [hanswers.free] at hbusy
      cases hbusy
  | submits hstate =>
    rw [hstate] at hquiet
    simp [State.isTransmitting] at hquiet
  | waits hstate | takes _ _ hstate | delivers _ hstate => exact absurd hstate (hprocessing _)
  | ends => exact .inr rfl
  | _ => exact h

structure Wanes (start core : Core) : Prop where
  free : core.Free
  lease : core.lease = start.lease ∨ core.lease = none
  u2f : core.u2f = start.u2f ∨ core.u2f = none
  timer : core.state.timer = start.state.timer ∨ core.state.timer = none

theorem Wanes.move (h : Wanes start host.core) (hpacket : call.isPacket = false)
    (hmove : Move call none host host') : Wanes start host'.core := by
  cases hmove with
  | receives hcall | continues hcall | collects hcall | identifies hcall | holds hcall
  | holdsMsg hcall | leases hcall =>
    rw [hcall] at hpacket
    cases hpacket
  | refreshes _ hcompleted | polls _ _ hcompleted => cases hcompleted
  | leaseEnds => exact ⟨⟨h.free.command, h.free.state⟩, .inr rfl, h.u2f, h.timer⟩
  | replies =>
    rw [Host.core_enqueueMessage]
    exact ⟨⟨h.free.command, nofun⟩, h.lease, h.u2f, .inr rfl⟩
  | ends => exact ⟨⟨h.free.command, nofun⟩, h.lease, h.u2f, .inr rfl⟩
  | expires | withdraws | resets =>
    exact ⟨⟨h.free.command, h.free.state⟩, h.lease, .inr rfl, h.timer⟩
  | submits hstate =>
    refine ⟨⟨h.free.command, nofun⟩, h.lease, h.u2f, ?_⟩
    have htimer := h.timer
    rw [show host.core.state = _ from hstate] at htimer
    exact htimer
  | waits hstate | takes _ _ hstate | delivers _ hstate => exact absurd hstate (h.free.state _)
  | asks _ hcommand | denies _ _ hcommand | keeps _ _ hcommand =>
    cases hcommand.symm.trans h.free.command
  | frees => exact ⟨⟨rfl, h.free.state⟩, h.lease, h.u2f, h.timer⟩
  | _ => exact ⟨⟨h.free.command, h.free.state⟩, h.lease, h.u2f, h.timer⟩

def timersLeft (core : Core) : ℕ :=
  core.lease.isSome.toNat + core.u2f.isSome.toNat + core.state.timer.isSome.toNat

theorem Wanes.timersLeft_le (h : Wanes start core) : core.timersLeft ≤ start.timersLeft := by
  have hle : ∀ {α : Type} {o o' : Option α}, o' = o ∨ o' = none → o'.isSome.toNat ≤ o.isSome.toNat := by
    rintro α o o' (rfl | rfl)
    · exact le_rfl
    · exact Nat.zero_le _
  exact Nat.add_le_add (Nat.add_le_add (hle h.lease) (hle h.u2f)) (hle h.timer)

theorem Wanes.same (h : Wanes start core) (hleft : start.timersLeft ≤ core.timersLeft) :
    core.lease = start.lease ∧ core.u2f = start.u2f ∧ core.state.timer = start.state.timer := by
  have hle : ∀ {α : Type} {o o' : Option α}, o' = o ∨ o' = none →
      o'.isSome.toNat ≤ o.isSome.toNat ∧ (o.isSome.toNat ≤ o'.isSome.toNat → o' = o) := by
    rintro α o o' (rfl | rfl)
    · exact ⟨le_rfl, fun _ => rfl⟩
    · refine ⟨Nat.zero_le _, fun hle => ?_⟩
      cases o with
      | none => rfl
      | some a => cases hle
  obtain ⟨hlease, hlease'⟩ := hle h.lease
  obtain ⟨hu2f, hu2f'⟩ := hle h.u2f
  obtain ⟨htimer, htimer'⟩ := hle h.timer
  unfold timersLeft at hleft
  exact ⟨hlease' (by omega), hu2f' (by omega), htimer' (by omega)⟩

end Core

namespace Host

variable {R : Type}

section Calls

variable {call : Call}

theorem submittedBy_of_not_packet (host : Host R) (hpacket : call.isPacket = false) :
    host.submittedBy call = none := by
  unfold submittedBy
  split
  · cases hpacket
  · rfl

/-- What the application has to do: a request that waits counts twice. -/
def work (host : Host R) : ℕ := 2 * host.state.isHeld.toNat + host.appBusy.toNat

variable {host : Host R}

theorem free_of_work (hcoherent : host.core.Coherent) (hwork : host.work = 0) : host.core.Free := by
  refine hcoherent.free_of (Bool.toNat_eq_zero.mp ?_) (Bool.toNat_eq_zero.mp ?_)
  · change host.appBusy.toNat = 0
    unfold work at hwork
    omega
  · change host.state.isHeld.toNat = 0
    unfold work at hwork
    omega

theorem takeAppRequest_cases (host : Host R) :
    (host.appBusy = false ∧ host.state.isHeld = true ∧ host.takeAppRequest.1.appBusy = true ∧
      host.takeAppRequest.1.state.isHeld = false) ∨
    ((host.appBusy = true ∨ host.state.isHeld = false) ∧ host.takeAppRequest = (host, none)) := by
  unfold takeAppRequest
  split
  · rename_i hbusy
    exact .inr ⟨.inl hbusy, rfl⟩
  · rename_i hfree
    split
    · rename_i processing hstate
      split
      · rename_i hnone
        refine .inr ⟨.inr ?_, rfl⟩
        rw [hstate]
        simp [State.isHeld, hnone]
      · rename_i payload hsome
        refine .inl ⟨eq_false_of_ne_true hfree, ?_, rfl, rfl⟩
        rw [hstate]
        simp [State.isHeld, hsome]
    · rename_i hstate
      refine .inr ⟨.inr ?_, rfl⟩
      unfold State.isHeld
      split
      · rename_i processing hprocessing
        exact absurd hprocessing (hstate processing)
      · rfl

structure Spent (host : Host R) : Prop where
  free : host.core.Free
  lease : host.lease = none
  u2f : host.u2f = none
  timer : host.state.timer = none

theorem spent_of_timersLeft (h : host.core.Free) (hleft : host.core.timersLeft = 0) :
    host.Spent := by
  simp only [Core.timersLeft, Nat.add_eq_zero_iff, Bool.toNat_eq_zero,
    Option.isSome_eq_false_iff, Option.isNone_iff_eq_none] at hleft
  exact ⟨h, hleft.1.1, hleft.1.2, hleft.2⟩

theorem Spent.state (h : host.Spent) :
    host.state = .idle ∨ ∃ channel token, host.state = .transmitting channel token := by
  have htimer := h.timer
  cases hstate : host.state with
  | idle => exact .inl rfl
  | transmitting channel token => exact .inr ⟨channel, token, rfl⟩
  | processing processing => exact absurd hstate (h.free.state processing)
  | receiving | identifying =>
    rw [hstate] at htimer
    cases htimer

theorem Spent.awake (h : host.Spent) (now : ℕ) : host.Awake now := by
  refine awake_of (fun deadline hdeadline => ?_) (fun poll hpoll => ?_)
    fun channel expires hlease => ?_
  · unfold transactionDeadline at hdeadline
    rcases h.state with hstate | ⟨channel, token, hstate⟩
    · rw [hstate] at hdeadline
      cases hdeadline
    · rw [hstate] at hdeadline
      cases hdeadline
  · rw [h.u2f] at hpoll
    cases hpoll
  · rw [h.lease] at hlease
    cases hlease

theorem timers_of_free (h : host.core.Free) :
    host.timers = host.state.timer.toList ++ (host.u2f.map U2fPoll.deadline).toList ++
      (host.lease.map Prod.snd).toList := by
  have htransaction : host.transactionDeadline = host.state.timer := by
    unfold transactionDeadline
    cases hstate : host.state with
    | processing processing => exact absurd hstate (h.state processing)
    | _ => rfl
  have hpoll : host.pollDeadline = U2fPoll.deadline := by
    funext poll
    unfold pollDeadline
    split
    · rename_i hstate
      exact absurd hstate (h.state _)
    · rfl
  rw [timers, htransaction, hpoll]

theorem Caught.awake_of_free {now : ℕ} (h : host.Caught now) (hfree : host.core.Free) :
    host.Awake now := by
  intro deadline hmem
  simp only [timers_of_free hfree, List.mem_append, Option.mem_toList,
    Option.map_eq_some_iff] at hmem
  rcases hmem with (htimer | ⟨poll, hpoll, rfl⟩) | ⟨⟨channel, expires⟩, hlease, rfl⟩
  · unfold State.timer at htimer
    split at htimer
    · rename_i hstate
      cases htimer
      exact h.receiving _ _ _ _ _ hstate
    · rename_i hstate
      cases htimer
      exact h.identifying _ _ _ hstate
    · cases htimer
  · exact h.poll poll hpoll
  · exact h.lease channel expires hlease

theorem pending_headWritten : host.headWritten.pending = host.pending.tail := by
  unfold headWritten nextOutgoingFrame
  split
  · rename_i frame hhead
    have hcurrent : host.isOutgoingCurrent frame = true := by
      simp [isOutgoingCurrent, hhead]
    unfold outgoingFrameWritten
    simp only [hcurrent, Bool.not_true, Bool.false_eq_true, if_false]
    split
    · split
      · rfl
      · rfl
    · rfl
  · rename_i hhead
    rw [List.head?_eq_none_iff.mp hhead]
    rfl

/-- Reports that are written leave a transaction alone that has no response under way. -/
theorem state_outgoingFrameWritten (hfree : host.state.isTransmitting = false)
    (frame : OutgoingFrame) : (host.outgoingFrameWritten frame).1.state = host.state := by
  rcases host.outgoingFrameWritten_cases frame with ⟨-, heq⟩ | ⟨head, -, -, -, hwrites⟩
  · rw [heq]
  · rcases hwrites.state with ⟨c, hstate, -⟩ | ⟨-, hsame⟩
    · rw [hstate] at hfree
      cases hfree
    · exact hsame

variable [CryptoRng R]

theorem quiet_keeps {I : Core → Prop} (host : Host R) (hpacket : call.isPacket = false)
    (hmove : ∀ {a b : Host R}, Move call none a b → I a.core → I b.core) (h : I host.core) :
    I (host.call call).core := by
  have hmoves := host.moves_of_not_packet hpacket
  rw [host.submittedBy_of_not_packet hpacket] at hmoves
  exact hmoves.keeps (I := fun a => I a.core) hmove h

theorem isHeld_call (host : Host R) (hpacket : call.isPacket = false)
    (hheld : (host.call call).state.isHeld = true) : host.state.isHeld = true := by
  by_contra hnot
  have hnone : (host.call call).core.state.isHeld ≠ true :=
    host.quiet_keeps (I := fun core => core.state.isHeld ≠ true) hpacket
      (fun hmove h hheld => h (Core.isHeld_move hpacket hmove hheld)) hnot
  exact hnone hheld

theorem work_call_le (host : Host R) (hpacket : call.isPacket = false) :
    (host.call call).work ≤ host.work := by
  have hheld := Bool.toNat_le_toNat (Bool.le_iff_imp.mpr (host.isHeld_call hpacket))
  by_cases htake : call = .event .take
  · subst htake
    change (host.takeAppRequest.1).work ≤ host.work
    rcases host.takeAppRequest_cases with ⟨hfree, hwaits, hbusy, hgone⟩ | ⟨-, heq⟩
    · simp [work, hfree, hwaits, hbusy, hgone]
    · rw [heq]
  · have hbusy : (host.call call).appBusy.toNat ≤ host.appBusy.toNat := by
      by_cases hanswer : ∃ response now finished, call = .event (.answer response now finished)
      · obtain ⟨response, now, finished, rfl⟩ := hanswer
        rw [host.appBusy_answer response now finished]
        exact Nat.zero_le _
      · simp only [not_exists] at hanswer
        exact le_of_eq (congrArg Bool.toNat (host.appBusy_call htake hanswer))
    unfold work
    omega

/-- An answer of a busy application, or a request handed to a free one, is progress. -/
theorem work_answer_lt (host : Host R) (hbusy : host.appBusy = true) (response : Bytes) (now : ℕ)
    (finished : Option ℕ) :
    (host.call (.event (.answer response now finished))).work < host.work := by
  have hpacket : Call.isPacket (.event (.answer response now finished)) = false := rfl
  have hheld := Bool.toNat_le_toNat (Bool.le_iff_imp.mpr (host.isHeld_call hpacket))
  unfold work
  rw [host.appBusy_answer response now finished, hbusy, Bool.toNat_false, Bool.toNat_true]
  omega

theorem work_take_lt (host : Host R) (hfree : host.appBusy = false)
    (hheld : host.state.isHeld = true) : (host.call (.event .take)).work < host.work := by
  change (host.takeAppRequest.1).work < host.work
  rcases host.takeAppRequest_cases with ⟨-, -, hbusy, hgone⟩ | ⟨hnot, -⟩
  · simp [work, hfree, hheld, hbusy, hgone]
  · rw [hfree, hheld] at hnot
    simp at hnot

theorem Spent.pending_call (h : host.Spent) (hcoherent : host.core.Coherent)
    (hpacket : call.isPacket = false) (hwritten : call.isWritten = false) :
    (host.call call).pending = host.pending := by
  have hprocessing := h.free.state
  have hidentifying : ∀ channel request submitted,
      host.state ≠ .identifying channel request submitted := by
    rcases h.state with hstate | ⟨channel, token, hstate⟩
    · simp [hstate]
    · simp [hstate]
  cases call with
  | setVersion | setCapabilities => rfl
  | written frame => cases hwritten
  | event event =>
    cases event with
    | packet frame now => cases hpacket
    | written => cases hwritten
    | timeout now =>
      change (host.handleTimeout now).pending = _
      rw [handleTimeout_awake (h.awake now) hcoherent]
      rfl
    | presence waiting =>
      change (host.appPresence waiting).pending = _
      rw [appPresence, h.u2f]
    | presenceFinished at_ =>
      change (host.appPresenceFinished at_).pending = _
      rw [appPresenceFinished, h.u2f]
    | u2fEnabled enabled =>
      cases enabled with
      | true | false => rfl
    | u2fReset => rfl
    | keepalive waitingForUser now =>
      change (host.sendKeepalive waitingForUser now).1.pending = _
      unfold sendKeepalive
      split
      · rename_i hstate
        exact absurd hstate (hprocessing _)
      · rfl
    | identify =>
      change host.takeIdentificationRequest.1.pending = _
      unfold takeIdentificationRequest
      split
      · rename_i hstate
        exact absurd hstate (hidentifying _ _ _)
      · rfl
    | identified token delivered now =>
      change (host.identificationResponse token delivered now).pending = _
      unfold identificationResponse
      split
      · rename_i hstate
        exact absurd hstate (hidentifying _ _ _)
      · rfl
    | take =>
      change host.takeAppRequest.1.pending = _
      unfold takeAppRequest
      split
      · rfl
      · split
        · rename_i hstate
          exact absurd hstate (hprocessing _)
        · rfl
    | interrupt => rfl
    | answer response now finished =>
      have hcommand : host.appCommand = none := h.free.command
      change (host.appResponse response now finished).pending = _
      unfold appResponse
      dsimp only
      rw [hcommand]
      dsimp only
      unfold respond
      split
      · rename_i hstate
        exact absurd hstate (hprocessing _)
      · rfl

theorem pending_written_le (host : Host R) (hwritten : call.isWritten = true) :
    (host.call call).pending.length ≤ host.pending.length := by
  cases call with
  | setVersion | setCapabilities => cases hwritten
  | written frame =>
    change (host.outgoingFrameWritten frame).1.pending.length ≤ _
    rcases host.outgoingFrameWritten_cases frame with ⟨-, heq⟩ | ⟨head, -, -, -, hwrites⟩
    · rw [heq]
    · rw [hwrites.pending]
      exact Nat.le_succ _
  | event event =>
    cases event with
    | written =>
      change host.headWritten.pending.length ≤ _
      rw [pending_headWritten, List.length_tail]
      exact Nat.sub_le _ _
    | _ => cases hwritten

theorem state_written (hwritten : call.isWritten = true)
    (hfree : host.state.isTransmitting = false) : (host.call call).state = host.state := by
  cases call with
  | setVersion | setCapabilities => cases hwritten
  | written frame => exact state_outgoingFrameWritten hfree frame
  | event event =>
    cases event with
    | written =>
      change host.headWritten.state = _
      unfold headWritten
      split
      · exact state_outgoingFrameWritten hfree _
      · rfl
    | _ => cases hwritten

theorem answering_call (hcoherent : host.core.Coherent) (hpacket : call.isPacket = false)
    (h : host.state.awaits = some channel) :
    Core.Answering channel (host.call call).state := by
  cases hwritten : call.isWritten with
  | true =>
    have hfree : host.state.isTransmitting = false := by
      cases hstate : host.state with
      | transmitting c t =>
        rw [hstate] at h
        cases h
      | _ => rfl
    rw [state_written hwritten hfree]
    exact .inl h
  | false =>
    exact (host.quiet_keeps
      (I := fun core => core.Coherent ∧ Core.Answering channel core.state) hpacket
      (fun hmove hI => ⟨hI.1.move hmove, Core.answering_move hpacket hwritten hI.1 hmove hI.2⟩)
      ⟨hcoherent, .inl h⟩).2

theorem over_call (hover : host.state = .idle ∨ host.state.isTransmitting = true)
    (hpacket : call.isPacket = false) :
    (host.call call).state = host.state ∨ (host.call call).state = .idle :=
  host.quiet_keeps (I := fun core => core.state = host.state ∨ core.state = .idle) hpacket
    (fun hmove hI => Core.over_move hover hpacket hmove hI) (.inl rfl)

/-- The final reply of a transaction on `channel` is queued: the response comes under way,
and `last` is its last report. -/
structure FinalReply (host host' : Host R) (channel : UInt32) (last : OutgoingFrame) : Prop where
  before : host.state.isTransmitting = false
  after : host'.state = .transmitting channel last.token
  queued : last ∈ host'.pending
  fresh : host.nextToken ≤ last.token
  addressed : last.frame.addressedTo channel = true

def Delivers (host : Host R) (call : Call) (outgoing : OutgoingFrame) : Prop :=
  host.nextOutgoingFrame = some outgoing ∧
    (call = .event .written ∨ ∃ frame, call = .written frame ∧ frame.token = outgoing.token)

/-- A response that comes under way without packets is a final reply. -/
theorem exists_finalReply {token : ℕ} (hpacket : call.isPacket = false)
    (hfree : host.state.isTransmitting = false)
    (hstate : (host.call call).state = .transmitting channel token) :
    ∃ last, FinalReply host (host.call call) channel last := by
  have hnotSame : (host.call call).state ≠ host.state := fun hsame => by
    rw [hsame] at hstate
    rw [hstate] at hfree
    cases hfree
  rcases host.call_cases call with hqueues | ⟨frame, now, rfl, -⟩ | ⟨head, -, hwrites⟩
  · rcases hqueues.state with hsame | ⟨-, hnew⟩
    · exact absurd hsame hnotSame
    · obtain ⟨hfresh, last, hmem, rfl, haddressed⟩ := hnew channel token hstate
      exact ⟨last, hfree, hstate, hmem, hfresh, haddressed⟩
  · cases hpacket
  · rcases hwrites.state with ⟨c, hc, -⟩ | ⟨-, hsame⟩
    · rw [hc] at hfree
      cases hfree
    · exact absurd hsame hnotSame

/-- Without packets only the head leaves the queue, and only when it is written. -/
theorem delivers_of_leaves {outgoing : OutgoingFrame} (hpacket : call.isPacket = false)
    (hmem : outgoing ∈ host.pending) (hgone : outgoing ∉ (host.call call).pending) :
    host.Delivers call outgoing := by
  rcases host.call_cases call with hqueues | ⟨frame, now, rfl, -⟩ | ⟨head, hcall, hwrites⟩
  · exact absurd (hqueues.subset outgoing hmem) hgone
  · cases hpacket
  · rw [hwrites.pending] at hmem
    rcases List.mem_cons.mp hmem with rfl | hmem
    · exact ⟨by rw [nextOutgoingFrame, hwrites.pending]; rfl, hcall⟩
    · exact absurd hmem hgone

end Calls

end Host

/-- From here on no packets arrive. Requests are offered to the application whenever it is
free, and it answers each; what is queued is written from the head, and timeouts pass every
deadline. -/
structure Undisturbed {R : Type} [CryptoRng R] (host : ℕ → Host R) (call : ℕ → Call) : Prop where
  goes : (callMachine R).Goes host call
  quiet : ∀ n, (call n).isPacket = false
  offered : ∀ n, (host n).appBusy = false → ∃ m, n ≤ m ∧ call m = .event .take
  answered : ∀ n, (host n).appBusy = true → ∃ m, n ≤ m ∧ ∃ response now finished,
    call m = .event (.answer response now finished)
  written : ∀ n, (host n).pending ≠ [] → ∃ m, n ≤ m ∧ call m = .event .written
  timeouts : ∀ n deadline, (host n).nextDeadline = some deadline →
    ∃ m, n ≤ m ∧ ∃ now, deadline ≤ now ∧ call m = .event (.timeout now)

namespace Undisturbed

variable {R : Type} [CryptoRng R] {host : ℕ → Host R} {call : ℕ → Call}

variable {n : ℕ} (h : Undisturbed host call)

include h

theorem next (n : ℕ) : host (n + 1) = (host n).call (call n) := h.goes n

theorem work_le {m : ℕ} (hnm : n ≤ m) : (host m).work ≤ (host n).work := by
  induction m, hnm using Nat.le_induction with
  | base => exact le_rfl
  | succ m _ ih =>
    rw [h.next m]
    exact le_trans ((host m).work_call_le (h.quiet m)) ih

theorem eventually_free : ∃ last, ∀ n, last ≤ n → (host n).work = 0 := by
  have hprogress : ∀ n, 0 ≤ n → (host n).work ≠ 0 →
      ∃ m, n ≤ m ∧ (host (m + 1)).work < (host n).work := by
    intro n _ hwork
    cases hbusy : (host n).appBusy with
    | true =>
      obtain ⟨m, hnm, response, now, finished, hcall⟩ := h.answered n hbusy
      refine ⟨m, hnm, ?_⟩
      have hle := h.work_le hnm
      rw [h.next m]
      cases hsame : (host m).appBusy with
      | true =>
        rw [hcall]
        exact lt_of_lt_of_le ((host m).work_answer_lt hsame response now finished) hle
      | false =>
        -- It was answered before.
        refine lt_of_le_of_lt ((host m).work_call_le (h.quiet m)) ?_
        simp only [Host.work, hbusy, hsame, Bool.toNat_true, Bool.toNat_false] at hle ⊢
        omega
    | false =>
      obtain ⟨m, hnm, hcall⟩ := h.offered n hbusy
      refine ⟨m, hnm, ?_⟩
      have hle := h.work_le hnm
      have hheld : (host n).state.isHeld = true := by
        cases hheld : (host n).state.isHeld with
        | true => rfl
        | false => simp [Host.work, hbusy, hheld] at hwork
      rw [h.next m]
      cases hwaits : (host m).state.isHeld with
      | true =>
        cases hfree : (host m).appBusy with
        | false =>
          rw [hcall]
          exact lt_of_lt_of_le ((host m).work_take_lt hfree hwaits) hle
        | true =>
          simp [Host.work, hbusy, hheld, hwaits, hfree] at hle
      | false =>
        -- It was handed out before.
        refine lt_of_le_of_lt ((host m).work_call_le (h.quiet m)) ?_
        have hone := Bool.toNat_le (host m).appBusy
        simp only [Host.work, hbusy, hheld, hwaits, Bool.toNat_true, Bool.toNat_false]
        omega
  obtain ⟨last, -, hlast⟩ := eventually_zero (fun n _ => h.work_le (Nat.le_succ n)) hprogress
  exact ⟨last, hlast⟩

theorem bounded (hbounded : (host 0).core.Bounded) (n : ℕ) : (host n).core.Bounded :=
  h.goes.invariant (I := fun host => host.core.Bounded)
    (fun n hn => Host.bounded_call hn (call n)) hbounded n (Nat.zero_le n)

variable {start : ℕ}

theorem wanes (hfree : (host start).core.Free) (hn : start ≤ n) :
    Core.Wanes (host start).core (host n).core :=
  h.goes.invariant (I := fun host' => Core.Wanes (host start).core host'.core)
    (fun n hwanes => (host n).quiet_keeps (h.quiet n)
      (fun hmove hw => hw.move (h.quiet n) hmove) hwanes)
    ⟨hfree, .inl rfl, .inl rfl, .inl rfl⟩ n hn

theorem eventually_spent (hfree : (host start).core.Free) :
    ∃ last, start ≤ last ∧ ∀ n, last ≤ n → (host n).Spent := by
  have hfree' : ∀ {n}, start ≤ n → (host n).core.Free := fun hn => (h.wanes hfree hn).free
  have hle : ∀ {n m}, start ≤ n → n ≤ m → (host m).core.timersLeft ≤ (host n).core.timersLeft :=
    fun hn hnm => (h.wanes (hfree' hn) hnm).timersLeft_le
  have hprogress : ∀ n, start ≤ n → (host n).core.timersLeft ≠ 0 →
      ∃ m, n ≤ m ∧ (host (m + 1)).core.timersLeft < (host n).core.timersLeft := by
    intro n hn hleft
    -- Something runs, so that there is a next deadline.
    have hdeadline : ∃ deadline, (host n).nextDeadline = some deadline := by
      refine Option.isSome_iff_exists.mp (Option.isSome_iff_ne_none.mpr fun hnone => hleft ?_)
      have hempty : (host n).timers = [] := List.min?_eq_none_iff.mp hnone
      simp only [Host.timers_of_free (hfree' hn), List.append_eq_nil_iff, Option.toList_eq_nil_iff,
        Option.map_eq_none_iff] at hempty
      obtain ⟨⟨htimer, hu2f⟩, hlease⟩ := hempty
      simp [Core.timersLeft, Host.core, htimer, hu2f, hlease]
    obtain ⟨deadline, hdeadline⟩ := hdeadline
    obtain ⟨m, hnm, now, hpassed, hcall⟩ := h.timeouts n deadline hdeadline
    refine ⟨m, hnm, lt_of_not_ge fun hsame => ?_⟩
    -- If nothing had run out, the deadline would be the same, and it has passed.
    have hlater : start ≤ m + 1 := le_trans hn (le_trans hnm (Nat.le_succ m))
    obtain ⟨hlease, hu2f, htimer⟩ :=
      (h.wanes (hfree' hn) (le_trans hnm (Nat.le_succ m))).same hsame
    have htimers : (host (m + 1)).timers = (host n).timers := by
      rw [Host.timers_of_free (hfree' hlater), Host.timers_of_free (hfree' hn)]
      rw [show (host (m + 1)).lease = (host n).lease from hlease,
        show (host (m + 1)).u2f = (host n).u2f from hu2f,
        show (host (m + 1)).state.timer = (host n).state.timer from htimer]
    have hcaught : (host (m + 1)).Caught now := by
      rw [h.next m, hcall]
      exact (host m).caught_handleTimeout now
    have hahead := Host.awake_iff.mp (hcaught.awake_of_free (hfree' hlater)) deadline (by
      change (host (m + 1)).timers.min? = _
      rw [htimers]
      exact hdeadline)
    omega
  obtain ⟨last, hlast, hzero⟩ := eventually_zero (fun n hn => hle hn (Nat.le_succ n)) hprogress
  exact ⟨last, hlast, fun n hn =>
    Host.spent_of_timersLeft (hfree' (le_trans hlast hn)) (hzero n hn)⟩

theorem eventually_written (hbounded : (host 0).core.Bounded)
    (hspent : ∀ n, start ≤ n → (host n).Spent) :
    ∃ last, start ≤ last ∧ ∀ n, last ≤ n → (host n).pending = [] := by
  have hdown : ∀ n, start ≤ n → (host (n + 1)).pending.length ≤ (host n).pending.length := by
    intro n hn
    rw [h.next n]
    cases hwritten : (call n).isWritten with
    | true => exact (host n).pending_written_le hwritten
    | false =>
      rw [(hspent n hn).pending_call (h.bounded hbounded n).coherent (h.quiet n) hwritten]
  have hle : ∀ {n m}, start ≤ n → n ≤ m → (host m).pending.length ≤ (host n).pending.length := by
    intro n m hn hnm
    induction m, hnm using Nat.le_induction with
    | base => exact le_rfl
    | succ m hnm ih => exact le_trans (hdown m (le_trans hn hnm)) ih
  have hprogress : ∀ n, start ≤ n → (host n).pending.length ≠ 0 →
      ∃ m, n ≤ m ∧ (host (m + 1)).pending.length < (host n).pending.length := by
    intro n hn hpending
    obtain ⟨m, hnm, hcall⟩ := h.written n (fun hnil => hpending (by rw [hnil]; rfl))
    refine ⟨m, hnm, ?_⟩
    have hlength := hle hn hnm
    have htail : (host (m + 1)).pending = (host m).pending.tail := by
      rw [h.next m, hcall]
      exact Host.pending_headWritten
    rw [htail, List.length_tail]
    omega
  obtain ⟨last, hlast, hzero⟩ := eventually_zero hdown hprogress
  exact ⟨last, hlast, fun n hn => List.length_eq_zero_iff.mp (hzero n hn)⟩

/-- A report that leaves the queue at some time is written. -/
theorem exists_delivers {outgoing : OutgoingFrame} {last : ℕ} (hmem : outgoing ∈ (host n).pending)
    (hnl : n ≤ last) (hempty : (host last).pending = []) :
    ∃ m, n ≤ m ∧ (host m).Delivers (call m) outgoing := by
  by_contra hnever
  have hkept : ∀ m, n ≤ m → outgoing ∈ (host m).pending := by
    intro m hnm
    induction m, hnm using Nat.le_induction with
    | base => exact hmem
    | succ m hnm ih =>
      by_contra hgone
      rw [h.next m] at hgone
      exact hnever ⟨m, hnm, Host.delivers_of_leaves (h.quiet m) ih hgone⟩
  have hmem' := hkept last hnl
  rw [hempty] at hmem'
  cases hmem'

theorem not_finalReply_of_over
    (hover : (host start).state = .idle ∨ (host start).state.isTransmitting = true) (hn : start ≤ n)
    (channel : UInt32) (last : OutgoingFrame) :
    ¬(host n).FinalReply (host (n + 1)) channel last := by
  have hrun : ∀ n, start ≤ n → (host n).state = .idle ∨ (host n).state.isTransmitting = true := by
    intro n hn
    induction n, hn using Nat.le_induction with
    | base => exact hover
    | succ n _ ih =>
      rw [h.next n]
      rcases Host.over_call ih (h.quiet n) with hsame | hidle
      · rw [hsame]
        exact ih
      · exact .inl hidle
  intro hreply
  rcases hrun n hn with hidle | htransmitting
  · have hstate := hreply.after
    rw [h.next n] at hstate
    rcases Host.over_call (.inl hidle) (h.quiet n) with hsame | hidle'
    · rw [hsame, hidle] at hstate
      cases hstate
    · rw [hidle'] at hstate
      cases hstate
  · rw [hreply.before] at htransmitting
    cases htransmitting

/-- A transaction whose message was complete gets its final reply once, on its channel. -/
theorem finalReply_once (hbounded : (host 0).core.Bounded)
    (hawaits : (host 0).state.awaits = some channel) {rest : ℕ}
    (hidle : (host rest).state = .idle) :
    ∃ n last, (host n).FinalReply (host (n + 1)) channel last ∧
      ∀ m channel' last', (host m).FinalReply (host (m + 1)) channel' last' → m = n := by
  -- The reply is queued by the last call before which the transaction waits.
  have hexists : ∃ n, (host n).state.awaits ≠ some channel := ⟨rest, by simp [hidle, State.awaits]⟩
  classical
  obtain ⟨n, hn⟩ : ∃ n, Nat.find hexists = n + 1 :=
    Nat.exists_eq_succ_of_ne_zero fun hzero => (Nat.find_eq_zero hexists).mp hzero hawaits
  have hwaits : ∀ m, m ≤ n → (host m).state.awaits = some channel := fun m hm =>
    not_not.mp (Nat.find_min hexists (by omega))
  have hend : (host (n + 1)).state.awaits ≠ some channel := hn ▸ Nat.find_spec hexists
  obtain ⟨token, htoken⟩ : ∃ token, (host (n + 1)).state = .transmitting channel token := by
    rw [h.next n] at hend ⊢
    exact (Host.answering_call (h.bounded hbounded n).coherent (h.quiet n)
      (hwaits n le_rfl)).resolve_left hend
  have hfree : (host n).state.isTransmitting = false := by
    have hwait := hwaits n le_rfl
    cases hstate : (host n).state with
    | transmitting c t =>
      rw [hstate] at hwait
      cases hwait
    | _ => rfl
  rw [h.next n] at htoken
  obtain ⟨last, hlast⟩ := Host.exists_finalReply (h.quiet n) hfree htoken
  rw [← h.next n] at hlast
  refine ⟨n, last, hlast, fun m channel' last' hreply => ?_⟩
  by_contra hne
  rcases Nat.lt_or_gt_of_ne hne with hbefore | hafter
  · -- Until then the transaction waits.
    have hwait := hwaits (m + 1) hbefore
    rw [hreply.after] at hwait
    cases hwait
  · have hover : (host (n + 1)).state.isTransmitting = true := by
      rw [hlast.after]
      rfl
    exact h.not_finalReply_of_over (.inr hover) hafter channel' last' hreply

end Undisturbed

/-- Once no more packets arrive and the transport and the application do their part, the host
comes to rest, and a transaction whose message was complete gets one final reply. -/
theorem host_settles {R : Type} [CryptoRng R] (rng : R) (version : Version) (capabilities : UInt8)
    (before : List Call) (host : ℕ → Host R) (call : ℕ → Call)
    (hstart : host 0 = (callMachine R).run (Host.withRng rng version capabilities) before)
    (h : Undisturbed host call) :
    (∃ rest, ∀ n, rest ≤ n → (host n).state = .idle ∧ (host n).pending = [] ∧
      (host n).heldRequests = [] ∧ (host n).appBusy = false ∧ (host n).lease = none ∧
      (host n).u2f = none) ∧
    (∀ channel, (host 0).state.awaits = some channel →
      ∃ n last, (host n).FinalReply (host (n + 1)) channel last ∧
        (∃ m, n < m ∧ (host m).Delivers (call m) last) ∧
        ∀ m channel' last', (host m).FinalReply (host (m + 1)) channel' last' → m = n) ∧
    (∀ channel token, (host 0).state = .transmitting channel token →
      (∃ last ∈ (host 0).pending, last.token = token ∧ last.frame.addressedTo channel = true ∧
        ∃ m, (host m).Delivers (call m) last) ∧
      ∀ n channel' last', ¬(host n).FinalReply (host (n + 1)) channel' last') := by
  have hbounded : (host 0).core.Bounded := by
    rw [hstart]
    exact Host.bounded_run (Host.bounded_withRng rng version capabilities) before
  have horder : ∀ n, (host n).InOrder := fun n =>
    h.goes.invariant (I := Host.InOrder) (fun n hn => hn.call (call n))
      (hstart ▸ Host.inOrder_run rng version capabilities before) n (Nat.zero_le n)
  -- The application finishes, the timers run out, and the queue is written.
  obtain ⟨free, hwork⟩ := h.eventually_free
  have hfree : (host free).core.Free :=
    Host.free_of_work (h.bounded hbounded free).coherent (hwork free le_rfl)
  obtain ⟨spent, hfs, hspent⟩ := h.eventually_spent hfree
  obtain ⟨rest, hsr, hempty⟩ := h.eventually_written hbounded hspent
  have hidle : ∀ n, rest ≤ n → (host n).state = .idle := by
    intro n hn
    rcases (hspent n (le_trans hsr hn)).state with hidle | ⟨channel, token, hstate⟩
    · exact hidle
    · obtain ⟨outgoing, hmem, -⟩ := (horder n).final channel token hstate
      rw [hempty n hn] at hmem
      cases hmem
  refine ⟨⟨rest, fun n hn => ?_⟩, fun channel hawaits => ?_, fun channel token hstate => ⟨?_, ?_⟩⟩
  · have hspent' := hspent n (le_trans hsr hn)
    refine ⟨hidle n hn, hempty n hn, ?_, ?_, hspent'.lease, hspent'.u2f⟩
    · rw [Host.heldRequests, hidle n hn]
    · have hbusy := (h.bounded hbounded n).coherent.busy
      rw [hspent'.free.command] at hbusy
      exact hbusy
  · obtain ⟨n, last, hreply, honce⟩ := h.finalReply_once hbounded hawaits (hidle rest le_rfl)
    obtain ⟨m, hnm, hdelivers⟩ := h.exists_delivers hreply.queued (le_max_left (n + 1) rest)
      (hempty _ (le_max_right (n + 1) rest))
    exact ⟨n, last, hreply, ⟨m, hnm, hdelivers⟩, honce⟩
  · obtain ⟨last, hmem, htoken, haddressed⟩ := (horder 0).final channel token hstate
    obtain ⟨m, -, hdelivers⟩ := h.exists_delivers hmem (Nat.zero_le rest) (hempty rest le_rfl)
    exact ⟨last, hmem, htoken, haddressed, m, hdelivers⟩
  · have hover : (host 0).state.isTransmitting = true := by
      rw [hstate]
      rfl
    exact fun n channel' last' =>
      h.not_finalReply_of_over (.inr hover) (Nat.zero_le n) channel' last'

def shortRequestCalls : List Call :=
  (Host.messageFrames 5 .cbor [4]).map fun frame => .event (.packet frame 0)

def settlingCall : ℕ → Call
  | 1 => .event (.answer [0] 10 none)
  | 2 => .event .written
  | 3 => .event (.timeout 1000000)
  | _ => .event .take

def settlingHost : ℕ → Host Draws
  | 0 => (callMachine Draws).run freshHost shortRequestCalls
  | n + 1 => (settlingHost n).call (settlingCall n)

theorem settlingHost_add (n : ℕ) : settlingHost (n + 4) = settlingHost 4 := by
  induction n with
  | zero => rfl
  | succ n ih =>
    have hnone : (settlingHost 4).takeAppRequest = (settlingHost 4, none) := by
      rcases (settlingHost 4).takeAppRequest_cases with ⟨-, hheld, -⟩ | ⟨-, hnone⟩
      · exact absurd hheld (by decide +kernel)
      · exact hnone
    change (settlingHost (n + 4)).takeAppRequest.1 = _
    rw [ih, hnone]

/-- What the host does no more after the fourth call, it does only before. -/
theorem le_of_settlingHost {P : Host Draws → Prop} (hnot : ¬P (settlingHost 4)) {n : ℕ}
    (h : P (settlingHost n)) : n ≤ 3 := by
  by_contra hlarge
  obtain ⟨k, rfl⟩ : ∃ k, n = k + 4 := ⟨n - 4, by omega⟩
  rw [settlingHost_add] at h
  exact hnot h

theorem undisturbed_settlingHost : Undisturbed settlingHost settlingCall where
  goes n := rfl
  quiet n := by
    unfold settlingCall
    split
    · rfl
    · rfl
    · rfl
    · rfl
  offered n _ := ⟨n + 4, by omega, rfl⟩
  answered n hbusy := by
    have hn := le_of_settlingHost (P := fun host => host.appBusy = true) (by decide +kernel) hbusy
    have hfirst : ∀ n ≤ 3, (settlingHost n).appBusy = true → n ≤ 1 := by decide +kernel
    exact ⟨1, hfirst n hn hbusy, [0], 10, none, rfl⟩
  written n hpending := by
    have hn := le_of_settlingHost (P := fun host => host.pending ≠ []) (by decide +kernel) hpending
    have hfirst : ∀ n ≤ 3, (settlingHost n).pending ≠ [] → n ≤ 2 := by decide +kernel
    exact ⟨2, hfirst n hn hpending, rfl⟩
  timeouts n deadline hdeadline := by
    have hn := le_of_settlingHost (P := fun host => host.nextDeadline = some deadline)
      (fun h => by rw [show (settlingHost 4).nextDeadline = none by decide +kernel] at h; cases h)
      hdeadline
    have hbound : ∀ n ≤ 3, ∀ deadline ∈ (settlingHost n).nextDeadline, deadline ≤ 1000000 := by
      decide +kernel
    exact ⟨3, hn, 1000000, hbound n hn deadline hdeadline, rfl⟩

theorem host_settles_short :
    (settlingHost 0).state.awaits = some 5 ∧
    ∃ n last, (settlingHost n).FinalReply (settlingHost (n + 1)) 5 last ∧
      ∃ m, n < m ∧ (settlingHost m).Delivers (settlingCall m) last := by
  have hawaits : (settlingHost 0).state.awaits = some 5 := by decide +kernel
  obtain ⟨n, last, hreply, hdelivered, -⟩ :=
    (host_settles (⟨[]⟩ : Draws) ⟨0, 0, 0⟩ 0 shortRequestCalls settlingHost settlingCall rfl
      undisturbed_settlingHost).2.1 5 hawaits
  exact ⟨hawaits, n, last, hreply, hdelivered⟩

end SoftwareAuthenticator.Ctaphid
