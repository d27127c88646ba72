import SoftwareAuthenticator.Ctaphid.Noninterference

/-!
# The host without some of its reports

A run from which packets were deleted queues fewer reports. The shadow of a host lacks the
reports with the dropped tokens and counts only the others.
-/

namespace SoftwareAuthenticator.Ctaphid

variable {a b : ℕ}

def rank (dropped : List ℕ) (token : ℕ) : ℕ :=
  (List.range token).countP fun t => t ∉ dropped

theorem rank_succ (dropped : List ℕ) (token : ℕ) :
    rank dropped (token + 1) = rank dropped token + if token ∈ dropped then 0 else 1 := by
  simp only [rank, List.range_succ, List.countP_append, List.countP_singleton]
  by_cases h : token ∈ dropped <;> simp [h]

theorem rank_nil (token : ℕ) : rank [] token = token := by simp [rank]

theorem rank_mono (dropped : List ℕ) (h : a ≤ b) : rank dropped a ≤ rank dropped b := by
  induction h with
  | refl => exact le_refl _
  | step _ ih =>
    rw [rank_succ]
    omega

variable {dropped : List ℕ}

theorem rank_lt (ha : a ∉ dropped) (h : a < b) : rank dropped a < rank dropped b := by
  have hsucc := rank_succ dropped a
  rw [if_neg ha] at hsucc
  have hmono := rank_mono dropped (Nat.succ_le_of_lt h)
  rw [Nat.succ_eq_add_one] at hmono
  omega

theorem rank_inj (ha : a ∉ dropped) (hb : b ∉ dropped) :
    rank dropped a = rank dropped b ↔ a = b := by
  refine ⟨fun h => ?_, fun h => by rw [h]⟩
  rcases Nat.lt_trichotomy a b with hab | hab | hab
  · have := rank_lt ha hab
    omega
  · exact hab
  · have := rank_lt hb hab
    omega

/-- Beyond the dropped tokens the ranks are consecutive. -/
theorem rank_add {token : ℕ} (h : ∀ t ∈ dropped, t < token) (n : ℕ) :
    rank dropped (token + n) = rank dropped token + n := by
  induction n with
  | zero => rfl
  | succ n ih =>
    have hnot : token + n ∉ dropped := fun hmem => by
      have := h _ hmem
      omega
    rw [← Nat.add_assoc, rank_succ, ih, if_neg hnot, Nat.add_assoc]

theorem rank_append {tokens : List ℕ} {token : ℕ} (h : ∀ t ∈ tokens, token ≤ t) (ha : a ≤ token) :
    rank (dropped ++ tokens) a = rank dropped a := by
  unfold rank
  apply List.countP_congr
  intro t ht
  have hlt : t < a := by simpa using ht
  have hnot : t ∉ tokens := fun hmem => by
    have := h t hmem
    omega
  simp [hnot]

/-- In what a host and its shadow may differ beside their reports. -/
structure Likeness where
  channels : Channels → Channels → Prop
  polls : List DeniedPoll → List DeniedPoll → Prop
  touch {a b : Channels} (id : UInt32) : channels a b → channels (a.touch id) (b.touch id)
  contains {a b : Channels} (id : UInt32) : channels a b → b.contains id = a.contains id
  refl (a : List DeniedPoll) : polls a a
  filter {a b : List DeniedPoll} (channel : UInt32) : polls a b → polls
    (a.filter fun poll => poll.channel ≠ channel) (b.filter fun poll => poll.channel ≠ channel)
  append {a b : List DeniedPoll} (poll : DeniedPoll) :
    polls a b → polls (a ++ [poll]) (b ++ [poll])

variable {l : Likeness}

/-- At `now` two tables of refusals have the same to say about every request. -/
structure Likeness.Agrees (l : Likeness) (now : ℕ) (a b : List DeniedPoll) : Prop where
  retain : Host.retainRecentDenied now a = Host.retainRecentDenied now b
  refresh (channel : UInt32) (request : Bytes) : Option.Rel l.polls
    (Host.refreshDenied channel request now a) (Host.refreshDenied channel request now b)

def Likeness.Allocates (l : Likeness) : Prop :=
  ∀ (a b : Channels) (id : UInt32), l.channels a b →
    Option.Rel l.channels (a.insert id) (b.insert id)

/-- Every dropped token was given out, and the response under way is not dropped. -/
structure Likeness.Fits (l : Likeness) (dropped : List ℕ) (state : State) (nextToken : ℕ)
    (ids : Channels) (denied : List DeniedPoll) (channels : Channels)
    (polls : List DeniedPoll) : Prop where
  dropped_lt : ∀ t ∈ dropped, t < nextToken
  final : ∀ channel t, state = .transmitting channel t → t ∉ dropped
  channels : l.channels ids channels
  polls : l.polls denied polls

def State.renumber (f : ℕ → ℕ) : State → State
  | .transmitting channel finalFrame => .transmitting channel (f finalFrame)
  | state => state

namespace Host

variable {R : Type}

def shadow (dropped : List ℕ) (channels : Channels) (polls : List DeniedPoll) (host : Host R) :
    Host R :=
  { host with
    state := host.state.renumber (rank dropped)
    pending := (host.pending.filter fun outgoing => outgoing.token ∉ dropped).map
      fun outgoing => ⟨outgoing.frame, rank dropped outgoing.token⟩
    nextToken := rank dropped host.nextToken
    channels := channels
    deniedPolls := polls }

def Shadowed (l : Likeness) (dropped : List ℕ) (host host' : Host R) : Prop :=
  ∃ channels polls, l.Fits dropped host.state host.nextToken host.channels host.deniedPolls
    channels polls ∧ host' = host.shadow dropped channels polls

def Shadowing (l : Likeness) (f : Host R → Host R) : Prop :=
  ∀ ⦃dropped host host'⦄, Shadowed l dropped host host' → Shadowed l dropped (f host) (f host')

def ShadowingAt (l : Likeness) (now : ℕ) (f : Host R → Host R) : Prop :=
  ∀ ⦃dropped host host'⦄, Shadowed l dropped host host' →
    l.Agrees now host.deniedPolls host'.deniedPolls → Shadowed l dropped (f host) (f host')

theorem shadow_fields (dropped : List ℕ) (channels : Channels) (polls : List DeniedPoll)
    (host : Host R) :
    (host.shadow dropped channels polls).state = host.state.renumber (rank dropped) ∧
      (host.shadow dropped channels polls).lease = host.lease ∧
      (host.shadow dropped channels polls).message = host.message ∧
      (host.shadow dropped channels polls).u2f = host.u2f ∧
      (host.shadow dropped channels polls).channels = channels ∧
      (host.shadow dropped channels polls).deniedPolls = polls ∧
      (host.shadow dropped channels polls).appBusy = host.appBusy ∧
      (host.shadow dropped channels polls).appCommand = host.appCommand ∧
      (host.shadow dropped channels polls).taken = host.taken :=
  ⟨rfl, rfl, rfl, rfl, rfl, rfl, rfl, rfl, rfl⟩

private theorem shadow_numbered {token : ℕ} (h : ∀ t ∈ dropped, t < token) (frames : List Frame) :
    ((numbered token frames).filter fun outgoing => outgoing.token ∉ dropped).map
        (fun outgoing => (⟨outgoing.frame, rank dropped outgoing.token⟩ : OutgoingFrame)) =
      numbered (rank dropped token) frames := by
  induction frames generalizing token with
  | nil => rfl
  | cons frame frames ih =>
    have hnot : token ∉ dropped := fun hmem => lt_irrefl _ (h token hmem)
    have hsucc : rank dropped (token + 1) = rank dropped token + 1 := rank_add h 1
    have hnext : ∀ t ∈ dropped, t < token + 1 := fun t ht => Nat.lt_succ_of_lt (h t ht)
    have hih := ih hnext
    simp only [numbered, List.filter_cons, hnot, not_false_eq_true, decide_true, if_true,
      List.map_cons, hih, hsucc]

theorem shadow_pushFrames {host : Host R} (h : ∀ t ∈ dropped, t < host.nextToken)
    (channels : Channels) (polls : List DeniedPoll) (frames : List Frame) :
    (host.shadow dropped channels polls).pushFrames frames =
      (host.pushFrames frames).shadow dropped channels polls := by
  have hrank := rank_add h frames.length
  have hnumbered := shadow_numbered h frames
  simp only [pushFrames, shadow, List.filter_append, List.map_append, hrank, hnumbered]

theorem shadowing_pushFrames (frames : List Frame) :
    Shadowing l fun host : Host R => host.pushFrames frames := by
  rintro dropped host _ ⟨channels, polls, h, rfl⟩
  refine ⟨channels, polls, { h with dropped_lt := fun t ht => ?_ },
    shadow_pushFrames h.dropped_lt channels polls frames⟩
  exact Nat.lt_add_right _ (h.dropped_lt t ht)

theorem shadowing_enqueue (channel : UInt32) (command : Command) (payload : Bytes) :
    Shadowing l fun host : Host R => enqueueMessage host channel command payload := by
  rintro dropped host _ ⟨channels, polls, h, rfl⟩
  have hlen : 0 < (framesOf channel command payload).length :=
    List.length_pos_of_ne_nil (framesOf_ne_nil channel command payload)
  have hfinal : finalToken (host.shadow dropped channels polls) channel command payload =
      rank dropped (finalToken host channel command payload) := by
    have hrank := rank_add h.dropped_lt ((framesOf channel command payload).length - 1)
    simp only [finalToken, shadow]
    rw [Nat.add_sub_assoc hlen, Nat.add_sub_assoc hlen, hrank]
  simp only [enqueueMessage_eq, hfinal, shadow_pushFrames h.dropped_lt]
  refine ⟨channels, polls, ⟨fun t ht => ?_, ?_, h.channels, h.polls⟩, rfl⟩
  · exact Nat.lt_add_right _ (h.dropped_lt t ht)
  · rintro _ _ ⟨⟩ hmem
    have := h.dropped_lt _ hmem
    simp only [finalToken] at this
    omega

section Calls

variable {host host' : Host R} (channel : UInt32)

theorem shadowing_enqueueError (code : ErrorCode) :
    Shadowing l fun host : Host R => host.enqueueError channel code := by
  intro dropped host host' h
  simp only [enqueueError_eq]
  exact shadowing_pushFrames _ h

theorem shadowing_expireLease (now : ℕ) :
    Shadowing l fun host : Host R => host.expireLease now := by
  rintro dropped host _ ⟨channels, polls, h, rfl⟩
  simp only [Host.expireLease, shadow_fields]
  split
  · split
    · exact ⟨_, _, h, rfl⟩
    · exact ⟨_, _, h, rfl⟩
  · exact ⟨_, _, h, rfl⟩

theorem shadowing_processMessage (command : Command) (now : ℕ) :
    Shadowing l fun host : Host R => host.processMessage channel command now := by
  rintro dropped host _ ⟨channels, polls, h, rfl⟩
  exact ⟨_, _, { h with final := nofun }, rfl⟩

theorem shadowing_completeUnpolled (now : ℕ) :
    ShadowingAt l now fun host : Host R => host.completeUnpolled channel now := by
  rintro dropped host _ ⟨channels, polls, h, rfl⟩ hagrees
  have hrefresh := hagrees.refresh channel host.message
  have hretain := hagrees.retain
  simp only [Host.completeUnpolled, shadow_fields] at hrefresh hretain ⊢
  rw [← hretain]
  generalize refreshDenied channel host.message now host.deniedPolls = first at hrefresh ⊢
  generalize refreshDenied channel host.message now polls = second at hrefresh ⊢
  cases hrefresh with
  | some hpolls =>
    apply shadowing_enqueue
    exact ⟨_, _, ⟨h.dropped_lt, nofun, h.channels, hpolls⟩, rfl⟩
  | none =>
    dsimp only
    split
    · apply shadowing_enqueue
      exact ⟨_, _, { h with polls := l.refl _ }, rfl⟩
    · apply shadowing_processMessage
      exact ⟨_, _, { h with polls := l.refl _ }, rfl⟩

theorem shadowing_completeMsg (now : ℕ) :
    ShadowingAt l now fun host : Host R => host.completeMsg channel now := by
  rintro dropped host _ ⟨channels, polls, h, rfl⟩ hagrees
  have hunpolled : ∀ u2f, Shadowed l dropped (completeUnpolled { host with u2f } channel now)
      (completeUnpolled { host.shadow dropped channels polls with u2f } channel now) :=
    fun u2f => shadowing_completeUnpolled channel now ⟨_, _, h, rfl⟩ hagrees
  simp only [Host.completeMsg, shadow_fields]
  split
  · exact hunpolled host.u2f
  · split
    · split
      · apply shadowing_enqueue
        exact ⟨_, _, { h with final := nofun }, rfl⟩
      · split
        · exact hunpolled _
        · apply shadowing_enqueue
          exact ⟨_, _, { h with final := nofun }, rfl⟩
    · split
      · apply shadowing_enqueue
        exact ⟨_, _, h, rfl⟩
      · exact hunpolled host.u2f

theorem shadowing_completeMessage (command : Command) (now : ℕ) :
    ShadowingAt l now fun host : Host R => host.completeMessage channel command now := by
  rintro dropped host _ ⟨channels, polls, h, rfl⟩ hagrees
  unfold Host.completeMessage
  split
  · exact ⟨_, _, { h with final := nofun }, rfl⟩
  · simp only [completeLock, shadow_fields]
    split
    · apply shadowing_enqueue
      exact ⟨_, _, h, rfl⟩
    · apply shadowing_enqueue
      exact ⟨_, _, h, rfl⟩
  · exact shadowing_completeMsg channel now ⟨_, _, h, rfl⟩ hagrees
  · apply shadowing_enqueue
    exact ⟨_, _, { h with final := nofun }, rfl⟩
  · exact shadowing_processMessage _ _ _ ⟨_, _, h, rfl⟩

theorem shadowing_startMessage (command : Option Command) (length : ℕ) (data : Bytes) (now : ℕ) :
    ShadowingAt l now fun host : Host R => host.startMessage channel command length data now := by
  intro dropped host host' h hagrees
  have hrefuse := fun code => shadowing_enqueue channel .error [ErrorCode.toU8 code] h
  unfold Host.startMessage
  split
  · exact hrefuse _
  · split
    · exact hrefuse _
    · split
      · exact hrefuse _
      · split
        · exact hrefuse _
        · obtain ⟨channels, polls, h, rfl⟩ := h
          dsimp only
          split
          · exact shadowing_completeMessage _ _ _ ⟨_, _, h, rfl⟩ hagrees
          · exact ⟨_, _, { h with final := nofun }, rfl⟩

section Shadow

variable {channels : Channels} {polls : List DeniedPoll}

@[simp] theorem shadow_stateChannel :
    (host.shadow dropped channels polls).state.channel = host.state.channel := by
  cases hs : host.state <;> simp [shadow, State.renumber, State.channel, hs]

@[simp] theorem shadow_busyChannel :
    (host.shadow dropped channels polls).busyChannel = host.busyChannel := by
  rw [busyChannel_eq, busyChannel_eq, shadow_stateChannel]
  rfl

theorem shadow_state_eq_idle :
    (host.shadow dropped channels polls).state = .idle ↔ host.state = .idle := by
  cases hs : host.state <;> simp [shadow, State.renumber, hs]

theorem shadow_refusedWhileBusy (busy channel : UInt32) (command : Option Command) :
    (host.shadow dropped channels polls).refusedWhileBusy busy channel command =
      host.refusedWhileBusy busy channel command := by
  cases hs : host.state <;> simp [refusedWhileBusy, shadow, State.renumber, hs]

@[simp] theorem shadow_servesMsg :
    (host.shadow dropped channels polls).servesMsg = host.servesMsg := by
  cases hs : host.state <;> simp only [servesMsg, shadow_fields, State.renumber, hs]

@[simp] theorem shadow_isLate (poll : U2fPoll) (now : ℕ) (presenceFinished : Option ℕ) :
    (host.shadow dropped channels polls).isLate poll now presenceFinished =
      host.isLate poll now presenceFinished := by
  rw [isLate, isLate, shadow_servesMsg]

theorem shadow_nil (host : Host R) (polls : List DeniedPoll) :
    host.shadow [] host.channels polls = { host with deniedPolls := polls } := by
  have hstate : host.state.renumber (rank []) = host.state := by
    cases hs : host.state <;> simp [State.renumber, rank_nil]
  simp [shadow, hstate, rank_nil]

end Shadow

theorem shadowing_handleRequest (command : Option Command) (length : ℕ) (data : Bytes) (now : ℕ) :
    ShadowingAt l now fun host : Host R =>
      host.handleRequest channel command length data now := by
  intro dropped host host' h hagrees
  have hrefuse := shadowing_enqueueError channel .channelBusy h
  have hstart := shadowing_startMessage channel command length data now h hagrees
  have hfinish := shadowing_enqueue channel .error [ErrorCode.invalidSeq.toU8] h
  obtain ⟨channels, polls, h, rfl⟩ := h
  have hlease : (host.shadow dropped channels polls).leaseConflicts channel =
    host.leaseConflicts channel := rfl
  simp only [Host.handleRequest, hlease, shadow_busyChannel, shadow_refusedWhileBusy]
  split
  · exact hrefuse
  · split
    · exact hstart
    · split
      · exact hrefuse
      · cases hs : host.state with
        | receiving => simpa only [finishError, shadow_fields, State.renumber, hs] using hfinish
        | _ => simpa only [shadow_fields, State.renumber, hs] using hstart

theorem shadowing_handleCancel : Shadowing l fun host : Host R => host.handleCancel channel := by
  rintro dropped host _ ⟨channels, polls, h, rfl⟩
  cases hs : host.state with
  | processing p =>
    simp only [Host.handleCancel, shadow_fields, State.renumber, hs]
    split
    · exact ⟨_, _, h, rfl⟩
    · split
      · apply shadowing_enqueue
        exact ⟨_, _, { h with final := nofun }, rfl⟩
      · exact ⟨_, _, { h with final := nofun }, rfl⟩
  | _ =>
    simp only [Host.handleCancel, shadow_fields, State.renumber, hs]
    exact ⟨_, _, h, rfl⟩

theorem shadowing_handleContinuation (sequence : UInt8) (data : Bytes) (now : ℕ) :
    ShadowingAt l now fun host : Host R =>
      host.handleContinuation channel sequence data now := by
  rintro dropped host _ ⟨channels, polls, h, rfl⟩ hagrees
  cases hs : host.state with
  | receiving receiving command length nextSequence last =>
    simp only [Host.handleContinuation, shadow_fields, State.renumber, hs]
    split
    · exact ⟨_, _, h, rfl⟩
    · split
      · exact shadowing_enqueue _ _ _ ⟨_, _, h, rfl⟩
      · split
        · exact shadowing_completeMessage _ _ _ ⟨_, _, { h with final := nofun }, rfl⟩ hagrees
        · exact ⟨_, _, { h with final := nofun }, rfl⟩
  | _ =>
    simp only [Host.handleContinuation, shadow_fields, State.renumber, hs]
    exact ⟨_, _, h, rfl⟩

theorem shadowing_refuseInit (underWay : Bool) (channel : UInt32) (code : ErrorCode) :
    Shadowing l fun host : Host R => host.refuseInit underWay channel code := by
  intro dropped host host' h
  unfold Host.refuseInit
  split
  · exact shadowing_enqueueError _ _ h
  · exact shadowing_enqueue _ _ _ h

theorem shadowing_resynchronise (channel assigned : UInt32) (data : Bytes) :
    Shadowing l fun host : Host R => host.resynchronise channel assigned data := by
  rintro dropped host _ ⟨channels, polls, h, rfl⟩
  have hworks : (host.shadow dropped channels polls).appWorks = host.appWorks := by
    cases hs : host.state <;> simp only [appWorks, shadow_fields, State.renumber, hs]
  simp only [Host.resynchronise, hworks]
  apply shadowing_enqueue
  refine ⟨channels, _, ⟨h.dropped_lt, nofun, h.channels, l.filter channel h.polls⟩, ?_⟩
  simp only [shadow, State.renumber, List.filter_map, List.filter_filter, Function.comp_def,
    Bool.and_comm]
  rfl

variable (now : ℕ)

theorem shadowing_expireIdentification :
    Shadowing l fun host : Host R => host.expireIdentification now := by
  rintro dropped host _ ⟨channels, polls, h, rfl⟩
  cases hs : host.state with
  | identifying channel request submitted =>
    simp only [Host.expireIdentification, shadow_fields, State.renumber, hs]
    split
    · exact shadowing_enqueue _ _ _ ⟨_, _, h, rfl⟩
    · exact ⟨_, _, h, rfl⟩
  | _ =>
    simp only [Host.expireIdentification, shadow_fields, State.renumber, hs]
    exact ⟨_, _, h, rfl⟩

theorem shadowing_expireDenied : ShadowingAt l now fun host : Host R => host.expireDenied now := by
  rintro dropped host _ ⟨channels, polls, h, rfl⟩ hagrees
  refine ⟨channels, retainRecentDenied now polls, { h with polls := ?_ }, rfl⟩
  rw [show retainRecentDenied now polls = _ from hagrees.retain.symm]
  exact l.refl _

theorem shadowing_expirePoll : Shadowing l fun host : Host R => host.expirePoll now := by
  rintro dropped host _ ⟨channels, polls, h, rfl⟩
  simp only [Host.expirePoll, shadow_fields]
  split
  · split
    · exact ⟨_, _, h, rfl⟩
    · exact ⟨_, _, h, rfl⟩
  · exact ⟨_, _, h, rfl⟩

theorem shadowing_answerWaitingPoll :
    Shadowing l fun host : Host R => host.answerWaitingPoll now := by
  rintro dropped host _ ⟨channels, polls, h, rfl⟩
  cases hs : host.state with
  | processing p =>
    simp only [Host.answerWaitingPoll, shadow_fields, State.renumber, hs]
    split
    · split
      · apply shadowing_enqueue
        exact ⟨_, _, { h with final := nofun }, rfl⟩
      · exact ⟨_, _, h, rfl⟩
    · exact ⟨_, _, h, rfl⟩
  | _ =>
    simp only [Host.answerWaitingPoll, shadow_fields, State.renumber, hs]
    exact ⟨_, _, h, rfl⟩

theorem shadowing_expireReceiving : Shadowing l fun host : Host R => host.expireReceiving now := by
  rintro dropped host _ ⟨channels, polls, h, rfl⟩
  cases hs : host.state with
  | receiving channel command length nextSequence last =>
    simp only [Host.expireReceiving, shadow_fields, State.renumber, hs]
    split
    · exact shadowing_enqueue _ _ _ ⟨_, _, h, rfl⟩
    · exact ⟨_, _, h, rfl⟩
  | _ =>
    simp only [Host.expireReceiving, shadow_fields, State.renumber, hs]
    exact ⟨_, _, h, rfl⟩

theorem expireLease_deniedPolls (host : Host R) (now : ℕ) :
    (host.expireLease now).deniedPolls = host.deniedPolls := by
  obtain ⟨lease, h⟩ := host.expireLease_eq now
  rw [h]

theorem expireIdentification_deniedPolls (host : Host R) (now : ℕ) :
    (host.expireIdentification now).deniedPolls = host.deniedPolls := by
  unfold expireIdentification
  split
  · split
    · rw [finishError, enqueueMessage_eq]
      rfl
    · rfl
  · rfl

theorem shadowing_handleTimeout :
    ShadowingAt l now fun host : Host R => host.handleTimeout now := by
  intro dropped host host' h hagrees
  refine shadowing_expireReceiving now <| shadowing_answerWaitingPoll now <|
    shadowing_expirePoll now <| shadowing_expireDenied now
      (shadowing_expireIdentification now (shadowing_expireLease now h)) ?_
  simpa only [expireIdentification_deniedPolls, expireLease_deniedPolls] using hagrees

theorem shadowing_appPresence (waiting : Bool) :
    Shadowing l fun host : Host R => host.appPresence waiting := by
  rintro dropped host _ ⟨channels, polls, h, rfl⟩
  simp only [Host.appPresence, shadow_fields]
  split
  · split
    · exact ⟨_, _, h, rfl⟩
    · exact ⟨_, _, h, rfl⟩
  · exact ⟨_, _, h, rfl⟩

theorem shadowing_appPresenceFinished (at_ : ℕ) :
    Shadowing l fun host : Host R => host.appPresenceFinished at_ := by
  rintro dropped host _ ⟨channels, polls, h, rfl⟩
  simp only [Host.appPresenceFinished, shadow_fields]
  split
  · split
    · exact ⟨_, _, h, rfl⟩
    · exact ⟨_, _, h, rfl⟩
  · exact ⟨_, _, h, rfl⟩

theorem shadowing_resetU2f : Shadowing l fun host : Host R => host.resetU2f := by
  rintro dropped host _ ⟨channels, polls, h, rfl⟩
  exact ⟨_, _, { h with polls := l.refl _ }, rfl⟩

theorem shadowing_respond (answer : AppAnswer) :
    Shadowing l fun host : Host R => host.respond answer := by
  rintro dropped host _ ⟨channels, polls, h, rfl⟩
  cases hs : host.state with
  | processing p =>
    simp only [Host.respond, shadow_fields, State.renumber, hs]
    split
    · exact ⟨_, _, h, rfl⟩
    · apply shadowing_enqueue
      exact ⟨_, _, { h with final := nofun }, rfl⟩
  | _ =>
    simp only [Host.respond, shadow_fields, State.renumber, hs]
    exact ⟨_, _, h, rfl⟩

theorem shadowing_retainAnswer (poll : U2fPoll) (answer : AppAnswer) (now : ℕ)
    (presenceFinished : Option ℕ) :
    Shadowing l fun host : Host R => host.retainAnswer poll answer now presenceFinished := by
  rintro dropped host _ ⟨channels, polls, h, rfl⟩
  unfold Host.retainAnswer
  dsimp only
  split
  · exact ⟨_, _, h, rfl⟩
  · exact ⟨_, _, h, rfl⟩

theorem shadowing_respondToPoll (poll : U2fPoll) (answer : AppAnswer) (now : ℕ)
    (presenceFinished : Option ℕ) :
    Shadowing l fun host : Host R => host.respondToPoll poll answer now presenceFinished := by
  rintro dropped host _ ⟨channels, polls, h, rfl⟩
  simp only [Host.respondToPoll, shadow_isLate, shadow_servesMsg]
  split
  · apply shadowing_respond
    exact ⟨_, _, { h with polls := l.append _ h.polls }, rfl⟩
  · split
    · apply shadowing_retainAnswer
      apply shadowing_enqueue
      exact ⟨_, _, { h with final := nofun }, rfl⟩
    · split
      · exact shadowing_retainAnswer _ _ _ _ ⟨_, _, h, rfl⟩
      · exact shadowing_respond _ ⟨_, _, h, rfl⟩

theorem shadowing_appResponse (response : Bytes) (now : ℕ) (presenceFinished : Option ℕ) :
    Shadowing l fun host : Host R => host.appResponse response now presenceFinished := by
  rintro dropped host _ ⟨channels, polls, h, rfl⟩
  simp only [Host.appResponse, shadow_fields]
  split
  · apply shadowing_respondToPoll
    exact ⟨_, _, h, rfl⟩
  · apply shadowing_respond
    exact ⟨_, _, h, rfl⟩

theorem shadowing_identificationResponse (token : ℕ) (delivered : Bool) (now : ℕ) :
    Shadowing l fun host : Host R => host.identificationResponse token delivered now := by
  rintro dropped host _ ⟨channels, polls, h, rfl⟩
  cases hs : host.state with
  | identifying channel request submitted =>
    simp only [Host.identificationResponse, shadow_fields, State.renumber, hs]
    split
    · exact ⟨_, _, h, rfl⟩
    · split
      · exact shadowing_enqueue _ _ _ ⟨_, _, h, rfl⟩
      · exact shadowing_enqueue _ _ _ ⟨_, _, h, rfl⟩
  | _ =>
    simp only [Host.identificationResponse, shadow_fields, State.renumber, hs]
    exact ⟨_, _, h, rfl⟩

section

variable (h : Shadowed l dropped host host')

include h

theorem Shadowed.sendKeepalive (waitingForUser : Bool)
    (now : ℕ) : Shadowed l dropped (host.sendKeepalive waitingForUser now).1
        (host'.sendKeepalive waitingForUser now).1 ∧
      (host.sendKeepalive waitingForUser now).2 = (host'.sendKeepalive waitingForUser now).2 := by
  obtain ⟨channels, polls, h, rfl⟩ := h
  cases hs : host.state with
  | processing p =>
    simp only [Host.sendKeepalive, shadow_fields, State.renumber, hs]
    split
    · exact ⟨⟨_, _, h, rfl⟩, rfl⟩
    · refine ⟨shadowing_pushFrames [_] ?_, rfl⟩
      exact ⟨_, _, { h with final := nofun }, rfl⟩
  | _ =>
    simp only [Host.sendKeepalive, shadow_fields, State.renumber, hs]
    exact ⟨⟨_, _, h, rfl⟩, trivial⟩

theorem Shadowed.takeIdentificationRequest :
    Shadowed l dropped host.takeIdentificationRequest.1 host'.takeIdentificationRequest.1 ∧
      host.takeIdentificationRequest.2 = host'.takeIdentificationRequest.2 := by
  obtain ⟨channels, polls, h, rfl⟩ := h
  cases hs : host.state with
  | identifying channel request submitted =>
    cases submitted <;>
      simp only [Host.takeIdentificationRequest, shadow_fields, State.renumber, hs]
    · exact ⟨⟨_, _, { h with final := nofun }, rfl⟩, trivial⟩
    · exact ⟨⟨_, _, h, rfl⟩, trivial⟩
  | _ =>
    simp only [Host.takeIdentificationRequest, shadow_fields, State.renumber, hs]
    exact ⟨⟨_, _, h, rfl⟩, trivial⟩

theorem Shadowed.takeAppRequest :
    Shadowed l dropped host.takeAppRequest.1 host'.takeAppRequest.1 ∧
      host.takeAppRequest.2 = host'.takeAppRequest.2 := by
  obtain ⟨channels, polls, h, rfl⟩ := h
  cases hs : host.state with
  | processing p =>
    simp only [Host.takeAppRequest, shadow_fields, State.renumber, hs]
    split
    · exact ⟨⟨_, _, h, rfl⟩, rfl⟩
    · split
      · exact ⟨⟨_, _, h, rfl⟩, rfl⟩
      · exact ⟨⟨_, _, { h with final := nofun }, rfl⟩, rfl⟩
  | _ =>
    simp only [Host.takeAppRequest, shadow_fields, State.renumber, hs]
    split <;> exact ⟨⟨_, _, h, rfl⟩, rfl⟩

theorem Shadowed.outgoingFrameWritten (frame : OutgoingFrame) (hframe : frame.token ∉ dropped)
    (hkept : ∀ outgoing, host.pending.head? = some outgoing → outgoing.token ∉ dropped) :
    Shadowed l dropped (host.outgoingFrameWritten frame).1
        (host'.outgoingFrameWritten ⟨frame.frame, rank dropped frame.token⟩).1 ∧
      (host.outgoingFrameWritten frame).2 =
        (host'.outgoingFrameWritten ⟨frame.frame, rank dropped frame.token⟩).2 := by
  obtain ⟨channels, polls, h, rfl⟩ := h
  cases hp : host.pending with
  | nil =>
    have hp' : (host.shadow dropped channels polls).pending = [] := by simp [shadow, hp]
    simp only [Host.outgoingFrameWritten, isOutgoingCurrent, hp, hp', List.head?_nil]
    exact ⟨⟨_, _, h, rfl⟩, rfl⟩
  | cons outgoing rest =>
    have hnot : outgoing.token ∉ dropped := hkept outgoing (by simp [hp])
    have hp' : (host.shadow dropped channels polls).pending =
        ⟨outgoing.frame, rank dropped outgoing.token⟩ ::
          (rest.filter fun o => o.token ∉ dropped).map
            fun o => ⟨o.frame, rank dropped o.token⟩ := by
      simp [shadow, hp, hnot]
    simp only [Host.outgoingFrameWritten, isOutgoingCurrent, hp, hp', List.head?_cons,
      Option.any_some, rank_inj hnot hframe, shadow_fields, List.tail_cons]
    split
    · exact ⟨⟨_, _, h, rfl⟩, rfl⟩
    · cases hs : host.state with
      | transmitting channel finalFrame =>
        rw [hs] at h
        have hfinal := h.final channel finalFrame rfl
        simp only [State.renumber, rank_inj hfinal hframe]
        split
        · exact ⟨⟨_, _, { h with final := nofun }, rfl⟩, rfl⟩
        · exact ⟨⟨_, _, h, rfl⟩, rfl⟩
      | _ => exact ⟨⟨_, _, { h with final := nofun }, rfl⟩, rfl⟩

theorem Shadowed.headWritten
    (hkept : ∀ outgoing, host.pending.head? = some outgoing → outgoing.token ∉ dropped) :
    Shadowed l dropped host.headWritten host'.headWritten := by
  cases hp : host.pending with
  | nil =>
    obtain ⟨channels, polls, hfits, rfl⟩ := h
    have hp' : (host.shadow dropped channels polls).pending = [] := by simp [shadow, hp]
    simp only [Host.headWritten, nextOutgoingFrame, hp, hp', List.head?_nil]
    exact ⟨_, _, hfits, rfl⟩
  | cons outgoing rest =>
    have hnot : outgoing.token ∉ dropped := hkept outgoing (by simp [hp])
    have hwritten := (h.outgoingFrameWritten outgoing hnot hkept).1
    obtain ⟨channels, polls, hfits, rfl⟩ := h
    have hhead : host.nextOutgoingFrame = some outgoing := by simp [nextOutgoingFrame, hp]
    have hhead' : (host.shadow dropped channels polls).nextOutgoingFrame =
        some ⟨outgoing.frame, rank dropped outgoing.token⟩ := by
      simp [nextOutgoingFrame, shadow, hp, hnot]
    simp only [Host.headWritten, hhead, hhead']
    exact hwritten

end

variable [CryptoRng R]

theorem Shadowed.allocateChannelLoop (hinsert : l.Allocates) (fuel : ℕ)
    (h : Shadowed l dropped host host') :
    (allocateChannelLoop fuel host).1 = (allocateChannelLoop fuel host').1 ∧
      Shadowed l dropped (allocateChannelLoop fuel host).2 (allocateChannelLoop fuel host').2 := by
  induction fuel generalizing host host' with
  | zero => exact ⟨rfl, h⟩
  | succ fuel ih =>
    obtain ⟨channels, polls, h, rfl⟩ := h
    have hrest : Shadowed l dropped { host with rng := (CryptoRng.nextU32 host.rng).2 }
        { host.shadow dropped channels polls with rng := (CryptoRng.nextU32 host.rng).2 } :=
      ⟨_, _, h, rfl⟩
    have hrng : (host.shadow dropped channels polls).rng = host.rng := rfl
    have hinserted := hinsert _ _ (CryptoRng.nextU32 host.rng).1 h.channels
    simp only [Host.allocateChannelLoop, hrng, shadow_fields]
    split
    · exact ih hrest
    · generalize host.channels.insert (CryptoRng.nextU32 host.rng).1 = first at hinserted ⊢
      generalize channels.insert (CryptoRng.nextU32 host.rng).1 = second at hinserted ⊢
      cases hinserted with
      | some hchannels => exact ⟨rfl, _, _, { h with channels := hchannels }, rfl⟩
      | none => exact ih hrest

/-- Only INIT on the broadcast channel allocates a channel. -/
theorem shadowing_handleInit {channel : UInt32} (hinsert : channel = broadcastCid → l.Allocates)
    (length : ℕ) (data : Bytes) :
    Shadowing l fun host : Host R => host.handleInit channel length data := by
  intro dropped host host' h
  have hrefuse := fun underWay code => shadowing_refuseInit underWay channel code h
  have hresync := shadowing_resynchronise channel channel data h
  have hbusy := shadowing_enqueueError channel .channelBusy h
  have hallocate := fun heq => Shadowed.allocateChannelLoop (hinsert heq)
    channelGenerationRetryLimit h
  obtain ⟨channels, polls, h, rfl⟩ := h
  have hlease : (host.shadow dropped channels polls).leaseConflicts channel =
    host.leaseConflicts channel := rfl
  have hcontains : (host.shadow dropped channels polls).channels.contains channel =
    host.channels.contains channel := l.contains channel h.channels
  simp only [Host.handleInit, hlease, shadow_busyChannel, hcontains, ne_eq, shadow_state_eq_idle,
    allocateChannel]
  split
  · exact hbusy
  · split
    · exact hbusy
    · split
      · exact hrefuse _ _
      · split
        · rename_i hbroadcast
          obtain ⟨hassigned, hshadowed⟩ := hallocate hbroadcast
          generalize Host.allocateChannelLoop channelGenerationRetryLimit host = first at *
          generalize Host.allocateChannelLoop channelGenerationRetryLimit
            (host.shadow dropped channels polls) = second at *
          obtain ⟨assigned, allocated⟩ := first
          obtain ⟨_, allocated'⟩ := second
          obtain rfl := hassigned
          cases assigned with
          | some assigned => exact shadowing_resynchronise _ _ _ hshadowed
          | none => exact shadowing_refuseInit _ _ _ hshadowed
        · split
          · exact hresync
          · exact hrefuse _ _

theorem shadowing_handleFrame {frame : Frame}
    (hinsert : frame.channel = broadcastCid → l.Allocates) (now : ℕ) :
    ShadowingAt l now fun host : Host R => host.handleFrame frame now := by
  intro dropped host host' h hagrees
  have hlease : Shadowed l dropped (host.expireLease now) (host'.expireLease now) :=
    shadowing_expireLease now h
  rw [← host.expireLease_deniedPolls now, ← host'.expireLease_deniedPolls now] at hagrees
  have htouch : Shadowed l dropped
      { host.expireLease now with
        channels := (host.expireLease now).channels.touch frame.channel }
      { host'.expireLease now with
        channels := (host'.expireLease now).channels.touch frame.channel } := by
    obtain ⟨channels, polls, hfits, heq⟩ := hlease
    rw [heq]
    exact ⟨_, _, { hfits with channels := l.touch _ hfits.channels }, rfl⟩
  unfold Host.handleFrame
  dsimp only
  split
  · exact shadowing_handleContinuation _ _ _ _ hlease hagrees
  · split
    · exact shadowing_handleCancel _ htouch
    · exact shadowing_handleInit hinsert _ _ htouch
    · exact shadowing_handleRequest _ _ _ _ _ htouch hagrees

theorem Shadowed.handle (h : Shadowed l dropped host host') {event : Event}
    (hinsert : ∀ frame now, event = .packet frame now → frame.channel = broadcastCid → l.Allocates)
    (hagrees : ∀ now, (Call.event event).time = some now →
      l.Agrees now host.deniedPolls host'.deniedPolls)
    (hkept : event = .written → ∀ outgoing, host.pending.head? = some outgoing →
      outgoing.token ∉ dropped) :
    Shadowed l dropped (host.handle event) (host'.handle event) := by
  cases event with
  | packet frame now => exact shadowing_handleFrame (hinsert frame now rfl) now h (hagrees now rfl)
  | timeout now => exact shadowing_handleTimeout now h (hagrees now rfl)
  | presence waiting => exact shadowing_appPresence waiting h
  | presenceFinished at_ => exact shadowing_appPresenceFinished at_ h
  | u2fEnabled enabled =>
    cases enabled with
    | true => exact h
    | false => exact shadowing_resetU2f h
  | u2fReset => exact shadowing_resetU2f h
  | keepalive waitingForUser now => exact (h.sendKeepalive waitingForUser now).1
  | identify => exact h.takeIdentificationRequest.1
  | identified token delivered now => exact shadowing_identificationResponse token delivered now h
  | take => exact h.takeAppRequest.1
  | interrupt =>
    obtain ⟨channels, polls, h, rfl⟩ := h
    exact ⟨_, _, h, rfl⟩
  | answer response now finished => exact shadowing_appResponse response now finished h
  | written => exact h.headWritten (hkept rfl)

end Calls

end Host

end SoftwareAuthenticator.Ctaphid
