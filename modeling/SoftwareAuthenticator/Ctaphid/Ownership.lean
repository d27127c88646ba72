import SoftwareAuthenticator.Ctaphid.Moves

/-!
# At most one channel owns the host

A channel owns the host through the transaction under way, through a U2F prompt that waits for
its answer, or through a lease. All owners agree in every reachable state.
-/

namespace SoftwareAuthenticator.Ctaphid

namespace Host

variable {R : Type} {host host' : Host R} {poll : U2fPoll}

def Owner (host : Host R) (channel : UInt32) : Prop :=
  host.state.channel = some channel ∨ host.promptChannel = some channel ∨
    ∃ expires, host.lease = some (channel, expires)

def OwnedBy (host : Host R) (channel : UInt32) : Prop := ∀ d, host.Owner d → d = channel

/-- The owners agree, and the prompt of a transaction that the application works on
is a prompt for that transaction's channel. -/
structure Exclusive (host : Host R) : Prop where
  owners : ∀ a b, host.Owner a → host.Owner b → a = b
  poll : ∀ processing poll, host.state = .processing processing → host.u2f = some poll →
    poll.channel = processing.channel

theorem exclusive_withRng (rng : R) (version : Version) (capabilities : UInt8) :
    (withRng rng version capabilities).Exclusive where
  owners a b ha _ := by
    simp [Owner, withRng, State.channel, promptChannel] at ha
  poll processing poll h := by simp [withRng] at h

variable {channel : UInt32}

theorem Exclusive.of_ownedBy (h : host.OwnedBy channel)
    (hpoll : ∀ processing poll, host.state = .processing processing → host.u2f = some poll →
      poll.channel = processing.channel) : host.Exclusive where
  owners a b ha hb := (h a ha).trans (h b hb).symm
  poll := hpoll

section

variable (h : host.Exclusive)

include h

theorem Exclusive.narrow (howner : ∀ d, host'.Owner d → host.Owner d)
    (hpoll : ∀ processing poll, host'.state = .processing processing → host'.u2f = some poll →
      poll.channel = processing.channel) : host'.Exclusive where
  owners a b ha hb := h.owners a b (howner a ha) (howner b hb)
  poll := hpoll

theorem Exclusive.keepChannel
    (hchannel : ∀ d, host'.state.channel = some d → host.state.channel = some d)
    (hprompt : host'.promptChannel = host.promptChannel) (hlease : host'.lease = host.lease)
    (hpoll : ∀ processing poll, host'.state = .processing processing → host'.u2f = some poll →
      poll.channel = processing.channel) : host'.Exclusive := by
  refine h.narrow (fun d hd => ?_) hpoll
  rcases hd with hd | hd | hd
  · exact .inl (hchannel d hd)
  · exact .inr (.inl (hprompt ▸ hd))
  · exact .inr (.inr (hlease ▸ hd))

theorem Exclusive.dropPoll (hstate : host'.state = host.state) (hlease : host'.lease = host.lease)
    (hu2f : host'.u2f = none) : host'.Exclusive := by
  refine h.narrow (fun d hd => ?_) (by simp [hu2f])
  rcases hd with hd | hd | hd
  · exact .inl (hstate ▸ hd)
  · simp [promptChannel, hu2f] at hd
  · exact .inr (.inr (hlease ▸ hd))

theorem Exclusive.updatePoll {poll' : U2fPoll} (hpoll : host.u2f = some poll)
    (hu2f : host'.u2f = some poll') (hstate : host'.state = host.state)
    (hlease : host'.lease = host.lease) (hchannel : poll'.channel = poll.channel)
    (hanswer : poll'.answer = none → poll.answer = none) : host'.Exclusive := by
  refine h.narrow (fun d hd => ?_) (fun p q hs hq => ?_)
  · rcases hd with hd | hd | hd
    · exact .inl (hstate ▸ hd)
    · refine .inr (.inl ?_)
      simp only [promptChannel, hu2f] at hd
      split at hd
      · next hnone => simpa [promptChannel, hpoll, hanswer (by simpa using hnone), ← hchannel] using hd
      · cases hd
    · exact .inr (.inr (hlease ▸ hd))
  · rw [hu2f] at hq
    cases hq
    exact hchannel.trans (h.poll p poll (hstate ▸ hs) hpoll)

/-- Neither the lease nor a transaction nor a prompt belongs to another channel. -/
theorem Exclusive.ownedBy_of_admits (hadmits : host.Admits channel) : host.OwnedBy channel := by
  obtain ⟨hlease, hbusy⟩ := hadmits
  have hfirst : ∀ d, host.state.channel = some d → d = channel := fun d hd =>
    hbusy d (by simp [busyChannel_eq, hd])
  intro d hd
  rcases hd with hd | hd | ⟨expires, hd⟩
  · exact hfirst d hd
  · cases hs : host.state.channel with
    | none => exact hbusy d (by simp [busyChannel_eq, hs, hd])
    | some b =>
      have hbd : d = b := h.owners d b (.inr (.inl hd)) (.inl hs)
      exact hbd.trans (hfirst b hs)
  · simpa [leaseConflicts, hd] using hlease

theorem Exclusive.ownedBy_of_completes (hserved : host.Completes channel) :
    host.OwnedBy channel := by
  rcases hserved with ⟨-, hadmits⟩ | ⟨command, length, sequence, last, hstate⟩
  · exact h.ownedBy_of_admits hadmits
  · exact fun d hd => h.owners d channel hd (.inl (by rw [hstate]; rfl))

theorem Exclusive.ownedBy_of_answers {call : Call} (hanswers : host.Answers call channel) :
    host.OwnedBy channel := by
  rcases hanswers.owner with hstate | ⟨-, -, hadmits⟩ | ⟨p, poll, hstate, hpoll, rfl⟩
  · exact fun d hd => h.owners d channel hd (.inl hstate)
  · exact h.ownedBy_of_admits hadmits
  · refine fun d hd => h.owners d _ hd (.inl ?_)
    rw [hstate, h.poll p poll hstate hpoll]
    rfl

end

theorem OwnedBy.exclusive (h : host.OwnedBy channel)
    (hstate : ∀ d, host'.state.channel = some d → d = channel)
    (hprompt : ∀ d, host'.promptChannel = some d → host.promptChannel = some d)
    (hlease : host'.lease = host.lease)
    (hpoll : ∀ processing poll, host'.state = .processing processing → host'.u2f = some poll →
      poll.channel = processing.channel) : host'.Exclusive := by
  have howned : host'.OwnedBy channel := by
    rintro d (hd | hd | ⟨expires, hd⟩)
    · exact hstate d hd
    · exact h d (.inr (.inl (hprompt d hd)))
    · exact h d (.inr (.inr ⟨expires, hlease ▸ hd⟩))
  exact .of_ownedBy howned hpoll

theorem OwnedBy.enqueueMessage (h : host.OwnedBy channel) (command : Command) (payload : Bytes) :
    (Host.enqueueMessage host channel command payload).Exclusive := by
  rw [enqueueMessage_eq]
  refine h.exclusive (fun d hd => ?_) (fun _ hd => hd) rfl (by simp)
  exact (Option.some.inj hd).symm

theorem Exclusive.move {call : Call} {completed : Option (UInt32 × Bytes)} (h : host.Exclusive)
    (hmove : Move call completed host host') : host'.Exclusive := by
  have hnone : ∀ d, (Option.none : Option UInt32) = some d → host.promptChannel = some d :=
    fun d hd => by cases hd
  cases hmove with
  | configures | touches | draws | allocates | buffers | refreshes | retains | interrupts
  | interruptTaken | frees | writes => exact h.narrow (fun _ hd => hd) h.poll
  | leaseEnds =>
    refine h.narrow (fun d hd => ?_) h.poll
    rcases hd with hd | hd | ⟨_, hd⟩
    · exact .inl hd
    · exact .inr (.inl hd)
    · cases hd
  | @leases channel _ _ hserved hlease =>
    have howned := h.ownedBy_of_completes hserved
    refine .of_ownedBy (fun d (hd : _ ∨ _ ∨ _) => (?_ : d = channel)) h.poll
    rcases hd with hd | hd | ⟨expires, hd⟩
    · exact howned d (.inl hd)
    · exact howned d (.inr (.inl hd))
    · exact hlease _ hd
  | receives _ _ hadmits =>
    refine (h.ownedBy_of_admits hadmits).exclusive (fun d hd => ?_) (fun _ hd => hd) rfl (by simp)
    exact (Option.some.inj hd).symm
  | continues _ hstate | submits hstate =>
    exact h.keepChannel (fun d hd => by rw [hstate]; exact hd) rfl rfl (by simp)
  | ends => exact h.keepChannel (fun d hd => by cases hd) rfl rfl (by simp)
  | replies hanswers => exact (h.ownedBy_of_answers hanswers).enqueueMessage _ _
  | collects _ hserved =>
    refine OwnedBy.enqueueMessage (fun d hd => h.ownedBy_of_completes hserved d ?_) _ _
    rcases hd with hd | hd | hd
    · exact .inl hd
    · cases hd
    · exact .inr (.inr hd)
  | identifies _ hserved =>
    refine (h.ownedBy_of_completes hserved).exclusive (fun d hd => ?_) (fun _ hd => hd) rfl
      (by simp [completeWink])
    exact (Option.some.inj hd).symm
  | holds _ hserved | holdsMsg _ hserved =>
    refine (h.ownedBy_of_completes hserved).exclusive (fun d hd => ?_) hnone rfl (by simp)
    exact (Option.some.inj hd).symm
  | polls hpoll | asks hpoll => exact h.updatePoll hpoll rfl rfl rfl rfl id
  | keeps _ _ _ hpoll => exact h.updatePoll hpoll rfl rfl rfl rfl (by simp)
  | expires | withdraws | resets | denies => exact h.dropPoll rfl rfl rfl
  | @waits p _ _ _ hstate =>
    refine h.keepChannel (fun d hd => by rw [hstate]; exact hd) rfl rfl fun q poll hq hp => ?_
    cases hq
    exact h.poll p poll hstate hp
  | @takes p _ _ _ hstate =>
    refine h.narrow (fun d hd => ?_) (fun q poll hq hpoll => ?_)
    · rcases hd with hd | hd | hd
      · exact .inl (by rw [hstate]; exact hd)
      · simp only [promptChannel] at hd
        split at hd
        · next poll hpoll =>
          split at hpoll
          · cases hpoll
            exact .inl (by rw [hstate]; exact hd)
          · exact .inr (.inl (by simpa [promptChannel, hpoll] using hd))
        · cases hd
      · exact .inr (.inr hd)
    · cases hq
      simp only at hpoll
      split at hpoll
      · cases hpoll
        rfl
      · exact h.poll p poll hstate hpoll
  | @delivers p _ _ _ _ hstate =>
    have howned : host.OwnedBy p.channel := fun d hd => h.owners d _ hd (.inl (by rw [hstate]; rfl))
    unfold enqueueAnswer
    exact OwnedBy.enqueueMessage (by exact howned) _ _

theorem Exclusive.enqueueError (h : host.Exclusive) (channel : UInt32) (code : ErrorCode) :
    (host.enqueueError channel code).Exclusive := by
  rw [enqueueError_eq]
  exact h.narrow (fun _ hd => hd) h.poll

theorem Exclusive.resynchronise (h : host.Exclusive) (hadmits : host.Admits channel)
    (assigned : UInt32) (data : Bytes) :
    (host.resynchronise channel assigned data).Exclusive := by
  refine OwnedBy.enqueueMessage (fun d hd => h.ownedBy_of_admits hadmits d ?_) _ _
  rcases hd with hd | hd | hd
  · cases hd
  · refine .inr (.inl ?_)
    simp only [promptChannel] at hd ⊢
    split at hd
    · next poll hpoll =>
      split at hpoll
      · cases hpoll
      · simpa [hpoll] using hd
    · cases hd
  · exact .inr (.inr hd)

variable [CryptoRng R]

/-- Everything INIT can do. It is refused because of another owner, or its checks
fail, or it resynchronises the channel. Only the broadcast channel allocates. -/
theorem handleInit_cases (host : Host R) (channel : UInt32) (length : ℕ) (data : Bytes) :
    host.handleInit channel length data = host.enqueueError channel .channelBusy ∨
    (host.leaseConflicts channel = false ∧
      (∀ busy, host.busyChannel = some busy → busy = channel) ∧
      ∃ rng channels, (channel ≠ broadcastCid → channels = host.channels) ∧
        ((∃ underWay code, host.handleInit channel length data =
            refuseInit { host with rng := rng, channels := channels } underWay channel code) ∨
          ∃ assigned, host.handleInit channel length data =
            resynchronise { host with rng := rng, channels := channels } channel assigned data)) := by
  unfold handleInit
  split
  · exact .inl rfl
  · next hlease =>
    split
    · exact .inl rfl
    · next hbusy =>
      have hown : ∀ busy, host.busyChannel = some busy → busy = channel := fun busy hb => by
        simpa [hb] using hbusy
      refine .inr ⟨by simpa using hlease, hown, ?_⟩
      split
      · exact ⟨host.rng, host.channels, fun _ => rfl, .inl ⟨_, _, rfl⟩⟩
      · dsimp only
        split
        · next hchannel =>
          obtain ⟨rng, channels, halloc⟩ :=
            allocateChannelLoop_snd channelGenerationRetryLimit host
          have halloc' : (allocateChannel host).2 = { host with rng, channels } := halloc
          refine ⟨rng, channels, fun hne => absurd hchannel hne, ?_⟩
          split
          · next assigned host' heq =>
            rw [heq] at halloc'
            exact .inr ⟨assigned, congrArg (resynchronise · channel assigned data) halloc'⟩
          · next host' heq =>
            rw [heq] at halloc'
            exact .inl ⟨_, _, congrArg (refuseInit · _ channel _) halloc'⟩
        · refine ⟨host.rng, host.channels, fun _ => rfl, ?_⟩
          split
          · exact .inr ⟨channel, rfl⟩
          · exact .inl ⟨_, _, rfl⟩

theorem Exclusive.handle (h : host.Exclusive) (event : Event) : (host.handle event).Exclusive :=
  host.call_keeps (.event event) (fun hmove h => h.move hmove) (fun h => h.enqueueError _ _)
    (fun hadmits h => h.resynchronise hadmits _ _) h

end Host

theorem reachable_exclusive {R : Type} [CryptoRng R] {host : Host R}
    (h : (hostMachine R).Reachable host) : host.Exclusive := by
  refine Machine.invariant_reachable ?_ (fun _ event hs _ => hs.handle event) h
  rintro _ ⟨rng, version, capabilities, rfl⟩
  exact Host.exclusive_withRng rng version capabilities

end SoftwareAuthenticator.Ctaphid
