import SoftwareAuthenticator.Ctaphid.Approval
import SoftwareAuthenticator.Ctaphid.Forgetting

/-!
# Timers are announced

The polling loop sleeps until the next deadline. Before it, nothing is due: a timeout at
most forgets refusals that no later call can see. After a timeout and a keepalive, no
deadline is left that has passed.
-/

namespace SoftwareAuthenticator.Ctaphid

namespace Host

variable {R : Type}

variable {host : Host R} {now : ℕ}

def timers (host : Host R) : List ℕ :=
  host.transactionDeadline.toList ++ (host.u2f.map host.pollDeadline).toList ++
    (host.lease.map Prod.snd).toList

def Awake (host : Host R) (now : ℕ) : Prop := ∀ deadline ∈ host.timers, now < deadline

theorem awake_iff :
    host.Awake now ↔ ∀ deadline, host.nextDeadline = some deadline → now < deadline := by
  constructor
  · intro h deadline hmin
    exact h deadline (List.min?_mem hmin)
  · intro h deadline hmem
    obtain ⟨least, hleast⟩ := Option.isSome_iff_exists.mp
      (List.isSome_min?_of_mem hmem)
    have hle : least ≤ deadline := (List.min?_eq_some_iff.mp hleast).2 deadline hmem
    exact lt_of_lt_of_le (h least hleast) hle

theorem Awake.transaction {deadline : ℕ} (h : host.Awake now)
    (hdeadline : host.transactionDeadline = some deadline) : now < deadline :=
  h deadline (by simp [timers, hdeadline])

theorem Awake.poll {poll : U2fPoll} (h : host.Awake now) (hpoll : host.u2f = some poll) :
    now < host.pollDeadline poll :=
  h _ (by simp [timers, hpoll])

theorem Awake.lease {expires : ℕ} {channel : UInt32} (h : host.Awake now)
    (hlease : host.lease = some (channel, expires)) : now < expires :=
  h expires (by simp [timers, hlease])

theorem awake_of
    (htransaction : ∀ deadline, host.transactionDeadline = some deadline → now < deadline)
    (hpoll : ∀ poll, host.u2f = some poll → now < host.pollDeadline poll)
    (hlease : ∀ channel expires, host.lease = some (channel, expires) → now < expires) :
    host.Awake now := by
  intro deadline hmem
  simp only [timers, List.mem_append, Option.mem_toList, Option.map_eq_some_iff] at hmem
  rcases hmem with (hmem | ⟨poll, hmem, rfl⟩) | ⟨⟨channel, expires⟩, hmem, rfl⟩
  · exact htransaction deadline hmem
  · exact hpoll poll hmem
  · exact hlease channel expires hmem

theorem pollDeadline_le (host : Host R) (poll : U2fPoll) : host.pollDeadline poll ≤ poll.deadline := by
  unfold pollDeadline
  split
  · split
    · exact Nat.min_le_right _ _
    · exact le_rfl
  · exact le_rfl

theorem expireLease_cases (host : Host R) (now : ℕ) :
    (host.expireLease now = host ∧
      ∀ channel expires, host.lease = some (channel, expires) → now < expires) ∨
    (host.expireLease now).lease = none := by
  unfold expireLease
  split
  · rename_i channel expires hlease
    split
    · exact .inr rfl
    · rename_i hearly
      refine .inl ⟨rfl, fun channel' expires' hlease' => ?_⟩
      rw [hlease] at hlease'
      cases hlease'
      exact Nat.lt_of_not_le hearly
  · rename_i hlease
    exact .inr hlease

def Ends (host host' : Host R) : Prop :=
  ∃ channel token frames,
    host' = { host.pushFrames frames with state := .transmitting channel token }

theorem ends_enqueueMessage {host' : Host R} (channel : UInt32) (command : Command)
    (payload : Bytes) (h : { host' with state := host.state } = host) :
    Ends host (enqueueMessage host' channel command payload) := by
  refine ⟨channel, finalToken host' channel command payload, framesOf channel command payload, ?_⟩
  rw [enqueueMessage_eq, ← h]
  rfl

theorem expireIdentification_cases (host : Host R) (now : ℕ) :
    (host.expireIdentification now = host ∧
      ∀ channel request submitted, host.state = .identifying channel request submitted →
        now < request.deadline) ∨
    Ends host (host.expireIdentification now) := by
  unfold expireIdentification
  split
  · rename_i channel request submitted hstate
    split
    · exact .inr (ends_enqueueMessage _ _ _ rfl)
    · rename_i hearly
      refine .inl ⟨rfl, fun channel' request' submitted' hstate' => ?_⟩
      rw [hstate] at hstate'
      cases hstate'
      exact Nat.lt_of_not_le hearly
  · rename_i hstate
    exact .inl ⟨rfl, fun c r b h => absurd h (hstate c r b)⟩

theorem expirePoll_cases (host : Host R) (now : ℕ) :
    (host.expirePoll now = host ∧ ∀ poll, host.u2f = some poll → now < poll.deadline) ∨
    (host.expirePoll now).u2f = none := by
  unfold expirePoll
  split
  · rename_i poll hpoll
    split
    · exact .inr rfl
    · rename_i hearly
      refine .inl ⟨rfl, fun poll' hpoll' => ?_⟩
      rw [hpoll] at hpoll'
      cases hpoll'
      exact Nat.lt_of_not_le hearly
  · rename_i hnone
    exact .inr hnone

theorem answerWaitingPoll_cases (host : Host R) (now : ℕ) :
    (host.answerWaitingPoll now = host ∧
      ∀ processing poll, host.state = .processing processing → host.u2f = some poll →
        processing.command = .msg → processing.request.isNone = true →
        poll.presenceStarted = true → now - poll.started < u2fResponseWaitMs) ∨
    Ends host (host.answerWaitingPoll now) := by
  unfold answerWaitingPoll
  split
  · rename_i processing poll hstate hpoll
    split
    · exact .inr (ends_enqueueMessage _ _ _ rfl)
    · rename_i hearly
      refine .inl ⟨rfl, fun processing' poll' hstate' hpoll' hmsg hnone hpresence => ?_⟩
      rw [hstate] at hstate'
      rw [hpoll] at hpoll'
      cases hstate'
      cases hpoll'
      exact Nat.lt_of_not_le fun hdue => hearly ⟨hmsg, hnone, hpresence, hdue⟩
  · rename_i hneither
    exact .inl ⟨rfl, fun processing poll hstate hpoll => absurd hpoll (hneither _ _ hstate)⟩

theorem expireReceiving_cases (host : Host R) (now : ℕ) :
    (host.expireReceiving now = host ∧
      ∀ channel command length sequence last,
        host.state = .receiving channel command length sequence last →
          now < last + continuationTimeoutMs) ∨
    Ends host (host.expireReceiving now) := by
  unfold expireReceiving
  split
  · rename_i channel command length sequence last hstate
    split
    · exact .inr (ends_enqueueMessage _ _ _ rfl)
    · rename_i hearly
      refine .inl ⟨rfl, fun channel' command' length' sequence' last' hstate' => ?_⟩
      rw [hstate] at hstate'
      cases hstate'
      exact Nat.lt_of_not_le hearly
  · rename_i hstate
    exact .inl ⟨rfl, fun c m l s t h => absurd h (hstate c m l s t)⟩

/-- What holds after a timeout: neither the lease nor the prompt is overdue, and no
transaction goes on that is. -/
structure Caught (host : Host R) (now : ℕ) : Prop where
  lease : ∀ channel expires, host.lease = some (channel, expires) → now < expires
  poll : ∀ poll, host.u2f = some poll → now < poll.deadline
  identifying : ∀ channel request submitted, host.state = .identifying channel request submitted →
    now < request.deadline
  receiving : ∀ channel command length sequence last,
    host.state = .receiving channel command length sequence last →
      now < last + continuationTimeoutMs
  waiting : ∀ processing poll, host.state = .processing processing → host.u2f = some poll →
    processing.command = .msg → processing.request.isNone = true →
    poll.presenceStarted = true → now - poll.started < u2fResponseWaitMs

theorem caught_of_transmitting {token : ℕ} {channel : UInt32}
    (hlease : ∀ channel expires, host.lease = some (channel, expires) → now < expires)
    (hpoll : ∀ poll, host.u2f = some poll → now < poll.deadline)
    (hstate : host.state = .transmitting channel token) : host.Caught now := by
  refine ⟨hlease, hpoll, ?_, ?_, ?_⟩
  · rw [hstate]
    nofun
  · rw [hstate]
    nofun
  · rw [hstate]
    nofun

theorem caught_handleTimeout (host : Host R) (now : ℕ) : (host.handleTimeout now).Caught now := by
  unfold handleTimeout
  -- The lease comes first, and nothing after it touches it.
  have hlease₁ : ∀ channel expires, (host.expireLease now).lease = some (channel, expires) →
      now < expires := by
    rcases host.expireLease_cases now with ⟨heq, hearly⟩ | hnone
    · rw [heq]
      exact hearly
    · rw [hnone]
      nofun
  generalize host.expireLease now = host₁ at *
  have hpoll₄ : ∀ host₃ : Host R, ∀ poll, (host₃.expirePoll now).u2f = some poll →
      now < poll.deadline := by
    intro host₃
    rcases host₃.expirePoll_cases now with ⟨heq, hearly⟩ | hnone
    · rw [heq]
      exact hearly
    · rw [hnone]
      nofun
  have hkept₄ : ∀ host₃ : Host R, (host₃.expirePoll now).lease = host₃.lease ∧
      (host₃.expirePoll now).state = host₃.state := by
    intro host₃
    unfold expirePoll
    split
    · split
      · exact ⟨rfl, rfl⟩
      · exact ⟨rfl, rfl⟩
    · exact ⟨rfl, rfl⟩
  have hlease₂ : (host₁.expireIdentification now).lease = host₁.lease := by
    rcases host₁.expireIdentification_cases now with ⟨heq, -⟩ | ⟨c, t, frames, heq⟩
    · rw [heq]
    · rw [heq]
      rfl
  have hlease₄ : ∀ channel expires,
      (((host₁.expireIdentification now).expireDenied now).expirePoll now).lease =
        some (channel, expires) → now < expires := by
    rw [(hkept₄ _).1]
    change ∀ channel expires, (host₁.expireIdentification now).lease = _ → _
    rw [hlease₂]
    exact hlease₁
  have hidentifying₄ : ∀ channel request submitted,
      (((host₁.expireIdentification now).expireDenied now).expirePoll now).state =
        .identifying channel request submitted → now < request.deadline := by
    rw [(hkept₄ _).2]
    change ∀ channel request submitted, (host₁.expireIdentification now).state = _ → _
    rcases host₁.expireIdentification_cases now with ⟨heq, hearly⟩ | ⟨c, t, frames, heq⟩
    · rw [heq]
      exact hearly
    · rw [heq]
      nofun
  have hpoll₄ := hpoll₄ ((host₁.expireIdentification now).expireDenied now)
  generalize ((host₁.expireIdentification now).expireDenied now).expirePoll now = host₄ at *
  rcases host₄.answerWaitingPoll_cases now with ⟨heq, hwaiting⟩ | ⟨c, t, frames, heq⟩
  · rw [heq]
    rcases host₄.expireReceiving_cases now with ⟨heq, hreceiving⟩ | ⟨c, t, frames, heq⟩
    · rw [heq]
      exact ⟨hlease₄, hpoll₄, hidentifying₄, hreceiving, hwaiting⟩
    · rw [heq]
      exact caught_of_transmitting (by exact hlease₄) (by exact hpoll₄) rfl
  · rw [heq]
    rcases expireReceiving_cases { host₄.pushFrames frames with state := .transmitting c t } now with
      ⟨heq', -⟩ | ⟨c', t', frames', heq'⟩
    · rw [heq']
      exact caught_of_transmitting (by exact hlease₄) (by exact hpoll₄) rfl
    · rw [heq']
      exact caught_of_transmitting (by exact hlease₄) (by exact hpoll₄) rfl

/-- Before the earliest deadline only refusals are forgotten. -/
theorem handleTimeout_awake (h : host.Awake now) (hcoherent : host.core.Coherent) :
    host.handleTimeout now = host.expireDenied now := by
  have hlease : host.expireLease now = host := by
    unfold expireLease
    split
    · rename_i hlease
      exact if_neg (Nat.not_le_of_lt (h.lease hlease))
    · rfl
  have hidentifying : host.expireIdentification now = host := by
    unfold expireIdentification
    split
    · rename_i hstate
      refine if_neg (Nat.not_le_of_lt (h.transaction ?_))
      rw [transactionDeadline, hstate]
    · rfl
  have hpoll : (host.expireDenied now).expirePoll now = host.expireDenied now := by
    unfold expirePoll
    split
    · rename_i poll hpoll
      have hpoll : host.u2f = some poll := hpoll
      exact if_neg (Nat.not_le_of_lt (lt_of_lt_of_le (h.poll hpoll) (host.pollDeadline_le poll)))
    · rfl
  have hwaiting : (host.expireDenied now).answerWaitingPoll now = host.expireDenied now := by
    unfold answerWaitingPoll
    split
    · rename_i processing poll hstate hpoll
      have hstate : host.state = .processing processing := hstate
      have hpoll : host.u2f = some poll := hpoll
      refine if_neg fun hdue => ?_
      obtain ⟨hmsg, hnone, hpresence, hwaited⟩ := hdue
      -- The prompt of a transaction under way has no answer.
      have hserved := hcoherent.served processing hstate (Option.isNone_iff_eq_none.mp hnone)
      have hanswer := (hcoherent.prompt poll hpoll).mpr (by rw [hserved, hmsg])
      have hearly := h.poll hpoll
      rw [pollDeadline, hstate] at hearly
      simp only [hanswer, hpresence, hmsg, hnone, Option.isNone_none, and_self, if_true] at hearly
      have hsaturated : saturatingAdd poll.started u2fResponseWaitMs ≤
          poll.started + u2fResponseWaitMs := Nat.min_le_left _ _
      have hpositive : 0 < u2fResponseWaitMs := by decide
      omega
    · rfl
  have hreceiving : (host.expireDenied now).expireReceiving now = host.expireDenied now := by
    unfold expireReceiving
    split
    · rename_i hstate
      have hstate : host.state = _ := hstate
      refine if_neg (Nat.not_le_of_lt (h.transaction ?_))
      rw [transactionDeadline, hstate]
    · rfl
  rw [handleTimeout, hlease, hidentifying, hpoll, hwaiting, hreceiving]

def StatusUnchanged (host : Host R) (waitingForUser : Bool) : Prop :=
  ∀ processing, host.state = .processing processing →
    keepaliveStatus processing waitingForUser = processing.keepaliveStatus

theorem sendKeepalive_awake (h : host.Awake now) {waitingForUser : Bool}
    (hstatus : host.StatusUnchanged waitingForUser) :
    host.sendKeepalive waitingForUser now = (host, false) := by
  unfold sendKeepalive
  split
  · rename_i processing hstate
    have hearly : now < processing.keepaliveAt + keepaliveIntervalMs := by
      refine h.transaction ?_
      rw [transactionDeadline, hstate]
    exact if_pos ⟨hstatus processing hstate, hearly⟩
  · rfl

/-- Nothing is overdue once the keepalive was sent. -/
theorem Caught.awake (h : host.Caught now) (hnow : now < 2 ^ 63)
    (hkeepalive : ∀ processing, host.state = .processing processing →
      now < processing.keepaliveAt + keepaliveIntervalMs) : host.Awake now := by
  refine awake_of (fun deadline hdeadline => ?_) (fun poll hpoll => ?_) h.lease
  · unfold transactionDeadline at hdeadline
    split at hdeadline
    · cases hdeadline
    · cases hdeadline
    · rename_i hstate
      cases hdeadline
      exact h.receiving _ _ _ _ _ hstate
    · rename_i processing hstate
      cases hdeadline
      exact hkeepalive processing hstate
    · rename_i hstate
      cases hdeadline
      exact h.identifying _ _ _ hstate
  · unfold pollDeadline
    split
    · rename_i processing hstate
      split
      · rename_i hasked
        obtain ⟨-, hpresence, hmsg, hnone⟩ := hasked
        have hwaited := h.waiting processing poll hstate hpoll hmsg hnone hpresence
        refine Nat.lt_min.mpr ⟨Nat.lt_min.mpr ⟨by omega, ?_⟩, h.poll poll hpoll⟩
        exact lt_trans hnow (by decide)
      · exact h.poll poll hpoll
    · exact h.poll poll hpoll

theorem awake_sendKeepalive (h : host.Caught now) (hnow : now < 2 ^ 63) (waitingForUser : Bool) :
    (host.sendKeepalive waitingForUser now).1.Awake now := by
  have hinterval : 0 < keepaliveIntervalMs := by decide
  unfold sendKeepalive
  split
  · rename_i processing hstate
    dsimp only
    split
    · rename_i hearly
      refine h.awake hnow fun processing' hstate' => ?_
      rw [hstate] at hstate'
      cases hstate'
      exact hearly.2
    · refine Caught.awake ⟨h.lease, h.poll, ?_, ?_, ?_⟩ hnow ?_
      · rintro _ _ _ ⟨⟩
      · rintro _ _ _ _ _ ⟨⟩
      · rintro _ poll ⟨⟩ hpoll hmsg hnone hpresence
        exact h.waiting processing poll hstate hpoll hmsg hnone hpresence
      · rintro _ ⟨⟩
        dsimp only
        omega
  · rename_i hstate
    exact h.awake hnow fun processing hp => absurd hp (hstate processing)

end Host

/-- Before the next deadline a timeout does no more than forget refusals older than 3000 ms,
which no later call can tell, and a keepalive queues nothing while the status is unchanged.
After both at one time the next deadline lies ahead. -/
theorem timers_announced {R : Type} [CryptoRng R] (rng : R) (version : Version)
    (capabilities : UInt8) (calls : List Call) (now : ℕ) (hnow : now < 2 ^ 63) :
    let host := (callMachine R).run (Host.withRng rng version capabilities) calls
    ((∀ deadline, host.nextDeadline = some deadline → now < deadline) →
      host.handleTimeout now = host.expireDenied now ∧
      (∀ later : List Call, (∀ call ∈ later, ∀ time, call.time = some time → now ≤ time) →
        (∃ polls, (callMachine R).run (host.handleTimeout now) later =
          { (callMachine R).run host later with deniedPolls := polls }) ∧
        ∀ call, ((callMachine R).run (host.handleTimeout now) later).result call =
          ((callMachine R).run host later).result call) ∧
      ∀ waitingForUser, host.StatusUnchanged waitingForUser →
        host.sendKeepalive waitingForUser now = (host, false)) ∧
    ∀ waitingForUser deadline,
      ((host.handleTimeout now).sendKeepalive waitingForUser now).1.nextDeadline = some deadline →
        now < deadline := by
  intro host
  have hbounded : host.core.Bounded :=
    Host.bounded_run (Host.bounded_withRng rng version capabilities) calls
  refine ⟨fun hahead => ?_, fun waitingForUser => ?_⟩
  · have hawake : host.Awake now := Host.awake_iff.mpr hahead
    have htimeout := Host.handleTimeout_awake hawake hbounded.coherent
    refine ⟨htimeout, fun later htimes => ?_,
      fun waitingForUser hstatus => Host.sendKeepalive_awake hawake hstatus⟩
    have halike : Host.Alike now host (host.handleTimeout now) := by
      rw [htimeout]
      exact host.alike_expireDenied now
    have hlater := Host.alike_run halike hbounded
      (Host.bounded_call hbounded (.event (.timeout now))) later htimes
    exact ⟨hlater.eq, fun call => (hlater.result call).symm⟩
  · exact Host.awake_iff.mp
      (Host.awake_sendKeepalive (host.caught_handleTimeout now) hnow waitingForUser)

theorem timers_announced_registration :
    let host := (callMachine Draws).run freshHost
      ((registrationEvents ++ [Event.presence true]).map .event)
    host.nextDeadline = some 50 ∧ host.handleTimeout 49 = host.expireDenied 49 ∧
      ((host.handleTimeout 60).sendKeepalive true 60).1.nextDeadline = some 100 := by
  intro host
  have hahead : ∀ deadline, host.nextDeadline = some deadline → 49 < deadline := by
    intro deadline hdeadline
    have hnext : host.nextDeadline = some 50 := by decide +kernel
    rw [hnext] at hdeadline
    cases hdeadline
    decide
  have htimers := timers_announced (⟨[]⟩ : Draws) ⟨0, 0, 0⟩ 0
    ((registrationEvents ++ [Event.presence true]).map .event) 49 (by decide)
  exact ⟨by decide +kernel, (htimers.1 hahead).1, by decide +kernel⟩

end SoftwareAuthenticator.Ctaphid
