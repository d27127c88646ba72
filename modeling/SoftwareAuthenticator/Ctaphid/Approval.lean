import SoftwareAuthenticator.Ctaphid.Output

/-!
# Approved U2F answers expire

An approved answer is kept with the time until which it may be collected. An answer that goes to
the waiting client directly is not tested against that time where the host no longer keeps the
prompt.
-/

namespace SoftwareAuthenticator.Ctaphid

open U2fApdu (swNoError)

variable {finished : Option ℕ}

namespace Host

variable {R : Type}

variable {host host' : Host R}

/-- What a call at `now` does that neither takes nor answers a request: what it queues of the
application's answers is the one kept with the prompt, if that has not expired. -/
structure Ages (now : ℕ) (host host' : Host R) : Prop where
  processing : ∀ p, host'.state = .processing p →
    p.started = now ∨ ∃ p₀, host.state = .processing p₀ ∧ p.started = p₀.started
  poll : ∀ poll, host'.u2f = some poll →
    ∃ poll₀, host.u2f = some poll₀ ∧ poll.started = poll₀.started ∧ poll.answer = poll₀.answer
  app : host'.taken = host.taken ∧ host'.appBusy = host.appBusy
  deliveries : host'.deliveries = host.deliveries ∨
    ∃ poll answer expires channel, host.u2f = some poll ∧ poll.answer = some (answer, expires) ∧
      now ≤ expires ∧ host'.deliveries = host.deliveries ++ [⟨channel, .msg, answer⟩]

variable {now : ℕ}

theorem Ages.refl (host : Host R) : Ages now host host :=
  ⟨fun p hp => .inr ⟨p, hp, rfl⟩, fun poll hpoll => ⟨poll, hpoll, rfl, rfl⟩, ⟨rfl, rfl⟩, .inl rfl⟩

theorem Ages.trans {a b c : Host R} (hab : Ages now a b) (hbc : Ages now b c)
    (hsame : b.deliveries = a.deliveries ∨ c.deliveries = b.deliveries) : Ages now a c := by
  refine ⟨fun p hp => ?_, fun poll hpoll => ?_,
    ⟨hbc.app.1.trans hab.app.1, hbc.app.2.trans hab.app.2⟩, ?_⟩
  · rcases hbc.processing p hp with hnow | ⟨p₁, hp₁, hstarted⟩
    · exact .inl hnow
    · rcases hab.processing p₁ hp₁ with hnow | ⟨p₀, hp₀, hstarted₀⟩
      · exact .inl (hstarted.trans hnow)
      · exact .inr ⟨p₀, hp₀, hstarted.trans hstarted₀⟩
  · obtain ⟨poll₁, hpoll₁, hstarted, hanswer⟩ := hbc.poll poll hpoll
    obtain ⟨poll₀, hpoll₀, hstarted₀, hanswer₀⟩ := hab.poll poll₁ hpoll₁
    exact ⟨poll₀, hpoll₀, hstarted.trans hstarted₀, hanswer.trans hanswer₀⟩
  · rcases hsame with hsame | hsame
    · rcases hbc.deliveries with hnone | ⟨poll, answer, expires, channel, hpoll, hanswer, hle, hone⟩
      · exact .inl (hnone.trans hsame)
      · obtain ⟨poll₀, hpoll₀, -, hanswer₀⟩ := hab.poll poll hpoll
        rw [hsame] at hone
        exact .inr ⟨poll₀, answer, expires, channel, hpoll₀, hanswer₀.symm.trans hanswer, hle, hone⟩
    · rw [hsame]
      exact hab.deliveries

theorem Ages.quiet (hstate : ∀ p, host'.state = .processing p →
      p.started = now ∨ ∃ p₀, host.state = .processing p₀ ∧ p.started = p₀.started)
    (hpoll : host'.u2f = host.u2f ∨ host'.u2f = none) (hlogs : host'.logs = host.logs) :
    Ages now host host' := by
  simp only [logs, Prod.mk.injEq] at hlogs
  obtain ⟨htaken, hdeliveries, hbusy, -⟩ := hlogs
  refine ⟨hstate, fun poll hsome => ?_, ⟨htaken, hbusy⟩, .inl hdeliveries⟩
  rcases hpoll with hsame | hnone
  · exact ⟨poll, hsame.symm.trans hsome, rfl, rfl⟩
  · rw [hnone] at hsome
    cases hsome

theorem Ages.kept (hstate : host'.state = host.state)
    (hpoll : host'.u2f = host.u2f ∨ host'.u2f = none) (hlogs : host'.logs = host.logs) :
    Ages now host host' :=
  .quiet (fun p hp => .inr ⟨p, hstate.symm.trans hp, rfl⟩) hpoll hlogs

theorem Ages.ended (hstate : ∀ p, host'.state ≠ .processing p)
    (hpoll : host'.u2f = host.u2f ∨ host'.u2f = none) (hlogs : host'.logs = host.logs) :
    Ages now host host' :=
  .quiet (fun p hp => absurd hp (hstate p)) hpoll hlogs

theorem ages_resynchronise (host : Host R) (channel assigned : UInt32) (data : Bytes) :
    Ages now host (host.resynchronise channel assigned data) := by
  unfold resynchronise
  rw [enqueueMessage_eq]
  refine .ended (by simp) ?_ rfl
  dsimp only
  split
  · exact .inr rfl
  · exact .inl rfl

theorem takeAppRequest_started (host : Host R) :
    (∀ p, host.takeAppRequest.1.state = .processing p →
      ∃ p₀, host.state = .processing p₀ ∧ p.started = p₀.started) ∧
    (∀ poll, host.takeAppRequest.1.u2f = some poll → host.u2f = some poll ∨
      (poll.answer = none ∧ ∃ p₀, host.state = .processing p₀ ∧ poll.started = p₀.started)) ∧
    host.takeAppRequest.1.deliveries = host.deliveries := by
  unfold takeAppRequest
  split
  · exact ⟨fun p hp => ⟨p, hp, rfl⟩, fun poll hpoll => .inl hpoll, rfl⟩
  · split
    · rename_i processing hstate
      split
      · exact ⟨fun p hp => ⟨p, hp, rfl⟩, fun poll hpoll => .inl hpoll, rfl⟩
      · refine ⟨fun p hp => ⟨processing, hstate, ?_⟩, fun poll hpoll => ?_, rfl⟩
        · cases hp
          rfl
        · dsimp only at hpoll
          split at hpoll
          · cases hpoll
            exact .inr ⟨rfl, processing, hstate, rfl⟩
          · exact .inl hpoll
    · exact ⟨fun p hp => ⟨p, hp, rfl⟩, fun poll hpoll => .inl hpoll, rfl⟩

theorem takeAppRequest_taken (host : Host R) : host.takeAppRequest.1 = host ∨
    ∃ request, host.takeAppRequest.1.taken = host.taken ++ [request] := by
  unfold takeAppRequest
  split
  · exact .inl rfl
  · split
    · split
      · exact .inl rfl
      · exact .inr ⟨_, rfl⟩
    · exact .inl rfl

/-- An answer of the application is queued for the transaction that waits for it, or kept with
its prompt for a limited time, or dropped. -/
structure Replies (now : ℕ) (finished : Option ℕ) (answer : AppAnswer) (host host' : Host R) :
    Prop where
  processing : ∀ p, host'.state = .processing p → host.state = .processing p
  poll : ∀ poll, host'.u2f = some poll →
    (host.u2f = some poll ∧ host.appCommand ≠ some .msg) ∨
    ∃ at_ poll₀, finished = some at_ ∧ host.u2f = some poll₀ ∧ poll.started = poll₀.started ∧
      poll.answer = some (answer, saturatingAdd at_ u2fApprovalMs)
  deliveries : host'.deliveries = host.deliveries ∨ ∃ channel command,
    host'.deliveries = host.deliveries ++ [⟨channel, command, answer⟩] ∧ host.appWorks = true ∧
      (host.appCommand = some .msg → ∀ poll, host.u2f = some poll → finished.isSome = true →
        statusBytes answer.response ≠ conditionsNotSatisfied →
        now - poll.started ≤ u2fResponseWaitMs)

theorem respond_cases (host : Host R) (answer : AppAnswer) :
    host.respond answer = host ∨ (host.appWorks = true ∧
      (∀ p, (host.respond answer).state ≠ .processing p) ∧
      (host.respond answer).u2f = host.u2f ∧ ∃ channel command,
      (host.respond answer).deliveries = host.deliveries ++ [⟨channel, command, answer⟩]) := by
  unfold respond appWorks
  split
  · rename_i processing hstate
    split
    · exact .inl rfl
    · rename_i hnone
      refine .inr ⟨by simpa using hnone, ?_⟩
      unfold enqueueAnswer
      rw [enqueueMessage_eq]
      exact ⟨by simp, rfl, processing.channel, processing.command, rfl⟩
  · exact .inl rfl

/-- An answer that is kept expires ten seconds after the user's approval. -/
theorem retainAnswer_cases (host : Host R) (poll : U2fPoll) (answer : AppAnswer) (now : ℕ)
    (finished : Option ℕ) :
    host.retainAnswer poll answer now finished = host ∨
    ∃ at_, finished = some at_ ∧ host.retainAnswer poll answer now finished = { host with
      u2f := some { poll with answer := some (answer, saturatingAdd at_ u2fApprovalMs) } } := by
  unfold retainAnswer
  dsimp only
  split
  · rename_i hkept
    obtain ⟨at_, hat⟩ := Option.isSome_iff_exists.mp hkept.1
    refine .inr ⟨at_, hat, ?_⟩
    rw [hat]
    rfl
  · exact .inl rfl

theorem replies_respond {now : ℕ} {answer : AppAnswer} (hstate : host'.state = host.state)
    (hdeliveries : host'.deliveries = host.deliveries)
    (hpoll : ∀ poll, host'.u2f = some poll → host.u2f = some poll ∧ host.appCommand ≠ some .msg)
    (hsoon : host.appCommand = some .msg → ∀ poll, host.u2f = some poll →
      finished.isSome = true → statusBytes answer.response ≠ conditionsNotSatisfied →
      now - poll.started ≤ u2fResponseWaitMs) :
    Replies now finished answer host (host'.respond answer) := by
  rcases respond_cases host' answer with
    heq | ⟨hworks, hended, hu2f, channel, command, hone⟩
  · rw [heq]
    exact ⟨fun p hp => hstate ▸ hp, fun poll h => .inl (hpoll poll h), .inl hdeliveries⟩
  · refine ⟨fun p hp => absurd hp (hended p), fun poll h => .inl (hpoll poll (hu2f ▸ h)),
      .inr ⟨channel, command, hdeliveries ▸ hone, ?_, hsoon⟩⟩
    unfold appWorks at hworks ⊢
    rw [hstate] at hworks
    exact hworks

theorem replies_retainAnswer {now : ℕ} {answer : AppAnswer} {poll : U2fPoll}
    (hhost : host.u2f = some poll)
    (hstate : ∀ p, host'.state = .processing p → host.state = .processing p)
    (hdeliveries : host'.deliveries = host.deliveries) (hnone : host'.u2f = none) :
    Replies now finished answer host (host'.retainAnswer poll answer now finished) := by
  rcases retainAnswer_cases host' poll answer now finished with heq | ⟨at_, hat, heq⟩
  · rw [heq]
    refine ⟨hstate, fun poll' hsome => ?_, .inl hdeliveries⟩
    rw [hnone] at hsome
    cases hsome
  · rw [heq]
    refine ⟨hstate, fun poll' hsome => ?_, .inl hdeliveries⟩
    cases hsome
    exact .inr ⟨at_, poll, hat, hhost, rfl, rfl⟩

theorem replies_appResponse (host : Host R) (response : Bytes) (now : ℕ) (finished : Option ℕ) :
    Replies now finished ⟨host.taken.length - 1, response⟩ host
      (host.appResponse response now finished) := by
  unfold appResponse
  dsimp only
  split
  · rename_i poll hcommand hpoll
    unfold respondToPoll
    split
    · rename_i hdenied
      exact replies_respond rfl rfl (by simp) fun _ _ _ _ hstatus => absurd hdenied hstatus
    · split
      · refine replies_retainAnswer hpoll ?_ ?_ ?_
        · rw [enqueueMessage_eq]
          simp
        · rw [enqueueMessage_eq]
          rfl
        · rw [enqueueMessage_eq]
          rfl
      · rename_i hlate
        split
        · exact replies_retainAnswer hpoll (fun p hp => hp) rfl rfl
        · rename_i hserves
          refine replies_respond rfl rfl (by simp) fun _ poll' hpoll' hfinished _ => ?_
          rw [hpoll] at hpoll'
          cases hpoll'
          unfold isLate at hlate
          simp only [Bool.not_eq_true', Bool.not_eq_false] at hserves
          rw [hserves, hfinished] at hlate
          simpa using hlate
  · rename_i hnot
    refine replies_respond rfl rfl (fun poll hpoll => ⟨hpoll, fun hcommand => ?_⟩) ?_
    · exact hnot poll hcommand hpoll
    · intro hcommand poll hpoll
      exact absurd hpoll (hnot poll hcommand)

end Host

def Event.time : Event → Option ℕ
  | .packet _ now | .timeout now | .keepalive _ now | .identified _ _ now | .answer _ now _ =>
    some now
  | _ => none

def Event.finishedAt : Event → Option ℕ
  | .answer _ _ finished => finished
  | _ => none

/-- The host, the time of the latest call that had one, that time when a request was last
handed to the application, and the answers to MSG requests that were approved: their
numbers, and when the user's presence was finished. -/
structure Clocked (R : Type) where
  host : Host R
  clock : ℕ
  handedAt : ℕ
  approved : List (ℕ × ℕ)

variable {R : Type}

/-- The approval that an event brings: a MSG request is answered with success, by the
presence of the user at some time. -/
def approvals (host : Host R) : Event → List (ℕ × ℕ)
  | .answer response _ (some at_) =>
    if host.appCommand = some .msg ∧ Host.statusBytes response = beBytes16 swNoError then
      [(host.taken.length - 1, at_)]
    else []
  | _ => []

def Event.isAside : Event → Bool
  | .take | .answer _ _ _ => false
  | _ => true

variable {e : Event}

theorem Host.Ages.move {host host' : Host R} {completed : Option (UInt32 × Bytes)}
    (he : e.isAside = true) (hmove : Host.Move (.event e) completed host host') (clock : ℕ) :
    Host.Ages (e.time.getD clock) host host' := by
  cases hmove with
  | takes h | delivers h | withdraws h | frees h | denies h | keeps h =>
    cases h
    cases he
  | replies =>
    rw [Host.enqueueMessage_eq]
    exact .ended (by simp) (.inl rfl) rfl
  | @collects poll answer expires now frame hcall _ hpoll hanswer hexpires =>
    cases hcall
    unfold Host.enqueueAnswer
    rw [Host.enqueueMessage_eq]
    exact ⟨fun p hp => (by cases hp), fun poll' hpoll' => (by cases hpoll'), ⟨rfl, rfl⟩,
      .inr ⟨poll, answer, expires, poll.channel, hpoll, hanswer, hexpires, rfl⟩⟩
  | holds hcall | holdsMsg hcall =>
    cases hcall
    refine .quiet (fun p hp => .inl ?_) (.inr rfl) rfl
    cases hp
    rfl
  | @polls poll _ hpoll | @asks poll _ _ hpoll =>
    refine ⟨fun p hp => .inr ⟨p, hp, rfl⟩, fun poll' hpoll' => ?_, ⟨rfl, rfl⟩, .inl rfl⟩
    cases hpoll'
    exact ⟨poll, hpoll, rfl, rfl⟩
  | @waits processing _ _ _ hstate =>
    refine .quiet (fun p hp => .inr ⟨processing, hstate, ?_⟩) (.inl rfl) rfl
    cases hp
    rfl
  | expires | resets => exact .kept rfl (.inr rfl) rfl
  | receives | continues | identifies | submits | ends =>
    exact .ended (by simp [Host.completeWink]) (.inl rfl) rfl
  | _ => exact .kept rfl (.inl rfl) rfl

/-- At most one answer is queued, since its prompt is gone then. -/
theorem Host.Ages.moves {host host' : Host R} {completed : Option (UInt32 × Bytes)}
    (he : e.isAside = true) (h : Host.Moves (.event e) completed host host') (clock : ℕ) :
    Host.Ages (e.time.getD clock) host host' := by
  refine (h.keeps (I := fun a => Host.Ages (e.time.getD clock) host a ∧
    (a.deliveries = host.deliveries ∨ a.u2f = none)) (fun {a b} hmove hI => ?_)
    ⟨.refl host, .inl rfl⟩).1
  obtain ⟨hages, hone⟩ := hI
  have hnext := Host.Ages.move he hmove clock
  rcases hnext.deliveries with hsame | ⟨poll, _, _, _, hpoll, -⟩
  · refine ⟨hages.trans hnext (.inr hsame), hone.imp hsame.trans fun hnone => ?_⟩
    rw [Option.eq_none_iff_forall_ne_some]
    intro poll hpoll
    obtain ⟨poll₀, hpoll₀, -⟩ := hnext.poll poll hpoll
    rw [hnone] at hpoll₀
    cases hpoll₀
  · have hsame : a.deliveries = host.deliveries := by
      refine hone.resolve_right fun hnone => ?_
      rw [hnone] at hpoll
      cases hpoll
    refine ⟨hages.trans hnext (.inl hsame), ?_⟩
    cases hmove with
    | collects =>
      rw [Host.enqueueAnswer, Host.enqueueMessage_eq]
      exact .inr rfl
    | replies =>
      rw [Host.enqueueMessage_eq]
      exact .inl hsame
    | delivers h =>
      cases h
      cases he
    | _ => exact .inl hsame

theorem approvals_of_isAside {host : Host R} (he : e.isAside = true) : approvals host e = [] := by
  cases e with
  | answer response now finished => cases he
  | _ => rfl

theorem appResponse_app (host : Host R) (response : Bytes) (now : ℕ) (finished : Option ℕ) :
    (host.appResponse response now finished).taken = host.taken ∧
      (host.appResponse response now finished).appBusy = false := by
  have hrespond := host.respond_appResponse response now finished
  change (host.appResponse response now finished).desk.taken = host.desk.taken ∧
    (host.appResponse response now finished).desk.busy = false
  generalize (host.appResponse response now finished).desk = desk' at hrespond
  generalize host.desk = desk at hrespond
  cases hrespond with
  | deliver | discard | retain => exact ⟨rfl, rfl⟩

/-- What is approved is the answer to the request handed out last. -/
theorem mem_approvals {host : Host R} {response : Bytes} {now k at_ : ℕ}
    (h : (k, at_) ∈ approvals host (.answer response now finished)) :
    k = host.taken.length - 1 ∧ finished = some at_ ∧ host.appCommand = some .msg ∧
      Host.statusBytes response ≠ Host.conditionsNotSatisfied := by
  cases finished with
  | none => cases h
  | some at' =>
    unfold approvals at h
    dsimp only at h
    split at h
    · rename_i hsuccess
      obtain ⟨rfl, rfl⟩ := Prod.mk.inj (List.mem_singleton.mp h)
      refine ⟨rfl, rfl, hsuccess.1, ?_⟩
      rw [hsuccess.2]
      decide
    · cases h

variable [CryptoRng R]

/-- Times do not decrease, and presence is finished while the application works on the
request. -/
def clockMachine (R : Type) [CryptoRng R] : Machine (Clocked R) Event where
  initial s := ∃ rng version capabilities, s = ⟨Host.withRng rng version capabilities, 0, 0, []⟩
  enabled s e := Enabled s.host e ∧ (∀ now, e.time = some now → s.clock ≤ now) ∧
    ∀ at_, e.finishedAt = some at_ → s.handedAt ≤ at_
  step s e :=
    { host := s.host.handle e
      clock := e.time.getD s.clock
      handedAt := if (s.host.handle e).taken = s.host.taken then s.handedAt else s.clock
      approved := s.approved ++ approvals s.host e }

instance (host : Host R) (e : Event) : Decidable (Enabled host e) :=
  decidable_of_iff ((match e with | .answer _ _ _ => host.appBusy | _ => true) = true)
    (by cases e <;> simp [Enabled])

instance (s : Clocked R) (e : Event) : Decidable ((clockMachine R).enabled s e) :=
  decidable_of_iff (Enabled s.host e ∧ (e.time.all fun now => s.clock ≤ now) = true ∧
    (e.finishedAt.all fun at_ => s.handedAt ≤ at_) = true) (by
      simp [clockMachine, Option.all_eq_true])

structure Timely (s : Clocked R) : Prop where
  handed : s.handedAt ≤ s.clock
  processing : ∀ p, s.host.state = .processing p → p.started ≤ s.clock
  poll : ∀ poll, s.host.u2f = some poll → poll.started ≤ s.handedAt
  busy : s.host.appBusy = true → 0 < s.host.taken.length
  answered : ∀ k at_, (k, at_) ∈ s.approved → k < s.host.taken.length ∧
    (s.host.appBusy = true → k + 1 < s.host.taken.length)
  expires : ∀ poll answer expires at_, s.host.u2f = some poll →
    poll.answer = some (answer, expires) → (answer.serial, at_) ∈ s.approved →
    expires ≤ at_ + u2fApprovalMs

theorem ages_handle (host : Host R) (he : e.isAside = true) (clock : ℕ) :
    Host.Ages (e.time.getD clock) host (host.handle e) := by
  rcases host.moves_call (.event e) with hmoves | hresync
  · exact .moves he hmoves clock
  · change Host.Ages _ host (host.call (.event e))
    generalize host.call (.event e) = host' at hresync
    cases hresync with
    | refuses _ hmoves code =>
      rw [Host.enqueueError_eq]
      exact (Host.Ages.moves he hmoves clock).trans (.kept rfl (.inl rfl) rfl) (.inr rfl)
    | resynchronises _ _ hmoves =>
      refine (Host.Ages.moves he hmoves clock).trans (Host.ages_resynchronise _ _ _ _) (.inr ?_)
      rw [Host.resynchronise, Host.enqueueMessage_eq]
      rfl

theorem clock_le (he : (clockMachine R).enabled s e) : s.clock ≤ e.time.getD s.clock := by
  cases htime : e.time with
  | none => exact le_rfl
  | some now => exact he.2.1 now htime

theorem Timely.aside (h : Timely s) (he : (clockMachine R).enabled s e)
    (haside : e.isAside = true) : Timely ((clockMachine R).step s e) := by
  have hages := ages_handle s.host haside s.clock
  have hclock := clock_le he
  have happroved : ((clockMachine R).step s e).approved = s.approved := by
    change s.approved ++ approvals s.host e = s.approved
    rw [approvals_of_isAside haside, List.append_nil]
  have hhanded : ((clockMachine R).step s e).handedAt = s.handedAt := if_pos hages.app.1
  refine ⟨?_, ?_, ?_, ?_, ?_, ?_⟩
  · rw [hhanded]
    exact le_trans h.handed hclock
  · intro p hp
    rcases hages.processing p hp with hnow | ⟨p₀, hp₀, hstarted⟩
    · exact le_of_eq hnow
    · rw [hstarted]
      exact le_trans (h.processing p₀ hp₀) hclock
  · intro poll hpoll
    obtain ⟨poll₀, hpoll₀, hstarted, -⟩ := hages.poll poll hpoll
    rw [hhanded, hstarted]
    exact h.poll poll₀ hpoll₀
  · change (s.host.handle e).appBusy = true → 0 < (s.host.handle e).taken.length
    rw [hages.app.1, hages.app.2]
    exact h.busy
  · intro k at_ hmem
    rw [happroved] at hmem
    change k < (s.host.handle e).taken.length ∧
      ((s.host.handle e).appBusy = true → k + 1 < (s.host.handle e).taken.length)
    rw [hages.app.1, hages.app.2]
    exact h.answered k at_ hmem
  · intro poll answer expires at_ hpoll hanswer hmem
    rw [happroved] at hmem
    obtain ⟨poll₀, hpoll₀, -, hanswer₀⟩ := hages.poll poll hpoll
    exact h.expires poll₀ answer expires at_ hpoll₀ (hanswer₀.symm.trans hanswer) hmem

theorem Timely.take (h : Timely s) : Timely ((clockMachine R).step s .take) := by
  obtain ⟨hprocessing, hpoll, -⟩ := s.host.takeAppRequest_started
  have happroved : ((clockMachine R).step s .take).approved = s.approved := List.append_nil _
  have hclock : ((clockMachine R).step s .take).clock = s.clock := rfl
  rcases s.host.takeAppRequest_taken with hsame | ⟨request, htaken⟩
  · have hhost : s.host.handle .take = s.host := hsame
    have hstep : (clockMachine R).step s .take = s := by
      change (⟨s.host.handle .take, s.clock, if (s.host.handle .take).taken = s.host.taken then
        s.handedAt else s.clock, s.approved ++ []⟩ : Clocked R) = s
      rw [hhost, if_pos rfl, List.append_nil]
    rw [hstep]
    exact h
  · have hhanded : ((clockMachine R).step s .take).handedAt = s.clock := by
      refine if_neg fun heq => ?_
      have heq' : s.host.takeAppRequest.1.taken = s.host.taken := heq
      rw [htaken] at heq'
      simp at heq'
    have hlength : ((clockMachine R).step s .take).host.taken.length =
        s.host.taken.length + 1 := by
      change s.host.takeAppRequest.1.taken.length = _
      rw [htaken, List.length_append, List.length_singleton]
    refine ⟨by rw [hhanded, hclock], ?_, ?_, fun _ => by omega, ?_, ?_⟩
    · intro p hp
      obtain ⟨p₀, hp₀, hstarted⟩ := hprocessing p hp
      rw [hclock, hstarted]
      exact h.processing p₀ hp₀
    · intro poll hsome
      rw [hhanded]
      rcases hpoll poll hsome with hold | ⟨-, p₀, hp₀, hstarted⟩
      · exact le_trans (h.poll poll hold) h.handed
      · rw [hstarted]
        exact h.processing p₀ hp₀
    · intro k at_ hmem
      rw [happroved] at hmem
      have hlt := (h.answered k at_ hmem).1
      omega
    · intro poll answer expires at_ hsome hanswer hmem
      rw [happroved] at hmem
      rcases hpoll poll hsome with hold | ⟨hnone, -⟩
      · exact h.expires poll answer expires at_ hold hanswer hmem
      · rw [hnone] at hanswer
        cases hanswer

theorem Timely.answer (h : Timely s) {response : Bytes} {now : ℕ}
    (he : (clockMachine R).enabled s (.answer response now finished)) :
    Timely ((clockMachine R).step s (.answer response now finished)) := by
  have hreplies := s.host.replies_appResponse response now finished
  obtain ⟨htaken, hbusy⟩ := appResponse_app s.host response now finished
  have hhanded : ((clockMachine R).step s (.answer response now finished)).handedAt =
      s.handedAt := if_pos htaken
  have hclock := clock_le he
  have hserving : s.host.appBusy = true := he.1
  refine ⟨?_, ?_, ?_, ?_, ?_, ?_⟩
  · rw [hhanded]
    exact le_trans h.handed hclock
  · intro p hp
    exact le_trans (h.processing p (hreplies.processing p hp)) hclock
  · intro poll hpoll
    rw [hhanded]
    rcases hreplies.poll poll hpoll with ⟨hold, -⟩ | ⟨_, poll₀, -, hpoll₀, hstarted, -⟩
    · exact h.poll poll hold
    · rw [hstarted]
      exact h.poll poll₀ hpoll₀
  · intro hstill
    exact absurd (hbusy.symm.trans hstill) Bool.false_ne_true
  · intro k at_ hmem
    change k < (s.host.appResponse response now finished).taken.length ∧
      ((s.host.appResponse response now finished).appBusy = true → _)
    rw [htaken, hbusy]
    refine ⟨?_, Bool.noConfusion⟩
    rcases List.mem_append.mp hmem with hmem | hmem
    · exact (h.answered k at_ hmem).1
    · rw [(mem_approvals hmem).1]
      exact Nat.sub_lt (h.busy hserving) Nat.one_pos
  · intro poll answer expires at_ hpoll hanswer hmem
    rcases hreplies.poll poll hpoll with
      ⟨hold, hother⟩ | ⟨at', poll₀, hfinished, -, -, hkept⟩
    · rcases List.mem_append.mp hmem with hmem | hmem
      · exact h.expires poll answer expires at_ hold hanswer hmem
      · exact absurd (mem_approvals hmem).2.2.1 hother
    · rw [hkept] at hanswer
      cases hanswer
      rcases List.mem_append.mp hmem with hmem | hmem
      · have hlt := (h.answered _ at_ hmem).2 hserving
        dsimp only at hlt
        omega
      · obtain ⟨-, hat, -⟩ := mem_approvals hmem
        rw [hfinished] at hat
        cases hat
        exact Nat.min_le_left _ _

theorem Timely.step (h : Timely s) (he : (clockMachine R).enabled s e) :
    Timely ((clockMachine R).step s e) := by
  cases haside : e.isAside with
  | true => exact h.aside he haside
  | false =>
    cases e with
    | take => exact h.take
    | answer response now finished => exact h.answer he
    | _ => cases haside

theorem timely_initial (h : (clockMachine R).initial s) : Timely s := by
  obtain ⟨rng, version, capabilities, rfl⟩ := h
  constructor <;> simp [Host.withRng]

/-- Where an approved answer comes in for a transaction that the application still works
on, the host still keeps the prompt. -/
def PollKept (host : Host R) (e : Event) : Prop :=
  e.finishedAt.isSome = true → host.appCommand = some .msg → host.appWorks = true →
    host.u2f.isSome = true

instance (host : Host R) (e : Event) : Decidable (PollKept host e) :=
  inferInstanceAs (Decidable (_ → _ → _ → _))

/-- In every run by the clock in which the prompt of a request is kept until its approved
answer comes or its transaction has ended, an approved answer is queued no later than ten
seconds after the user's presence was finished. -/
theorem approved_answers_expire (s₀ : Clocked R) (events : List Event) (e : Event)
    (h₀ : (clockMachine R).initial s₀)
    (hrun : (clockMachine R).Along
      (fun s e => (clockMachine R).enabled s e ∧ PollKept s.host e) s₀ (events ++ [e])) :
    let s := (clockMachine R).run s₀ events
    let s' := (clockMachine R).step s e
    ∀ delivery ∈ s'.host.deliveries.drop s.host.deliveries.length, ∀ at_,
      (delivery.answer.serial, at_) ∈ s'.approved → s'.clock ≤ at_ + u2fApprovalMs := by
  intro s s' delivery hdelivery at_ happroved
  obtain ⟨hevents, ⟨henabled, hkept⟩, -⟩ := ((clockMachine R).along_append _ _ _ _).mp hrun
  have htimely : Timely s :=
    Machine.invariant_along (fun _ _ h he => h.step he.1) (timely_initial h₀) hevents
  cases haside : e.isAside with
  | true =>
    have hsame : s'.approved = s.approved := by
      change s.approved ++ approvals s.host e = s.approved
      rw [approvals_of_isAside haside, List.append_nil]
    rw [hsame] at happroved
    rcases (ages_handle s.host haside s.clock).deliveries with
      hnone | ⟨poll, answer, expires, channel, hpoll, hanswer, hle, hone⟩
    · rw [show s'.host.deliveries = s.host.deliveries from hnone, List.drop_length] at hdelivery
      cases hdelivery
    · rw [show s'.host.deliveries = _ from hone, List.drop_left, List.mem_singleton] at hdelivery
      rw [hdelivery] at happroved
      exact le_trans hle (htimely.expires poll answer expires at_ hpoll hanswer happroved)
  | false =>
    cases e with
    | take =>
      have hnone : s'.host.deliveries = s.host.deliveries := s.host.takeAppRequest_started.2.2
      rw [hnone, List.drop_length] at hdelivery
      cases hdelivery
    | answer response now finished =>
      have hserving : s.host.appBusy = true := henabled.1
      rcases (s.host.replies_appResponse response now finished).deliveries with
        hnone | ⟨channel, command, hone, hworks, hsoon⟩
      · rw [show s'.host.deliveries = s.host.deliveries from hnone, List.drop_length] at hdelivery
        cases hdelivery
      · rw [show s'.host.deliveries = _ from hone, List.drop_left, List.mem_singleton] at hdelivery
        rw [hdelivery] at happroved
        rcases List.mem_append.mp happroved with hold | hnew
        · have hlt := (htimely.answered _ at_ hold).2 hserving
          dsimp only at hlt
          omega
        · -- The answer goes to the waiting client at once: it is soon after the request.
          obtain ⟨-, rfl, hcommand, hstatus⟩ := mem_approvals hnew
          obtain ⟨poll, hpoll⟩ := Option.isSome_iff_exists.mp (hkept rfl hcommand hworks)
          have hwait := hsoon hcommand poll hpoll rfl hstatus
          have hstarted := htimely.poll poll hpoll
          have hhanded : s.handedAt ≤ at_ := henabled.2.2 at_ rfl
          change now ≤ at_ + u2fApprovalMs
          have hwindow : u2fResponseWaitMs ≤ u2fApprovalMs := by decide
          omega
    | _ => cases haside

def freshClocked : Clocked Draws := ⟨freshHost, 0, 0, []⟩

def registrationEvents : List Event :=
  (Host.messageFrames 5 .msg ([0, 1, 0, 0, 64] ++ List.replicate 64 7)).map (.packet · 0) ++ [.take]

def approvedAnswer (now at_ : ℕ) : Event := .answer (beBytes16 swNoError) now (some at_)

/-- The prompt is dropped because its client did not poll, while the application works on
for it; then the answer comes, ten seconds after its time, and is queued all the same. -/
theorem dropped_poll_answer_queued :
    let s := (clockMachine Draws).run freshClocked (registrationEvents ++ [.timeout 3001])
    let s' := (clockMachine Draws).step s (approvedAnswer 20000 3000)
    (clockMachine Draws).initial freshClocked ∧
      (clockMachine Draws).Executes freshClocked
        (registrationEvents ++ [.timeout 3001] ++ [approvedAnswer 20000 3000]) ∧
      ∃ delivery ∈ s'.host.deliveries.drop s.host.deliveries.length,
        (delivery.answer.serial, 3000) ∈ s'.approved ∧ 3000 + u2fApprovalMs < s'.clock := by
  refine ⟨⟨_, _, _, rfl⟩, ?_, ⟨5, .msg, ⟨0, beBytes16 swNoError⟩⟩, ?_⟩
  · decide +kernel
  · decide +kernel

theorem approved_answers_expire_collected :
    let events := registrationEvents ++ [.presence true, .timeout 200, .written,
      approvedAnswer 9000 3000] ++
      (Host.messageFrames 5 .msg ([0, 1, 0, 0, 64] ++ List.replicate 64 7)).map (.packet · 13000)
    let s := (clockMachine Draws).run freshClocked events.dropLast
    let s' := (clockMachine Draws).step s (events.getLastD .interrupt)
    (∃ delivery ∈ s'.host.deliveries.drop s.host.deliveries.length,
      (delivery.answer.serial, 3000) ∈ s'.approved) ∧ s'.clock ≤ 3000 + u2fApprovalMs := by
  intro events s s'
  have hrun : (clockMachine Draws).Along
      (fun s e => (clockMachine Draws).enabled s e ∧ PollKept s.host e) freshClocked
      (events.dropLast ++ [events.getLastD .interrupt]) := by decide +kernel
  have hmem : (⟨5, .msg, ⟨0, beBytes16 swNoError⟩⟩ : Delivery) ∈
      s'.host.deliveries.drop s.host.deliveries.length := by decide +kernel
  have happroved : (0, 3000) ∈ s'.approved := by decide +kernel
  exact ⟨⟨_, hmem, happroved⟩, approved_answers_expire freshClocked events.dropLast
    (events.getLastD .interrupt) ⟨_, _, _, rfl⟩ hrun _ hmem 3000 happroved⟩

end SoftwareAuthenticator.Ctaphid
