import SoftwareAuthenticator.Ctaphid.Cancellation

/-!
# Requests and answers between the two threads

Every request that the host hands out reaches the worker once and in order, and every answer
of the worker reaches the host once and in order, however the two threads take turns.
-/

namespace SoftwareAuthenticator.Ctaphid

namespace Worker

def call : Worker → List AppRequest
  | .calling _ request => [request]
  | _ => []

def answer : Worker → List AppResponse
  | .answering _ response => [response]
  | _ => []

end Worker

namespace Transport

variable {R : Type}

/-- The request that the worker begins with in a step. -/
def begun (t : Transport R) : Act → List AppRequest
  | .startCall => (t.requests.take 1).map Prod.snd
  | _ => []

def finished (_ : Transport R) : Act → List AppResponse
  | .endCall response => [response]
  | _ => []

/-- The answer that the host is given in a step. -/
def handled (t : Transport R) : Act → List AppResponse
  | .collect _ => (t.responses.take 1).map Prod.snd
  | _ => []

def awaited (t : Transport R) : List AppRequest :=
  (t.requests ++ t.point.sent.toList).map Prod.snd

def unsettled (t : Transport R) : List AppResponse :=
  t.responses.map Prod.snd ++ t.worker.answer

/-- What was handed out, begun, finished and handled between two states. -/
structure Passes (t t' : Transport R) (begun : List AppRequest)
    (finished handled : List AppResponse) : Prop where
  requests : ∃ new, t'.host.taken = t.host.taken ++ new ∧
    t.awaited ++ new.map Taken.request = begun ++ t'.awaited
  responses : t.unsettled ++ finished = handled ++ t'.unsettled
  calls : begun.length + t.worker.call.length = t'.worker.call.length + finished.length

variable {t t' t'' : Transport R}

theorem Passes.refl (t : Transport R) : Passes t t [] [] [] where
  requests := ⟨[], by simp⟩
  responses := by simp
  calls := by simp

theorem Passes.trans {b b' : List AppRequest} {f f' h h' : List AppResponse}
    (h₁ : Passes t t' b f h) (h₂ : Passes t' t'' b' f' h') :
    Passes t t'' (b ++ b') (f ++ f') (h ++ h') where
  requests := by
    obtain ⟨new₁, htaken₁, heq₁⟩ := h₁.requests
    obtain ⟨new₂, htaken₂, heq₂⟩ := h₂.requests
    refine ⟨new₁ ++ new₂, by rw [htaken₂, htaken₁, List.append_assoc], ?_⟩
    rw [List.map_append, ← List.append_assoc, heq₁, List.append_assoc, heq₂, List.append_assoc]
  responses := by
    rw [← List.append_assoc, h₁.responses, List.append_assoc, h₂.responses, List.append_assoc]
  calls := by
    have := h₁.calls
    have := h₂.calls
    simp only [List.length_append]
    omega

/-- The two threads exchange nothing. -/
theorem Passes.quiet (htaken : t'.host.taken = t.host.taken)
    (hrest : (t'.requests, t'.point.sent, t'.responses, t'.worker) =
      (t.requests, t.point.sent, t.responses, t.worker)) : Passes t t' [] [] [] := by
  obtain ⟨hrequests, hsent, hresponses, hworker⟩ : _ ∧ _ ∧ _ ∧ _ := by simpa using hrest
  refine ⟨⟨[], ?_, ?_⟩, ?_, ?_⟩
  · simp [htaken]
  · simp [awaited, hrequests, hsent]
  · simp [unsettled, hresponses, hworker]
  · simp [hworker]

variable [CryptoRng R]

theorem taken_run (host : Host R) {events : List Event} (h : Event.take ∉ events) :
    ((hostMachine R).run host events).taken = host.taken := by
  induction events generalizing host with
  | nil => rfl
  | cons event events ih =>
    obtain ⟨hevent, hrest⟩ := not_or.mp (mt List.mem_cons.mpr h)
    refine (ih _ hrest).trans ?_
    change (host.handle event).taken = host.taken
    cases event with
    | take => exact absurd rfl hevent
    | answer response now finished => exact (Host.appResponse_free host response now finished).2
    | _ => exact (ages_handle host rfl 0).app.1

omit [CryptoRng R] in
theorem take_notMem {events : List Event} (h : ∀ event ∈ events, event.isBeside = true) :
    Event.take ∉ events := fun hmem => absurd (h _ hmem) Bool.false_ne_true

theorem passes_step {act : Act} (hact : t.Enabled act) :
    Passes t (t.step act) (t.begun act) (t.finished act) (t.handled act) := by
  cases act with
  | beginPoll | endCollect =>
    have hpoint : t.point = _ := hact
    exact .quiet rfl (by rw [hpoint]; rfl)
  | readFrame | endRead | interrupt =>
    obtain ⟨caller, hpoint⟩ := hact
    simp only [Transport.step, hpoint]
    exact .quiet rfl (by rw [hpoint]; cases caller <;> rfl)
  | collectIdentification => exact .quiet (taken_run _ (by simp)) rfl
  | handleFrame observed =>
    obtain ⟨caller, frame, hpoint⟩ := hact
    simp only [Transport.step, hpoint]
    refine .quiet (taken_run _ ?_) (by rw [hpoint]; rfl)
    simpa using take_notMem (isBeside_presenceEvents observed)
  | takeInterrupt =>
    obtain ⟨caller, hpoint⟩ := hact
    simp only [Transport.step, hpoint]
    refine .quiet (taken_run _ (by simp)) ?_
    rw [hpoint]
    cases t.host.interruptApp <;> cases caller <;> rfl
  | identify submitted now =>
    have hpoint : t.point = .identifying := hact
    exact .quiet (taken_run _ (take_notMem (isBeside_identifyEvents t.host submitted now)))
      (by rw [hpoint]; rfl)
  | observe observed =>
    have hpoint : t.point = .observing := hact
    refine .quiet (taken_run _ ?_) (by rw [hpoint]; rfl)
    simpa using take_notMem (isBeside_presenceEvents observed)
  | selectFrame =>
    obtain ⟨wrote, hpoint⟩ := hact
    simp only [Transport.step, hpoint]
    split
    · exact .quiet rfl (by rw [hpoint]; rfl)
    · cases wrote <;> exact .quiet rfl (by rw [hpoint]; rfl)
  | writeFrame now =>
    obtain ⟨frame, wrote, hpoint⟩ := hact
    simp only [Transport.step, hpoint]
    split
    · exact .quiet (@taken_run _ _ t.host [.timeout now, .written] (by simp)) (by rw [hpoint]; rfl)
    · exact .quiet (taken_run _ (by simp)) (by rw [hpoint]; rfl)
  | takeRequest =>
    have hpoint : t.point = .submitting := hact
    cases hrequest : t.host.takeAppRequest.2 with
    | none =>
      simp only [Transport.step, hrequest]
      exact .quiet rfl (by rw [hpoint]; rfl)
    | some request =>
      obtain ⟨-, -, channel, htaken⟩ := Host.takeAppRequest_some hrequest
      simp only [Transport.step, hrequest]
      refine ⟨⟨[⟨channel, request⟩], htaken, ?_⟩, List.append_nil _, Nat.zero_add _⟩
      simp [awaited, begun, hpoint, Point.sent, Transport.calls]
  | sendRequest =>
    obtain ⟨n, request, hpoint⟩ := hact
    simp only [Transport.step, hpoint]
    refine ⟨⟨[], (List.append_nil _).symm, ?_⟩, List.append_nil _, Nat.zero_add _⟩
    simp [awaited, begun, hpoint, Point.sent]
  | startCall =>
    obtain ⟨hworker, hrequests⟩ := hact
    obtain ⟨⟨n, request⟩, requests, heq⟩ := List.exists_cons_of_ne_nil hrequests
    simp only [Transport.step, heq]
    refine ⟨⟨[], (List.append_nil _).symm, ?_⟩, ?_, ?_⟩
    · simp [awaited, begun, heq]
    · simp [unsettled, finished, handled, hworker, Worker.answer]
    · simp [begun, finished, heq, hworker, Worker.call]
  | endCall | sendResponse =>
    obtain ⟨n, _, hworker⟩ := hact
    simp only [Transport.step, hworker]
    refine ⟨⟨[], (List.append_nil _).symm, ?_⟩, ?_, ?_⟩
    · simp [awaited, begun]
    · simp [unsettled, finished, handled, hworker, Worker.answer]
    · simp [begun, finished, hworker, Worker.call]
  | collect now =>
    obtain ⟨hresponses, -⟩ := hact
    obtain ⟨⟨n, response⟩, responses, heq⟩ := List.exists_cons_of_ne_nil hresponses
    simp only [Transport.step, heq]
    refine ⟨⟨[], ?_, ?_⟩, ?_, Nat.zero_add _⟩
    · rw [List.append_nil]
      refine taken_run _ ?_
      unfold responseEvents
      split <;> simp
    · simp [awaited, begun, Transport.calls]
    · simp [unsettled, finished, handled, heq, Transport.calls]

theorem passes_run {acts : List Act} (h : (transportMachine R).Executes t acts) :
    Passes t ((transportMachine R).run t acts) ((transportMachine R).outputs begun t acts)
      ((transportMachine R).outputs finished t acts)
      ((transportMachine R).outputs handled t acts) := by
  induction acts generalizing t with
  | nil => exact .refl t
  | cons act acts ih => exact (passes_step h.1).trans (ih h.2)

omit [CryptoRng R] in
/-- What is between the threads is one request, or its answer. -/
theorem Custody.held {place : Place} (h : t.Custody place) :
    t.awaited.length + t.worker.call.length + t.unsettled.length = t.host.appBusy.toNat := by
  rw [awaited, unsettled, h.requests, h.sent, h.worker, h.responses, h.busy]
  cases place <;> rfl

/-- The requests that the host has handed out are, in order, those that the worker has begun
and at most one that is on its way there. The answers that the worker has finished are, in
order, those that the host was given and at most one on its way. Each request begun but
the one being worked on is answered. -/
theorem exchange_exact {acts : List Act} (ht : (transportMachine R).initial t)
    (h : (transportMachine R).Executes t acts) :
    let t' := (transportMachine R).run t acts
    let begun := (transportMachine R).outputs begun t acts
    let finished := (transportMachine R).outputs finished t acts
    t'.host.taken.map Taken.request = begun ++ t'.awaited ∧
      finished = (transportMachine R).outputs handled t acts ++ t'.unsettled ∧
      begun.length = t'.worker.call.length + finished.length ∧
      t'.awaited.length + t'.worker.call.length + t'.unsettled.length =
        t'.host.appBusy.toNat := by
  intro t' begun finished
  obtain ⟨place, hplace⟩ := (sane_reachable ⟨t, acts, ht, h, rfl⟩).custody
  obtain ⟨⟨new, htaken, hrequests⟩, hresponses, hcalls⟩ := passes_run h
  obtain ⟨rng, version, capabilities, rfl⟩ := ht
  refine ⟨?_, hresponses, hcalls, hplace.held⟩
  rw [htaken]
  exact hrequests

end Transport

theorem exchange_exact_cancelledCall :
    let t := (transportMachine Draws).run (Transport.fresh freshHost) cancelledCall
    t.host.taken.map Taken.request = [⟨.cbor, [4]⟩] ∧ t.worker.call.length = 1 := by
  intro t
  have ht : (transportMachine Draws).initial (Transport.fresh freshHost) := ⟨_, _, _, rfl⟩
  obtain ⟨htaken, -⟩ := Transport.exchange_exact ht executes_cancelledCall
  exact ⟨htaken.trans (by decide +kernel), by decide +kernel⟩

end SoftwareAuthenticator.Ctaphid
