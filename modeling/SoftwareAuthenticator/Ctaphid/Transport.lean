import SoftwareAuthenticator.Ctaphid.Run

/-!
# The transport thread and the application's thread

A step is what one thread does up to its next access to something shared: the flag through which
a request is cancelled, or one of the two channels. Requests are numbered in the order in which
they are handed out, and `raised` lists the numbers for which the host has raised an interrupt;
the source has neither.
-/

namespace SoftwareAuthenticator.Ctaphid

/-- The flag through which the transport cancels the request the application works on. -/
inductive InterruptFlag where
  | idle | working | interrupted
  deriving DecidableEq, Repr

/-- Cancel the request being worked on: an idle flag stays as it is. -/
def InterruptFlag.interrupt : InterruptFlag → InterruptFlag
  | .working => .interrupted
  | flag => flag

structure AppResponse where
  payload : Bytes
  presenceFinished : Option ℕ
  u2fEnabled : Bool
  reset : Bool
  deriving DecidableEq

/-- Where the worker thread is: it waits for a request, works on one, or has marked the flag
idle and is about to send its answer. -/
inductive Worker where
  | waiting
  | calling (serial : ℕ) (request : AppRequest)
  | answering (serial : ℕ) (response : AppResponse)
  deriving DecidableEq

/-- Where `read_frames` was called from: `poll`, or `flush_pending` before it writes a report. -/
inductive Caller where
  | poll
  | flush (frame : OutgoingFrame)
  deriving DecidableEq

inductive Point where
  /-- Between two calls of `poll`. -/
  | outside
  /-- At the head of the loop of `read_frames`. -/
  | reading (caller : Caller)
  /-- In `collect_responses`, before the packet that was read is handled. -/
  | collectingFor (caller : Caller) (frame : Frame)
  /-- `read_frames` has returned; `take_interrupt` is next. -/
  | taking (caller : Caller)
  /-- `take_interrupt` has returned true. -/
  | passing (caller : Caller)
  | collecting
  /-- `take_app_request` is next. -/
  | submitting
  /-- The flag is set for the request that is about to be sent. -/
  | sending (serial : ℕ) (request : AppRequest)
  | identifying
  | observing
  | flushing (wrote : Bool)
  | writing (frame : OutgoingFrame) (wrote : Bool)
  deriving DecidableEq

def Caller.next : Caller → Point
  | .poll => .collecting
  | .flush frame => .writing frame true

structure Transport (R : Type) where
  host : Host R
  point : Point
  flag : InterruptFlag
  requests : List (ℕ × AppRequest)
  responses : List (ℕ × AppResponse)
  worker : Worker
  raised : List ℕ

/-- One step of either thread. What a step learns from outside (packets, times, the user's
presence, answers) comes with it. -/
inductive Act where
  | beginPoll
  | readFrame (frame : Frame)
  | endRead
  | collect (now : ℕ)
  | collectIdentification (token : ℕ) (delivered : Bool) (now : ℕ)
  | handleFrame (observed : Option (Option ℕ)) (now : ℕ)
  | takeInterrupt
  | interrupt
  | endCollect
  | takeRequest
  | sendRequest
  | identify (submitted : Bool) (now : ℕ)
  | observe (observed : Option (Option ℕ)) (waiting : Bool) (now : ℕ)
  | selectFrame
  | writeFrame (now : ℕ)
  | startCall
  | endCall (response : AppResponse)
  | sendResponse
  deriving DecidableEq

namespace Transport

variable {R : Type}

def fresh (host : Host R) : Transport R := ⟨host, .outside, .idle, [], [], .waiting, []⟩

def serial (host : Host R) : ℕ := host.taken.length - 1

/-- What `observe_presence` reports: nothing new, or that the user was asked, and since when the
user has answered. -/
def presenceEvents : Option (Option ℕ) → List Event
  | none => []
  | some none => [.presence true]
  | some (some at_) => [.presence true, .presenceFinished at_]

def responseEvents (response : AppResponse) (now : ℕ) : List Event :=
  (if response.reset then [.u2fReset] else []) ++
    [.u2fEnabled response.u2fEnabled, .answer response.payload now response.presenceFinished]

variable [CryptoRng R]

/-- Calls of the host. An interrupt that the host raises is noted for the request handed out
last. -/
def calls (t : Transport R) (events : List Event) : Transport R :=
  let host := (hostMachine R).run t.host events
  { t with
    host := host
    raised := if t.host.interruptApp = false ∧ host.interruptApp = true then
        t.raised ++ [serial t.host]
      else t.raised }

def goto (t : Transport R) (point : Point) : Transport R := { t with point := point }

def Enabled (t : Transport R) : Act → Prop
  | .beginPoll => t.point = .outside
  | .readFrame _ | .endRead => ∃ caller, t.point = .reading caller
  | .collect _ => t.responses ≠ [] ∧ (t.point = .collecting ∨ ∃ caller frame,
      t.point = .collectingFor caller frame)
  | .collectIdentification _ _ _ => t.point = .collecting ∨ ∃ caller frame,
      t.point = .collectingFor caller frame
  | .handleFrame _ _ => ∃ caller frame, t.point = .collectingFor caller frame
  | .takeInterrupt => ∃ caller, t.point = .taking caller
  | .interrupt => ∃ caller, t.point = .passing caller
  | .endCollect => t.point = .collecting
  | .takeRequest => t.point = .submitting
  | .sendRequest => ∃ serial request, t.point = .sending serial request
  | .identify _ _ => t.point = .identifying
  | .observe _ _ _ => t.point = .observing
  | .selectFrame => ∃ wrote, t.point = .flushing wrote
  | .writeFrame _ => ∃ frame wrote, t.point = .writing frame wrote
  | .startCall => t.worker = .waiting ∧ t.requests ≠ []
  | .endCall _ => ∃ serial request, t.worker = .calling serial request
  | .sendResponse => ∃ serial response, t.worker = .answering serial response

/-- `take_identification_request`, refused at once where no worker accepts it. -/
def identifyEvents (host : Host R) (submitted : Bool) (now : ℕ) : List Event :=
  match host.takeIdentificationRequest.2 with
  | none => []
  | some request =>
    if submitted then [.identify] else [.identify, .identified request.token false now]

def step (t : Transport R) (act : Act) : Transport R :=
  match act, t.point with
  | .beginPoll, _ => t.goto (.reading .poll)
  | .readFrame frame, .reading caller => t.goto (.collectingFor caller frame)
  | .endRead, .reading caller => t.goto (.taking caller)
  | .collect now, _ =>
    match t.responses with
    | [] => t
    | (_, response) :: responses =>
      { t with responses := responses }.calls (responseEvents response now)
  | .collectIdentification token delivered now, _ => t.calls [.identified token delivered now]
  | .handleFrame observed now, .collectingFor caller frame =>
    (t.calls (presenceEvents observed ++ [.timeout now, .packet frame now])).goto (.reading caller)
  | .takeInterrupt, .taking caller =>
    (t.calls [.interrupt]).goto (if t.host.interruptApp then .passing caller else caller.next)
  | .interrupt, .passing caller => { t with flag := t.flag.interrupt, point := caller.next }
  | .endCollect, _ => t.goto .submitting
  | .takeRequest, _ =>
    match t.host.takeAppRequest.2 with
    | none => t.goto .identifying
    | some request =>
      { t.calls [.take] with flag := .working, point := .sending t.host.taken.length request }
  | .sendRequest, .sending serial request =>
    { t with requests := t.requests ++ [(serial, request)], point := .identifying }
  | .identify submitted now, _ =>
    (t.calls (identifyEvents t.host submitted now)).goto .observing
  | .observe observed waiting now, _ =>
    (t.calls (presenceEvents observed ++ [.timeout now, .keepalive waiting now])).goto
      (.flushing false)
  | .selectFrame, .flushing wrote =>
    match t.host.nextOutgoingFrame with
    | none => t.goto .outside
    | some frame => t.goto (if wrote then .reading (.flush frame) else .writing frame wrote)
  | .writeFrame now, .writing frame wrote =>
    let checked := t.calls [.timeout now]
    if checked.host.isOutgoingCurrent frame then (checked.calls [.written]).goto (.flushing true)
    else checked.goto (.flushing wrote)
  | .startCall, _ =>
    match t.requests with
    | [] => t
    | (serial, request) :: requests =>
      { t with requests := requests, worker := .calling serial request }
  | .endCall response, _ =>
    match t.worker with
    | .calling serial _ => { t with flag := .idle, worker := .answering serial response }
    | _ => t
  | .sendResponse, _ =>
    match t.worker with
    | .answering serial response =>
      { t with responses := t.responses ++ [(serial, response)], worker := .waiting }
    | _ => t
  | _, _ => t

end Transport

/-- Both threads, in any interleaving, with any new host. -/
def transportMachine (R : Type) [CryptoRng R] : Machine (Transport R) Act where
  initial t := ∃ rng version capabilities,
    t = Transport.fresh (Host.withRng rng version capabilities)
  enabled := Transport.Enabled
  step := Transport.step

end SoftwareAuthenticator.Ctaphid
