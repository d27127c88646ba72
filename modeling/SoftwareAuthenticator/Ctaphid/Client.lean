import SoftwareAuthenticator.Ctaphid.Packets

/-!
# The CTAPHID client

What a platform does to send a message over HID and to receive one. Reports go out and
come in over a link. A link that has nothing more to give is silent for longer than the
client waits.
-/

namespace SoftwareAuthenticator.Ctaphid

inductive HidError where
  | requestTooLarge (encodedBytes limit : ℕ)
  | io
  | ctaphid (code : UInt8)
  | silent
  | malformed (what : String)
  deriving DecidableEq

inductive Arrival where
  | report (frame : Frame)
  | failure
  deriving DecidableEq

/-- The client's side of the link: what is still to arrive, the reports written so far, and
the keepalive statuses passed on. `broken n` says that the link fails to write report `n`,
`cancelAt n` that the cancel flag is set when it is read after status `n`. -/
structure Session where
  arrivals : List Arrival
  written : List Frame
  statuses : List UInt8
  broken : ℕ → Bool
  cancelAt : ℕ → Bool

namespace Session

def send (session : Session) (report : Frame) : Except HidError Unit × Session :=
  if session.broken session.written.length then (.error .io, session)
  else (.ok (), { session with written := session.written ++ [report] })

/-- `slice.chunks(size)`. There are no more chunks than bytes. -/
def chunks (size : ℕ) : ℕ → Bytes → List Bytes
  | 0, _ => []
  | _ + 1, [] => []
  | fuel + 1, byte :: rest =>
    (byte :: rest).take size :: chunks size fuel ((byte :: rest).drop size)

def sendChunks (channel : UInt32) : ℕ → List Bytes → Session → Except HidError Unit × Session
  | _, [], session => (.ok (), session)
  | sequence, chunk :: chunks, session =>
    if 256 ≤ sequence then (.error (.malformed "a request too long"), session)
    else
      match session.send (Frame.pad (beBytes32 channel ++ [UInt8.ofNat sequence] ++ chunk)) with
      | (.error err, session) => (.error err, session)
      | (.ok _, session) => sendChunks channel (sequence + 1) chunks session

def sendMessage (session : Session) (channel : UInt32) (command : Command) (payload : Bytes) :
    Except HidError Unit × Session :=
  if payload.length > maxMessageSize then
    (.error (.requestTooLarge payload.length maxMessageSize), session)
  else
    let rest := payload.drop initData
    let report := Frame.pad (beBytes32 channel ++ [command.intoU8 ||| 0x80] ++
      beBytes16 (UInt16.ofNat payload.length) ++ payload.take initData)
    match session.send report with
    | (.error err, session) => (.error err, session)
    | (.ok _, session) => sendChunks channel 0 (chunks contData rest.length rest) session

/-- A message of which some packets have arrived, and the sequence number of the next. -/
structure Reception where
  payload : Bytes
  sequence : UInt8
  deriving DecidableEq

/-- One report while a message is incomplete. Packets of other channels are skipped. The
sequence number is counted with `wrapping_add`. -/
def receiveNext (channel : UInt32) (length : ℕ) (reception : Reception) (next : Frame) :
    Except HidError Reception :=
  if next.channel ≠ channel then .ok reception
  else if next.byte 4 ≠ reception.sequence then
    .error (.malformed "a continuation packet out of sequence")
  else
    let missing := length - reception.payload.length
    .ok ⟨reception.payload ++ (next.bytes.drop 5).take (min missing contData),
      reception.sequence + 1⟩

def receiveRest (channel : UInt32) (length : ℕ) (arrivals : List Arrival)
    (reception : Reception) : Except HidError Reception × List Arrival :=
  if length ≤ reception.payload.length then (.ok reception, arrivals)
  else
    match arrivals with
    | [] => (.error .silent, [])
    | .failure :: arrivals => (.error .io, arrivals)
    | .report next :: arrivals =>
      match receiveNext channel length reception next with
      | .error err => (.error err, arrivals)
      | .ok reception => receiveRest channel length arrivals reception
  termination_by structural arrivals

def declaredLength (report : Frame) : ℕ := ofBeBytes16 (report.byte 5) (report.byte 6)

def beginReception (report : Frame) : Reception :=
  ⟨(report.bytes.drop 7).take (min (declaredLength report) initData), 0⟩

/-- The loop over the messages on `channel`, each turn of which takes a report off the link.
CANCEL is sent at most once, when a keepalive finds the flag set. -/
def receiveLoop (channel : UInt32) (accept : Bytes → Bool) :
    ℕ → Bool → Session → Except HidError Bytes × Session
  | 0, _, session => (.error .silent, session)
  | fuel + 1, cancelled, session =>
    match session.arrivals with
    | [] => (.error .silent, session)
    | .failure :: arrivals => (.error .io, { session with arrivals := arrivals })
    | .report report :: arrivals =>
      if report.channel ≠ channel ∨ report.byte 4 &&& 0x80 = 0 then
        receiveLoop channel accept fuel cancelled { session with arrivals := arrivals }
      else
        match receiveRest channel (declaredLength report) arrivals (beginReception report) with
        | (.error err, arrivals) => (.error err, { session with arrivals := arrivals })
        | (.ok ⟨payload, _⟩, arrivals) =>
          let session := { session with arrivals := arrivals }
          match Command.tryFrom (report.byte 4 &&& 0x7f) with
          | some .keepAlive =>
            let asked := session.cancelAt session.statuses.length
            let session := { session with statuses := session.statuses ++ [payload.headD 0] }
            if cancelled = false ∧ asked = true then
              match session.sendMessage channel .cancel [] with
              | (.error err, session) => (.error err, session)
              | (.ok _, session) => receiveLoop channel accept fuel true session
            else receiveLoop channel accept fuel cancelled session
          | some .error => (.error (.ctaphid (payload.headD 0)), session)
          | some _ =>
            if accept payload then (.ok payload, session)
            else receiveLoop channel accept fuel cancelled session
          | none => receiveLoop channel accept fuel cancelled session

section Loop

variable {channel : UInt32} {accept : Bytes → Bool} {fuel : ℕ} {cancelled : Bool}
  {session : Session} {report : Frame} {arrivals : List Arrival}

theorem receiveLoop_foreign (h : session.arrivals = .report report :: arrivals)
    (hchannel : report.channel ≠ channel) :
    receiveLoop channel accept (fuel + 1) cancelled session =
      receiveLoop channel accept fuel cancelled { session with arrivals := arrivals } := by
  cases session
  cases h
  exact if_pos (.inl hchannel)

theorem receiveLoop_accepted (h : session.arrivals = .report report :: arrivals)
    (hreport : ¬(report.channel ≠ channel ∨ report.byte 4 &&& 0x80 = 0)) {payload : Bytes}
    {sequence : UInt8} {later : List Arrival}
    (hrest : receiveRest channel (declaredLength report) arrivals (beginReception report) =
      (.ok ⟨payload, sequence⟩, later)) {command : Command}
    (htry : Command.tryFrom (report.byte 4 &&& 0x7f) = some command)
    (hcommand : command ≠ .keepAlive ∧ command ≠ .error) (haccept : accept payload = true) :
    (receiveLoop channel accept (fuel + 1) cancelled session).1 = .ok payload := by
  cases session
  cases h
  change Prod.fst (@ite _ _ _ _ _) = _
  rw [if_neg hreport, hrest]
  simp only [htry]
  cases command with
  | keepAlive => exact absurd rfl hcommand.1
  | error => exact absurd rfl hcommand.2
  | _ => simp only [haccept, if_true]

end Loop

def receiveMessage (session : Session) (channel : UInt32) (accept : Bytes → Bool) :
    Except HidError Bytes × Session :=
  receiveLoop channel accept (session.arrivals.length + 1) false session

end Session

end SoftwareAuthenticator.Ctaphid
