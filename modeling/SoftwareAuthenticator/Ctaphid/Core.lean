import SoftwareAuthenticator.Ctaphid.Output

/-!
# The transaction core of the host

What the host decides about transactions, prompts, leases and the application rests on a
part of its record, the core. What each small move preserves of the core, calls preserve.
-/

namespace SoftwareAuthenticator.Ctaphid

structure Core where
  state : State
  lease : Option (UInt32 × ℕ)
  message : Bytes
  channels : Channels
  appBusy : Bool
  appCommand : Option Command
  u2f : Option U2fPoll
  deniedPolls : List DeniedPoll
  taken : List Taken

def Host.core {R : Type} (host : Host R) : Core where
  state := host.state
  lease := host.lease
  message := host.message
  channels := host.channels
  appBusy := host.appBusy
  appCommand := host.appCommand
  u2f := host.u2f
  deniedPolls := host.deniedPolls
  taken := host.taken

/-- What INIT on `channel` leaves: its transaction is over, its refusals are forgotten, and
the reply is under way. -/
def Core.aborted (core : Core) (channel : UInt32) (u2f : Option U2fPoll) (token : ℕ) : Core :=
  { core with
    message := []
    u2f
    deniedPolls := core.deniedPolls.filter fun poll => poll.channel ≠ channel
    state := .transmitting channel token }

namespace Host

variable {R : Type}

@[simp] theorem core_pushFrames (host : Host R) (frames : List Frame) :
    (host.pushFrames frames).core = host.core := rfl

@[simp] theorem core_enqueueError (host : Host R) (channel : UInt32) (code : ErrorCode) :
    (host.enqueueError channel code).core = host.core := by
  rw [enqueueError_eq, core_pushFrames]

theorem core_enqueueMessage (host : Host R) (channel : UInt32) (command : Command)
    (payload : Bytes) :
    (enqueueMessage host channel command payload).core =
      { host.core with state := .transmitting channel (finalToken host channel command payload) } := by
  rw [enqueueMessage_eq]
  rfl

theorem core_enqueueAnswer (host : Host R) (channel : UInt32) (command : Command)
    (answer : AppAnswer) :
    (enqueueAnswer host channel command answer).core =
      { host.core with
        state := .transmitting channel (finalToken host channel command answer.response) } :=
  core_enqueueMessage _ channel command answer.response

theorem core_resynchronise (host : Host R) (channel assigned : UInt32) (data : Bytes) :
    ∃ u2f token, (u2f = host.u2f ∨ u2f = none) ∧
      (host.resynchronise channel assigned data).core = host.core.aborted channel u2f token := by
  unfold resynchronise
  rw [core_enqueueMessage]
  refine ⟨_, _, ?_, rfl⟩
  split
  · exact .inr rfl
  · exact .inl rfl

theorem core_respond (host : Host R) (answer : AppAnswer) :
    (∃ processing token, host.state = .processing processing ∧ processing.request = none ∧
      (host.respond answer).core =
        { host.core with state := .transmitting processing.channel token }) ∨
    ((∀ processing, host.state = .processing processing → processing.request.isSome = true) ∧
      host.respond answer = host) := by
  unfold respond
  split
  · rename_i processing hstate
    split
    · rename_i hheld
      refine .inr ⟨fun processing' hstate' => ?_, rfl⟩
      rw [hstate] at hstate'
      cases hstate'
      exact hheld
    · rename_i hworks
      exact .inl ⟨processing, _, hstate, Option.not_isSome_iff_eq_none.mp hworks,
        core_enqueueMessage _ _ _ _⟩
  · rename_i hstate
    exact .inr ⟨fun processing hprocessing => absurd hprocessing (hstate processing), rfl⟩

variable [CryptoRng R]

theorem core_keeps {I : Core → Prop} (host : Host R) (call : Call)
    (hmove : ∀ {a b : Host R}, Move call (host.submittedBy call) a b → I a.core → I b.core)
    (hinit : ∀ {core : Core} {frame now u2f} (token : ℕ), call = .event (.packet frame now) →
      frame.isInit → u2f = core.u2f ∨ u2f = none → I core →
      I (core.aborted frame.channel u2f token))
    (h : I host.core) : I (host.call call).core := by
  rcases host.moves_call call with hmoves | hconcludes
  · exact hmoves.keeps (I := fun a => I a.core) hmove h
  · generalize host.call call = host' at hconcludes
    cases hconcludes with
    | refuses _ hmoves code =>
      rw [core_enqueueError]
      exact hmoves.keeps (I := fun a => I a.core) hmove h
    | resynchronises hcall hframe hmoves _ assigned data =>
      obtain ⟨u2f, token, hu2f, heq⟩ := core_resynchronise _ _ assigned data
      rw [heq]
      exact hinit token hcall hframe hu2f (hmoves.keeps (I := fun a => I a.core) hmove h)

end Host

end SoftwareAuthenticator.Ctaphid
