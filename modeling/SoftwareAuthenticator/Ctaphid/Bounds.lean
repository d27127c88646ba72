import SoftwareAuthenticator.Ctaphid.Core

/-!
# The host's memory is bounded

Whether one more refusal can be remembered is tested when a request is complete, and the refusal
is entered when the application answers. In between at most one request is on its way.
-/

namespace SoftwareAuthenticator.Ctaphid

open U2fApdu (requestsPresence)

variable {channels : Channels}

namespace Core

open Host (Move)

variable {R : Type} {call : Call} {completed : Option (UInt32 × Bytes)} {core : Core}
  {host host' : Host R}

variable {message : Bytes} {deniedPolls : List DeniedPoll}

/-- The application works on the transaction that was handed out, and on the request of a
prompt without an answer. -/
structure Coherent (core : Core) : Prop where
  busy : core.appBusy = core.appCommand.isSome
  served : ∀ processing, core.state = .processing processing → processing.request = none →
    core.appCommand = some processing.command
  tied : ∀ processing poll, core.state = .processing processing → core.u2f = some poll →
    processing.request = none ∧ processing.command = .msg ∧ poll.channel = processing.channel
  prompt : ∀ poll, core.u2f = some poll → (poll.answer = none ↔ core.appCommand = some .msg)

theorem Coherent.elsewhere (h : core.Coherent) {state : State} {lease : Option (UInt32 × ℕ)}
    (hstate : ∀ processing, state ≠ .processing processing) :
    ({ core with state, message, lease, channels, deniedPolls } : Core).Coherent :=
  ⟨h.busy, fun processing hp => absurd hp (hstate processing),
    fun processing _ hp => absurd hp (hstate processing), h.prompt⟩

theorem Coherent.beside (h : core.Coherent) {lease : Option (UInt32 × ℕ)} :
    ({ core with message, lease, channels, deniedPolls } : Core).Coherent :=
  ⟨h.busy, h.served, h.tied, h.prompt⟩

theorem Coherent.dropPoll (h : core.Coherent) :
    ({ core with u2f := none, deniedPolls } : Core).Coherent :=
  ⟨h.busy, h.served, fun _ _ _ hpoll => (by cases hpoll), fun _ hpoll => (by cases hpoll)⟩

theorem Coherent.hold (h : core.Coherent) {channel : UInt32} {command : Command} {now : ℕ} :
    ({ core with
      u2f := none, deniedPolls
      state := heldAt channel command now message } : Core).Coherent := by
  refine ⟨h.busy, fun processing hp hnone => ?_, fun _ _ _ hpoll => (by cases hpoll),
    fun _ hpoll => (by cases hpoll)⟩
  cases hp
  cases hnone

/-- A prompt that is for the same channel, and has an answer if it had one. -/
theorem Coherent.poll (h : core.Coherent) {poll poll' : U2fPoll} (hpoll : core.u2f = some poll)
    (hchannel : poll'.channel = poll.channel) (hanswer : poll'.answer = poll.answer) :
    ({ core with u2f := some poll' } : Core).Coherent := by
  refine ⟨h.busy, h.served, fun processing _ hp hpoll' => ?_, fun _ hpoll' => ?_⟩
  · cases hpoll'
    rw [hchannel]
    exact h.tied processing poll hp hpoll
  · cases hpoll'
    rw [hanswer]
    exact h.prompt poll hpoll

theorem Coherent.wait (h : core.Coherent) {processing processing' : Processing}
    (hstate : core.state = .processing processing)
    (hchannel : processing'.channel = processing.channel)
    (hcommand : processing'.command = processing.command)
    (hrequest : processing'.request = processing.request) :
    ({ core with state := .processing processing' } : Core).Coherent := by
  refine ⟨h.busy, fun _ hp hnone => ?_, fun _ poll hp hpoll => ?_, h.prompt⟩
  · cases hp
    rw [hrequest] at hnone
    rw [hcommand]
    exact h.served processing hstate hnone
  · cases hp
    rw [hrequest, hcommand, hchannel]
    exact h.tied processing poll hstate hpoll

theorem Coherent.take (h : core.Coherent) {processing : Processing} {payload : Bytes}
    {taken : List Taken} (hstate : core.state = .processing processing)
    (hrequest : processing.request = some payload) :
    ({ core with
      state := .processing { processing with request := none }
      u2f := if processing.command = .msg ∧ requestsPresence payload = true then
          some (.start processing.channel payload processing.started)
        else core.u2f
      appBusy := true
      appCommand := some processing.command
      taken } : Core).Coherent := by
  have hnone : core.u2f = none := by
    cases hpoll : core.u2f with
    | none => rfl
    | some poll =>
      have := (h.tied processing poll hstate hpoll).1
      rw [hrequest] at this
      cases this
  rw [hnone]
  refine ⟨rfl, fun _ hp _ => ?_, fun _ poll hp hpoll => ?_, fun poll hpoll => ?_⟩
  · cases hp
    rfl
  · cases hp
    dsimp only at hpoll
    split at hpoll
    · rename_i hmsg
      cases hpoll
      exact ⟨rfl, hmsg.1, rfl⟩
    · cases hpoll
  · dsimp only at hpoll ⊢
    split at hpoll
    · rename_i hmsg
      cases hpoll
      rw [hmsg.1]
      exact ⟨fun _ => rfl, fun _ => rfl⟩
    · cases hpoll

theorem Coherent.free (h : core.Coherent)
    (hstate : ∀ processing, core.state = .processing processing →
      core.appCommand = some processing.command → processing.request.isSome = true)
    (hpoll : core.appCommand = some .msg → core.u2f = none) :
    ({ core with appBusy := false, appCommand := none } : Core).Coherent := by
  refine ⟨rfl, fun processing hp hnone => ?_, h.tied, fun poll hsome => ?_⟩
  · have := hstate processing hp (h.served processing hp hnone)
    rw [hnone] at this
    cases this
  · refine ⟨fun hanswer => ?_, fun hcommand => by cases hcommand⟩
    have := hpoll ((h.prompt poll hsome).mp hanswer)
    rw [show core.u2f = some poll from hsome] at this
    cases this

theorem Coherent.keep (h : core.Coherent) {poll : U2fPoll} {answer : AppAnswer × ℕ}
    (hstate : ∀ processing, core.state = .processing processing →
      core.appCommand = some processing.command → processing.request.isSome = true)
    (hpoll : core.u2f = some poll) :
    ({ core with
      appBusy := false, appCommand := none
      u2f := some { poll with answer := some answer } } : Core).Coherent := by
  have hnone : ∀ processing, core.state = .processing processing →
      processing.request.isSome = true := by
    intro processing hp
    cases hrequest : processing.request with
    | some payload => rfl
    | none =>
      have := hstate processing hp (h.served processing hp hrequest)
      rw [hrequest] at this
      cases this
  refine ⟨rfl, fun processing hp hrequest => ?_, fun processing _ hp _ => ?_, fun _ hsome => ?_⟩
  · have := hnone processing hp
    rw [hrequest] at this
    cases this
  · have := hnone processing hp
    rw [(h.tied processing poll hp hpoll).1] at this
    cases this
  · cases hsome
    exact ⟨fun hanswer => (by cases hanswer), fun hcommand => (by cases hcommand)⟩

theorem Coherent.move (h : host.core.Coherent) (hmove : Move call completed host host') :
    host'.core.Coherent := by
  cases hmove with
  | receives | continues | identifies | submits | ends =>
    exact h.elsewhere (by simp [Host.completeWink])
  | replies | delivers =>
    simp only [Host.core_enqueueMessage, Host.core_enqueueAnswer]
    exact h.elsewhere (by simp)
  | collects =>
    have hdropped : ({ host.core with u2f := none } : Core).Coherent := h.dropPoll
    rw [Host.core_enqueueAnswer]
    exact hdropped.elsewhere (by simp)
  | holds | holdsMsg => exact h.hold
  | polls hpoll | asks hpoll => exact h.poll hpoll rfl rfl
  | expires | withdraws | resets | denies => exact h.dropPoll
  | waits hstate => exact h.wait hstate rfl rfl rfl
  | takes _ _ hstate hrequest => exact h.take hstate hrequest
  | frees _ hstate hpoll => exact h.free hstate hpoll
  | keeps _ hstate _ hpoll => exact h.keep hstate hpoll
  | _ => exact h.beside

end Core

def DeniedPoll.key (poll : DeniedPoll) : UInt32 × Bytes := (poll.channel, poll.request)

namespace Host

variable {channel : UInt32} {request : Bytes} {now : ℕ} {polls : List DeniedPoll}

theorem refreshDenied_keys {polls' : List DeniedPoll}
    (h : refreshDenied channel request now polls = some polls') :
    polls'.map DeniedPoll.key = polls.map DeniedPoll.key := by
  induction polls generalizing polls' with
  | nil => cases h
  | cons poll rest ih =>
    unfold refreshDenied at h
    split at h
    · split at h
      · cases h
        rfl
      · cases h
    · obtain ⟨rest', hrest, rfl⟩ := Option.map_eq_some_iff.mp h
      rw [List.map_cons, List.map_cons, ih hrest]

/-- A refresh keeps every entry, with its time or the present one. -/
theorem mem_of_refreshDenied {polls' : List DeniedPoll}
    (h : refreshDenied channel request now polls = some polls') {poll : DeniedPoll}
    (hmem : poll ∈ polls) :
    poll ∈ polls' ∨ (poll.key = (channel, request) ∧ { poll with lastPoll := now } ∈ polls') := by
  induction polls generalizing polls' with
  | nil => cases h
  | cons first rest ih =>
    unfold refreshDenied at h
    split at h
    · rename_i hsame
      split at h
      · cases h
        rcases List.mem_cons.mp hmem with rfl | hmem
        · exact .inr ⟨Prod.ext hsame.1 hsame.2, List.mem_cons_self⟩
        · exact .inl (List.mem_cons_of_mem _ hmem)
      · cases h
    · obtain ⟨rest', hrest, rfl⟩ := Option.map_eq_some_iff.mp h
      rcases List.mem_cons.mp hmem with rfl | hmem
      · exact .inl List.mem_cons_self
      · rcases ih hrest hmem with hkept | ⟨hkey, hnew⟩
        · exact .inl (List.mem_cons_of_mem _ hkept)
        · exact .inr ⟨hkey, List.mem_cons_of_mem _ hnew⟩

/-- The first entry for a request is the only one, so a request that is not refreshed has
no recent entry. -/
theorem refreshDenied_none (hdistinct : (polls.map DeniedPoll.key).Nodup)
    (h : refreshDenied channel request now polls = none) :
    ∀ poll ∈ polls, poll.key = (channel, request) → u2fPollTimeoutMs < now - poll.lastPoll := by
  induction polls with
  | nil => simp
  | cons first rest ih =>
    rw [List.map_cons, List.nodup_cons] at hdistinct
    intro poll hmem hkey
    unfold refreshDenied at h
    split at h
    · rename_i hsame
      split at h
      · cases h
      · rename_i hold
        rcases List.mem_cons.mp hmem with rfl | hmem
        · exact Nat.lt_of_not_le hold
        · have hkeys : poll.key ∈ rest.map DeniedPoll.key := List.mem_map_of_mem hmem
          rw [hkey, ← hsame.1, ← hsame.2] at hkeys
          exact absurd hkeys hdistinct.1
    · rename_i hother
      rcases List.mem_cons.mp hmem with rfl | hmem
      · exact absurd ⟨congrArg Prod.fst hkey, congrArg Prod.snd hkey⟩ hother
      · exact ih hdistinct.2 (Option.map_eq_none_iff.mp h) poll hmem hkey

theorem retainRecentDenied_sublist (now : ℕ) (polls : List DeniedPoll) :
    (retainRecentDenied now polls).Sublist polls := List.filter_sublist

theorem mem_retainRecentDenied {poll : DeniedPoll} :
    poll ∈ retainRecentDenied now polls ↔
      poll ∈ polls ∧ now - poll.lastPoll ≤ u2fPollTimeoutMs := by
  simp [retainRecentDenied]

end Host

namespace Channels

structure Bounded (channels : Channels) : Prop where
  length : channels.ids.length ≤ maxChannels
  distinct : channels.ids.Nodup
  proper : ∀ id ∈ channels.ids, id ≠ 0 ∧ id ≠ broadcastCid

theorem Bounded.touch (h : channels.Bounded) (id : UInt32) : (channels.touch id).Bounded := by
  unfold Channels.touch
  split
  · rename_i hmem
    have hmem : id ∈ channels.ids := by simpa [Channels.contains] using hmem
    have hperm : (channels.ids.erase id ++ [id]).Perm channels.ids := by
      refine List.perm_append_comm.trans ?_
      exact (List.perm_cons_erase hmem).symm
    exact ⟨hperm.length_eq ▸ h.length, hperm.nodup_iff.mpr h.distinct,
      fun other hother => h.proper other (hperm.mem_iff.mp hother)⟩
  · exact h

theorem Bounded.insert {channels channels' : Channels} (h : channels.Bounded) {id : UInt32}
    (hzero : id ≠ 0) (hbroadcast : id ≠ broadcastCid)
    (hinsert : channels.insert id = some channels') : channels'.Bounded := by
  unfold Channels.insert at hinsert
  split at hinsert
  · cases hinsert
  · rename_i hnew
    have hnew : id ∉ channels.ids := by simpa [Channels.contains] using hnew
    -- The new identifier goes to the end of the table, or of the table without its head.
    have hput : ∀ ids : List UInt32, ids.Sublist channels.ids → ids.length < maxChannels →
        (⟨ids ++ [id]⟩ : Channels).Bounded := by
      intro ids hsub hroom
      refine ⟨by simpa using Nat.succ_le_of_lt hroom, ?_, fun other hother => ?_⟩
      · refine List.nodup_append.mpr ⟨hsub.nodup h.distinct, List.nodup_singleton id, ?_⟩
        rintro other hother _ hsame rfl
        rw [List.mem_singleton.mp hsame] at hother
        exact hnew (hsub.subset hother)
      · rcases List.mem_append.mp hother with hother | hother
        · exact h.proper other (hsub.subset hother)
        · rw [List.mem_singleton.mp hother]
          exact ⟨hzero, hbroadcast⟩
    split at hinsert
    · rename_i hfull
      cases hinsert
      refine hput _ (List.tail_sublist _) ?_
      rw [List.length_tail, hfull]
      decide
    · rename_i hroom
      cases hinsert
      exact hput _ (List.Sublist.refl _) (Nat.lt_of_le_of_ne h.length hroom)

end Channels

/-- One more refusal can be remembered, and none is for this request. -/
def Room (polls : List DeniedPoll) (key : UInt32 × Bytes) : Prop :=
  polls.length < maxChannels ∧ key ∉ polls.map DeniedPoll.key

variable {key : UInt32 × Bytes}

theorem Room.sublist {polls polls' : List DeniedPoll} (h : Room polls key)
    (hsub : polls'.Sublist polls) : Room polls' key :=
  ⟨lt_of_le_of_lt hsub.length_le h.1, fun hmem => h.2 ((hsub.map _).subset hmem)⟩

theorem Room.congr {polls polls' : List DeniedPoll} (h : Room polls key)
    (hkeys : polls'.map DeniedPoll.key = polls.map DeniedPoll.key) : Room polls' key := by
  have hlength := congrArg List.length hkeys
  rw [List.length_map, List.length_map] at hlength
  unfold Room
  rw [hkeys, hlength]
  exact h

namespace Core

open Host (Move)

variable {R : Type} {call : Call} {completed : Option (UInt32 × Bytes)} {core : Core}
  {host host' : Host R}

structure Bounded (core : Core) : Prop where
  coherent : core.Coherent
  channels : core.channels.Bounded
  message : core.message.length ≤ maxMessageSize
  receiving : ∀ channel command length sequence last,
    core.state = .receiving channel command length sequence last →
      core.message.length ≤ length ∧ length ≤ maxMessageSize
  denied : core.deniedPolls.length ≤ maxChannels
  distinct : (core.deniedPolls.map DeniedPoll.key).Nodup
  held : ∀ processing payload, core.state = .processing processing →
    processing.request = some payload → processing.command = .msg →
    requestsPresence payload = true → Room core.deniedPolls (processing.channel, payload)
  asked : ∀ poll, core.u2f = some poll → poll.answer = none →
    core.deniedPolls.length < maxChannels
  apart : ∀ poll, core.u2f = some poll →
    (poll.channel, poll.request) ∉ core.deniedPolls.map DeniedPoll.key

theorem Bounded.forget (h : core.Bounded) {polls : List DeniedPoll}
    (hsub : polls.Sublist core.deniedPolls) : ({ core with deniedPolls := polls } : Core).Bounded where
  coherent := h.coherent.beside
  channels := h.channels
  message := h.message
  receiving := h.receiving
  denied := le_trans hsub.length_le h.denied
  distinct := (hsub.map _).nodup h.distinct
  held processing payload hp hrequest hmsg hpresence :=
    (h.held processing payload hp hrequest hmsg hpresence).sublist hsub
  asked poll hpoll hanswer := lt_of_le_of_lt hsub.length_le (h.asked poll hpoll hanswer)
  apart poll hpoll hmem := h.apart poll hpoll ((hsub.map _).subset hmem)

theorem Bounded.move (h : core.Bounded) {state : State} {message : Bytes}
    (hstate : ∀ processing, state ≠ .processing processing)
    (hmessage : message.length ≤ maxMessageSize)
    (hreceiving : ∀ channel command length sequence last,
      state = .receiving channel command length sequence last →
        message.length ≤ length ∧ length ≤ maxMessageSize) :
    ({ core with state, message } : Core).Bounded where
  coherent := h.coherent.elsewhere hstate
  channels := h.channels
  message := hmessage
  receiving := hreceiving
  denied := h.denied
  distinct := h.distinct
  held processing _ hp := absurd hp (hstate processing)
  asked := h.asked
  apart := h.apart

theorem Bounded.settle (h : core.Bounded) {state : State}
    (hprocessing : ∀ processing, state ≠ .processing processing)
    (hreceiving : ∀ channel command length sequence last,
      state ≠ .receiving channel command length sequence last) :
    ({ core with state } : Core).Bounded :=
  h.move hprocessing h.message fun c m l s t hs => absurd hs (hreceiving c m l s t)

theorem Bounded.hold (h : core.Bounded) {channel : UInt32} {command : Command} {now : ℕ}
    (hroom : command = .msg → requestsPresence core.message = true →
      Room core.deniedPolls (channel, core.message)) :
    ({ core with u2f := none, state := heldAt channel command now core.message } : Core).Bounded where
  coherent := h.coherent.hold
  channels := h.channels
  message := h.message
  receiving _ _ _ _ _ hs := by cases hs
  denied := h.denied
  distinct := h.distinct
  held processing payload hp hrequest hmsg hpresence := by
    cases hp
    cases hrequest
    exact hroom hmsg hpresence
  asked _ hpoll := by cases hpoll
  apart _ hpoll := by cases hpoll

theorem Bounded.poll (h : core.Bounded) {poll poll' : U2fPoll} (hpoll : core.u2f = some poll)
    (hchannel : poll'.channel = poll.channel) (hrequest : poll'.request = poll.request)
    (hanswer : poll'.answer = poll.answer) : ({ core with u2f := some poll' } : Core).Bounded where
  coherent := h.coherent.poll hpoll hchannel hanswer
  channels := h.channels
  message := h.message
  receiving := h.receiving
  denied := h.denied
  distinct := h.distinct
  held := h.held
  asked := by
    rintro _ ⟨⟩ hnone
    exact h.asked poll hpoll (hanswer.symm.trans hnone)
  apart := by
    rintro _ ⟨⟩
    rw [hchannel, hrequest]
    exact h.apart poll hpoll

theorem Bounded.take (h : core.Bounded) {processing : Processing} {payload : Bytes}
    {taken : List Taken} (hstate : core.state = .processing processing)
    (hrequest : processing.request = some payload) :
    ({ core with
      state := .processing { processing with request := none }
      u2f := if processing.command = .msg ∧ requestsPresence payload = true then
          some (.start processing.channel payload processing.started)
        else core.u2f
      appBusy := true
      appCommand := some processing.command
      taken } : Core).Bounded where
  coherent := h.coherent.take hstate hrequest
  channels := h.channels
  message := h.message
  receiving _ _ _ _ _ hs := by cases hs
  denied := h.denied
  distinct := h.distinct
  held := by
    rintro _ _ ⟨⟩ hnone
    cases hnone
  asked poll hpoll hanswer := by
    dsimp only at hpoll
    split at hpoll
    · rename_i hmsg
      cases hpoll
      exact (h.held processing payload hstate hrequest hmsg.1 hmsg.2).1
    · exact h.asked poll hpoll hanswer
  apart poll hpoll := by
    dsimp only at hpoll
    split at hpoll
    · rename_i hmsg
      cases hpoll
      exact (h.held processing payload hstate hrequest hmsg.1 hmsg.2).2
    · exact h.apart poll hpoll

theorem Bounded.deny (h : core.Bounded) {poll : U2fPoll}
    (hcommand : core.appCommand = some .msg) (hpoll : core.u2f = some poll) :
    ({ core with
      u2f := none
      deniedPolls := core.deniedPolls ++
        [⟨poll.channel, poll.request, poll.lastPoll⟩] } : Core).Bounded := by
  refine ⟨h.coherent.dropPoll, h.channels, h.message, h.receiving, ?_, ?_,
    fun processing payload hp hrequest => ?_, fun _ hnone => (by cases hnone),
    fun _ hnone => (by cases hnone)⟩
  · rw [List.length_append]
    exact h.asked poll hpoll ((h.coherent.prompt poll hpoll).mpr hcommand)
  · rw [List.map_append]
    refine List.nodup_append.mpr ⟨h.distinct, List.nodup_singleton _, ?_⟩
    rintro key hkey _ hsame rfl
    rw [List.map_singleton, List.mem_singleton] at hsame
    rw [hsame] at hkey
    exact h.apart poll hpoll hkey
  · -- A request that waits has no prompt beside it.
    have hnone := (h.coherent.tied processing poll hp hpoll).1
    rw [hrequest] at hnone
    cases hnone

theorem Bounded.dropPoll (h : core.Bounded) : ({ core with u2f := none } : Core).Bounded :=
  { h with
    coherent := h.coherent.dropPoll
    asked := by simp
    apart := by simp }

theorem Bounded.aborted (h : core.Bounded) {channel : UInt32} {u2f : Option U2fPoll}
    (hu2f : u2f = core.u2f ∨ u2f = none) (token : ℕ) :
    (core.aborted channel u2f token).Bounded := by
  have hforgot := h.forget (List.filter_sublist (p := fun poll => decide (poll.channel ≠ channel)))
  rcases hu2f with rfl | rfl
  · exact hforgot.move (by simp) (Nat.zero_le _) (by simp)
  · exact hforgot.dropPoll.move (by simp) (Nat.zero_le _) (by simp)

theorem Bounded.step (h : host.core.Bounded) (hmove : Move call completed host host') :
    host'.core.Bounded := by
  have hcoherent := h.coherent.move hmove
  cases hmove with
  | touches channel => exact { h with coherent := hcoherent, channels := h.channels.touch channel }
  | allocates hzero hbroadcast hinsert =>
    exact { h with
      coherent := hcoherent
      channels := h.channels.insert hzero hbroadcast hinsert }
  | buffers _ hidle hlength =>
    refine { h with coherent := hcoherent, message := hlength, receiving := ?_ }
    intro c m l s t hs
    rw [show host.state = _ from hs] at hidle
    cases hidle
  | receives _ _ _ hlength hmax =>
    refine h.move (by simp) (le_trans hlength hmax) ?_
    rintro _ _ _ _ _ ⟨⟩
    exact ⟨hlength, hmax⟩
  | continues _ hstate data =>
    obtain ⟨hlength, hmax⟩ := h.receiving _ _ _ _ _ hstate
    change host.message.length ≤ _ at hlength
    refine h.move (by simp) ?_ ?_
    · rw [List.length_append, List.length_take]
      omega
    · rintro _ _ _ _ _ ⟨⟩
      rw [List.length_append, List.length_take]
      omega
  | identifies | submits | ends =>
    exact h.settle (by simp [Host.completeWink]) (by simp [Host.completeWink])
  | replies | delivers =>
    simp only [Host.core_enqueueMessage, Host.core_enqueueAnswer]
    exact h.settle (by simp) (by simp)
  | collects =>
    rw [Host.core_enqueueAnswer]
    exact h.dropPoll.settle (by simp) (by simp)
  | holds _ _ hcommand => exact h.hold fun hmsg => absurd hmsg hcommand
  | @holdsMsg channel now _ _ _ _ _ hnone hroom =>
    have hforgot := h.forget (Host.retainRecentDenied_sublist now host.deniedPolls)
    refine hforgot.hold fun _ hpresence => ⟨hroom hpresence, fun hmem => ?_⟩
    obtain ⟨poll, hpoll, hkey⟩ := List.mem_map.mp hmem
    obtain ⟨hpoll, hrecent⟩ := Host.mem_retainRecentDenied.mp hpoll
    exact absurd hrecent (Nat.not_le_of_lt (Host.refreshDenied_none h.distinct hnone poll hpoll hkey))
  | refreshes _ _ hpolls =>
    have hkeys := Host.refreshDenied_keys hpolls
    have hlength := congrArg List.length hkeys
    rw [List.length_map, List.length_map] at hlength
    exact { h with
      coherent := hcoherent
      denied := hlength ▸ h.denied
      distinct := hkeys ▸ h.distinct
      held := fun processing payload hp hrequest hmsg hpresence =>
        (h.held processing payload hp hrequest hmsg hpresence).congr hkeys
      asked := fun poll hpoll hanswer => hlength ▸ h.asked poll hpoll hanswer
      apart := fun poll hpoll => hkeys ▸ h.apart poll hpoll }
  | retains => exact h.forget (Host.retainRecentDenied_sublist _ _)
  | polls hpoll | asks hpoll => exact h.poll hpoll rfl rfl rfl
  | expires | withdraws => exact h.dropPoll
  | @waits processing _ _ _ hstate =>
    refine { h with coherent := hcoherent, receiving := ?_, held := ?_ }
    · intro _ _ _ _ _ hs
      cases hs
    · rintro _ payload ⟨⟩ hrequest hmsg hpresence
      exact h.held processing payload hstate hrequest hmsg hpresence
  | resets =>
    exact (h.forget (List.nil_sublist _)).dropPoll
  | takes _ _ hstate hrequest => exact h.take hstate hrequest
  | denies _ _ hcommand hpoll => exact h.deny hcommand hpoll
  | @keeps poll _ _ _ _ _ _ hpoll =>
    refine { h with coherent := hcoherent, asked := ?_, apart := ?_ }
    · rintro _ ⟨⟩ hanswer
      cases hanswer
    · rintro _ ⟨⟩
      exact h.apart poll hpoll
  | _ => exact { h with coherent := hcoherent }

/-- A refusal for `key` is remembered that is recent at the time of the call. -/
def Remembers (call : Call) (key : UInt32 × Bytes) (core : Core) : Prop :=
  ∃ poll ∈ core.deniedPolls, poll.key = key ∧
    ∀ now, call.time = some now → now - poll.lastPoll ≤ u2fPollTimeoutMs

/-- The call does not forget the refusals of `channel`: it is no INIT on it, and neither
resets U2F nor disables it. -/
def Spares (call : Call) (channel : UInt32) : Prop :=
  (∀ frame now, call = .event (.packet frame now) → frame.isInit → frame.channel ≠ channel) ∧
    call ≠ .event .u2fReset ∧ call ≠ .event (.u2fEnabled false)

theorem Remembers.aborted (hspares : Spares call key.1) (h : core.Remembers call key)
    {frame : Frame} {now : ℕ} (hcall : call = .event (.packet frame now)) (hinit : frame.isInit)
    (u2f : Option U2fPoll) (token : ℕ) :
    (core.aborted frame.channel u2f token).Remembers call key := by
  obtain ⟨poll, hmem, hkey, hrecent⟩ := h
  refine ⟨poll, List.mem_filter.mpr ⟨hmem, decide_eq_true ?_⟩, hkey, hrecent⟩
  rw [show poll.channel = key.1 from congrArg Prod.fst hkey]
  exact (hspares.1 _ _ hcall hinit).symm

theorem denied_move {poll : DeniedPoll} (hspares : Spares call poll.channel)
    (hrecent : ∀ now, call.time = some now → now - poll.lastPoll ≤ u2fPollTimeoutMs)
    (hmem : poll ∈ host.core.deniedPolls) (hmove : Move call completed host host') :
    poll ∈ host'.core.deniedPolls ∨ completed = some poll.key ∧
      ∃ now, call.time = some now ∧ { poll with lastPoll := now } ∈ host'.core.deniedPolls := by
  cases hmove with
  | holdsMsg hcall =>
    exact .inl (Host.mem_retainRecentDenied.mpr ⟨hmem, hrecent _ (by rw [hcall]; rfl)⟩)
  | retains htime => exact .inl (Host.mem_retainRecentDenied.mpr ⟨hmem, hrecent _ htime⟩)
  | refreshes htime hcompleted hpolls =>
    rcases Host.mem_of_refreshDenied hpolls hmem with hkept | ⟨hkey, hnew⟩
    · exact .inl hkept
    · exact .inr ⟨by rw [hcompleted, hkey], _, htime, hnew⟩
  | resets hcall =>
    rcases hcall with rfl | rfl
    · exact absurd rfl hspares.2.1
    · exact absurd rfl hspares.2.2
  | denies => exact .inl (List.mem_append_left _ hmem)
  | replies | collects | delivers =>
    simp only [Host.core_enqueueMessage, Host.core_enqueueAnswer]
    exact .inl hmem
  | _ => exact .inl hmem

theorem Remembers.move (hspares : Spares call key.1) (h : host.core.Remembers call key)
    (hmove : Move call completed host host') :
    host'.core.Remembers call key := by
  obtain ⟨poll, hmem, rfl, hrecent⟩ := h
  rcases denied_move hspares hrecent hmem hmove with hkept | ⟨-, now, htime, hnew⟩
  · exact ⟨poll, hkept, rfl, hrecent⟩
  · refine ⟨_, hnew, rfl, fun now' htime' => ?_⟩
    rw [htime] at htime'
    cases htime'
    simp

theorem appBusy_move (hmove : Move call completed host host') (htake : call ≠ .event .take)
    (hanswer : ∀ response now finished, call ≠ .event (.answer response now finished)) :
    host'.core.appBusy = host.core.appBusy := by
  cases hmove with
  | takes hcall => exact absurd hcall htake
  | frees hcall | keeps hcall => exact absurd hcall (hanswer _ _ _)
  | replies => rw [Host.core_enqueueMessage]
  | delivers => rw [Host.core_enqueueAnswer]
  | collects =>
    rw [Host.core_enqueueAnswer]
    rfl
  | _ => rfl

end Core

variable {R : Type} [CryptoRng R]

namespace Host

omit [CryptoRng R] in
theorem bounded_withRng (rng : R) (version : Version) (capabilities : UInt8) :
    (withRng rng version capabilities).core.Bounded where
  coherent := ⟨rfl, by simp [core, withRng], by simp [core, withRng], by simp [core, withRng]⟩
  channels := ⟨Nat.zero_le _, List.nodup_nil, by simp [core, withRng]⟩
  message := Nat.zero_le _
  receiving := by simp [core, withRng]
  denied := Nat.zero_le _
  distinct := List.nodup_nil
  held := by simp [core, withRng]
  asked := by simp [core, withRng]
  apart := by simp [core, withRng]

theorem bounded_call {host : Host R} (h : host.core.Bounded) (call : Call) :
    (host.call call).core.Bounded :=
  host.core_keeps call (fun hmove hbounded => hbounded.step hmove)
    (fun token _ _ hu2f hbounded => hbounded.aborted hu2f token) h

theorem bounded_run {host : Host R} (h : host.core.Bounded) (calls : List Call) :
    ((callMachine R).run host calls).core.Bounded :=
  Machine.invariant_along (p := fun _ _ => True) (I := fun host => host.core.Bounded)
    (fun _ call hbounded _ => bounded_call hbounded call) h
    ((callMachine R).along_of_forall (fun _ _ _ => trivial) host)

def heldRequests (host : Host R) : List Bytes :=
  match host.state with
  | .processing processing => processing.request.toList
  | _ => []

/-- The number of requests that the application works on after a call, if it worked on `n`
before: those it was handed and has not answered. -/
def workedOn (host : Host R) (n : ℕ) : Call → ℕ
  | .event .take => if host.takeAppRequest.2.isSome then n + 1 else n
  | .event (.answer _ _ _) => n - 1
  | _ => n

def workedOnAfter : Host R → ℕ → List Call → ℕ
  | _, n, [] => n
  | host, n, call :: calls => workedOnAfter (host.call call) (host.workedOn n call) calls

omit [CryptoRng R] in
/-- A request is handed to a free application that then works on it, or nothing happens. -/
theorem takeAppRequest_busy (host : Host R) :
    (host.takeAppRequest.2.isSome = true ∧ host.appBusy = false ∧
      host.takeAppRequest.1.appBusy = true) ∨ host.takeAppRequest = (host, none) := by
  unfold takeAppRequest
  split
  · exact .inr rfl
  · rename_i hfree
    split
    · split
      · exact .inr rfl
      · exact .inl ⟨rfl, eq_false_of_ne_true hfree, rfl⟩
    · exact .inr rfl

theorem appBusy_answer (host : Host R) (response : Bytes) (now : ℕ) (finished : Option ℕ) :
    (host.call (.event (.answer response now finished))).appBusy = false := by
  have hrespond := host.respond_appResponse response now finished
  change (host.appResponse response now finished).desk.busy = false
  generalize (host.appResponse response now finished).desk = desk at hrespond ⊢
  cases hrespond with
  | deliver | discard | retain => rfl

theorem appBusy_call (host : Host R) {call : Call} (htake : call ≠ .event .take)
    (hanswer : ∀ response now finished, call ≠ .event (.answer response now finished)) :
    (host.call call).appBusy = host.appBusy :=
  host.core_keeps call (I := fun core => core.appBusy = host.appBusy)
    (fun hmove h => (Core.appBusy_move hmove htake hanswer).trans h) (fun _ _ _ _ h => h) rfl

theorem workedOn_call (host : Host R) (call : Call) :
    host.workedOn host.appBusy.toNat call = (host.call call).appBusy.toNat := by
  cases call with
  | setVersion | setCapabilities => rfl
  | written frame =>
    rw [host.appBusy_call (by simp) (by simp)]
    rfl
  | event event =>
    cases event with
    | take =>
      change (if host.takeAppRequest.2.isSome then _ else _) = host.takeAppRequest.1.appBusy.toNat
      rcases host.takeAppRequest_busy with ⟨htaken, hfree, hbusy⟩ | heq
      · rw [if_pos htaken, hfree, hbusy]
        rfl
      · rw [heq]
        rfl
    | answer response now finished =>
      rw [host.appBusy_answer]
      cases hbusy : host.appBusy with
      | true | false => rfl
    | _ =>
      rw [host.appBusy_call (by simp) (by simp)]
      rfl

theorem workedOnAfter_run (host : Host R) (calls : List Call) :
    host.workedOnAfter host.appBusy.toNat calls =
      ((callMachine R).run host calls).appBusy.toNat := by
  induction calls generalizing host with
  | nil => rfl
  | cons call calls ih =>
    rw [workedOnAfter, workedOn_call]
    exact ih (host.call call)

end Host

/-- Whatever calls are made on a new host, its channels, its refusals, its message buffer and
the requests that wait are bounded. A refusal that was polled within the last 3000 ms is
forgotten only by an INIT on its channel, or when U2F is reset or disabled. -/
theorem memory_bounded (rng : R) (version : Version) (capabilities : UInt8) (calls : List Call) :
    let host := (callMachine R).run (Host.withRng rng version capabilities) calls
    (host.channels.ids.length ≤ 256 ∧ host.channels.ids.Nodup ∧
      ∀ id ∈ host.channels.ids, id ≠ 0 ∧ id ≠ broadcastCid) ∧
    (host.deniedPolls.length ≤ 256 ∧
      host.deniedPolls.Pairwise fun a b => ¬ (a.channel = b.channel ∧ a.request = b.request)) ∧
    (∀ call, ∀ poll ∈ host.deniedPolls, (∀ now, call.time = some now → now - poll.lastPoll ≤ 3000) →
      (∃ poll' ∈ (host.call call).deniedPolls,
        poll'.channel = poll.channel ∧ poll'.request = poll.request) ∨
      (∃ frame now, call = .event (.packet frame now) ∧ frame.isInit ∧
        frame.channel = poll.channel) ∨
      call = .event .u2fReset ∨ call = .event (.u2fEnabled false)) ∧
    host.message.length ≤ 7609 ∧
    (∀ channel command length sequence last,
      host.state = .receiving channel command length sequence last →
        host.message.length ≤ length) ∧
    host.heldRequests.length ≤ 1 ∧
    (Host.withRng rng version capabilities).workedOnAfter 0 calls ≤ 1 := by
  intro host
  have hbounded : host.core.Bounded :=
    Host.bounded_run (Host.bounded_withRng rng version capabilities) calls
  refine ⟨⟨hbounded.channels.length, hbounded.channels.distinct, hbounded.channels.proper⟩,
    ⟨hbounded.denied, ?_⟩, fun call poll hmem hrecent => ?_, hbounded.message,
    fun c m l s t hstate => (hbounded.receiving c m l s t hstate).1, ?_, ?_⟩
  · refine (List.pairwise_map.mp hbounded.distinct).imp fun hne hsame => hne ?_
    exact Prod.ext hsame.1 hsame.2
  · by_cases hspares : Core.Spares call poll.channel
    · have hremembers : host.core.Remembers call poll.key := ⟨poll, hmem, rfl, hrecent⟩
      obtain ⟨poll', hmem', hkey, -⟩ := host.core_keeps call
        (fun hmove h => Core.Remembers.move hspares h hmove)
        (fun token hcall hinit _ h => h.aborted hspares hcall hinit _ token) hremembers
      exact .inl ⟨poll', hmem', congrArg Prod.fst hkey, congrArg Prod.snd hkey⟩
    · simp only [Core.Spares, not_and_or, not_forall, not_not, ne_eq, exists_prop] at hspares
      exact .inr hspares
  · unfold Host.heldRequests
    split
    · rename_i processing _
      cases processing.request with
      | none => exact Nat.zero_le _
      | some payload => exact le_rfl
    · exact Nat.zero_le _
  · rw [show 0 = (Host.withRng rng version capabilities).appBusy.toNat from rfl,
      Host.workedOnAfter_run]
    exact Bool.toNat_le _

end SoftwareAuthenticator.Ctaphid
