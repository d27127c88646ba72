import SoftwareAuthenticator.Ctaphid.Bounds
import SoftwareAuthenticator.Ctaphid.Shadow

/-!
# Old refusals cannot be seen

The table of refusals is read only when a MSG request is complete, and then an entry older than
three seconds is passed over.
-/

namespace SoftwareAuthenticator.Ctaphid

namespace Host

variable {R : Type} {now time : ℕ}

theorem retainRecentDenied_retain (h : now ≤ time) (polls : List DeniedPoll) :
    retainRecentDenied time (retainRecentDenied now polls) = retainRecentDenied time polls := by
  unfold retainRecentDenied
  rw [List.filter_filter]
  refine List.filter_congr fun poll _ => ?_
  rw [← Bool.decide_and]
  refine decide_eq_decide.mpr ⟨And.left, fun hrecent => ⟨hrecent, ?_⟩⟩
  omega

variable (rest : List DeniedPoll)

theorem retainRecentDenied_cons_of_recent {poll : DeniedPoll} (h : now - poll.lastPoll ≤ u2fPollTimeoutMs) :
    retainRecentDenied now (poll :: rest) = poll :: retainRecentDenied now rest :=
  List.filter_cons_of_pos (decide_eq_true h)

theorem retainRecentDenied_cons_of_old {poll : DeniedPoll} (h : ¬ now - poll.lastPoll ≤ u2fPollTimeoutMs) :
    retainRecentDenied now (poll :: rest) = retainRecentDenied now rest :=
  List.filter_cons_of_neg (by simpa using h)

section Refresh

variable {channel : UInt32} {request : Bytes} {poll : DeniedPoll}

theorem refreshDenied_cons_other (h : ¬ (poll.channel = channel ∧ poll.request = request)) :
    refreshDenied channel request time (poll :: rest) =
      (refreshDenied channel request time rest).map (poll :: ·) := if_neg h

theorem refreshDenied_cons_recent (h : poll.channel = channel ∧ poll.request = request)
    (hrecent : time - poll.lastPoll ≤ u2fPollTimeoutMs) :
    refreshDenied channel request time (poll :: rest) =
      some ({ poll with lastPoll := time } :: rest) := by
  rw [refreshDenied, if_pos h, if_pos hrecent]

theorem refreshDenied_cons_old (h : poll.channel = channel ∧ poll.request = request)
    (hold : ¬ time - poll.lastPoll ≤ u2fPollTimeoutMs) :
    refreshDenied channel request time (poll :: rest) = none := by
  rw [refreshDenied, if_pos h, if_neg hold]

theorem refreshDenied_of_not_mem {polls : List DeniedPoll}
    (h : (channel, request) ∉ polls.map DeniedPoll.key) :
    refreshDenied channel request time polls = none := by
  induction polls with
  | nil => rfl
  | cons poll rest ih =>
    rw [List.map_cons, List.mem_cons, not_or] at h
    rw [refreshDenied_cons_other rest fun hsame => h.1 (Prod.ext hsame.1.symm hsame.2.symm), ih h.2]
    rfl

/-- Refreshing an entry and forgetting old ones may be done in either order. -/
theorem refreshDenied_retain (h : now ≤ time) {polls : List DeniedPoll}
    (hdistinct : (polls.map DeniedPoll.key).Nodup) :
    refreshDenied channel request time (retainRecentDenied now polls) =
      (refreshDenied channel request time polls).map (retainRecentDenied now) := by
  induction polls with
  | nil => rfl
  | cons poll rest ih =>
    rw [List.map_cons, List.nodup_cons] at hdistinct
    have ih := ih hdistinct.2
    by_cases hsame : poll.channel = channel ∧ poll.request = request
    · by_cases hrecent : time - poll.lastPoll ≤ u2fPollTimeoutMs
      · have hkept : now - poll.lastPoll ≤ u2fPollTimeoutMs := by omega
        rw [retainRecentDenied_cons_of_recent rest hkept, refreshDenied_cons_recent _ hsame hrecent,
          refreshDenied_cons_recent _ hsame hrecent, Option.map_some,
          retainRecentDenied_cons_of_recent rest]
        dsimp only
        omega
      · -- An old entry is passed over, and there is no other for the request.
        rw [refreshDenied_cons_old rest hsame hrecent, Option.map_none]
        by_cases hkept : now - poll.lastPoll ≤ u2fPollTimeoutMs
        · rw [retainRecentDenied_cons_of_recent rest hkept, refreshDenied_cons_old _ hsame hrecent]
        · rw [retainRecentDenied_cons_of_old rest hkept]
          refine refreshDenied_of_not_mem fun hmem => hdistinct.1 ?_
          rw [show poll.key = (channel, request) from Prod.ext hsame.1 hsame.2]
          exact ((retainRecentDenied_sublist now rest).map _).subset hmem
    · rw [refreshDenied_cons_other rest hsame, Option.map_map]
      by_cases hkept : now - poll.lastPoll ≤ u2fPollTimeoutMs
      · rw [retainRecentDenied_cons_of_recent rest hkept, refreshDenied_cons_other _ hsame, ih,
          Option.map_map]
        refine congrArg (fun f => Option.map f _) (funext fun polls => ?_)
        exact (retainRecentDenied_cons_of_recent polls hkept).symm
      · rw [retainRecentDenied_cons_of_old rest hkept, ih]
        refine congrArg (fun f => Option.map f _) (funext fun polls => ?_)
        exact (retainRecentDenied_cons_of_old polls hkept).symm

end Refresh

theorem retainRecentDenied_filter (now : ℕ) (channel : UInt32) (polls : List DeniedPoll) :
    retainRecentDenied now (polls.filter fun poll => poll.channel ≠ channel) =
      (retainRecentDenied now polls).filter fun poll => poll.channel ≠ channel := by
  unfold retainRecentDenied
  rw [List.filter_filter, List.filter_filter]
  exact List.filter_congr fun _ _ => Bool.and_comm _ _

end Host

/-- Only refusals that are old at `now` may differ. -/
def Likeness.forgetful (now : ℕ) : Likeness where
  channels := Eq
  polls a b := Host.retainRecentDenied now a = Host.retainRecentDenied now b
  touch := by
    rintro _ _ _ rfl
    rfl
  contains := by
    rintro _ _ _ rfl
    rfl
  refl _ := rfl
  filter channel h := by rw [Host.retainRecentDenied_filter, Host.retainRecentDenied_filter, h]
  append poll h := by
    unfold Host.retainRecentDenied at h ⊢
    rw [List.filter_append, List.filter_append, h]

namespace Host

theorem agrees_forgetful {polls polls' : List DeniedPoll} (htime : now ≤ time)
    (h : (Likeness.forgetful now).polls polls polls')
    (hdistinct : (polls.map DeniedPoll.key).Nodup)
    (hdistinct' : (polls'.map DeniedPoll.key).Nodup) :
    (Likeness.forgetful now).Agrees time polls polls' := by
  have h : retainRecentDenied now polls = retainRecentDenied now polls' := h
  refine ⟨?_, fun channel request => ?_⟩
  · rw [← retainRecentDenied_retain htime, h, retainRecentDenied_retain htime]
  · have hrefresh : (refreshDenied channel request time polls).map (retainRecentDenied now) =
        (refreshDenied channel request time polls').map (retainRecentDenied now) := by
      rw [← refreshDenied_retain htime hdistinct, ← refreshDenied_retain htime hdistinct', h]
    generalize refreshDenied channel request time polls = first at hrefresh ⊢
    generalize refreshDenied channel request time polls' = second at hrefresh ⊢
    cases first with
    | none =>
      rw [Option.map_eq_none_iff.mp hrefresh.symm]
      exact .none
    | some found =>
      obtain ⟨found', rfl, hfound⟩ := Option.map_eq_some_iff.mp hrefresh.symm
      exact .some hfound.symm

/-- `host'` is `host`, but for refusals that are old at `now`. -/
abbrev Alike (now : ℕ) (host host' : Host R) : Prop := Shadowed (.forgetful now) [] host host'

theorem alike_expireDenied (host : Host R) (now : ℕ) : Alike now host (host.expireDenied now) :=
  ⟨host.channels, _, ⟨nofun, fun _ _ _ => List.not_mem_nil, rfl,
    (retainRecentDenied_retain le_rfl _).symm⟩, (host.shadow_nil _).symm⟩

variable {host host' : Host R}

theorem Alike.eq (h : Alike now host host') : ∃ polls, host' = { host with deniedPolls := polls } := by
  obtain ⟨channels, polls, hfits, rfl⟩ := h
  obtain rfl : host.channels = channels := hfits.channels
  exact ⟨polls, host.shadow_nil polls⟩

theorem Alike.written (h : Alike now host host') (frame : OutgoingFrame) :
    Alike now (host.outgoingFrameWritten frame).1 (host'.outgoingFrameWritten frame).1 ∧
      (host.outgoingFrameWritten frame).2 = (host'.outgoingFrameWritten frame).2 := by
  have hwritten := h.outgoingFrameWritten frame List.not_mem_nil fun _ _ => List.not_mem_nil
  rwa [rank_nil] at hwritten

inductive Result where
  | nothing
  | queued (queued : Bool)
  | identification (request : Option IdentificationRequest)
  | request (request : Option AppRequest)
  | interrupt (interrupt : Bool)
  | retired (current : Bool)
  deriving DecidableEq

def result (host : Host R) : Call → Result
  | .event (.keepalive waitingForUser now) => .queued (host.sendKeepalive waitingForUser now).2
  | .event .identify => .identification host.takeIdentificationRequest.2
  | .event .take => .request host.takeAppRequest.2
  | .event .interrupt => .interrupt host.takeInterrupt.2
  | .written frame => .retired (host.outgoingFrameWritten frame).2
  | _ => .nothing

theorem Alike.result (h : Alike now host host') (call : Call) :
    host.result call = host'.result call := by
  cases call with
  | written frame => exact congrArg Result.retired (h.written frame).2
  | event event =>
    cases event with
    | keepalive waitingForUser time =>
      exact congrArg Result.queued (h.sendKeepalive waitingForUser time).2
    | identify => exact congrArg Result.identification h.takeIdentificationRequest.2
    | take => exact congrArg Result.request h.takeAppRequest.2
    | interrupt =>
      obtain ⟨polls, rfl⟩ := h.eq
      rfl
    | _ => rfl
  | _ => rfl

variable [CryptoRng R]

theorem Alike.call (h : Alike now host host') (hbounded : host.core.Bounded)
    (hbounded' : host'.core.Bounded) (call : Call)
    (htime : ∀ time, call.time = some time → now ≤ time) :
    Alike now (host.call call) (host'.call call) := by
  cases call with
  | written frame => exact (h.written frame).1
  | event event =>
    refine h.handle (fun _ _ _ _ => ?_) (fun time hevent => ?_) fun _ _ _ => List.not_mem_nil
    · rintro a _ id rfl
      cases a.insert id with
      | none => exact .none
      | some channels => exact .some rfl
    · obtain ⟨_, polls, hfits, rfl⟩ := h
      exact agrees_forgetful (htime time hevent) hfits.polls hbounded.distinct hbounded'.distinct
  | _ =>
    obtain ⟨_, polls, hfits, rfl⟩ := h
    exact ⟨_, _, hfits, rfl⟩

/-- No sequence of later calls tells the two apart. -/
theorem alike_run (h : Alike now host host') (hbounded : host.core.Bounded)
    (hbounded' : host'.core.Bounded) (calls : List Call)
    (htimes : ∀ call ∈ calls, ∀ time, call.time = some time → now ≤ time) :
    Alike now ((callMachine R).run host calls) ((callMachine R).run host' calls) := by
  induction calls generalizing host host' with
  | nil => exact h
  | cons call calls ih =>
    have hcall := h.call hbounded hbounded' call (htimes call List.mem_cons_self)
    exact ih hcall (bounded_call hbounded call) (bounded_call hbounded' call)
      fun call' hmem => htimes call' (List.mem_cons_of_mem _ hmem)

end Host

end SoftwareAuthenticator.Ctaphid
