import SoftwareAuthenticator.Ctaphid.Output
import SoftwareAuthenticator.Ctaphid.Shadow

/-!
# Deleting the packets of other channels

The packets that other channels send while `c` owns the host can be deleted from a run, with the
writes of the reports they caused. The reports queued for `c` stay the same, unless `c` is the
broadcast channel.
-/

namespace SoftwareAuthenticator.Ctaphid

variable {R : Type}

/-- The shadow may have its channels in another order. -/
def Likeness.reordered : Likeness where
  channels a b := b.ids.Perm a.ids
  polls := Eq
  touch _ h := (Channels.touch_perm _ _).trans (h.trans (Channels.touch_perm _ _).symm)
  contains id h := by simp only [Channels.contains, List.contains_eq_mem, h.mem_iff]
  refl _ := rfl
  filter := by
    rintro _ _ _ rfl
    rfl
  append := by
    rintro _ _ _ rfl
    rfl

variable {dropped : List ℕ} {host : Host R} {c : UInt32} {n : ℕ}

theorem Host.headWritten_pending_subset (host : Host R) :
    ∀ o ∈ host.headWritten.pending, o ∈ host.pending := by
  intro o ho
  unfold Host.headWritten Host.outgoingFrameWritten at ho
  split at ho
  · split at ho
    · exact ho
    · dsimp only at ho
      split at ho
      · split at ho <;> exact List.mem_of_mem_tail ho
      · exact List.mem_of_mem_tail ho
  · exact ho

theorem Host.shadowed_nil (host : Host R) : host.Shadowed .reordered [] host :=
  ⟨host.channels, host.deniedPolls, ⟨nofun, fun _ _ _ => List.not_mem_nil, .refl _, rfl⟩,
    (host.shadow_nil _).symm⟩

variable [CryptoRng R]

/-- The events to delete: a packet on another channel, and the write of a report
that a deleted packet caused. -/
def deleted (c : UInt32) (dropped : List ℕ) (host : Host R) : Event → Bool
  | .packet frame _ => frame.channel ≠ c
  | .written => host.pending.head?.any fun outgoing => outgoing.token ∈ dropped
  | _ => false

def droppedAfter (c : UInt32) (dropped : List ℕ) (host : Host R) : Event → List ℕ
  | .packet frame now =>
    if frame.channel ≠ c then
      dropped ++ List.range' host.nextToken
        ((host.handleFrame frame now).nextToken - host.nextToken)
    else dropped
  | _ => dropped

def withoutForeign (c : UInt32) (host : Host R) (events : List Event) : List Event :=
  (hostMachine R).thin (deleted c) (droppedAfter c) [] host events

theorem Likeness.agrees_reordered (now : ℕ) (polls : List DeniedPoll) :
    Likeness.reordered.Agrees now polls polls := by
  refine ⟨rfl, fun channel request => ?_⟩
  cases Host.refreshDenied channel request now polls with
  | none => exact .none
  | some found => exact .some rfl

def newlyQueuedFor (c : UInt32) (host : Host R) (event : Event) : List Frame :=
  ((host.handle event).pending.filter fun outgoing =>
    host.nextToken ≤ outgoing.token ∧ outgoing.frame.addressedTo c = true).map (·.frame)

/-- Packets of other channels come only while `c` holds the host. -/
def ForeignWhileHeld (c : UInt32) (host : Host R) (event : Event) : Prop :=
  ∀ frame now, event = .packet frame now → frame.channel ≠ c → host.HeldAt c now

namespace Host

variable {frames : List Frame} {channels : Channels} {host' : Host R}

omit [CryptoRng R] in
theorem Shadowed.headWritten_dropped (h : Shadowed .reordered dropped host host')
    {outgoing : OutgoingFrame} (hhead : host.pending.head? = some outgoing)
    (hdropped : outgoing.token ∈ dropped) :
    Shadowed .reordered dropped host.headWritten host' := by
  obtain ⟨channels, polls, hfits, rfl⟩ := h
  obtain ⟨rest, hp⟩ : ∃ rest, host.pending = outgoing :: rest := by
    cases hp : host.pending with
    | nil => simp [hp] at hhead
    | cons o rest => exact ⟨rest, by simpa [hp] using hhead⟩
  have hwritten : host.headWritten = { host with pending := rest } := by
    have hfinal : ∀ channel finalFrame, host.state = .transmitting channel finalFrame →
        finalFrame ≠ outgoing.token := by
      rintro channel finalFrame hs rfl
      exact hfits.final channel _ hs hdropped
    simp only [Host.headWritten, nextOutgoingFrame, Host.outgoingFrameWritten, isOutgoingCurrent,
      hp, List.head?_cons, Option.any_some, decide_true, Bool.not_true, Bool.false_eq_true, if_false,
      List.tail_cons]
    split
    · next channel finalFrame hs => rw [if_neg (hfinal channel finalFrame hs)]
    · rfl
  rw [hwritten]
  refine ⟨channels, polls, hfits, ?_⟩
  simp [shadow, hp, hdropped]

def newTokens (host : Host R) (frames : List Frame) : List ℕ :=
  List.range' host.nextToken frames.length

omit [CryptoRng R] in
theorem mem_newTokens {t : ℕ} :
    t ∈ host.newTokens frames ↔
      host.nextToken ≤ t ∧ t < host.nextToken + frames.length := by
  simp [newTokens, List.mem_range'_1]

omit [CryptoRng R] in
theorem rank_newTokens {t : ℕ} (ht : t ≤ host.nextToken) :
    rank (dropped ++ host.newTokens frames) t = rank dropped t :=
  rank_append (fun _ hu => (mem_newTokens.mp hu).1) ht

omit [CryptoRng R] in
theorem rank_newTokens_end (dropped : List ℕ) (host : Host R) (frames : List Frame) :
    rank (dropped ++ host.newTokens frames) (host.nextToken + frames.length) =
      rank dropped host.nextToken := by
  have hend : ∀ n ≤ frames.length,
      rank (dropped ++ host.newTokens frames) (host.nextToken + n) =
        rank dropped host.nextToken := by
    intro n hn
    induction n with
    | zero => exact rank_newTokens (le_refl _)
    | succ n ih =>
      have hmem : host.nextToken + n ∈ dropped ++ host.newTokens frames :=
        List.mem_append_right _ (mem_newTokens.mpr ⟨by omega, by omega⟩)
      rw [← Nat.add_assoc, rank_succ, if_pos hmem]
      exact ih (by omega)
  exact hend _ (le_refl _)

omit [CryptoRng R] in
theorem InOrder.final_lt (h : host.InOrder) {channel : UInt32} {t : ℕ}
    (hstate : host.state = .transmitting channel t) : t < host.nextToken := by
  obtain ⟨outgoing, hmem, rfl, -⟩ := h.final channel t hstate
  exact h.given outgoing hmem

omit [CryptoRng R] in
theorem shadow_dropNew (h : host.InOrder) (channels : Channels) (polls : List DeniedPoll)
    (frames : List Frame) :
    (host.pushFrames frames).shadow (dropped ++ host.newTokens frames) channels polls =
      host.shadow dropped channels polls := by
  have hstate : host.state.renumber (rank (dropped ++ host.newTokens frames)) =
      host.state.renumber (rank dropped) := by
    cases hs : host.state with
    | transmitting channel t =>
      simp only [State.renumber]
      rw [rank_newTokens (h.final_lt hs).le]
    | _ => rfl
  have hnew : (numbered host.nextToken frames).filter
      (fun o => o.token ∉ dropped ++ host.newTokens frames) = [] := by
    apply List.filter_eq_nil_iff.mpr
    intro o ho
    have hmem : o.token ∈ dropped ++ host.newTokens frames :=
      List.mem_append_right _ (mem_newTokens.mpr (mem_numbered ho))
    exact fun hnot => of_decide_eq_true hnot hmem
  have hold : host.pending.filter (fun o => o.token ∉ dropped ++ host.newTokens frames) =
      host.pending.filter (fun o => o.token ∉ dropped) := by
    apply List.filter_congr
    intro o ho
    have hnot : o.token ∉ host.newTokens frames := fun hmem =>
      absurd (h.given o ho) (Nat.not_lt.mpr (mem_newTokens.mp hmem).1)
    simp [hnot]
  have hrank : (host.pending.filter (fun o => o.token ∉ dropped)).map
        (fun o => (⟨o.frame, rank (dropped ++ host.newTokens frames) o.token⟩ : OutgoingFrame)) =
      (host.pending.filter (fun o => o.token ∉ dropped)).map
        (fun o => ⟨o.frame, rank dropped o.token⟩) := by
    apply List.map_congr_left
    intro o ho
    rw [rank_newTokens (h.given o (List.mem_of_mem_filter ho)).le]
  simp only [shadow, Host.pushFrames, List.filter_append, hnew, hold, hrank, hstate,
    rank_newTokens_end, List.append_nil]

/-- A packet on another channel does not change the shadow. -/
theorem Shadowed.handleFrame_dropped (h : Shadowed .reordered dropped host host') {c : UInt32}
    (hexclusive : host.Exclusive) (hinOrder : host.InOrder) {frame : Frame} {now : ℕ}
    (hheld : host.HeldAt c now) (hframe : frame.channel ≠ c) :
    Shadowed .reordered (droppedAfter c dropped host (.packet frame now))
      (host.handleFrame frame now) host' := by
  obtain ⟨table, htable, frames, -, heq⟩ := hexclusive.handleFrame_foreign hheld hframe
  obtain ⟨channels, polls, hfits, rfl⟩ := h
  have hdropped : droppedAfter c dropped host (.packet frame now) =
      dropped ++ host.newTokens frames := by
    simp [droppedAfter, hframe, heq, newTokens, Host.pushFrames, withChannels]
  have hinOrder' : (host.withChannels table).InOrder := ⟨hinOrder.1, hinOrder.2, hinOrder.3⟩
  rw [hdropped, heq]
  refine ⟨channels, polls, ⟨fun t ht => ?_, fun channel t hs hmem => ?_, hfits.channels.trans
    htable.symm, hfits.polls⟩, (shadow_dropNew hinOrder' channels polls frames).symm⟩
  · rcases List.mem_append.mp ht with ht | ht
    · exact Nat.lt_add_right _ (hfits.dropped_lt t ht)
    · exact (mem_newTokens.mp ht).2
  · rcases List.mem_append.mp hmem with hmem | hmem
    · exact hfits.final channel t hs hmem
    · exact absurd (hinOrder.final_lt hs) (Nat.not_lt.mpr (mem_newTokens.mp hmem).1)

end Host

theorem newlyQueuedFor_shadow {host' : Host R} {event : Event}
    (h : host.Shadowed .reordered dropped host')
    (hnext : (host.handle event).Shadowed .reordered dropped (host'.handle event)) (c : UInt32) :
    newlyQueuedFor c host event = newlyQueuedFor c host' event := by
  obtain ⟨channels, polls, hfits, heq⟩ := h
  obtain ⟨channels', polls', -, heq'⟩ := hnext
  have htoken : host'.nextToken = rank dropped host.nextToken := by
    rw [heq]
    rfl
  have hpending : (host'.handle event).pending =
      ((host.handle event).pending.filter fun o => o.token ∉ dropped).map
        fun o => ⟨o.frame, rank dropped o.token⟩ := by
    rw [heq']
    rfl
  have htest : ∀ t, (t ∉ dropped ∧ rank dropped host.nextToken ≤ rank dropped t) ↔
      host.nextToken ≤ t := by
    intro t
    refine ⟨fun ⟨hnot, hle⟩ => ?_, fun hle => ⟨fun hmem => ?_, rank_mono dropped hle⟩⟩
    · by_contra hlt
      have := rank_lt hnot (Nat.lt_of_not_le hlt)
      omega
    · have := hfits.dropped_lt t hmem
      omega
  unfold newlyQueuedFor
  rw [hpending, htoken, List.filter_map, List.map_map, List.filter_filter]
  congr 1
  apply List.filter_congr
  intro o _
  rw [Function.comp_apply, ← Bool.decide_and, decide_eq_decide, ← htest o.token]
  tauto

theorem newlyQueuedFor_foreign {frame : Frame} {now : ℕ} (hinOrder : host.InOrder)
    (hexclusive : host.Exclusive) (hheld : host.HeldAt c now) (hframe : frame.channel ≠ c) :
    newlyQueuedFor c host (.packet frame now) = [] := by
  obtain ⟨table, -, frames, hframes, heq⟩ := hexclusive.handleFrame_foreign hheld hframe
  have hstep : host.handle (.packet frame now) = (host.withChannels table).pushFrames frames := heq
  have hnone : ∀ o ∈ ((host.withChannels table).pushFrames frames).pending,
      ¬ (host.nextToken ≤ o.token ∧ o.frame.addressedTo c = true) := by
    rintro o ho ⟨hnew, haddressed⟩
    rcases List.mem_append.mp ho with ho | ho
    · exact absurd (hinOrder.given o ho) (Nat.not_lt.mpr hnew)
    · have hbusy : o.frame = Host.busyFrame frame.channel := by
        simpa using hframes.subset (Host.frame_mem_of_numbered ho)
      rw [hbusy, Host.busyFrame, Host.addressedTo_initFrame] at haddressed
      exact hframe haddressed
  rw [newlyQueuedFor, hstep, List.map_eq_nil_iff, List.filter_eq_nil_iff]
  intro o ho htrue
  exact hnone o ho (of_decide_eq_true htrue)

theorem newlyQueuedFor_written (hinOrder : host.InOrder) (c : UInt32) :
    newlyQueuedFor c host .written = [] := by
  rw [newlyQueuedFor, List.map_eq_nil_iff, List.filter_eq_nil_iff]
  intro o ho htrue
  have hlt := hinOrder.given o (host.headWritten_pending_subset o ho)
  have hle := (of_decide_eq_true htrue).1
  omega

def Apart (dropped : List ℕ) (host host' : Host R) : Prop :=
  host.Exclusive ∧ host.InOrder ∧ host.Shadowed .reordered dropped host'

theorem apart_deleted (dropped : List ℕ) (host host' : Host R) (event : Event)
    (h : Apart dropped host host') (hheld : ForeignWhileHeld c host event)
    (hdeleted : deleted c dropped host event = true) :
    Apart (droppedAfter c dropped host event) (host.handle event) host' ∧
      newlyQueuedFor c host event = [] := by
  obtain ⟨hexclusive, hinOrder, hshadow⟩ := h
  cases event with
  | packet frame now =>
    have hframe : frame.channel ≠ c := by simpa [deleted] using hdeleted
    have hheldAt := hheld frame now rfl hframe
    exact ⟨⟨hexclusive.handle _, hinOrder.call (.event (.packet frame now)),
      hshadow.handleFrame_dropped hexclusive hinOrder hheldAt hframe⟩,
      newlyQueuedFor_foreign hinOrder hexclusive hheldAt hframe⟩
  | written =>
    obtain ⟨outgoing, hhead, hmem⟩ :
        ∃ outgoing, host.pending.head? = some outgoing ∧ outgoing.token ∈ dropped := by
      simpa [deleted, Option.any_eq_true] using hdeleted
    exact ⟨⟨hexclusive.handle _, hinOrder.call (.event .written),
      hshadow.headWritten_dropped hhead hmem⟩, newlyQueuedFor_written hinOrder c⟩
  | _ => cases hdeleted

/-- An event that is not deleted keeps the two hosts apart by the dropped reports only. -/
theorem apart_kept (hc : c ≠ broadcastCid) (dropped : List ℕ) (host host' : Host R)
    (event : Event) (h : Apart dropped host host') (hkept : deleted c dropped host event = false) :
    Apart (droppedAfter c dropped host event) (host.handle event) (host'.handle event) ∧
      newlyQueuedFor c host event = newlyQueuedFor c host' event := by
  obtain ⟨hexclusive, hinOrder, hshadow⟩ := h
  have hnext : (host.handle event).Shadowed .reordered dropped (host'.handle event) := by
    refine hshadow.handle ?_ (fun now _ => ?_) ?_
    · rintro frame now rfl hbroadcast
      have hchannel : frame.channel = c := by simpa [deleted] using hkept
      exact absurd (hchannel.symm.trans hbroadcast) hc
    · obtain ⟨_, _, hfits, rfl⟩ := hshadow
      obtain rfl : host.deniedPolls = _ := hfits.polls
      exact Likeness.agrees_reordered now _
    · rintro rfl outgoing hhead
      simpa [deleted, hhead] using hkept
  have hdropped : droppedAfter c dropped host event = dropped := by
    cases event with
    | packet frame now =>
      have hframe : frame.channel = c := by simpa [deleted] using hkept
      simp [droppedAfter, hframe]
    | _ => rfl
  rw [hdropped]
  exact ⟨⟨hexclusive.handle _, hinOrder.call (.event event), hnext⟩,
    newlyQueuedFor_shadow hshadow hnext c⟩

theorem reachable_inOrder (h : (hostMachine R).Reachable host) : host.InOrder := by
  refine Machine.invariant_reachable ?_ (fun _ event hs _ => hs.call (.event event)) h
  rintro _ ⟨rng, version, capabilities, rfl⟩
  exact ⟨List.Pairwise.nil, by simp [Host.withRng], by simp [Host.withRng]⟩

/-- A channel that owns the host is not disturbed by packets on other channels. Each queues at
most one report, which tells its own channel that the host is busy. Deleting them leaves the
reports queued for the owner unchanged, unless it is the broadcast channel. -/
theorem owner_undisturbed (host : Host R) (hreachable : (hostMachine R).Reachable host)
    (c : UInt32) :
    (∀ packets : List (Frame × ℕ),
      (∀ packet ∈ packets, packet.1.channel ≠ c ∧ host.HeldAt c packet.2) →
      ∃ channels : Channels, channels.ids.Perm host.channels.ids ∧
        ∃ frames : List Frame,
          frames.Sublist (packets.map fun packet => Host.busyFrame packet.1.channel) ∧
          (hostMachine R).run host (packets.map fun packet => .packet packet.1 packet.2) =
            (host.withChannels channels).pushFrames frames) ∧
    (c ≠ broadcastCid → ∀ events : List Event, (hostMachine R).Executes host events →
      (hostMachine R).Along (ForeignWhileHeld c) host events →
      (hostMachine R).outputs (newlyQueuedFor c) host (withoutForeign c host events) =
        (hostMachine R).outputs (newlyQueuedFor c) host events) := by
  have hexclusive := reachable_exclusive hreachable
  refine ⟨fun packets hpackets => hexclusive.run_foreign packets hpackets, ?_⟩
  intro hc events _ hheld
  have hstart : Apart [] host host :=
    ⟨hexclusive, reachable_inOrder hreachable, host.shadowed_nil⟩
  exact Machine.outputs_thin (R := Apart) (p := ForeignWhileHeld c)
    (fun dropped s t event h hp hd => apart_deleted dropped s t event h hp hd)
    (fun dropped s t event h _ hk => apart_kept hc dropped s t event h hk) hstart hheld

def pingedHost : Host Draws :=
  (hostMachine Draws).run (Host.withRng ⟨[]⟩ ⟨0, 0, 0⟩ 0)
    [.packet (Host.initFrame 5 .ping [1]) 0]

theorem pingedHost_reachable : (hostMachine Draws).Reachable pingedHost :=
  ⟨_, _, ⟨_, _, _, rfl⟩, executes_of_no_answers (by decide) _, rfl⟩

theorem pingedHost_held (now : ℕ) : pingedHost.HeldAt 5 now := by
  refine ⟨.inl (by decide), fun owner expires h => ?_⟩
  have hnone : pingedHost.lease = none := by decide
  rw [hnone] at h
  cases h

def interleaved : List Event :=
  [.packet (Host.initFrame 7 .ping [2]) 1,
    .packet (Host.initFrame 5 .init [1, 2, 3, 4, 5, 6, 7, 8]) 2]

theorem owner_undisturbed_ping :
    withoutForeign 5 pingedHost interleaved =
        [.packet (Host.initFrame 5 .init [1, 2, 3, 4, 5, 6, 7, 8]) 2] ∧
      (hostMachine Draws).outputs (newlyQueuedFor 5) pingedHost
          (withoutForeign 5 pingedHost interleaved) =
        (hostMachine Draws).outputs (newlyQueuedFor 5) pingedHost interleaved ∧
      ∃ channels : Channels, ∃ frames : List Frame,
        (hostMachine Draws).run pingedHost [.packet (Host.initFrame 7 .ping [2]) 1] =
          (pingedHost.withChannels channels).pushFrames frames := by
  obtain ⟨hpackets, hdeletion⟩ := owner_undisturbed pingedHost pingedHost_reachable 5
  refine ⟨by decide, hdeletion (by decide) interleaved (executes_of_no_answers (by decide) _) ?_, ?_⟩
  · refine ⟨fun frame now h _ => pingedHost_held now, fun frame now h hne => ?_, trivial⟩
    cases h
    exact absurd (by decide) hne
  · obtain ⟨channels, -, frames, -, heq⟩ := hpackets [(Host.initFrame 7 .ping [2], 1)] (by
      intro packet hpacket
      rw [List.mem_singleton.mp hpacket]
      exact ⟨by decide, pingedHost_held 1⟩)
    exact ⟨channels, frames, heq⟩

def broadcastFrame : Frame := Host.initFrame broadcastCid .init [1, 2, 3, 4, 5, 6, 7, 8]

def broadcastInit : Event := .packet broadcastFrame 0

def nextId (i : ℕ) : UInt32 := UInt32.ofNat (i + 1)

def firstIds (n : ℕ) : List UInt32 := (List.range n).map nextId

def allocatedHost (n : ℕ) (numbers : List UInt32) : Host Draws :=
  { Host.withRng ⟨numbers⟩ ⟨0, 0, 0⟩ 0 with channels := ⟨firstIds n⟩, nextToken := n }

private theorem toNat_nextId {i : ℕ} (hi : i + 1 < 2 ^ 32) : (nextId i).toNat = i + 1 := by
  rw [nextId, UInt32.toNat_ofNat', Nat.mod_eq_of_lt hi]

private theorem firstIds_not_mem {i : ℕ} (hni : n ≤ i) (hi : i + 1 < 2 ^ 32) :
    nextId i ∉ firstIds n := by
  simp only [firstIds, List.mem_map, List.mem_range, not_exists, not_and]
  intro j hj heq
  have hnat := congrArg UInt32.toNat heq
  rw [toNat_nextId (by omega), toNat_nextId hi] at hnat
  omega

private theorem insert_firstIds (hn : n < 256) :
    Channels.insert ⟨firstIds n⟩ (nextId n) = some ⟨firstIds (n + 1)⟩ := by
  have hnot := firstIds_not_mem (le_refl n) (by omega)
  have hlength : (firstIds n).length ≠ maxChannels := by
    simp only [firstIds, List.length_map, List.length_range, maxChannels]
    omega
  have hsucc : firstIds n ++ [nextId n] = firstIds (n + 1) := by
    simp [firstIds, List.range_succ]
  simp [Channels.insert, Channels.contains, hnot, hlength, hsucc]

private theorem broadcast_not_mem (hn : n < 256) : broadcastCid ∉ firstIds n :=
  firstIds_not_mem (i := 0xfffffffe) (by omega) (by decide)

private theorem allocateChannel_allocated (hn : n < 256) (rest : List UInt32) :
    (allocatedHost n (nextId n :: rest)).allocateChannel =
      (some (nextId n),
        (allocatedHost n rest).withChannels ⟨firstIds (n + 1)⟩) := by
  have hid : (nextId n).toNat = n + 1 := toNat_nextId (by omega)
  have hzero : nextId n ≠ 0 := fun h => by simp [h] at hid
  have hlimit : nextId n ≠ broadcastCid := fun h => by
    have hcid : broadcastCid.toNat = 4294967295 := by decide
    rw [h, hcid] at hid
    omega
  have hdraw : CryptoRng.nextU32 (allocatedHost n (nextId n :: rest)).rng =
      (nextId n, (⟨rest⟩ : Draws)) := rfl
  have hinsert : (allocatedHost n (nextId n :: rest)).channels.insert
      (nextId n) = some ⟨firstIds (n + 1)⟩ := insert_firstIds hn
  rw [Host.allocateChannel, show channelGenerationRetryLimit = 63 + 1 from rfl,
    Host.allocateChannelLoop, hdraw]
  simp only [hzero, hlimit, or_self, if_false, hinsert]
  rfl

private theorem broadcastInit_allocated (hn : n < 256) (rest : List UInt32) :
    (allocatedHost n (nextId n :: rest)).handle broadcastInit =
      Host.resynchronise ((allocatedHost n rest).withChannels ⟨firstIds (n + 1)⟩)
        broadcastCid (nextId n) (broadcastFrame.bytes.drop 7) := by
  have hchannel : broadcastFrame.channel = broadcastCid := by decide
  have hinit : ¬ broadcastFrame.byte 4 &&& 0x80 = 0 := by decide
  have hcommand : Command.tryFrom (broadcastFrame.byte 4 &&& 0x7f) = some .init := by decide
  have hlength : ofBeBytes16 (broadcastFrame.byte 5) (broadcastFrame.byte 6) = 8 := by decide
  have htouch : Channels.touch ⟨firstIds n⟩ broadcastCid = ⟨firstIds n⟩ := by
    simp [Channels.touch, Channels.contains, broadcast_not_mem hn]
  have hhost : (allocatedHost n (nextId n :: rest)).handle broadcastInit =
      (allocatedHost n (nextId n :: rest)).handleInit broadcastCid 8
        (broadcastFrame.bytes.drop 7) := by
    have hexpire : (allocatedHost n (nextId n :: rest)).expireLease 0 =
        allocatedHost n (nextId n :: rest) := rfl
    have hids : (allocatedHost n (nextId n :: rest)).channels = ⟨firstIds n⟩ := rfl
    simp only [broadcastInit, Host.handle, Host.handleFrame, hexpire, hchannel, if_neg hinit,
      hcommand, hlength, hids, htouch]
    rfl
  rw [hhost, Host.handleInit]
  simp only [allocateChannel_allocated hn]
  rfl

/-- One INIT on the broadcast channel, and the write of its reply. -/
private theorem allocate_written (hn : n < 256) (rest : List UInt32) :
    (hostMachine Draws).run (allocatedHost n (nextId n :: rest))
      [broadcastInit, .written] = allocatedHost (n + 1) rest := by
  have hstep := broadcastInit_allocated hn rest
  have hreply : ∀ payload : Bytes, payload.length = 17 →
      Host.framesOf broadcastCid .init payload =
        [Host.initFrame broadcastCid .init payload] := by
    intro payload hlength
    apply Host.framesOf_short
    rw [hlength]
    decide
  simp only [hostMachine, Machine.run_cons, Machine.run_nil, hstep, Host.resynchronise,
    Host.enqueueMessage_eq, Host.finalToken]
  rw [hreply _ (by simp; decide)]
  simp [Host.handle, Host.headWritten, Host.nextOutgoingFrame, Host.outgoingFrameWritten,
    Host.isOutgoingCurrent, Host.pushFrames, Host.numbered, allocatedHost, Host.withChannels,
    Host.withRng, Host.appWorks]

private theorem allocate_all (n : ℕ) (hn : n ≤ 256) (rest : List UInt32) :
    (hostMachine Draws).run (Host.withRng ⟨firstIds n ++ rest⟩ ⟨0, 0, 0⟩ 0)
      (List.replicate n [broadcastInit, .written]).flatten = allocatedHost n rest := by
  induction n generalizing rest with
  | zero => rfl
  | succ n ih =>
    have hsplit : firstIds (n + 1) ++ rest = firstIds n ++ nextId n :: rest := by
      simp [firstIds, List.range_succ]
    rw [List.replicate_succ', List.flatten_append, hsplit, Machine.run_append, ih (by omega)]
    exact allocate_written (by omega) rest

/-- A host whose channel table is full. The reply to the last INIT is not yet written. -/
def crowdedHost : Host Draws :=
  (hostMachine Draws).step (allocatedHost 255 [nextId 255, 1000, 1, 2000]) broadcastInit

private theorem allocatedHost_reachable (n : ℕ) (hn : n ≤ 256) (rest : List UInt32) :
    (hostMachine Draws).Reachable (allocatedHost n rest) := by
  refine ⟨_, _, ⟨_, _, _, rfl⟩, executes_of_no_answers (fun event hevent => ?_) _,
    allocate_all n hn rest⟩
  obtain ⟨pair, hpair, hmem⟩ := List.mem_flatten.mp hevent
  rw [List.eq_of_mem_replicate hpair] at hmem
  simp only [List.mem_cons, List.not_mem_nil, or_false] at hmem
  rcases hmem with rfl | rfl <;> rfl

private theorem crowdedHost_reachable : (hostMachine Draws).Reachable crowdedHost := by
  have hfull := allocatedHost_reachable 255 (by omega) [nextId 255, 1000, 1, 2000]
  have henabled : (hostMachine Draws).enabled
    (allocatedHost 255 [nextId 255, 1000, 1, 2000]) broadcastInit := trivial
  exact hfull.step henabled

/-- A packet on the oldest channel and two more INIT on the broadcast channel. -/
def crowding : List Event :=
  [.packet (Host.initFrame 1 .ping [2]) 0, broadcastInit, broadcastInit]

private theorem crowding_foreign {host : Host Draws}
    (howner : host.state.channel = some broadcastCid) (hlease : host.lease = none) :
    (hostMachine Draws).Along (ForeignWhileHeld broadcastCid) host crowding := by
  have hinit : ∀ host : Host Draws, ForeignWhileHeld broadcastCid host broadcastInit := by
    intro host frame now h hne
    cases h
    exact absurd (by decide) hne
  refine ⟨fun frame now _ _ => ⟨.inl howner, fun owner expires hl => ?_⟩, hinit _, hinit _, trivial⟩
  rw [hlease] at hl
  cases hl

/-- The broadcast channel is not protected: a packet on the least recently used channel
changes which channel the next INIT forgets, and with it the channel a later INIT gets. -/
theorem broadcast_deletion_differs :
    (hostMachine Draws).Reachable crowdedHost ∧
      crowdedHost.state.channel = some broadcastCid ∧
      (hostMachine Draws).Executes crowdedHost crowding ∧
      (hostMachine Draws).Along (ForeignWhileHeld broadcastCid) crowdedHost crowding ∧
      (hostMachine Draws).outputs (newlyQueuedFor broadcastCid) crowdedHost
          (withoutForeign broadcastCid crowdedHost crowding) ≠
        (hostMachine Draws).outputs (newlyQueuedFor broadcastCid) crowdedHost crowding := by
  have howner : crowdedHost.state.channel = some broadcastCid := by decide +kernel
  have hlease : crowdedHost.lease = none := by decide +kernel
  have hdiffer : (hostMachine Draws).outputs (newlyQueuedFor broadcastCid) crowdedHost
      (withoutForeign broadcastCid crowdedHost crowding) ≠
        (hostMachine Draws).outputs (newlyQueuedFor broadcastCid) crowdedHost crowding := by
    decide +kernel
  exact ⟨crowdedHost_reachable, howner, executes_of_no_answers (by decide) _,
    crowding_foreign howner hlease, hdiffer⟩

end SoftwareAuthenticator.Ctaphid
