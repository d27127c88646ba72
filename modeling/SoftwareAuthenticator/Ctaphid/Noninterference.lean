import SoftwareAuthenticator.Ctaphid.Ownership

/-!
# Packets of other channels do not disturb the owner

While a channel owns the host, a packet on another channel is ignored or refused
with ERR_CHANNEL_BUSY. The only lasting traces are that report and the order of the
channel table.
-/

namespace SoftwareAuthenticator.Ctaphid

namespace Channels

theorem touch_perm (channels : Channels) (id : UInt32) :
    (channels.touch id).ids.Perm channels.ids := by
  unfold touch contains
  split
  · next h =>
    have hmem : id ∈ channels.ids := by simpa using h
    exact (List.perm_append_singleton _ _).trans (List.perm_cons_erase hmem).symm
  · exact List.Perm.refl _

end Channels

namespace Host

variable {R : Type}

variable {host : Host R} {c d : UInt32} {now : ℕ}

/-- The report that refuses a packet on `channel` while another channel owns the host. -/
def busyFrame (channel : UInt32) : Frame :=
  initFrame channel .error [ErrorCode.channelBusy.toU8]

structure HeldAt (host : Host R) (channel : UInt32) (now : ℕ) : Prop where
  owner : host.Owner channel
  leased : ∀ owner expires, host.lease = some (owner, expires) → now < expires

theorem HeldAt.expireLease (h : host.HeldAt c now) : host.expireLease now = host := by
  unfold Host.expireLease
  split
  · next owner expires hl =>
    have hnow := h.leased owner expires hl
    rw [if_neg (by omega)]
  · rfl

/-- The owner's lease, transaction or prompt is in the way of any other channel. -/
theorem Exclusive.conflict (h : host.Exclusive) (hc : host.Owner c) (hd : d ≠ c) :
    host.leaseConflicts d = true ∨ ∃ busy, host.busyChannel = some busy ∧ busy ≠ d := by
  rcases hc with hs | hp | ⟨expires, hl⟩
  · exact .inr ⟨c, by simp [busyChannel_eq, hs], hd.symm⟩
  · cases hs : host.state.channel with
    | none => exact .inr ⟨c, by simp [busyChannel_eq, hs, hp], hd.symm⟩
    | some b =>
      have hb : b = c := h.owners b c (.inl hs) (.inr (.inl hp))
      exact .inr ⟨b, by simp [busyChannel_eq, hs], by rw [hb]; exact hd.symm⟩
  · exact .inl (by simpa [leaseConflicts, hl] using hd.symm)

theorem handleRequest_conflict
    (h : host.leaseConflicts d = true ∨ ∃ busy, host.busyChannel = some busy ∧ busy ≠ d)
    (command : Option Command) (length : ℕ) (data : Bytes) (now : ℕ) :
    host.handleRequest d command length data now = pushFrames host [busyFrame d] := by
  rw [busyFrame, ← enqueueError_eq]
  unfold handleRequest
  split
  · rfl
  · next hlease =>
    obtain hconflict | ⟨busy, hbusy, hne⟩ := h
    · exact absurd hconflict hlease
    · simp [hbusy, refusedWhileBusy, hne]

theorem handleContinuation_foreign (h : host.state.channel ≠ some d) (sequence : UInt8)
    (data : Bytes) (now : ℕ) : host.handleContinuation d sequence data now = host := by
  unfold handleContinuation
  split
  · next receiving _ _ _ _ hs =>
    have hne : receiving ≠ d := by simpa [hs, State.channel] using h
    rw [if_pos hne]
  · rfl

theorem handleCancel_foreign (h : host.state.channel ≠ some d) : host.handleCancel d = host := by
  unfold handleCancel
  split
  · next p hs =>
    have hne : p.channel ≠ d := by simpa [hs, State.channel] using h
    rw [if_pos (.inl hne)]
  · rfl

theorem heldAt_congr {host' : Host R} (hstate : host'.state = host.state)
    (hu2f : host'.u2f = host.u2f) (hlease : host'.lease = host.lease) (h : host.HeldAt c now) :
    host'.HeldAt c now := by
  refine ⟨?_, ?_⟩
  · simpa [Owner, promptChannel, hstate, hu2f, hlease] using h.owner
  · simpa [hlease] using h.leased

theorem numbered_append (token : ℕ) (frames frames' : List Frame) :
    numbered token (frames ++ frames') =
      numbered token frames ++ numbered (token + frames.length) frames' := by
  induction frames generalizing token with
  | nil => rfl
  | cons frame frames ih =>
    simp [numbered, ih, Nat.add_comm, Nat.add_left_comm]

theorem pushFrames_append (host : Host R) (frames frames' : List Frame) :
    (host.pushFrames frames).pushFrames frames' = host.pushFrames (frames ++ frames') := by
  simp [pushFrames, numbered_append, Nat.add_assoc]

variable [CryptoRng R]

theorem handleInit_conflict
    (h : host.leaseConflicts d = true ∨ ∃ busy, host.busyChannel = some busy ∧ busy ≠ d)
    (length : ℕ) (data : Bytes) :
    host.handleInit d length data = pushFrames host [busyFrame d] := by
  rw [busyFrame, ← enqueueError_eq]
  unfold handleInit
  split
  · rfl
  · next hlease =>
    obtain hconflict | ⟨busy, hbusy, hne⟩ := h
    · exact absurd hconflict hlease
    · simp [hbusy, hne]

def withChannels (host : Host R) (channels : Channels) : Host R :=
  { host with channels := channels }

theorem Exclusive.handleFrame_foreign (h : host.Exclusive) {frame : Frame}
    (hheld : host.HeldAt c now) (hframe : frame.channel ≠ c) :
    ∃ channels : Channels, channels.ids.Perm host.channels.ids ∧
      ∃ frames : List Frame, frames.Sublist [busyFrame frame.channel] ∧
        host.handleFrame frame now = (host.withChannels channels).pushFrames frames := by
  have hstate : host.state.channel ≠ some frame.channel := fun hs =>
    hframe (h.owners _ _ (.inl hs) hheld.owner)
  unfold Host.handleFrame
  rw [hheld.expireLease]
  dsimp only
  split
  · refine ⟨host.channels, List.Perm.refl _, [], List.nil_sublist _, ?_⟩
    rw [handleContinuation_foreign hstate, pushFrames_nil]
    rfl
  · refine ⟨host.channels.touch frame.channel, Channels.touch_perm _ _, ?_⟩
    have hconflict : (host.withChannels (host.channels.touch frame.channel)).leaseConflicts
          frame.channel = true ∨
        ∃ busy, (host.withChannels (host.channels.touch frame.channel)).busyChannel = some busy ∧
          busy ≠ frame.channel := h.conflict hheld.owner hframe
    split
    · exact ⟨[], List.nil_sublist _, by rw [pushFrames_nil]; exact handleCancel_foreign hstate⟩
    · exact ⟨_, List.Sublist.refl _, handleInit_conflict hconflict _ _⟩
    · exact ⟨_, List.Sublist.refl _, handleRequest_conflict hconflict _ _ _ _⟩

theorem Exclusive.run_foreign (h : host.Exclusive) (packets : List (Frame × ℕ))
    (hpackets : ∀ packet ∈ packets, packet.1.channel ≠ c ∧ host.HeldAt c packet.2) :
    ∃ channels : Channels, channels.ids.Perm host.channels.ids ∧
      ∃ frames : List Frame,
        frames.Sublist (packets.map fun packet => busyFrame packet.1.channel) ∧
        (hostMachine R).run host (packets.map fun packet => .packet packet.1 packet.2) =
          (host.withChannels channels).pushFrames frames := by
  induction packets generalizing host with
  | nil => exact ⟨host.channels, List.Perm.refl _, [], List.Sublist.refl _, by simp; rfl⟩
  | cons packet packets ih =>
    obtain ⟨hne, hheld⟩ := hpackets packet (by simp)
    obtain ⟨channels, hperm, frames, hframes, heq⟩ := h.handleFrame_foreign hheld hne
    have hnext : (host.handleFrame packet.1 packet.2).Exclusive :=
      h.handle (.packet packet.1 packet.2)
    have hrest : ∀ q ∈ packets, q.1.channel ≠ c ∧
        (host.handleFrame packet.1 packet.2).HeldAt c q.2 := by
      intro q hq
      obtain ⟨hqne, hqheld⟩ := hpackets q (by simp [hq])
      exact ⟨hqne, heldAt_congr (by rw [heq]; rfl) (by rw [heq]; rfl) (by rw [heq]; rfl) hqheld⟩
    obtain ⟨channels', hperm', frames', hframes', heq'⟩ := ih hnext hrest
    refine ⟨channels', hperm'.trans (by rw [heq]; exact hperm), frames ++ frames', ?_, ?_⟩
    · exact (hframes.append hframes')
    · refine heq'.trans ?_
      rw [heq, ← pushFrames_append]
      rfl

end Host

end SoftwareAuthenticator.Ctaphid
