import Mathlib.Data.List.Nodup
import SoftwareAuthenticator.Ctaphid.Answers

/-!
# The output queue

Reports are numbered when they are queued; the response under way is known by the number of its
last report.
-/

namespace SoftwareAuthenticator.Ctaphid

theorem addressedTo_pad (channel : UInt32) (bytes : Bytes) :
    (Frame.pad (beBytes32 channel ++ bytes)).addressedTo channel = true := by
  have hlength : (beBytes32 channel).length = 4 := length_beBytes32 channel
  simp [Frame.addressedTo, Frame.pad, packetSize, List.take_append, hlength]

theorem addressedTo_contFrames {channel : UInt32} {fuel : ℕ} {sequence : UInt8} {rest : Bytes}
    {frame : Frame} (h : frame ∈ Host.contFrames channel fuel sequence rest) :
    frame.addressedTo channel = true := by
  induction fuel generalizing sequence rest with
  | zero =>
    cases rest with
    | nil | cons => cases h
  | succ fuel ih =>
    cases rest with
    | nil => cases h
    | cons byte rest =>
      rcases List.mem_cons.mp h with rfl | h
      · rw [List.append_assoc]
        exact addressedTo_pad channel _
      · exact ih h

theorem addressedTo_framesOf {channel : UInt32} {command : Command} {payload : Bytes}
    {frame : Frame} (h : frame ∈ Host.framesOf channel command payload) :
    frame.addressedTo channel = true := by
  have hmessage : ∀ {command : Command} {payload : Bytes},
      frame ∈ Host.messageFrames channel command payload → frame.addressedTo channel = true := by
    intro command payload hmem
    rcases List.mem_cons.mp hmem with rfl | hmem
    · unfold Host.initFrame
      rw [List.append_assoc, List.append_assoc]
      exact addressedTo_pad channel _
    · exact addressedTo_contFrames hmem
  unfold Host.framesOf at h
  split at h
  · exact hmessage h
  · exact hmessage h

namespace Host

variable {R : Type} {host host' : Host R} {channel : UInt32}

/-- Reports were added to the queue. A response came under way only where none was, and
its last report is one of them. -/
structure Queues (host host' : Host R) : Prop where
  added : ∃ frames, host'.pending = host.pending ++ numbered host.nextToken frames ∧
    host'.nextToken = host.nextToken + frames.length
  state : host'.state = host.state ∨ (host.state.isTransmitting = false ∧
    ∀ c t, host'.state = .transmitting c t → host.nextToken ≤ t ∧
      ∃ outgoing ∈ host'.pending, outgoing.token = t ∧ outgoing.frame.addressedTo c = true)

theorem Queues.subset (h : Queues host host') :
    ∀ outgoing ∈ host.pending, outgoing ∈ host'.pending := by
  obtain ⟨frames, hpending, -⟩ := h.added
  intro outgoing hmem
  rw [hpending]
  exact List.mem_append_left _ hmem

theorem Queues.nextToken_le (h : Queues host host') : host.nextToken ≤ host'.nextToken := by
  obtain ⟨frames, -, htoken⟩ := h.added
  omega

theorem Queues.refl (host : Host R) : Queues host host :=
  ⟨⟨[], by simp [numbered], by simp⟩, .inl rfl⟩

theorem Queues.trans {host'' : Host R} (h : Queues host host') (h' : Queues host' host'') :
    Queues host host'' := by
  obtain ⟨frames, hpending, htoken⟩ := h.added
  obtain ⟨frames', hpending', htoken'⟩ := h'.added
  refine ⟨⟨frames ++ frames', ?_, ?_⟩, ?_⟩
  · rw [hpending', hpending, htoken, numbered_append, List.append_assoc]
  · rw [htoken', htoken, List.length_append, Nat.add_assoc]
  · rcases h'.state with hsame' | ⟨hfree', hnew'⟩
    · rcases h.state with hsame | ⟨hfree, hnew⟩
      · exact .inl (hsame'.trans hsame)
      · refine .inr ⟨hfree, fun c t hstate => ?_⟩
        obtain ⟨hle, outgoing, hmem, ht⟩ := hnew c t (hsame'.symm.trans hstate)
        exact ⟨hle, outgoing, h'.subset _ hmem, ht⟩
    · refine .inr ⟨?_, fun c t hstate => ?_⟩
      · rcases h.state with hsame | ⟨hfree, -⟩
        · rw [← hsame]
          exact hfree'
        · exact hfree
      · obtain ⟨hle, hexists⟩ := hnew' c t hstate
        exact ⟨le_trans h.nextToken_le hle, hexists⟩

theorem Queues.quiet (hpending : host'.pending = host.pending)
    (htoken : host'.nextToken = host.nextToken) (hstate : host'.state = host.state ∨
      (host.state.isTransmitting = false ∧ host'.state.isTransmitting = false)) :
    Queues host host' := by
  refine ⟨⟨[], by simp [numbered, hpending], by simp [htoken]⟩, ?_⟩
  rcases hstate with hsame | ⟨hfree, hfree'⟩
  · exact .inl hsame
  · refine .inr ⟨hfree, fun c t hstate => ?_⟩
    rw [hstate] at hfree'
    cases hfree'

theorem queues_pushFrames (host : Host R) (frames : List Frame) :
    Queues host (host.pushFrames frames) :=
  ⟨⟨frames, rfl, rfl⟩, .inl rfl⟩

theorem exists_mem_numbered (token : ℕ) {frames : List Frame} (h : frames ≠ []) :
    ∃ frame ∈ frames, (⟨frame, token + frames.length - 1⟩ : OutgoingFrame) ∈
      numbered token frames := by
  induction frames generalizing token with
  | nil => exact absurd rfl h
  | cons frame frames ih =>
    cases frames with
    | nil => exact ⟨frame, by simp, by simp [numbered]⟩
    | cons frame' frames =>
      obtain ⟨last, hmem, hlast⟩ := ih (token + 1) (by simp)
      refine ⟨last, List.mem_cons_of_mem _ hmem, List.mem_cons_of_mem _ ?_⟩
      have htoken : token + 1 + (frame' :: frames).length - 1 =
          token + (frame :: frame' :: frames).length - 1 := by
        simp only [List.length_cons]
        omega
      rw [← htoken]
      exact hlast

/-- The last report of a message is in the queue, and carries its channel. -/
theorem exists_final (host : Host R) (channel : UInt32) (command : Command) (payload : Bytes) :
    ∃ outgoing ∈ (enqueueMessage host channel command payload).pending,
      outgoing.token = finalToken host channel command payload ∧
      outgoing.frame.addressedTo channel = true := by
  obtain ⟨frame, hmem, hlast⟩ := exists_mem_numbered host.nextToken
    (framesOf_ne_nil channel command payload)
  rw [enqueueMessage_eq]
  exact ⟨_, List.mem_append_right _ hlast, rfl, addressedTo_framesOf hmem⟩

theorem queues_enqueueMessage (hfree : host.state.isTransmitting = false)
    (hpending : host'.pending = host.pending) (htoken : host'.nextToken = host.nextToken)
    (channel : UInt32) (command : Command) (payload : Bytes) :
    Queues host (enqueueMessage host' channel command payload) := by
  have hfinal := exists_final host' channel command payload
  rw [enqueueMessage_eq] at hfinal ⊢
  refine ⟨⟨framesOf channel command payload, ?_, ?_⟩, .inr ⟨hfree, fun c t hstate => ?_⟩⟩
  · rw [← hpending, ← htoken]
    rfl
  · rw [← htoken]
    rfl
  · cases hstate
    refine ⟨?_, hfinal⟩
    have hlength := List.length_pos_of_ne_nil (framesOf_ne_nil channel command payload)
    rw [← htoken]
    unfold finalToken
    omega

variable {completed : Option (UInt32 × Bytes)}

theorem Queues.move {call : Call} (hcall : call.isWritten = false)
    (hmove : Move call completed host host') :
    Queues host host' := by
  cases hmove with
  | writes h | ends h =>
    rw [hcall] at h
    cases h
  | replies hanswers => exact queues_enqueueMessage hanswers.free rfl rfl _ _ _
  | collects _ hserved => exact queues_enqueueMessage hserved.free (by rfl) (by rfl) _ _ _
  | delivers _ hstate =>
    exact queues_enqueueMessage (by rw [hstate]; rfl) (by rfl) (by rfl) _ _ _
  | receives _ hidle => exact .quiet rfl rfl (.inr ⟨by rw [hidle]; rfl, rfl⟩)
  | identifies _ hserved | holds _ hserved | holdsMsg _ hserved =>
    exact .quiet rfl rfl (.inr ⟨hserved.free, rfl⟩)
  | continues _ hstate | submits hstate | takes _ _ hstate =>
    exact .quiet rfl rfl (.inr ⟨by rw [hstate]; rfl, rfl⟩)
  | waits hstate =>
    refine Queues.trans ?_ (queues_pushFrames _ _)
    exact .quiet rfl rfl (.inr ⟨by rw [hstate]; rfl, rfl⟩)
  | _ => exact .quiet rfl rfl (.inl rfl)

theorem Moves.queues {call : Call} (hcall : call.isWritten = false)
    (h : Moves call completed host host') : Queues host host' :=
  h.keeps (fun hmove hqueues => hqueues.trans (.move hcall hmove)) (.refl host)

/-- The channel is resynchronised: its reports are dropped, and the reply, which is one
report, is under way. -/
structure Resyncs (channel : UInt32) (host host' : Host R) : Prop where
  owned : ∀ c t, host.state = .transmitting c t → c = channel
  reply : ∃ reply, host'.pending =
      host.pending.filter (fun outgoing => !outgoing.frame.addressedTo channel) ++
        [⟨initFrame channel .init reply, host.nextToken⟩]
  nextToken : host'.nextToken = host.nextToken + 1
  state : host'.state = .transmitting channel host.nextToken

theorem resyncs_resynchronise (hadmits : host.Admits channel) (assigned : UInt32) (data : Bytes) :
    Resyncs channel host (host.resynchronise channel assigned data) := by
  have howned : ∀ c t, host.state = .transmitting c t → c = channel := by
    intro c t hstate
    refine hadmits.2 c ?_
    unfold busyChannel
    rw [hstate]
  have hshort : (data.take 8 ++ beBytes32 assigned ++
      [2, host.version.major, host.version.minor, host.version.build,
        host.capabilities]).length ≤ initData := by
    have htake : (data.take 8).length ≤ 8 := List.length_take_le 8 data
    simp only [List.length_append, length_beBytes32, List.length_cons, List.length_nil]
    exact le_trans (by omega) (show 17 ≤ initData by decide)
  unfold resynchronise
  dsimp only
  rw [enqueueMessage_eq]
  unfold finalToken
  rw [framesOf_short hshort]
  exact ⟨howned, ⟨_, rfl⟩, rfl, rfl⟩

theorem Resyncs.of_eq {host₁ : Host R} (h : Resyncs channel host₁ host')
    (hpending : host₁.pending = host.pending) (htoken : host₁.nextToken = host.nextToken)
    (hstate : host₁.state = host.state) : Resyncs channel host host' := by
  obtain ⟨howned, hreply, hnext, htransmitting⟩ := h
  rw [hstate] at howned
  rw [hpending, htoken] at hreply
  rw [htoken] at hnext htransmitting
  exact ⟨howned, hreply, hnext, htransmitting⟩

/-- A packet that is refused adds one error; otherwise INIT resynchronises its channel. -/
theorem Concludes.output {call : Call} (h : Concludes call completed host host') :
    (∃ frame now, call = .event (.packet frame now) ∧
      ∃ code, host'.state = host.state ∧ host'.deliveries = host.deliveries ∧
        host'.pending = host.pending ++
          [⟨initFrame frame.channel .error [code], host.nextToken⟩] ∧
        host'.nextToken = host.nextToken + 1) ∨
    ∃ frame now, call = .event (.packet frame now) ∧ frame.isInit ∧
      Resyncs frame.channel host host' := by
  cases h with
  | @refuses frame now _ _ _ hcall _ code =>
    refine .inl ⟨frame, now, hcall, code.toU8, ?_⟩
    rw [enqueueError_eq]
    exact ⟨rfl, rfl, rfl, rfl⟩
  | @resynchronises frame now _ _ _ hcall hinit _ hadmits assigned data =>
    refine .inr ⟨frame, now, hcall, hinit, ?_⟩
    exact (resyncs_resynchronise hadmits assigned data).of_eq rfl rfl rfl

/-- The head of the queue was written, and with the last report of the response under
way the transaction is over. -/
structure Writes (head : OutgoingFrame) (host host' : Host R) : Prop where
  pending : host.pending = head :: host'.pending
  nextToken : host'.nextToken = host.nextToken
  state : (∃ c, host.state = .transmitting c head.token ∧ host'.state = .idle) ∨
    ((∀ c, host.state ≠ .transmitting c head.token) ∧ host'.state = host.state)

/-- Acknowledging a report does nothing, unless it is the head of the queue. -/
theorem outgoingFrameWritten_cases (host : Host R) (frame : OutgoingFrame) :
    ((∀ head, host.pending.head? = some head → head.token ≠ frame.token) ∧
      host.outgoingFrameWritten frame = (host, false)) ∨
    ∃ head, host.pending.head? = some head ∧ head.token = frame.token ∧
      (host.outgoingFrameWritten frame).2 = true ∧
      Writes head host (host.outgoingFrameWritten frame).1 := by
  unfold outgoingFrameWritten isOutgoingCurrent
  cases hpending : host.pending with
  | nil => exact .inl ⟨by simp, rfl⟩
  | cons head rest =>
    by_cases htoken : head.token = frame.token
    · refine .inr ⟨head, rfl, htoken, ?_⟩
      simp only [List.head?_cons, Option.any_some, htoken, decide_true, Bool.not_true,
        Bool.false_eq_true, if_false, List.tail_cons]
      split
      · rename_i c finalFrame hstate
        split
        · rename_i hfinal
          refine ⟨rfl, hpending, rfl, .inl ⟨c, ?_, rfl⟩⟩
          rw [htoken, ← hfinal]
          exact hstate
        · rename_i hfinal
          refine ⟨rfl, hpending, rfl, .inr ⟨fun c' hother => hfinal ?_, rfl⟩⟩
          rw [hstate, htoken] at hother
          exact (State.transmitting.inj hother).2
      · rename_i hstate
        exact ⟨rfl, hpending, rfl, .inr ⟨fun c hother => hstate c _ hother, rfl⟩⟩
    · refine .inl ⟨?_, ?_⟩
      · rintro _ ⟨⟩
        exact htoken
      · simp [htoken]

/-- Tokens rise along the queue, all of them were given out, and the last report of the
response under way is in the queue. -/
structure InOrder (host : Host R) : Prop where
  increasing : (host.pending.map (·.token)).Pairwise (· < ·)
  given : ∀ outgoing ∈ host.pending, outgoing.token < host.nextToken
  final : ∀ c t, host.state = .transmitting c t →
    ∃ outgoing ∈ host.pending, outgoing.token = t ∧ outgoing.frame.addressedTo c = true

theorem pairwise_numbered (token : ℕ) (frames : List Frame) :
    ((numbered token frames).map (·.token)).Pairwise (· < ·) := by
  induction frames generalizing token with
  | nil => exact List.Pairwise.nil
  | cons frame frames ih =>
    refine List.Pairwise.cons ?_ (ih (token + 1))
    intro t ht
    obtain ⟨outgoing, hmem, rfl⟩ := List.mem_map.mp ht
    exact (mem_numbered hmem).1

theorem InOrder.queues (h : host.InOrder) (hq : Queues host host') : host'.InOrder := by
  obtain ⟨frames, hpending, htoken⟩ := hq.added
  refine ⟨?_, ?_, ?_⟩
  · rw [hpending, List.map_append]
    refine List.pairwise_append.mpr ⟨h.increasing, pairwise_numbered _ _, ?_⟩
    intro t ht t' ht'
    obtain ⟨outgoing, hmem, rfl⟩ := List.mem_map.mp ht
    obtain ⟨outgoing', hmem', rfl⟩ := List.mem_map.mp ht'
    exact lt_of_lt_of_le (h.given _ hmem) (mem_numbered hmem').1
  · intro outgoing hmem
    rw [hpending] at hmem
    rw [htoken]
    rcases List.mem_append.mp hmem with hmem | hmem
    · exact Nat.lt_add_right _ (h.given _ hmem)
    · exact (mem_numbered hmem).2
  · intro c t hstate
    rcases hq.state with hsame | ⟨-, hnew⟩
    · obtain ⟨outgoing, hmem, ht⟩ := h.final c t (hsame.symm.trans hstate)
      exact ⟨outgoing, hq.subset _ hmem, ht⟩
    · exact (hnew c t hstate).2

theorem InOrder.resyncs (h : host.InOrder) (hr : Resyncs channel host host') : host'.InOrder := by
  obtain ⟨reply, hpending⟩ := hr.reply
  refine ⟨?_, ?_, ?_⟩
  · rw [hpending, List.map_append]
    refine List.pairwise_append.mpr
      ⟨h.increasing.sublist (List.filter_sublist.map _), List.pairwise_singleton _ _, ?_⟩
    intro t ht t' ht'
    obtain ⟨outgoing, hmem, rfl⟩ := List.mem_map.mp ht
    obtain rfl := List.mem_singleton.mp ht'
    exact h.given _ (List.mem_of_mem_filter hmem)
  · intro outgoing hmem
    rw [hpending] at hmem
    rw [hr.nextToken]
    rcases List.mem_append.mp hmem with hmem | hmem
    · exact Nat.lt_succ_of_lt (h.given _ (List.mem_of_mem_filter hmem))
    · rw [List.mem_singleton.mp hmem]
      exact Nat.lt_succ_self _
  · intro c t hstate
    rw [hr.state] at hstate
    cases hstate
    rw [hpending]
    exact ⟨_, List.mem_append_right _ (List.mem_singleton_self _), rfl,
      (addressedTo_initFrame _ _ _ _).mpr rfl⟩

theorem InOrder.writes {head : OutgoingFrame} (h : host.InOrder) (hw : Writes head host host') :
    host'.InOrder := by
  obtain ⟨hincreasing, hgiven, hfinal⟩ := h
  rw [hw.pending] at hincreasing hgiven hfinal
  refine ⟨(List.pairwise_cons.mp hincreasing).2, ?_, ?_⟩
  · intro outgoing hmem
    rw [hw.nextToken]
    exact hgiven outgoing (List.mem_cons_of_mem _ hmem)
  · intro c t hstate
    rcases hw.state with ⟨_, -, hidle⟩ | ⟨hother, hsame⟩
    · rw [hidle] at hstate
      cases hstate
    · rw [hsame] at hstate
      obtain ⟨outgoing, hmem, rfl, haddressed⟩ := hfinal c t hstate
      rcases List.mem_cons.mp hmem with rfl | hmem
      · exact absurd hstate (hother c)
      · exact ⟨outgoing, hmem, rfl, haddressed⟩

/-- `host'` comes later: what is in its queue was there, or has a newer token. -/
structure Later (host host' : Host R) : Prop where
  nextToken : host.nextToken ≤ host'.nextToken
  pending : ∀ outgoing ∈ host'.pending, outgoing ∈ host.pending ∨ host.nextToken ≤ outgoing.token

theorem Later.trans {a b c : Host R} (hab : Later a b) (hbc : Later b c) : Later a c := by
  refine ⟨le_trans hab.nextToken hbc.nextToken, fun outgoing hmem => ?_⟩
  rcases hbc.pending outgoing hmem with hmem | hnew
  · exact hab.pending outgoing hmem
  · exact .inr (le_trans hab.nextToken hnew)

theorem InOrder.unique (h : host.InOrder) {f g : OutgoingFrame} (hf : f ∈ host.pending)
    (hg : g ∈ host.pending) (htoken : f.token = g.token) : f = g :=
  List.inj_on_of_nodup_map (h.increasing.imp ne_of_lt) hf hg htoken

theorem InOrder.filter_token (h : host.InOrder) {f : OutgoingFrame} (hf : f ∈ host.pending) :
    host.pending.filter (fun g => g.token = f.token) = [f] := by
  obtain ⟨early, late, hsplit⟩ := List.append_of_mem hf
  have hincreasing := h.increasing
  rw [hsplit, List.map_append, List.map_cons, List.pairwise_append, List.pairwise_cons]
    at hincreasing
  obtain ⟨-, ⟨hlate, -⟩, hearly⟩ := hincreasing
  have hnone : early.filter (fun g => g.token = f.token) = [] := by
    refine List.filter_eq_nil_iff.mpr fun g hg htoken => ?_
    have := hearly g.token (List.mem_map_of_mem hg) f.token List.mem_cons_self
    exact absurd (of_decide_eq_true htoken) (ne_of_lt this)
  have hnone' : late.filter (fun g => g.token = f.token) = [] := by
    refine List.filter_eq_nil_iff.mpr fun g hg htoken => ?_
    have := hlate g.token (List.mem_map_of_mem hg)
    exact absurd (of_decide_eq_true htoken) (ne_of_gt this)
  rw [hsplit, List.filter_append, List.filter_cons_of_pos (by simp), hnone, hnone',
    List.nil_append]

variable [CryptoRng R]

theorem Resyncs.initAccepted {frame : Frame} {now : ℕ} (hinit : frame.isInit)
    (h : Resyncs frame.channel host (host.handleFrame frame now)) : InitAccepted host frame now := by
  obtain ⟨reply, hreply⟩ := h.reply
  refine ⟨hinit, ⟨initFrame frame.channel .init reply, host.nextToken⟩, ?_, rfl⟩
  rw [hreply, List.getLast?_append]
  rfl

/-- Everything a call can do to the queue and the response under way. -/
theorem call_cases (host : Host R) (call : Call) :
    Queues host (host.call call) ∨
    (∃ frame now, call = .event (.packet frame now) ∧ InitAccepted host frame now ∧
      Resyncs frame.channel host (host.call call)) ∨
    ∃ head, (call = .event .written ∨ ∃ frame, call = .written frame ∧ frame.token = head.token) ∧
      Writes head host (host.call call) := by
  cases hwritten : call.isWritten with
  | false =>
    rcases host.moves_call call with hmoves | hconcludes
    · exact .inl (hmoves.queues hwritten)
    rcases hconcludes.output with
      ⟨frame, now, rfl, code, hstate, -, hpending, htoken⟩ | ⟨frame, now, rfl, hinit, hresyncs⟩
    · exact .inl ⟨⟨[_], hpending, htoken⟩, .inl hstate⟩
    · exact .inr (.inl ⟨frame, now, rfl, Resyncs.initAccepted hinit hresyncs, hresyncs⟩)
  | true =>
    unfold Call.isWritten at hwritten
    split at hwritten
    · change Queues host host.headWritten ∨ _ ∨ ∃ head, _ ∧ Writes head host host.headWritten
      unfold headWritten nextOutgoingFrame
      split
      · rename_i frame hhead
        rcases host.outgoingFrameWritten_cases frame with ⟨hne, -⟩ | ⟨head, -, -, -, hwrites⟩
        · exact absurd rfl (hne frame hhead)
        · exact .inr (.inr ⟨head, .inl rfl, hwrites⟩)
      · exact .inl (.refl host)
    · rename_i frame
      rcases host.outgoingFrameWritten_cases frame with ⟨-, heq⟩ | ⟨head, -, htoken, -, hwrites⟩
      · refine .inl ?_
        change Queues host (host.outgoingFrameWritten frame).1
        rw [heq]
        exact .refl host
      · exact .inr (.inr ⟨head, .inr ⟨frame, rfl, htoken.symm⟩, hwrites⟩)
    · cases hwritten

theorem InOrder.call (h : host.InOrder) (call : Call) : (host.call call).InOrder := by
  rcases host.call_cases call with hq | ⟨frame, now, -, -, hr⟩ | ⟨head, -, hw⟩
  · exact h.queues hq
  · exact h.resyncs hr
  · exact h.writes hw

theorem later_call (host : Host R) (call : Call) : Later host (host.call call) := by
  rcases host.call_cases call with hq | ⟨frame, now, -, -, hr⟩ | ⟨head, -, hw⟩
  · obtain ⟨frames, hpending, -⟩ := hq.added
    refine ⟨hq.nextToken_le, fun outgoing hmem => ?_⟩
    rw [hpending] at hmem
    rcases List.mem_append.mp hmem with hmem | hmem
    · exact .inl hmem
    · exact .inr (mem_numbered hmem).1
  · obtain ⟨reply, hpending⟩ := hr.reply
    refine ⟨hr.nextToken ▸ Nat.le_succ _, fun outgoing hmem => ?_⟩
    rw [hpending] at hmem
    rcases List.mem_append.mp hmem with hmem | hmem
    · exact .inl (List.mem_of_mem_filter hmem)
    · rw [List.mem_singleton.mp hmem]
      exact .inr le_rfl
  · refine ⟨le_of_eq hw.nextToken.symm, fun outgoing hmem => .inl ?_⟩
    rw [hw.pending]
    exact List.mem_cons_of_mem _ hmem

theorem later_run (host : Host R) (calls : List Call) :
    Later host ((callMachine R).run host calls) := by
  induction calls generalizing host with
  | nil => exact ⟨le_rfl, fun _ hmem => .inl hmem⟩
  | cons call calls ih => exact (host.later_call call).trans (ih (host.call call))

theorem inOrder_run (rng : R) (version : Version) (capabilities : UInt8) (calls : List Call) :
    ((callMachine R).run (withRng rng version capabilities) calls).InOrder := by
  have hinitial : (withRng rng version capabilities).InOrder :=
    ⟨List.Pairwise.nil, by simp [withRng], by simp [withRng]⟩
  have hcalls : (callMachine R).Along (fun _ _ => True) (withRng rng version capabilities) calls := by
    generalize withRng rng version capabilities = host
    induction calls generalizing host with
    | nil => trivial
    | cons call calls ih => exact ⟨trivial, ih _⟩
  exact Machine.invariant_along (fun _ call h _ => h.call call) hinitial hcalls

end Host

variable {R : Type} [CryptoRng R]

/-- However calls on a new host are interleaved: while a response is under way, its last
report is the one report in the queue with its token. It ceases to be under way only when
that report is acknowledged at the head of the queue, or by an accepted INIT on its channel. -/
theorem transaction_owns_channel (rng : R) (version : Version) (capabilities : UInt8)
    (before after : List Call) :
    let host := (callMachine R).run (Host.withRng rng version capabilities) before
    let host' := (callMachine R).run host after
    (∀ c t, host.state = .transmitting c t → ∃ frame : Frame,
      host.pending.filter (fun outgoing => outgoing.token = t) = [⟨frame, t⟩] ∧
      frame.addressedTo c = true) ∧
    (host.pending.map (·.token)).Pairwise (· < ·) ∧
    (∀ f ∈ host.pending, ∀ g ∈ host'.pending, f.token = g.token → f = g) ∧
    (∀ call c t, host.state = .transmitting c t → (host.call call).state ≠ .transmitting c t →
      (∃ head, host.pending.head? = some head ∧ head.token = t ∧
        (call = .event .written ∨ ∃ frame, call = .written frame ∧ frame.token = t)) ∨
      ∃ frame now, call = .event (.packet frame now) ∧ InitAccepted host frame now ∧
        frame.channel = c) ∧
    ∀ f ∈ host.pending, host'.pending.head? ≠ some f →
      host'.outgoingFrameWritten f = (host', false) := by
  intro host host'
  have horder : host.InOrder := Host.inOrder_run rng version capabilities before
  have hlater : Host.Later host host' := host.later_run after
  have hreused : ∀ f ∈ host.pending, ∀ g ∈ host'.pending, f.token = g.token → f = g := by
    intro f hf g hg htoken
    rcases hlater.pending g hg with hg | hnew
    · exact horder.unique hf hg htoken
    · have := horder.given f hf
      omega
  refine ⟨fun c t hstate => ?_, horder.increasing, hreused, ?_, ?_⟩
  · obtain ⟨⟨frame, _⟩, hmem, rfl, haddressed⟩ := horder.final c t hstate
    exact ⟨frame, horder.filter_token hmem, haddressed⟩
  · intro call c t hstate hleft
    rcases host.call_cases call with hq | ⟨frame, now, hcall, hinit, hr⟩ | ⟨head, hcall, hw⟩
    · rcases hq.state with hsame | ⟨hfree, -⟩
      · exact absurd (hsame.trans hstate) hleft
      · rw [hstate] at hfree
        cases hfree
    · exact .inr ⟨frame, now, hcall, hinit, (hr.owned c t hstate).symm⟩
    · rcases hw.state with ⟨c', hother, -⟩ | ⟨-, hsame⟩
      · rw [hstate] at hother
        obtain ⟨-, rfl⟩ := State.transmitting.inj hother
        refine .inl ⟨head, ?_, rfl, hcall⟩
        rw [hw.pending]
        rfl
      · exact absurd (hsame.trans hstate) hleft
  · intro f hf hhead
    rcases host'.outgoingFrameWritten_cases f with ⟨-, heq⟩ | ⟨head, hhead', htoken, -⟩
    · exact heq
    · have hmem : head ∈ host'.pending := List.mem_of_mem_head? hhead'
      rw [← hreused f hf head hmem htoken.symm] at hhead'
      exact absurd hhead' hhead

def pingCalls : List Call := [.event (.packet (Host.initFrame 5 .ping [7]) 0)]

theorem transaction_owns_channel_ping :
    let host := (callMachine Draws).run freshHost pingCalls
    let host' := (callMachine Draws).run host [.event .written]
    host.state = .transmitting 5 0 ∧ host'.state = .idle ∧
      (∃ frame : Frame, host.pending.filter (fun outgoing => outgoing.token = 0) = [⟨frame, 0⟩] ∧
        frame.addressedTo 5 = true) ∧
      ∃ f ∈ host.pending, host'.outgoingFrameWritten f = (host', false) := by
  intro host host'
  obtain ⟨hfinal, -, -, -, hstale⟩ :=
    transaction_owns_channel (⟨[]⟩ : Draws) ⟨0, 0, 0⟩ 0 pingCalls [.event .written]
  have hstate : host.state = .transmitting 5 0 := by decide
  have hmem : (⟨Host.initFrame 5 .ping [7], 0⟩ : OutgoingFrame) ∈ host.pending := by decide
  have hwritten : host'.pending.head? ≠ some ⟨Host.initFrame 5 .ping [7], 0⟩ := by decide
  exact ⟨hstate, by decide, hfinal 5 0 hstate, _, hmem, hstale _ hmem hwritten⟩

end SoftwareAuthenticator.Ctaphid
