import Mathlib.Data.List.GetD
import SoftwareAuthenticator.Ctaphid.Client
import SoftwareAuthenticator.Ctaphid.Output

/-!
# Framing

The client's packets are the packets the host would write for the same message. What both
receivers need to know about them is said once.
-/

namespace SoftwareAuthenticator.Ctaphid

theorem ofBeBytes16_beBytes16 {n : ℕ} (h : n < 2 ^ 16) :
    ofBeBytes16 (UInt16.ofNat n >>> 8).toUInt8 (UInt16.ofNat n).toUInt8 = n := by
  have e8 : (8 : UInt16).toNat % 16 = 8 := rfl
  simp only [ofBeBytes16, UInt16.toNat_toUInt8, UInt16.toNat_shiftRight,
    Nat.shiftRight_eq_div_pow, e8, UInt16.toNat_ofNat']
  omega

namespace Frame

theorem bytes_pad {bytes : Bytes} (h : bytes.length ≤ packetSize) :
    (pad bytes).bytes = bytes ++ List.replicate (packetSize - bytes.length) 0 := by
  change (bytes ++ List.replicate packetSize 0).take packetSize = _
  rw [List.take_append, List.take_of_length_le h, List.take_replicate,
    Nat.min_eq_left (Nat.sub_le _ _)]

/-- What follows the first bytes of a padded packet starts with the rest of its content. -/
theorem take_drop_pad {head data : Bytes} {n : ℕ} (h : (head ++ data).length ≤ packetSize)
    (hn : n ≤ data.length) : ((pad (head ++ data)).bytes.drop head.length).take n = data.take n := by
  rw [bytes_pad h, List.append_assoc, List.drop_left, List.take_append_of_le_length hn]

theorem byte_pad {bytes : Bytes} {i : ℕ} (h : bytes.length ≤ packetSize) (hi : i < bytes.length) :
    (pad bytes).byte i = bytes.getD i 0 := by
  rw [byte, bytes_pad h, List.getD_append _ _ _ _ hi]

theorem channel_pad (channel : UInt32) {rest : Bytes} (h : rest.length + 4 ≤ packetSize) :
    (pad (beBytes32 channel ++ rest)).channel = channel := by
  have hlen : (beBytes32 channel ++ rest).length ≤ packetSize := by
    rw [List.length_append, length_beBytes32]
    omega
  have hbyte (i : ℕ) (hi : i < 4) :
      (pad (beBytes32 channel ++ rest)).byte i = (beBytes32 channel).getD i 0 := by
    rw [byte_pad hlen (by rw [List.length_append, length_beBytes32]; omega),
      List.getD_append _ _ _ _ (by rw [length_beBytes32]; exact hi)]
  rw [Frame.channel, hbyte 0 (by omega), hbyte 1 (by omega), hbyte 2 (by omega),
    hbyte 3 (by omega)]
  exact ofBeBytes32_beBytes32 channel

end Frame

variable {channel : UInt32} {frame : Frame} {n : ℕ} {rest : Bytes}

def onChannel (channel : UInt32) (frames : List Frame) : List Frame :=
  frames.filter fun frame => frame.channel = channel

theorem onChannel_own (h : frame.channel = channel) (frames : List Frame) :
    onChannel channel (frame :: frames) = frame :: onChannel channel frames :=
  List.filter_cons_of_pos (by simpa using h)

theorem onChannel_foreign (h : frame.channel ≠ channel) (frames : List Frame) :
    onChannel channel (frame :: frames) = onChannel channel frames :=
  List.filter_cons_of_neg (by simpa using h)

/-- The packets that carry the bytes `rest` after `n` continuation packets of a message. -/
inductive Continues (channel : UInt32) : ℕ → Bytes → List Frame → Prop
  | done {n : ℕ} : Continues channel n [] []
  | packet {n : ℕ} {rest : Bytes} {frame : Frame} {frames : List Frame} (hn : n < 128)
      (hrest : rest ≠ []) (hchannel : frame.channel = channel)
      (hsequence : frame.byte 4 = UInt8.ofNat n)
      (hdata : (frame.bytes.drop 5).take (min rest.length contData) = rest.take contData)
      (hnext : Continues channel (n + 1) (rest.drop contData) frames) :
      Continues channel n rest (frame :: frames)

theorem Continues.nil_inv (h : Continues channel n rest []) : rest = [] := by
  cases h
  rfl

variable {frames : List Frame}

theorem Continues.frames_nil (h : Continues channel n [] frames) : frames = [] := by
  cases h with
  | done => rfl
  | packet _ hrest => exact absurd rfl hrest

theorem Continues.cons_inv (h : Continues channel n rest (frame :: frames)) :
    n < 128 ∧ rest ≠ [] ∧ frame.channel = channel ∧ frame.byte 4 = UInt8.ofNat n ∧
      (frame.bytes.drop 5).take (min rest.length contData) = rest.take contData ∧
      Continues channel (n + 1) (rest.drop contData) frames := by
  cases h with
  | packet hn hrest hchannel hsequence hdata hnext =>
    exact ⟨hn, hrest, hchannel, hsequence, hdata, hnext⟩

structure Begins (channel : UInt32) (command : Command) (payload : Bytes) (frame : Frame) :
    Prop where
  channel_eq : frame.channel = channel
  isInit : ¬ frame.byte 4 &&& 0x80 = 0
  command_eq : Command.tryFrom (frame.byte 4 &&& 0x7f) = some command
  length_eq : ofBeBytes16 (frame.byte 5) (frame.byte 6) = payload.length
  data : (frame.bytes.drop 7).take (min payload.length initData) = payload.take initData

theorem Command.init_bit (command : Command) :
    ¬ (command.intoU8 ||| 0x80) &&& 0x80 = 0 ∧ (command.intoU8 ||| 0x80) &&& 0x7f = command.intoU8 := by
  cases command <;> decide

theorem begins_initFrame {payload : Bytes} (channel : UInt32) (command : Command)
    (h : payload.length < 2 ^ 16) :
    Begins channel command payload (Host.initFrame channel command payload) := by
  have htake : (payload.take initData).length ≤ 57 := by
    rw [List.length_take]
    exact Nat.min_le_left _ _
  have hhead : (beBytes32 channel ++ [command.intoU8 ||| 0x80] ++
      beBytes16 (UInt16.ofNat payload.length)).length = 7 := rfl
  have hlen : (beBytes32 channel ++ [command.intoU8 ||| 0x80] ++
      beBytes16 (UInt16.ofNat payload.length) ++ payload.take initData).length ≤ packetSize := by
    rw [List.length_append, hhead, packetSize]
    omega
  have hbyte (i : ℕ) (hi : i < 7) : (Host.initFrame channel command payload).byte i =
      (beBytes32 channel ++ [command.intoU8 ||| 0x80] ++
        beBytes16 (UInt16.ofNat payload.length)).getD i 0 := by
    rw [Host.initFrame, Frame.byte_pad hlen (by rw [List.length_append, hhead]; omega),
      List.getD_append _ _ _ _ (by omega)]
  have h4 : (Host.initFrame channel command payload).byte 4 = command.intoU8 ||| 0x80 :=
    hbyte 4 (by omega)
  refine ⟨?_, ?_, ?_, ?_, ?_⟩
  · rw [Host.initFrame, List.append_assoc, List.append_assoc]
    refine Frame.channel_pad channel ?_
    rw [List.length_append, List.length_append, packetSize]
    change 1 + (2 + _) + 4 ≤ 64
    omega
  · rw [h4]
    exact command.init_bit.1
  · rw [h4, command.init_bit.2, command.tryFrom_intoU8]
  · rw [hbyte 5 (by omega), hbyte 6 (by omega)]
    exact ofBeBytes16_beBytes16 h
  · have hdata := Frame.take_drop_pad (n := min payload.length initData) hlen
      (by rw [List.length_take]; omega)
    rw [hhead] at hdata
    rw [Host.initFrame, hdata, List.take_of_length_le (by rw [List.length_take]; omega)]

theorem continues_contFrames {fuel : ℕ} (hfuel : n + fuel = 128)
    (hrest : rest.length ≤ fuel * contData) :
    Continues channel n rest (Host.contFrames channel fuel (UInt8.ofNat n) rest) := by
  induction fuel generalizing n rest with
  | zero =>
    rw [Nat.zero_mul, Nat.le_zero, List.length_eq_zero_iff] at hrest
    subst hrest
    exact .done
  | succ fuel ih =>
    cases rest with
    | nil => exact .done
    | cons byte rest =>
      have hnext : UInt8.ofNat n + 1 = UInt8.ofNat (n + 1) := (UInt8.ofNat_add n 1).symm
      have htake : ((byte :: rest).take contData).length ≤ 59 := by
        rw [List.length_take]
        exact Nat.min_le_left _ _
      have hhead : (beBytes32 channel ++ [UInt8.ofNat n]).length = 5 := rfl
      have hlen : (beBytes32 channel ++ [UInt8.ofNat n] ++
          (byte :: rest).take contData).length ≤ packetSize := by
        rw [List.length_append, hhead, packetSize]
        omega
      rw [Host.contFrames, hnext]
      refine .packet (by omega) (List.cons_ne_nil _ _) ?_ ?_ ?_ (ih (by omega) ?_)
      · rw [List.append_assoc]
        refine Frame.channel_pad channel ?_
        rw [List.length_append, packetSize]
        change 1 + _ + 4 ≤ 64
        omega
      · rw [Frame.byte_pad hlen (by rw [List.length_append, hhead]; omega),
          List.getD_append _ _ _ _ (by omega)]
        rfl
      · have hdata := Frame.take_drop_pad (n := min (byte :: rest).length contData) hlen
          (by rw [List.length_take]; omega)
        rw [hhead] at hdata
        rw [hdata, List.take_of_length_le (by rw [List.length_take]; omega)]
      · rw [List.length_drop]
        rw [Nat.succ_mul] at hrest
        omega

namespace Session

variable {session : Session}

def wrote (session : Session) (reports : List Frame) : Session :=
  { session with written := session.written ++ reports }

def Works (session : Session) : Prop := ∀ n, session.broken n = false

theorem send_eq (h : session.Works) (report : Frame) :
    session.send report = (.ok (), session.wrote [report]) := by
  rw [send, h]
  rfl

theorem wrote_append (session : Session) (reports reports' : List Frame) :
    (session.wrote reports).wrote reports' = session.wrote (reports ++ reports') := by
  simp only [wrote, List.append_assoc]

theorem sendChunks_eq (h : session.Works) {channel : UInt32} {fuel size n : ℕ} {rest : Bytes}
    (hfuel : n + fuel = 128) (hrest : rest.length ≤ fuel * contData) (hsize : rest.length ≤ size) :
    sendChunks channel n (chunks contData size rest) session =
      (.ok (), session.wrote (Host.contFrames channel fuel (UInt8.ofNat n) rest)) := by
  induction fuel generalizing session size n rest with
  | zero =>
    rw [Nat.zero_mul, Nat.le_zero, List.length_eq_zero_iff] at hrest
    subst hrest
    cases size <;> simp [chunks, sendChunks, Host.contFrames, wrote]
  | succ fuel ih =>
    cases rest with
    | nil => cases size <;> simp [chunks, sendChunks, Host.contFrames, wrote]
    | cons byte rest =>
      rw [List.length_cons] at hsize
      obtain ⟨size, rfl⟩ := Nat.exists_eq_add_of_le' (show 1 ≤ size by omega)
      have hnext : UInt8.ofNat n + 1 = UInt8.ofNat (n + 1) := (UInt8.ofNat_add n 1).symm
      have hlater := @ih (session.wrote [Frame.pad (beBytes32 channel ++ [UInt8.ofNat n] ++
        (byte :: rest).take contData)]) h size (n + 1) ((byte :: rest).drop contData) (by omega)
        (by rw [List.length_drop]; rw [Nat.succ_mul] at hrest; omega)
        (by rw [List.length_drop, List.length_cons, contData, packetSize]; omega)
      rw [chunks, sendChunks, if_neg (by omega), send_eq h]
      simp only
      rw [hlater, wrote_append, Host.contFrames, hnext]
      rfl

theorem sendMessage_eq (h : session.Works) (channel : UInt32) (command : Command)
    {payload : Bytes} (hmax : payload.length ≤ maxMessageSize) :
    session.sendMessage channel command payload =
      (.ok (), session.wrote (Host.framesOf channel command payload)) := by
  have hrest : (payload.drop initData).length ≤ 128 * contData := by
    rw [List.length_drop]
    rw [maxMessageSize] at hmax
    omega
  have hchunks := @sendChunks_eq (session.wrote [Host.initFrame channel command payload]) h channel
    128 (payload.drop initData).length 0 (payload.drop initData) rfl hrest le_rfl
  rw [sendMessage, if_neg (by omega)]
  simp only [send_eq h]
  refine hchunks.trans ?_
  rw [wrote_append, Host.framesOf, if_pos hmax]
  rfl

end Session

theorem framesOf_spec {payload : Bytes} (channel : UInt32) (command : Command)
    (hmax : payload.length ≤ maxMessageSize) :
    ∃ first rest, Host.framesOf channel command payload = first :: rest ∧
      Begins channel command payload first ∧
      Continues channel 0 (payload.drop initData) rest := by
  refine ⟨_, _, if_pos hmax, begins_initFrame channel command ?_, continues_contFrames rfl ?_⟩
  · exact Nat.lt_of_le_of_lt hmax (by decide)
  · rw [List.length_drop]
    rw [maxMessageSize] at hmax
    omega

namespace Session

variable {payload : Bytes}

def Reception.after (payload : Bytes) (n : ℕ) : Reception :=
  ⟨payload.take (initData + n * contData), UInt8.ofNat n⟩

theorem beginReception_eq {command : Command} {frame : Frame}
    (h : Begins channel command payload frame) :
    beginReception frame = .after payload 0 ∧ declaredLength frame = payload.length := by
  have hlength : declaredLength frame = payload.length := h.length_eq
  refine ⟨?_, hlength⟩
  rw [beginReception, hlength, h.data, Reception.after, Nat.zero_mul, Nat.add_zero]
  rfl

theorem receiveNext_eq {n : ℕ} {frame : Frame} (hmore : initData + n * contData < payload.length)
    (hchannel : frame.channel = channel) (hsequence : frame.byte 4 = UInt8.ofNat n)
    (hdata : (frame.bytes.drop 5).take
      (min (payload.drop (initData + n * contData)).length contData) =
        (payload.drop (initData + n * contData)).take contData) :
    receiveNext channel payload.length (.after payload n) frame = .ok (.after payload (n + 1)) := by
  have hlength : (payload.take (initData + n * contData)).length = initData + n * contData := by
    rw [List.length_take]
    omega
  rw [List.length_drop] at hdata
  rw [receiveNext, Reception.after, if_neg (not_not.mpr hchannel), if_neg (not_not.mpr hsequence)]
  simp only
  rw [hlength, hdata, ← List.take_add, Reception.after, Nat.succ_mul, ← Nat.add_assoc,
    UInt8.ofNat_add n 1]
  rfl

def arriving (frames : List Frame) (later : List Arrival) : List Arrival :=
  frames.map .report ++ later

/-- The rest of a message is collected from between packets of other channels. -/
theorem receiveRest_eq {n : ℕ} (later : List Arrival)
    (h : Continues channel n (payload.drop (initData + n * contData)) (onChannel channel frames)) :
    ∃ sequence rest, receiveRest channel payload.length (arriving frames later)
      (.after payload n) = (.ok ⟨payload, sequence⟩, rest) := by
  induction frames generalizing n with
  | nil =>
    have hpayload : payload.take (initData + n * contData) = payload :=
      List.take_of_length_le (List.drop_eq_nil_iff.mp h.nil_inv)
    refine ⟨UInt8.ofNat n, arriving [] later, ?_⟩
    rw [receiveRest.eq_def, Reception.after, hpayload, if_pos le_rfl]
  | cons frame frames ih =>
    by_cases hdone : payload.length ≤ initData + n * contData
    · have hpayload : payload.take (initData + n * contData) = payload :=
        List.take_of_length_le hdone
      refine ⟨UInt8.ofNat n, arriving (frame :: frames) later, ?_⟩
      rw [receiveRest.eq_def, Reception.after, hpayload, if_pos le_rfl]
    have hlength : ¬ payload.length ≤ (Reception.after payload n).payload.length := by
      rw [Reception.after, List.length_take]
      omega
    rw [arriving, List.map_cons, List.cons_append, receiveRest.eq_def, if_neg hlength]
    simp only
    by_cases hchannel : frame.channel = channel
    · rw [onChannel_own hchannel] at h
      obtain ⟨-, -, -, hsequence, hdata, hnext⟩ := h.cons_inv
      rw [List.drop_drop, Nat.add_assoc, ← Nat.succ_mul] at hnext
      rw [receiveNext_eq (by omega) hchannel hsequence hdata]
      exact ih hnext
    · rw [onChannel_foreign hchannel] at h
      rw [receiveNext, if_pos hchannel]
      exact ih h

/-- A message arrives whole from between packets of other channels. -/
theorem receiveLoop_eq {command : Command} {accept : Bytes → Bool}
    (hcommand : command ≠ .keepAlive ∧ command ≠ .error) (haccept : accept payload = true)
    {fuel : ℕ} {cancelled : Bool} {session : Session} {later : List Arrival} {first : Frame}
    {rest : List Frame} (hfirst : Begins channel command payload first)
    (hrest : Continues channel 0 (payload.drop initData) rest)
    (hframes : onChannel channel frames = first :: rest)
    (harrivals : session.arrivals = arriving frames later) (hfuel : frames.length ≤ fuel) :
    (receiveLoop channel accept fuel cancelled session).1 = .ok payload := by
  induction frames generalizing fuel session with
  | nil => contradiction
  | cons frame frames ih =>
    obtain ⟨fuel, rfl⟩ := Nat.exists_eq_add_of_le' (show 1 ≤ fuel from Nat.le_trans (by simp) hfuel)
    rw [arriving, List.map_cons, List.cons_append] at harrivals
    by_cases hchannel : frame.channel = channel
    · rw [onChannel_own hchannel] at hframes
      obtain ⟨rfl, rfl⟩ := List.cons.inj hframes
      obtain ⟨hbegin, hlength⟩ := beginReception_eq hfirst
      have hcontinues : Continues channel 0 (payload.drop (initData + 0 * contData))
          (onChannel channel frames) := by
        rw [Nat.zero_mul, Nat.add_zero]
        exact hrest
      obtain ⟨sequence, arrivals, hreceive⟩ := receiveRest_eq later hcontinues
      rw [← hbegin, ← hlength] at hreceive
      exact receiveLoop_accepted harrivals (by simp [hchannel, hfirst.isInit]) hreceive
        hfirst.command_eq hcommand haccept
    · rw [onChannel_foreign hchannel] at hframes
      rw [receiveLoop_foreign harrivals hchannel]
      exact ih hframes rfl (Nat.le_of_succ_le_succ hfuel)

end Session

end SoftwareAuthenticator.Ctaphid
