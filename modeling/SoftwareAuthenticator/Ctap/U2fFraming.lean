import SoftwareAuthenticator.Ctap.MemoryStore
import SoftwareAuthenticator.Ctap.Tidy
import SoftwareAuthenticator.Ctaphid.Framing

/-!
# U2F framing is read back exactly

A U2F command is sent in the short or the extended form, each with or without the length of the
answer. The length byte 0 announces the extended form, so a command with data is read in one way
only.
-/

namespace SoftwareAuthenticator.U2fApdu

variable {apdu : Bytes}

def Request.instruction : Request → UInt8 × UInt8
  | .version => (3, 0)
  | .register _ _ => (1, 0)
  | .authenticate control _ _ _ => (2, control)

def Request.data : Request → Bytes
  | .version => []
  | .register challenge application => challenge ++ application
  | .authenticate _ challenge application handle =>
    challenge ++ application ++ UInt8.ofNat handle.length :: handle

/-- A registration or an authentication whose fields have the sizes of the protocol. -/
def Request.Sized : Request → Prop
  | .version => False
  | .register challenge application => challenge.length = 32 ∧ application.length = 32
  | .authenticate control challenge application handle =>
    (control = 3 ∨ control = 7 ∨ control = 8) ∧ challenge.length = 32 ∧
      application.length = 32 ∧ handle.length ≤ 255

/-- The two forms of a length and the data after it; `le` is the length of the answer. -/
inductive Lengthed (data : Bytes) : Bytes → Prop
  | short {le : Bytes} (hdata : data.length ≤ 255) (hle : le.length = 0 ∨ le.length = 1) :
      Lengthed data (UInt8.ofNat data.length :: (data ++ le))
  | extended {le : Bytes} (hle : le.length = 0 ∨ le.length = 2) :
      Lengthed data (0 :: (beBytes16 (UInt16.ofNat data.length) ++ (data ++ le)))

def Encodes (request : Request) (apdu : Bytes) : Prop :=
  ∃ body, Lengthed request.data body ∧
    apdu = 0 :: request.instruction.1 :: request.instruction.2 :: 0 :: body

variable {request : Request}

theorem Request.Sized.data_length (h : request.Sized) :
    64 ≤ request.data.length ∧ request.data.length < 2 ^ 16 := by
  cases request with
  | version => exact h.elim
  | register challenge application =>
    simp only [Request.Sized] at h
    simp only [Request.data, List.length_append]
    omega
  | authenticate control challenge application handle =>
    simp only [Request.Sized] at h
    simp only [Request.data, List.length_append, List.length_cons]
    omega

private theorem toNat_ofNat_length {n : ℕ} (h : n ≤ 255) : (UInt8.ofNat n).toNat = n :=
  UInt8.toNat_ofNat_of_lt' (Nat.lt_succ_of_le h)

theorem commandData_of_lengthed {data body : Bytes} (hbody : Lengthed data body)
    (hdata : 0 < data.length) (hlt : data.length < 2 ^ 16) (a b c d : UInt8) :
    commandData (a :: b :: c :: d :: body) = .ok data := by
  cases hbody with
  | @short le hle hlen =>
    have hbyte := toNat_ofNat_length hle
    have hne : UInt8.ofNat data.length ≠ 0 := by
      intro h
      rw [h] at hbyte
      exact absurd hbyte.symm (by simpa using Nat.ne_of_gt hdata)
    have hdrop : ((data ++ le).take data.length) = data := by simp
    simp only [commandData, sliceOrWrongLength, slice, List.length_cons, List.length_append,
      List.getD_cons_succ, List.getD_cons_zero, hne, if_false, hbyte]
    rw [if_neg (by omega), if_pos (by omega)]
    simp only [Nat.add_sub_cancel_left, List.drop_succ_cons, List.drop_zero, hdrop]
    exact if_pos (by omega)
  | @extended le hle =>
    have hlength : ofBeBytes16 (UInt16.ofNat data.length >>> 8).toUInt8
        (UInt16.ofNat data.length).toUInt8 = data.length := Ctaphid.ofBeBytes16_beBytes16 hlt
    have hdrop : ((data ++ le).take data.length) = data := by simp
    simp only [commandData, sliceOrWrongLength, slice, beBytes16, List.cons_append,
      List.nil_append, List.length_cons, List.length_append, List.getD_cons_succ,
      List.getD_cons_zero, if_true]
    rw [if_neg (by omega), if_pos (by omega)]
    simp only [List.drop_succ_cons, List.drop_zero, Nat.reduceSub, List.take_succ_cons,
      List.take_zero, List.getD_cons_zero, List.getD_cons_succ, bind, Except.bind, hlength]
    rw [if_neg (by omega), if_pos (by omega)]
    simp only [Nat.add_sub_cancel_left, hdrop]
    exact if_pos (by omega)

private theorem slice_ok {xs data : Bytes} {start stop : ℕ}
    (h : sliceOrWrongLength xs start stop = .ok data) :
    start ≤ stop ∧ stop ≤ xs.length ∧ data = (xs.drop start).take (stop - start) := by
  simp only [sliceOrWrongLength, slice] at h
  split at h
  · rename_i hdata
    split at hdata
    · rename_i hle
      cases hdata
      cases h
      exact ⟨hle.1, hle.2, rfl⟩
    · cases hdata
  · cases h

private theorem beBytes16_ofBeBytes16 (a b : UInt8) :
    beBytes16 (UInt16.ofNat (ofBeBytes16 a b)) = [a, b] := by
  have ha := a.toNat_lt
  have hb := b.toNat_lt
  have e8 : (8 : UInt16).toNat % 16 = 8 := rfl
  simp only [beBytes16, ofBeBytes16, List.cons.injEq, and_true, ← UInt8.toNat_inj,
    UInt16.toNat_toUInt8, UInt16.toNat_shiftRight, Nat.shiftRight_eq_div_pow, e8,
    UInt16.toNat_ofNat']
  omega

theorem lengthed_of_commandData {data body : Bytes} {a b c d : UInt8}
    (h : commandData (a :: b :: c :: d :: body) = .ok data) (hdata : data ≠ []) :
    Lengthed data body := by
  unfold commandData at h
  split at h
  · cases h
    exact absurd rfl hdata
  rename_i hlength
  obtain ⟨lc, body, rfl⟩ : ∃ lc rest, body = lc :: rest := by
    cases body with
    | nil => exact absurd (Or.inl rfl) hlength
    | cons lc rest => exact ⟨lc, rest, rfl⟩
  simp only [List.getD_cons_succ, List.getD_cons_zero] at h
  split at h
  · rename_i hzero
    subst hzero
    -- the two bytes after a zero are the length
    obtain ⟨length, hlength', h⟩ := Outcome.bind_eq_ok.mp h
    obtain ⟨-, hseven, rfl⟩ := slice_ok hlength'
    obtain ⟨high, low, rest, rfl⟩ : ∃ high low rest, body = high :: low :: rest := by
      match body, hseven with
      | high :: low :: rest, _ => exact ⟨high, low, rest, rfl⟩
    simp only [List.drop_succ_cons, List.drop_zero, Nat.reduceSub, List.take_succ_cons,
      List.take_zero, List.getD_cons_zero, List.getD_cons_succ] at h
    split at h
    · cases h
      exact absurd rfl hdata
    obtain ⟨found, hfound, h⟩ := Outcome.bind_eq_ok.mp h
    obtain ⟨-, hstop, rfl⟩ := slice_ok hfound
    split at h
    · rename_i hrest
      cases h
      simp only [List.length_cons] at hstop hrest
      simp only [Nat.add_sub_cancel_left, List.drop_succ_cons, List.drop_zero]
      have hdatalen : (rest.take (ofBeBytes16 high low)).length = ofBeBytes16 high low := by
        rw [List.length_take]
        omega
      have hform : Lengthed (rest.take (ofBeBytes16 high low)) (0 :: (beBytes16 (UInt16.ofNat
          (rest.take (ofBeBytes16 high low)).length) ++ (rest.take (ofBeBytes16 high low) ++
            rest.drop (ofBeBytes16 high low)))) :=
        .extended (by rw [List.length_drop]; omega)
      rw [hdatalen, beBytes16_ofBeBytes16, List.take_append_drop] at hform
      exact hform
    · cases h
  · rename_i hne
    obtain ⟨found, hfound, h⟩ := Outcome.bind_eq_ok.mp h
    obtain ⟨-, hstop, rfl⟩ := slice_ok hfound
    split at h
    · rename_i hrest
      cases h
      simp only [List.length_cons] at hstop hrest
      simp only [Nat.add_sub_cancel_left, List.drop_succ_cons, List.drop_zero]
      have hdatalen : (body.take lc.toNat).length = lc.toNat := by
        rw [List.length_take]
        omega
      have hform : Lengthed (body.take lc.toNat) (UInt8.ofNat (body.take lc.toNat).length ::
          (body.take lc.toNat ++ body.drop lc.toNat)) :=
        .short (by have := lc.toNat_lt; omega) (by rw [List.length_drop]; omega)
      rw [hdatalen, UInt8.ofNat_toNat, List.take_append_drop] at hform
      exact hform
    · cases h

theorem requestOf_data (h : request.Sized) :
    requestOf request.instruction.1 request.instruction.2 request.data = .ok request := by
  cases request with
  | version => exact h.elim
  | register challenge application =>
    obtain ⟨hchallenge, happlication⟩ := h
    simp [requestOf, Request.instruction, Request.data, hchallenge, happlication]
  | authenticate control challenge application handle =>
    obtain ⟨-, hchallenge, happlication, hhandle⟩ := h
    have hlength := toNat_ofNat_length hhandle
    have hkey : (challenge ++ application).length = 64 := by simp [hchallenge, happlication]
    have hbyte : (challenge ++ application ++ UInt8.ofNat handle.length :: handle).getD 64 0 =
        UInt8.ofNat handle.length := by
      rw [List.getD_append_right _ _ _ _ (by omega), hkey]
      rfl
    have hdrop : (challenge ++ application ++ UInt8.ofNat handle.length :: handle).drop 65 =
        handle := by
      rw [List.drop_append, List.drop_of_length_le (by omega), hkey]
      rfl
    simp only [requestOf, Request.instruction, Request.data, hbyte, hlength, hdrop]
    rw [if_neg fun h => absurd h.1 (by decide), if_neg fun h => absurd h.1 (by decide)]
    simp [hchallenge, happlication]
    omega

/-- A request that was read has fields of the right sizes, and its data is theirs. -/
theorem sized_of_requestOf {ins p1 : UInt8} {data : Bytes}
    (h : requestOf ins p1 data = .ok request) (hrequest : request ≠ .version)
    (hregister : ins = 1 → p1 = 0) (hcontrol : ins = 2 → p1 = 3 ∨ p1 = 7 ∨ p1 = 8) :
    request.Sized ∧ request.data = data ∧ request.instruction = (ins, p1) := by
  unfold requestOf at h
  split at h
  · cases h
    exact absurd rfl hrequest
  split at h
  · rename_i hdata
    obtain ⟨rfl, hlength⟩ := hdata
    cases h
    refine ⟨⟨by simp [hlength], by simp [hlength]⟩, ?_, by rw [hregister rfl]; rfl⟩
    have hrest : (data.drop 32).take 32 = data.drop 32 := List.take_of_length_le (by simp [hlength])
    simp only [Request.data, hrest, List.take_append_drop]
  split at h
  · rename_i hdata
    obtain ⟨rfl, hle, hlength⟩ := hdata
    cases h
    have hbyte := (data.getD 64 0).toNat_lt
    have hhandle : (data.drop 65).length = (data.getD 64 0).toNat := by
      rw [List.length_drop]
      omega
    refine ⟨⟨hcontrol rfl, by rw [List.length_take]; omega, ?_, by omega⟩, ?_, rfl⟩
    · rw [List.length_take, List.length_drop]
      omega
    · have hget : data.drop 64 = data.getD 64 0 :: data.drop 65 := by
        rw [List.getD_eq_getElem _ _ (by omega)]
        exact List.drop_eq_getElem_cons (by omega)
      have hmiddle : (data.drop 32).take 32 ++ data.drop 64 = data.drop 32 := by
        have := List.take_append_drop 32 (data.drop 32)
        rwa [List.drop_drop] at this
      simp only [Request.data, hhandle, UInt8.ofNat_toNat]
      rw [← hget, List.append_assoc, hmiddle, List.take_append_drop]
  · cases h

theorem decode_of_encodes (hsized : request.Sized) (h : Encodes request apdu) :
    decode apdu false = .ok request := by
  obtain ⟨body, hbody, rfl⟩ := h
  have hlength := hsized.data_length
  have hdata := commandData_of_lengthed hbody (by omega) hlength.2 0 request.instruction.1
    request.instruction.2 0
  have hrequest := requestOf_data hsized
  have hparameters : (1 ≤ request.instruction.1 ∧ request.instruction.1 ≤ 3) ∧
      ¬ ((request.instruction.1 ≠ 2 ∧ request.instruction.2 ≠ 0) ∨
        (request.instruction.1 = 2 ∧ ¬ (request.instruction.2 = 3 ∨ request.instruction.2 = 7 ∨
          request.instruction.2 = 8))) := by
    cases request with
    | version => exact hsized.elim
    | register challenge application =>
      exact ⟨by simp only [Request.instruction]; decide, by simp [Request.instruction]⟩
    | authenticate control challenge application handle =>
      exact ⟨by simp only [Request.instruction]; decide, by simp [Request.instruction, hsized.1]⟩
  simp only [decode, sliceOrWrongLength, slice, List.length_cons, List.drop_zero,
    Nat.sub_zero, List.take_succ_cons, List.take_zero, Nat.zero_le, true_and]
  rw [if_pos (by omega)]
  simp only [bind, Except.bind, List.getD_cons_zero, List.getD_cons_succ, ne_eq,
    not_true_eq_false, if_false, hparameters.1, not_true_eq_false, and_self, false_and,
    Bool.false_eq_true, false_or]
  rw [if_neg hparameters.2, hdata]
  exact hrequest

theorem encodes_of_decode {disabled : Bool} (h : decode apdu disabled = .ok request)
    (hrequest : request ≠ .version) : request.Sized ∧ Encodes request apdu := by
  obtain ⟨header, hheader, h⟩ := Outcome.bind_eq_ok.mp h
  obtain ⟨-, hfour, rfl⟩ := slice_ok hheader
  obtain ⟨cla, ins, p1, p2, body, rfl⟩ : ∃ cla ins p1 p2 body,
      apdu = cla :: ins :: p1 :: p2 :: body := by
    match apdu, hfour with
    | cla :: ins :: p1 :: p2 :: body, _ => exact ⟨cla, ins, p1, p2, body, rfl⟩
  simp only [List.drop_zero, Nat.sub_zero, List.take_succ_cons, List.take_zero,
    List.getD_cons_zero, List.getD_cons_succ] at h
  split at h
  · cases h
  rename_i hcla
  split at h
  · cases h
  split at h
  · cases h
  split at h
  · cases h
  rename_i hparameters
  obtain ⟨data, hdata, h⟩ := Outcome.bind_eq_ok.mp h
  push Not at hcla hparameters
  obtain ⟨hp2, hp1, hcontrol⟩ := hparameters
  obtain ⟨hsized, rfl, hinstruction⟩ := sized_of_requestOf h hrequest
    (fun hins => hp1 (by rw [hins]; decide))
    hcontrol
  have hnonempty : request.data ≠ [] :=
    List.ne_nil_of_length_pos (Nat.lt_of_lt_of_le (by decide) hsized.data_length.1)
  exact ⟨hsized, body, lengthed_of_commandData hdata hnonempty, by rw [hinstruction, hcla, hp2]⟩

theorem decode_undisabled {disabled : Bool} (h : decode apdu disabled = .ok request) :
    decode apdu false = .ok request := by
  obtain ⟨header, hheader, h⟩ := Outcome.bind_eq_ok.mp h
  refine Outcome.bind_eq_ok.mpr ⟨header, hheader, ?_⟩
  dsimp only at h ⊢
  split at h
  · cases h
  · rename_i hcla
    rw [if_neg hcla]
    split at h
    · cases h
    · rename_i hins
      rw [if_neg hins]
      split at h
      · cases h
      · rw [if_neg (by simp)]
        exact h

end SoftwareAuthenticator.U2fApdu

namespace SoftwareAuthenticator.Ctap

open U2fApdu Ctaphid

section Presence

variable {apdu : Bytes}

/-- The transport keeps a poll for every command it hands out that may need presence. -/
theorem takeAppRequest_poll {R : Type} {host host' : Host R}
    (htake : host.takeAppRequest = (host', some ⟨.msg, apdu⟩))
    (hpresence : requestsPresence apdu = true) :
    ∃ processing poll, host.state = .processing processing ∧ host'.u2f = some poll ∧
      poll.channel = processing.channel ∧ poll.request = apdu ∧ poll.answer = none := by
  unfold Host.takeAppRequest at htake
  split at htake
  · cases htake
  · split at htake
    · rename_i processing hstate
      split at htake
      · cases htake
      · simp only [Prod.mk.injEq, Option.some.injEq, AppRequest.mk.injEq] at htake
        obtain ⟨rfl, hcommand, rfl⟩ := htake
        exact ⟨processing, _, hstate, if_pos ⟨hcommand, hpresence⟩, rfl, rfl, rfl⟩
    · cases htake

variable [Externals]

/-- The user is asked about registrations and about authentications with control byte 3. -/
theorem tidy_u2fRequest {request : U2fApdu.Request} {disabled : Bool}
    (hdecode : decode apdu disabled = .ok request) (hpresence : requestsPresence apdu = false) :
    Tidy .nothing (u2fRequest request) := by
  simp only [requestsPresence, decode_undisabled hdecode] at hpresence
  cases request with
  | version => exact .pure _
  | register challenge application => exact Bool.noConfusion hpresence
  | authenticate control challenge application handle =>
    have hcontrol : decide (control = 3) = false := hpresence
    refine .bind (plain_u2fCredential handle application).tidy fun record => ?_
    split
    · exact .fail _
    · refine .bind ?_ fun _ => (plain_u2fCount control challenge application record).tidy
      rw [hcontrol]
      exact .pure _

theorem tidy_serve_msg (hpresence : requestsPresence apdu = false) :
    Tidy .nothing (serve (.msg apdu)) := by
  refine .bind (Cmd.Built.attempt (.bind ?_ fun _ => .bind ?_ fun _ => .bind (.gets _)
    fun disabled => ?_)) fun _ => .pure _
  · exact (BasicPart.composed (.setPendingAssertion _ (.inr rfl))).tidy
  · exact (composed_observeLargeBlobState _).tidy
  · cases hdecode : decode apdu disabled with
    | error status =>
      change Tidy .nothing (Cmd.fail status)
      exact .fail status
    | ok request =>
      change Tidy .nothing (u2fRequest request >>= fittingReply)
      exact .bind (tidy_u2fRequest hdecode hpresence) fun reply => (plain_fittingReply reply).tidy

/-- An engine that asks the user is answering a command that may need presence. -/
theorem requestsPresence_of_confirm {app : CtapApp} {trace : Trace}
    (hreaches : (serve (.msg apdu) app).Reaches trace) {e : env.Event} (he : e ∈ trace)
    {prompt : PresenceRequest} (hconfirm : e.op = .confirm prompt) :
    requestsPresence apdu = true := by
  by_contra hno
  obtain ⟨rest, ⟨reply, app'⟩, hruns⟩ := hreaches.yields nonempty_res
  have htidy := ((tidy_serve_msg (Bool.eq_false_of_not_eq_true hno)).runs hruns).2 e
    (List.mem_append_left rest he)
  rw [hconfirm] at htidy
  exact Bool.noConfusion htidy

/-- Every encoding of a U2F request is read as that request, and nothing else is. A command
for which the engine asks the user has a poll at the transport. -/
theorem u2f_framing_exact :
    (∀ (request : U2fApdu.Request) (apdu : Bytes), request.Sized → Encodes request apdu →
      decode apdu false = .ok request) ∧
    (∀ (request : U2fApdu.Request) (apdu : Bytes) (disabled : Bool),
      decode apdu disabled = .ok request → request ≠ .version →
        request.Sized ∧ Encodes request apdu) ∧
    ∀ (apdu : Bytes) (app : CtapApp) (trace : Trace), (serve (.msg apdu) app).Reaches trace →
      (∃ e ∈ trace, ∃ prompt, e.op = .confirm prompt) →
        requestsPresence apdu = true ∧
          ∀ (R : Type) (host host' : Host R),
            host.takeAppRequest = (host', some ⟨.msg, apdu⟩) →
              ∃ processing poll, host.state = .processing processing ∧ host'.u2f = some poll ∧
                poll.channel = processing.channel ∧ poll.request = apdu ∧ poll.answer = none := by
  refine ⟨fun request apdu => decode_of_encodes, fun request apdu disabled => encodes_of_decode,
    fun apdu app trace hreaches hasked => ?_⟩
  obtain ⟨e, he, prompt, hconfirm⟩ := hasked
  have hpresence := requestsPresence_of_confirm hreaches he hconfirm
  exact ⟨hpresence, fun R host host' htake => takeAppRequest_poll htake hpresence⟩

end Presence

def benchRegistration : Bytes := [0, 1, 0, 0, 64] ++ List.replicate 64 7

def benchRegistrationTrace : Trace :=
  let _ := Externals.bench []
  ((serve (.msg benchRegistration) (.bench .initial)).eval World.handle (.bench .initial [] 0)).2.1

theorem u2f_framing_exact_registration :
    decode benchRegistration false =
        .ok (.register (List.replicate 32 7) (List.replicate 32 7)) ∧
      requestsPresence benchRegistration = true := by
  let _ := Externals.bench []
  have hprompt : benchRegistrationTrace.any (fun e => !EnvOp.isPromptless e.op) = true := by
    decide +kernel
  obtain ⟨⟨op, answer⟩, he, hconfirm⟩ := List.any_eq_true.mp hprompt
  have hasked : ∃ e ∈ benchRegistrationTrace, ∃ prompt, e.op = .confirm prompt := by
    cases op with
    | confirm prompt => exact ⟨_, he, prompt, rfl⟩
    | _ => cases hconfirm
  exact ⟨u2f_framing_exact.1 (.register (List.replicate 32 7) (List.replicate 32 7)) _
      ⟨rfl, rfl⟩ ⟨_, @Lengthed.short _ [] (by decide) (.inl rfl), rfl⟩,
    (u2f_framing_exact.2.2 benchRegistration (.bench .initial) benchRegistrationTrace
      (Prog.eval_yields _ _ _).reaches hasked).1⟩

end SoftwareAuthenticator.Ctap
