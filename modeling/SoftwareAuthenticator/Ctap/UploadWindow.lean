import Mathlib.Data.List.Chain
import SoftwareAuthenticator.Ctap.Upload

/-!
# The window of an upload

Whatever array is written is what the accepted set requests since the latest one with offset zero
brought, in order. `Window` says what the state of the write has to do with them.
-/

namespace SoftwareAuthenticator.Ctap

open Cmd

section Windows

def Happening.succeeds : Happening → Bool
  | .exchange _ _ (.cbor (.ok _)) _ => true
  | _ => false

variable {app app' : CtapApp} {tr trace : Trace} {s : Option CtapApp} {payload : Bytes}
  {answer : Except Status Response}

theorem initial_powerUp {settings : Settings} {s' : Option CtapApp} {x : Except Empty Unit}
    (h : (powerUp settings).Runs s tr x s') :
    ∀ app, s' = some app → app.largeBlobState = .initial := by
  rcases runs_bind.mp h with ⟨_, _, loaded, _, -, -, hnew⟩ | ⟨e, -, -⟩
  · obtain ⟨-, -, rfl⟩ := runs_modify.mp hnew
    rintro app ⟨⟩
    rfl
  · exact e.elim

theorem initial_beginRequest {command : UInt8} (hcommand : command ≠ ctapCmdLargeBlobs)
    {opened : CtapApp} (h : (beginRequest command).Runs app tr (.ok ()) opened) :
    opened.largeBlobState = .initial := by
  obtain ⟨_, _, ⟨⟩, app₁, rfl, hobserve, h₁⟩ := runs_bind_ok.mp h
  have hinitial := (runs_observeLargeBlobState hobserve).2.2 fun heq =>
    hcommand (Option.some.inj heq)
  unfold forgetAssertion at h₁
  split at h₁
  · obtain ⟨rfl, -, rfl⟩ := runs_pure.mp h₁
    exact hinitial
  · obtain ⟨rfl, -, rfl⟩ := runs_modify.mp h₁
    exact hinitial

theorem Discards.initial {scope : Scope} (hscope : scope.stages = false)
    (h : Discards scope app app') (hinitial : app.largeBlobState = .initial) :
    app'.largeBlobState = .initial := by
  rcases h.largeBlobs with h | h | h
  · exact absurd (hscope.symm.trans h) Bool.false_ne_true
  · exact h.trans hinitial
  · exact h

theorem stages_commandScope {command : UInt8} (h : (commandScope command).stages = false) :
    command ≠ ctapCmdLargeBlobs := by
  rintro rfl
  cases h

theorem request_of_stages {request : Request} (h : request.scope.stages = true) :
    ∃ payload, request = .cbor (0x0C :: payload) := by
  match request with
  | .cbor (command :: payload) =>
    have hcommand : (commandScope command).stages = true := h
    unfold commandScope at hcommand
    split at hcommand
    all_goals first | exact ⟨payload, rfl⟩ | cases hcommand

theorem unwritten_iff : Unwritten tr ↔ (tr.any fun e => e.op.writesArray) = false := by
  simp [Unwritten, List.any_eq_false]

theorem eq_of_written {rest early : Trace} {e : env.Event} (h : trace ++ rest = early ++ [e])
    (hearly : Unwritten early) (hwritten : ¬ Unwritten trace) : rest = [] := by
  rcases List.eq_nil_or_concat rest with hnil | ⟨rest', e', rfl⟩
  · exact hnil
  · rw [List.concat_eq_append, ← List.append_assoc] at h
    obtain ⟨rfl, -⟩ := List.append_inj' h rfl
    exact absurd (fun e he => hearly e (List.mem_append_left _ he)) hwritten

variable [Externals]

def Happening.set (h : Happening) : Option (Entries × ℕ × Bytes) :=
  match h.request with
  | some (.cbor (0x0C :: payload)) => setParameters payload
  | _ => none

def Happening.fragment (h : Happening) : Bytes := h.set.elim [] fun set => set.2.2

def Happening.offset (h : Happening) : ℕ := h.set.elim 0 fun set => set.2.1

/-- A set request that succeeded, or got as far as the final write to the store. -/
def Happening.isAccepted (h : Happening) : Bool :=
  h.set.isSome && (h.succeeds || h.trace.any fun e => e.op.writesArray)

def accepted (hs : List Happening) : List Happening := hs.filter Happening.isAccepted

def uploaded (hs : List Happening) : Bytes := (accepted hs).flatMap Happening.fragment

def Contiguous : ℕ → List Happening → Prop
  | _, [] => True
  | start, h :: hs => h.offset = start ∧ Contiguous (start + h.fragment.length) hs

/-- Less than thirty seconds passed from the end of one request to the arrival of the other. -/
def Happening.SoonAfter (h h' : Happening) : Prop :=
  ∃ last first, (readings h.trace).getLast? = some last ∧
    (readings h'.trace).head? = some first ∧ first - last < seconds 30

variable {h : Happening}

theorem accepted_concat_of_isAccepted (hh : h.isAccepted = true) (hs : List Happening) :
    accepted (hs ++ [h]) = accepted hs ++ [h] := by
  simp [accepted, hh]

theorem accepted_concat_of_not (hh : h.isAccepted = false) (hs : List Happening) :
    accepted (hs ++ [h]) = accepted hs := by
  simp [accepted, hh]

theorem contiguous_concat {start : ℕ} {hs : List Happening} :
    Contiguous start (hs ++ [h]) ↔
      Contiguous start hs ∧ h.offset = start + (hs.flatMap Happening.fragment).length := by
  induction hs generalizing start with
  | nil => simp [Contiguous]
  | cons h' hs ih => simp [Contiguous, ih, and_assoc, Nat.add_assoc]

/-- A window of set requests that begins an upload of `length` bytes and brought `buffer` so
far. -/
structure Window (window : List Happening) (length : ℕ) (buffer : Bytes) : Prop where
  sets : ∀ h ∈ window, h.set.isSome = true
  /-- It begins with the latest accepted request that has offset zero, and that announced the
  length. -/
  starts : ∃ first rest map fragment, window = first :: rest ∧ first.isAccepted = true ∧
    first.set = some (map, 0, fragment) ∧ announcedLength map = .ok length ∧
    ∀ h ∈ rest, h.isAccepted = true → h.offset ≠ 0
  uploads : uploaded window = buffer
  contiguous : Contiguous 0 (accepted window)
  timely : (accepted window).IsChain Happening.SoonAfter

namespace Window

variable {window : List Happening} {length : ℕ} {buffer : Bytes}

theorem single {map : Entries} {fragment : Bytes} (haccepted : h.isAccepted = true)
    (hset : h.set = some (map, 0, fragment)) (hlength : announcedLength map = .ok length) :
    Window [h] length fragment where
  sets := by simp [hset]
  starts := ⟨h, [], map, fragment, rfl, haccepted, hset, hlength, by simp⟩
  uploads := by simp [uploaded, accepted, haccepted, Happening.fragment, hset]
  contiguous := by simp [accepted, haccepted, Contiguous, Happening.offset, hset]
  timely := by simp [accepted, haccepted]

theorem concat {buffer' : Bytes} (hw : Window window length buffer) (hset : h.set.isSome = true)
    (hne : h.isAccepted = true → h.offset ≠ 0) (huploads : uploaded (window ++ [h]) = buffer')
    (hcontiguous : Contiguous 0 (accepted (window ++ [h])))
    (htimely : (accepted (window ++ [h])).IsChain Happening.SoonAfter) :
    Window (window ++ [h]) length buffer' := by
  obtain ⟨first, rest, map, fragment, rfl, haccepted, hfirst, hlength, hrest⟩ := hw.starts
  refine ⟨List.forall_mem_append.mpr ⟨hw.sets, List.forall_mem_singleton.mpr hset⟩, ?_, huploads,
    hcontiguous, htimely⟩
  exact ⟨first, rest ++ [h], map, fragment, rfl, haccepted, hfirst, hlength,
    List.forall_mem_append.mpr ⟨hrest, List.forall_mem_singleton.mpr hne⟩⟩

theorem skip (hw : Window window length buffer) (hset : h.set.isSome = true)
    (hnot : h.isAccepted = false) : Window (window ++ [h]) length buffer := by
  refine hw.concat hset (fun hyes => absurd hyes (by simp [hnot])) ?_ ?_ ?_
  · rw [uploaded, accepted_concat_of_not hnot]
    exact hw.uploads
  · rw [accepted_concat_of_not hnot]
    exact hw.contiguous
  · rw [accepted_concat_of_not hnot]
    exact hw.timely

theorem next (hw : Window window length buffer) (hset : h.set.isSome = true)
    (haccepted : h.isAccepted = true) (hoffset : h.offset = buffer.length) (hne : h.offset ≠ 0)
    (hsoon : ∀ last ∈ (accepted window).getLast?, last.SoonAfter h) :
    Window (window ++ [h]) length (buffer ++ h.fragment) := by
  refine hw.concat hset (fun _ => hne) ?_ ?_ ?_
  · rw [uploaded, accepted_concat_of_isAccepted haccepted, List.flatMap_append]
    simp [← hw.uploads, uploaded]
  · rw [accepted_concat_of_isAccepted haccepted, contiguous_concat]
    refine ⟨hw.contiguous, ?_⟩
    rw [hoffset, ← hw.uploads, uploaded, Nat.zero_add]
  · rw [accepted_concat_of_isAccepted haccepted, List.isChain_append]
    refine ⟨hw.timely, .singleton h, fun last hlast h' hh' => ?_⟩
    rw [List.head?_cons, Option.mem_some] at hh'
    exact hh' ▸ hsoon last hlast

end Window

/-- Only a large-blob request writes the array. -/
theorem Prompting.unwritten {ε α : Type} {scope : Scope} {c : EngineM ε α}
    (hc : Prompting scope c) (hscope : scope.stages = false) {x : Except ε α}
    (h : c.Runs app tr x app') : Unwritten tr := by
  have huser : ∀ {ε α : Type} {c : EngineM ε α}, UserSteady c → ∀ {app app' : CtapApp} {tr : Trace}
      {x : Except ε α}, c.Runs app tr x app' → Unwritten tr := by
    intro ε α c hc app app' tr x h e he
    have hop := (show Discards .nothing _ _ ∧ _ from UserSteady.runs hc h).2 e he
    unfold EnvOp.writesArray
    split
    · next heq =>
      rw [heq] at hop
      cases hop
    · rfl
  refine hc.assembled.follows (R := fun _ tr _ => Unwritten tr) (fun _ => unwritten_nil)
    (fun _ _ _ _ _ h h' => h.append h') ?_ h
  rintro ε α c hpart app tr x app' hrun
  cases hpart with
  | quiet hpart => exact hpart.tidy.unwritten hscope hrun
  | askUser request => exact huser (userSteady_askUser request) hrun
  | collectPresence pinUvAuth request => exact huser (userSteady_collectPresence _ _) hrun

omit [Externals] in
theorem unwritten_powerUp {settings : Settings} {s' : Option CtapApp} {x : Except Empty Unit}
    (h : (powerUp settings).Runs s tr x s') : Unwritten tr := by
  intro e he
  have hop := ((confined_powerUp settings).runs h).2 e he
  unfold EnvOp.writesArray
  split
  · next heq =>
    rw [heq] at hop
    cases hop
  · rfl

theorem initial_serve {request : Request} (hrequest : request.scope.stages = false)
    {reply : Reply} (h : (serve request).Runs app trace (.ok reply) app') :
    app'.largeBlobState = .initial := by
  match request with
  | .cbor (command :: payload) =>
    obtain ⟨answer, _, _, opened, rfl, rfl, hopen, hhandle⟩ := runs_serve_cbor h
    exact ((prompting_handleCommand command payload).discards hhandle).initial hrequest
      (initial_beginRequest (stages_commandScope hrequest) hopen)
  | .cbor [] =>
    obtain ⟨_, _, _, _, rfl, hattempt, hpure⟩ := runs_bind_ok.mp h
    obtain ⟨rfl, -, rfl⟩ := runs_pure.mp hpure
    obtain ⟨_, -, hcall⟩ := runs_attempt.mp hattempt
    obtain ⟨_, _, ⟨⟩, app₁, -, hobserve, h₁⟩ := (sure_observeLargeBlobState _).runs_then hcall
    have hinitial := (runs_observeLargeBlobState hobserve).2.2 (by simp)
    obtain ⟨_, _, ⟨⟩, _, -, hforget, h₂⟩ := (sure_forgetAssertion _).runs_then h₁
    obtain ⟨-, -, rfl⟩ := runs_fail.mp h₂
    obtain ⟨-, -, rfl⟩ := runs_modify.mp hforget
    exact hinitial
  | .msg apdu =>
    obtain ⟨_, _, _, _, rfl, hattempt, hpure⟩ := runs_bind_ok.mp h
    obtain ⟨rfl, -, rfl⟩ := runs_pure.mp hpure
    obtain ⟨_, -, hu2f⟩ := runs_attempt.mp hattempt
    obtain ⟨_, _, ⟨⟩, app₁, -, hforget, h₁⟩ := (sure_modify _).runs_then hu2f
    obtain ⟨_, _, ⟨⟩, app₂, -, hobserve, h₂⟩ := (sure_observeLargeBlobState _).runs_then h₁
    have hinitial := (runs_observeLargeBlobState hobserve).2.2 (by simp)
    have h₃ := runs_gets_bind.mp h₂
    rcases runs_ofExcept_bind.mp h₃ with ⟨request, -, h₄⟩ | ⟨_, -, -, -, rfl⟩
    · have hrest : Prompting .nothing (u2fRequest request >>= fittingReply) :=
        .bind (prompting_u2fRequest request) fun reply => (plain_fittingReply reply).prompting
      exact (hrest.discards h₄).initial rfl hinitial
    · exact hinitial

theorem Happening.set_eq (hrequest : h.request = some (.cbor (0x0C :: payload))) :
    h.set = setParameters payload := by
  unfold set
  rw [hrequest]
  rfl

theorem Happening.request_of_isAccepted (hh : h.isAccepted = true) :
    ∃ payload, h.request = some (.cbor (0x0C :: payload)) ∧ setParameters payload ≠ none := by
  have hset : h.set ≠ none := by
    intro hnone
    rw [isAccepted, hnone] at hh
    cases hh
  unfold set at hset
  split at hset
  · next payload hrequest => exact ⟨payload, hrequest, hset⟩
  · exact absurd rfl hset

theorem Happening.not_isAccepted (hfails : h.succeeds = false) (hquiet : Unwritten h.trace) :
    h.isAccepted = false := by
  rw [isAccepted, hfails, unwritten_iff.mp hquiet, Bool.or_false, Bool.and_false]

structure FragmentStages.Commits {payload : Bytes} {app app' : CtapApp} {trace : Trace}
    {answer : Except Status Response} (stages : FragmentStages payload app trace answer app') :
    Prop where
  reads : (readings trace).getLast? = stages.state.lastFragment
  writes : ∀ array r, (⟨.store (.setLargeBlobArray array), r⟩ : env.Event) ∈ trace →
    array = stages.state.buffer ∧ stages.state.expectedLength = stages.state.buffer.length ∧
      validLargeBlobArray stages.state.buffer = true

/-- A fragment that is appended is not always accepted: the array it completes may be
damaged. -/
theorem FragmentStages.accepted_cases (stages : FragmentStages payload app trace answer app') :
    (stages.Commits ∧ app'.largeBlobState = stages.state ∧
        (answer = .ok .ok ∨ ¬ Unwritten trace)) ∨
      ((∃ status, answer = .error status) ∧ app'.largeBlobState = .initial ∧
        Unwritten trace) := by
  rcases stages.commits_cases with ⟨hstate, hread, ⟨hanswer, hquiet⟩ | ⟨hlength, hvalid, r, htrace⟩⟩ | h
  · refine .inl ⟨⟨hread, fun array r hmem => ?_⟩, hstate, .inl hanswer⟩
    exact absurd (hquiet _ hmem) (by simp [EnvOp.writesArray])
  · refine .inl ⟨⟨hread, fun array r' hmem => ⟨?_, hlength, hvalid⟩⟩, hstate, .inr fun hquiet => ?_⟩
    · rw [htrace] at hmem
      rcases List.mem_append.mp hmem with hmem | hmem
      · exact absurd (stages.unwritten _ hmem) (by simp [EnvOp.writesArray])
      · cases List.mem_singleton.mp hmem
        rfl
    · rw [htrace] at hquiet
      exact absurd (hquiet _ List.mem_concat_self) (by simp [EnvOp.writesArray])
  · exact .inr h

theorem stages_of_isAccepted (hh : engine.enabled (some app) h) (haccepted : h.isAccepted = true) :
    ∃ payload answer app', h.request = some (.cbor (0x0C :: payload)) ∧
      ∃ stages : FragmentStages payload app h.trace answer app', stages.Commits := by
  obtain ⟨payload, hrequest, hset⟩ := Happening.request_of_isAccepted haccepted
  have hreached : h.succeeds = true ∨ ¬ Unwritten h.trace := by
    rw [Happening.isAccepted, Bool.and_eq_true, Bool.or_eq_true] at haccepted
    refine haccepted.2.imp_right fun hany => ?_
    rw [unwritten_iff, hany]
    simp
  cases h with
  | exchange request trace reply app' =>
    cases hrequest
    obtain ⟨answer, rfl, hrefused | ⟨⟨stages⟩⟩⟩ := fragmentStages_of_runs hh
    · obtain ⟨status, rfl⟩ := hrefused.fails hset
      rcases hreached with hyes | hwritten
      · cases hyes
      · exact absurd hrefused.unwritten hwritten
    · refine ⟨payload, answer, app', rfl, stages, ?_⟩
      rcases stages.accepted_cases with ⟨hcommits, -⟩ | ⟨⟨status, rfl⟩, -, hquiet⟩
      · exact hcommits
      · rcases hreached with hyes | hwritten
        · cases hyes
        · exact absurd hquiet hwritten
  | cutRequest request trace =>
    cases hrequest
    have hwritten : ¬ Unwritten trace := hreached.resolve_left Bool.false_ne_true
    obtain ⟨rest, ⟨x, app'⟩, hyields⟩ := Prog.Reaches.yields nonempty_res hh
    have hserve : (serve (.cbor (0x0C :: payload))).Runs app (trace ++ rest) x app' := hyields
    have hwritten' : ¬ Unwritten (trace ++ rest) := fun hquiet =>
      hwritten fun e he => hquiet e (List.mem_append_left _ he)
    generalize hfull : trace ++ rest = full at hserve hwritten'
    cases x with
    | error e => exact e.elim
    | ok reply =>
      obtain ⟨answer, rfl, hrefused | ⟨⟨stages⟩⟩⟩ := fragmentStages_of_runs hserve
      · exact absurd hrefused.unwritten hwritten'
      · -- The write is the last thing done, so nothing was cut off.
        have hwhole : full = trace := by
          rcases stages.commits_cases with
            ⟨-, -, ⟨-, hquiet⟩ | ⟨-, -, r, htrace⟩⟩ | ⟨-, -, hquiet⟩
          · exact absurd hquiet hwritten'
          · rw [← hfull, eq_of_written (hfull.trans htrace) stages.unwritten hwritten,
              List.append_nil]
          · exact absurd hquiet hwritten'
        subst hwhole
        refine ⟨payload, answer, app', rfl, stages, ?_⟩
        rcases stages.accepted_cases with ⟨hcommits, -⟩ | ⟨-, -, hquiet⟩
        · exact hcommits
        · exact absurd hquiet hwritten'
  | powerUp | cutPowerUp | powerOff => cases hrequest

/-- The window begins with a request at offset zero that recorded `token`. -/
def BeginsWith (earlier window : List Happening) (token : Option UInt64) : Prop :=
  ∃ first rest app payload answer app', window = first :: rest ∧
    engine.run none earlier = some app ∧ first.request = some (.cbor (0x0C :: payload)) ∧
    ∃ stages : FragmentStages payload app first.trace answer app',
      stages.offset = 0 ∧ stages.state.token = token

/-- The write under way after a run stands for a window of it. -/
structure Staged (hs : List Happening) (state : LargeBlobState)
    (earlier window : List Happening) : Prop where
  hs_eq : hs = earlier ++ window
  collects : Window window state.expectedLength state.buffer
  begins : BeginsWith earlier window state.token
  last : ∃ last time, (accepted window).getLast? = some last ∧
    (readings last.trace).getLast? = some time ∧ state.lastFragment = some time
  counts : state.expectedNextOffset = state.buffer.length

theorem FragmentStages.set_eq (stages : FragmentStages payload app trace answer app')
    (hrequest : h.request = some (.cbor (0x0C :: payload))) :
    h.set = some (stages.map, stages.offset, stages.fragment) :=
  (Happening.set_eq hrequest).trans stages.parameters

/-- An accepted fragment begins a window, or is the next of one. -/
theorem staged_of_stages {before : List Happening} (hrun : engine.run none before = some app)
    (hstaged : app.largeBlobState.expectedNextOffset ≠ 0 →
      ∃ earlier window, Staged before app.largeBlobState earlier window)
    (haccepted : h.isAccepted = true) (hrequest : h.request = some (.cbor (0x0C :: payload)))
    (stages : FragmentStages payload app h.trace answer app') (hcommits : stages.Commits) :
    ∃ earlier window, Staged (before ++ [h]) stages.state earlier window := by
  have hset := stages.set_eq hrequest
  obtain ⟨-, hcounts, time, htime, -⟩ := stages.recorded
  by_cases hzero : stages.offset = 0
  · obtain ⟨hlength, hbuffer⟩ := stages.first hzero
    rw [hzero] at hset
    refine ⟨before, [h], rfl, hbuffer ▸ Window.single haccepted hset hlength,
      ⟨h, [], app, payload, answer, app', rfl, hrun, hrequest, stages, hzero, rfl⟩,
      ⟨h, time, ?_, hcommits.reads.trans htime, htime⟩, hcounts⟩
    simp [accepted, haccepted]
  · obtain ⟨halive, hnext, hlength, hbuffer, htoken⟩ := stages.later hzero
    obtain ⟨earlier, window, hw⟩ := hstaged (hnext ▸ hzero)
    obtain ⟨last, time', hlast, hread, hfragment⟩ := hw.last
    have hfrag : h.fragment = stages.fragment := by simp [Happening.fragment, hset]
    have hoff : h.offset = stages.offset := by simp [Happening.offset, hset]
    -- The last fragment was recent when this one came.
    obtain ⟨arrival, rest, htrace, hrecent⟩ := halive.recent time' hfragment
    have hsoon : last.SoonAfter h := ⟨time', arrival, hread, by rw [htrace]; rfl, hrecent⟩
    have hwindow := hw.collects.next (by rw [hset]; rfl) haccepted
      (hoff.trans (hnext.symm.trans hw.counts)) (hoff ▸ hzero)
      fun last' hmem => by
        rw [hlast, Option.mem_some] at hmem
        exact hmem ▸ hsoon
    obtain ⟨first, tail, app₀, payload₀, answer₀, app₁, rfl, hfirst⟩ := hw.begins
    refine ⟨earlier, _, ?_, ?_, ⟨first, tail ++ [h], app₀, payload₀, answer₀, app₁, rfl,
      htoken ▸ hfirst⟩, ⟨h, time, ?_, hcommits.reads.trans htime, htime⟩, hcounts⟩
    · rw [hw.hs_eq, List.append_assoc]
      rfl
    · rw [hlength, hbuffer, ← hfrag]
      exact hwindow
    · show (accepted ((first :: tail) ++ [h])).getLast? = some h
      rw [accepted_concat_of_isAccepted haccepted]
      simp

theorem Staged.skip {hs earlier window : List Happening} {state : LargeBlobState}
    (hw : Staged hs state earlier window) (hset : h.set.isSome = true)
    (hnot : h.isAccepted = false) : Staged (hs ++ [h]) state earlier (window ++ [h]) := by
  obtain ⟨first, tail, app, payload, answer, app', rfl, hfirst⟩ := hw.begins
  refine ⟨by rw [hw.hs_eq, List.append_assoc], hw.collects.skip hset hnot,
    ⟨first, tail ++ [h], app, payload, answer, app', rfl, hfirst⟩, ?_, hw.counts⟩
  rw [accepted_concat_of_not hnot]
  exact hw.last

/-- What is staged after a run was brought by a window of it. -/
theorem staged_of_run {hs : List Happening} (hrun : engine.Executes none hs)
    (happ : engine.run none hs = some app) (hne : app.largeBlobState.expectedNextOffset ≠ 0) :
    ∃ earlier window, Staged hs app.largeBlobState earlier window := by
  -- The last happening is a large-blob request, and left something to go on with.
  induction hs using List.reverseRecOn generalizing app with
  | nil => cases happ
  | append_singleton hs h ih =>
    obtain ⟨hbefore, ⟨settings, trace, rfl, hpower⟩ | ⟨app₀, request, trace, reply, hs', rfl,
      hserve⟩⟩ := engine_last_cases hrun happ
    · rw [initial_powerUp hpower app rfl] at hne
      exact absurd rfl hne
    cases hscope : request.scope.stages with
    | false =>
      rw [initial_serve hscope hserve] at hne
      exact absurd rfl hne
    | true =>
      obtain ⟨payload, rfl⟩ := request_of_stages hscope
      obtain ⟨answer, rfl, hrefused | ⟨⟨stages⟩⟩⟩ := fragmentStages_of_runs hserve
      · -- The request brought nothing, so it found the write that it left.
        have hsame : app.largeBlobState = app₀.largeBlobState := by
          rcases hrefused.reduces with hinitial | hsame | hzero
          · rw [hinitial] at hne
            exact absurd rfl hne
          · exact hsame
          · exact absurd hzero hne
        have hset : setParameters payload ≠ none := by
          intro hnone
          rw [hrefused.discards hnone] at hne
          exact absurd rfl hne
        obtain ⟨status, rfl⟩ := hrefused.fails hset
        rw [hsame] at hne ⊢
        obtain ⟨earlier, window, hw⟩ := ih hbefore hs' hne
        refine ⟨earlier, _, hw.skip ?_ ?_⟩
        · exact Option.isSome_iff_ne_none.mpr hset
        · exact Happening.not_isAccepted rfl hrefused.unwritten
      · rcases stages.accepted_cases with ⟨hcommits, hstate, hreached⟩ | ⟨-, hinitial, -⟩
        · rw [hstate]
          refine staged_of_stages (h := .exchange _ trace (.cbor answer) app) hs' (ih hbefore hs')
            ?_ rfl stages hcommits
          rw [Happening.isAccepted, stages.set_eq rfl]
          rcases hreached with rfl | hwritten
          · rfl
          · rw [unwritten_iff, Bool.not_eq_false] at hwritten
            rw [Option.isSome_some, Bool.true_and, Bool.or_eq_true]
            exact .inr hwritten
        · rw [hinitial] at hne
          exact absurd rfl hne

/-- The fragment came with a proof, over its own offset and hash, of knowing the token that is
in use, and that token may write large blobs. -/
def Happening.AuthenticatedIn (h : Happening) (app : CtapApp) : Prop :=
  ∃ map protocol param, h.set = some (map, h.offset, h.fragment) ∧ h.offset < 2 ^ 32 ∧
    fragmentAuth map = .ok (protocol, param) ∧
    ∃ (token : InUseToken) (time : Duration), app.pinState.token.inUse = some token ∧
      (⟨.now, time⟩ : env.Event) ∈ h.trace ∧ token.isExpired time = false ∧
      token.protocol = protocol ∧
      verify protocol token.value (fragmentMessage h.offset h.fragment) param = .ok () ∧
      token.permissions &&& permissionLbw ≠ 0

/-- On a protected key every accepted fragment is authenticated. -/
theorem Happening.authenticatedIn_of_isAccepted (hh : engine.enabled (some app) h)
    (haccepted : h.isAccepted = true) (hprotected : app.isProtected = true) :
    h.AuthenticatedIn app := by
  obtain ⟨payload, answer, app', hrequest, stages, -⟩ := stages_of_isAccepted hh haccepted
  obtain ⟨protocol, param, hauth, hoffset, time, time', token, hinUse, hexpired, -, hprotocol, hmac,
    hbits, hauthorizing⟩ := stages.authenticated hprotected
  have hset := stages.set_eq hrequest
  have hfrag : h.fragment = stages.fragment := by simp [Happening.fragment, hset]
  have hoff : h.offset = stages.offset := by simp [Happening.offset, hset]
  have hmem : (⟨.now, time⟩ : env.Event) ∈ h.trace := by
    rw [stages.trace_eq, hauthorizing]
    simp
  rw [← hoff, ← hfrag] at hset hmac
  exact ⟨stages.map, protocol, param, hset, hoff ▸ hoffset, hauth, token, time, hinUse, hmem,
    hexpired, hprotocol, hmac, hbits⟩

/-- Only an accepted set request writes the array. -/
theorem isAccepted_of_written (hh : engine.enabled s h) (hwritten : ¬ Unwritten h.trace) :
    ∃ app, s = some app ∧ h.isAccepted = true := by
  have hlonger : ∀ rest, ¬ Unwritten (h.trace ++ rest) := fun rest hquiet =>
    hwritten fun e he => hquiet e (List.mem_append_left _ he)
  -- Run to its end, a request that writes turns out to be a set request.
  have hserved : ∀ {app : CtapApp} {request : Request} {tr : Trace} {x : Except Empty Reply}
      {app' : CtapApp}, h.request = some request → (serve request).Runs app tr x app' →
      ¬ Unwritten tr → h.isAccepted = true := by
    intro app request tr x app' hrequest hserve hwritten'
    cases hscope : request.scope.stages with
    | false => exact absurd ((prompting_serve request).unwritten hscope hserve) hwritten'
    | true =>
      obtain ⟨payload, rfl⟩ := request_of_stages hscope
      cases x with
      | error e => exact e.elim
      | ok reply =>
        obtain ⟨answer, rfl, hrefused | ⟨⟨stages⟩⟩⟩ := fragmentStages_of_runs hserve
        · exact absurd hrefused.unwritten hwritten'
        · rw [Happening.isAccepted, stages.set_eq hrequest, Bool.and_eq_true, Bool.or_eq_true]
          refine ⟨rfl, .inr ?_⟩
          rwa [unwritten_iff, Bool.not_eq_false] at hwritten
  cases possible_of_enabled hh with
  | powerUp hrun => exact absurd (unwritten_powerUp hrun) hwritten
  | cutPowerUp hreach =>
    obtain ⟨rest, ⟨x, s'⟩, hyields⟩ := Prog.Reaches.yields nonempty_res hreach
    exact absurd (unwritten_powerUp hyields) (hlonger rest)
  | exchange hrun => exact ⟨_, rfl, hserved rfl hrun hwritten⟩
  | cutRequest hreach =>
    obtain ⟨rest, ⟨x, app'⟩, hyields⟩ := Prog.Reaches.yields nonempty_res hreach
    exact ⟨_, rfl, hserved rfl hyields (hlonger rest)⟩
  | powerOff => exact absurd unwritten_nil hwritten

/-- Along every run, whatever is written as the large-blob array, other than by a reset, is
what the accepted set requests of a window of the run brought; what was accepted while the key
was protected was authenticated. -/
theorem largeBlobArray_uploaded (before after : List Happening) (h : Happening)
    (hrun : engine.Executes none (before ++ h :: after)) (array : Bytes)
    (r : Except StoreError Unit)
    (hmem : (⟨.store (.setLargeBlobArray array), r⟩ : env.Event) ∈ h.trace) :
    ∃ earlier window, before ++ [h] = earlier ++ window ∧ h.isAccepted = true ∧
      Window window array.length array ∧ 17 ≤ array.length ∧ array.length ≤ 16384 ∧
      array.drop (array.length - 16) = (sha256 (array.take (array.length - 16))).take 16 ∧
      ∀ pre x post app, window = pre ++ x :: post → x.isAccepted = true →
        engine.run none (earlier ++ pre) = some app → app.isProtected = true →
        x.AuthenticatedIn app := by
  obtain ⟨hbefore, henabled, hafter⟩ := (engine.along_append _ _ _ _).mp hrun
  have hwritten : ¬ Unwritten h.trace := fun hquiet =>
    absurd (hquiet _ hmem) (by simp [EnvOp.writesArray])
  obtain ⟨app, happ, haccepted⟩ := isAccepted_of_written henabled hwritten
  rw [happ] at henabled
  obtain ⟨payload, answer, app', hrequest, stages, hcommits⟩ :=
    stages_of_isAccepted henabled haccepted
  obtain ⟨rfl, hlength, hvalid⟩ := hcommits.writes array r hmem
  obtain ⟨earlier, window, hw⟩ :=
    staged_of_stages happ (staged_of_run hbefore happ) haccepted hrequest stages hcommits
  obtain ⟨hmin, hmax, hhash⟩ := of_decide_eq_true hvalid
  refine ⟨earlier, window, hw.hs_eq, haccepted, hlength ▸ hw.collects, hmin, hmax, hhash.symm, ?_⟩
  intro pre x post app₀ hsplit hyes happ₀ hprotected
  have hwindow : engine.Executes none ((earlier ++ pre) ++ x :: post) := by
    rw [List.append_assoc, ← hsplit, ← hw.hs_eq]
    exact (engine.along_append _ _ _ _).mpr ⟨hbefore, happ ▸ henabled, trivial⟩
  obtain ⟨-, hx, -⟩ := (engine.along_append _ _ _ _).mp hwindow
  rw [happ₀] at hx
  exact Happening.authenticatedIn_of_isAccepted hx hyes hprotected

end Windows

section Bench

def getLargeBlobTokenPayload : Bytes :=
  [0xa5, 0x01, 0x01, 0x02, 0x09, 0x03, 0xa5, 0x01, 0x02, 0x03, 0x38, 0x18, 0x20, 0x01, 0x21,
    0x58, 0x20] ++ List.replicate 32 7 ++ [0x22, 0x58, 0x20] ++ List.replicate 32 7 ++
    [0x06, 0x50] ++ List.replicate 16 9 ++ [0x09, 0x10]

def getLargeBlobTokenValue : Value :=
  .map [(.integer 1, .integer 1), (.integer 2, .integer 9), (.integer 3, benchPlatformKey),
    (.integer 6, .bytes (List.replicate 16 9)), (.integer 9, .integer 0x10)]

def firstFragmentPayload : Bytes :=
  [0xa5, 0x02, 0x4a] ++ 0x80 :: List.replicate 9 0 ++ [0x03, 0x00, 0x04, 0x11, 0x05, 0x50] ++
    List.replicate 16 0 ++ [0x06, 0x01]

def firstFragmentValue : Value :=
  .map [(.integer 2, .bytes (0x80 :: List.replicate 9 0)), (.integer 3, .integer 0),
    (.integer 4, .integer 17), (.integer 5, .bytes (List.replicate 16 0)), (.integer 6, .integer 1)]

def lastFragmentPayload : Bytes :=
  [0xa4, 0x02, 0x47] ++ List.replicate 7 0 ++ [0x03, 0x0a, 0x05, 0x50] ++ List.replicate 16 0 ++
    [0x06, 0x01]

def lastFragmentValue : Value :=
  .map [(.integer 2, .bytes (List.replicate 7 0)), (.integer 3, .integer 10),
    (.integer 5, .bytes (List.replicate 16 0)), (.integer 6, .integer 1)]

local instance uploadExternals : Externals :=
  .bench [(getLargeBlobTokenPayload, getLargeBlobTokenValue),
    (firstFragmentPayload, firstFragmentValue), (lastFragmentPayload, lastFragmentValue)]

def uploadSession : List Happening :=
  (World.bench benchPinState [] 0).session .bench
    [.cbor (0x06 :: getLargeBlobTokenPayload), .cbor (0x0C :: firstFragmentPayload),
      .cbor (0x0C :: lastFragmentPayload)]

def Happening.isUpload (h : Happening) : Bool :=
  h.trace.any fun
    | ⟨.store (.setLargeBlobArray array), _⟩ => array = 0x80 :: List.replicate 16 0
    | _ => false

theorem largeBlobArray_uploaded_twoFragments :
    ∃ before h after, uploadSession = before ++ h :: after ∧ h.isUpload = true ∧
      ∃ earlier window, before ++ [h] = earlier ++ window ∧
        Window window 17 (0x80 :: List.replicate 16 0) := by
  obtain ⟨h, hmem, hupload⟩ := List.any_eq_true.mp
    (show uploadSession.any Happening.isUpload = true by decide +kernel)
  obtain ⟨before, after, hsplit⟩ := List.append_of_mem hmem
  refine ⟨before, h, after, hsplit, hupload, ?_⟩
  have hrun : engine.Executes none uploadSession := World.executes_session _ _ _
  rw [hsplit] at hrun
  obtain ⟨e, he, hwrites⟩ := List.any_eq_true.mp hupload
  split at hwrites
  · next array r =>
    obtain ⟨earlier, window, heq, -, hwindow, -⟩ :=
      largeBlobArray_uploaded before after h hrun array r he
    rw [of_decide_eq_true hwrites] at hwindow
    exact ⟨earlier, window, heq, hwindow⟩
  · cases hwrites

end Bench

end SoftwareAuthenticator.Ctap
