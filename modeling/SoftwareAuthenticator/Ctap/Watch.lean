import SoftwareAuthenticator.Ctap.Dispatch
import SoftwareAuthenticator.Interaction.Triple

/-!
# The engine under observation

The engine runs while an observer follows the operations it asks for. A property that every
request keeps, and that survives the engine being stopped anywhere, holds along every run.
-/

namespace SoftwareAuthenticator.Ctap

open Cmd

/-- An environment of the engine: how it answers, how it starts, what of it remains
when the engine stops, and what a power loss may turn it into. -/
structure Surrounds (W : Type) where
  observer : Observer env W
  start : W → Prop
  stop : W → W
  loses : W → W → Prop

inductive Occurrence (W : Type) where
  | happening (h : Happening)
  | powerLoss (left : W)

variable {W : Type}

def record (hs : List Happening) : Trace := hs.flatMap Happening.trace

@[simp] theorem record_cons (h : Happening) (hs : List Happening) :
    record (h :: hs) = h.trace ++ record hs := rfl

theorem sure_observeLargeBlobState {ε : Type} (command : Option UInt8) :
    (observeLargeBlobState (ε := ε) command).Sure := by
  have hnow : (now (ε := ε)).Sure := sure_ask (I := env) .now
  refine .bind hnow fun time => .bind (sure_gets _) fun state => .bind ?_ fun changed =>
    Sure.when (sure_modify _)
  unfold largeBlobTokenChanged
  split
  · exact .bind (.bind (.bind hnow fun _ => .bind (sure_modify _) fun _ => sure_gets _)
      fun _ => sure_pure _) fun _ => sure_pure _
  · exact sure_pure _

theorem sure_forgetAssertion (command : Option UInt8) : (forgetAssertion command).Sure := by
  unfold forgetAssertion
  split
  · exact sure_pure _
  · exact sure_modify _

variable [Externals]

variable {hs : List Happening}

/-- What can happen to an engine that is off, and to one that is on. -/
inductive Possible : Option CtapApp → Happening → Prop
  | powerUp {settings trace app} (hrun : (powerUp settings).Runs none trace (.ok ()) (some app)) :
    Possible none (.powerUp settings trace app)
  | cutPowerUp {settings trace} (hreach : (powerUp settings none).Reaches trace) :
    Possible none (.cutPowerUp settings trace)
  | exchange {app request trace reply app'}
      (hrun : (serve request).Runs app trace (.ok reply) app') :
    Possible (some app) (.exchange request trace reply app')
  | cutRequest {app request trace} (hreach : (serve request app).Reaches trace) :
    Possible (some app) (.cutRequest request trace)
  | powerOff {s} : Possible s .powerOff

theorem possible_of_enabled {s : Option CtapApp} {h : Happening} (hh : engine.enabled s h) :
    Possible s h := by
  cases s with
  | none =>
    cases h with
    | powerUp settings trace app => exact .powerUp hh
    | cutPowerUp settings trace => exact .cutPowerUp hh
    | powerOff => exact .powerOff
    | exchange | cutRequest => exact absurd hh id
  | some app =>
    cases h with
    | exchange request trace reply app' => exact .exchange hh
    | cutRequest request trace => exact .cutRequest hh
    | powerOff => exact .powerOff
    | powerUp | cutPowerUp => exact absurd hh id

theorem served_of_enabled {s : Option CtapApp} {request : Request} {trace : Trace} {reply : Reply}
    {app' : CtapApp} (h : engine.enabled s (.exchange request trace reply app')) :
    ∃ app, s = some app ∧ (serve request).Runs app trace (.ok reply) app' := by
  cases possible_of_enabled h with
  | exchange hrun => exact ⟨_, rfl, hrun⟩

/-- An engine that is on has just been powered up, or has just answered. -/
theorem engine_last_cases {h : Happening} {app : CtapApp} (hrun : engine.Executes none (hs ++ [h]))
    (happ : engine.run none (hs ++ [h]) = some app) :
    engine.Executes none hs ∧
      ((∃ settings trace, h = .powerUp settings trace app ∧
        (powerUp settings).Runs none trace (.ok ()) (some app)) ∨
      ∃ before request trace reply, engine.run none hs = some before ∧
        h = .exchange request trace reply app ∧
        (serve request).Runs before trace (.ok reply) app) := by
  obtain ⟨hbefore, henabled, -⟩ := (engine.along_append _ _ _ _).mp hrun
  rw [engine.run_append] at happ
  have hstep : engine.step (engine.run none hs) h = some app := happ
  refine ⟨hbefore, ?_⟩
  generalize engine.run none hs = s at henabled hstep
  cases possible_of_enabled henabled with
  | powerUp hpower =>
    cases hstep
    exact .inl ⟨_, _, rfl, hpower⟩
  | exchange hserve =>
    cases hstep
    exact .inr ⟨_, _, _, _, rfl, rfl, hserve⟩
  | cutRequest | cutPowerUp | powerOff => cases hstep

def Happening.request : Happening → Option Request
  | .exchange request _ _ _ => some request
  | .cutRequest request _ => some request
  | _ => none

/-- What every request of a kind does to the engine, a run of such requests does. -/
theorem requests_follow {R : CtapApp → CtapApp → Prop} {ok : Request → Bool}
    (hrefl : ∀ app, R app app) (htrans : ∀ app app' app'', R app app' → R app' app'' → R app app'')
    (hserve : ∀ request app trace reply app', ok request = true →
      (serve request).Runs app trace (.ok reply) app' → R app app')
    (hall : ∀ h ∈ hs, ∃ request, h.request = some request ∧
      ok request = true) {app app' : CtapApp} (hrun : engine.Executes (some app) hs)
    (hend : engine.run (some app) hs = some app') : R app app' := by
  induction hs generalizing app with
  | nil =>
    obtain rfl := Option.some.inj hend
    exact hrefl _
  | cons h hs ih =>
    obtain ⟨hh, hrest⟩ := hrun
    obtain ⟨request, hrequest, hok⟩ := hall h (by simp)
    have hall' : ∀ h' ∈ hs, ∃ request, h'.request = some request ∧ ok request = true :=
      fun h' hmem => hall h' (List.mem_cons_of_mem _ hmem)
    cases possible_of_enabled hh with
    | exchange hrun =>
      cases hrequest
      exact htrans _ _ _ (hserve _ _ _ _ _ hok hrun) (ih hall' hrest hend)
    | cutRequest _ =>
      -- The engine is off, and no request comes until it is powered up.
      cases hs with
      | nil => cases hend
      | cons h' hs =>
        obtain ⟨request₁, hrequest₁, -⟩ := hall' h' (by simp)
        cases possible_of_enabled hrest.1 with
        | powerUp | cutPowerUp | powerOff => cases hrequest₁
    | powerOff => cases hrequest

def Surrounds.settle (S : Surrounds W) (h : Happening) (w : W) : W :=
  match h with
  | .powerUp _ _ _ | .exchange _ _ _ _ => w
  | .cutRequest _ _ | .cutPowerUp _ _ | .powerOff => S.stop w

def Surrounds.machine (S : Surrounds W) : Machine (Option CtapApp × W) (Occurrence W) where
  initial s := s.1 = none ∧ S.start s.2
  enabled s
    | .happening h => engine.enabled s.1 h ∧ S.observer.Admits s.2 h.trace
    | .powerLoss left => S.loses s.2 left
  step s
    | .happening h => (engine.step s.1 h, S.settle h (S.observer.after s.2 h.trace))
    | .powerLoss left => (none, left)

/-- A property of the running engine and one of the stopped one that together last. -/
structure Surrounds.Lasting (S : Surrounds W) (on : CtapApp → W → Prop) (off : W → Prop) :
    Prop where
  start : ∀ w, S.start w → off w
  serve : ∀ request, Keeps S.observer on (serve request)
  powerUp : ∀ settings, Triple S.observer (fun _ w => off w) (powerUp settings)
    fun _ app w => app.elim (off w) fun app => on app w
  safe_on : ∀ app w, on app w → S.observer.safe w
  safe_off : ∀ w, off w → S.observer.safe w
  stop : ∀ w, S.observer.safe w → off (S.stop w)
  loses : ∀ w left, S.observer.safe w → S.loses w left → off left

def Throughout (on : CtapApp → W → Prop) (off : W → Prop) (s : Option CtapApp × W) : Prop :=
  s.1.elim (off s.2) fun app => on app s.2

/-- Every event of a happening leaves a safe memory, if the request or the start that happens
does. -/
theorem safe_happening {O : Observer env W} {on : CtapApp → W → Prop} {off : W → Prop}
    {Q : Except Empty Unit → Option CtapApp → W → Prop} {h : Happening}
    (hserve : ∀ request, h.request = some request → Keeps O on (serve request))
    (hpowerUp : ∀ settings, Triple O (fun _ w => off w) (powerUp settings) Q)
    {s : Option CtapApp × W} (hsafe : O.safe s.2) (hs : Throughout on off s)
    (hh : engine.enabled s.1 h) {tr rest : Trace} (htr : h.trace = tr ++ rest)
    (hadmits : O.Admits s.2 tr) : O.safe (O.after s.2 tr) := by
  obtain ⟨state, w⟩ := s
  cases (possible_of_enabled hh : Possible state h) with
  | powerUp hrun =>
    have hreach := Prog.Reaches.of_append (Prog.Yields.reaches hrun) htr
    exact (hpowerUp _).reaches hs hsafe hreach hadmits
  | cutPowerUp hreach =>
    exact (hpowerUp _).reaches hs hsafe (Prog.Reaches.of_append hreach htr) hadmits
  | exchange hrun =>
    have hreach := Prog.Reaches.of_append (Prog.Yields.reaches hrun) htr
    exact (hserve _ rfl).reaches hs hsafe hreach hadmits
  | cutRequest hreach =>
    exact (hserve _ rfl).reaches hs hsafe (Prog.Reaches.of_append hreach htr) hadmits
  | powerOff =>
    obtain ⟨rfl, -⟩ := List.append_eq_nil_iff.mp htr.symm
    exact hsafe

namespace Surrounds.Lasting

variable {S : Surrounds W} {on : CtapApp → W → Prop} {off : W → Prop} {s : Option CtapApp × W}

theorem safe (hS : S.Lasting on off) (hs : Throughout on off s) : S.observer.safe s.2 := by
  obtain ⟨state, w⟩ := s
  cases state with
  | none => exact hS.safe_off w hs
  | some app => exact hS.safe_on app w hs

theorem safe_during (hS : S.Lasting on off) (hs : Throughout on off s) {h : Happening}
    (hh : engine.enabled s.1 h) {tr rest : Trace} (htr : h.trace = tr ++ rest)
    (hadmits : S.observer.Admits s.2 tr) : S.observer.safe (S.observer.after s.2 tr) :=
  safe_happening (fun request _ => hS.serve request) hS.powerUp (hS.safe hs) hs hh htr hadmits

theorem step (hS : S.Lasting on off) (s : Option CtapApp × W) (o : Occurrence W)
    (hs : Throughout on off s) (ho : S.machine.enabled s o) :
    Throughout on off (S.machine.step s o) := by
  cases o with
  | powerLoss left => exact hS.loses s.2 left (hS.safe hs) ho
  | happening h =>
    obtain ⟨hh, hadmits⟩ := ho
    have hafter := hS.safe_during hs hh (List.append_nil _).symm hadmits
    obtain ⟨state, w⟩ := s
    cases (possible_of_enabled hh : Possible state h) with
    | powerUp hrun => exact (hS.powerUp _).runs hs hrun hadmits
    | exchange hrun => exact (hS.serve _).runs hs hrun hadmits
    | cutPowerUp | cutRequest | powerOff => exact hS.stop _ hafter

theorem reachable (hS : S.Lasting on off) (hs : S.machine.Reachable s) : Throughout on off s := by
  refine Machine.invariant_reachable ?_ hS.step hs
  rintro ⟨state, w⟩ ⟨rfl, hstart⟩
  exact hS.start w hstart

end Surrounds.Lasting

theorem Surrounds.executes_of_admits {S : Surrounds W} (hstop : ∀ w, S.stop w = w)
    {s : Option CtapApp} {w : W} (hrun : engine.Executes s hs)
    (hadmits : S.observer.Admits w (record hs)) :
    S.machine.Executes (s, w) (hs.map .happening) ∧
      S.machine.run (s, w) (hs.map .happening) =
        (engine.run s hs, S.observer.after w (record hs)) := by
  induction hs generalizing s w with
  | nil => exact ⟨trivial, rfl⟩
  | cons h hs ih =>
    rw [record_cons] at hadmits ⊢
    obtain ⟨hh, hrest⟩ := (Observer.admits_append _ _ _ _).mp hadmits
    have hsettle : S.settle h (S.observer.after w h.trace) = S.observer.after w h.trace := by
      cases h <;> first | rfl | exact hstop _
    have hstep : S.machine.step (s, w) (.happening h) =
        (engine.step s h, S.observer.after w h.trace) := congrArg (Prod.mk _) hsettle
    obtain ⟨hexecutes, hend⟩ := ih hrun.2 hrest
    rw [Observer.after_append]
    refine ⟨⟨⟨hrun.1, hh⟩, ?_⟩, ?_⟩
    · rw [hstep]
      exact hexecutes
    · refine Eq.trans (congrArg (fun t => S.machine.run t (hs.map .happening)) hstep) hend

/-- A CTAP2 request is answered by its handler, after what every request does first. -/
theorem serve_cbor_rule {O : Observer env W} {P : CtapApp → W → Prop}
    {Q : Except Status Response → CtapApp → W → Prop} (command : UInt8) (payload : Bytes)
    (hlarge : Keeps O P (observeLargeBlobState (ε := Status) (some command)))
    (hforget : Keeps O P (forgetAssertion (some command)))
    (hhandler : Triple O P (handleCommand command payload) Q) :
    Triple O P (serve (.cbor (command :: payload))) fun x app w =>
      ∃ answer, x = .ok (.cbor answer) ∧ Q answer app w := by
  have hcall : Triple O P (call (command :: payload)) Q :=
    hlarge.both.sureThen (sure_observeLargeBlobState _) fun _ =>
      hforget.both.sureThen (sure_forgetAssertion _) fun _ => hhandler
  exact hcall.attemptThen fun answer => triple_pure fun app w h => ⟨answer, rfl, h⟩

def Surrounds.recording (safe : Trace → Prop) : Surrounds Trace where
  observer := .history safe
  start past := past = []
  stop past := past
  loses _ _ := False

theorem Surrounds.recording_step (safe : Trace → Prop) (s : Option CtapApp) (past : Trace)
    (h : Happening) :
    (recording safe).machine.step (s, past) (.happening h) =
      (engine.step s h, past ++ h.trace) := by
  have hafter : (recording safe).observer.after past h.trace = past ++ h.trace :=
    Observer.history_after past h.trace
  change (engine.step s h, (recording safe).settle h _) = _
  rw [hafter]
  cases h with
  | powerUp | exchange | cutRequest | cutPowerUp | powerOff => rfl

/-- What lasts holds after a run, of the state and of the record. -/
theorem Surrounds.Lasting.recorded {safe : Trace → Prop} {on : CtapApp → Trace → Prop}
    {off : Trace → Prop} (hS : (Surrounds.recording safe).Lasting on off) {s : Option CtapApp}
    {past : Trace} (h₀ : Throughout on off (s, past)) (hrun : engine.Executes s hs) :
    Throughout on off (engine.run s hs, past ++ record hs) := by
  induction hs generalizing s past with
  | nil =>
    rw [record, List.flatMap_nil, List.append_nil]
    exact h₀
  | cons h hs ih =>
    have hstep := hS.step (s, past) (.happening h) h₀ ⟨hrun.1, Observer.history_admits _ _⟩
    rw [Surrounds.recording_step] at hstep
    rw [record_cons, ← List.append_assoc]
    exact ih hstep hrun.2

end SoftwareAuthenticator.Ctap
