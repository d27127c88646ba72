import SoftwareAuthenticator.Ctap.PinWork
import SoftwareAuthenticator.Interaction.Triple

/-!
# Silent commands

A command is silent if it neither marks a phase nor writes the PIN state. What a write of the PIN
state does is one rule for any observer.
-/

namespace SoftwareAuthenticator.Ctap

open Cmd

def EnvOp.isSilent : EnvOp → Bool
  | .observe _ | .store (.setPinState _) => false
  | _ => true

theorem EnvOp.isSilent_of_isPlain {op : EnvOp} (h : op.isPlain = true) : op.isSilent = true := by
  cases op with
  | store op => cases op <;> first | rfl | exact absurd h (by simp [EnvOp.isPlain])
  | observe phase => exact absurd h (by simp [EnvOp.isPlain])
  | _ => rfl

abbrev Silent {ε α : Type} (c : EngineM ε α) : Prop :=
  Confined EnvOp.isSilent (fun _ : CtapApp => ()) c

theorem PlainIn.silent {ε α : Type} {scope : Scope} {c : EngineM ε α} (hc : PlainIn scope c) :
    Silent c :=
  Moves.mono hc.confined (fun _ => EnvOp.isSilent_of_isPlain) fun _ _ _ => rfl

section Keeps

variable {ε α : Type} {c : EngineM ε α} {S P : Trace → Prop}

theorem Silent.keeps_past (hc : Silent c) (hsafe : ∀ w, P w → S w)
    (hP : ∀ w (e : env.Event), EnvOp.isSilent e.op = true → P w → P (w ++ [e])) :
    Keeps (.history S) (fun _ w => P w) c :=
  Confined.keeps (P := fun _ => P) hc fun _ w e he hw _ =>
    ⟨hsafe _ (hP w e he hw), hP w e he hw⟩

theorem PlainIn.keeps_past {scope : Scope} {P : Authority → Trace → Prop} (hc : PlainIn scope c)
    (hsafe : ∀ a w, P a w → S w)
    (hP : ∀ a w (e : env.Event), EnvOp.isSilent e.op = true → P a w → P a (w ++ [e])) :
    Keeps (.history S) (fun app w => P app.authority w) c :=
  Confined.keeps hc.confined fun a w e he hw _ =>
    have hw' := hP a w e (EnvOp.isSilent_of_isPlain he) hw
    ⟨hsafe _ _ hw', hw'⟩

end Keeps

/-- Loading finds a record, takes the default for none, or closes with a random PIN
hash. -/
theorem loadPinState_rule {σ ε W : Type} {O : Observer env W} {P failed : σ → W → Prop}
    {Q : PinState × StoredPinState → σ → W → Prop}
    (hfound : ∀ s w found, P s w → O.admits w ⟨.store .pinState, .ok found⟩ →
      O.safe (O.next w ⟨.store .pinState, .ok found⟩) ∧
        Q (.fromPersistent (found.getD .initial), .read) s
          (O.next w ⟨.store .pinState, .ok found⟩))
    {F : StoreError → σ → W → Prop}
    (herror : ∀ s w err, P s w → O.admits w ⟨.store .pinState, .error err⟩ →
      O.safe (O.next w ⟨.store .pinState, .error err⟩) ∧
        F err s (O.next w ⟨.store .pinState, .error err⟩))
    (hrandom : ∀ s w err (hash : Vector UInt8 16), F err s w →
      O.admits w ⟨.random 16, hash⟩ → O.safe (O.next w ⟨.random 16, hash⟩) ∧
        Q (.fromPersistent (closedPersistent hash.toList),
          if closesAuthority err then .unreadable else .unread) s
          (O.next w ⟨.random 16, hash⟩)) :
    Triple O P (loadPinState : Cmd env σ ε (PinState × StoredPinState))
      (either Q failed) := by
  refine Triple.andThen (M := fun answer s w => match answer with
    | .ok found => Q (.fromPersistent (found.getD .initial), .read) s w
    | .error err => F err s w) ?_ fun answer => ?_
  · refine triple_ask fun s w answer hw hadmits => ?_
    cases answer with
    | ok found => exact hfound s w found hw hadmits
    | error err => exact herror s w err hw hadmits
  · cases answer with
    | ok found =>
      cases found with
      | none | some => exact triple_pure fun s w hw => hw
    | error err =>
      refine Triple.andThen (M := fun closed s w => Q (closed,
        if closesAuthority err then .unreadable else .unread) s w) ?_ fun closed =>
        triple_pure fun s w hw => hw
      refine Triple.andThen (M := fun (hash : Vector UInt8 16) s w => Q (.fromPersistent
        (closedPersistent hash.toList), if closesAuthority err then .unreadable else .unread)
        s w) ?_ fun hash => triple_pure fun s w hw => hw
      exact triple_ask fun s w hash hw hadmits => hrandom s w err hash hw hadmits

theorem savePinState_rule {W : Type} {O : Observer env W} {P failed : CtapApp → W → Prop}
    {ok : CommitDurability → CtapApp → W → Prop} {record : PinStateRecord}
    (hok : ∀ app w d, P app w → app.storedPinState = .read →
      O.admits w ⟨.store (.setPinState record), .ok d⟩ →
      O.safe (O.next w ⟨.store (.setPinState record), .ok d⟩) ∧
        ok d app (O.next w ⟨.store (.setPinState record), .ok d⟩))
    (herr : ∀ app w err, P app w → app.storedPinState = .read →
      O.admits w ⟨.store (.setPinState record), .error err⟩ →
      O.safe (O.next w ⟨.store (.setPinState record), .error err⟩) ∧
        failed app (O.next w ⟨.store (.setPinState record), .error err⟩))
    (hrefuse : ∀ app w, P app w → app.storedPinState ≠ .read → failed app w) :
    Triple O P (savePinState record) (either ok failed) := by
  refine triple_gets_bind fun stored => ?_
  have write : Triple O (fun app w => app.storedPinState = .read ∧ P app w)
      (orStatus (storeAsk (.setPinState record))) (either ok failed) := by
    refine Triple.andThen (M := fun answer app w => match answer with
      | .ok d => ok d app w
      | .error _ => failed app w) ?_ fun answer => ?_
    · refine triple_ask fun app w answer hw hadmits => ?_
      cases answer with
      | ok d => exact hok app w d hw.2 hw.1 hadmits
      | error err => exact herr app w err hw.2 hw.1 hadmits
    · cases answer with
      | ok d => exact triple_pure fun app w hw => hw
      | error err => exact triple_fail fun app w hw => hw
  cases stored with
  | read => exact write
  | unread | unreadable => exact triple_fail fun app w hw => hrefuse app w hw.2 (by simp [hw.1])

section Basic

variable {ε : Type}

theorem PinWork.silent {α : Type} {c : EngineM ε α} (hc : PinWork false c) : Silent c := by
  refine Moves.mono hc (fun op h => ?_) fun _ _ _ => rfl
  cases op with
  | store op => cases op <;> first | rfl | exact Bool.noConfusion h
  | observe phase => cases phase <;> exact Bool.noConfusion h
  | _ => rfl

theorem silent_observeToken : Silent (observeToken (ε := ε)) :=
  .bind plain_now.silent fun _ => .bind (.part (.modify _ fun _ => rfl)) fun _ => .gets _

theorem silent_setPendingAssertion (pending : Option PendingAssertion) :
    Silent (setPendingAssertion (ε := ε) pending) := .part (.modify _ fun _ => rfl)

end Basic

theorem silent_readPinStateIfUnread : Silent readPinStateIfUnread :=
  built_readPinStateIfUnread (pinWork_refreshPersistentAuthority false).silent

theorem silent_observeLargeBlobState {ε : Type} (command : Option UInt8) :
    Silent (observeLargeBlobState (ε := ε) command) :=
  built_observeLargeBlobState plain_now.silent (.bind silent_observeToken fun _ => .pure _)
    (plainIn_setLargeBlobState _).silent command

theorem silent_forgetAssertion (command : Option UInt8) : Silent (forgetAssertion command) :=
  built_forgetAssertion (silent_setPendingAssertion _) command

end SoftwareAuthenticator.Ctap
