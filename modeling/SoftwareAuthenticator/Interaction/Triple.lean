import Mathlib.Data.List.Induction
import SoftwareAuthenticator.Interaction.Command

/-!
# Pre- and postconditions of commands

`Triple O pre c post` says of a command started where `pre` holds: whatever the environment
answers, every memory of the observer on the way is safe, and `post` holds at the end.
-/

namespace SoftwareAuthenticator

namespace Cmd

variable {I : Interface} {σ ε ε' α β W : Type} {O : Observer I W}

variable {a : α} {x : Except ε α} {f : α → Cmd I σ ε β} {Inv failed : σ → W → Prop}
  {M : α → σ → W → Prop}

def Triple (O : Observer I W) (pre : σ → W → Prop) (c : Cmd I σ ε α)
    (post : Except ε α → σ → W → Prop) : Prop :=
  ∀ s w, pre s w → O.Wp (c s) (fun r w' => post r.1 r.2 w') w

variable {P P' : σ → W → Prop} {Q Q' : Except ε α → σ → W → Prop} {c : Cmd I σ ε α}

theorem Triple.conseq (h : Triple O P c Q) (hpre : ∀ s w, P' s w → P s w)
    (hpost : ∀ x s w, Q x s w → Q' x s w) : Triple O P' c Q' :=
  fun s w hw => (h s w (hpre s w hw)).mono fun r w' => hpost r.1 r.2 w'

theorem Triple.weaken (h : Triple O P c Q) (hpre : ∀ s w, P' s w → P s w) : Triple O P' c Q :=
  h.conseq hpre fun _ _ _ h => h

theorem Triple.strengthen (h : Triple O P c Q)
    (hpost : ∀ x s w, Q x s w → Q' x s w) : Triple O P c Q' :=
  h.conseq (fun _ _ h => h) hpost

theorem Triple.outcome (h : Triple O P c Q) (hok : ∀ a s w, Q (.ok a) s w → Q' (.ok a) s w)
    (herror : ∀ e s w, Q (.error e) s w → Q' (.error e) s w) : Triple O P c Q' :=
  h.strengthen fun x => by
    cases x with
    | ok a => exact hok a
    | error e => exact herror e

theorem Triple.exists_pre {ι : Type} {P : ι → σ → W → Prop}
    (h : ∀ i, Triple O (P i) c Q) : Triple O (fun s w => ∃ i, P i s w) c Q := by
  rintro s w ⟨i, hi⟩
  exact h i s w hi

/-- A fact that does not depend on the state moves out of the precondition. -/
theorem Triple.of_pre {A : Prop} (h : A → Triple O P c Q) :
    Triple O (fun s w => A ∧ P s w) c Q := by
  rintro s w ⟨hA, hw⟩
  exact h hA s w hw

theorem triple_pure (h : ∀ s w, P s w → Q (.ok a) s w) : Triple O P (Pure.pure a) Q := h

theorem triple_fail {e : ε} (h : ∀ s w, P s w → Q (.error e) s w) : Triple O P (fail e) Q := h

theorem triple_gets {f : σ → α} (h : ∀ s w, P s w → Q (.ok (f s)) s w) : Triple O P (gets f) Q := h

theorem triple_modify {f : σ → σ} {Q : Except ε Unit → σ → W → Prop}
    (h : ∀ s w, P s w → Q (.ok ()) (f s) w) : Triple O P (modify f) Q := h

theorem triple_ask {op : I.Op} {Q : Except ε (I.Res op) → σ → W → Prop}
    (h : ∀ s w r, P s w → O.admits w ⟨op, r⟩ →
      O.safe (O.next w ⟨op, r⟩) ∧ Q (.ok r) s (O.next w ⟨op, r⟩)) :
    Triple O P (ask op) Q :=
  fun s w hw r hr => h s w r hw hr

theorem triple_ofExcept (h : ∀ s w, P s w → Q x s w) : Triple O P (ofExcept x) Q := by
  cases x with
  | ok | error => exact h

theorem Triple.bind {M : Except ε α → σ → W → Prop} {Q : Except ε β → σ → W → Prop}
    (hc : Triple O P c M) (hf : ∀ a, Triple O (M (.ok a)) (f a) Q)
    (he : ∀ e s w, M (.error e) s w → Q (.error e) s w) : Triple O P (c >>= f) Q := by
  intro s w hw
  refine Observer.wp_bind.mpr ((hc s w hw).mono ?_)
  rintro ⟨x, s₁⟩ w₁ h₁
  cases x with
  | ok a => exact hf a s₁ w₁ h₁
  | error e => exact he e s₁ w₁ h₁

/-- The postcondition of a command that establishes `ok` of its value, or fails with
`failed`. -/
def either (ok : α → σ → W → Prop) (failed : σ → W → Prop) : Except ε α → σ → W → Prop
  | .ok a => ok a
  | .error _ => failed

theorem Triple.same (h : Triple O P c (either (fun _ => Inv) Inv)) : Triple O P c fun _ => Inv :=
  h.outcome (fun _ _ _ h => h) fun _ _ _ h => h

theorem Triple.both (h : Triple O P c fun _ => Inv) : Triple O P c (either (fun _ => Inv) Inv) :=
  h.outcome (fun _ _ _ h => h) fun _ _ _ h => h

theorem Triple.andThen {ok : β → σ → W → Prop} (hc : Triple O P c (either M failed))
    (hf : ∀ a, Triple O (M a) (f a) (either ok failed)) : Triple O P (c >>= f) (either ok failed) :=
  hc.bind hf fun _ _ _ h => h

theorem Triple.sureThen {Q : Except ε β → σ → W → Prop} (hc : Triple O P c (either M failed))
    (hsure : c.Sure) (hf : ∀ a, Triple O (M a) (f a) Q) : Triple O P (c >>= f) Q := by
  intro s w hw
  refine Observer.wp_bind.mpr (((hc s w hw).of_yields (A := fun r => ∃ a, r.1 = .ok a)
    fun tr r htr => hsure s tr r.1 r.2 htr).mono ?_)
  rintro ⟨x, s₁⟩ w₁ ⟨⟨a, rfl⟩, h₁⟩
  exact hf a s₁ w₁ h₁

theorem Triple.surely {Q : Except ε β → σ → W → Prop}
    (hc : Triple O P c (either M fun _ _ => False)) (hf : ∀ a, Triple O (M a) (f a) Q) :
    Triple O P (c >>= f) Q :=
  hc.bind hf fun _ _ _ h => h.elim

theorem triple_gets_bind {f : σ → α} {g : α → Cmd I σ ε β} {Q : Except ε β → σ → W → Prop}
    (h : ∀ a, Triple O (fun s w => f s = a ∧ P s w) (g a) Q) :
    Triple O P (gets f >>= g) Q :=
  fun s w hw => h (f s) s w ⟨rfl, hw⟩

theorem triple_ofExcept_bind {ok : β → σ → W → Prop}
    (he : ∀ e, x = .error e → ∀ s w, P s w → failed s w)
    (hf : ∀ a, x = .ok a → Triple O P (f a) (either ok failed)) :
    Triple O P (ofExcept x >>= f) (either ok failed) := by
  cases x with
  | ok a => exact hf a rfl
  | error e => exact he e rfl

theorem triple_ofExcept_ok {Q : Except ε β → σ → W → Prop} (hx : x = .ok a)
    (h : Triple O P (f a) Q) : Triple O P (ofExcept x >>= f) Q := by
  rw [hx]
  exact h

theorem Triple.when {p : Bool} {c : Cmd I σ ε Unit} {Q : Except ε Unit → σ → W → Prop}
    (hc : p = true → Triple O P c Q)
    (hskip : p = false → ∀ s w, P s w → Q (.ok ()) s w) : Triple O P (Cmd.when p c) Q := by
  cases p with
  | true => exact hc rfl
  | false => exact triple_pure (hskip rfl)

theorem Triple.attempt {Q : Except ε' (Except ε α) → σ → W → Prop}
    (hc : Triple O P c fun x => Q (.ok x)) :
    Triple O P (c.attempt : Cmd I σ ε' (Except ε α)) Q :=
  fun s w hw => Observer.wp_bind.mpr ((hc s w hw).mono fun _ _ h => h)

theorem Triple.attemptThen {f : Except ε α → Cmd I σ ε' β} {R : Except ε' β → σ → W → Prop}
    (hc : Triple O P c Q) (hf : ∀ x, Triple O (Q x) (f x) R) :
    Triple O P (c.attempt >>= f) R := by
  refine Triple.bind (M := fun y s w => ∃ x, y = .ok x ∧ Q x s w)
    (.attempt (hc.strengthen fun x s w h => ⟨x, rfl, h⟩)) (fun x => ?_) ?_
  · rintro s w ⟨_, ⟨⟩, h⟩
    exact hf x s w h
  · rintro e s w ⟨_, ⟨⟩, _⟩

theorem Triple.runs (h : Triple O P c Q) {s s' : σ} {tr : List I.Event} {w : W} (hw : P s w)
    (hrun : c.Runs s tr x s') (htr : O.Admits w tr) : Q x s' (O.after w tr) :=
  (h s w hw).yields hrun htr

theorem Triple.reaches (h : Triple O P c Q) {s : σ} {tr : List I.Event} {w : W}
    (hw : P s w) (hsafe : O.safe w) (hreach : (c s).Reaches tr) (htr : O.Admits w tr) :
    O.safe (O.after w tr) :=
  (h s w hw).reaches hsafe hreach htr

/-- An invariant of the state and the memory that `c` keeps, however it ends. -/
abbrev Keeps (O : Observer I W) (Inv : σ → W → Prop) (c : Cmd I σ ε α) : Prop :=
  Triple O Inv c fun _ => Inv

/-- An invariant kept by every part is kept by the whole. -/
theorem Built.keeps {part : (ε α : Type) → Cmd I σ ε α → Prop}
    (hpart : ∀ ε α c, part ε α c → Keeps O Inv c) (hc : Built part ε α c) : Keeps O Inv c := by
  induction hc with
  | part h => exact hpart _ _ _ h
  | pure a => exact triple_pure fun _ _ h => h
  | fail e => exact triple_fail fun _ _ h => h
  | gets f => exact triple_gets fun _ _ h => h
  | bind _ _ ihc ihf => exact ihc.bind ihf fun _ _ _ h => h
  | attempt _ ih => exact ih.attempt

/-- What `R` and the operations keep, a command that moves along `R` keeps. -/
theorem Moves.keeps {ok : I.Op → Bool} {R : σ → σ → Prop} {P : σ → W → Prop}
    (hc : Moves ok R c) (hR : ∀ s s' w, R s s' → P s w → P s' w)
    (hP : ∀ s w (e : I.Event), ok e.op = true → P s w → O.admits w e →
      O.safe (O.next w e) ∧ P s (O.next w e)) :
    Keeps O P c := by
  refine Built.keeps ?_ hc
  rintro ε α c (⟨op, hop⟩ | ⟨f, hf⟩)
  · exact triple_ask fun s w r hw hr => hP s w ⟨op, r⟩ hop hw hr
  · exact triple_modify fun s w hw => hR _ _ w (hf s) hw

/-- What the view of a confined command and its operations keep, the command keeps. -/
theorem Confined.keeps {V : Type} {ok : I.Op → Bool} {view : σ → V} {P : V → W → Prop}
    (hc : Confined ok view c)
    (hP : ∀ v w (e : I.Event), ok e.op = true → P v w → O.admits w e →
      O.safe (O.next w e) ∧ P v (O.next w e)) :
    Keeps O (fun s w => P (view s) w) c :=
  Moves.keeps hc (fun _ _ _ hview h => hview ▸ h) fun s => hP (view s)

end Cmd

def Observer.history {I : Interface} (safe : List I.Event → Prop) : Observer I (List I.Event) where
  admits _ _ := True
  next past e := past ++ [e]
  safe := safe

namespace Observer

variable {I : Interface} {safe : List I.Event → Prop}

@[simp] theorem history_after (past tr : List I.Event) :
    (history safe).after past tr = past ++ tr := by
  induction tr generalizing past with
  | nil => simp
  | cons e tr ih =>
    rw [after_cons, ih]
    simp [history]

theorem history_admits (past tr : List I.Event) : (history safe).Admits past tr := by
  induction tr generalizing past with
  | nil => trivial
  | cons e tr ih => exact ⟨trivial, ih _⟩

end Observer

/-- `Q` holds of every element of a list together with what stands before it. -/
def EachAfter {E : Type} (Q : List E → E → Prop) (es : List E) : Prop :=
  ∀ pre e post, es = pre ++ e :: post → Q pre e

section EachAfter

variable {E : Type} {Q : List E → E → Prop}

variable {es : List E}

@[simp] theorem eachAfter_nil : EachAfter Q [] := by
  intro pre e post h
  simp at h

@[simp] theorem eachAfter_concat {e : E} : EachAfter Q (es ++ [e]) ↔ EachAfter Q es ∧ Q es e := by
  constructor
  · intro h
    refine ⟨fun pre x post hes => h pre x (post ++ [e]) ?_, h es e [] rfl⟩
    rw [hes]
    simp
  · rintro ⟨hes, he⟩ pre x post h
    rcases List.eq_nil_or_concat post with rfl | ⟨post, y, rfl⟩
    · obtain ⟨rfl, hx⟩ := List.append_inj' h rfl
      obtain rfl : e = x := by simpa using hx
      exact he
    · rw [List.concat_eq_append, ← List.cons_append, ← List.append_assoc] at h
      obtain ⟨rfl, -⟩ := List.append_inj' h rfl
      exact hes pre x post rfl

theorem eachAfter_append {fs : List E} :
    EachAfter Q (es ++ fs) ↔ EachAfter Q es ∧ EachAfter (fun pre => Q (es ++ pre)) fs := by
  induction fs using List.reverseRecOn with
  | nil => simp
  | append_singleton fs f ih => rw [← List.append_assoc, eachAfter_concat, ih, eachAfter_concat,
      and_assoc]

theorem EachAfter.mono {Q' : List E → E → Prop} (h : EachAfter Q es)
    (hQ : ∀ pre e, Q pre e → Q' pre e) : EachAfter Q' es :=
  fun pre e post hes => hQ pre e (h pre e post hes)

end EachAfter

end SoftwareAuthenticator
