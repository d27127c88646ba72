import Mathlib.Data.List.Basic

/-!
# Event-driven machines

A machine takes one event after another. The rules below turn facts about one step into facts
about whole runs.
-/

namespace SoftwareAuthenticator

structure Machine (S E : Type) where
  initial : S → Prop
  enabled : S → E → Prop
  step : S → E → S

namespace Machine

variable {S E O G : Type} (m : Machine S E)

variable {p : S → E → Prop} {es : List E} {s : S}

def run (s : S) (es : List E) : S := es.foldl m.step s

def Along (p : S → E → Prop) : S → List E → Prop
  | _, [] => True
  | s, e :: es => p s e ∧ Along p (m.step s e) es

instance decidableAlong (p : S → E → Prop) [∀ s e, Decidable (p s e)] :
    ∀ s es, Decidable (m.Along p s es)
  | _, [] => .isTrue trivial
  | s, e :: es =>
    have := decidableAlong p (m.step s e) es
    inferInstanceAs (Decidable (p s e ∧ m.Along p (m.step s e) es))

def Executes (s : S) (es : List E) : Prop := m.Along m.enabled s es

instance [∀ s e, Decidable (m.enabled s e)] (s : S) (es : List E) : Decidable (m.Executes s es) :=
  m.decidableAlong m.enabled s es

def Reachable (s : S) : Prop :=
  ∃ s₀ es, m.initial s₀ ∧ m.Executes s₀ es ∧ m.run s₀ es = s

@[simp] theorem run_nil (s : S) : m.run s [] = s := rfl

@[simp] theorem run_cons (s : S) (e : E) (es : List E) :
    m.run s (e :: es) = m.run (m.step s e) es := rfl

@[simp] theorem run_append (s : S) (es fs : List E) :
    m.run s (es ++ fs) = m.run (m.run s es) fs := List.foldl_append

@[simp] theorem along_nil (p : S → E → Prop) (s : S) : m.Along p s [] := trivial

@[simp] theorem along_cons (p : S → E → Prop) (s : S) (e : E) (es : List E) :
    m.Along p s (e :: es) ↔ p s e ∧ m.Along p (m.step s e) es := Iff.rfl

theorem along_append (p : S → E → Prop) (s : S) (es fs : List E) :
    m.Along p s (es ++ fs) ↔ m.Along p s es ∧ m.Along p (m.run s es) fs := by
  induction es generalizing s with
  | nil => simp
  | cons e es ih => simp [ih, and_assoc]

theorem along_of_forall (h : ∀ e ∈ es, ∀ s, p s e) (s : S) : m.Along p s es := by
  induction es generalizing s with
  | nil => trivial
  | cons e es ih => exact ⟨h e (by simp) s, ih (fun e' he' => h e' (by simp [he'])) _⟩

variable {m}

/-- What every step that satisfies `p` preserves holds after the run. -/
theorem invariant_along {I : S → Prop} (hstep : ∀ s e, I s → p s e → I (m.step s e)) (hs : I s)
    (hes : m.Along p s es) : I (m.run s es) := by
  induction es generalizing s with
  | nil => exact hs
  | cons e es ih => exact ih (hstep s e hs hes.1) hes.2

theorem invariant_reachable {I : S → Prop} (hinit : ∀ s, m.initial s → I s)
    (hstep : ∀ s e, I s → m.enabled s e → I (m.step s e)) (hs : m.Reachable s) : I s := by
  obtain ⟨s₀, es, h₀, hes, rfl⟩ := hs
  exact invariant_along hstep (hinit s₀ h₀) hes

theorem Reachable.run (hs : m.Reachable s) (hes : m.Executes s es) : m.Reachable (m.run s es) := by
  obtain ⟨s₀, fs, h₀, hfs, rfl⟩ := hs
  exact ⟨s₀, fs ++ es, h₀, (m.along_append _ _ _ _).mpr ⟨hfs, hes⟩, m.run_append _ _ _⟩

theorem Reachable.step {e : E} (hs : m.Reachable s) (he : m.enabled s e) :
    m.Reachable (m.step s e) := by
  have hes : m.Executes s [e] := ⟨he, trivial⟩
  exact hs.run hes

variable (m)

def outputs (out : S → E → List O) : S → List E → List O
  | _, [] => []
  | s, e :: es => out s e ++ outputs out (m.step s e) es

/-- The events of a run that are not dropped. The decision may depend on the state
and on what `next` has recorded about the run so far. -/
def thin (drop : G → S → E → Bool) (next : G → S → E → G) : G → S → List E → List E
  | _, _, [] => []
  | g, s, e :: es =>
    if drop g s e then thin drop next (next g s e) (m.step s e) es
    else e :: thin drop next (next g s e) (m.step s e) es

variable {m}

/-- If a relation between the states of two runs survives a dropped event of the
first run, which outputs nothing, and a kept event of both, which output the same,
then the thinned run has the outputs of the whole run. -/
theorem outputs_thin {drop : G → S → E → Bool} {next : G → S → E → G} {out : S → E → List O}
    {R : G → S → S → Prop} (hdrop : ∀ g s t e, R g s t → p s e → drop g s e = true →
      R (next g s e) (m.step s e) t ∧ out s e = [])
    (hkeep : ∀ g s t e, R g s t → p s e → drop g s e = false →
      R (next g s e) (m.step s e) (m.step t e) ∧ out s e = out t e) {g : G} {t : S} (hR : R g s t)
    (hes : m.Along p s es) : m.outputs out t (m.thin drop next g s es) = m.outputs out s es := by
  induction es generalizing g s t with
  | nil => rfl
  | cons e es ih =>
    cases hd : drop g s e with
    | true =>
      obtain ⟨hR', ho⟩ := hdrop g s t e hR hes.1 hd
      simp [thin, hd, outputs, ho, ih hR' hes.2]
    | false =>
      obtain ⟨hR', ho⟩ := hkeep g s t e hR hes.1 hd
      simp [thin, hd, outputs, ho, ih hR' hes.2]

end Machine

end SoftwareAuthenticator
