import SoftwareAuthenticator.Interaction.Program

/-!
# Commands of a stateful component

A command is an interaction program that also changes the state of a component and may fail. What
it changed before it failed stays changed. `Built` says what a command is put together from.
-/

namespace SoftwareAuthenticator

theorem Outcome.bind_eq_ok {ε α β : Type} {x : Except ε α} {f : α → Except ε β} {b : β} :
    x >>= f = .ok b ↔ ∃ a, x = .ok a ∧ f a = .ok b := by
  cases x with
  | error e => exact ⟨fun h => (nomatch h), fun ⟨_, h, _⟩ => (nomatch h)⟩
  | ok a => exact ⟨fun h => ⟨a, rfl, h⟩, fun ⟨_, h, hf⟩ => by cases h; exact hf⟩

def Cmd (I : Interface) (σ ε α : Type) : Type := σ → Prog I (Except ε α × σ)

namespace Cmd

variable {I : Interface} {σ ε ε' α β : Type}

variable {a : α} {x : Except ε α} {c : Cmd I σ ε α} {f : α → Cmd I σ ε β}

def andThen (f : α → Cmd I σ ε β) : Except ε α × σ → Prog I (Except ε β × σ)
  | (.ok a, s) => f a s
  | (.error e, s) => .pure (.error e, s)

instance : Monad (Cmd I σ ε) where
  pure a := fun s => .pure (.ok a, s)
  bind c f := fun s => (c s).bind (andThen f)

def fail (e : ε) : Cmd I σ ε α := fun s => .pure (.error e, s)

def gets (f : σ → α) : Cmd I σ ε α := fun s => .pure (.ok (f s), s)

def modify (f : σ → σ) : Cmd I σ ε Unit := fun s => .pure (.ok (), f s)

def ask (op : I.Op) : Cmd I σ ε (I.Res op) := fun s => .call op fun r => .pure (.ok r, s)

def ofExcept : Except ε α → Cmd I σ ε α
  | .ok a => Pure.pure a
  | .error e => fail e

def when (p : Bool) (c : Cmd I σ ε Unit) : Cmd I σ ε Unit := if p then c else Pure.pure ()

/-- The outcome of `c` as a value: a failure is handed to the caller. -/
def attempt (c : Cmd I σ ε α) : Cmd I σ ε' (Except ε α) :=
  fun s => (c s).bind fun r => .pure (.ok r.1, r.2)

def mapError (f : ε → ε') (c : Cmd I σ ε α) : Cmd I σ ε' α := do
  match ← c.attempt with
  | .ok a => Pure.pure a
  | .error e => fail (f e)

/-- From `s`, the command sees `tr`, ends with `out` and leaves `s'`. -/
def Runs (c : Cmd I σ ε α) (s : σ) (tr : List I.Event) (out : Except ε α) (s' : σ) : Prop :=
  (c s).Yields tr (out, s')

variable {s s' : σ} {tr : List I.Event} {out : Except ε α}

@[simp] theorem runs_pure :
    (Pure.pure a : Cmd I σ ε α).Runs s tr out s' ↔ tr = [] ∧ out = .ok a ∧ s' = s := by
  change tr = [] ∧ (Except.ok a, s) = (out, s') ↔ _
  simp [Prod.ext_iff, eq_comm]

@[simp] theorem runs_fail {e : ε} :
    (fail e : Cmd I σ ε α).Runs s tr out s' ↔ tr = [] ∧ out = .error e ∧ s' = s := by
  change tr = [] ∧ (Except.error e, s) = (out, s') ↔ _
  simp [Prod.ext_iff, eq_comm]

theorem not_runs_fail_ok {e : ε} : ¬ (fail e : Cmd I σ ε α).Runs s tr (.ok a) s' := by
  simp

@[simp] theorem runs_gets {f : σ → α} :
    (gets f : Cmd I σ ε α).Runs s tr out s' ↔ tr = [] ∧ out = .ok (f s) ∧ s' = s := by
  change tr = [] ∧ (Except.ok (f s), s) = (out, s') ↔ _
  simp [Prod.ext_iff, eq_comm]

@[simp] theorem runs_modify {f : σ → σ} {out : Except ε Unit} :
    (modify f : Cmd I σ ε Unit).Runs s tr out s' ↔ tr = [] ∧ out = .ok () ∧ s' = f s := by
  change tr = [] ∧ (Except.ok (), f s) = (out, s') ↔ _
  simp [Prod.ext_iff, eq_comm]

@[simp] theorem runs_ask {op : I.Op} {out : Except ε (I.Res op)} :
    (ask op : Cmd I σ ε (I.Res op)).Runs s tr out s' ↔
      ∃ r, tr = [⟨op, r⟩] ∧ out = .ok r ∧ s' = s := by
  change (∃ r rest, tr = ⟨op, r⟩ :: rest ∧ rest = [] ∧ (Except.ok r, s) = (out, s')) ↔ _
  constructor
  · rintro ⟨r, rest, rfl, rfl, h⟩
    rw [Prod.ext_iff] at h
    exact ⟨r, rfl, h.1.symm, h.2.symm⟩
  · rintro ⟨r, rfl, rfl, rfl⟩
    exact ⟨r, [], rfl, rfl, rfl⟩

@[simp] theorem runs_ofExcept :
    (ofExcept x : Cmd I σ ε α).Runs s tr out s' ↔ tr = [] ∧ out = x ∧ s' = s := by
  cases x with
  | ok a => exact runs_pure
  | error e => exact runs_fail

theorem runs_bind {out : Except ε β} :
    (c >>= f).Runs s tr out s' ↔
      (∃ tr₁ tr₂ a s₁, tr = tr₁ ++ tr₂ ∧ c.Runs s tr₁ (.ok a) s₁ ∧ (f a).Runs s₁ tr₂ out s') ∨
        ∃ e, out = .error e ∧ c.Runs s tr (.error e) s' := by
  change ((c s).bind (andThen f)).Yields tr (out, s') ↔ _
  rw [Prog.yields_bind]
  constructor
  · rintro ⟨tr₁, tr₂, ⟨x, s₁⟩, rfl, h₁, h₂⟩
    cases x with
    | ok a => exact Or.inl ⟨tr₁, tr₂, a, s₁, rfl, h₁, h₂⟩
    | error e =>
      obtain ⟨rfl, h₂⟩ := h₂
      obtain ⟨rfl, rfl⟩ := Prod.ext_iff.mp h₂
      refine Or.inr ⟨e, rfl, ?_⟩
      rw [List.append_nil]
      exact h₁
  · rintro (⟨tr₁, tr₂, a, s₁, rfl, h₁, h₂⟩ | ⟨e, rfl, h⟩)
    · exact ⟨tr₁, tr₂, (.ok a, s₁), rfl, h₁, h₂⟩
    · exact ⟨tr, [], (.error e, s'), by simp, h, rfl, rfl⟩

theorem runs_bind_ok {b : β} :
    (c >>= f).Runs s tr (.ok b) s' ↔
      ∃ tr₁ tr₂ a s₁, tr = tr₁ ++ tr₂ ∧ c.Runs s tr₁ (.ok a) s₁ ∧
        (f a).Runs s₁ tr₂ (.ok b) s' := by
  rw [runs_bind]
  simp

theorem runs_gets_bind {g : σ → α} {out : Except ε β} :
    (gets g >>= f).Runs s tr out s' ↔ (f (g s)).Runs s tr out s' := Iff.rfl

theorem runs_ofExcept_bind {out : Except ε β} :
    (ofExcept x >>= f).Runs s tr out s' ↔
      (∃ a, x = .ok a ∧ (f a).Runs s tr out s') ∨
        ∃ e, x = .error e ∧ tr = [] ∧ out = .error e ∧ s' = s := by
  cases x with
  | ok a =>
    change (f a).Runs s tr out s' ↔ _
    simp
  | error e =>
    change (fail e : Cmd I σ ε β).Runs s tr out s' ↔ _
    simp

theorem runs_ofExcept_bind_ok {b : β} :
    (ofExcept x >>= f).Runs s tr (.ok b) s' ↔
      ∃ a, x = .ok a ∧ (f a).Runs s tr (.ok b) s' := by
  rw [runs_ofExcept_bind]
  simp

theorem runs_when_of_true {p : Bool} (hp : p = true) {c : Cmd I σ ε Unit} {out : Except ε Unit} :
    (when p c).Runs s tr out s' ↔ c.Runs s tr out s' := by
  rw [when, if_pos hp]

@[simp] theorem runs_attempt {out : Except ε' (Except ε α)} :
    (c.attempt : Cmd I σ ε' (Except ε α)).Runs s tr out s' ↔
      ∃ x, out = .ok x ∧ c.Runs s tr x s' := by
  change ((c s).bind fun r => .pure (Except.ok r.1, r.2)).Yields tr (out, s') ↔ _
  rw [Prog.yields_bind]
  constructor
  · rintro ⟨tr₁, tr₂, ⟨x, s₁⟩, rfl, h, rfl, hr⟩
    obtain ⟨rfl, rfl⟩ := Prod.ext_iff.mp hr
    refine ⟨x, rfl, ?_⟩
    rw [List.append_nil]
    exact h
  · rintro ⟨x, rfl, h⟩
    exact ⟨tr, [], (x, s'), by simp, h, rfl, rfl⟩

theorem runs_mapError {f : ε → ε'} {out : Except ε' α} :
    (c.mapError f).Runs s tr out s' ↔ ∃ x, out = x.mapError f ∧ c.Runs s tr x s' := by
  rw [mapError, runs_bind]
  constructor
  · rintro (⟨tr₁, tr₂, x, s₁, rfl, h, hx⟩ | ⟨e, rfl, h⟩)
    · rw [runs_attempt] at h
      obtain ⟨_, ⟨⟩, h⟩ := h
      cases x with
      | ok a =>
        obtain ⟨rfl, rfl, rfl⟩ := runs_pure.mp hx
        exact ⟨.ok a, rfl, by simpa using h⟩
      | error e =>
        obtain ⟨rfl, rfl, rfl⟩ := runs_fail.mp hx
        exact ⟨.error e, rfl, by simpa using h⟩
    · simp at h
  · rintro ⟨x, rfl, h⟩
    refine Or.inl ⟨tr, [], x, s', by simp, by simpa using h, ?_⟩
    cases x with
    | ok a => exact runs_pure.mpr ⟨rfl, rfl, rfl⟩
    | error e => exact runs_fail.mpr ⟨rfl, rfl, rfl⟩

@[simp] theorem runs_mapError_ok {f : ε → ε'} :
    (c.mapError f).Runs s tr (.ok a) s' ↔ c.Runs s tr (.ok a) s' := by
  rw [runs_mapError]
  constructor
  · rintro ⟨x, hx, h⟩
    cases x with
    | ok b =>
      cases hx
      exact h
    | error e => cases hx
  · intro h
    exact ⟨.ok a, rfl, h⟩

def Sure (c : Cmd I σ ε α) : Prop := ∀ s tr x s', c.Runs s tr x s' → ∃ a, x = .ok a

theorem sure_pure (a : α) : Sure (Pure.pure a : Cmd I σ ε α) := by
  intro s tr x s' h
  exact ⟨a, (runs_pure.mp h).2.1⟩

theorem sure_gets (f : σ → α) : Sure (gets f : Cmd I σ ε α) := by
  intro s tr x s' h
  exact ⟨f s, (runs_gets.mp h).2.1⟩

theorem sure_modify (f : σ → σ) : Sure (modify f : Cmd I σ ε Unit) := by
  intro s tr x s' h
  exact ⟨(), (runs_modify.mp h).2.1⟩

theorem sure_ask (op : I.Op) : Sure (ask op : Cmd I σ ε (I.Res op)) := by
  intro s tr x s' h
  obtain ⟨r, -, hx, -⟩ := runs_ask.mp h
  exact ⟨r, hx⟩

theorem Sure.runs_then (hc : c.Sure) {s s' : σ} {tr : List I.Event} {out : Except ε β}
    (h : (c >>= f).Runs s tr out s') :
    ∃ tr₁ tr₂ a s₁, tr = tr₁ ++ tr₂ ∧ c.Runs s tr₁ (.ok a) s₁ ∧ (f a).Runs s₁ tr₂ out s' := by
  rcases Cmd.runs_bind.mp h with h | ⟨e, -, hfail⟩
  · exact h
  · obtain ⟨_, ⟨⟩⟩ := hc _ _ _ _ hfail

theorem Sure.bind (hc : c.Sure) (hf : ∀ a, (f a).Sure) : (c >>= f).Sure := by
  intro s tr x s' h
  rcases runs_bind.mp h with ⟨_, _, a, _, -, -, h⟩ | ⟨e, -, h⟩
  · exact hf a _ _ _ _ h
  · obtain ⟨_, ⟨⟩⟩ := hc _ _ _ _ h

theorem Sure.when {p : Bool} {c : Cmd I σ ε Unit} (hc : c.Sure) : (Cmd.when p c).Sure := by
  cases p with
  | true => exact hc
  | false => exact sure_pure ()

/-- `c` is put together from parts, constants and reads of the state. -/
inductive Built (part : (ε α : Type) → Cmd I σ ε α → Prop) : (ε α : Type) → Cmd I σ ε α → Prop
  | part {ε α : Type} {c : Cmd I σ ε α} : part ε α c → Built part ε α c
  | pure {ε α : Type} (a : α) : Built part ε α (Pure.pure a)
  | fail {ε α : Type} (e : ε) : Built part ε α (fail e)
  | gets {ε α : Type} (f : σ → α) : Built part ε α (gets f)
  | bind {ε α β : Type} {c : Cmd I σ ε α} {f : α → Cmd I σ ε β} :
      Built part ε α c → (∀ a, Built part ε β (f a)) → Built part ε β (c >>= f)
  | attempt {ε ε' α : Type} {c : Cmd I σ ε α} :
      Built part ε α c → Built part ε' (Except ε α) c.attempt

namespace Built

variable {part : (ε α : Type) → Cmd I σ ε α → Prop}

theorem ofExcept (x : Except ε α) : Built part ε α (Cmd.ofExcept x) := by
  cases x with
  | ok a => exact .pure a
  | error e => exact .fail e

theorem when {p : Bool} {c : Cmd I σ ε Unit} (hc : Built part ε Unit c) :
    Built part ε Unit (Cmd.when p c) := by
  cases p with
  | true => exact hc
  | false => exact .pure ()

theorem mapError {f : ε → ε'} (hc : Built part ε α c) : Built part ε' α (c.mapError f) := by
  refine .bind hc.attempt fun x => ?_
  cases x with
  | ok a => exact .pure a
  | error e => exact .fail _

theorem mono {part' : (ε α : Type) → Cmd I σ ε α → Prop}
    (hpart : ∀ ε α c, part ε α c → Built part' ε α c) (hc : Built part ε α c) :
    Built part' ε α c := by
  induction hc with
  | part h => exact hpart _ _ _ h
  | pure a => exact .pure a
  | fail e => exact .fail e
  | gets f => exact .gets f
  | bind _ _ ihc ihf => exact .bind ihc ihf
  | attempt _ ih => exact .attempt ih

/-- A reflexive and transitive relation between state, events and next state that
every part follows is followed by the whole. -/
theorem follows {R : σ → List I.Event → σ → Prop} (hrefl : ∀ s, R s [] s)
    (htrans : ∀ s tr s' tr' s'', R s tr s' → R s' tr' s'' → R s (tr ++ tr') s'')
    (hpart : ∀ ε α c, part ε α c → ∀ s tr out s', Runs c s tr out s' → R s tr s')
    (hc : Built part ε α c) {s : σ} {tr : List I.Event} {out : Except ε α} {s' : σ}
    (hrun : c.Runs s tr out s') : R s tr s' := by
  induction hc generalizing s tr s' with
  | part h => exact hpart _ _ _ h _ _ _ _ hrun
  | pure a =>
    obtain ⟨rfl, -, rfl⟩ := runs_pure.mp hrun
    exact hrefl _
  | fail e =>
    obtain ⟨rfl, -, rfl⟩ := runs_fail.mp hrun
    exact hrefl _
  | gets f =>
    obtain ⟨rfl, -, rfl⟩ := runs_gets.mp hrun
    exact hrefl _
  | bind _ _ ihc ihf =>
    rcases runs_bind.mp hrun with ⟨tr₁, tr₂, a, s₁, rfl, h₁, h₂⟩ | ⟨e, rfl, h⟩
    · exact htrans _ _ _ _ _ (ihc h₁) (ihf a h₂)
    · exact ihc h
  | attempt _ ih =>
    obtain ⟨x, -, h⟩ := runs_attempt.mp hrun
    exact ih h

end Built

variable {R : σ → σ → Prop}

/-- The smallest commands that ask for `ok` operations only and change the state along
`R`. -/
inductive MovePart (ok : I.Op → Bool) (R : σ → σ → Prop) : (ε α : Type) → Cmd I σ ε α → Prop
  | ask {ε : Type} (op : I.Op) (h : ok op = true) : MovePart ok R ε (I.Res op) (ask op)
  | modify {ε : Type} (f : σ → σ) (h : ∀ s, R s (f s)) : MovePart ok R ε Unit (modify f)

abbrev Moves (ok : I.Op → Bool) (R : σ → σ → Prop) (c : Cmd I σ ε α) : Prop :=
  Built (MovePart ok R) ε α c

/-- The command asks for `ok` operations only and leaves a view of the state alone. -/
abbrev Confined {V : Type} (ok : I.Op → Bool) (view : σ → V) (c : Cmd I σ ε α) : Prop :=
  Moves ok (fun s s' => view s' = view s) c

variable {ok ok' : I.Op → Bool} {V : Type} {view : σ → V}

theorem Moves.mono {R' : σ → σ → Prop} (hc : Moves ok R c)
    (hok : ∀ op, ok op = true → ok' op = true) (hR : ∀ s s', R s s' → R' s s') :
    Moves ok' R' c := by
  refine Built.mono ?_ hc
  rintro ε α c (⟨op, hop⟩ | ⟨f, hf⟩)
  · exact .part (.ask op (hok op hop))
  · exact .part (.modify f fun s => hR _ _ (hf s))

/-- A run that moves along a preorder ends where the preorder leads, and asks for `ok`
operations only. -/
theorem Moves.runs (hc : Moves ok R c) (hrefl : ∀ s, R s s)
    (htrans : ∀ s s' s'', R s s' → R s' s'' → R s s'') {s s' : σ} {tr : List I.Event}
    {out : Except ε α} (h : c.Runs s tr out s') : R s s' ∧ ∀ e ∈ tr, ok e.op = true := by
  refine hc.follows (R := fun s tr s' => R s s' ∧ ∀ e ∈ tr, ok e.op = true) ?_ ?_ ?_ h
  · intro s
    exact ⟨hrefl s, by simp⟩
  · rintro s tr s' tr' s'' ⟨h₁, p₁⟩ ⟨h₂, p₂⟩
    refine ⟨htrans _ _ _ h₁ h₂, fun e he => ?_⟩
    rcases List.mem_append.mp he with he | he
    · exact p₁ e he
    · exact p₂ e he
  · rintro ε α c (⟨op, hop⟩ | ⟨f, hf⟩) s tr out s' hrun
    · obtain ⟨r, rfl, -, rfl⟩ := runs_ask.mp hrun
      exact ⟨hrefl _, by simpa using hop⟩
    · obtain ⟨rfl, -, rfl⟩ := runs_modify.mp hrun
      exact ⟨hf s, by simp⟩

theorem Confined.runs (hc : Confined ok view c) {s s' : σ} {tr : List I.Event} {out : Except ε α}
    (h : c.Runs s tr out s') : view s' = view s ∧ ∀ e ∈ tr, ok e.op = true :=
  Moves.runs hc (fun _ => rfl) (fun _ _ _ h₁ h₂ => h₂.trans h₁) h

end Cmd

end SoftwareAuthenticator
