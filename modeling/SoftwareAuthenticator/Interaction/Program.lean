import Mathlib.Data.List.Basic

/-!
# Programs that interact with an environment

A program asks its environment one operation after another. An execution is any list of
operations with answers, and may stop anywhere, as when the power is cut. An observer says which
answers the environment may give, what it remembers of them, and which of its states are safe.
-/

namespace SoftwareAuthenticator

structure Interface where
  Op : Type
  Res : Op → Type

structure Interface.Event (I : Interface) where
  op : I.Op
  res : I.Res op

inductive Prog (I : Interface) (α : Type) where
  | pure (a : α)
  | call (op : I.Op) (k : I.Res op → Prog I α)

namespace Prog

variable {I : Interface} {α β γ W : Type}

variable {a : α} {tr : List I.Event} {p : Prog I α}

def bind : Prog I α → (α → Prog I β) → Prog I β
  | .pure a, f => f a
  | .call op k, f => .call op fun r => (k r).bind f

instance : Monad (Prog I) where
  pure := .pure
  bind := .bind

def ask (op : I.Op) : Prog I (I.Res op) := .call op .pure

/-- A complete execution: `p` sees the events `tr` and returns `a`. -/
def Yields : Prog I α → List I.Event → α → Prop
  | .pure b, tr, a => tr = [] ∧ b = a
  | .call op k, tr, a => ∃ r rest, tr = ⟨op, r⟩ :: rest ∧ (k r).Yields rest a

/-- An execution that may have stopped early: `p` has seen the events `tr` so far. -/
def Reaches : Prog I α → List I.Event → Prop
  | .pure _, tr => tr = []
  | .call op k, tr => tr = [] ∨ ∃ r rest, tr = ⟨op, r⟩ :: rest ∧ (k r).Reaches rest

@[simp] theorem reaches_pure {b : α} : (Prog.pure b : Prog I α).Reaches tr ↔ tr = [] := Iff.rfl

theorem reaches_nil (p : Prog I α) : p.Reaches [] := by
  cases p with
  | pure a => rfl
  | call op k => exact Or.inl rfl

theorem Yields.reaches (h : p.Yields tr a) : p.Reaches tr := by
  induction p generalizing tr with
  | pure b => exact h.1
  | call op k ih =>
    obtain ⟨r, rest, rfl, hr⟩ := h
    exact Or.inr ⟨r, rest, rfl, ih r hr⟩

theorem yields_bind {f : α → Prog I β} {b : β} :
    (p.bind f).Yields tr b ↔
      ∃ tr₁ tr₂ a, tr = tr₁ ++ tr₂ ∧ p.Yields tr₁ a ∧ (f a).Yields tr₂ b := by
  induction p generalizing tr with
  | pure a =>
    constructor
    · intro h
      exact ⟨[], tr, a, rfl, ⟨rfl, rfl⟩, h⟩
    · rintro ⟨tr₁, tr₂, a', rfl, ⟨rfl, rfl⟩, h⟩
      exact h
  | call op k ih =>
    constructor
    · rintro ⟨r, rest, rfl, h⟩
      obtain ⟨tr₁, tr₂, a, rfl, h₁, h₂⟩ := (ih r).mp h
      exact ⟨⟨op, r⟩ :: tr₁, tr₂, a, rfl, ⟨r, tr₁, rfl, h₁⟩, h₂⟩
    · rintro ⟨tr₁, tr₂, a, rfl, ⟨r, rest, rfl, h₁⟩, h₂⟩
      exact ⟨r, rest ++ tr₂, rfl, (ih r).mpr ⟨rest, tr₂, a, rfl, h₁, h₂⟩⟩

theorem yields_ask_bind {op : I.Op} {f : I.Res op → Prog I β} {b : β} :
    (ask op >>= f).Yields tr b ↔ ∃ r rest, tr = ⟨op, r⟩ :: rest ∧ (f r).Yields rest b := Iff.rfl

theorem Reaches.of_append {whole rest : List I.Event} (h : p.Reaches whole)
    (hwhole : whole = tr ++ rest) : p.Reaches tr := by
  subst hwhole
  induction p generalizing tr with
  | pure a => exact (List.append_eq_nil_iff.mp h).1
  | call op k ih =>
    cases tr with
    | nil => exact Or.inl rfl
    | cons e tr =>
      rcases h with h | ⟨r, tail, he, h⟩
      · cases h
      · obtain ⟨rfl, rfl⟩ := List.cons.inj he
        exact Or.inr ⟨r, tr, rfl, ih r h⟩

/-- What was stopped early could have gone on. -/
theorem Reaches.yields (hres : ∀ op, Nonempty (I.Res op)) (h : p.Reaches tr) :
    ∃ rest a, p.Yields (tr ++ rest) a := by
  induction p generalizing tr with
  | pure b => exact ⟨[], b, by rw [reaches_pure.mp h]; rfl, rfl⟩
  | call op k ih =>
    rcases h with rfl | ⟨r, tail, rfl, h⟩
    · obtain ⟨r⟩ := hres op
      obtain ⟨rest, a, hrest⟩ := ih r (reaches_nil _)
      exact ⟨⟨op, r⟩ :: rest, a, r, rest, rfl, hrest⟩
    · obtain ⟨rest, a, hrest⟩ := ih r h
      exact ⟨rest, a, r, tail ++ rest, rfl, hrest⟩

/-- The result, the events and the final state of the environment `h`. -/
def eval (h : W → (op : I.Op) → I.Res op × W) : Prog I α → W → α × List I.Event × W
  | .pure a, w => (a, [], w)
  | .call op k, w =>
    let answer := h w op
    let rest := (k answer.1).eval h answer.2
    (rest.1, ⟨op, answer.1⟩ :: rest.2.1, rest.2.2)

theorem eval_yields (h : W → (op : I.Op) → I.Res op × W) (p : Prog I α) (w : W) :
    p.Yields (p.eval h w).2.1 (p.eval h w).1 := by
  induction p generalizing w with
  | pure a => exact ⟨rfl, rfl⟩
  | call op k ih => exact ⟨(h w op).1, _, rfl, ih _ _⟩

end Prog

/-- Who watches an execution: which events the environment may produce, what is
remembered after one, and which memories are safe. -/
structure Observer (I : Interface) (W : Type) where
  admits : W → I.Event → Prop
  next : W → I.Event → W
  safe : W → Prop

namespace Observer

variable {I : Interface} {α β W : Type} (O : Observer I W)

variable {p : Prog I α} {post : α → W → Prop} {w : W}

def after (w : W) (tr : List I.Event) : W := tr.foldl O.next w

/-- The environment keeps to what the observer admits. -/
def Admits : W → List I.Event → Prop
  | _, [] => True
  | w, e :: tr => O.admits w e ∧ Admits (O.next w e) tr

@[simp] theorem after_nil (w : W) : O.after w [] = w := rfl

@[simp] theorem after_cons (w : W) (e : I.Event) (tr : List I.Event) :
    O.after w (e :: tr) = O.after (O.next w e) tr := rfl

@[simp] theorem after_append (w : W) (tr tr' : List I.Event) :
    O.after w (tr ++ tr') = O.after (O.after w tr) tr' := List.foldl_append

@[simp] theorem admits_nil (w : W) : O.Admits w [] := trivial

@[simp] theorem admits_cons (w : W) (e : I.Event) (tr : List I.Event) :
    O.Admits w (e :: tr) ↔ O.admits w e ∧ O.Admits (O.next w e) tr := Iff.rfl

theorem admits_append (w : W) (tr tr' : List I.Event) :
    O.Admits w (tr ++ tr') ↔ O.Admits w tr ∧ O.Admits (O.after w tr) tr' := by
  induction tr generalizing w with
  | nil => simp
  | cons e tr ih => simp [ih, and_assoc]

/-- Whatever the environment answers, every state on the way is safe and `post` holds
of the result. -/
def Wp : Prog I α → (α → W → Prop) → W → Prop
  | .pure a, post, w => post a w
  | .call op k, post, w =>
    ∀ r, O.admits w ⟨op, r⟩ →
      O.safe (O.next w ⟨op, r⟩) ∧ Wp (k r) post (O.next w ⟨op, r⟩)

variable {O}

theorem Wp.mono {post' : α → W → Prop} (h : O.Wp p post w) (hpost : ∀ a w, post a w → post' a w) :
    O.Wp p post' w := by
  induction p generalizing w with
  | pure a => exact hpost a w h
  | call op k ih =>
    intro r hr
    exact ⟨(h r hr).1, ih r (h r hr).2⟩

theorem wp_bind {f : α → Prog I β} {post : β → W → Prop} :
    O.Wp (p.bind f) post w ↔ O.Wp p (fun a w' => O.Wp (f a) post w') w := by
  induction p generalizing w with
  | pure a => exact Iff.rfl
  | call op k ih =>
    refine forall_congr' fun r => forall_congr' fun _ => and_congr Iff.rfl ?_
    exact ih r

theorem Wp.yields {tr : List I.Event} {a : α} (h : O.Wp p post w) (hp : p.Yields tr a)
    (htr : O.Admits w tr) : post a (O.after w tr) := by
  induction p generalizing w tr with
  | pure b =>
    obtain ⟨rfl, rfl⟩ := hp
    exact h
  | call op k ih =>
    obtain ⟨r, rest, rfl, hr⟩ := hp
    have hrest := ih r (h r htr.1).2 hr htr.2
    exact hrest

/-- What holds of every result holds of the result at the end. -/
theorem Wp.of_yields {A : α → Prop} (h : O.Wp p post w) (hA : ∀ tr a, p.Yields tr a → A a) :
    O.Wp p (fun a w' => A a ∧ post a w') w := by
  induction p generalizing w with
  | pure a => exact ⟨hA [] a ⟨rfl, rfl⟩, h⟩
  | call op k ih =>
    intro r hr
    exact ⟨(h r hr).1, ih r (h r hr).2 fun tr a htr => hA (⟨op, r⟩ :: tr) a ⟨r, tr, rfl, htr⟩⟩

/-- An executable environment that simulates the observer's memory gives admitted
answers. -/
theorem eval_admits {V : Type} {h : V → (op : I.Op) → I.Res op × V} {R : V → W → Prop}
    (hR : ∀ v w op, R v w → O.admits w ⟨op, (h v op).1⟩ ∧
      R (h v op).2 (O.next w ⟨op, (h v op).1⟩)) (p : Prog I α) {v : V} (hvw : R v w) :
    O.Admits w (p.eval h v).2.1 ∧ R (p.eval h v).2.2 (O.after w (p.eval h v).2.1) := by
  induction p generalizing v w with
  | pure a => exact ⟨trivial, hvw⟩
  | call op k ih =>
    obtain ⟨hadmits, hnext⟩ := hR v w op hvw
    have hrest := ih (h v op).1 hnext
    exact ⟨⟨hadmits, hrest.1⟩, hrest.2⟩

/-- An execution that is cut short leaves a safe state behind. -/
theorem Wp.reaches {tr : List I.Event} (h : O.Wp p post w) (hw : O.safe w) (hp : p.Reaches tr)
    (htr : O.Admits w tr) : O.safe (O.after w tr) := by
  induction p generalizing w tr with
  | pure b =>
    obtain rfl := hp
    exact hw
  | call op k ih =>
    rcases hp with rfl | ⟨r, rest, rfl, hr⟩
    · exact hw
    · have hrest := ih r (h r htr.1).2 (h r htr.1).1 hr htr.2
      exact hrest

end Observer

end SoftwareAuthenticator
