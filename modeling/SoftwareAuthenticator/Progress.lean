import Mathlib.Order.Basic
import Mathlib.Data.Nat.Basic
import SoftwareAuthenticator.Machine

/-!
# Runs that go on

A run without end is a sequence of states with the events between them. What is bound to
happen in it is shown by a rank that no step raises, and that some later step lowers as
long as it is not zero.
-/

namespace SoftwareAuthenticator

theorem eventually_zero {rank : ℕ → ℕ} {start : ℕ}
    (hdown : ∀ n, start ≤ n → rank (n + 1) ≤ rank n)
    (hprogress : ∀ n, start ≤ n → rank n ≠ 0 → ∃ m, n ≤ m ∧ rank (m + 1) < rank n) :
    ∃ last, start ≤ last ∧ ∀ n, last ≤ n → rank n = 0 := by
  have hle : ∀ n d, start ≤ n → rank (n + d) ≤ rank n := by
    intro n d hn
    induction d with
    | zero => exact le_rfl
    | succ d ih => exact le_trans (hdown (n + d) (Nat.le_add_right_of_le hn)) ih
  have hreach : ∀ r n, start ≤ n → rank n = r → ∃ last, start ≤ last ∧ rank last = 0 := by
    intro r
    induction r using Nat.strong_induction_on with
    | _ r ih =>
      intro n hn hrank
      by_cases hzero : rank n = 0
      · exact ⟨n, hn, hzero⟩
      · obtain ⟨m, hnm, hlt⟩ := hprogress n hn hzero
        exact ih (rank (m + 1)) (hrank ▸ hlt) (m + 1) (by omega) rfl
  obtain ⟨last, hlast, hzero⟩ := hreach (rank start) start le_rfl rfl
  refine ⟨last, hlast, fun n hn => ?_⟩
  obtain ⟨d, rfl⟩ := Nat.exists_eq_add_of_le hn
  have := hle last d hlast
  omega

namespace Machine

variable {S E : Type} {m : Machine S E}

def Goes (m : Machine S E) (state : ℕ → S) (event : ℕ → E) : Prop :=
  ∀ n, state (n + 1) = m.step (state n) (event n)

theorem Goes.invariant {state : ℕ → S} {event : ℕ → E} (h : m.Goes state event) {I : S → Prop}
    {start : ℕ} (hstep : ∀ n, I (state n) → I (m.step (state n) (event n)))
    (hstart : I (state start)) : ∀ n, start ≤ n → I (state n) := by
  intro n hn
  induction n, hn using Nat.le_induction with
  | base => exact hstart
  | succ n _ ih =>
    rw [h n]
    exact hstep n ih

end Machine

end SoftwareAuthenticator
