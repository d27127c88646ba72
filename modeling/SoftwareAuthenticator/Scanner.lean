import Mathlib.Data.List.Basic

/-!
# Scanners of formal languages

A scanner finds where a word that starts at a position of a text ends. It scans a language if it
stops exactly after the words of the language. It is frugal if each call that succeeds passes a
place of the text of its own.
-/

namespace SoftwareAuthenticator

variable {α : Type}

def StandsAt (text : List α) (pos : ℕ) (w : List α) : Prop :=
  ∃ rest, text.drop pos = w ++ rest

/-- `scan` stops exactly after the words of the language `L`. -/
structure Scans (text : List α) (scan : ℕ → Option ℕ) (L : List α → Prop) : Prop where
  sound : ∀ pos stop, scan pos = some stop →
    ∃ w, L w ∧ StandsAt text pos w ∧ stop = pos + w.length
  complete : ∀ pos w, pos ≤ text.length → L w → StandsAt text pos w →
    scan pos = some (pos + w.length)

variable {text w v : List α} {pos : ℕ}

theorem standsAt_nil (text : List α) (pos : ℕ) : StandsAt text pos [] := ⟨_, rfl⟩

theorem standsAt_append :
    StandsAt text pos (w ++ v) ↔ StandsAt text pos w ∧ StandsAt text (pos + w.length) v := by
  constructor
  · rintro ⟨rest, h⟩
    refine ⟨⟨v ++ rest, by rw [h, List.append_assoc]⟩, rest, ?_⟩
    rw [← List.drop_drop, h, List.append_assoc, List.drop_left]
  · rintro ⟨⟨rest, h⟩, ⟨rest', h'⟩⟩
    rw [← List.drop_drop, h, List.drop_left] at h'
    exact ⟨rest', by rw [h, h', List.append_assoc]⟩

theorem standsAt_zero : StandsAt text 0 w ↔ w <+: text :=
  ⟨fun ⟨rest, h⟩ => ⟨rest, h.symm⟩, fun ⟨rest, h⟩ => ⟨rest, h.symm⟩⟩

theorem StandsAt.take (h : StandsAt text pos w) : (text.drop pos).take w.length = w := by
  obtain ⟨rest, h⟩ := h
  rw [h, List.take_left]

theorem StandsAt.le_length (h : StandsAt text pos w) (hpos : pos ≤ text.length) :
    pos + w.length ≤ text.length := by
  obtain ⟨rest, h⟩ := h
  have hlen := congrArg List.length h
  rw [List.length_drop, List.length_append] at hlen
  omega

theorem StandsAt.lt_length (h : StandsAt text pos w) (hw : w ≠ []) : pos < text.length := by
  obtain ⟨rest, h⟩ := h
  have hlen := congrArg List.length h
  have hpos := List.length_pos_of_ne_nil hw
  rw [List.length_drop, List.length_append] at hlen
  omega

theorem standsAt_cons {a : α} :
    StandsAt text pos (a :: w) ↔ text[pos]? = some a ∧ StandsAt text (pos + 1) w := by
  rw [← List.singleton_append, standsAt_append, List.length_singleton]
  refine and_congr_left fun _ => ⟨?_, fun h => ⟨text.drop (pos + 1), ?_⟩⟩
  · rintro ⟨rest, h⟩
    rw [← List.head?_drop, h]
    rfl
  · obtain ⟨hlt, rfl⟩ := List.getElem?_eq_some_iff.mp h
    exact List.drop_eq_getElem_cons hlt

theorem standsAt_slice {stop : ℕ} (hle : pos ≤ stop) (hstop : stop ≤ text.length) :
    StandsAt text pos ((text.drop pos).take (stop - pos)) ∧
      ((text.drop pos).take (stop - pos)).length = stop - pos := by
  refine ⟨⟨(text.drop pos).drop (stop - pos), (List.take_append_drop _ _).symm⟩, ?_⟩
  rw [List.length_take, List.length_drop]
  omega

namespace Scans

variable {scan next : ℕ → Option ℕ} {L M : List α → Prop}

theorem pure (text : List α) : Scans text some (· = []) where
  sound := by
    rintro pos _ ⟨⟩
    exact ⟨[], rfl, standsAt_nil _ _, rfl⟩
  complete := by
    rintro pos _ - rfl -
    rfl

theorem bind {next : List α → ℕ → Option ℕ} {M : List α → List α → Prop}
    (hs : Scans text scan L) (hn : ∀ w, L w → Scans text (next w) (M w)) :
    Scans text
      (fun pos => (scan pos).bind fun mid => next ((text.drop pos).take (mid - pos)) mid)
      fun x => ∃ w v, L w ∧ M w v ∧ x = w ++ v where
  sound := by
    intro pos stop h
    obtain ⟨mid, hmid, hstop⟩ := Option.bind_eq_some_iff.mp h
    obtain ⟨w, hw, hpos, rfl⟩ := hs.sound _ _ hmid
    rw [Nat.add_sub_cancel_left, hpos.take] at hstop
    obtain ⟨v, hv, hpos', rfl⟩ := (hn w hw).sound _ _ hstop
    refine ⟨w ++ v, ⟨w, v, hw, hv, rfl⟩, standsAt_append.mpr ⟨hpos, hpos'⟩, ?_⟩
    rw [List.length_append, Nat.add_assoc]
  complete := by
    rintro pos _ hle ⟨w, v, hw, hv, rfl⟩ hpos
    obtain ⟨hposw, hposv⟩ := standsAt_append.mp hpos
    rw [hs.complete pos w hle hw hposw, Option.bind_some, Nat.add_sub_cancel_left, hposw.take,
      (hn w hw).complete _ v (hposw.le_length hle) hv hposv, List.length_append, Nat.add_assoc]

theorem seq (hs : Scans text scan L) (hn : Scans text next M) :
    Scans text (fun pos => (scan pos).bind next) fun x => ∃ w v, L w ∧ M v ∧ x = w ++ v :=
  hs.bind fun _ _ => hn

theorem guard {p : Prop} [Decidable p] (hs : Scans text scan L) :
    Scans text (fun pos => if p then none else scan pos) fun w => ¬ p ∧ L w where
  sound := by
    intro pos stop h
    by_cases hp : p
    · rw [if_pos hp] at h
      contradiction
    · rw [if_neg hp] at h
      obtain ⟨w, hw, hpos, hstop⟩ := hs.sound _ _ h
      exact ⟨w, ⟨hp, hw⟩, hpos, hstop⟩
  complete := by
    rintro pos w hle ⟨hp, hw⟩ hpos
    rw [if_neg hp]
    exact hs.complete pos w hle hw hpos

theorem congr (hs : Scans text scan L) (h : ∀ w, L w ↔ M w) : Scans text scan M := by
  have : L = M := funext fun w => propext (h w)
  exact this ▸ hs

end Scans

/-- An attempt together with the number of calls it took. -/
abbrev Counted (β : Type) := Option β × ℕ

namespace Counted

variable {β γ : Type}

def pure (b : β) : Counted β := (some b, 0)

def fail : Counted β := (none, 0)

def tick (x : Counted β) : Counted β := (x.1, x.2 + 1)

/-- Go on after a success, and add the calls. -/
def bind (x : Counted β) (f : β → Counted γ) : Counted γ :=
  match x.1 with
  | none => (none, x.2)
  | some b => ((f b).1, x.2 + (f b).2)

theorem fst_bind (x : Counted β) (f : β → Counted γ) :
    (x.bind f).1 = x.1.bind fun b => (f b).1 := by
  obtain ⟨_ | b, n⟩ := x <;> rfl

end Counted

/-- From `pos` on in a text of the given length, a success passes at least as many places
as there were calls, and a failure has made at most one call too many. -/
structure Frugal (length pos : ℕ) (x : Counted ℕ) : Prop where
  success : ∀ stop, x.1 = some stop → pos + x.2 ≤ stop ∧ stop ≤ length
  total : pos + x.2 ≤ length + 1

namespace Frugal

variable {length : ℕ} {x : Counted ℕ}

theorem pure (h : pos ≤ length) : Frugal length pos (.pure pos) where
  success := by
    rintro _ ⟨⟩
    exact ⟨Nat.le_refl _, h⟩
  total := Nat.le_succ_of_le h

theorem fail (h : pos ≤ length) : Frugal length pos .fail where
  success := by
    rintro _ ⟨⟩
  total := Nat.le_succ_of_le h

theorem bind {f : ℕ → Counted ℕ} (hx : Frugal length pos x)
    (hf : ∀ mid ≤ length, Frugal length mid (f mid)) : Frugal length pos (x.bind f) := by
  obtain ⟨_ | mid, calls⟩ := x
  · exact ⟨fun _ h => by contradiction, hx.total⟩
  · obtain ⟨hpos, hmid⟩ := hx.success mid rfl
    have hnext := hf mid hmid
    refine ⟨fun stop hstop => ?_, ?_⟩
    · obtain ⟨hlow, hhigh⟩ := hnext.success stop hstop
      change pos + (calls + (f mid).2) ≤ stop ∧ stop ≤ length
      omega
    · have htotal := hnext.total
      change pos + (calls + (f mid).2) ≤ length + 1
      omega

theorem tick {mid : ℕ} (hmid : pos < mid) (h : Frugal length mid x) : Frugal length pos x.tick where
  success := by
    intro stop hstop
    obtain ⟨hlow, hhigh⟩ := h.success stop hstop
    change pos + (x.2 + 1) ≤ stop ∧ stop ≤ length
    omega
  total := by
    have htotal := h.total
    change pos + (x.2 + 1) ≤ length + 1
    omega

theorem tick_fail (h : pos ≤ length) : Frugal length pos (Counted.tick .fail) where
  success := by
    rintro _ ⟨⟩
  total := Nat.succ_le_succ h

end Frugal

end SoftwareAuthenticator
