import SoftwareAuthenticator.Ctap.Silent

/-!
# Retry accounting of the PIN check

The order of what the subcommands that check the PIN write, compare and grant is stated on the
operations of an execution: every one is accounted for by those before it.
-/

namespace SoftwareAuthenticator.Ctap

variable {past w : Trace} {e : env.Event}

def PinStateRecord.debited (record : PinStateRecord) : PinStateRecord :=
  { record with pinRetries := record.pinRetries - 1 }

def PinStateRecord.restored (record : PinStateRecord) : PinStateRecord :=
  { record with pinRetries := maxPinRetries }

def CommitDurability.isConfirmed : CommitDurability → Bool
  | .unconfirmed => false
  | .flushed | .volatile => true

def pinWrite (record : PinStateRecord) (answer : Except StoreError CommitDurability) : env.Event :=
  ⟨.store (.setPinState record), answer⟩

/-- An attempt began with the live state `live`, and the record with one retry less was
written and confirmed. -/
def Debited (past : Trace) (live : PinStateRecord) : Prop :=
  ∃ before between durability after,
    past = before ++ mark (.attempt live) :: (between ++
      pinWrite live.debited (.ok durability) :: after) ∧
    durability.isConfirmed = true ∧ 0 < live.pinRetries

/-- After the debit the candidate matched, and the record with all retries was written
and confirmed. -/
def Restored (past : Trace) (live : PinStateRecord) : Prop :=
  ∃ before candidate between durability after,
    past = before ++ mark (.comparison live.pinHash candidate) :: (between ++
      pinWrite live.restored (.ok durability) :: after) ∧
    Debited before live ∧ pinMatches live.pinHash candidate = true ∧
    durability.isConfirmed = true

/-- `record` grants a persistent token that `live` does not have granted. -/
def GrantsToken (live record : PinStateRecord) : Prop :=
  ∃ token ∈ record.persistentTokens.toList,
    token.granted = true ∧ token ∉ live.persistentTokens.toList

/-- A PIN-state write of an attempt that began with `live`: it keeps the PIN and the
persistent tokens, or it comes after the restored counter. -/
def WriteAccounted (past : Trace) (live record : PinStateRecord) : Prop :=
  mark (.attempt live) ∈ past ∧
    ((record.pinHash = live.pinHash ∧ record.persistentTokens = live.persistentTokens) ∨
      (Restored past live ∧ (GrantsToken live record → live.forcePinChange = false)))

structure EventAccounted (past : Trace) (e : env.Event) : Prop where
  decryption : e = mark .decryption → ∃ live, Debited past live
  comparison : ∀ stored candidate, e = mark (.comparison stored candidate) →
    ∃ live, Debited past live ∧ stored = live.pinHash
  issuance : ∀ id, e = mark (.token id) →
    ∃ live, Restored past live ∧ live.forcePinChange = false
  write : ∀ record answer, e = pinWrite record answer → ∃ live, WriteAccounted past live record

def Accounted : Trace → Prop := EachAfter EventAccounted

variable {live : PinStateRecord}

theorem Debited.append (h : Debited past live) (more : Trace) : Debited (past ++ more) live := by
  obtain ⟨before, between, durability, after, rfl, hd⟩ := h
  exact ⟨before, between, durability, after ++ more, by simp, hd⟩

theorem Restored.append (h : Restored past live) (more : Trace) : Restored (past ++ more) live := by
  obtain ⟨before, candidate, between, durability, after, rfl, hd⟩ := h
  exact ⟨before, candidate, between, durability, after ++ more, by simp, hd⟩

theorem Debited.attempt_mem (h : Debited past live) : mark (.attempt live) ∈ past := by
  obtain ⟨before, between, durability, after, rfl, -⟩ := h
  simp

theorem eventAccounted_of_isSilent (past : Trace) (h : EnvOp.isSilent e.op = true) :
    EventAccounted past e where
  decryption := by
    rintro rfl
    exact absurd h Bool.false_ne_true
  comparison := by
    rintro stored candidate rfl
    exact absurd h Bool.false_ne_true
  issuance := by
    rintro id rfl
    exact absurd h Bool.false_ne_true
  write := by
    rintro record answer rfl
    exact absurd h Bool.false_ne_true

theorem eventAccounted_pinWrite {record : PinStateRecord}
    {answer : Except StoreError CommitDurability} (h : WriteAccounted past live record) :
    EventAccounted past (pinWrite record answer) := by
  refine ⟨by rintro ⟨⟩, by rintro _ _ ⟨⟩, by rintro _ ⟨⟩, fun record' answer' he => ?_⟩
  cases he
  exact ⟨live, h⟩

theorem eventAccounted_decryption (h : Debited past live) :
    EventAccounted past (mark .decryption) :=
  ⟨fun _ => ⟨live, h⟩, by rintro _ _ ⟨⟩, by rintro _ ⟨⟩, by rintro _ _ ⟨⟩⟩

theorem eventAccounted_comparison {candidate : Option Bytes} (h : Debited past live) :
    EventAccounted past (mark (.comparison live.pinHash candidate)) := by
  refine ⟨by rintro ⟨⟩, fun stored candidate' he => ?_, by rintro _ ⟨⟩, by rintro _ _ ⟨⟩⟩
  cases he
  exact ⟨live, h, rfl⟩

theorem eventAccounted_token {id : UInt64} (h : Restored past live)
    (hforce : live.forcePinChange = false) : EventAccounted past (mark (.token id)) :=
  ⟨by rintro ⟨⟩, by rintro _ _ ⟨⟩, fun _ _ => ⟨live, h, hforce⟩, by rintro _ _ ⟨⟩⟩

theorem eventAccounted_attempt (past : Trace) (live : PinStateRecord) :
    EventAccounted past (mark (.attempt live)) :=
  ⟨by rintro ⟨⟩, by rintro _ _ ⟨⟩, by rintro _ ⟨⟩, by rintro _ _ ⟨⟩⟩

theorem eventAccounted_newPin (past : Trace) (pin : Bytes) :
    EventAccounted past (mark (.newPin pin)) :=
  ⟨by rintro ⟨⟩, by rintro _ _ ⟨⟩, by rintro _ ⟨⟩, by rintro _ _ ⟨⟩⟩

def Fresh (w : Trace) : Prop := ∀ e ∈ w, EnvOp.isSilent e.op = true

def Begun (live : PinStateRecord) (w : Trace) : Prop :=
  ∃ before after, w = before ++ mark (.attempt live) :: after ∧ Fresh before ∧ Fresh after

/-- Every PIN-state write that failed came after a decryption. -/
def FailuresDecrypted : Trace → Prop :=
  EachAfter fun past e => ∀ record err, e = pinWrite record (.error err) → mark .decryption ∈ past

structure Paid (live : PinStateRecord) (w : Trace) : Prop where
  accounted : Accounted w
  debited : Debited w live
  failures : FailuresDecrypted w

structure Opened (live : PinStateRecord) (w : Trace) : Prop extends Paid live w where
  decrypted : mark .decryption ∈ w

structure Cleared (live : PinStateRecord) (w : Trace) : Prop extends Opened live w where
  restored : Restored w live

/-- If the debit could not be written, its write was the last operation and the first PIN-state
write, and the live state is the one the attempt began with. -/
def Refused (app : CtapApp) (w : Trace) : Prop :=
  Accounted w ∧ ∀ past record err post, w = past ++ pinWrite record (.error err) :: post →
    mark .decryption ∉ past →
    post = [] ∧ (∀ record' answer, pinWrite record' answer ∉ past) ∧
      mark (.attempt app.pinState.persistent) ∈ past ∧ record = app.pinState.persistent.debited

theorem Fresh.concat (h : Fresh w) (he : EnvOp.isSilent e.op = true) : Fresh (w ++ [e]) := by
  intro x hx
  rcases List.mem_append.mp hx with hx | hx
  · exact h x hx
  · rw [List.mem_singleton.mp hx]
    exact he

theorem Fresh.pinWrite_notMem (h : Fresh w) (record : PinStateRecord)
    (answer : Except StoreError CommitDurability) : pinWrite record answer ∉ w :=
  fun hmem => absurd (h _ hmem) Bool.false_ne_true

theorem Fresh.accounted (h : Fresh w) : Accounted w := by
  rintro past e post rfl
  exact eventAccounted_of_isSilent past (h e (by simp))

theorem Fresh.begun (h : Fresh w) (live : PinStateRecord) :
    Begun live (w ++ [mark (.attempt live)]) :=
  ⟨w, [], rfl, h, fun _ he => absurd he List.not_mem_nil⟩

theorem Begun.concat (h : Begun live w) (he : EnvOp.isSilent e.op = true) :
    Begun live (w ++ [e]) := by
  obtain ⟨before, after, rfl, hb, ha⟩ := h
  exact ⟨before, after ++ [e], by simp, hb, ha.concat he⟩

theorem Begun.attempt_mem (h : Begun live w) : mark (.attempt live) ∈ w := by
  obtain ⟨before, after, rfl, -⟩ := h
  simp

theorem Begun.pinWrite_notMem (h : Begun live w) (record : PinStateRecord)
    (answer : Except StoreError CommitDurability) : pinWrite record answer ∉ w := by
  obtain ⟨before, after, rfl, hb, ha⟩ := h
  intro hmem
  rcases List.mem_append.mp hmem with hmem | hmem
  · exact hb.pinWrite_notMem _ _ hmem
  · rcases List.mem_cons.mp hmem with hmem | hmem
    · cases hmem
    · exact ha.pinWrite_notMem _ _ hmem

theorem Begun.accounted (h : Begun live w) : Accounted w := by
  obtain ⟨before, after, rfl, hb, ha⟩ := h
  intro past e post heq
  have he : e ∈ before ++ mark (.attempt live) :: after := by
    rw [heq]
    simp
  rcases List.mem_append.mp he with he | he
  · exact eventAccounted_of_isSilent past (hb e he)
  · rcases List.mem_cons.mp he with rfl | he
    · exact eventAccounted_attempt past live
    · exact eventAccounted_of_isSilent past (ha e he)

theorem FailuresDecrypted.concat (h : FailuresDecrypted w)
    (he : ∀ record err, e = pinWrite record (.error err) → mark .decryption ∈ w) :
    FailuresDecrypted (w ++ [e]) :=
  eachAfter_concat.mpr ⟨h, he⟩

/-- Once something was decrypted, every accounted event keeps what was achieved. -/
theorem Opened.concat (h : Opened live w) (he : EventAccounted w e) : Opened live (w ++ [e]) where
  accounted := eachAfter_concat.mpr ⟨h.accounted, he⟩
  debited := h.debited.append _
  failures := h.failures.concat fun _ _ _ => h.decrypted
  decrypted := List.mem_append_left _ h.decrypted

theorem Cleared.concat (h : Cleared live w) (he : EventAccounted w e) :
    Cleared live (w ++ [e]) where
  toOpened := h.toOpened.concat he
  restored := h.restored.append _

/-- A command that fails without a failed debit needs no further account. -/
theorem refused_of_failures {app : CtapApp} (h : Accounted w) (hf : FailuresDecrypted w) :
    Refused app w :=
  ⟨h, fun past record err post hw hpast =>
    absurd (hf past _ post hw record err rfl) hpast⟩

theorem refused_of_notMem {app : CtapApp} (h : Accounted w)
    (hw : ∀ record answer, pinWrite record answer ∉ w) : Refused app w := by
  refine refused_of_failures h ?_
  rintro past e post rfl record err rfl
  exact absurd (by simp) (hw record (.error err))

end SoftwareAuthenticator.Ctap
