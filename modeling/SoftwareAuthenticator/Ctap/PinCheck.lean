import SoftwareAuthenticator.Ctap.RetryAccounting
import SoftwareAuthenticator.Ctap.MemoryStore

/-!
# No effect of a PIN without confirmed retry accounting

The first half of the check pays for the attempt, the second clears it, and what follows finds a
cleared attempt.
-/

namespace SoftwareAuthenticator.Ctap

open Cmd

variable {live : PinStateRecord} {w : Trace} {pin completed : PinRetryState}
  {candidate : Option Bytes}

abbrev ledger : Observer env Trace := .history Accounted

theorem savePinState_triple {pre : CtapApp → Trace → Prop}
    {ok : CommitDurability → CtapApp → Trace → Prop} {failed : CtapApp → Trace → Prop}
    {record : PinStateRecord}
    (hwrite : ∀ app w answer, pre app w → EventAccounted w (pinWrite record answer))
    (hsafe : ∀ app w, pre app w → Accounted w)
    (hok : ∀ app w d, pre app w → ok d app (w ++ [pinWrite record (.ok d)]))
    (herr : ∀ app w err, pre app w → failed app (w ++ [pinWrite record (.error err)]))
    (hrefuse : ∀ app w, pre app w → failed app w) :
    Triple ledger pre (savePinState record) (either ok failed) := by
  have hnext : ∀ app w answer, pre app w → Accounted (w ++ [pinWrite record answer]) :=
    fun app w answer hw => eachAfter_concat.mpr ⟨hsafe app w hw, hwrite app w answer hw⟩
  exact savePinState_rule (fun app w d hw _ _ => ⟨hnext app w (.ok d) hw, hok app w d hw⟩)
    (fun app w err hw _ _ => ⟨hnext app w (.error err) hw, herr app w err hw⟩)
    fun app w hw _ => hrefuse app w hw

theorem Begun.debit (h : Begun live w) (answer : Except StoreError CommitDurability) :
    EventAccounted w (pinWrite live.debited answer) :=
  eventAccounted_pinWrite ⟨h.attempt_mem, Or.inl ⟨rfl, rfl⟩⟩

theorem Begun.failures (h : Begun live w) : FailuresDecrypted w := by
  rintro past e post rfl record err rfl
  exact absurd (by simp) (h.pinWrite_notMem record (.error err))

theorem Begun.published (h : Begun live w) (d : CommitDurability) :
    Accounted (w ++ [pinWrite live.debited (.ok d)]) ∧
      FailuresDecrypted (w ++ [pinWrite live.debited (.ok d)]) :=
  ⟨eachAfter_concat.mpr ⟨h.accounted, h.debit _⟩,
    h.failures.concat fun _ _ he => by cases he⟩

theorem Begun.paid (h : Begun live w) (hlive : 0 < live.pinRetries) {d : CommitDurability}
    (hd : d.isConfirmed = true) :
    Paid live (w ++ [pinWrite live.debited (.ok d)]) where
  accounted := (h.published d).1
  debited := by
    obtain ⟨before, after, rfl, -⟩ := h
    exact ⟨before, after, d, [], by simp, hd, hlive⟩
  failures := (h.published d).2

theorem Begun.refused (h : Begun live w) {app : CtapApp} (happ : app.pinState.persistent = live)
    (err : StoreError) : Refused app (w ++ [pinWrite live.debited (.error err)]) := by
  refine ⟨eachAfter_concat.mpr ⟨h.accounted, h.debit _⟩, ?_⟩
  intro past record err' post hw hpast
  rcases List.eq_nil_or_concat post with rfl | ⟨post, y, rfl⟩
  · obtain ⟨rfl, he⟩ := List.append_inj' hw rfl
    cases he
    exact ⟨rfl, h.pinWrite_notMem, by rw [happ]; exact h.attempt_mem, by rw [happ]⟩
  · rw [List.concat_eq_append, ← List.cons_append, ← List.append_assoc] at hw
    obtain ⟨rfl, -⟩ := List.append_inj' hw rfl
    exact absurd (by simp) (h.pinWrite_notMem record (.error err'))

theorem requireConfirmedRetry_triple {pre : CtapApp → Trace → Prop}
    {ok failed : CtapApp → Trace → Prop} (d : CommitDurability)
    (hok : d.isConfirmed = true → ∀ app w, pre app w → ok app w)
    (hfailed : d.isConfirmed = false → ∀ app w, pre app w → failed app w) :
    Triple ledger pre (requireConfirmedRetry d) (either (fun _ => ok) failed) := by
  cases d with
  | unconfirmed => exact triple_fail (hfailed rfl)
  | flushed | volatile => exact triple_pure (hok rfl)

theorem writeDebit_triple {debited : PinRetryState}
    (hdebited : debited.persistent = pin.persistent.debited)
    (hretries : 0 < pin.persistent.pinRetries) :
    Triple ledger (fun app w => app.pinState.pin = pin ∧ Begun pin.persistent w)
      (do
        let durability ← savePinState debited.persistent
        adoptRetryState debited
        requireConfirmedRetry durability)
      (either (fun _ app w => ∃ live, Paid live w ∧ app.pinState.persistent = live.debited)
        Refused) := by
  refine Triple.andThen (M := fun d _ w => ∃ past, Begun pin.persistent past ∧
    w = past ++ [pinWrite pin.persistent.debited (.ok d)]) ?_ fun d => Triple.andThen
    (M := fun _ app w => (∃ past, Begun pin.persistent past ∧
      w = past ++ [pinWrite pin.persistent.debited (.ok d)]) ∧
      app.pinState.persistent = pin.persistent.debited) ?_ fun _ => ?_
  · rw [hdebited]
    apply savePinState_triple
    · exact fun app w answer hw => hw.2.debit answer
    · exact fun app w hw => hw.2.accounted
    · exact fun app w d hw => ⟨w, hw.2, rfl⟩
    · exact fun app w err hw => hw.2.refused (congrArg PinRetryState.persistent hw.1) err
    · exact fun app w hw => refused_of_notMem hw.2.accounted hw.2.pinWrite_notMem
  · exact triple_modify fun app w hw => ⟨hw, hdebited⟩
  · apply requireConfirmedRetry_triple
    · rintro hd app w ⟨⟨past, hpast, rfl⟩, happ⟩
      exact ⟨_, hpast.paid hretries hd, happ⟩
    · rintro - app w ⟨⟨past, hpast, rfl⟩, -⟩
      exact refused_of_failures (hpast.published d).1 (hpast.published d).2

theorem debitRetry_triple :
    Triple ledger (fun _ w => Fresh w) debitRetry
      (either (fun _ app w => ∃ live, Paid live w ∧ app.pinState.persistent = live.debited)
        Refused) := by
  refine triple_gets_bind fun pin => Triple.andThen
    (M := fun _ app w => app.pinState.pin = pin ∧ Begun pin.persistent w) ?_ fun _ =>
    triple_ofExcept_bind ?_ fun debited hbegin => ?_
  · refine triple_ask fun app w r hw _ => ?_
    have hbegun := hw.2.begun pin.persistent
    exact ⟨hbegun.accounted, hw.1, hbegun⟩
  · intro status _ app w hw
    exact refused_of_notMem hw.2.accounted hw.2.pinWrite_notMem
  · obtain ⟨-, hretries, -, rfl⟩ := beginAttempt_cases hbegin
    have flush := (plain_unsupportedDirectoryFlush (ε := Status)).keeps_past
      (P := fun a w => a.pin = pin ∧ Begun pin.persistent w) (S := Accounted)
      (fun a w hw => hw.2.accounted) fun a w e he hw => ⟨hw.1, hw.2.concat he⟩
    have refuse : ∀ (app : CtapApp) w, (app.pinState.pin = pin ∧ Begun pin.persistent w) →
        Refused app w := fun app w hw => refused_of_notMem hw.2.accounted hw.2.pinWrite_notMem
    refine flush.bind (fun unsupported => ?_) fun e app w hw => refuse app w hw
    split
    · exact triple_fail refuse
    · exact writeDebit_triple rfl (Nat.pos_of_ne_zero hretries)

theorem Opened.write {record : PinStateRecord} (h : Opened live w)
    (hhash : record.pinHash = live.pinHash)
    (htokens : record.persistentTokens = live.persistentTokens)
    (answer : Except StoreError CommitDurability) : EventAccounted w (pinWrite record answer) :=
  eventAccounted_pinWrite ⟨h.debited.attempt_mem, Or.inl ⟨hhash, htokens⟩⟩

theorem Opened.writeDebited (h : Opened live w) (answer : Except StoreError CommitDurability) :
    EventAccounted w (pinWrite live.debited answer) := by
  apply h.write <;> rfl

theorem Opened.writeRestored (h : Opened live w) (answer : Except StoreError CommitDurability) :
    EventAccounted w (pinWrite live.restored answer) := by
  apply h.write <;> rfl

theorem Opened.refused (h : Opened live w) (app : CtapApp) : Refused app w :=
  refused_of_failures h.accounted h.failures

def Judged (live : PinStateRecord) (candidate : Option Bytes) (w : Trace) : Prop :=
  ∃ past, w = past ++ [mark (.comparison live.pinHash candidate)] ∧ Opened live past

theorem Judged.opened (h : Judged live candidate w) : Opened live w := by
  obtain ⟨past, rfl, hpast⟩ := h
  exact hpast.concat (eventAccounted_comparison hpast.debited)

theorem Judged.cleared (h : Judged live candidate w)
    (hmatch : pinMatches live.pinHash candidate = true) {d : CommitDurability}
    (hd : d.isConfirmed = true) :
    Cleared live (w ++ [pinWrite live.restored (.ok d)]) where
  toOpened := h.opened.concat (h.opened.writeRestored _)
  restored := by
    obtain ⟨past, rfl, hpast⟩ := h
    exact ⟨past, candidate, [], d, [], by simp, hpast.debited, hmatch, hd⟩

abbrev Ready (live : PinStateRecord) (app : CtapApp) (w : Trace) : Prop :=
  app.pinState.persistent = live.restored ∧ Cleared live w

/-- What is done about a mismatch keeps the account and ends in a failure. -/
theorem mismatch_triple (hcompleted : completed.persistent = live.debited)
    (protocol : PinProtocol) (status : Status) :
    Triple ledger (fun _ w => Opened live w)
      (do
        adoptRetryState completed
        modifyPinState fun state =>
          { state with keyAgreement := state.keyAgreement.regenerate protocol }
        requireConfirmedRetry (← savePersistentPinState)
        (Cmd.fail status : EngineM Status Unit))
      (either (fun _ => Ready live) Refused) := by
  refine Triple.andThen
    (M := fun _ app w => app.pinState.persistent = live.debited ∧ Opened live w)
    ?_ fun _ => Triple.andThen
    (M := fun _ app w => app.pinState.persistent = live.debited ∧ Opened live w)
    ?_ fun _ => Triple.andThen
    (M := fun _ _ w => Opened live w) ?_ fun d => Triple.andThen
    (M := fun _ _ w => Opened live w) ?_ fun _ => triple_fail fun app w hw => hw.refused app
  · exact triple_modify fun app w hw => ⟨hcompleted, hw⟩
  · exact triple_modify fun app w hw => hw
  · refine triple_gets_bind fun persistent => Triple.weaken
      (P := fun _ w => persistent = live.debited ∧ Opened live w) (Triple.of_pre ?_)
      fun app w hw => ⟨hw.1.symm.trans hw.2.1, hw.2.2⟩
    rintro rfl
    apply savePinState_triple
    · exact fun app w answer hw => hw.writeDebited answer
    · exact fun app w hw => hw.accounted
    · exact fun app w d hw => hw.concat (hw.writeDebited _)
    · exact fun app w err hw => (hw.concat (hw.writeDebited _)).refused app
    · exact fun app w hw => hw.refused app
  · apply requireConfirmedRetry_triple
    · exact fun _ app w hw => hw
    · exact fun _ app w hw => hw.refused app

/-- What is done about a match clears the attempt, if its write is confirmed. -/
theorem match_triple (hcompleted : completed.persistent = live.restored)
    (hmatch : pinMatches live.pinHash candidate = true) :
    Triple ledger (fun _ w => Judged live candidate w)
      (do
        let durability ← savePinState completed.persistent
        adoptRetryState completed
        requireConfirmedRetry durability)
      (either (fun _ => Ready live) Refused) := by
  refine Triple.andThen (M := fun d _ w => ∃ past, Judged live candidate past ∧
    w = past ++ [pinWrite live.restored (.ok d)]) ?_ fun d => Triple.andThen
    (M := fun _ app w => (∃ past, Judged live candidate past ∧
      w = past ++ [pinWrite live.restored (.ok d)]) ∧
      app.pinState.persistent = live.restored) ?_ fun _ => ?_
  · rw [hcompleted]
    apply savePinState_triple
    · exact fun app w answer hw => hw.opened.writeRestored answer
    · exact fun app w hw => hw.opened.accounted
    · exact fun app w d hw => ⟨w, hw, rfl⟩
    · exact fun app w err hw => (hw.opened.concat (hw.opened.writeRestored _)).refused app
    · exact fun app w hw => hw.opened.refused app
  · exact triple_modify fun app w hw => ⟨hw, hcompleted⟩
  · apply requireConfirmedRetry_triple
    · rintro hd app w ⟨⟨past, hpast, rfl⟩, happ⟩
      exact ⟨happ, hpast.cleared hmatch hd⟩
    · rintro - app w ⟨⟨past, hpast, rfl⟩, -⟩
      exact (hpast.opened.concat (hpast.opened.writeRestored _)).refused app

section Checks

variable {α : Type}

theorem Silent.fresh_triple {ε : Type} {c : EngineM ε α} (hc : Silent c) :
    Triple ledger (fun _ w => Fresh w) c (either (fun _ _ w => Fresh w) Refused) := by
  refine (hc.keeps_past (S := Accounted) (fun w hw => hw.accounted)
    fun w e he hw => hw.concat he).outcome (fun _ _ _ hw => hw) fun _ _ _ hw => ?_
  exact refused_of_notMem hw.accounted hw.pinWrite_notMem

theorem PlainIn.cleared_triple {ε : Type} {scope : Scope} {c : EngineM ε α} (hc : PlainIn scope c)
    (live record : PinStateRecord) :
    Triple ledger (fun app w => app.pinState.persistent = record ∧ Cleared live w) c
      (either (fun _ app w => app.pinState.persistent = record ∧ Cleared live w) Refused) := by
  refine (hc.keeps_past (P := fun a w => a.pin.persistent = record ∧ Cleared live w)
    (S := Accounted) (fun a w hw => hw.2.accounted) fun a w e he hw =>
      ⟨hw.1, hw.2.concat (eventAccounted_of_isSilent w he)⟩).outcome (fun _ _ _ hw => hw) ?_
  exact fun e app w hw => hw.2.refused app

theorem not_grantsToken {live record : PinStateRecord}
    (h : record.persistentTokens = live.persistentTokens ∨
      ∀ token ∈ record.persistentTokens.toList, token.granted = false) :
    ¬ GrantsToken live record := by
  rintro ⟨token, hmem, hgranted, hnew⟩
  rcases h with h | h
  · exact hnew (h ▸ hmem)
  · exact absurd hgranted (by simp [h token hmem])

theorem rotatePersistentTokensIf_triple (live record : PinStateRecord) (rotate : Bool)
    (persistent : PinStateRecord) :
    Triple ledger (fun app w => app.pinState.persistent = record ∧ Cleared live w)
      (rotatePersistentTokensIf rotate persistent)
      (either (fun rotated _ w => (rotated.persistentTokens = persistent.persistentTokens ∨
        ∀ token ∈ rotated.persistentTokens.toList, token.granted = false) ∧ Cleared live w)
        Refused) := by
  cases rotate with
  | false => exact triple_pure fun app w hw => ⟨Or.inl rfl, hw.2⟩
  | true =>
    refine ((plain_freshTokenSecret _ _).cleared_triple live record).andThen fun first =>
      ((plain_freshTokenSecret _ _).cleared_triple live record).andThen fun second => ?_
    refine triple_pure fun app w hw => ⟨Or.inr ?_, hw.2⟩
    simp [PersistentTokens.toList]

theorem save_cleared {live record : PinStateRecord}
    (hwrite : ∀ w answer, Cleared live w → EventAccounted w (pinWrite record answer)) :
    Triple ledger (fun _ w => Cleared live w) (savePinState record)
      (either (fun _ _ w => Cleared live w) Refused) := by
  apply savePinState_triple
  · exact fun app w answer hw => hwrite w answer hw
  · exact fun app w hw => hw.accounted
  · exact fun app w d hw => hw.concat (hwrite w _ hw)
  · exact fun app w err hw => (hw.concat (hwrite w _ hw)).refused app
  · exact fun app w hw => hw.refused app

variable (live : PinStateRecord)

theorem storeNewPin_triple (pin hash : Bytes) (length : ℕ) :
    Triple ledger (Ready live)
      (storeNewPin pin hash length) (either (fun _ _ w => Cleared live w) Refused) := by
  refine triple_gets_bind fun state => Triple.weaken
    (P := fun app w => state.persistent = live.restored ∧ Ready live app w)
    (Triple.of_pre fun hstate => ?_) fun app w hw => ⟨hw.1 ▸ hw.2.1, hw.2⟩
  refine (rotatePersistentTokensIf_triple live live.restored state.isSet _).andThen fun rotated =>
    Triple.of_pre fun htokens => ?_
  have hwrite : ∀ w answer, Cleared live w → EventAccounted w (pinWrite rotated answer) := by
    intro w answer hw
    refine eventAccounted_pinWrite ⟨hw.debited.attempt_mem, Or.inr ⟨hw.restored, fun hgrants => ?_⟩⟩
    refine absurd hgrants (not_grantsToken ?_)
    rw [hstate] at htokens
    exact htokens
  refine Triple.andThen (M := fun _ _ w => Cleared live w) ?_ fun _ =>
    Triple.andThen (M := fun _ _ w => Cleared live w) ?_ fun _ => ?_
  · refine triple_ask fun app w r hw _ => ?_
    have hcleared := hw.concat (eventAccounted_newPin w pin)
    exact ⟨hcleared.accounted, hcleared⟩
  · exact save_cleared hwrite
  · exact Triple.andThen (M := fun _ _ w => Cleared live w)
      (triple_modify fun app w hw => hw) fun _ => triple_modify fun app w hw => hw

def TokenEarned (app : CtapApp) (w : Trace) : Prop :=
  ∃ live, Cleared live w ∧ live.forcePinChange = false ∧
    app.pinState.persistent.forcePinChange = false

theorem TokenEarned.refused {app : CtapApp} {w : Trace} (h : TokenEarned app w) :
    Refused app w := by
  obtain ⟨live, hcleared, -⟩ := h
  exact hcleared.refused app

/-- Checks of the request and the live state come before anything is written. -/
theorem fresh_ofExcept_bind {β : Type} {x : Except Status α} {f : α → EngineM Status β}
    {ok : β → CtapApp → Trace → Prop}
    (hf : ∀ a, x = .ok a → Triple ledger (fun _ w => Fresh w) (f a) (either ok Refused)) :
    Triple ledger (fun _ w => Fresh w) (Cmd.ofExcept x >>= f) (either ok Refused) :=
  triple_ofExcept_bind
    (fun _ _ _ _ hw => refused_of_notMem hw.accounted hw.pinWrite_notMem) hf

variable [Externals]

/-- The second half: it succeeds only with a match and a confirmed restored counter. -/
theorem compareCandidate_triple (protocol : PinProtocol) (keys : PinUvSessionKeys)
    (pinHashEnc : Bytes) :
    Triple ledger (fun app w => Paid live w ∧ app.pinState.persistent = live.debited)
      (compareCandidate protocol keys pinHashEnc)
      (either (fun _ => Ready live) Refused) := by
  refine Triple.andThen
    (M := fun _ app w => Opened live w ∧ app.pinState.persistent = live.debited) ?_ fun _ =>
    triple_gets_bind fun pin => Triple.weaken
      (P := fun _ w => pin.persistent = live.debited ∧ Opened live w)
      (Triple.of_pre fun hpin => ?_) fun app w hw => ⟨hw.1 ▸ hw.2.2, hw.2.1⟩
  · refine triple_ask fun app w r hw _ => ?_
    have hopened : Opened live (w ++ [mark .decryption]) :=
      { accounted := eachAfter_concat.mpr
          ⟨hw.1.accounted, eventAccounted_decryption hw.1.debited⟩
        debited := hw.1.debited.append _
        failures := hw.1.failures.concat fun _ _ he => by cases he
        decrypted := by simp }
    exact ⟨hopened.accounted, hopened, hw.2⟩
  · have hhash : pin.persistent.pinHash = live.pinHash := by rw [hpin]; rfl
    rw [hhash]
    refine Triple.andThen
      (M := fun _ _ w => Judged live (decrypt protocol keys pinHashEnc) w) ?_ fun _ => ?_
    · refine triple_ask fun app w r hw _ => ?_
      have hjudged : Judged live (decrypt protocol keys pinHashEnc)
          (w ++ [mark (.comparison live.pinHash (decrypt protocol keys pinHashEnc))]) :=
        ⟨w, rfl, hw⟩
      exact ⟨hjudged.opened.accounted, hjudged⟩
    · cases hmatch : pinMatches pin.persistent.pinHash (decrypt protocol keys pinHashEnc) with
      | true =>
        rw [finishAttempt_right hmatch]
        exact match_triple (by rw [hpin]; rfl) (hhash ▸ hmatch)
      | false =>
        obtain ⟨status, hwrong⟩ := finishAttempt_wrong hmatch
        rw [hwrong]
        exact Triple.weaken (mismatch_triple (by exact hpin) protocol status)
          fun app w hw => hw.opened

variable (protocol : PinProtocol)

theorem verifyPinHashEnc_triple (keys : PinUvSessionKeys) (pinHashEnc : Bytes) :
    Triple ledger (fun _ w => Fresh w) (verifyPinHashEnc protocol keys pinHashEnc)
      (either (fun _ app w => ∃ live, Ready live app w) Refused) := by
  refine (pinWork_refreshPersistentAuthority false).silent.fresh_triple.andThen fun _ =>
    debitRetry_triple.andThen fun _ => Triple.exists_pre fun live => ?_
  exact (compareCandidate_triple live protocol keys pinHashEnc).outcome
    (fun _ app w hw => ⟨live, hw⟩) fun _ _ _ hw => hw

abbrev Granting (live : PinStateRecord) (app : CtapApp) (w : Trace) : Prop :=
  app.pinState.persistent.forcePinChange = false ∧ Cleared live w

theorem grantPersistentToken_triple (hforce : live.forcePinChange = false) (protocol : PinProtocol)
    (keys : PinUvSessionKeys) :
    Triple ledger (Ready live)
      (grantPersistentToken protocol keys)
      (either (fun _ => Granting live) Refused) := by
  refine triple_gets_bind fun persistent => Triple.weaken
    (P := fun app w => persistent = live.restored ∧ Ready live app w)
    (Triple.of_pre ?_) fun app w hw => ⟨hw.1.symm.trans hw.2.1, hw.2⟩
  rintro rfl
  refine ((plain_persistentTokenFor _ _).cleared_triple live _).andThen fun token =>
    ((plain_encryptForPlatform _ _ _).cleared_triple live _).andThen fun encrypted => ?_
  have hwrite : ∀ w record answer, Cleared live w → EventAccounted w (pinWrite record answer) :=
    fun w record answer hw => eventAccounted_pinWrite
      ⟨hw.debited.attempt_mem, Or.inr ⟨hw.restored, fun _ => hforce⟩⟩
  refine Triple.andThen (M := fun _ _ w => Cleared live w) ?_ fun d =>
    Triple.andThen (M := fun _ => Granting live) ?_ fun _ =>
    Triple.andThen (M := fun _ => Granting live) ?_ fun _ =>
    Triple.andThen (M := fun _ => Granting live) ?_ fun _ => ?_
  · exact (save_cleared fun w answer hw => hwrite w _ answer hw).weaken fun app w hw => hw.2
  · exact triple_modify fun app w hw => ⟨hforce, hw⟩
  · exact triple_modify fun app w hw => hw
  · apply requireConfirmedRetry_triple
    · exact fun _ app w hw => hw
    · exact fun _ app w hw => hw.2.refused app
  · exact triple_pure fun app w hw => hw

theorem issueTransientToken_triple (hforce : live.forcePinChange = false) (protocol : PinProtocol)
    (keys : PinUvSessionKeys) (grant : TokenGrant) :
    Triple ledger (Ready live)
      (issueTransientToken protocol keys grant)
      (either (fun _ => Granting live) Refused) := by
  refine triple_gets_bind fun tokens => Triple.weaken
    (P := Ready live) ?_ fun app w hw => hw.2
  refine ((plain_freshTokenSecret _ _).cleared_triple live _).andThen fun token =>
    ((plain_encryptForPlatform _ _ _).cleared_triple live _).andThen fun encrypted => ?_
  refine Triple.andThen (M := fun _ => Ready live) ?_ fun _ =>
    (plain_clearCredMgmt.cleared_triple live live.restored).andThen fun _ => ?_
  · refine triple_gets_bind fun issued => Triple.andThen (M := fun _ => Ready live) ?_ fun _ =>
      (plain_now.cleared_triple live live.restored).andThen fun _ => ?_
    · refine triple_ask fun app w r hw _ => ?_
      have hcleared := hw.2.2.concat (e := mark (.token (issued + 1)))
        (eventAccounted_token hw.2.2.restored hforce)
      exact ⟨hcleared.accounted, hw.2.1, hcleared⟩
    · exact triple_modify fun app w hw => hw
  · refine triple_pure fun app w hw => ⟨?_, hw.2⟩
    rw [hw.1]
    exact hforce

theorem grantToken_triple (hforce : live.forcePinChange = false) (protocol : PinProtocol)
    (keys : PinUvSessionKeys) (grant : TokenGrant) :
    Triple ledger (Ready live)
      (grantToken protocol keys grant)
      (either (fun _ => Granting live) Refused) := by
  unfold grantToken
  split
  · exact grantPersistentToken_triple live hforce protocol keys
  · exact issueTransientToken_triple live hforce protocol keys grant

theorem respondWith_triple {P : CtapApp → Trace → Prop} (response : Response)
    (hP : ∀ app w, P app w → Refused app w) :
    Triple ledger P (respondWith response) (either (fun _ => P) Refused) := by
  refine triple_ofExcept_bind (fun e _ app w hw => hP app w hw) fun bytes _ => ?_
  exact triple_pure fun app w hw => hw

theorem clientPinGetTokenCommon_triple (keyAgreement : Entries) (pinHashEnc : Bytes)
    (grant : TokenGrant) (forceChangeError : Status) :
    Triple ledger (fun _ w => Fresh w)
      (clientPinGetTokenCommon protocol keyAgreement pinHashEnc grant forceChangeError)
      (either (fun _ => TokenEarned) Refused) := by
  refine triple_gets_bind fun pin => Triple.weaken (P := fun _ w => Fresh w)
    (fresh_ofExcept_bind fun _ _ => ?_) fun app w hw => hw.2
  refine (pinWork_refreshPersistentAuthority false).silent.fresh_triple.andThen fun _ =>
    (plain_decapsulate _ _).silent.fresh_triple.andThen fun keys =>
    (verifyPinHashEnc_triple protocol keys pinHashEnc).andThen fun _ =>
    Triple.exists_pre fun live => triple_gets_bind fun forced => ?_
  cases forced with
  | true => exact triple_fail fun app w hw => hw.2.2.refused app
  | false =>
    refine Triple.weaken (P := fun app w => live.forcePinChange = false ∧ Ready live app w)
      (Triple.of_pre fun hforce => ?_) fun app w hw => ⟨?_, hw.2⟩
    · refine (grantToken_triple live hforce protocol keys grant).andThen fun encrypted => ?_
      exact (respondWith_triple (P := TokenEarned) _ fun app w hw => hw.refused).weaken
        fun app w hw => ⟨live, hw.2, hforce, hw.1⟩
    · have hlive := hw.1
      rw [hw.2.1] at hlive
      exact hlive

theorem clientPinChangePin_triple (map : Entries) :
    Triple ledger (fun _ w => Fresh w) (clientPinChangePin map)
      (either (fun _ _ w => ∃ live, Cleared live w) Refused) := by
  refine fresh_ofExcept_bind fun p _ => triple_gets_bind fun pin =>
    Triple.weaken (P := fun _ w => Fresh w) (fresh_ofExcept_bind fun _ _ => ?_)
    fun app w hw => hw.2
  refine (plain_decapsulate _ _).silent.fresh_triple.andThen fun keys =>
    fresh_ofExcept_bind fun _ _ => (verifyPinHashEnc_triple _ _ _).andThen fun _ =>
    Triple.exists_pre fun live =>
    ((plain_newPinHash _ _ _).cleared_triple live live.restored).andThen fun new =>
    triple_gets_bind fun persistent => ?_
  split
  · exact triple_fail fun app w hw => hw.2.2.refused app
  · refine ((storeNewPin_triple live _ _ _).weaken fun app w hw => hw.2).andThen fun _ => ?_
    exact triple_pure fun app w hw => ⟨live, hw⟩

def ClientPinSubcommand.comparesPin : ClientPinSubcommand → Bool
  | .changePin | .getPinToken | .getPinUvAuthTokenUsingPinWithPermissions => true
  | .getPinRetries | .getKeyAgreement | .setPin => false

def SubcommandEarned (subcommand : ClientPinSubcommand) (app : CtapApp) (w : Trace) : Prop :=
  ∃ live, Cleared live w ∧ (subcommand ≠ .changePin →
    live.forcePinChange = false ∧ app.pinState.persistent.forcePinChange = false)

variable {subcommand : ClientPinSubcommand}

theorem clientPinSubcommand_triple (map : Entries) (h : subcommand.comparesPin = true) :
    Triple ledger (fun _ w => Fresh w) (clientPinSubcommand map subcommand)
      (either (fun _ => SubcommandEarned subcommand) Refused) := by
  have earned : ∀ app w, TokenEarned app w → SubcommandEarned subcommand app w :=
    fun app w ⟨live, hcleared, hforce⟩ => ⟨live, hcleared, fun _ => hforce⟩
  cases subcommand with
  | changePin =>
    refine (clientPinChangePin_triple map).outcome ?_ fun _ _ _ hw => hw
    rintro response app w ⟨live, hcleared⟩
    exact ⟨live, hcleared, fun hne => absurd rfl hne⟩
  | getPinToken | getPinUvAuthTokenUsingPinWithPermissions =>
    exact fresh_ofExcept_bind fun p _ =>
      (clientPinGetTokenCommon_triple _ _ _ _ _).outcome (fun _ => earned) fun _ _ _ hw => hw
  | getPinRetries | getKeyAgreement | setPin => cases h

def requestedSubcommand (payload : Bytes) : Except Status ClientPinSubcommand := do
  ClientPinSubcommand.parse (mapGet (← requestParameters payload) (.int 2))

theorem handleClientPin_triple (payload : Bytes)
    (hrequest : requestedSubcommand payload = .ok subcommand) (h : subcommand.comparesPin = true) :
    Triple ledger (fun _ w => Fresh w) (handleClientPin payload)
      (either (fun _ => SubcommandEarned subcommand) Refused) := by
  refine fresh_ofExcept_bind fun map hmap => fresh_ofExcept_bind fun subcommand' hparse => ?_
  obtain rfl : subcommand' = subcommand := by
    rw [requestedSubcommand, hmap] at hrequest
    exact Except.ok.inj (hparse.symm.trans hrequest)
  exact (Silent.fresh_triple silent_readPinStateIfUnread.when).andThen fun _ =>
    clientPinSubcommand_triple map h

def answered (ok : CtapApp → Trace → Prop) (failed : CtapApp → Trace → Prop) :
    Except Empty Reply → CtapApp → Trace → Prop
  | .ok (.cbor (.ok _)) => ok
  | .ok (.cbor (.error _)) => failed
  | _ => fun _ _ => False

theorem serve_clientPin_triple (payload : Bytes)
    (hrequest : requestedSubcommand payload = .ok subcommand) (h : subcommand.comparesPin = true) :
    Triple ledger (fun _ w => Fresh w) (serve (.cbor (0x06 :: payload)))
      (answered (SubcommandEarned subcommand) Refused) := by
  have hcall : Triple ledger (fun _ w => Fresh w) (call (0x06 :: payload))
      (either (fun _ => SubcommandEarned subcommand) Refused) :=
    (silent_observeLargeBlobState _).fresh_triple.andThen fun _ =>
      (silent_forgetAssertion _).fresh_triple.andThen fun _ =>
      handleClientPin_triple payload hrequest h
  refine hcall.attemptThen fun answer => ?_
  cases answer with
  | ok | error => exact triple_pure fun app w hw => hw

/-- In every execution of a subcommand that checks the PIN, complete or cut short, every
operation on the PIN is accounted for. If the debit could not be written, nothing else was; a
request that succeeds has a cleared attempt behind it. -/
theorem pin_effects_accounted (app : CtapApp) (payload : Bytes)
    (subcommand : ClientPinSubcommand) (hrequest : requestedSubcommand payload = .ok subcommand)
    (hcompares : subcommand.comparesPin = true) :
    (∀ tr, (serve (.cbor (0x06 :: payload)) app).Reaches tr → Accounted tr) ∧
    ∀ tr reply app', (serve (.cbor (0x06 :: payload))).Runs app tr (.ok reply) app' →
      (∀ past record err post, tr = past ++ pinWrite record (.error err) :: post →
        mark .decryption ∉ past →
        (∃ status, reply = .cbor (.error status)) ∧ post = [] ∧
          (∀ record' answer, pinWrite record' answer ∉ past) ∧
          mark (.attempt app'.pinState.persistent) ∈ past ∧
          record = app'.pinState.persistent.debited) ∧
      (∀ response, reply = .cbor (.ok response) → ∃ live, Restored tr live ∧
        (subcommand ≠ .changePin →
          live.forcePinChange = false ∧ app'.pinState.persistent.forcePinChange = false)) := by
  have triple := serve_clientPin_triple payload hrequest hcompares
  have fresh : Fresh [] := fun e he => absurd he List.not_mem_nil
  refine ⟨fun tr hreach => ?_, fun tr reply app' hrun => ?_⟩
  · have hsafe := triple.reaches fresh fresh.accounted hreach (Observer.history_admits _ _)
    rwa [Observer.history_after] at hsafe
  · have hpost := triple.runs fresh hrun (Observer.history_admits _ _)
    rw [Observer.history_after, List.nil_append] at hpost
    cases reply with
    | msg answer => exact absurd hpost id
    | cbor answer =>
      cases answer with
      | error status =>
        refine ⟨fun past record err post htr hpast => ?_, fun response he => by cases he⟩
        exact ⟨⟨status, rfl⟩, hpost.2 past record err post htr hpast⟩
      | ok response =>
        obtain ⟨live, hcleared, hforce⟩ := hpost
        refine ⟨fun past record err post htr hpast => ?_, fun _ _ =>
          ⟨live, hcleared.restored, hforce⟩⟩
        exact absurd (hcleared.failures past _ post htr record err rfl) hpast

end Checks

section Bench

def benchPlatformKey : Value :=
  .map [(.integer 1, .integer 2), (.integer 3, .integer (-25)), (.integer (-1), .integer 1),
    (.integer (-2), .bytes (List.replicate 32 7)), (.integer (-3), .bytes (List.replicate 32 7))]

def getPinTokenPayload : Bytes :=
  [0xa4, 0x01, 0x01, 0x02, 0x05, 0x03, 0xa5, 0x01, 0x02, 0x03, 0x38, 0x18, 0x20, 0x01, 0x21,
    0x58, 0x20] ++ List.replicate 32 7 ++ [0x22, 0x58, 0x20] ++ List.replicate 32 7 ++
    [0x06, 0x50] ++ List.replicate 16 9

def getPinTokenValue : Value :=
  .map [(.integer 1, .integer 1), (.integer 2, .integer 5), (.integer 3, benchPlatformKey),
    (.integer 6, .bytes (List.replicate 16 9))]

def benchPinState : PinStateRecord := { PinStateRecord.initial with
  pinHash := some (List.replicate 16 9), pinRetries := 5 }

local instance pinTokenExternals : Externals := .bench [(getPinTokenPayload, getPinTokenValue)]

def pinTokenRun : (Except Empty Reply × CtapApp) × Trace × World :=
  (World.bench benchPinState [] 0).run (serve (.cbor (0x06 :: getPinTokenPayload)))
    (.bench benchPinState)

def issuesToken (e : env.Event) : Bool :=
  match e.op with
  | .observe (.token _) => true
  | _ => false

theorem pin_effects_accounted_getPinToken :
    pinTokenRun.2.1.any issuesToken = true ∧ Accounted pinTokenRun.2.1 := by
  refine ⟨by decide +kernel, ?_⟩
  refine (pin_effects_accounted (.bench benchPinState) getPinTokenPayload .getPinToken
    (by decide +kernel) rfl).1 _ ?_
  exact (World.runs_run _ _ _).reaches

end Bench

end SoftwareAuthenticator.Ctap
