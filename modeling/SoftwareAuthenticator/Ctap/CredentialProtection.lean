import SoftwareAuthenticator.Ctap.ConsistentStore
import SoftwareAuthenticator.Ctap.UserVerification

/-!
# credProtect

getAssertion and U2F check the protection of the credential they have just looked up;
getNextAssertion goes by a list of IDs that was filtered earlier.
-/

namespace SoftwareAuthenticator.Ctap

open Cmd

section Protection

variable {tr : Trace} {id : Bytes} {credential : CredentialRecord} {w : Shelves}
  {userVerified : Bool} {ids : List Bytes} {app app' : CtapApp}

theorem runs_orStatus {α : Type} {c : EngineM Status (Except StoreError α)} {a : α}
    (h : (orStatus c).Runs app tr (.ok a) app') : c.Runs app tr (.ok (.ok a)) app' := by
  obtain ⟨tr₁, _, answer, app₁, rfl, hc, h₁⟩ := runs_bind_ok.mp h
  cases answer with
  | error err => exact absurd h₁ not_runs_fail_ok
  | ok b =>
    obtain ⟨rfl, heq, rfl⟩ := runs_pure.mp h₁
    cases heq
    rw [List.append_nil]
    exact hc

theorem runs_storedCredentials {records : List CredentialRecord}
    (h : storedCredentials.Runs app tr (.ok records) app') :
    tr = [⟨.store .list, .ok records⟩] ∧ app' = app := by
  obtain ⟨_, rfl, heq, rfl⟩ := runs_ask.mp (runs_orStatus h)
  cases heq
  exact ⟨rfl, rfl⟩

theorem credentialAllows_of_protected {allowListProvided : Bool}
    (h : credentialAllows credential userVerified allowListProvided = true) :
    (credential.credProtect = 3 → userVerified = true) ∧
    (credential.credProtect = 2 → userVerified = true ∨ allowListProvided = true) := by
  unfold credentialAllows at h
  constructor
  · intro h₃
    rw [if_pos h₃] at h
    exact h
  · intro h₂
    rw [if_neg (by rw [h₂]; decide), if_pos h₂] at h
    simpa using h

variable [Externals]

theorem credentialId_of_sealedCredential {plaintext : Bytes}
    (h : sealedCredential id plaintext = some credential) : credential.credentialId = id := by
  unfold sealedCredential at h
  split at h
  · split at h
    · cases h
    · obtain ⟨alg, -, h₁⟩ := Option.bind_eq_some_iff.mp h
      split at h₁
      · cases h₁
      · obtain ⟨privateKey, -, h₂⟩ := Option.bind_eq_some_iff.mp h₁
        dsimp only at h₂
        split at h₂
        · cases h₂
          rfl
        · cases h₂
  · cases h

theorem credentialId_of_credentialForHash (hw : w.WellFormed) {hash : Bytes}
    (htr : Shelves.observer.Admits w tr)
    (h : (credentialForHash id hash).Runs app tr (.ok (some credential)) app') :
    credential.credentialId = id := by
  unfold credentialForHash at h
  split at h
  · obtain ⟨_, _, opened, _, rfl, -, h₁⟩ := runs_bind_ok.mp h
    obtain ⟨-, heq, -⟩ := runs_pure.mp h₁
    obtain ⟨plaintext, -, hsealed⟩ := Option.bind_eq_some_iff.mp (Except.ok.inj heq).symm
    exact credentialId_of_sealedCredential hsealed
  · obtain ⟨_, _, stored, _, rfl, hstored, h₁⟩ := runs_bind_ok.mp h
    obtain ⟨rfl, heq, -⟩ := runs_pure.mp h₁
    obtain ⟨rfl, -⟩ := Option.filter_eq_some_iff.mp (Except.ok.inj heq).symm
    obtain ⟨rfl, -⟩ := runs_storedCredential hstored
    exact hw id credential htr.1

theorem credentialId_of_credentialForRp (hw : w.WellFormed) {rpId : String}
    (htr : Shelves.observer.Admits w tr)
    (h : (credentialForRp id rpId).Runs app tr (.ok (some credential)) app') :
    credential.credentialId = id := by
  obtain ⟨tr₁, _, found, _, rfl, hfound, h₁⟩ := runs_bind_ok.mp h
  obtain ⟨rfl, heq, -⟩ := runs_pure.mp h₁
  obtain ⟨credential', rfl, hbound⟩ := Option.bind_eq_some_iff.mp (Except.ok.inj heq).symm
  rw [List.append_nil] at htr
  have hid := credentialId_of_credentialForHash hw htr hfound
  unfold boundTo at hbound
  split at hbound
  · cases hbound
    exact hid
  · split at hbound
    · cases hbound
    · cases hbound
      exact hid

/-- What the loop over the allowList finds was named in it, and may be used. -/
theorem runs_locateAllowed {rpId : String} {found located : List CredentialRecord}
    (hw : w.WellFormed) (htr : Shelves.observer.Admits w tr)
    (h : (locateAllowed rpId userVerified ids found).Runs app tr (.ok located) app') :
    ∀ credential ∈ located, credential ∈ found ∨ (credential.credentialId ∈ ids ∧
      credentialAllows credential userVerified true = true) := by
  induction ids generalizing found w app tr with
  | nil =>
    obtain ⟨-, heq, -⟩ := runs_pure.mp h
    cases heq
    exact fun credential hmem => .inl hmem
  | cons id rest ih =>
    have hlater : ∀ {found' : List CredentialRecord} {w' : Shelves} {app₁ : CtapApp} {tr' : Trace},
        w'.WellFormed → Shelves.observer.Admits w' tr' →
        (locateAllowed rpId userVerified rest found').Runs app₁ tr' (.ok located) app' →
        ∀ credential ∈ located, credential ∈ found' ∨ (credential.credentialId ∈ id :: rest ∧
          credentialAllows credential userVerified true = true) := by
      intro found' w' app₁ tr' hw' htr' h' credential hmem
      rcases ih hw' htr' h' credential hmem with hfound | ⟨hid, hallows⟩
      · exact .inl hfound
      · exact .inr ⟨List.mem_cons_of_mem id hid, hallows⟩
    unfold locateAllowed at h
    split at h
    · exact hlater hw htr h
    · obtain ⟨tr₁, tr₂, answer, app₁, rfl, hlookup, h₁⟩ := runs_bind_ok.mp h
      obtain ⟨htr₁, htr₂⟩ := (Shelves.observer.admits_append _ _ _).mp htr
      have hw₁ := hw.after htr₁
      split at h₁
      · exact hlater hw₁ htr₂ h₁
      · rename_i credential
        split at h₁
        · rename_i hallows
          intro credential' hmem
          rcases hlater hw₁ htr₂ h₁ credential' hmem with hfound | hnamed
          · rcases List.mem_append.mp hfound with hfound | hfound
            · exact .inl hfound
            · rw [List.mem_singleton.mp hfound]
              refine .inr ⟨?_, hallows⟩
              rw [credentialId_of_credentialForRp hw htr₁ hlookup]
              exact List.mem_cons_self
          · exact .inr hnamed
        · exact hlater hw₁ htr₂ h₁

def Shelves.Permits (w : Shelves) (userVerified : Bool) (ids : List Bytes) : Prop :=
  ∀ id ∈ ids, isDiscoverable id = true ∧
    ∀ record ∈ w id, credentialAllows record userVerified false = true

omit [Externals] in
theorem Shelves.Permits.reads (h : w.Permits userVerified ids) (htr : observer.Admits w tr)
    (hread : ∀ e ∈ tr, EnvOp.isRead e.op = true) :
    Permits (observer.after w tr) userVerified ids := by
  intro id hid
  obtain ⟨hdiscoverable, hallows⟩ := h id hid
  exact ⟨hdiscoverable, fun record hmem => hallows record (mem_of_reads htr hread hmem)⟩

omit [Externals] in
theorem Shelves.Permits.counts (h : w.Permits userVerified ids) (htr : observer.Admits w tr)
    (hcounts : ∀ e ∈ tr, EnvOp.countsFor credential e.op = true)
    (hcredential : credentialAllows credential userVerified false = true) :
    Permits (observer.after w tr) userVerified ids := by
  intro id hid
  obtain ⟨hdiscoverable, hallows⟩ := h id hid
  refine ⟨hdiscoverable, fun record hmem => ?_⟩
  rcases mem_of_counts htr hcounts hmem with hmem | ⟨-, signCount, createdAt, rfl⟩
  · exact hallows record hmem
  · exact hcredential

namespace AssertionStages

variable {payload : Bytes} {trace : Trace} {answer : Except Status Response}
  (stages : AssertionStages payload app trace answer app')

theorem lists (hnone : stages.choices.allowList = none) :
    ∃ records, stages.locating = [⟨.store .list, .ok records⟩] ∧
      stages.credential :: stages.rest =
        records.filter (isDiscoverableFor stages.rpId stages.userVerified) := by
  have hlocates := stages.locates
  rw [hnone] at hlocates
  obtain ⟨_, _, records, _, htrace, hlist, h₁⟩ := runs_bind_ok.mp hlocates
  obtain ⟨rfl, heq, -⟩ := runs_pure.mp h₁
  obtain ⟨rfl, -⟩ := runs_storedCredentials hlist
  exact ⟨records, htrace, Except.ok.inj heq⟩

theorem permits (hnone : stages.choices.allowList = none) (htr : Shelves.observer.Admits w trace) :
    Shelves.Permits (Shelves.observer.after w trace) stages.userVerified
      (stages.rest.map (·.credentialId)) := by
  obtain ⟨records, hlocating, hfilter⟩ := stages.lists hnone
  have hafter := congrArg (Shelves.observer.after w) stages.trace_eq
  rw [stages.trace_eq] at htr
  simp only [Observer.admits_append, Observer.after_append, hlocating] at htr
  obtain ⟨⟨⟨-, hlist⟩, hasking⟩, hsigning⟩ := htr
  have hlisted : ∀ record ∈ stages.credential :: stages.rest,
      record ∈ records ∧ isDiscoverableFor stages.rpId stages.userVerified record = true := by
    intro record hmem
    rw [hfilter] at hmem
    exact List.mem_filter.mp hmem
  have hallowed : ∀ record ∈ stages.credential :: stages.rest,
      isDiscoverable record.credentialId = true ∧
        credentialAllows record stages.userVerified false = true := by
    intro record hmem
    have hfor := of_decide_eq_true (hlisted record hmem).2
    exact ⟨hfor.2.1, hfor.2.2⟩
  rw [hafter]
  simp only [Observer.after_append, hlocating]
  refine Shelves.Permits.counts (Shelves.Permits.reads ?_ hasking ?_) hsigning
    ((counts_assertFirst _ _ _ _ _ _ _).runs stages.signs).2 (hallowed _ List.mem_cons_self).2
  · intro id hid
    obtain ⟨record, hmem, rfl⟩ := List.mem_map.mp hid
    have hrest := List.mem_cons_of_mem stages.credential hmem
    obtain ⟨hdiscoverable, hallows⟩ := hallowed record hrest
    refine ⟨hdiscoverable, fun record' hshelf => ?_⟩
    have hknown := Shelves.mem_next_list hlist.1.1 (hlisted record hrest).1 hshelf
    rw [hknown]
    exact hallows
  · exact (Confined.runs (built_assertionPresence reads_collectPresence _ _ _) stages.asks).2

/-- The credential that signs is one the caller named, or one that the store lists. -/
theorem allowed (hw : w.WellFormed) (htr : Shelves.observer.Admits w trace) :
    (∃ ids, stages.choices.allowList = some ids ∧ stages.credential.credentialId ∈ ids ∧
      credentialAllows stages.credential stages.userVerified true = true) ∨
    (stages.choices.allowList = none ∧ isDiscoverable stages.credential.credentialId = true ∧
      credentialAllows stages.credential stages.userVerified false = true) := by
  cases hlist : stages.choices.allowList with
  | none =>
    obtain ⟨records, -, hfilter⟩ := stages.lists hlist
    have hmem : stages.credential ∈
        records.filter (isDiscoverableFor stages.rpId stages.userVerified) := by
      rw [← hfilter]
      exact List.mem_cons_self
    have hfor := of_decide_eq_true (List.mem_filter.mp hmem).2
    exact .inr ⟨rfl, hfor.2.1, hfor.2.2⟩
  | some ids =>
    rw [stages.trace_eq] at htr
    simp only [Observer.admits_append, Observer.after_append] at htr
    obtain ⟨⟨⟨⟨hpreparing, hverifying⟩, hlocating⟩, -⟩, -⟩ := htr
    have hlocates := stages.locates
    rw [hlist] at hlocates
    obtain ⟨_, _, located, _, htrace, hlocate, h₁⟩ := runs_bind_ok.mp hlocates
    obtain ⟨rfl, heq, -⟩ := runs_pure.mp h₁
    rw [htrace, List.append_nil] at hlocating
    have hmem : stages.credential ∈ located := by
      rw [← mem_sortNewestFirst, ← Except.ok.inj heq]
      exact List.mem_cons_self
    rcases runs_locateAllowed ((hw.after hpreparing).after hverifying) hlocating hlocate _ hmem with
      hnil | ⟨hid, hallows⟩
    · cases hnil
    · exact .inl ⟨ids, rfl, hid, hallows⟩

end AssertionStages

theorem NextStages.permits {trace : Trace} {answer : Except Status Response}
    (stages : NextStages app trace answer app') (hw : w.WellFormed)
    (htr : Shelves.observer.Admits w trace)
    (h : w.Permits stages.pending.userVerified stages.pending.remainingCredentials) :
    isDiscoverable stages.credential.credentialId = true ∧
    credentialAllows stages.credential stages.pending.userVerified false = true ∧
    Shelves.Permits (Shelves.observer.after w trace) stages.pending.userVerified
      stages.remaining := by
  have hafter := congrArg (Shelves.observer.after w) stages.trace_eq
  rw [stages.trace_eq] at htr
  simp only [Observer.admits_append, Observer.after_append] at htr
  obtain ⟨⟨⟨hopening, hchecking⟩, hlocating⟩, hsigning⟩ := htr
  have hready := (h.reads hopening ((reads_beginRequest _).runs stages.opens).2).reads hchecking
    (Confined.runs (built_checkPending reads_now (reads_observed _) _) stages.checks).2
  have hlocates := ((reads_nextCredential _ _).runs stages.locates).2
  obtain ⟨skipped, id, hids, -, hget⟩ := runs_nextCredential stages.locates
  have hfound := Shelves.mem_of_get hlocating hlocates hget
  rw [hids] at hready
  obtain ⟨hdiscoverable, hallows⟩ := hready id (by simp)
  have hid := ((hw.after hopening).after hchecking) id _ hfound
  have hcredential := hallows _ hfound
  refine ⟨?_, hcredential, ?_⟩
  · rw [hid]
    exact hdiscoverable
  · have hrest := (hready.reads hlocating hlocates).counts hsigning
      ((counts_assertNext _ _).runs stages.signs).2 hcredential
    rw [hafter]
    simp only [Observer.after_append]
    exact fun id' hid' => hrest id' (List.mem_append_right _ (List.mem_cons_of_mem _ hid'))

/-- U2F uses the credential that the key handle names, unless it is protected. -/
theorem U2fStages.protected {control : UInt8} {challenge application handle : Bytes} {trace : Trace}
    {reply : U2fReply}
    (stages : U2fStages control challenge application handle app trace reply app')
    (hw : w.WellFormed) (htr : Shelves.observer.Admits w trace) :
    stages.record.credentialId = handle ∧ stages.record.credProtect ≠ 3 := by
  rw [stages.trace_eq, List.append_assoc] at htr
  obtain ⟨hlocating, -⟩ := (Shelves.observer.admits_append _ _ _).mp htr
  obtain ⟨_, _, found, _, htrace, hfound, h₁⟩ := runs_bind_ok.mp stages.locates
  obtain ⟨hfilter, rfl, -⟩ := runs_okOr h₁
  obtain ⟨rfl, husable⟩ := Option.filter_eq_some_iff.mp hfilter
  rw [htrace, List.append_nil] at hlocating
  refine ⟨credentialId_of_credentialForHash hw hlocating (runs_mapError_ok.mp hfound), ?_⟩
  exact (of_decide_eq_true husable).2.2

namespace Beginning

variable {hs : List Happening}

def events (b : Beginning hs) : Trace := b.trace ++ record b.nexts

theorem events_here {before : List Happening} {payload : Bytes} {trace : Trace}
    {answer : Except Status Response} (hrun : engine.run none before = some app)
    (stages : AssertionStages payload app trace answer app') :
    (Beginning.here hrun stages).events = trace :=
  List.append_nil trace

theorem events_next (b : Beginning hs) {h : Happening} (hnext : h.isNext = true) :
    (b.next hnext).events = b.events ++ h.trace := by
  change b.trace ++ record (b.nexts ++ [h]) = (b.trace ++ record b.nexts) ++ h.trace
  rw [record_append, record_singleton, List.append_assoc]

theorem consistent (b : Beginning hs) {after : List Happening}
    (hstore : ConsistentStore (hs ++ after)) :
    ∃ w : Shelves, w.WellFormed ∧ Shelves.observer.Admits w b.events := by
  refine hstore b.before (.exchange (.cbor (0x02 :: b.payload)) b.trace (.cbor b.answer) b.app' ::
    b.nexts) after ?_ ?_
  · conv_lhs => rw [b.hs_eq]
  · intro h hmem
    rcases List.mem_cons.mp hmem with rfl | hmem
    · rfl
    · exact Happening.isExchange_of_isNext (b.isNext h hmem)

def Verified (b : Beginning hs) : Prop :=
  ∃ protocol param, b.stages.choices.pinUvAuth = some (protocol, param) ∧
    VerifiedDuring 0x02 b.app b.trace protocol param b.stages.clientHash permissionGa
      b.stages.rpId

def Named (b : Beginning hs) (credential : CredentialRecord) : Prop :=
  b.nexts = [] ∧ ∃ ids, b.stages.choices.allowList = some ids ∧ credential.credentialId ∈ ids

end Beginning

/-- What is remembered may sign, whatever the store held when the sequence began. -/
theorem pending_permits {hs : List Happening} (hrun : engine.Executes none hs) {app : CtapApp}
    (happ : engine.run none hs = some app) {pending : PendingAssertion}
    (hpending : app.pendingAssertion = some pending) :
    ∃ b : Beginning hs, Remembers b.stages pending ∧
      ∀ w : Shelves, w.WellFormed → Shelves.observer.Admits w b.events →
        Shelves.Permits (Shelves.observer.after w b.events) pending.userVerified
          pending.remainingCredentials := by
  refine pending_induction (P := fun b pending => ∀ w : Shelves, w.WellFormed →
    Shelves.observer.Admits w b.events → Shelves.Permits (Shelves.observer.after w b.events)
      pending.userVerified pending.remainingCredentials) ?_ ?_ hrun happ hpending
  · intro before app app' payload trace answer hbefore stages pending hremembers w hw htr
    rw [Beginning.events_here] at htr ⊢
    have hpermits := stages.permits hremembers.allowList htr
    rw [hremembers.userVerified]
    exact fun id hid => hpermits id (hremembers.remaining.subset hid)
  · intro hs b app app' payload trace answer stages time hremembers hpermits w hw htr
    have hevents : (b.next (h := .exchange (.cbor (0x08 :: payload)) trace (.cbor answer) app')
        rfl).events = b.events ++ trace := b.events_next rfl
    rw [hevents] at htr ⊢
    obtain ⟨hevents, htrace⟩ := (Shelves.observer.admits_append _ _ _).mp htr
    rw [Observer.after_append]
    exact (stages.permits (hw.after hevents) htrace (hpermits w hw hevents)).2.2

/-- In every run over a consistent store, a credential with credProtect 3 signs only if the
user was verified in the getAssertion that began the sequence, and one with credProtect 2
only if that was so or the request named it. U2F never signs by one with credProtect 3. -/
theorem credProtect_enforced (before after : List Happening) (request : Request) (trace : Trace)
    (reply : Reply) (app' : CtapApp)
    (hrun : engine.Executes none (before ++ .exchange request trace reply app' :: after))
    (hstore : ConsistentStore (before ++ .exchange request trace reply app' :: after)) :
    (∀ response, request.isAssertion = true → reply = .cbor (.ok (.assertion response)) →
      ∃ (b : Beginning (before ++ [.exchange request trace reply app']))
        (credential : CredentialRecord), b.Chooses trace credential ∧
        Asserts response trace credential b.stages.rpId b.stages.clientHash b.stages.userPresent
          b.stages.userVerified ∧
        (credential.credProtect = 3 → b.Verified) ∧
        (credential.credProtect = 2 → b.Verified ∨ b.Named credential) ∧
        (b.stages.choices.allowList = none → isDiscoverable credential.credentialId = true)) ∧
    ∀ apdu userPresent counter signature, request = .msg apdu →
      reply = .msg (.ok (.authentication userPresent counter signature)) →
      ∃ (control : UInt8) (challenge application handle : Bytes) (credential : CredentialRecord)
        (key : CredentialSecretKey) (disabled : Bool),
        U2fApdu.decode apdu disabled = .ok (.authenticate control challenge application handle) ∧
        credential.secretKey = some key ∧
        (⟨.sign .es256 key (application ++ presenceAndCounter userPresent counter) challenge,
          some signature⟩ : env.Event) ∈ trace ∧
        credential.credentialId = handle ∧ credential.credProtect ≠ 3 := by
  obtain ⟨hbefore, henabled, -⟩ := (engine.along_append _ _ _ _).mp hrun
  obtain ⟨app, happ, hserve⟩ := served_of_enabled henabled
  constructor
  · rintro response hrequest rfl
    have hstore' := hstore
    rw [← List.singleton_append, ← List.append_assoc] at hstore'
    obtain ⟨payload, ⟨rfl, ⟨stages⟩⟩ | ⟨rfl, ⟨stages⟩⟩⟩ := assertion_cases hrequest hserve
    · obtain ⟨_, ⟨⟩, -, hasserts⟩ := stages.signs_cases.1 _ rfl
      obtain ⟨w, hw, htr⟩ := (Beginning.here happ stages).consistent hstore'
      rw [Beginning.events_here] at htr
      refine ⟨.here happ stages, stages.credential, .inl ⟨rfl, rfl, rfl⟩, hasserts, ?_⟩
      rcases stages.allowed hw htr with ⟨ids, hlist, hid, hallows⟩ | ⟨hlist, hdisc, hallows⟩
      · obtain ⟨hthree, htwo⟩ := credentialAllows_of_protected hallows
        exact ⟨fun h => stages.verified_of_userVerified (hthree h),
          fun _ => .inr ⟨rfl, ids, hlist, hid⟩, fun hnone => by cases hlist.symm.trans hnone⟩
      · obtain ⟨hthree, htwo⟩ := credentialAllows_of_protected hallows
        refine ⟨fun h => stages.verified_of_userVerified (hthree h), fun h => ?_, fun _ => hdisc⟩
        exact .inl (stages.verified_of_userVerified ((htwo h).resolve_right Bool.false_ne_true))
    · obtain ⟨b, hb, hpermits⟩ := pending_permits hbefore happ stages.pending_eq
      have hnext : (b.next (h := .exchange (.cbor (0x08 :: payload)) trace
          (.cbor (.ok (.assertion response))) app') rfl).events = b.events ++ trace :=
        b.events_next rfl
      obtain ⟨w, hw, htr⟩ := (b.next rfl).consistent hstore'
      rw [hnext] at htr
      obtain ⟨hevents, htrace⟩ := (Shelves.observer.admits_append _ _ _).mp htr
      obtain ⟨hdisc, hallows, -⟩ :=
        stages.permits (hw.after hevents) htrace (hpermits w hw hevents)
      obtain ⟨hthree, htwo⟩ := credentialAllows_of_protected hallows
      rw [hb.userVerified] at hthree htwo
      refine ⟨b.next rfl, stages.credential, hb.chooses stages, hb.asserts stages,
        fun h => b.stages.verified_of_userVerified (hthree h), fun h => ?_, fun _ => hdisc⟩
      exact .inl (b.stages.verified_of_userVerified ((htwo h).resolve_right Bool.false_ne_true))
  · rintro apdu userPresent counter signature rfl rfl
    obtain ⟨w, hw, htr⟩ := hstore before [.exchange (.msg apdu) trace
      (.msg (.ok (.authentication userPresent counter signature))) app'] after (by simp)
      (by simp [Happening.isExchange])
    rw [record_singleton] at htr
    obtain ⟨control, challenge, application, handle, opening, handling, opened, stages, key, rfl,
      hdecode, hkey, hsigned⟩ := runs_serve_authentication hserve
    obtain ⟨hopening, hhandling⟩ := (Shelves.observer.admits_append _ _ _).mp htr
    exact ⟨control, challenge, application, handle, stages.record, key, _, hdecode, hkey,
      List.mem_append_right _ hsigned, stages.protected (hw.after hopening) hhandling⟩

end Protection

section Bench

local instance protectedExternals : Externals :=
  .bench [(getPinTokenPayload, getPinTokenValue), (assertionPayload true, assertionValue true)]

def protectedWorld : World :=
  World.bench benchPinState
    [{ benchCredential [5] with credProtect := 2 }, { benchCredential [6] with credProtect := 3 }] 0

def protectedSession : List Happening :=
  protectedWorld.session .bench
    [.cbor (0x06 :: getPinTokenPayload), .cbor (0x02 :: assertionPayload true), .cbor [0x08]]

def Happening.isProtectedNext : Happening → Bool
  | .exchange (.cbor [0x08]) trace (.cbor (.ok (.assertion _))) _ => trace.any fun e =>
    match e with
    | ⟨.store (.get _), .ok (some credential)⟩ => credential.credProtect = 3
    | _ => false
  | _ => false

theorem consistentStore_protectedSession : ConsistentStore protectedSession :=
  World.consistentStore_session (show protectedWorld.store.Distinct by
    unfold MemoryStore.Distinct
    decide +kernel) _ _

theorem credProtect_enforced_getNextAssertion :
    ∃ before h after, protectedSession = before ++ h :: after ∧ h.isProtectedNext = true ∧
      ∃ (b : Beginning (before ++ [h])) (credential : CredentialRecord),
        b.Chooses h.trace credential ∧ (credential.credProtect = 3 → b.Verified) := by
  obtain ⟨h, hmem, hprotected⟩ := List.any_eq_true.mp
    (show protectedSession.any Happening.isProtectedNext = true by decide +kernel)
  obtain ⟨before, after, hsplit⟩ := List.append_of_mem hmem
  refine ⟨before, h, after, hsplit, hprotected, ?_⟩
  have hrun : engine.Executes none protectedSession := World.executes_session _ _ _
  have hstore := consistentStore_protectedSession
  rw [hsplit] at hrun hstore
  unfold Happening.isProtectedNext at hprotected
  split at hprotected
  · obtain ⟨b, credential, hchooses, -, hthree, -⟩ :=
      (credProtect_enforced before after _ _ _ _ hrun hstore).1 _ rfl rfl
    exact ⟨b, credential, hchooses, hthree⟩
  · cases hprotected

end Bench

end SoftwareAuthenticator.Ctap
