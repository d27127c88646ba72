import SoftwareAuthenticator.Ctap.CredentialProtection

/-!
# Which credentials sign

What is signed begins with the hash of a relying party. The assertions of a sequence are by
different credentials, in the order in which the getAssertion located them.
-/

namespace SoftwareAuthenticator.Ctap

open Cmd

section Engine

variable [Externals] {app app' : CtapApp} {tr trace : Trace} {hash id payload : Bytes}
  {rpId : String} {credential : CredentialRecord} {answer : Except Status Response} {w : Shelves}
  {hs : List Happening}

/-- An answer of the store that is a credential for the hash of a relying party: a record of
it, or what opens under the hash. -/
inductive Supplies (hash : Bytes) : CredentialRecord → env.Event → Prop
  | stored {id : Bytes} {credential : CredentialRecord}
      (h : sha256 (utf8 credential.rpId) = hash) :
      Supplies hash credential ⟨.store (.get id), .ok (some credential)⟩
  | listed {records : List CredentialRecord} {credential : CredentialRecord}
      (h : sha256 (utf8 credential.rpId) = hash) (hmem : credential ∈ records) :
      Supplies hash credential ⟨.store .list, .ok records⟩
  | opened {id plaintext : Bytes} {credential : CredentialRecord} (rpId : String)
      (h : sealedCredential id plaintext = some credential) :
      Supplies hash { credential with rpId := rpId }
        ⟨.store (.openCredentialId (id.drop 1) (sealedAssociatedData hash)), .ok (some plaintext)⟩

def FoundFor (tr : Trace) (hash : Bytes) (credential : CredentialRecord) : Prop :=
  ∃ e ∈ tr, Supplies hash credential e

theorem FoundFor.mono (h : FoundFor tr hash credential) (hsub : ∀ e ∈ tr, e ∈ trace) :
    FoundFor trace hash credential := by
  obtain ⟨e, he, hsupplies⟩ := h
  exact ⟨e, hsub e he, hsupplies⟩

/-- A sealed credential is for whatever relying party has the hash. -/
theorem foundFor_credentialForHash
    (h : (credentialForHash id hash).Runs app tr (.ok (some credential)) app') (rpId : String) :
    FoundFor tr hash credential ∧
      (isSealed id = true → FoundFor tr hash { credential with rpId := rpId }) := by
  unfold credentialForHash at h
  split at h
  · obtain ⟨_, _, opened, _, rfl, hopen, h₁⟩ := runs_bind_ok.mp h
    obtain ⟨rfl, heq, -⟩ := runs_pure.mp h₁
    obtain ⟨plaintext, rfl, hsealed⟩ := Option.bind_eq_some_iff.mp (Except.ok.inj heq).symm
    obtain ⟨_, rfl, heq, -⟩ := runs_ask.mp (runs_orStatus hopen)
    cases heq
    exact ⟨⟨_, List.mem_cons_self, .opened credential.rpId hsealed⟩,
      fun _ => ⟨_, List.mem_cons_self, .opened rpId hsealed⟩⟩
  · rename_i hstored
    obtain ⟨_, _, stored, _, rfl, hget, h₁⟩ := runs_bind_ok.mp h
    obtain ⟨rfl, heq, -⟩ := runs_pure.mp h₁
    obtain ⟨rfl, hhash⟩ := Option.filter_eq_some_iff.mp (Except.ok.inj heq).symm
    obtain ⟨rfl, -⟩ := runs_storedCredential hget
    exact ⟨⟨_, List.mem_cons_self, .stored (of_decide_eq_true hhash)⟩,
      fun hsealed => absurd hsealed hstored⟩

theorem foundFor_credentialForRp
    (h : (credentialForRp id rpId).Runs app tr (.ok (some credential)) app') :
    FoundFor tr (sha256 (utf8 rpId)) credential := by
  obtain ⟨_, _, found, _, rfl, hfound, h₁⟩ := runs_bind_ok.mp h
  obtain ⟨rfl, heq, -⟩ := runs_pure.mp h₁
  obtain ⟨record, rfl, hbound⟩ := Option.bind_eq_some_iff.mp (Except.ok.inj heq).symm
  obtain ⟨hstored, hsealed⟩ := foundFor_credentialForHash hfound rpId
  rw [List.append_nil]
  unfold boundTo at hbound
  split_ifs at hbound with hform
  · cases hbound
    exact hsealed hform
  · cases hbound
    exact hstored

theorem foundFor_locateAllowed {userVerified : Bool} {ids : List Bytes}
    {found located : List CredentialRecord}
    (h : (locateAllowed rpId userVerified ids found).Runs app tr (.ok located) app') :
    ∀ credential ∈ located, credential ∈ found ∨ FoundFor tr (sha256 (utf8 rpId)) credential := by
  induction ids generalizing found app tr with
  | nil =>
    obtain ⟨-, heq, -⟩ := runs_pure.mp h
    cases heq
    exact fun credential hmem => .inl hmem
  | cons id rest ih =>
    unfold locateAllowed at h
    split at h
    · exact ih h
    · obtain ⟨tr₁, tr₂, answer, app₁, rfl, hlookup, h₁⟩ := runs_bind_ok.mp h
      have hlater {found' : List CredentialRecord}
          (h' : (locateAllowed rpId userVerified rest found').Runs app₁ tr₂ (.ok located) app')
          (credential : CredentialRecord) (hmem : credential ∈ located) :
          credential ∈ found' ∨ FoundFor (tr₁ ++ tr₂) (sha256 (utf8 rpId)) credential :=
        (ih h' credential hmem).imp_right (·.mono fun e he => List.mem_append_right _ he)
      split at h₁
      · exact hlater h₁
      · split at h₁
        · intro credential hmem
          rcases hlater h₁ credential hmem with hfound | hfound
          · refine (List.mem_append.mp hfound).imp_right fun hnew => ?_
            rw [List.mem_singleton.mp hnew]
            exact (foundFor_credentialForRp hlookup).mono fun e he => List.mem_append_left _ he
          · exact .inr hfound
        · exact hlater h₁

theorem AssertionStages.foundFor (stages : AssertionStages payload app trace answer app') :
    FoundFor trace (sha256 (utf8 stages.rpId)) stages.credential := by
  have hlocating : FoundFor stages.locating (sha256 (utf8 stages.rpId)) stages.credential := by
    cases hlist : stages.choices.allowList with
    | none =>
      obtain ⟨records, hlocating, hfilter⟩ := stages.lists hlist
      have hmem : stages.credential ∈ records.filter _ := hfilter ▸ List.mem_cons_self
      obtain ⟨hmem, hfor⟩ := List.mem_filter.mp hmem
      rw [hlocating]
      exact ⟨_, List.mem_cons_self, .listed (by rw [(of_decide_eq_true hfor).1]) hmem⟩
    | some ids =>
      have hlocates := stages.locates
      rw [hlist] at hlocates
      obtain ⟨_, _, located, _, htrace, hlocate, h₁⟩ := runs_bind_ok.mp hlocates
      obtain ⟨rfl, heq, -⟩ := runs_pure.mp h₁
      have hmem : stages.credential ∈ located := by
        rw [← mem_sortNewestFirst, ← Except.ok.inj heq]
        exact List.mem_cons_self
      rw [htrace, List.append_nil]
      exact (foundFor_locateAllowed hlocate _ hmem).resolve_left List.not_mem_nil
  refine hlocating.mono fun e he => ?_
  rw [stages.trace_eq]
  simp [he]

/-- Whatever the state of the engine and the answers of the store: an assertion or a U2F
authentication is signed, over the hash of a relying party, by the key of a credential that the
store answered this request with for that hash. -/
theorem relyingParty_confined {request : Request} {reply : Reply}
    (h : (serve request).Runs app trace (.ok reply) app') :
    (∀ response, request.isAssertion = true → reply = .cbor (.ok (.assertion response)) →
      ∃ credential key clientHash, FoundFor trace response.authData.rpIdHash credential ∧
        response.credentialId = credential.credentialId ∧ credential.secretKey = some key ∧
        (⟨.sign credential.alg key response.authData.bytes clientHash, some response.signature⟩ :
          env.Event) ∈ trace) ∧
    ∀ apdu userPresent counter signature, request = .msg apdu →
      reply = .msg (.ok (.authentication userPresent counter signature)) →
      ∃ credential key application challenge, FoundFor trace application credential ∧
        credential.secretKey = some key ∧
        (⟨.sign .es256 key (application ++ presenceAndCounter userPresent counter) challenge,
          some signature⟩ : env.Event) ∈ trace := by
  constructor
  · rintro response hrequest rfl
    obtain ⟨payload, ⟨-, ⟨stages⟩⟩ | ⟨-, ⟨stages⟩⟩⟩ := assertion_cases hrequest h
    · obtain ⟨_, ⟨⟩, -, hasserts⟩ := stages.signs_cases.1 _ rfl
      obtain ⟨key, hkey, hsigned⟩ := hasserts.signed
      exact ⟨_, key, _, hasserts.rpIdHash ▸ stages.foundFor, hasserts.credentialId, hkey, hsigned⟩
    · obtain ⟨_, ⟨⟩, -, hasserts⟩ := stages.signs_cases.1 _ rfl
      obtain ⟨key, hkey, hsigned⟩ := hasserts.signed
      obtain ⟨_, _, -, hrpId, hget⟩ := runs_nextCredential stages.locates
      refine ⟨_, key, _, ⟨_, stages.locating_subset _ hget, .stored ?_⟩, hasserts.credentialId,
        hkey, hsigned⟩
      rw [hrpId, hasserts.rpIdHash]
  · rintro apdu userPresent counter signature rfl rfl
    obtain ⟨control, challenge, application, handle, opening, handling, opened, stages, key, rfl,
      -, hkey, hsigned⟩ := runs_serve_authentication h
    obtain ⟨_, _, found, _, htrace, hfound, h₁⟩ := runs_bind_ok.mp stages.locates
    obtain ⟨hfilter, rfl, -⟩ := runs_okOr h₁
    obtain ⟨rfl, -⟩ := Option.filter_eq_some_iff.mp hfilter
    refine ⟨stages.record, key, application, challenge,
      (foundFor_credentialForHash (runs_mapError_ok.mp hfound) "").1.mono fun e he => ?_, hkey,
      List.mem_append_right _ hsigned⟩
    rw [stages.trace_eq, htrace]
    simp [he]

omit [Externals] in
theorem Shelves.credentialId_of_get (hw : w.WellFormed) (htr : observer.Admits w tr)
    (hget : (⟨.store (.get id), .ok (some credential)⟩ : env.Event) ∈ tr) :
    credential.credentialId = id := by
  obtain ⟨early, late, rfl⟩ := List.append_of_mem hget
  obtain ⟨hearly, hlies, -⟩ := (observer.admits_append _ _ _).mp htr
  exact hw.after hearly id credential hlies

/-- The credential that a request was answered with an assertion by. -/
def Happening.signed : Happening → List Bytes
  | .exchange _ _ (.cbor (.ok (.assertion response))) _ => [response.credentialId]
  | _ => []

theorem AssertionStages.signed_sublist (stages : AssertionStages payload app trace answer app') :
    (Happening.signed (.exchange (.cbor (0x02 :: payload)) trace (.cbor answer) app')).Sublist
      [stages.credential.credentialId] := by
  unfold Happening.signed
  split
  · rename_i heq
    cases heq
    obtain ⟨_, ⟨⟩, -, hasserts⟩ := stages.signs_cases.1 _ rfl
    rw [hasserts.credentialId]
  · exact List.nil_sublist _

/-- A getNextAssertion looks up the remaining credentials in order, and signs by the one found. -/
theorem NextStages.signed_sublist (stages : NextStages app trace answer app') (hw : w.WellFormed)
    (htr : Shelves.observer.Admits w trace) :
    (Happening.signed (.exchange (.cbor (0x08 :: payload)) trace (.cbor answer) app') ++
      stages.remaining).Sublist stages.pending.remainingCredentials := by
  obtain ⟨skipped, id, hids, -, hget⟩ := runs_nextCredential stages.locates
  have hid := Shelves.credentialId_of_get hw htr (stages.locating_subset _ hget)
  rw [hids]
  refine .trans ?_ (List.sublist_append_right skipped _)
  unfold Happening.signed
  split
  · rename_i heq
    cases heq
    obtain ⟨_, ⟨⟩, -, hasserts⟩ := stages.signs_cases.1 _ rfl
    rw [hasserts.credentialId, hid]
    exact .refl _
  · exact List.sublist_cons_self id _

theorem AssertionStages.located_nodup (stages : AssertionStages payload app trace answer app')
    (hnone : stages.choices.allowList = none) (htr : Shelves.observer.Admits w trace) :
    ((stages.credential :: stages.rest).map (·.credentialId)).Nodup := by
  obtain ⟨records, hlocating, hfilter⟩ := stages.lists hnone
  rw [stages.trace_eq] at htr
  simp only [Observer.admits_append, hlocating] at htr
  rw [hfilter]
  exact (List.filter_sublist.map _).nodup htr.1.1.2.1.1

namespace Beginning

/-- The credentials that have signed, from the getAssertion on. -/
def signed (b : Beginning hs) : List Bytes :=
  Happening.signed (.exchange (.cbor (0x02 :: b.payload)) b.trace (.cbor b.answer) b.app') ++
    b.nexts.flatMap Happening.signed

def located (b : Beginning hs) : List Bytes :=
  (b.stages.credential :: b.stages.rest).map (·.credentialId)

/-- What has signed and what is left are of those that were located, in order. -/
def InOrder (b : Beginning hs) (remaining : List Bytes) : Prop :=
  ∀ w : Shelves, w.WellFormed → Shelves.observer.Admits w b.events →
    (b.signed ++ remaining).Sublist b.located

variable {b : Beginning hs} {h : Happening} {remaining remaining' : List Bytes}

theorem signed_next (hnext : h.isNext = true) : (b.next hnext).signed = b.signed ++ h.signed := by
  simp [signed, next]

theorem InOrder.next (hb : b.InOrder remaining) (hnext : h.isNext = true)
    (hsigned : ∀ w : Shelves, w.WellFormed → Shelves.observer.Admits w h.trace →
      (h.signed ++ remaining').Sublist remaining) : (b.next hnext).InOrder remaining' := by
  intro w hw htr
  rw [b.events_next] at htr
  obtain ⟨hevents, htrace⟩ := (Shelves.observer.admits_append _ _ _).mp htr
  rw [signed_next, List.append_assoc]
  exact ((List.Sublist.refl _).append (hsigned _ (hw.after hevents) htrace)).trans
    (hb w hw hevents)

end Beginning

/-- In every run over a consistent store, the assertions of a sequence are by different
credentials, in the order in which the getAssertion located them. -/
theorem signIn_in_order (before after : List Happening) (h : Happening) {request : Request}
    {response : AssertionResponse} (hrequest : request.isAssertion = true)
    (hh : h = .exchange request trace (.cbor (.ok (.assertion response))) app')
    (hrun : engine.Executes none (before ++ h :: after))
    (hstore : ConsistentStore (before ++ h :: after)) :
    ∃ b : Beginning (before ++ [h]), b.signed.getLast? = some response.credentialId ∧
      b.signed.Sublist b.located ∧ b.signed.Nodup := by
  subst hh
  obtain ⟨hbefore, henabled, -⟩ := (engine.along_append _ _ _ _).mp hrun
  obtain ⟨app, happ, hserve⟩ := served_of_enabled henabled
  rw [← List.singleton_append, ← List.append_assoc] at hstore
  obtain ⟨payload, ⟨rfl, ⟨stages⟩⟩ | ⟨rfl, ⟨stages⟩⟩⟩ := assertion_cases hrequest hserve
  · refine ⟨.here happ stages, rfl, ?_, List.nodup_singleton _⟩
    exact stages.signed_sublist.trans (List.singleton_sublist.mpr List.mem_cons_self)
  · obtain ⟨b, hb, hlocated⟩ : ∃ b : Beginning before, Remembers b.stages stages.pending ∧
        b.InOrder stages.pending.remainingCredentials := by
      refine pending_induction (P := fun b pending => b.InOrder pending.remainingCredentials)
        ?_ ?_ hbefore happ stages.pending_eq
      · intro _ _ _ _ _ _ _ stages _ hremembers _ _ _
        change (_ ++ [] ++ _).Sublist ([_] ++ _)
        rw [List.append_nil]
        exact stages.signed_sublist.append hremembers.remaining.sublist
      · intro _ _ _ _ _ _ _ stages _ _ hlocated
        exact hlocated.next rfl fun w => stages.signed_sublist
    obtain ⟨w, hw, htr⟩ := (b.next rfl).consistent hstore
    have hsub := (List.sublist_append_left _ _).trans
      (hlocated.next rfl (fun w => stages.signed_sublist) w hw htr)
    refine ⟨b.next rfl, ?_, hsub, hsub.nodup ?_⟩
    · exact (congrArg List.getLast? (Beginning.signed_next rfl)).trans List.getLast?_concat
    · exact b.stages.located_nodup hb.allowList
        ((Shelves.observer.admits_append _ _ _).mp htr).1

end Engine

section Bench

attribute [local instance] protectedExternals

theorem exists_protectedNext : ∃ before trace response app' after, protectedSession =
    before ++ .exchange (.cbor [0x08]) trace (.cbor (.ok (.assertion response))) app' :: after := by
  obtain ⟨h, hmem, hprotected⟩ := List.any_eq_true.mp
    (show protectedSession.any Happening.isProtectedNext = true by decide +kernel)
  obtain ⟨before, after, hsplit⟩ := List.append_of_mem hmem
  unfold Happening.isProtectedNext at hprotected
  split at hprotected
  · exact ⟨before, _, _, _, after, hsplit⟩
  · cases hprotected

theorem relyingParty_confined_bench : ∃ trace response app', .exchange (.cbor [0x08]) trace
      (.cbor (.ok (.assertion response))) app' ∈ protectedSession ∧
    ∃ credential, FoundFor trace response.authData.rpIdHash credential := by
  obtain ⟨before, trace, response, app', after, hsplit⟩ := exists_protectedNext
  have hrun : engine.Executes none protectedSession := World.executes_session _ _ _
  rw [hsplit] at hrun ⊢
  obtain ⟨-, henabled, -⟩ := (engine.along_append _ _ _ _).mp hrun
  obtain ⟨app, -, hserve⟩ := served_of_enabled henabled
  obtain ⟨credential, -, -, hfound, -⟩ := (relyingParty_confined hserve).1 _ rfl rfl
  exact ⟨trace, response, app', by simp, credential, hfound⟩

theorem signIn_in_order_bench : ∃ before trace response app' after, protectedSession =
    before ++ .exchange (.cbor [0x08]) trace (.cbor (.ok (.assertion response))) app' :: after ∧
    ∃ b : Beginning (before ++
      [.exchange (.cbor [0x08]) trace (.cbor (.ok (.assertion response))) app']), b.signed.Nodup := by
  obtain ⟨before, trace, response, app', after, hsplit⟩ := exists_protectedNext
  have hrun : engine.Executes none protectedSession := World.executes_session _ _ _
  have hstore := consistentStore_protectedSession
  rw [hsplit] at hrun hstore
  obtain ⟨b, -, -, hnodup⟩ := signIn_in_order before after _ rfl rfl hrun hstore
  exact ⟨before, trace, response, app', after, hsplit, b, hnodup⟩

end Bench

end SoftwareAuthenticator.Ctap
