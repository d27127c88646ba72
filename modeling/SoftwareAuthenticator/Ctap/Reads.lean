import SoftwareAuthenticator.Ctap.Stages

/-!
# Commands that only read the store

Up to the point where it signs, a getAssertion, a getNextAssertion or a U2F authentication has
written nothing to the store.
-/

namespace SoftwareAuthenticator.Ctap

def StoreOp.isRead : StoreOp → Bool
  | .put _ | .insertOrReplaceDiscoverable _ | .delete _ | .clear | .setPinState _ |
    .setSignatureCounter _ | .setLargeBlobArray _ | .sealCredentialId _ _ => false
  | _ => true

def EnvOp.isRead : EnvOp → Bool
  | .store op => op.isRead
  | _ => true

abbrev Reads {ε α : Type} (c : EngineM ε α) : Prop :=
  Cmd.Confined EnvOp.isRead (fun _ : CtapApp => ()) c

section Basic

variable {ε α : Type}

theorem reads_askEnv (op : EnvOp) (h : op.isRead = true) : Reads (askEnv (ε := ε) op) :=
  .part (Cmd.MovePart.ask (I := env) op h)

theorem reads_modify (f : CtapApp → CtapApp) : Reads (Cmd.modify f : EngineM ε Unit) :=
  .part (.modify f fun _ => rfl)

theorem reads_now : Reads (now (ε := ε)) := reads_askEnv _ rfl

theorem reads_randomArray (n : ℕ) : Reads (randomArray (ε := ε) n) :=
  .bind (reads_askEnv (.random n) rfl) fun _ => .pure _

theorem reads_askUser (request : PresenceRequest) : Reads (askUser (ε := ε) request) := by
  refine .bind (reads_askEnv .isCancelled rfl) fun cancelled => ?_
  split
  · exact .pure _
  · exact .bind (reads_askEnv (.keepalive true) rfl) fun _ =>
      .bind (reads_askEnv (.confirm request) rfl) fun _ =>
      .bind (reads_askEnv (.keepalive false) rfl) fun _ => .pure _

theorem reads_observeToken : Reads (observeToken (ε := ε)) :=
  .bind reads_now fun _ => .bind (reads_modify _) fun _ => .gets _

theorem reads_observed (f : TokenState → α) : Reads (do return f (← observeToken) : EngineM ε α) :=
  .bind reads_observeToken fun _ => .pure _

theorem reads_observeLargeBlobState (command : Option UInt8) :
    Reads (observeLargeBlobState (ε := ε) command) :=
  built_observeLargeBlobState reads_now (reads_observed _) (reads_modify _) command

end Basic

theorem reads_beginRequest (command : UInt8) : Reads (beginRequest command) :=
  .bind (reads_observeLargeBlobState _) fun _ => built_forgetAssertion (reads_modify _) _

theorem reads_confirmUserPresence (request : PresenceRequest) :
    Reads (confirmUserPresence request) :=
  .bind (reads_askUser request) fun _ => .ofExcept _

theorem reads_collectPresence (pinUvAuth : Option (PinProtocol × Bytes))
    (request : PresenceRequest) : Reads (collectPresence pinUvAuth request) :=
  .bind (built_tokenPresence (reads_observed _) _) fun _ =>
    .bind (Cmd.Built.when (reads_confirmUserPresence request)) fun _ =>
    .bind reads_observeToken fun _ => reads_modify _

theorem reads_nextCredential (rpId : String) (ids : List Bytes) : Reads (nextCredential rpId ids) :=
  built_nextCredential (fun id => reads_askEnv (.store (.get id)) rfl) rpId ids

theorem reads_rememberAssertion (pending : Duration → PendingAssertion) (remaining : List Bytes) :
    Reads (rememberAssertion pending remaining) :=
  built_rememberAssertion reads_now (fun _ => reads_modify _) pending remaining

section Externals

variable [Externals]

theorem reads_decapsulate (protocol : PinProtocol) (platformKey : Entries) :
    Reads (decapsulate protocol platformKey) := by
  have draw : ∀ n, Reads (drawKeyAgreementKey n) := by
    intro n
    induction n with
    | zero => exact .fail _
    | succ n ih =>
      refine .bind (reads_randomArray _) fun bytes => ?_
      split
      · exact .pure _
      · exact ih
  refine .bind (.bind (.gets _) fun key => ?_) fun _ => .ofExcept _
  split
  · exact .pure _
  · exact .bind (draw _) fun _ => .bind (reads_modify _) fun _ => .pure _

theorem reads_assertionHmacSecret (request : Option HmacSecretRequest)
    (credential : CredentialRecord) (userVerified : Bool) :
    Reads (assertionHmacSecret request credential userVerified) := by
  cases request with
  | none => exact .pure _
  | some request =>
    exact .bind (.bind (reads_decapsulate _ _) fun _ => .bind (.ofExcept _) fun _ =>
      .bind (built_okOr _ _) fun _ => .bind (built_encryptForPlatform (reads_randomArray _) _ _ _) fun _ =>
      .pure _)
      fun _ => .pure _

end Externals

def EnvOp.countsFor (credential : CredentialRecord) : EnvOp → Bool
  | .store (.put record) => record = { credential with signCount := record.signCount }
  | .store (.setSignatureCounter _) => true
  | op => op.isRead

abbrev Counts {ε α : Type} (credential : CredentialRecord) (c : EngineM ε α) : Prop :=
  Cmd.Confined (EnvOp.countsFor credential) (fun _ : CtapApp => ()) c

theorem EnvOp.countsFor_of_isRead {credential : CredentialRecord} {op : EnvOp}
    (h : op.isRead = true) : op.countsFor credential = true := by
  cases op with
  | store op =>
    cases op with
    | put | setSignatureCounter => cases h
    | _ => exact h
  | _ => rfl

theorem Reads.counts {ε α : Type} {credential : CredentialRecord} {c : EngineM ε α}
    (hc : Reads c) : Counts credential c :=
  Cmd.Moves.mono hc (fun _ => EnvOp.countsFor_of_isRead) fun _ _ h => h

section Counts

variable {credential : CredentialRecord}

theorem counts_advanceSignatureCounter : Counts credential (advanceSignatureCounter credential) := by
  unfold advanceSignatureCounter
  split
  · refine .bind (built_orStatus (reads_askEnv (.store .signatureCounter) rfl).counts) fun count =>
      .bind (built_orStatus ?_) fun _ => .pure _
    exact .part (Cmd.MovePart.ask (I := env) (.store (.setSignatureCounter _)) rfl)
  · refine .bind (built_orStatus ?_) fun _ => .pure _
    exact .part (Cmd.MovePart.ask (I := env) (.store (.put _)) (decide_eq_true rfl))

variable [Externals]

theorem counts_signAssertion (rpId : String) (clientHash : Bytes)
    (userPresent userVerified : Bool) (extensions : Option Bytes) : Counts credential
      (signAssertion credential rpId clientHash userPresent userVerified extensions) := by
  refine .bind (built_okOr _ _) fun key => .bind counts_advanceSignatureCounter fun counted =>
    .bind (Reads.counts ?_) fun _ => .pure _
  exact .bind (reads_askEnv (.sign _ _ _ _) rfl) fun _ => built_okOr _ _

theorem counts_assertFirst (rpId : String) (clientHash : Bytes) (choices : AssertionChoices)
    (userPresent userVerified : Bool) (token : Option UInt64) (rest : List CredentialRecord) :
    Counts credential (assertFirst rpId clientHash choices userPresent userVerified token credential
      rest) :=
  .bind (.ofExcept _) fun _ => .bind (reads_assertionHmacSecret _ _ _).counts fun _ =>
    .bind (.ofExcept _) fun _ => .bind (counts_signAssertion _ _ _ _ _) fun _ =>
    .bind (reads_rememberAssertion _ _).counts fun _ => built_respondWith _

theorem counts_assertNext (pending : PendingAssertion) (remaining : List Bytes) :
    Counts credential (assertNext pending credential remaining) :=
  .bind (built_nextHmacSecret (reads_randomArray _).counts _ _) fun _ => .bind (.ofExcept _) fun _ =>
    .bind (counts_signAssertion _ _ _ _ _) fun _ => .bind (reads_rememberAssertion _ _).counts
    fun _ => built_respondWith _

end Counts

end SoftwareAuthenticator.Ctap
