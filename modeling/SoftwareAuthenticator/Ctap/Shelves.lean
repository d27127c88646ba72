import Mathlib.Data.Set.Insert
import SoftwareAuthenticator.Ctap.Reads
import SoftwareAuthenticator.Ctap.Assertions

/-!
# A consistent store

The shelves say which records may lie in the store under each credential ID: a record the store
answers lies there, and what the engine writes may lie there afterwards, whether the write
succeeded or not. That a record is gone is always possible.
-/

namespace SoftwareAuthenticator.Ctap

abbrev Shelves := Bytes → Set CredentialRecord

namespace Shelves

variable {w : Shelves} {id : Bytes} {record : CredentialRecord} {tr : Trace}

/-- What is found where `record` was written: the store sets the time of creation. -/
def written (record : CredentialRecord) : Set CredentialRecord :=
  {found | ∃ createdAt, found = { record with createdAt }}

def next (w : Shelves) : env.Event → Shelves
  | ⟨.store (.get id), .ok (some record)⟩ => Function.update w id {record}
  | ⟨.store .list, .ok records⟩ => fun id =>
    match records.find? fun record => record.credentialId = id with
    | some record => {record}
    | none => w id
  | ⟨.store (.put record), .ok _⟩ => Function.update w record.credentialId (written record)
  | ⟨.store (.put record), .error _⟩ | ⟨.store (.insertOrReplaceDiscoverable record), _⟩ =>
    Function.update w record.credentialId (w record.credentialId ∪ written record)
  | _ => w

def admits (w : Shelves) : env.Event → Prop
  | ⟨.store (.get id), .ok (some record)⟩ => record ∈ w id
  | ⟨.store .list, .ok records⟩ => (records.map (·.credentialId)).Nodup ∧
    ∀ record ∈ records, record ∈ w record.credentialId
  | _ => True

def observer : Observer env Shelves where
  admits := admits
  next := next
  safe _ := True

def WellFormed (w : Shelves) : Prop := ∀ id, ∀ record ∈ w id, record.credentialId = id

def writes : EnvOp → Option CredentialRecord
  | .store (.put record) | .store (.insertOrReplaceDiscoverable record) => some record
  | _ => none

theorem mem_update {id' : Bytes} {shelf : Set CredentialRecord}
    (h : record ∈ Function.update w id shelf id') : (id' = id ∧ record ∈ shelf) ∨ record ∈ w id' := by
  by_cases heq : id' = id
  · subst heq
    rw [Function.update_self] at h
    exact .inl ⟨rfl, h⟩
  · rw [Function.update_of_ne heq] at h
    exact .inr h

theorem subset_update (w : Shelves) (record : CredentialRecord) (id : Bytes) :
    w id ⊆ Function.update w record.credentialId (w record.credentialId ∪ written record) id := by
  by_cases heq : id = record.credentialId
  · rw [heq, Function.update_self]
    exact Set.subset_union_left
  · rw [Function.update_of_ne heq]

theorem mem_next {e : env.Event} (he : w.admits e) (h : record ∈ w.next e id) :
    record ∈ w id ∨ ∃ record₀, writes e.op = some record₀ ∧ record₀.credentialId = id ∧
      record ∈ written record₀ := by
  unfold next at h
  split at h
  · rcases mem_update h with ⟨rfl, rfl⟩ | h
    · exact .inl he
    · exact .inl h
  · split at h
    · rename_i found hfound
      cases h
      have hid : record.credentialId = id := by simpa using List.find?_some hfound
      rw [← hid]
      exact .inl (he.2 record (List.mem_of_find?_eq_some hfound))
    · exact .inl h
  · rename_i record₀ _
    rcases mem_update h with ⟨rfl, hfound⟩ | h
    · exact .inr ⟨record₀, rfl, rfl, hfound⟩
    · exact .inl h
  · rename_i record₀ _
    rcases mem_update h with ⟨rfl, hfound | hfound⟩ | h
    · exact .inl hfound
    · exact .inr ⟨record₀, rfl, rfl, hfound⟩
    · exact .inl h
  · rename_i record₀ _
    rcases mem_update h with ⟨rfl, hfound | hfound⟩ | h
    · exact .inl hfound
    · exact .inr ⟨record₀, rfl, rfl, hfound⟩
    · exact .inl h
  · exact .inl h

theorem mem_after (htr : observer.Admits w tr) (h : record ∈ observer.after w tr id) :
    record ∈ w id ∨ ∃ e ∈ tr, ∃ record₀, writes e.op = some record₀ ∧
      record₀.credentialId = id ∧ record ∈ written record₀ := by
  induction tr generalizing w with
  | nil => exact .inl h
  | cons e tr ih =>
    rcases ih htr.2 h with hbefore | ⟨e', he', hwritten⟩
    · rcases mem_next htr.1 hbefore with hbefore | hwritten
      · exact .inl hbefore
      · exact .inr ⟨e, List.mem_cons_self, hwritten⟩
    · exact .inr ⟨e', List.mem_cons_of_mem e he', hwritten⟩

theorem mem_of_reads (htr : observer.Admits w tr) (hread : ∀ e ∈ tr, EnvOp.isRead e.op = true)
    (h : record ∈ observer.after w tr id) : record ∈ w id := by
  rcases mem_after htr h with h | ⟨e, he, record₀, hwrites, -⟩
  · exact h
  · have hop := hread e he
    unfold writes at hwrites
    split at hwrites
    · rename_i heq
      rw [heq] at hop
      cases hop
    · rename_i heq
      rw [heq] at hop
      cases hop
    · cases hwrites

theorem mem_of_get (htr : observer.Admits w tr) (hread : ∀ e ∈ tr, EnvOp.isRead e.op = true)
    (h : (⟨.store (.get id), .ok (some record)⟩ : env.Event) ∈ tr) : record ∈ w id := by
  obtain ⟨early, late, rfl⟩ := List.append_of_mem h
  obtain ⟨hearly, hget, -⟩ := (observer.admits_append _ _ _).mp htr
  exact mem_of_reads hearly (fun e he => hread e (List.mem_append_left _ he)) hget

/-- Counting leaves what lies there, or the credential that counts. -/
theorem mem_of_counts (htr : observer.Admits w tr) {credential : CredentialRecord}
    (hcounts : ∀ e ∈ tr, EnvOp.countsFor credential e.op = true)
    (h : record ∈ observer.after w tr id) :
    record ∈ w id ∨ (id = credential.credentialId ∧ ∃ signCount createdAt,
      record = { credential with signCount, createdAt }) := by
  rcases mem_after htr h with h | ⟨e, he, record₀, hwrites, rfl, createdAt, heq⟩
  · exact .inl h
  · have hop := hcounts e he
    unfold writes at hwrites
    split at hwrites
    · rename_i heq'
      rw [heq'] at hop
      cases hwrites
      have hcount : record₀ = { credential with signCount := record₀.signCount } :=
        of_decide_eq_true hop
      cases heq
      refine .inr ⟨by rw [hcount], record₀.signCount, createdAt, ?_⟩
      conv_lhs => rw [hcount]
    · rename_i heq'
      rw [heq'] at hop
      cases hop
    · cases hwrites

theorem WellFormed.after (hw : w.WellFormed) (htr : observer.Admits w tr) :
    (observer.after w tr).WellFormed := by
  intro id record h
  rcases mem_after htr h with h | ⟨_, -, record₀, -, rfl, createdAt, heq⟩
  · exact hw id record h
  · cases heq
    rfl

theorem find_credential {records : List CredentialRecord}
    (h : (records.map (·.credentialId)).Nodup) :
    records.find? (fun other => other.credentialId = id) = some record ↔
      record ∈ records ∧ record.credentialId = id := by
  constructor
  · intro hfind
    exact ⟨List.mem_of_find?_eq_some hfind, by simpa using List.find?_some hfind⟩
  · rintro ⟨hmem, rfl⟩
    have hsome : (records.find? fun other =>
        other.credentialId = record.credentialId).isSome = true :=
      List.find?_isSome.mpr ⟨record, hmem, by simp⟩
    obtain ⟨found, hfound⟩ := Option.isSome_iff_exists.mp hsome
    have hid : found.credentialId = record.credentialId := by simpa using List.find?_some hfound
    rw [hfound, List.inj_on_of_nodup_map h (List.mem_of_find?_eq_some hfound) hmem hid]

theorem mem_next_list {records : List CredentialRecord} (h : (records.map (·.credentialId)).Nodup)
    {record' : CredentialRecord} (hmem : record ∈ records)
    (hshelf : record' ∈ w.next ⟨.store .list, .ok records⟩ record.credentialId) :
    record' = record := by
  have hfind := (find_credential h).mpr ⟨hmem, rfl⟩
  change record' ∈ (match records.find? fun other =>
      other.credentialId = record.credentialId with
    | some record => {record}
    | none => w record.credentialId) at hshelf
  rw [hfind] at hshelf
  exact hshelf

end Shelves

end SoftwareAuthenticator.Ctap
