import SoftwareAuthenticator.Ctap.MemoryStore
import SoftwareAuthenticator.Ctap.Shelves

/-!
# Consistent stores

What is proved of credentials that a request looks up again rests on the store answering
what lies in it. The store in memory does.
-/

namespace SoftwareAuthenticator.Ctap

theorem record_append (hs hs' : List Happening) : record (hs ++ hs') = record hs ++ record hs' :=
  List.flatMap_append

theorem record_singleton (h : Happening) : record [h] = h.trace := List.append_nil h.trace

def Happening.isExchange : Happening → Bool
  | .exchange _ _ _ _ => true
  | _ => false

/-- The store answers what lies in it, in every stretch of requests between which the
engine was not stopped: nobody else writes a record while the engine runs, though one may
remove some. -/
def ConsistentStore (hs : List Happening) : Prop :=
  ∀ before stretch after, hs = before ++ stretch ++ after →
    (∀ h ∈ stretch, Happening.isExchange h = true) →
    ∃ w : Shelves, w.WellFormed ∧ Shelves.observer.Admits w (record stretch)

theorem Happening.isExchange_of_isNext {h : Happening} (hnext : h.isNext = true) :
    h.isExchange = true := by
  cases h with
  | exchange request trace reply app' => rfl
  | powerUp | cutRequest | cutPowerUp | powerOff => cases hnext

theorem consistentStore_of_admits {hs : List Happening} {w : Shelves} (hw : w.WellFormed)
    (htr : Shelves.observer.Admits w (record hs)) : ConsistentStore hs := by
  rintro before stretch after rfl -
  rw [record_append, record_append] at htr
  simp only [Observer.admits_append] at htr
  obtain ⟨⟨hbefore, hstretch⟩, -⟩ := htr
  exact ⟨_, hw.after hbefore, hstretch⟩

namespace MemoryStore

variable {store : MemoryStore} {id : Bytes} {record : CredentialRecord} {w : Shelves}

def Distinct (store : MemoryStore) : Prop := (store.credentials.map (·.credentialId)).Nodup

/-- What the store holds under each ID may lie on the shelf. -/
def Covers (store : MemoryStore) (w : Shelves) : Prop :=
  store.Distinct ∧ ∀ id, ∀ record ∈ store.get id, record ∈ w id

theorem get_eq_some (h : store.Distinct) :
    store.get id = some record ↔ record ∈ store.credentials ∧ record.credentialId = id :=
  Shelves.find_credential h

theorem get_eq_none :
    store.get id = none ↔ ∀ record ∈ store.credentials, record.credentialId ≠ id := by
  simp [get]

theorem perm_list (store : MemoryStore) : store.list.Perm store.credentials :=
  List.perm_insertionSort _ _

theorem find_list (h : store.Distinct) (id : Bytes) :
    (store.list.find? fun record => record.credentialId = id) = store.get id := by
  have hlist : (store.list.map (·.credentialId)).Nodup :=
    (store.perm_list.map _).nodup_iff.mpr h
  apply Option.ext
  intro record
  rw [Shelves.find_credential hlist, get_eq_some h, store.perm_list.mem_iff]

theorem Covers.list (h : store.Covers w) :
    w.admits ⟨.store .list, .ok store.list⟩ ∧
      store.Covers (w.next ⟨.store .list, .ok store.list⟩) := by
  refine ⟨⟨(store.perm_list.map _).nodup_iff.mpr h.1, fun record hmem => ?_⟩, h.1,
    fun id record hget => ?_⟩
  · exact h.2 _ _ ((get_eq_some h.1).mpr ⟨store.perm_list.mem_iff.mp hmem, rfl⟩)
  · dsimp only [Shelves.next]
    rw [find_list h.1 id, hget]
    rfl

theorem ids_replace (store : MemoryStore) (record : CredentialRecord) :
    (store.replace record).credentials.map (·.credentialId) =
      store.credentials.map (·.credentialId) := by
  unfold replace
  rw [List.map_map]
  refine List.map_congr_left fun existing _ => ?_
  dsimp only [Function.comp]
  split
  · rename_i heq
    exact heq.symm
  · rfl

theorem get_replace (store : MemoryStore) (record : CredentialRecord) (id : Bytes) :
    (store.replace record).get id = (store.get id).map fun existing =>
      if existing.credentialId = record.credentialId then
        { record with createdAt := existing.createdAt }
      else existing := by
  unfold get replace
  rw [List.find?_map]
  congr 2
  funext existing
  dsimp only [Function.comp]
  split
  · rename_i heq
    rw [heq]
  · rfl

theorem Covers.replace (h : store.Covers w) :
    (store.replace record).Covers (w.next ⟨.store (.put record), .ok ()⟩) := by
  refine ⟨?_, fun id found hfound => ?_⟩
  · unfold Distinct
    rw [store.ids_replace record]
    exact h.1
  · rw [get_replace] at hfound
    obtain ⟨existing, hget, rfl⟩ := Option.map_eq_some_iff.mp hfound
    obtain ⟨-, hid⟩ := (get_eq_some h.1).mp hget
    change _ ∈ Function.update w record.credentialId (Shelves.written record) id
    split
    · rename_i heq
      rw [← hid, heq, Function.update_self]
      exact ⟨_, rfl⟩
    · rename_i hne
      rw [Function.update_of_ne (hid ▸ hne)]
      exact h.2 id existing hget

variable (h : store.Covers w)

include h

/-- What is left of the store is covered by more shelves. -/
theorem Covers.mono {store' : MemoryStore} {w' : Shelves}
    (hstore : store'.credentials.Sublist store.credentials) (hw : ∀ id, w id ⊆ w' id) :
    store'.Covers w' := by
  have hdistinct : store'.Distinct := h.1.sublist (hstore.map _)
  refine ⟨hdistinct, fun id record hget => hw id (h.2 id record ?_)⟩
  obtain ⟨hmem, hid⟩ := (get_eq_some hdistinct).mp hget
  exact (get_eq_some h.1).mpr ⟨hstore.subset hmem, hid⟩

/-- A record under an ID of its own is added to what is left. -/
theorem Covers.append {store' : MemoryStore} {kept : List CredentialRecord} {w' : Shelves}
    (hstore : store'.credentials = kept ++ [record]) (hkept : kept.Sublist store.credentials)
    (hfree : store.get record.credentialId = none) (hrecord : record ∈ w' record.credentialId)
    (hw : ∀ id ≠ record.credentialId, w id ⊆ w' id) : store'.Covers w' := by
  have hnew : ∀ existing ∈ kept, existing.credentialId ≠ record.credentialId :=
    fun existing hmem => get_eq_none.mp hfree existing (hkept.subset hmem)
  have hdistinct : store'.Distinct := by
    unfold Distinct
    rw [hstore, List.map_append]
    refine List.Nodup.append (h.1.sublist (hkept.map _)) (List.nodup_singleton _) ?_
    simpa using hnew
  refine ⟨hdistinct, fun id found hget => ?_⟩
  obtain ⟨hmem, rfl⟩ := (get_eq_some hdistinct).mp hget
  rw [hstore] at hmem
  rcases List.mem_append.mp hmem with hmem | hmem
  · exact hw _ (hnew found hmem) (h.2 _ _ ((get_eq_some h.1).mpr ⟨hkept.subset hmem, rfl⟩))
  · rw [List.mem_singleton.mp hmem]
    exact hrecord

variable [Externals]

theorem Covers.put (record : CredentialRecord) :
    (store.put record).2.Covers (w.next ⟨.store (.put record), (store.put record).1⟩) := by
  have hfailed (err : StoreError) : store.Covers (w.next ⟨.store (.put record), .error err⟩) :=
    h.mono (.refl _) (w.subset_update record)
  unfold MemoryStore.put
  split
  · exact hfailed _
  · split
    · exact h.replace
    · rename_i hget
      split
      · exact hfailed _
      · refine h.append rfl (.refl _) hget ?_ fun id hid => ?_
        · change _ ∈ Function.update w record.credentialId (Shelves.written record) _
          rw [Function.update_self]
          exact ⟨_, rfl⟩
        · exact (Function.update_of_ne hid _ w).ge

theorem Covers.insertOrReplaceDiscoverable (record : CredentialRecord) :
    (store.insertOrReplaceDiscoverable record).2.Covers
      (w.next ⟨.store (.insertOrReplaceDiscoverable record),
        (store.insertOrReplaceDiscoverable record).1⟩) := by
  have hkept {store' : MemoryStore} (hstore : store'.credentials.Sublist store.credentials) (answer) :
      store'.Covers (w.next ⟨.store (.insertOrReplaceDiscoverable record), answer⟩) :=
    h.mono hstore (w.subset_update record)
  unfold MemoryStore.insertOrReplaceDiscoverable
  split
  · exact hkept (.refl _) _
  · split
    · exact hkept (.refl _) _
    · split
      · exact hkept (.refl _) _
      · rename_i hfree
        split
        · exact hkept (.refl _) _
        · refine h.append rfl List.filter_sublist (by simpa using hfree) ?_ fun id _ => ?_
          · change _ ∈ Function.update w record.credentialId _ _
            rw [Function.update_self]
            exact .inr ⟨_, rfl⟩
          · exact w.subset_update record id

theorem Covers.handle (sealed : Bytes) (op : StoreOp) :
    w.admits ⟨.store op, (store.handle sealed op).1⟩ ∧
      (store.handle sealed op).2.Covers (w.next ⟨.store op, (store.handle sealed op).1⟩) := by
  cases op with
  | get id =>
    change w.admits ⟨.store (.get id), .ok (store.get id)⟩ ∧
      store.Covers (w.next ⟨.store (.get id), .ok (store.get id)⟩)
    cases hget : store.get id with
    | none => exact ⟨trivial, h⟩
    | some record =>
      refine ⟨h.2 id record hget, h.1, fun id' found hfound => ?_⟩
      change found ∈ Function.update w id {record} id'
      by_cases hid : id' = id
      · subst hid
        rw [Function.update_self]
        exact Option.some.inj (hfound.symm.trans hget)
      · rw [Function.update_of_ne hid]
        exact h.2 id' found hfound
  | list => exact h.list
  | put record => exact ⟨trivial, h.put record⟩
  | insertOrReplaceDiscoverable record => exact ⟨trivial, h.insertOrReplaceDiscoverable record⟩
  | delete id => exact ⟨trivial, h.mono List.filter_sublist fun _ => le_rfl⟩
  | clear => exact ⟨trivial, h.mono (List.nil_sublist _) fun _ => le_rfl⟩
  | setPinState state =>
    refine ⟨trivial, ?_⟩
    change (store.setPinState state).2.Covers w
    unfold setPinState
    split
    · exact h
    · exact h
  | setLargeBlobArray array =>
    refine ⟨trivial, ?_⟩
    change (store.setLargeBlobArray array).2.Covers w
    unfold setLargeBlobArray
    split
    · exact h
    · split
      · exact h
      · exact h
  | count | maxCredentials | pinState | directoryFlush | signatureCounter | setSignatureCounter _
  | largeBlobArray | attestation | sealCredentialId _ _ | openCredentialId _ _ =>
    exact ⟨trivial, h⟩

end MemoryStore

variable [Externals]

theorem World.shelves_handle (world : World) (w : Shelves) (op : EnvOp)
    (h : world.store.Covers w) : Shelves.observer.admits w ⟨op, (world.handle op).1⟩ ∧
      (world.handle op).2.store.Covers (Shelves.observer.next w ⟨op, (world.handle op).1⟩) := by
  cases op with
  | store op => exact h.handle _ op
  | now | random _ | generateKey _ | sign _ _ _ _ | selfCertificate _ _ _ | isCancelled
  | keepalive _ | confirm _ | observe _ => exact ⟨trivial, h⟩

theorem World.consistentStore_session {world : World} (h : world.store.Distinct)
    (settings : Settings) (requests : List Request) :
    ConsistentStore (world.session settings requests) := by
  have hcovers : world.store.Covers fun id => {record | world.store.get id = some record} :=
    ⟨h, fun _ _ hget => hget⟩
  exact consistentStore_of_admits (fun _ _ hget => ((MemoryStore.get_eq_some h).mp hget).2)
    (World.admits_session World.shelves_handle settings requests hcovers)

end SoftwareAuthenticator.Ctap
