import SoftwareAuthenticator.Store.Manifest

/-!
# Cleaning up after a commit

Once a manifest is published the store removes the credential files that are no longer needed.
Any call on the file system may fail, and anything may lie in the directories.
-/

namespace SoftwareAuthenticator.Store

open Ctap (Corruption CredentialRecord StoreError sortNewestFirst)

/-- What lies under a name: a regular file and what reading it gives, a directory, or a
symbolic link, into the two directories or elsewhere. -/
inductive Entry where
  | file (contents : Except StoreError Bytes)
  | directory
  | link (location : Location) (name : Bytes)
  | linkAway (answer : Except StoreError (Option Bytes))

abbrev Directories := Location → Bytes → Option Entry

/-- `metadata.is_file()`, without following links. -/
def isFile : Option Entry → Bool
  | some (.file _) => true
  | _ => false

def Directories.erase (dirs : Directories) (location : Location) (name : Bytes) : Directories :=
  fun l n => if l = location ∧ n = name then none else dirs l n

/-- Opening a file goes through at most `links` symbolic links. -/
def readFile (dirs : Directories) (links : ℕ) (location : Location) (name : Bytes) :
    Except StoreError (Option Bytes) :=
  match dirs location name, links with
  | none, _ => .ok none
  | some (.file contents), _ => contents.map some
  | some .directory, _ => .error .io
  | some (.linkAway answer), _ => answer
  | some (.link _ _), 0 => .error .io
  | some (.link location name), links + 1 => readFile dirs links location name

def maxLinks : ℕ := 40

def Manifest.get (manifest : Manifest) (name : Bytes) : Option Location :=
  manifest.entries.lookup name

/-- What the credential keys are for. `openRecord` opens the envelope, which binds the name
and the location, and decodes the record. -/
structure CredentialKeys where
  fileName : Bytes → Except StoreError Bytes
  openSet : Bytes → Except Corruption Bytes
  openRecord : Location → Bytes → Bytes → Except Corruption CredentialRecord

/-- `credential-set/active` lies beside the records of a former legacy store. -/
def activeFile : Bytes := [97, 99, 116, 105, 118, 101]

section Reading

variable (keys : CredentialKeys) (dirs : Directories)

def activeManifest : Except StoreError Manifest :=
  match readFile dirs maxLinks .legacy activeFile with
  | .ok (some sealed) => (keys.openSet sealed >>= decode).mapError fun _ => .credentialSetUnavailable
  | _ => .error .credentialSetUnavailable

def readCredentialIn (name : Bytes) (location : Location) :
    Except StoreError (Option CredentialRecord) := do
  let some sealed ← readFile dirs maxLinks location name | return none
  let record ← (keys.openRecord location name sealed).mapError fun _ => .corrupt
  if (← keys.fileName record.credentialId) ≠ name then throw .corrupt
  return some record

def get (credentialId : Bytes) : Except StoreError (Option CredentialRecord) := do
  let name ← keys.fileName credentialId
  let some location := (← activeManifest keys dirs).get name | return none
  let some record ← readCredentialIn keys dirs name location | return none
  if record.credentialId ≠ credentialId then throw .corrupt
  return some record

/-- Records that cannot be read are skipped. -/
def list : Except StoreError (List CredentialRecord) := do
  let manifest ← activeManifest keys dirs
  return sortNewestFirst <| manifest.entries.filterMap fun e =>
    match readCredentialIn keys dirs e.1 e.2 with
    | .ok found => found
    | .error _ => none

end Reading

/-- What the file system does at one entry of a directory: the name it gives, and whether
looking up the other location and removing the file succeed. -/
structure Turn where
  entry : Except StoreError Bytes
  lookup : Except StoreError Unit
  removal : Except StoreError Unit

structure Pass where
  opening : Except StoreError Unit
  turns : List Turn
  flush : Except StoreError Unit

section Cleaning

variable (manifest : Manifest) (location : Location)

def holdsRecord (dirs : Directories) (turn : Turn) (name : Bytes) : Except StoreError Bool :=
  turn.lookup.map fun _ => isFile (dirs location name)

def reclaimable (dirs : Directories) (turn : Turn) (name : Bytes) : Except StoreError Bool :=
  match manifest.get name with
  | none => .ok true
  | some member => if member = location then .ok false else holdsRecord member dirs turn name

def removeFileIfPresent (dirs : Directories) (turn : Turn) (name : Bytes) :
    Except StoreError Unit × Directories :=
  match turn.removal, dirs location name with
  | .error err, _ => (.error err, dirs)
  | .ok (), some .directory => (.error .io, dirs)
  | .ok (), _ => (.ok (), dirs.erase location name)

def cleanup : List Turn → Directories → Except StoreError Unit × Directories
  | [], dirs => (.ok (), dirs)
  | turn :: turns, dirs =>
    match turn.entry with
    | .error err => (.error err, dirs)
    | .ok name =>
      if isCredentialFileName name then
        match reclaimable manifest location dirs turn name with
        | .error err => (.error err, dirs)
        | .ok false => cleanup turns dirs
        | .ok true =>
          match removeFileIfPresent location dirs turn name with
          | (.error err, dirs) => (.error err, dirs)
          | (.ok (), dirs) => cleanup turns dirs
      else cleanup turns dirs

/-- One round of the loop over the locations, and whether it left something pending. -/
def cleanupIn (pass : Pass) (dirs : Directories) : Bool × Directories :=
  match pass.opening with
  | .error _ => (true, dirs)
  | .ok () =>
    match cleanup manifest location pass.turns dirs with
    | (.error _, dirs) => (true, dirs)
    | (.ok (), dirs) => (!pass.flush.isOk, dirs)

def cleanupRetired (passes : Location → Pass) (dirs : Directories) : Bool × Directories :=
  let first := cleanupIn manifest .legacy (passes .legacy) dirs
  let second := cleanupIn manifest .managed (passes .managed) first.2
  (first.1 || second.1, second.2)

/-- One cleanup after the other, whatever was left pending. -/
def cleanups (runs : List (Location → Pass)) (dirs : Directories) : Directories :=
  runs.foldl (fun dirs passes => (cleanupRetired manifest passes dirs).2) dirs

end Cleaning

/-- What cleanup leaves alone: members where they belong and names of other files. Another file
with a member's name goes only beside the member's own. -/
structure Spares (manifest : Manifest) (dirs dirs' : Directories) : Prop where
  placed : ∀ name location, manifest.get name = some location →
    dirs' location name = dirs location name
  copies : ∀ name member location, manifest.get name = some member →
    dirs' location name ≠ dirs location name → isFile (dirs member name) = true
  foreign : ∀ name location, isCredentialFileName name = false →
    dirs' location name = dirs location name

section Sparing

variable {manifest : Manifest} {location : Location} {name : Bytes} {dirs dirs' : Directories}

theorem Spares.refl (manifest : Manifest) (dirs : Directories) : Spares manifest dirs dirs :=
  ⟨fun _ _ _ => rfl, fun _ _ _ _ h => absurd rfl h, fun _ _ _ => rfl⟩

theorem Spares.trans {dirs'' : Directories} (h : Spares manifest dirs dirs')
    (h' : Spares manifest dirs' dirs'') : Spares manifest dirs dirs'' where
  placed name location hget := (h'.placed name location hget).trans (h.placed name location hget)
  copies name member location hget hne := by
    by_cases hsame : dirs' location name = dirs location name
    · rw [← hsame] at hne
      rw [← h.placed name member hget]
      exact h'.copies name member location hget hne
    · exact h.copies name member location hget hsame
  foreign name location hname := (h'.foreign name location hname).trans (h.foreign name location hname)

theorem erase_of_ne {l : Location} {n : Bytes} (h : ¬(l = location ∧ n = name)) :
    dirs.erase location name l n = dirs l n := if_neg h

theorem spares_erase {turn : Turn} (hname : isCredentialFileName name = true)
    (h : reclaimable manifest location dirs turn name = .ok true) :
    Spares manifest dirs (dirs.erase location name) := by
  have hmember {member : Location} (hget : manifest.get name = some member) :
      member ≠ location ∧ isFile (dirs member name) = true := by
    simp only [reclaimable, hget, holdsRecord] at h
    split_ifs at h with heq
    · cases h
    · cases hlookup : turn.lookup with
      | error err => simp [hlookup, Except.map] at h
      | ok u => exact ⟨heq, by simpa [hlookup, Except.map] using h⟩
  refine ⟨fun n l hget => erase_of_ne ?_, fun n member l hget hne => ?_,
    fun n l hn => erase_of_ne ?_⟩
  · rintro ⟨rfl, rfl⟩
    exact (hmember hget).1 rfl
  · obtain ⟨-, rfl⟩ := not_not.mp (mt erase_of_ne hne)
    exact (hmember hget).2
  · rintro ⟨-, rfl⟩
    exact absurd (hn.symm.trans hname) Bool.false_ne_true

theorem spares_cleanup (turns : List Turn) (dirs : Directories) :
    Spares manifest dirs (cleanup manifest location turns dirs).2 := by
  fun_induction cleanup manifest location turns dirs with
  | case1 | case2 | case3 => exact .refl _ _
  | case4 _ _ _ _ _ _ _ ih => exact ih
  | case5 turn turns dirs name _ hname hreclaim err dirs' hremove =>
    unfold removeFileIfPresent at hremove
    split at hremove <;> cases hremove <;> exact .refl _ _
  | case6 turn turns dirs name _ hname hreclaim dirs' hremove ih =>
    refine .trans ?_ ih
    unfold removeFileIfPresent at hremove
    split at hremove <;> cases hremove
    exact spares_erase hname hreclaim
  | case7 _ _ _ _ _ _ ih => exact ih

theorem spares_cleanupIn (pass : Pass) (dirs : Directories) :
    Spares manifest dirs (cleanupIn manifest location pass dirs).2 := by
  have h : Spares manifest dirs (cleanup manifest location pass.turns dirs).2 :=
    spares_cleanup pass.turns dirs
  unfold cleanupIn
  split
  · exact .refl _ _
  · split <;> rename_i heq <;> rwa [heq] at h

theorem spares_cleanups (runs : List (Location → Pass)) (dirs : Directories) :
    Spares manifest dirs (cleanups manifest runs dirs) := by
  induction runs generalizing dirs with
  | nil => exact .refl _ _
  | cons passes runs ih =>
    exact ((spares_cleanupIn (passes .legacy) dirs).trans (spares_cleanupIn (passes .managed) _)).trans
      (ih _)

/-- The list is in the order of the names, so that it names each member once. -/
theorem get_of_mem (h : (name, location) ∈ manifest.entries) : manifest.get name = some location := by
  obtain ⟨entries, hascending⟩ := manifest
  change entries.lookup name = _
  induction entries with
  | nil => cases h
  | cons e es ih =>
    obtain ⟨hlt, hes⟩ := List.pairwise_cons.mp hascending
    rcases List.mem_cons.mp h with rfl | h
    · exact List.lookup_cons_self
    · have hname : e.1 < name := hlt _ (List.mem_map.mpr ⟨_, h, rfl⟩)
      rw [List.lookup_cons, beq_false_of_ne fun heq => List.lt_irrefl _ (heq ▸ hname)]
      exact ih hes h

/-- What is read depends on what lies there, and, of a link, on what it leads to. -/
theorem readFile_congr {links : ℕ} (h : dirs' location name = dirs location name)
    (hlink : ∀ l n links, dirs location name = some (.link l n) →
      readFile dirs' links l n = readFile dirs links l n) :
    readFile dirs' links location name = readFile dirs links location name := by
  unfold readFile
  rw [h]
  cases hentry : dirs location name with
  | none => rfl
  | some entry =>
    cases entry with
    | link l n =>
      cases links with
      | zero => rfl
      | succ links => exact hlink l n links hentry
    | _ => rfl

theorem readFile_of_isFile {links : ℕ} (h : dirs' location name = dirs location name)
    (hfile : isFile (dirs location name) = true) :
    readFile dirs' links location name = readFile dirs links location name :=
  readFile_congr h fun l n _ hentry => by
    rw [hentry] at hfile
    cases hfile

/-- The record is not behind a link, or behind one to the file of its name in the other
directory. -/
def Direct (dirs : Directories) (name : Bytes) (location : Location) : Prop :=
  ∀ l n, dirs location name = some (.link l n) → n = name ∧ isFile (dirs l name) = true

theorem Spares.readFile_eq (h : Spares manifest dirs dirs') {links : ℕ}
    (hget : manifest.get name = some location) (hdirect : Direct dirs name location) :
    readFile dirs' links location name = readFile dirs links location name := by
  refine readFile_congr (h.placed name location hget) fun l n links hentry => ?_
  obtain ⟨rfl, hfile⟩ := hdirect l n hentry
  refine readFile_of_isFile (not_not.mp fun hne => ?_) hfile
  have := h.copies n location l hget hne
  rw [hentry] at this
  cases this

theorem Spares.readCredentialIn_eq {keys : CredentialKeys} (h : Spares manifest dirs dirs')
    (hget : manifest.get name = some location) (hdirect : Direct dirs name location) :
    readCredentialIn keys dirs' name location = readCredentialIn keys dirs name location := by
  unfold readCredentialIn
  rw [h.readFile_eq hget hdirect]

theorem Spares.activeManifest_eq {keys : CredentialKeys} (h : Spares manifest dirs dirs')
    (hfile : isFile (dirs .legacy activeFile) = true) :
    activeManifest keys dirs' = activeManifest keys dirs := by
  unfold activeManifest
  rw [readFile_of_isFile (h.foreign activeFile .legacy rfl) hfile]

/-- Whatever lies in the directories and whatever fails: a member's record stays where it is,
of the regular files with a member's name one stays, and if no member is behind a link to a
file that is not its own, `get` and `list` answer as before. -/
theorem cleanup_spares_members (manifest : Manifest) (dirs : Directories)
    (runs : List (Location → Pass)) :
    (∀ name location, manifest.get name = some location →
      cleanups manifest runs dirs location name = dirs location name) ∧
    (∀ name location member, manifest.get name = some member → isFile (dirs location name) = true →
      ∃ kept, isFile (cleanups manifest runs dirs kept name) = true) ∧
    ∀ keys, activeManifest keys dirs = .ok manifest → isFile (dirs .legacy activeFile) = true →
      (∀ name location, manifest.get name = some location → Direct dirs name location) →
      (∀ id, get keys (cleanups manifest runs dirs) id = get keys dirs id) ∧
        list keys (cleanups manifest runs dirs) = list keys dirs := by
  have h : Spares manifest dirs (cleanups manifest runs dirs) := spares_cleanups runs dirs
  refine ⟨h.placed, fun name location member hget hfile => ?_, fun keys hactive hfile hdirect => ?_⟩
  · by_cases hsame : cleanups manifest runs dirs location name = dirs location name
    · exact ⟨location, hsame ▸ hfile⟩
    · exact ⟨member, h.placed name member hget ▸ h.copies name member location hget hsame⟩
  · have hsame := (h.activeManifest_eq hfile).trans hactive
    refine ⟨fun id => ?_, ?_⟩
    · simp only [get, hactive, hsame]
      refine congrArg _ (funext fun name => ?_)
      cases hget : manifest.get name with
      | none => simp only [bind, Except.bind, hget]
      | some location =>
        simp only [bind, Except.bind, hget, h.readCredentialIn_eq hget (hdirect name location hget)]
    · simp only [list, hactive, hsame]
      refine congrArg (fun records => Except.ok (sortNewestFirst records))
        (List.filterMap_congr fun e he => ?_)
      rw [h.readCredentialIn_eq (get_of_mem he) (hdirect _ _ (get_of_mem he))]

/-- A credential file that is left is a member where it belongs, or has the name of a member
without a regular file of its own. -/
def Settled (manifest : Manifest) (dirs : Directories) (location : Location) (name : Bytes) :
    Prop :=
  isCredentialFileName name = true → dirs location name ≠ none → ∃ member,
    manifest.get name = some member ∧ (member = location ∨ isFile (dirs member name) = false)

theorem isFile_of_holdsRecord {turn : Turn} {found : Bool}
    (h : holdsRecord location dirs turn name = .ok found) : isFile (dirs location name) = found := by
  unfold holdsRecord at h
  cases hlookup : turn.lookup with
  | error err => simp [hlookup, Except.map] at h
  | ok u => simpa [hlookup, Except.map] using h

theorem removed_of_ok {turn : Turn}
    (h : removeFileIfPresent location dirs turn name = (.ok (), dirs')) :
    dirs' = dirs.erase location name := by
  unfold removeFileIfPresent at h
  split at h <;> cases h
  rfl

theorem cleanup_none {l : Location} {n : Bytes} (turns : List Turn) (h : dirs l n = none) :
    (cleanup manifest location turns dirs).2 l n = none := by
  fun_induction cleanup manifest location turns dirs with
  | case1 | case2 | case3 => exact h
  | case4 _ _ _ _ _ _ _ ih => exact ih h
  | case5 turn turns dirs name _ hname hreclaim err dirs' hremove =>
    unfold removeFileIfPresent at hremove
    split at hremove <;> cases hremove <;> exact h
  | case6 turn turns dirs name _ hname hreclaim dirs' hremove ih =>
    apply ih
    rw [removed_of_ok hremove, Directories.erase, h, ite_self]
  | case7 _ _ _ _ _ _ ih => exact ih h

theorem Settled.cleanup (h : Settled manifest dirs location name) (l : Location)
    (turns : List Turn) : Settled manifest (cleanup manifest l turns dirs).2 location name := by
  intro hname hleft
  obtain ⟨member, hget, hplace⟩ := h hname (mt (cleanup_none turns) hleft)
  refine ⟨member, hget, hplace.imp_right fun hfile => ?_⟩
  rw [(spares_cleanup turns dirs).placed name member hget]
  exact hfile

/-- A cleanup without an error settles every name that it was given. -/
theorem settled_cleanup (turns : List Turn) (h : (cleanup manifest location turns dirs).1 = .ok ())
    (hname : .ok name ∈ turns.map Turn.entry) :
    Settled manifest (cleanup manifest location turns dirs).2 location name := by
  fun_induction cleanup manifest location turns dirs with
  | case1 => simp at hname
  | case2 | case3 => cases h
  | case4 turn turns dirs name' hentry _ hreclaim ih =>
    rcases List.mem_cons.mp hname with heq | hmem
    · cases hentry.symm.trans heq.symm
      refine Settled.cleanup (fun _ _ => ?_) location turns
      unfold reclaimable at hreclaim
      split at hreclaim
      · cases hreclaim
      · rename_i member hget
        refine ⟨member, hget, ?_⟩
        split_ifs at hreclaim with hsame
        · exact .inl hsame
        · exact .inr (isFile_of_holdsRecord hreclaim)
    · exact ih h hmem
  | case5 => cases h
  | case6 turn turns dirs name' hentry _ hreclaim dirs' hremove ih =>
    rcases List.mem_cons.mp hname with heq | hmem
    · cases hentry.symm.trans heq.symm
      refine Settled.cleanup (fun _ hleft => absurd ?_ hleft) location turns
      rw [removed_of_ok hremove]
      exact if_pos ⟨rfl, rfl⟩
    · exact ih h hmem
  | case7 turn turns dirs name' hentry hno ih =>
    rcases List.mem_cons.mp hname with heq | hmem
    · cases hentry.symm.trans heq.symm
      exact fun hyes => absurd hyes hno
    · exact ih h hmem

theorem settled_of_listed {turns : List Turn}
    (h : (cleanup manifest location turns dirs).1 = .ok ())
    (hlisted : isCredentialFileName name = true → dirs location name ≠ none →
      .ok name ∈ turns.map Turn.entry) :
    Settled manifest (cleanup manifest location turns dirs).2 location name :=
  fun hname hleft =>
    settled_cleanup turns h (hlisted hname (mt (cleanup_none turns) hleft)) hname hleft

theorem Spares.eq_of_settled (h : Spares manifest dirs dirs')
    (hnone : ∀ l n, dirs l n = none → dirs' l n = none)
    (hsettled : ∀ l n, Settled manifest dirs l n) : dirs' = dirs := by
  funext l n
  by_cases hname : isCredentialFileName n = true
  · by_cases hleft : dirs l n = none
    · exact (hnone l n hleft).trans hleft.symm
    · obtain ⟨member, hget, rfl | hfile⟩ := hsettled l n hname hleft
      · exact h.placed n member hget
      · refine not_not.mp fun hne => ?_
        rw [h.copies n member l hget hne] at hfile
        cases hfile
  · exact h.foreign n l (Bool.eq_false_of_not_eq_true hname)

theorem cleanupIn_eq (manifest : Manifest) (location : Location) (pass : Pass) (dirs : Directories) :
    cleanupIn manifest location pass dirs = (true, dirs) ∨
      ∃ pending, cleanupIn manifest location pass dirs =
        (pending, (cleanup manifest location pass.turns dirs).2) ∧
        (pending = false → (cleanup manifest location pass.turns dirs).1 = .ok ()) := by
  unfold cleanupIn
  split
  · exact .inl rfl
  · split <;> rename_i heq <;> rw [heq]
    · exact .inr ⟨true, rfl, by simp⟩
    · exact .inr ⟨_, rfl, fun _ => rfl⟩

theorem cleanups_settled (h : ∀ l n, Settled manifest dirs l n) (runs : List (Location → Pass)) :
    cleanups manifest runs dirs = dirs := by
  have hpass : ∀ l pass, (cleanupIn manifest l pass dirs).2 = dirs := by
    intro l pass
    obtain heq | ⟨_, heq, -⟩ := cleanupIn_eq manifest l pass dirs
    · rw [heq]
    · rw [heq]
      exact (spares_cleanup _ dirs).eq_of_settled (fun _ _ => cleanup_none _) h
  induction runs with
  | nil => rfl
  | cons passes runs ih =>
    rw [cleanups, List.foldl_cons, cleanupRetired, hpass, hpass]
    exact ih

/-- A cleanup that leaves nothing pending, and was given the name of every credential file there
is, has settled all of them, so that no later cleanup changes anything. -/
theorem cleanup_complete {passes : Location → Pass} {dirs' : Directories}
    (h : cleanupRetired manifest passes dirs = (false, dirs'))
    (hlisted : ∀ location name, isCredentialFileName name = true → dirs location name ≠ none →
      .ok name ∈ (passes location).turns.map Turn.entry) :
    (∀ location name, Settled manifest dirs' location name) ∧
      ∀ runs, cleanups manifest runs dirs' = dirs' := by
  obtain ⟨hpending, rfl⟩ := Prod.mk.inj h
  obtain ⟨hfirst, hsecond⟩ := Bool.or_eq_false_iff.mp hpending
  obtain heq | ⟨_, heq, hok⟩ := cleanupIn_eq manifest .legacy (passes .legacy) dirs
  · rw [heq] at hfirst
    cases hfirst
  rw [heq] at hfirst hsecond ⊢
  obtain heq' | ⟨_, heq', hok'⟩ := cleanupIn_eq manifest .managed (passes .managed) _
  · rw [heq'] at hsecond
    cases hsecond
  rw [heq'] at hsecond ⊢
  refine (and_iff_left_of_imp cleanups_settled).mpr fun location name => ?_
  cases location with
  | legacy => exact (settled_of_listed (hok hfirst) (hlisted .legacy name)).cleanup .managed _
  | managed =>
    exact settled_of_listed (hok' hsecond) fun hname hleft =>
      hlisted .managed name hname (mt (cleanup_none _) hleft)

end Sparing

def member : Bytes := hex (List.replicate 32 0x0a)

def leftover : Bytes := hex (List.replicate 32 0x0b)

def oneRecord : Manifest := ⟨[(member, .managed)], by decide⟩

def benchKeys : CredentialKeys where
  fileName _ := .ok member
  openSet _ := .ok (image 1 [(List.replicate 32 0x0a, .managed)])
  openRecord _ _ _ := .ok (Ctap.benchCredential [1])

/-- The manifest and a file it does not name, beside what stands for the member. -/
def benchDirectories (own : Entry) : Directories
  | .legacy, name =>
    if name = activeFile then some (.file (.ok [])) else if name = leftover then some (.file (.ok []))
    else none
  | .managed, name => if name = member then some own else none

def benchPasses (location : Location) : Pass :=
  ⟨.ok (), if location = .legacy then [⟨.ok leftover, .ok (), .ok ()⟩] else [], .ok ()⟩

theorem cleanup_spares_members_bench :
    get benchKeys (cleanups oneRecord [benchPasses] (benchDirectories (.file (.ok [])))) [1] =
      .ok (some (Ctap.benchCredential [1])) := by
  refine (((cleanup_spares_members oneRecord _ [benchPasses]).2.2 benchKeys (by rfl) (by rfl)
    fun name location _ l n hentry => ?_).1 [1]).trans (by rfl)
  cases location <;> simp only [benchDirectories] at hentry <;> split_ifs at hentry <;> cases hentry

def benchListing (location : Location) : Pass :=
  ⟨.ok (), [⟨.ok (if location = .legacy then leftover else member), .ok (), .ok ()⟩], .ok ()⟩

theorem cleanup_complete_bench :
    let after := cleanupRetired oneRecord benchListing (benchDirectories .directory)
    after.2 .legacy leftover = none ∧ cleanups oneRecord [benchPasses] after.2 = after.2 := by
  intro after
  have h : after = (false, after.2) := by rfl
  refine ⟨by rfl, (cleanup_complete h fun location name hname hleft => ?_).2 _⟩
  unfold benchDirectories at hleft
  split at hleft
  · split_ifs at hleft with hactive hleftover
    · subst hactive
      cases hname
    · exact hleftover ▸ List.mem_cons_self
    · exact absurd rfl hleft
  · split_ifs at hleft with hmember
    · exact hmember ▸ List.mem_cons_self
    · exact absurd rfl hleft

/-- A link to a file of a name that is no member's is read through, and the file removed. -/
theorem linked_member_lost :
    let dirs := benchDirectories (.link .legacy leftover)
    activeManifest benchKeys dirs = .ok oneRecord ∧
      get benchKeys dirs [1] = .ok (some (Ctap.benchCredential [1])) ∧
      get benchKeys (cleanupRetired oneRecord benchPasses dirs).2 [1] = .ok none :=
  ⟨by rfl, by rfl, by rfl⟩

end SoftwareAuthenticator.Store
