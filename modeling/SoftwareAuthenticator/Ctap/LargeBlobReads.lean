import SoftwareAuthenticator.Ctap.Upload

/-!
# Reading large blobs

A get request is answered from the array that the store holds, whatever upload is under way,
and ends that upload. Gets that take up where the last one stopped read the array piece by
piece.
-/

namespace SoftwareAuthenticator.Ctap

open Cmd

variable {array : Bytes}

def EnvOp.changesArray : EnvOp → Bool
  | .store (.setLargeBlobArray _) | .store .clear => true
  | _ => false

/-- The store holds `array`, which can be read, before the event and after it. A write or a
reset that fails may leave it in place. -/
def HoldsArray (array : Bytes) : env.Event → Prop
  | ⟨.store .largeBlobArray, answer⟩ => answer = Except.ok array
  | ⟨.store (.setLargeBlobArray written), answer⟩ => written = array ∨ answer ≠ Except.ok ()
  | ⟨.store .clear, answer⟩ => array = initialLargeBlobArray ∨ ∀ durability, answer ≠ .ok durability
  | _ => True

def fragmentResponse (fragment : Bytes) : Response :=
  .entries (.map [(.integer 1, .bytes fragment)])

def readAnswer (array : Bytes) (offset length : ℕ) : Except Status Response :=
  if array.length < offset then .error ctap1ErrInvalidParameter
  else .ok (fragmentResponse ((array.drop offset).take length))

/-- A fragment that was returned: where it starts, how much was asked for, and what came. -/
structure Piece where
  offset : ℕ
  length : ℕ
  fragment : Bytes
  deriving DecidableEq

def Consecutive : ℕ → List Piece → Prop
  | _, [] => True
  | start, piece :: pieces =>
    piece.offset = start ∧ Consecutive (start + piece.fragment.length) pieces

def joined (pieces : List Piece) : Bytes := pieces.flatMap Piece.fragment

def Piece.IsOf (piece : Piece) (array : Bytes) : Prop :=
  piece.offset ≤ array.length ∧ piece.fragment = (array.drop piece.offset).take piece.length

theorem Piece.IsOf.take_length {piece : Piece} (h : piece.IsOf array) :
    (array.drop piece.offset).take piece.fragment.length = piece.fragment := by
  rw [h.2, List.take_eq_take_iff, List.length_take]
  omega

/-- Consecutive pieces of an array are its content from their start on. -/
theorem joined_eq_take {start : ℕ} {pieces : List Piece}
    (hpieces : ∀ piece ∈ pieces, piece.IsOf array) (h : Consecutive start pieces) :
    joined pieces = (array.drop start).take (joined pieces).length := by
  induction pieces generalizing start with
  | nil => simp [joined]
  | cons piece pieces ih =>
    obtain ⟨rfl, hrest⟩ := h
    have hjoined : joined (piece :: pieces) = piece.fragment ++ joined pieces := rfl
    have hnext := ih (fun p hp => hpieces p (List.mem_cons_of_mem _ hp)) hrest
    rw [hjoined, List.length_append, List.take_add, (hpieces piece (by simp)).take_length,
      List.drop_drop, ← hnext]

/-- Once a piece is shorter than what was asked for, the end of the array is reached. -/
theorem joined_eq_drop {start : ℕ} {earlier later : List Piece} {piece : Piece}
    (hpieces : ∀ p ∈ earlier ++ piece :: later, p.IsOf array)
    (h : Consecutive start (earlier ++ piece :: later))
    (hshort : piece.fragment.length < piece.length) :
    joined (earlier ++ [piece]) = array.drop start := by
  induction earlier generalizing start with
  | nil =>
    obtain ⟨rfl, -⟩ := h
    obtain ⟨-, hfragment⟩ := hpieces piece (by simp)
    rw [hfragment, List.length_take] at hshort
    have hwhole : (array.drop piece.offset).take piece.length = array.drop piece.offset :=
      List.take_of_length_le (by omega)
    simp [joined, hfragment, hwhole]
  | cons first earlier ih =>
    obtain ⟨rfl, hrest⟩ := h
    have hnext := ih (fun p hp => hpieces p (List.mem_cons_of_mem _ hp)) hrest
    have hjoined : joined (first :: earlier ++ [piece]) =
      first.fragment ++ joined (earlier ++ [piece]) := rfl
    rw [hjoined, hnext, ← List.drop_drop]
    nth_rewrite 1 [← (hpieces first (by simp)).take_length]
    exact List.take_append_drop _ _

def EnvOp.isNow : EnvOp → Bool
  | .now => true
  | _ => false

theorem confined_observeLargeBlobState {ε : Type} (command : Option UInt8) :
    Confined EnvOp.isNow CtapApp.aaguid (observeLargeBlobState (ε := ε) command) := by
  have hask : Confined EnvOp.isNow CtapApp.aaguid (now (ε := ε)) :=
    .part (MovePart.ask (I := env) .now rfl)
  exact built_observeLargeBlobState hask (.bind (.bind hask fun _ =>
    .bind (.part (.modify _ fun _ => rfl)) fun _ => .gets _) fun _ => .pure _)
    (.part (.modify _ fun _ => rfl)) command

theorem confined_beginRequest (command : UInt8) :
    Confined EnvOp.isNow CtapApp.aaguid (beginRequest command) :=
  .bind (confined_observeLargeBlobState _) fun _ =>
    built_forgetAssertion (.part (.modify _ fun _ => rfl)) _

section Gets

variable [Externals]

/-- A request that asks for a fragment, possibly malformed otherwise. -/
def isGet (payload : Bytes) : Bool :=
  match requestParameters payload with
  | .error _ => false
  | .ok map => (mapGet map (.int 1)).isSome

def getParameters (payload : Bytes) : Option (ℕ × ℕ) :=
  match requestParameters payload with
  | .error _ => none
  | .ok map =>
    match mapGet map (.int 1), mapGet map (.int 2), requiredUnsigned (mapGet map (.int 3)) with
    | some get, none, .ok offset => (getLength map get).toOption.map fun length => (offset, length)
    | _, _, _ => none

theorem isGet_of_getParameters {payload : Bytes} {parameters : ℕ × ℕ}
    (h : getParameters payload = some parameters) : isGet payload = true := by
  unfold getParameters at h
  unfold isGet
  split at h
  · cases h
  · next map hmap =>
    split at h
    · next get offset hget hset hoffset =>
      rw [hget]
      rfl
    · cases h

theorem runs_readLargeBlobs (hwriter : ∀ value, (intoWriter value).isSome = true) {map : Entries}
    {get : Value} {offset : ℕ} {app app' : CtapApp} {tr : Trace} {answer : Except Status Response}
    (h : (readLargeBlobs map get offset).Runs app tr answer app') :
    app' = app ∧ ((tr = [] ∧ (getLength map get).toOption = none) ∨
      ∃ length read, getLength map get = .ok length ∧ tr = [⟨.store .largeBlobArray, read⟩] ∧
        ∀ array, read = Except.ok array → answer = readAnswer array offset length) := by
  rcases runs_ofExcept_bind.mp h with ⟨length, hlength, h₁⟩ | ⟨status, hlength, rfl, -, rfl⟩
  · obtain ⟨_, _, read, _, rfl, hread, h₂⟩ :=
      (sure_ask (I := env) (.store .largeBlobArray)).runs_then h₁
    obtain ⟨_, rfl, heq, hsame⟩ := runs_ask.mp hread
    cases heq
    rw [hsame] at h₂
    obtain ⟨held, hheld, h₃⟩ : ∃ held, (∀ array, read = Except.ok array → held = array) ∧
        Runs (if held.length < offset then Cmd.fail ctap1ErrInvalidParameter
          else respondWith (fragmentResponse ((held.drop offset).take length))) app _ answer
          app' := by
      cases read with
      | ok array => exact ⟨array, fun _ h => Except.ok.inj h, h₂⟩
      | error e => exact ⟨initialLargeBlobArray, fun _ h => (nomatch h), h₂⟩
    split at h₃
    · next hshort =>
      obtain ⟨rfl, rfl, rfl⟩ := runs_fail.mp h₃
      refine ⟨rfl, .inr ⟨length, read, hlength, by simp, fun array harray => ?_⟩⟩
      rw [hheld array harray] at hshort
      exact (if_pos hshort).symm
    · next hlong =>
      rcases runs_ofExcept_bind.mp h₃ with ⟨_, -, h₄⟩ | ⟨status, hbytes, -⟩
      · obtain ⟨rfl, rfl, rfl⟩ := runs_pure.mp h₄
        refine ⟨rfl, .inr ⟨length, read, hlength, by simp, fun array harray => ?_⟩⟩
        rw [hheld array harray] at hlong ⊢
        exact (if_neg hlong).symm
      · -- The writer never fails.
        obtain ⟨bytes, hwritten⟩ := Option.isSome_iff_exists.mp (hwriter
          (.map [(.integer 1, .bytes ((held.drop offset).take length))]))
        simp [Response.bytes, Response.body, fragmentResponse, encode, hwritten, Except.map]
          at hbytes
  · exact ⟨rfl, .inl ⟨rfl, by rw [hlength]; rfl⟩⟩

/-- A get ends the upload under way. It reads the clock and, if it is well formed, then the
array. -/
theorem runs_serve_get (hwriter : ∀ value, (intoWriter value).isSome = true) {payload : Bytes}
    (hget : isGet payload = true) {app app' : CtapApp} {trace : Trace} {reply : Reply}
    (h : (serve (.cbor (0x0C :: payload))).Runs app trace (.ok reply) app') :
    app'.largeBlobState = .initial ∧ ∃ early late, trace = early ++ late ∧
      (∀ e ∈ early, EnvOp.isNow e.op = true) ∧
      ((late = [] ∧ getParameters payload = none) ∨
        ∃ offset length read, getParameters payload = some (offset, length) ∧
          late = [⟨.store .largeBlobArray, read⟩] ∧
          ∀ array, read = Except.ok array → reply = .cbor (readAnswer array offset length)) := by
  obtain ⟨answer, opening, handling, opened, rfl, rfl, hopen, hhandle⟩ := runs_serve_cbor h
  have h₀ : (handleLargeBlobs payload).Runs opened handling answer app' := hhandle
  obtain ⟨observing, rest, ⟨⟩, observed, rfl, hobserve, h₁⟩ :=
    (sure_observeLargeBlobState _).runs_then h₀
  have hearly : ∀ e ∈ opening ++ observing, EnvOp.isNow e.op = true := by
    intro e he
    rcases List.mem_append.mp he with he | he
    · exact ((confined_beginRequest 0x0C).runs hopen).2 e he
    · exact ((confined_observeLargeBlobState _).runs hobserve).2 e he
  suffices hrest : app'.largeBlobState = .initial ∧ ((rest = [] ∧ getParameters payload = none) ∨
      ∃ offset length read, getParameters payload = some (offset, length) ∧
        rest = [⟨.store .largeBlobArray, read⟩] ∧
        ∀ array, read = Except.ok array → answer = readAnswer array offset length) by
    refine ⟨hrest.1, opening ++ observing, rest, by simp, hearly, hrest.2.imp_right ?_⟩
    rintro ⟨offset, length, read, hparameters, hrest, hanswer⟩
    exact ⟨offset, length, read, hparameters, hrest, fun array h => by rw [hanswer array h]⟩
  unfold isGet at hget
  unfold getParameters
  rcases runs_orDiscardWrite h₁ with ⟨map, hmap, h₂⟩ | ⟨⟨e, he⟩, -⟩
  · rw [hmap] at hget ⊢
    dsimp only at hget ⊢
    obtain ⟨get, hsome⟩ := Option.isSome_iff_exists.mp hget
    -- A get does not continue a write.
    obtain ⟨_, _, ⟨⟩, kept, rfl, hwhen, h₃⟩ := (Sure.when (sure_modify _)).runs_then h₂
    have hnot : (!continuesWrite map) = true := by simp [continuesWrite, hsome]
    rw [hnot] at hwhen
    obtain ⟨rfl, -, rfl⟩ := runs_modify.mp hwhen
    rcases runs_orDiscardWrite h₃ with ⟨offset, hoffset, h₄⟩ | ⟨⟨e, he⟩, rfl, -, hinitial⟩
    · simp only [hsome, hoffset]
      unfold largeBlobs at h₄
      rw [hsome] at h₄
      cases hset : mapGet map (.int 2) with
      | none =>
        rw [hset] at h₄
        obtain ⟨rfl, ⟨rfl, hnone⟩ | ⟨length, read, hlength, rfl, hanswer⟩⟩ :=
          runs_readLargeBlobs hwriter h₄
        · exact ⟨rfl, .inl ⟨rfl, by simp [hnone]⟩⟩
        · exact ⟨rfl, .inr ⟨offset, length, read, by simp [hlength, Except.toOption], rfl, hanswer⟩⟩
      | some value =>
        rw [hset] at h₄
        obtain ⟨rfl, -, rfl⟩ := runs_fail.mp h₄
        exact ⟨rfl, .inl ⟨rfl, rfl⟩⟩
    · refine ⟨hinitial, .inl ⟨rfl, ?_⟩⟩
      rw [hsome, he]
      cases mapGet map (.int 2) with
      | none | some => rfl
  · rw [he] at hget
    cases hget

def Happening.piece : Happening → Option Piece
  | .exchange (.cbor (0x0C :: payload)) _
      (.cbor (.ok (.entries (.map [(.integer 1, .bytes fragment)])))) _ =>
    (getParameters payload).map fun (offset, length) => ⟨offset, length, fragment⟩
  | _ => none

theorem isOf_of_piece (hwriter : ∀ value, (intoWriter value).isSome = true) {array : Bytes}
    {s : Option CtapApp} {h : Happening} (hh : engine.enabled s h)
    (harray : ∀ e ∈ h.trace, HoldsArray array e) {piece : Piece} (hpiece : h.piece = some piece) :
    piece.IsOf array := by
  unfold Happening.piece at hpiece
  split at hpiece
  · next payload trace fragment app' =>
    obtain ⟨⟨offset, length⟩, hparameters, rfl⟩ := Option.map_eq_some_iff.mp hpiece
    obtain ⟨app, -, hserve⟩ := served_of_enabled hh
    have hget : isGet payload = true := isGet_of_getParameters hparameters
    obtain ⟨-, early, late, rfl, -, ⟨-, hnone⟩ | ⟨offset', length', read, hsome, rfl, hreply⟩⟩ :=
      runs_serve_get hwriter hget hserve
    · rw [hnone] at hparameters
      cases hparameters
    · rw [hsome] at hparameters
      cases hparameters
      have hread : HoldsArray array ⟨.store .largeBlobArray, read⟩ :=
        harray _ (by simp [Happening.trace])
      have hanswer := hreply array hread
      unfold readAnswer at hanswer
      split at hanswer
      · cases hanswer
      · next hlong =>
        cases hanswer
        exact ⟨Nat.le_of_not_lt hlong, rfl⟩
  · cases hpiece

/-- Every get ends the upload under way and is answered from the array of the store alone.
Gets that each start where the last fragment ended return what the array holds, and a
fragment shorter than asked for is the last one. -/
theorem largeBlobs_reads_committed (hwriter : ∀ value, (intoWriter value).isSome = true) :
    (∀ payload app trace reply app', isGet payload = true →
      (serve (.cbor (0x0C :: payload))).Runs app trace (.ok reply) app' →
      app'.largeBlobState = .initial ∧ (∀ e ∈ trace, e.op.changesArray = false) ∧
      ∀ array offset length, (∀ e ∈ trace, HoldsArray array e) →
        getParameters payload = some (offset, length) →
        reply = .cbor (readAnswer array offset length)) ∧
    ∀ (s : Option CtapApp) (hs : List Happening) (array : Bytes) (start : ℕ) (pieces : List Piece),
      engine.Executes s hs → (∀ h ∈ hs, ∀ e ∈ h.trace, HoldsArray array e) →
      pieces.Sublist (hs.filterMap Happening.piece) → Consecutive start pieces →
      joined pieces <+: array.drop start ∧
      ∀ earlier piece later, pieces = earlier ++ piece :: later →
        piece.fragment.length < piece.length →
        joined (earlier ++ [piece]) = array.drop start := by
  refine ⟨fun payload app trace reply app' hget hrun => ?_,
    fun s hs array start pieces hrun harray hsub hconsecutive => ?_⟩
  · obtain ⟨hinitial, early, late, rfl, hearly, hlate⟩ := runs_serve_get hwriter hget hrun
    refine ⟨hinitial, fun e he => ?_, fun array offset length harray hparameters => ?_⟩
    · rcases List.mem_append.mp he with he | he
      · have hnow := hearly e he
        unfold EnvOp.changesArray
        split
        · cases e; simp_all [EnvOp.isNow]
        · cases e; simp_all [EnvOp.isNow]
        · rfl
      · rcases hlate with ⟨rfl, -⟩ | ⟨_, _, read, -, rfl, -⟩
        · cases he
        · obtain rfl := List.mem_singleton.mp he
          rfl
    · rcases hlate with ⟨-, hnone⟩ | ⟨_, _, read, hsome, rfl, hreply⟩
      · rw [hnone] at hparameters
        cases hparameters
      · rw [hsome] at hparameters
        cases hparameters
        exact hreply array (harray ⟨.store .largeBlobArray, read⟩ (by simp))
  · have hpieces : ∀ piece ∈ pieces, piece.IsOf array := by
      intro piece hpiece
      obtain ⟨h, hmem, hsome⟩ := List.mem_filterMap.mp (hsub.subset hpiece)
      obtain ⟨before, after, rfl⟩ := List.append_of_mem hmem
      obtain ⟨-, henabled, -⟩ := (engine.along_append _ _ _ _).mp hrun
      exact isOf_of_piece hwriter henabled (harray h hmem) hsome
    refine ⟨?_, ?_⟩
    · rw [joined_eq_take hpieces hconsecutive]
      exact List.take_prefix _ _
    · rintro earlier piece later rfl hshort
      exact joined_eq_drop hpieces hconsecutive hshort

end Gets

section Bench

def firstGetPayload : Bytes := [0xa2, 0x01, 0x0a, 0x03, 0x00]

def secondGetPayload : Bytes := [0xa2, 0x01, 0x0a, 0x03, 0x0a]

def stagedPayload : Bytes :=
  [0xa3, 0x02, 0x4a] ++ List.replicate 10 7 ++ [0x03, 0x00, 0x04, 0x11]

local instance readingExternals : Externals :=
  .bench [(firstGetPayload, .map [(.integer 1, .integer 10), (.integer 3, .integer 0)]),
    (secondGetPayload, .map [(.integer 1, .integer 10), (.integer 3, .integer 10)]),
    (stagedPayload, .map [(.integer 2, .bytes (List.replicate 10 7)), (.integer 3, .integer 0),
      (.integer 4, .integer 17)])]

def readingSession : List Happening :=
  (World.bench .initial [] 0).session .bench
    [.cbor (0x0C :: firstGetPayload), .cbor (0x0C :: stagedPayload),
      .cbor (0x0C :: secondGetPayload)]

def keepsInitialArray : env.Event → Bool
  | ⟨.store .largeBlobArray, .ok array⟩ => array = initialLargeBlobArray
  | ⟨.store .largeBlobArray, .error _⟩ => false
  | ⟨op, _⟩ => !op.changesArray

theorem holdsArray_of_keeps {e : env.Event} (h : keepsInitialArray e = true) :
    HoldsArray initialLargeBlobArray e := by
  unfold HoldsArray
  split
  · next answer =>
    cases answer with
    | ok array => exact congrArg Except.ok (of_decide_eq_true h)
    | error e => cases h
  · cases h
  · cases h
  · trivial

theorem largeBlobs_reads_committed_twoGets :
    (readingSession.filterMap Happening.piece).length = 2 ∧
      joined (readingSession.filterMap Happening.piece) = initialLargeBlobArray := by
  have hpieces : readingSession.filterMap Happening.piece =
      [⟨0, 10, initialLargeBlobArray.take 10⟩, ⟨10, 10, initialLargeBlobArray.drop 10⟩] := by
    decide +kernel
  have hkeeps : readingSession.all (fun h => h.trace.all keepsInitialArray) = true := by
    decide +kernel
  have harray : ∀ h ∈ readingSession, ∀ e ∈ h.trace, HoldsArray initialLargeBlobArray e :=
    fun h hh e he => holdsArray_of_keeps (List.all_eq_true.mp (List.all_eq_true.mp hkeeps h hh) e he)
  have hreads := (largeBlobs_reads_committed fun _ => rfl).2 none readingSession
    initialLargeBlobArray 0 _ (World.executes_session _ _ _) harray (.refl _)
  rw [hpieces] at hreads ⊢
  exact ⟨rfl, (hreads ⟨rfl, rfl, trivial⟩).2 [_] _ [] rfl (by decide)⟩

end Bench

end SoftwareAuthenticator.Ctap
