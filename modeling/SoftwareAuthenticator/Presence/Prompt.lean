import SoftwareAuthenticator.Ctap.Environment
import Mathlib.Data.List.Chain
import Mathlib.Data.List.Infix

/-!
# The text of a prompt

Invisible characters are removed, blanks are merged and long texts are cut. A server that
interprets markup is given the text with its special characters escaped.
-/

namespace SoftwareAuthenticator.Presence

open Ctap (PresenceRequest PresenceOperation Duration)

def within (ranges : List (ℕ × ℕ)) (c : Char) : Bool :=
  ranges.any fun range => range.1 ≤ c.toNat && c.toNat ≤ range.2

def isControl : Char → Bool := within [(0x00, 0x1F), (0x7F, 0x9F)]

def isWhitespace : Char → Bool :=
  within [(0x09, 0x0D), (0x20, 0x20), (0x85, 0x85), (0xA0, 0xA0), (0x1680, 0x1680),
    (0x2000, 0x200A), (0x2028, 0x2029), (0x202F, 0x202F), (0x205F, 0x205F), (0x3000, 0x3000)]

/-- Characters that are not displayed but can change how the text around them is. -/
def isInvisibleFormat : Char → Bool :=
  within [(0x00AD, 0x00AD), (0x034F, 0x034F), (0x0600, 0x0605), (0x061C, 0x061C),
    (0x06DD, 0x06DD), (0x070F, 0x070F), (0x0890, 0x0891), (0x08E2, 0x08E2), (0x115F, 0x1160),
    (0x17B4, 0x17B5), (0x180B, 0x180F), (0x200B, 0x200F), (0x202A, 0x202E), (0x2060, 0x206F),
    (0x3164, 0x3164), (0xFE00, 0xFE0F), (0xFEFF, 0xFEFF), (0xFFA0, 0xFFA0), (0xFFF0, 0xFFFB),
    (0x110BD, 0x110BD), (0x110CD, 0x110CD), (0x13430, 0x1343F), (0x1BCA0, 0x1BCA3),
    (0x1D173, 0x1D17A), (0xE0000, 0xE0FFF)]

inductive Keep where
  | start
  | stop
  deriving DecidableEq, Repr

def spaced (c : Char) : Char := if isControl c || isWhitespace c then ' ' else c

/-- One round of the loop of `sanitise`. -/
def cleanChar (cleaned : List Char) (c : Char) : List Char :=
  if isInvisibleFormat c then cleaned
  else if spaced c = ' ' ∧ (cleaned = [] ∨ cleaned.getLast? = some ' ') then cleaned
  else cleaned ++ [spaced c]

def trimEnd (chars : List Char) : List Char := (chars.reverse.dropWhile isWhitespace).reverse

def cleanedText (text : String) : List Char := trimEnd (text.toList.foldl cleanChar [])

/-- The text that may be shown of another; the limit is at least 1. -/
def sanitise (text : String) (maxChars : ℕ) (keep : Keep) : Option String :=
  let cleaned := cleanedText text
  let count := cleaned.length
  if count = 0 then none
  else if count ≤ maxChars then some (.ofList cleaned)
  else
    let kept := maxChars - 1
    some <| match keep with
      | .start => .ofList (cleaned.take kept ++ ['…'])
      | .stop => .ofList ('…' :: cleaned.drop (count - kept))

def escapeChar (c : Char) : List Char :=
  match c with
  | '&' => "&amp;".toList
  | '<' => "&lt;".toList
  | '>' => "&gt;".toList
  | '"' => "&quot;".toList
  | '\'' => "&apos;".toList
  | c => [c]

def escapeMarkup (text : String) : String := .ofList (text.toList.flatMap escapeChar)

def maxRpIdChars : ℕ := 80
def maxUserChars : ℕ := 64

def summary (request : PresenceRequest) : String :=
  match request.operation with
  | .register => if request.discoverable then "Create a passkey" else "Register a security key"
  | .authenticate => "Sign in with a passkey"
  | .u2fRegister => "Register a U2F security key"
  | .u2fAuthenticate => "Sign in with a U2F security key"
  | .reset => "Reset the security key"
  | .credentialManagement => "Manage passkeys"
  | .select => "Select a security key"

def promptText (request : PresenceRequest) : String :=
  let rp := request.rpId.bind (sanitise · maxRpIdChars .stop)
  let rpName := (request.rpName.bind (sanitise · maxUserChars .start)).filter (some · ≠ rp)
  let name := request.userName.bind (sanitise · maxUserChars .start)
  let displayName := request.userDisplayName.bind (sanitise · maxUserChars .start)
  let user := match name, displayName with
    | some name, some display => if display ≠ name then some s!"{name} ({display})" else some name
    | some name, none => some name
    | none, display => display
  let asUser := (user.map fun user => s!" as {user}").getD ""
  match request.operation, rp with
  | .u2fRegister, _ => "Register this security key for a U2F request? The site cannot be identified."
  | .u2fAuthenticate, _ =>
    "Sign in with this security key for a U2F request? The site cannot be identified."
  | .register, some rp =>
    let rpName := (rpName.map fun name => s!" (“{name}”)").getD ""
    if request.discoverable then s!"Create a passkey for {rp}{rpName}{asUser}?"
    else s!"Register this security key with {rp}{rpName}{asUser}?"
  | .authenticate, some rp => s!"Sign in to {rp}{asUser}?"
  | .select, _ => "Select this security key?"
  | .register, none | .authenticate, none => "Use this security key?"
  | .reset, _ => "Reset the security key? Every passkey and every " ++
      "other sign-in made with it stops working, and its PIN is removed."
  | .credentialManagement, _ => "Allow access to the passkeys stored on the security key?"

structure Notification where
  summary : String
  body : String
  timeout : Duration

/-- The notification of a request; `markup` if the server interprets markup in the body. -/
def notificationFor (request : PresenceRequest) (markup : Bool) : Notification where
  summary := summary request
  body := if markup then escapeMarkup (promptText request) else promptText request
  timeout := request.timeout

structure Shown (c : Char) : Prop where
  visible : isInvisibleFormat c = false
  printable : isControl c = false
  blank : isWhitespace c = true → c = ' '

def NotBothSpaces (a b : Char) : Prop := ¬ (a = ' ' ∧ b = ' ')

/-- Texts without leading or doubled spaces. -/
structure Clean (chars : List Char) : Prop where
  shown : ∀ c ∈ chars, Shown c
  spaced : (' ' :: chars).IsChain NotBothSpaces

variable {chars cleaned : List Char} {c : Char}

theorem shown_space : Shown ' ' := ⟨by decide, by decide, fun _ => rfl⟩

theorem shown_ellipsis : Shown '…' := ⟨by decide, by decide, by decide⟩

theorem shown_spaced (h : isInvisibleFormat c = false) : Shown (spaced c) := by
  unfold spaced
  split_ifs with hblank
  · exact shown_space
  · rw [Bool.not_eq_true, Bool.or_eq_false_iff] at hblank
    exact ⟨h, hblank.1, fun hwhite => by rw [hblank.2] at hwhite; cases hwhite⟩

theorem Shown.spaced_eq (h : Shown c) : spaced c = c := by
  rw [spaced, h.printable, Bool.false_or]
  split_ifs with hwhite
  · exact (h.blank hwhite).symm
  · rfl

/-- At the beginning it is as if a space had been written. -/
theorem skips_iff : cleaned = [] ∨ cleaned.getLast? = some ' ' ↔
    ' ' ∈ (' ' :: cleaned).getLast? := by
  cases cleaned <;> simp [List.getLast?_cons_cons]

theorem clean_append (h : Clean cleaned) (hc : Shown c)
    (hspace : ¬ (c = ' ' ∧ (cleaned = [] ∨ cleaned.getLast? = some ' '))) :
    Clean (cleaned ++ [c]) := by
  refine ⟨fun d hd => ?_, ?_⟩
  · rcases List.mem_append.mp hd with hd | hd
    · exact h.shown d hd
    · rwa [List.mem_singleton.mp hd]
  · rw [← List.cons_append, List.isChain_append]
    refine ⟨h.spaced, .singleton c, fun last hlast next hnext hboth => ?_⟩
    obtain rfl : c = next := by simpa using hnext
    exact hspace ⟨hboth.2, skips_iff.mpr (hboth.1 ▸ hlast)⟩

theorem clean_cleanChar (h : Clean cleaned) (c : Char) : Clean (cleanChar cleaned c) := by
  unfold cleanChar
  split_ifs with hinvisible hspace
  · exact h
  · exact h
  · exact clean_append h (shown_spaced (by simpa using hinvisible)) hspace

theorem clean_foldl (h : Clean cleaned) : Clean (chars.foldl cleanChar cleaned) := by
  induction chars generalizing cleaned with
  | nil => exact h
  | cons c chars ih => exact ih (clean_cleanChar h c)

theorem foldl_of_clean (h : Clean (cleaned ++ chars)) :
    chars.foldl cleanChar cleaned = cleaned ++ chars := by
  induction chars generalizing cleaned with
  | nil => simp
  | cons c chars ih =>
    have hc := h.shown c (by simp)
    have hspaced := h.spaced
    rw [← List.cons_append, List.isChain_append] at hspaced
    have hstep : cleanChar cleaned c = cleaned ++ [c] := by
      rw [cleanChar, if_neg (by simp [hc.visible]), hc.spaced_eq, if_neg]
      rintro ⟨rfl, hskips⟩
      exact hspaced.2.2 _ (skips_iff.mp hskips) ' ' (by simp) ⟨rfl, rfl⟩
    rw [List.foldl_cons, hstep, ih (by simpa using h)]
    simp

def Trimmed (chars : List Char) : Prop := ∀ c ∈ chars.getLast?, isWhitespace c = false

theorem prefix_trimEnd (chars : List Char) : trimEnd chars <+: chars := by
  rw [← List.reverse_suffix, trimEnd, List.reverse_reverse]
  exact List.dropWhile_suffix _

theorem trimmed_trimEnd (chars : List Char) : Trimmed (trimEnd chars) := by
  intro c hc
  rw [trimEnd, List.getLast?_reverse, Option.mem_def] at hc
  have hnot := List.head?_dropWhile_not isWhitespace chars.reverse
  rw [hc] at hnot
  simpa using hnot

theorem trimEnd_of_trimmed (h : Trimmed chars) : trimEnd chars = chars := by
  rcases List.eq_nil_or_concat chars with rfl | ⟨front, c, rfl⟩
  · rfl
  · have hc := h c (by simp)
    simp [trimEnd, hc]

theorem Clean.front {front : List Char} (h : Clean chars) (hfront : front <+: chars) :
    Clean front := by
  refine ⟨fun c hc => h.shown c (hfront.subset hc), List.IsChain.prefix h.spaced ?_⟩
  exact List.cons_prefix_cons.mpr ⟨rfl, hfront⟩

theorem clean_cleanedText (text : String) : Clean (cleanedText text) := by
  have hempty : Clean [] := ⟨nofun, .singleton _⟩
  exact (clean_foldl hempty).front (prefix_trimEnd _)

theorem cleanedText_of_clean (h : Clean chars) (htrimmed : Trimmed chars) :
    cleanedText (.ofList chars) = chars := by
  have hfold : chars.foldl cleanChar [] = chars := foldl_of_clean h
  rw [cleanedText, String.toList_ofList, hfold, trimEnd_of_trimmed htrimmed]

theorem clean_ellipsis_cons {stop : List Char} (h : Clean chars) (hstop : stop <:+ chars) :
    Clean ('…' :: stop) := by
  refine ⟨fun c hc => ?_, ?_⟩
  · rcases List.mem_cons.mp hc with rfl | hc
    · exact shown_ellipsis
    · exact h.shown c (hstop.subset hc)
  · have hchain : stop.IsChain NotBothSpaces :=
      h.spaced.suffix (hstop.trans (List.suffix_cons _ _))
    refine List.isChain_cons_cons.mpr ⟨by simp [NotBothSpaces], ?_⟩
    exact hchain.cons fun c _ hboth => absurd hboth.1 (by decide)

/-- The end of a text that is kept, with an ellipsis for the rest. -/
def Keep.Cuts (keep : Keep) (cleaned kept shown : List Char) : Prop :=
  match keep with
  | .start => shown = kept ++ ['…'] ∧ kept <+: cleaned
  | .stop => shown = '…' :: kept ∧ kept <:+ cleaned

/-- What is shown is clean, is not longer than the limit and is kept when it is cleaned again. -/
theorem sanitise_cases {text shown : String} {maxChars : ℕ} {keep : Keep} (hmax : 1 ≤ maxChars)
    (h : shown ∈ sanitise text maxChars keep) :
    Clean shown.toList ∧ Trimmed shown.toList ∧ shown.toList ≠ [] ∧ shown.length ≤ maxChars ∧
      if (cleanedText text).length ≤ maxChars then shown.toList = cleanedText text
      else ∃ kept, kept.length = maxChars - 1 ∧
        keep.Cuts (cleanedText text) kept shown.toList := by
  have hclean := clean_cleanedText text
  have htrimmed : Trimmed (cleanedText text) := trimmed_trimEnd _
  rw [sanitise] at h
  dsimp only at h
  generalize cleanedText text = cleaned at h hclean htrimmed ⊢
  by_cases hnone : cleaned.length = 0
  · rw [if_pos hnone] at h
    cases h
  rw [if_neg hnone] at h
  split_ifs at h ⊢ with hfits
  · obtain rfl := Option.some.inj h
    rw [String.toList_ofList, String.length_ofList]
    exact ⟨hclean, htrimmed, fun hnil => hnone (by rw [hnil]; rfl), hfits, rfl⟩
  · cases keep with
    | start =>
      obtain rfl := Option.some.inj h
      have hkept : (cleaned.take (maxChars - 1)).length = maxChars - 1 := by
        rw [List.length_take]
        omega
      have hfront := List.take_prefix (maxChars - 1) cleaned
      rw [String.toList_ofList, String.length_ofList]
      refine ⟨?_, by simp [Trimmed, isWhitespace, within], by simp, ?_, _, hkept, rfl, hfront⟩
      · exact clean_append (hclean.front hfront) shown_ellipsis (by simp)
      · rw [List.length_append, hkept]
        exact (Nat.sub_add_cancel hmax).le
    | stop =>
      obtain rfl := Option.some.inj h
      have hkept : (cleaned.drop (cleaned.length - (maxChars - 1))).length = maxChars - 1 := by
        rw [List.length_drop]
        omega
      have hsuffix := List.drop_suffix (cleaned.length - (maxChars - 1)) cleaned
      rw [String.toList_ofList, String.length_ofList]
      refine ⟨clean_ellipsis_cons hclean hsuffix, fun c hc => ?_, by simp, ?_, _, hkept, rfl, hsuffix⟩
      · -- The end that is kept is empty or ends as the whole text does.
        rw [List.getLast?_cons, List.getLast?_drop] at hc
        split_ifs at hc
        · obtain rfl := Option.some.inj hc
          decide
        · cases hlast : cleaned.getLast? with
          | none => exact absurd (List.getLast?_eq_none_iff.mp hlast) (by rintro rfl; simp at hnone)
          | some last =>
            rw [hlast] at hc
            obtain rfl := Option.some.inj hc
            exact htrimmed _ hlast
      · rw [List.length_cons, hkept]
        exact (Nat.sub_add_cancel hmax).le

def entities : List (Char × List Char) :=
  [('&', "&amp;".toList), ('<', "&lt;".toList), ('>', "&gt;".toList), ('"', "&quot;".toList),
    ('\'', "&apos;".toList)]

theorem escapeChar_cases (c : Char) :
    (c, escapeChar c) ∈ entities ∨ c ∉ entities.map Prod.fst ∧ escapeChar c = [c] := by
  unfold escapeChar
  split
  · exact .inl (by decide)
  · exact .inl (by decide)
  · exact .inl (by decide)
  · exact .inl (by decide)
  · exact .inl (by decide)
  · refine .inr ⟨?_, rfl⟩
    simp_all [entities]

/-- No entity begins another, and each stands for one character. -/
theorem entities_prefixFree : ∀ e ∈ entities, ∀ e' ∈ entities, e.2 <+: e'.2 → e = e' := by
  decide

theorem entities_head : ∀ e ∈ entities, e.2.head? = some '&' := by decide

theorem escapeChar_head (c : Char) : ∃ first rest, escapeChar c = first :: rest ∧
    (first = '&' ∧ (c, escapeChar c) ∈ entities ∨ first = c ∧ c ∉ entities.map Prod.fst ∧ rest = []) := by
  rcases escapeChar_cases c with hc | ⟨hc, hc'⟩
  · obtain ⟨rest, hrest⟩ := List.head?_eq_some_iff.mp (entities_head _ hc)
    exact ⟨'&', rest, hrest, .inl ⟨rfl, hc⟩⟩
  · exact ⟨c, [], hc', .inr ⟨rfl, hc, rfl⟩⟩

/-- What is written for a character determines it, whatever follows. -/
theorem eq_of_prefix_escapeChar {c d : Char} (h : escapeChar c <+: escapeChar d) : c = d := by
  obtain ⟨first, rest, hc, hfirst⟩ := escapeChar_head c
  obtain ⟨first', rest', hd, hfirst'⟩ := escapeChar_head d
  have hhead : first = first' := by
    rw [hc, hd] at h
    exact (List.cons_prefix_cons.mp h).1
  have hamp : '&' ∈ entities.map Prod.fst := by decide
  rcases hfirst with ⟨hf, hc⟩ | ⟨hf, hc, -⟩ <;> rcases hfirst' with ⟨hf', hd⟩ | ⟨hf', hd, -⟩
  · have heq := entities_prefixFree (c, escapeChar c) hc (d, escapeChar d) hd h
    exact congrArg Prod.fst heq
  · rw [← hf', ← hhead, hf] at hd
    exact absurd hamp hd
  · rw [← hf, hhead, hf'] at hc
    exact absurd hamp hc
  · rw [← hf, hhead, hf']

theorem flatMap_escapeChar_injective {cs ds : List Char}
    (h : cs.flatMap escapeChar = ds.flatMap escapeChar) : cs = ds := by
  induction cs generalizing ds with
  | nil =>
    cases ds with
    | nil => rfl
    | cons d ds =>
      obtain ⟨first, rest, hd, -⟩ := escapeChar_head d
      rw [List.flatMap_cons, hd] at h
      cases h
  | cons c cs ih =>
    cases ds with
    | nil =>
      obtain ⟨first, rest, hc, -⟩ := escapeChar_head c
      rw [List.flatMap_cons, hc] at h
      cases h
    | cons d ds =>
      rw [List.flatMap_cons, List.flatMap_cons] at h
      have hc := List.prefix_append (escapeChar c) (cs.flatMap escapeChar)
      have hd := List.prefix_append (escapeChar d) (ds.flatMap escapeChar)
      obtain rfl : c = d := by
        rcases List.prefix_or_prefix_of_prefix (h ▸ hc) hd with hfront | hfront
        · exact eq_of_prefix_escapeChar hfront
        · exact (eq_of_prefix_escapeChar hfront).symm
      rw [ih (List.append_cancel_left h)]

/-- Texts in which nothing is markup: every ampersand begins an entity. -/
structure Escaped (chars : List Char) : Prop where
  plain : ∀ c ∈ chars, c ∉ ['<', '>', '"', '\'']
  ampersands : ∀ rest, '&' :: rest <:+ chars → ∃ e ∈ entities, e.2 <+: '&' :: rest

theorem entities_plain : ∀ e ∈ entities, ∀ c ∈ e.2, c ∉ ['<', '>', '"', '\''] := by
  simp [entities]

theorem entities_ampersand :
    ∀ e ∈ entities, ∀ t ∈ e.2.tails, t.head? = some '&' → t = e.2 := by decide

theorem escaped_flatMap (chars : List Char) : Escaped (chars.flatMap escapeChar) := by
  induction chars with
  | nil => exact ⟨nofun, fun rest h => by simp at h⟩
  | cons c chars ih =>
    rw [List.flatMap_cons]
    refine ⟨fun d hd => ?_, fun rest h => ?_⟩
    · rcases List.mem_append.mp hd with hd | hd
      · rcases escapeChar_cases c with hc | ⟨hc, hc'⟩
        · exact entities_plain _ hc d hd
        · rw [hc', List.mem_singleton] at hd
          intro hraw
          simp_all [entities]
      · exact ih.plain d hd
    · obtain ⟨front, hfront⟩ := h
      rcases List.append_eq_append_iff.mp hfront with ⟨tail, hc, hrest⟩ | ⟨more, -, hmore⟩
      · cases tail with
        | nil => exact ih.ampersands rest ⟨[], hrest⟩
        | cons first tail =>
          -- The ampersand is written for this character, so it is the first of an entity.
          obtain ⟨rfl, hrest⟩ := List.cons.inj hrest
          rcases escapeChar_cases c with hentity | ⟨hplain, hc'⟩
          · have htail := entities_ampersand _ hentity ('&' :: tail)
              ((List.mem_tails _ _).mpr ⟨front, hc.symm⟩) rfl
            exact ⟨_, hentity, by rw [← htail, hrest]; exact ⟨_, rfl⟩⟩
          · rw [hc'] at hc
            obtain rfl : c = '&' := by
              cases front <;> simp_all
            exact absurd (by decide) hplain
      · exact ih.ampersands rest ⟨more, hmore.symm⟩

/-- A prompt shows at most as many characters as it may, with no control or invisible ones
among them, and what is shown is shown again unchanged. A server that interprets markup is
given none, and the text that was meant can be read back. -/
theorem sanitise_undisguised {text : String} {maxChars : ℕ} {keep : Keep} (hmax : 1 ≤ maxChars) :
    (∀ shown ∈ sanitise text maxChars keep,
      shown.length ≤ maxChars ∧
      (∀ c ∈ shown.toList, isControl c = false ∧ isInvisibleFormat c = false) ∧
      sanitise shown maxChars keep = some shown ∧
      if (cleanedText text).length ≤ maxChars then
        shown.toList = cleanedText text ∧ shown.toList.head? ≠ some ' ' ∧
          shown.toList.getLast? ≠ some ' ' ∧ ¬ [' ', ' '] <:+: shown.toList
      else ∃ kept, kept.length = maxChars - 1 ∧
        keep.Cuts (cleanedText text) kept shown.toList) ∧
    Function.Injective escapeMarkup ∧
    (∀ text, Escaped (escapeMarkup text).toList) ∧
    ∀ request, Escaped (notificationFor request true).body.toList := by
  have hescaped (text : String) : Escaped (escapeMarkup text).toList := by
    rw [escapeMarkup, String.toList_ofList]
    exact escaped_flatMap _
  refine ⟨fun shown hshown => ?_, fun text text' h => ?_, hescaped, fun request => hescaped _⟩
  · obtain ⟨hclean, htrimmed, hne, hlen, hcut⟩ := sanitise_cases hmax hshown
    refine ⟨hlen, fun c hc => ⟨(hclean.shown c hc).printable, (hclean.shown c hc).visible⟩, ?_, ?_⟩
    · have hagain := cleanedText_of_clean hclean htrimmed
      rw [String.ofList_toList] at hagain
      rw [sanitise, hagain]
      dsimp only
      rw [if_neg (by simpa using hne), if_pos (by simpa only [String.length_toList] using hlen), String.ofList_toList]
    · split_ifs at hcut ⊢
      · refine ⟨hcut, fun hhead => ?_, fun hlast => ?_, fun hpair => ?_⟩
        · obtain ⟨rest, hrest⟩ := List.head?_eq_some_iff.mp hhead
          have hspaced := hclean.spaced
          rw [hrest] at hspaced
          exact (List.isChain_cons_cons.mp hspaced).1 ⟨rfl, rfl⟩
        · exact absurd (htrimmed _ hlast) (by decide)
        · have hspaced := hclean.spaced.infix (hpair.trans (List.suffix_cons _ _).isInfix)
          exact (List.isChain_cons_cons.mp hspaced).1 ⟨rfl, rfl⟩
      · exact hcut
  · have hlists := congrArg String.toList h
    rw [escapeMarkup, escapeMarkup, String.toList_ofList, String.toList_ofList] at hlists
    exact String.toList_inj.mp (flatMap_escapeChar_injective hlists)

theorem sanitise_undisguised_tag :
    "…<b>" ∈ sanitise "Sign\n in to\u202e  <b>" 4 .stop ∧
      sanitise "…<b>" 4 .stop = some "…<b>" := by
  have hshown : "…<b>" ∈ sanitise "Sign\n in to\u202e  <b>" 4 .stop := by decide +kernel
  exact ⟨hshown, ((sanitise_undisguised (by decide)).1 _ hshown).2.2.1⟩

end SoftwareAuthenticator.Presence
