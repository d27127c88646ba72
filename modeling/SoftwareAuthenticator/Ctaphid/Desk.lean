import SoftwareAuthenticator.Ctaphid.Packets
import Mathlib.Data.List.Infix

/-!
# The answer desk

An abstract account of who may be given the application's answers. The answers carry no request
identifier; the invariant below replaces it.
-/

namespace SoftwareAuthenticator.Ctaphid

inductive Errand where
  | other
  | waiting (request : Taken)
  | served (channel : UInt32) (command : Command)
  deriving DecidableEq

/-- A prompt of the MSG request `request`, with its answer once there is one. -/
structure Prompt where
  channel : UInt32
  request : Bytes
  answer : Option AppAnswer
  deriving DecidableEq

@[ext] structure Desk where
  taken : List Taken
  deliveries : List Delivery
  busy : Bool
  command : Option Command
  errand : Errand
  prompt : Option Prompt

namespace Desk

variable {completed : Option (UInt32 × Bytes)} {desk desk' : Desk} {prompt : Option Prompt}
  {request : Taken} {response : Bytes}

def serial (desk : Desk) : ℕ := desk.taken.length - 1

def free (desk : Desk) : Desk := { desk with busy := false, command := none }

/-- What can happen at the desk, when the MSG request `completed` has come in. -/
inductive Step (completed : Option (UInt32 × Bytes)) : Desk → Desk → Prop where
  /-- Nothing that concerns the application, or the end of a transaction or prompt. -/
  | quiet {desk : Desk} {errand : Errand} {prompt : Option Prompt}
      (herrand : errand = desk.errand ∨ errand = .other)
      (hprompt : prompt = desk.prompt ∨ prompt = none) :
      Step completed desk { desk with errand := errand, prompt := prompt }
  | accept {desk : Desk} (request : Taken) (hidle : desk.errand = .other) :
      Step completed desk { desk with errand := .waiting request, prompt := none }
  | take {desk : Desk} {request : Taken} {prompt : Option Prompt}
      (hfree : desk.busy = false) (hwaiting : desk.errand = .waiting request)
      (hprompt : prompt = desk.prompt ∨ request.request.command = .msg ∧
        prompt = some ⟨request.channel, request.request.payload, none⟩) :
      Step completed desk { desk with
        taken := desk.taken ++ [request], busy := true, command := some request.request.command,
        errand := .served request.channel request.request.command, prompt := prompt }
  /-- A client that repeats its request collects the answer kept for it. -/
  | collect {desk : Desk} {prompt : Prompt} {answer : AppAnswer}
      (hidle : desk.errand = .other) (hprompt : desk.prompt = some prompt)
      (hanswer : prompt.answer = some answer)
      (hcompleted : completed = some (prompt.channel, prompt.request)) :
      Step completed desk { desk with
        deliveries := desk.deliveries ++ [⟨prompt.channel, .msg, answer⟩], prompt := none }

theorem Step.of_fields (htaken : desk'.taken = desk.taken)
    (hdeliveries : desk'.deliveries = desk.deliveries) (hbusy : desk'.busy = desk.busy)
    (hcommand : desk'.command = desk.command)
    (herrand : desk'.errand = desk.errand ∨ desk'.errand = .other)
    (hprompt : desk'.prompt = desk.prompt ∨ desk'.prompt = none) : Step completed desk desk' := by
  have heq : desk' = { desk with errand := desk'.errand, prompt := desk'.prompt } := by
    ext1 <;> first | assumption | rfl
  rw [heq]
  exact .quiet herrand hprompt

/-- The transaction under way is not one for the command the application works on. -/
def Detached (desk : Desk) : Prop :=
  ∀ channel command, desk.command = some command → desk.errand ≠ .served channel command

inductive Respond (response : Bytes) : Desk → Desk → Prop where
  /-- It answers the transaction under way. -/
  | deliver {desk : Desk} {channel : UInt32} {command : Command} {prompt : Option Prompt}
      (hserved : desk.errand = .served channel command)
      (hprompt : prompt = none ∨ prompt = desk.prompt ∧ desk.command ≠ some .msg) :
      Respond response desk { desk.free with
        deliveries := desk.deliveries ++ [⟨channel, command, ⟨desk.serial, response⟩⟩]
        errand := .other, prompt := prompt }
  | discard {desk : Desk} {errand : Errand} {prompt : Option Prompt}
      (herrand : errand = .other ∨ errand = desk.errand ∧ desk.Detached)
      (hprompt : prompt = none ∨ prompt = desk.prompt ∧ desk.command ≠ some .msg) :
      Respond response desk { desk.free with errand := errand, prompt := prompt }
  | retain {desk : Desk} {errand : Errand} {prompt : Prompt}
      (hcommand : desk.command = some .msg) (hprompt : desk.prompt = some prompt)
      (herrand : errand = .other ∨ errand = desk.errand ∧ desk.Detached) :
      Respond response desk { desk.free with
        errand := errand
        prompt := some { prompt with answer := some ⟨desk.serial, response⟩ } }

/-- The request handed out last is the one that any answer still to come, or kept, belongs to. -/
structure Sound (desk : Desk) : Prop where
  busy : desk.busy = true → ∃ request, desk.taken.getLast? = some request ∧
    desk.command = some request.request.command
  served : ∀ channel command, desk.errand = .served channel command →
    desk.busy = true ∧ ∃ request, desk.taken.getLast? = some request ∧
      request.channel = channel ∧ request.request.command = command
  waiting : ∀ request, desk.errand = .waiting request → desk.prompt = none
  asked : ∀ prompt, desk.prompt = some prompt →
    desk.taken.getLast? = some ⟨prompt.channel, ⟨.msg, prompt.request⟩⟩ ∧
      (prompt.answer = none → desk.busy = true)
  answered : ∀ prompt answer, desk.prompt = some prompt → prompt.answer = some answer →
    desk.busy = false ∧ desk.errand = .other ∧ answer.serial + 1 = desk.taken.length ∧
      ∀ delivery ∈ desk.deliveries, delivery.answer.serial + 1 < desk.taken.length
  delivered : ∀ delivery ∈ desk.deliveries, delivery.answer.serial < desk.taken.length
  undelivered : desk.busy = true →
    ∀ delivery ∈ desk.deliveries, delivery.answer.serial + 1 < desk.taken.length

theorem Sound.free {errand : Errand} {deliveries : List Delivery}
    (herrand : ∀ channel command, errand ≠ .served channel command)
    (hdeliveries : ∀ delivery ∈ deliveries, delivery.answer.serial < desk.taken.length) :
    { desk.free with deliveries := deliveries, errand := errand, prompt := none }.Sound where
  busy hb := by cases hb
  served channel command hs := absurd hs (herrand channel command)
  waiting _ _ := rfl
  asked q hq := by cases hq
  answered q answer hq := by cases hq
  delivered := hdeliveries
  undelivered hb := by cases hb

section

variable (h : desk.Sound)

include h

theorem Sound.serial_succ (hbusy : desk.busy = true) : desk.serial + 1 = desk.taken.length := by
  obtain ⟨request, hlast, -⟩ := h.busy hbusy
  have hne : desk.taken ≠ [] := fun hnil => by simp [hnil] at hlast
  have hpos := List.length_pos_of_ne_nil hne
  unfold serial
  omega

theorem Sound.quiet {errand : Errand} (herrand : errand = desk.errand ∨ errand = .other)
    (hprompt : prompt = desk.prompt ∨ prompt = none) :
    { desk with errand := errand, prompt := prompt }.Sound where
  busy := h.busy
  served channel command hs := by
    rcases herrand with rfl | rfl
    · exact h.served channel command hs
    · cases hs
  waiting request hw := by
    rcases hprompt with rfl | rfl
    · rcases herrand with rfl | rfl
      · exact h.waiting request hw
      · cases hw
    · rfl
  asked q hq := by
    rcases hprompt with rfl | rfl
    · exact h.asked q hq
    · cases hq
  answered q answer hq ha := by
    rcases hprompt with rfl | rfl
    · obtain ⟨hbusy, hother, hserial⟩ := h.answered q answer hq ha
      refine ⟨hbusy, ?_, hserial⟩
      rcases herrand with rfl | rfl
      · exact hother
      · rfl
    · cases hq
  delivered := h.delivered
  undelivered := h.undelivered

theorem Sound.accept (request : Taken) :
    { desk with errand := .waiting request, prompt := none }.Sound where
  busy := h.busy
  served channel command hs := by cases hs
  waiting _ _ := rfl
  asked q hq := by cases hq
  answered q answer hq := by cases hq
  delivered := h.delivered
  undelivered := h.undelivered

theorem Sound.take (hwaiting : desk.errand = .waiting request)
    (hprompt : prompt = desk.prompt ∨ request.request.command = .msg ∧
      prompt = some ⟨request.channel, request.request.payload, none⟩) :
    { desk with
      taken := desk.taken ++ [request], busy := true, command := some request.request.command,
      errand := .served request.channel request.request.command, prompt := prompt }.Sound := by
  have hlast : (desk.taken ++ [request]).getLast? = some request := by simp
  have hasked : ∀ q, prompt = some q → q.answer = none ∧
      request = ⟨q.channel, ⟨.msg, q.request⟩⟩ := by
    intro q hq
    rcases hprompt with rfl | ⟨hmsg, rfl⟩
    · rw [h.waiting request hwaiting] at hq
      cases hq
    · cases hq
      obtain ⟨channel, command, payload⟩ := request
      cases hmsg
      exact ⟨rfl, rfl⟩
  exact
    { busy := fun _ => ⟨request, hlast, rfl⟩
      served := fun channel command hs => by
        cases hs
        exact ⟨rfl, request, hlast, rfl, rfl⟩
      waiting := fun _ hw => by cases hw
      asked := fun q hq => by
        rw [← (hasked q hq).2]
        exact ⟨hlast, fun _ => rfl⟩
      answered := fun q answer hq ha => by
        rw [(hasked q hq).1] at ha
        cases ha
      delivered := fun delivery hd => by
        have := h.delivered delivery hd
        simp only [List.length_append, List.length_singleton]
        omega
      undelivered := fun _ delivery hd => by
        have := h.delivered delivery hd
        simp only [List.length_append, List.length_singleton]
        omega }

theorem Sound.collect {prompt : Prompt} {answer : AppAnswer} (hprompt : desk.prompt = some prompt)
    (hanswer : prompt.answer = some answer) :
    Sound { desk with
      deliveries := desk.deliveries ++ [⟨prompt.channel, .msg, answer⟩]
      prompt := none } := by
  obtain ⟨hbusy, hother, hserial, -⟩ := h.answered prompt answer hprompt hanswer
  exact
    { busy := h.busy
      served := h.served
      waiting := fun _ _ => rfl
      asked := fun q hq => by cases hq
      answered := fun q a hq => by cases hq
      delivered := fun delivery hd => by
        rcases List.mem_append.mp hd with hd | hd
        · exact h.delivered delivery hd
        · rw [List.mem_singleton.mp hd]
          simp only
          omega
      undelivered := fun hb => by
        rw [hbusy] at hb
        cases hb }

theorem Sound.step (hstep : Step completed desk desk') : desk'.Sound := by
  cases hstep with
  | quiet herrand hprompt => exact h.quiet herrand hprompt
  | accept request => exact h.accept request
  | take _ hwaiting hprompt => exact h.take hwaiting hprompt
  | collect _ hprompt hanswer _ => exact h.collect hprompt hanswer

/-- While the application works, a prompt that a response leaves alone is no prompt. -/
theorem Sound.prompt_of_respond (hbusy : desk.busy = true)
    (hprompt : prompt = none ∨ prompt = desk.prompt ∧ desk.command ≠ some .msg) :
    prompt = none := by
  rcases hprompt with hnone | ⟨rfl, hcommand⟩
  · exact hnone
  · cases hq : desk.prompt with
    | none => rfl
    | some q =>
      obtain ⟨request, hlast, hc⟩ := h.busy hbusy
      have hasked := (h.asked q hq).1
      rw [hlast, Option.some.injEq] at hasked
      rw [hasked] at hc
      exact absurd hc hcommand

theorem Sound.not_served (hdetached : desk.Detached) (channel : UInt32) (command : Command) :
    desk.errand ≠ .served channel command := by
  intro hserved
  obtain ⟨hbusy, request, hlast, -, hc⟩ := h.served channel command hserved
  obtain ⟨request', hlast', hc'⟩ := h.busy hbusy
  rw [hlast, Option.some.injEq] at hlast'
  rw [← hlast', hc] at hc'
  exact hdetached channel command hc' hserved

theorem Sound.respond (hbusy : desk.busy = true) (hstep : Respond response desk desk') :
    desk'.Sound := by
  have hserial := h.serial_succ hbusy
  cases hstep with
  | deliver hserved hprompt =>
    rw [h.prompt_of_respond hbusy hprompt]
    apply Sound.free
    · simp
    · intro delivery hd
      rcases List.mem_append.mp hd with hd | hd
      · exact h.delivered delivery hd
      · rw [List.mem_singleton.mp hd]
        simp only
        omega
  | discard herrand hprompt =>
    rw [h.prompt_of_respond hbusy hprompt]
    refine Sound.free (fun channel command => ?_) h.delivered
    rcases herrand with rfl | ⟨rfl, hdetached⟩
    · simp
    · exact h.not_served hdetached channel command
  | retain hcommand hprompt herrand =>
    next errand prompt =>
    have hother : errand = .other := by
      rcases herrand with hother | ⟨rfl, hdetached⟩
      · exact hother
      · cases he : desk.errand with
        | other => rfl
        | waiting request =>
          rw [h.waiting request he] at hprompt
          cases hprompt
        | served channel command => exact absurd he (h.not_served hdetached channel command)
    subst hother
    exact
      { busy := fun hb => by cases hb
        served := fun _ _ hs => by cases hs
        waiting := fun _ hw => by cases hw
        asked := fun q hq => by
          cases hq
          exact ⟨(h.asked prompt hprompt).1, fun hnone => by cases hnone⟩
        answered := fun q a hq ha => by
          cases hq
          cases ha
          exact ⟨rfl, rfl, hserial, h.undelivered hbusy⟩
        delivered := h.delivered
        undelivered := fun hb => by cases hb }

/-- A step queues nothing, or an answer to the request handed out last, for its channel. -/
theorem Sound.deliveries_step (hstep : Step completed desk desk') :
    desk'.deliveries = desk.deliveries ∨
      ∃ (prompt : Prompt) (answer : AppAnswer), completed = some (prompt.channel, prompt.request) ∧
        desk'.deliveries = desk.deliveries ++ [⟨prompt.channel, .msg, answer⟩] ∧
        answer.serial + 1 = desk.taken.length ∧
        desk.taken.getLast? = some ⟨prompt.channel, ⟨.msg, prompt.request⟩⟩ := by
  cases hstep with
  | collect _ hprompt hanswer hcompleted =>
    exact .inr ⟨_, _, hcompleted, rfl, (h.answered _ _ hprompt hanswer).2.2.1,
      (h.asked _ hprompt).1⟩
  | _ => exact .inl rfl

theorem Sound.deliveries_respond (hbusy : desk.busy = true) (hstep : Respond response desk desk') :
    desk'.deliveries = desk.deliveries ∨
      ∃ request, desk.taken.getLast? = some request ∧
        desk'.deliveries = desk.deliveries ++
          [⟨request.channel, request.request.command, ⟨desk.serial, response⟩⟩] ∧
        desk.serial + 1 = desk.taken.length := by
  cases hstep with
  | deliver hserved _ =>
    obtain ⟨-, request, hlast, rfl, rfl⟩ := h.served _ _ hserved
    exact .inr ⟨request, hlast, rfl, h.serial_succ hbusy⟩
  | _ => exact .inl rfl

end

/-- The answers queued so far, and the one kept for a client. -/
def committed (desk : Desk) : List AppAnswer :=
  desk.deliveries.map (·.answer) ++ (desk.prompt.bind (·.answer)).toList

theorem committed_step (hstep : Step completed desk desk') :
    desk'.committed.Sublist desk.committed := by
  cases hstep with
  | quiet _ hprompt =>
    rcases hprompt with rfl | rfl
    · exact List.Sublist.refl _
    · simp [committed]
  | accept => simp [committed]
  | take _ hwaiting hprompt =>
    rcases hprompt with rfl | ⟨-, rfl⟩
    · exact List.Sublist.refl _
    · simp [committed]
  | collect _ hprompt hanswer _ => simp [committed, hprompt, hanswer]

theorem Sound.committed_respond (h : desk.Sound) (hbusy : desk.busy = true)
    (hstep : Respond response desk desk') :
    desk'.committed.Sublist (desk.committed ++ [⟨desk.serial, response⟩]) := by
  have hopen : desk.prompt.bind (·.answer) = none := by
    cases hq : desk.prompt with
    | none => rfl
    | some q =>
      cases ha : q.answer with
      | none => simp [ha]
      | some answer =>
        have hfree := (h.answered q answer hq ha).1
        rw [hbusy] at hfree
        cases hfree
  cases hstep with
  | deliver _ hprompt =>
    rw [h.prompt_of_respond hbusy hprompt]
    simp [committed, hopen]
  | discard _ hprompt =>
    rw [h.prompt_of_respond hbusy hprompt]
    simp [committed, hopen, Desk.free]
  | retain _ hprompt _ => simp [committed, hopen, Desk.free]

/-- No answer to a request before the `serial`th is or will be queued after the first
`count` deliveries. -/
structure OnlyFrom (serial count : ℕ) (desk : Desk) : Prop where
  taken : serial ≤ desk.taken.length
  deliveries : ∀ delivery ∈ desk.deliveries.drop count, serial ≤ delivery.answer.serial
  count : count ≤ desk.deliveries.length
  errand : desk.taken.length = serial → ∀ channel command, desk.errand ≠ .served channel command
  prompt : desk.taken.length = serial → desk.prompt = none

private theorem mem_drop_append {α : Type} {xs ys : List α} {n : ℕ} (hn : n ≤ xs.length) {x : α}
    (hx : x ∈ (xs ++ ys).drop n) : x ∈ xs.drop n ∨ x ∈ ys := by
  rw [List.drop_append_of_le_length hn] at hx
  exact List.mem_append.mp hx

theorem OnlyFrom.step {serial count : ℕ} (h : OnlyFrom serial count desk) (hsound : desk.Sound)
    (hstep : Step completed desk desk') : OnlyFrom serial count desk' := by
  cases hstep with
  | quiet herrand hprompt =>
    refine ⟨h.taken, h.deliveries, h.count, fun hlen channel command => ?_, fun hlen => ?_⟩
    · rcases herrand with rfl | rfl
      · exact h.errand hlen channel command
      · simp
    · rcases hprompt with rfl | rfl
      · exact h.prompt hlen
      · rfl
  | accept request =>
    exact ⟨h.taken, h.deliveries, h.count, fun _ _ _ => by simp, fun _ => rfl⟩
  | take =>
    have hlt := h.taken
    refine ⟨?_, h.deliveries, h.count, fun hlen => ?_, fun hlen => ?_⟩ <;>
      simp only [List.length_append, List.length_singleton] at *
    · omega
    · omega
    · omega
  | collect hidle hprompt hanswer hcompleted =>
    have hserial := (hsound.answered _ _ hprompt hanswer).2.2.1
    refine ⟨h.taken, fun delivery hd => ?_, ?_, h.errand, fun _ => rfl⟩
    · rcases mem_drop_append h.count hd with hd | hd
      · exact h.deliveries delivery hd
      · rw [List.mem_singleton.mp hd]
        have hne : desk.taken.length ≠ serial := fun hlen => by
          rw [h.prompt hlen] at hprompt
          cases hprompt
        have := h.taken
        simp only
        omega
    · simp only [List.length_append, List.length_singleton]
      have := h.count
      omega

theorem OnlyFrom.respond {serial count : ℕ} (h : OnlyFrom serial count desk) (hsound : desk.Sound)
    (hbusy : desk.busy = true) (hstep : Respond response desk desk') :
    OnlyFrom serial count desk' := by
  have hserial := hsound.serial_succ hbusy
  have htaken := h.taken
  cases hstep with
  | deliver hserved hprompt =>
    have hne : desk.taken.length ≠ serial := fun hlen => h.errand hlen _ _ hserved
    refine ⟨h.taken, fun delivery hd => ?_, ?_, fun hlen => absurd hlen hne,
      fun hlen => absurd hlen hne⟩
    · rcases mem_drop_append h.count hd with hd | hd
      · exact h.deliveries delivery hd
      · rw [List.mem_singleton.mp hd]
        simp only
        omega
    · simp only [List.length_append, List.length_singleton]
      have := h.count
      omega
  | discard herrand hprompt =>
    refine ⟨h.taken, h.deliveries, h.count, fun hlen channel command => ?_,
      fun _ => hsound.prompt_of_respond hbusy hprompt⟩
    rcases herrand with rfl | ⟨rfl, hdetached⟩
    · simp
    · exact hsound.not_served hdetached channel command
  | retain _ hprompt _ =>
    have hne : desk.taken.length ≠ serial := fun hlen => by
      rw [h.prompt hlen] at hprompt
      cases hprompt
    exact ⟨h.taken, h.deliveries, h.count, fun hlen => absurd hlen hne,
      fun hlen => absurd hlen hne⟩

def Carries (taken : List Taken) (request : Taken) (desk : Desk) : Prop :=
  (desk.errand = .waiting request ∧ desk.taken = taken) ∨
    (desk.errand = .served request.channel request.request.command ∧
      desk.taken = taken ++ [request])

/-- As long as a transaction lasts, it is about the same request. -/
theorem Carries.step {taken : List Taken} (h : Carries taken request desk)
    (hstep : Step completed desk desk') (hlasts : desk'.errand ≠ .other) :
    Carries taken request desk' := by
  cases hstep with
  | quiet herrand _ =>
    rcases herrand with rfl | rfl
    · exact h
    · exact absurd rfl hlasts
  | accept _ hidle => rcases h with ⟨he, -⟩ | ⟨he, -⟩ <;> rw [he] at hidle <;> cases hidle
  | take _ hwaiting _ =>
    rcases h with ⟨he, ht⟩ | ⟨he, -⟩
    · rw [he] at hwaiting
      cases hwaiting
      exact .inr ⟨rfl, by rw [ht]⟩
    · rw [he] at hwaiting
      cases hwaiting
  | collect hidle => rcases h with ⟨he, -⟩ | ⟨he, -⟩ <;> rw [he] at hidle <;> cases hidle

theorem Carries.respond {taken : List Taken} (h : Carries taken request desk)
    (hstep : Respond response desk desk') (hlasts : desk'.errand ≠ .other) :
    Carries taken request desk' := by
  cases hstep with
  | deliver => exact absurd rfl hlasts
  | discard herrand | retain _ _ herrand =>
    rcases herrand with rfl | ⟨rfl, -⟩
    · exact absurd rfl hlasts
    · exact h

end Desk

end SoftwareAuthenticator.Ctaphid
