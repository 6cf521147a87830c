import AppVechain.Application.Replies

/-!
# Reviews

While a reply is awaited, the user decides about what the last command has shown:
from its arrival on neither the variables that are signed and displayed nor the
settings change, and the screens follow one another as the flow has them.
-/

namespace AppVechain

open Reactive

variable {platform : Platform} {sign : Signer} {storage : InternalStorage}

/-- The screen on which a flow is decided. -/
def Flow.lastScreen : Flow → Screen
  | .publicKey => .address
  | .transaction _ _ => .transaction
  | .message => .message
  | .certificate => .certificate

/-- The warning that a flow begins with, if there is one. -/
def Flow.warning? : Flow → Option String
  | .transaction dataPresent multipleClauses =>
    if dataPresent || multipleClauses then some (warningMsg dataPresent multipleClauses) else none
  | .publicKey | .message | .certificate => none

/-- A flow begins with its warning, or with the screen on which it is decided. -/
theorem Flow.screen_eq (flow : Flow) :
    flow.screen = flow.warning?.elim flow.lastScreen .warning := by
  cases flow with
  | transaction dataPresent multipleClauses => cases dataPresent <;> cases multipleClauses <;> rfl
  | publicKey => rfl
  | message => rfl
  | certificate => rfl

/-- A text of a review, up to its NUL. -/
def Review.text (r : Review) (i : ℕ) : List UInt8 := (r.texts.getD i []).takeWhile (· ≠ 0)

/-- The pairs of names and values on the last screen of a review. -/
def Review.pairs (r : Review) : List (String × List UInt8) :=
  match r.flow with
  | .publicKey => [("Verify VeChain address", r.text 0)]
  | .transaction _ _ => [("Amount", r.text 1), ("Fees", r.text 2), ("To", r.text 0)]
  | .message => [("Message hash", r.text 0)]
  | .certificate => [("Certificate hash", r.text 0)]

/-- The last screen displays the texts of the review. -/
theorem pairs_lastScreen (flow : Flow) (d : Device) :
    flow.lastScreen.pairs d = (d.review flow).pairs := by
  cases flow <;> rfl

/-- The user has confirmed the warning with a text. -/
def Understood (text : String) (step : Step Event Sent App) : Prop :=
  step.event = .choice true ∧ step.before.screen = .warning text

/-- The screens that a user comes to in a flow, with the steps that led there. -/
inductive Reached (flow : Flow) (recent : List (Step Event Sent App)) : Screen → Prop where
  | warning {text : String} (hwarning : flow.warning? = some text) :
      Reached flow recent (.warning text)
  | last {screen : Screen} (hlast : screen = flow.lastScreen)
      (hunderstood : ∀ text ∈ flow.warning?, ∃ step ∈ recent, Understood text step) :
      Reached flow recent screen
  | reject (hflow : flow = .certificate) : Reached flow recent .rejectCertificate

/-- A command that was delivered, and answered with a review. -/
structure Shows (platform : Platform) (flow : Flow) (first : Step Event Sent App) : Prop where
  event : ∃ rx, first.event = .receive rx ∧ rx.bytes ≠ [] ∧
    platform.device.step ⟨first.before.storage.settings, first.before.arrived rx⟩
      first.before.device = some (.review flow, first.after.device)
  storage : first.after.storage = first.before.storage
  answer : first.answer = none

/-- What has become of the review that a command has shown. -/
structure Deciding (flow : Flow) (first : Step Event Sent App)
    (recent : List (Step Event Sent App)) (a : App) : Prop where
  reached : Reached flow recent a.screen
  device : a.device = first.after.device ∨ a.device = first.after.device.wipe
  storage : a.storage = first.after.storage

/-- A command that the device answers with a review shows it. -/
theorem shows_of_step {a : App} {rx : Received} {flow : Flow} {d : Device} (hne : rx.bytes ≠ [])
    (h : platform.device.step ⟨a.storage.settings, a.arrived rx⟩ a.device =
      some (.review flow, d)) :
    Shows platform flow
      ⟨a, .receive rx, none, { a.handled rx d with screen := flow.screen }⟩ :=
  ⟨⟨rx, rfl, hne, h⟩, rfl, rfl⟩

/-- More steps do not lead back. -/
theorem Reached.mono {flow : Flow} {recent : List (Step Event Sent App)} {screen : Screen}
    (h : Reached flow recent screen) (step : Step Event Sent App) :
    Reached flow (step :: recent) screen := by
  cases h with
  | warning hwarning => exact .warning hwarning
  | last hlast hunderstood =>
    refine .last hlast fun text htext => ?_
    obtain ⟨warned, hmem, hwarned⟩ := hunderstood text htext
    exact ⟨warned, List.mem_cons_of_mem _ hmem, hwarned⟩
  | reject hflow => exact .reject hflow

/-- A review begins where its flow begins. -/
theorem Reached.first (flow : Flow) (recent : List (Step Event Sent App)) :
    Reached flow recent flow.screen := by
  rw [flow.screen_eq]
  cases hwarning : flow.warning? with
  | some text => exact .warning hwarning
  | none =>
    refine .last rfl fun text htext => ?_
    rw [hwarning] at htext
    cases htext

/-- The screens on which flows are decided. -/
theorem Flow.lastScreen_ne_warning (flow : Flow) (text : String) :
    flow.lastScreen ≠ .warning text := by
  cases flow <;> exact Screen.noConfusion

/-- No flow is decided on the screen that asks whether to reject. -/
theorem Flow.lastScreen_ne_reject (flow : Flow) : flow.lastScreen ≠ .rejectCertificate := by
  cases flow <;> exact Screen.noConfusion

/-- Only transactions have warnings. -/
theorem Flow.lastScreen_of_warning {flow : Flow} {text : String} (h : flow.warning? = some text) :
    flow.lastScreen = .transaction := by
  cases flow with
  | transaction => rfl
  | publicKey => cases h
  | message => cases h
  | certificate => cases h

/-- Certificates are decided on a screen of their own. -/
theorem Flow.eq_certificate {flow : Flow} (h : flow.lastScreen = .certificate) :
    flow = .certificate := by
  cases flow with
  | certificate => rfl
  | publicKey => cases h
  | transaction => cases h
  | message => cases h

/-- A warning that was reached is that of the flow. -/
theorem Reached.warning? {flow : Flow} {recent : List (Step Event Sent App)} {text : String}
    (h : Reached flow recent (.warning text)) : flow.warning? = some text := by
  cases h with
  | warning hwarning => exact hwarning
  | last hlast => exact absurd hlast.symm (flow.lastScreen_ne_warning text)

/-- On any other screen but the question the flow is decided. -/
theorem Reached.decided {flow : Flow} {recent : List (Step Event Sent App)} {screen : Screen}
    (h : Reached flow recent screen) (hwarning : ∀ text, screen ≠ .warning text)
    (hreject : screen ≠ .rejectCertificate) : screen = flow.lastScreen ∧
      ∀ text ∈ flow.warning?, ∃ step ∈ recent, Understood text step := by
  cases h with
  | warning => exact absurd rfl (hwarning _)
  | last hlast hunderstood => exact ⟨hlast, hunderstood⟩
  | reject => exact absurd rfl hreject

/-- A command that was answered with a review. -/
theorem Taken.shows {a b : App} {rx : Received} {sent : Sent} (h : Taken platform a rx sent b)
    (hb : b.awaiting = true) : ∃ flow, Shows platform flow ⟨a, .receive rx, sent, b⟩ ∧
      Deciding flow ⟨a, .receive rx, sent, b⟩ [⟨a, .receive rx, sent, b⟩] b := by
  cases h with
  | nothing => cases hb
  | status => cases hb
  | @review flow d hne hstep =>
    exact ⟨flow, shows_of_step hne hstep, .first flow _, .inl rfl, rfl⟩

/-- The contexts are wiped once. -/
theorem wipe_wipe (d : Device) : d.wipe.wipe = d.wipe := rfl

/-- A touch goes on with the review, unless it ends it. -/
theorem Deciding.chosen {flow : Flow} {first : Step Event Sent App}
    {recent : List (Step Event Sent App)} {a b : App} {confirm : Bool} {sent : Sent}
    (hdeciding : Deciding flow first recent a) (h : Chosen sign a confirm sent b)
    (hb : b.awaiting = true) :
    Deciding flow first (⟨a, .choice confirm, sent, b⟩ :: recent) b := by
  obtain ⟨hreached, hdevice, hstorage⟩ := hdeciding
  cases h with
  | nothing => exact ⟨hreached.mono _, hdevice, hstorage⟩
  | @understood text hscreen =>
    rw [hscreen] at hreached
    have hwarning := hreached.warning?
    refine ⟨.last (Flow.lastScreen_of_warning hwarning).symm fun text' htext' => ?_, hdevice,
      hstorage⟩
    rw [hwarning] at htext'
    cases htext'
    exact ⟨_, List.mem_cons_self, rfl, hscreen⟩
  | reject hscreen =>
    rw [hscreen] at hreached
    obtain ⟨hlast, -⟩ := hreached.decided (fun _ => Screen.noConfusion) Screen.noConfusion
    exact ⟨.reject (Flow.eq_certificate hlast.symm), hdevice, hstorage⟩
  | back hscreen =>
    rw [hscreen] at hreached
    cases hreached with
    | last hlast => exact absurd hlast.symm flow.lastScreen_ne_reject
    | reject hflow =>
      subst hflow
      exact ⟨.last rfl nofun, hdevice, hstorage⟩
  | cancelled => cases hb
  | address => cases hb
  | signed => cases hb
  | @failed e hscreen hsign =>
    unfold App.thrown at hb ⊢
    split_ifs at hb ⊢
    · cases hb
    · refine ⟨hreached.mono _, .inr ?_, hstorage⟩
      show a.device.wipe = _
      rcases hdevice with hdevice | hdevice
      · rw [hdevice]
      · rw [hdevice, wipe_wipe]
    · exact ⟨hreached.mono _, hdevice, hstorage⟩

/-- **While a reply is awaited**, the user decides about what the last command has shown. -/
theorem deciding_of_run {steps : List (Step Event Sent App)} {a : App}
    (h : Run (platform.app sign storage) steps a) (hawaiting : a.awaiting = true) :
    ∃ first flow, steps.find? takesCommand = some first ∧ Shows platform flow first ∧
      Deciding flow first (since takesCommand steps) a := by
  induction h with
  | boot => cases hawaiting
  | @step steps a b e sent hrun hstep ih =>
    have hconsistent := consistent_of_run hrun
    -- a step that takes no command goes on with the review of the steps before
    have hgoes (htakes : takesCommand ⟨a, e, sent, b⟩ = false) (ha : a.awaiting = true)
        (hnext : ∀ first flow recent, Deciding flow first recent a →
          Deciding flow first (⟨a, e, sent, b⟩ :: recent) b) :
        ∃ first flow, List.find? takesCommand (⟨a, e, sent, b⟩ :: steps) = some first ∧
          Shows platform flow first ∧
          Deciding flow first (since takesCommand (⟨a, e, sent, b⟩ :: steps)) b := by
      obtain ⟨first, flow, hfirst, hshows, hdeciding⟩ := ih ha
      rw [List.find?_cons_of_neg (by rw [htakes]; exact Bool.false_ne_true),
        since_cons_of_neg htakes]
      exact ⟨first, flow, hfirst, hshows, hnext _ _ _ hdeciding⟩
    have hsame {first : Step Event Sent App} {flow : Flow} {recent : List (Step Event Sent App)}
        (step : Step Event Sent App) (hdeciding : Deciding flow first recent a) :
        Deciding flow first (step :: recent) a :=
      ⟨hdeciding.reached.mono step, hdeciding.device, hdeciding.storage⟩
    cases appStep hstep with
    | dropped ha => exact hgoes (by simp [takesCommand, ha]) ha fun _ _ _ => hsame _
    | @taken rx _ _ ha htaken =>
      have htakes : takesCommand ⟨a, .receive rx, sent, b⟩ = true := by simp [takesCommand, ha]
      obtain ⟨flow, hshows, hdeciding⟩ := htaken.shows hawaiting
      rw [List.find?_cons_of_pos htakes, since_cons_of_pos htakes]
      exact ⟨_, flow, rfl, hshows, hdeciding⟩
    | chosen hchosen =>
      have ha : a.awaiting = true := by
        rcases hchosen.account hconsistent with ⟨-, ha, -⟩ | ⟨-, hkept | ⟨ha, -⟩⟩
        · exact ha
        · rw [← hkept]
          exact hawaiting
        · exact ha
      exact hgoes rfl ha fun _ _ _ hdeciding => hdeciding.chosen hchosen hawaiting
    | switched hscreen => exact absurd hscreen (hconsistent.awaiting.mp hawaiting)
    | noSwitch => exact hgoes rfl hawaiting fun _ _ _ => hsame _
    | ioReset => cases hawaiting

end AppVechain
