import AppVechain.Application.State
import AppVechain.Reactive.Projection

/-!
# The loop of the application

`sample_main` receives commands and passes them to `handleApdu`; in between the
user touches the screen, and the connection may be lost. Any of these events may
come at any time: commands that come while a reply is awaited are not delivered,
which is the doing of `io_exchange`, and touches where the screen has no callback do
nothing.
-/

namespace AppVechain

open Reactive

/-- The events of the loop. -/
inductive Event where
  | receive (rx : Received)
  | choice (confirm : Bool)
  | touchSwitch (token : Switch)
  | ioReset

/-- The buffer when bytes arrived. Those behind them are what was in it before. -/
def App.arrived (a : App) (rx : Received) : ApduBuffer := writeBytes a.apdu 0 rx.bytes

/-- The application when a command was handled, before its reply is sent. -/
def App.handled (a : App) (rx : Received) (d : Device) : App :=
  { a with
    device := d
    apdu := a.arrived rx
    awaiting := true }

/-- The body of the loop in `sample_main`, for what was received. -/
def App.receive (platform : Platform) (rx : Received) (a : App) : Option (Sent × App) :=
  if rx.bytes = [] then
    App.send { a with device := a.device.wipe, awaiting := true }
      (statusBytes HW_SECURITY_STATUS_NOT_SATISFIED)
  else
    match handleApdu platform a.storage.settings (a.arrived rx) a.device with
    | none => none
    | some (.status data sw, d) => (a.handled rx d).send (data ++ statusBytes sw)
    | some (.review flow, d) => some (none, { a.handled rx d with screen := flow.screen })

/-- The application takes one event after the other. -/
def App.step (platform : Platform) (sign : Signer) (e : Event) (a : App) : Option (Sent × App) :=
  match e with
  | .receive rx =>
    if platform.ioExchange.delivers a.awaiting rx then a.receive platform rx else some (none, a)
  | .choice confirm => a.choose sign confirm
  | .touchSwitch token =>
    if a.screen = .menu then some (none, { a with storage := controlsCallback token a.storage })
    else some (none, a)
  | .ioReset => some (none, a.reset)

/-- The application when `main` has come to its loop, with what was in the flash memory. -/
def App.boot (storage : InternalStorage) : App where
  device := .boot
  storage := storage.prepared
  apdu := Vector.replicate 260 0
  screen := .menu
  awaiting := false

/-- The application as a system. -/
def Platform.app (platform : Platform) (sign : Signer) (storage : InternalStorage) :
    System Event Sent App where
  boot := .boot storage
  step := App.step platform sign

variable {platform : Platform} {sign : Signer} {storage : InternalStorage}

/-- What arrives while a reply is awaited is not handed over. -/
theorem step_receive (platform : Platform) (sign : Signer) (a : App) (rx : Received) :
    App.step platform sign (.receive rx) a =
      if a.awaiting then some (none, a) else a.receive platform rx := by
  rw [App.step]
  cases a.awaiting with
  | true => rw [platform.ioExchange.awaiting, if_neg Bool.false_ne_true, if_pos rfl]
  | false => rw [platform.ioExchange.idle, if_pos rfl, if_neg Bool.false_ne_true]

/-- A reply that was sent fits into the buffer. -/
theorem send_cases {a b : App} {reply : List UInt8} {sent : Sent}
    (h : a.send reply = some (sent, b)) :
    sent = some reply ∧ reply.length ≤ 260 ∧ b = a.replied reply := by
  unfold App.send at h
  split at h
  case isTrue hfits =>
    cases h
    exact ⟨rfl, hfits, rfl⟩
  case isFalse => cases h

/-- The ways in which a command that was delivered is answered. -/
inductive Taken (platform : Platform) (a : App) (rx : Received) : Sent → App → Prop where
  | nothing (hnil : rx.bytes = []) :
      Taken platform a rx (some (statusBytes HW_SECURITY_STATUS_NOT_SATISFIED))
        (App.replied { a with device := a.device.wipe }
          (statusBytes HW_SECURITY_STATUS_NOT_SATISFIED))
  | status {data : List UInt8} {sw : UInt16} {d : Device} (hne : rx.bytes ≠ [])
      (hstep : platform.device.step ⟨a.storage.settings, a.arrived rx⟩ a.device =
        some (.status data sw, d))
      (hfits : (data ++ statusBytes sw).length ≤ 260) :
      Taken platform a rx (some (data ++ statusBytes sw))
        ((a.handled rx d).replied (data ++ statusBytes sw))
  | review {flow : Flow} {d : Device} (hne : rx.bytes ≠ [])
      (hstep : platform.device.step ⟨a.storage.settings, a.arrived rx⟩ a.device =
        some (.review flow, d)) :
      Taken platform a rx none { a.handled rx d with screen := flow.screen }

/-- A command is answered in one of these ways. -/
theorem receive_taken {a b : App} {rx : Received} {sent : Sent}
    (h : a.receive platform rx = some (sent, b)) : Taken platform a rx sent b := by
  unfold App.receive at h
  split at h
  case isTrue hnil =>
    obtain ⟨rfl, -, rfl⟩ := send_cases h
    exact .nothing hnil
  case isFalse hne =>
    split at h
    case h_1 => cases h
    case h_2 data sw d hstep =>
      obtain ⟨rfl, hfits, rfl⟩ := send_cases h
      exact .status hne hstep hfits
    case h_3 flow d hstep =>
      cases h
      exact .review hne hstep

/-- The screens on which the user signs. -/
def Screen.signs : Screen → Bool
  | .transaction | .message | .certificate => true
  | .menu | .address | .warning _ | .rejectCertificate => false

/-- The ways in which the user decides. -/
inductive Chosen (sign : Signer) (a : App) : Bool → Sent → App → Prop where
  | nothing {confirm : Bool} (hscreen : a.screen = .menu) : Chosen sign a confirm none a
  | understood {text : String} (hscreen : a.screen = .warning text) :
      Chosen sign a true none { a with screen := .transaction }
  | reject (hscreen : a.screen = .certificate) :
      Chosen sign a false none { a with screen := .rejectCertificate }
  | back (hscreen : a.screen = .rejectCertificate) :
      Chosen sign a false none { a with screen := .certificate }
  | cancelled {confirm : Bool} (hscreen : a.screen ≠ .menu)
      (hconfirm : confirm = decide (a.screen = .rejectCertificate)) :
      Chosen sign a confirm (some (statusBytes HW_SW_TRANSACTION_CANCELLED))
        (a.replied (statusBytes HW_SW_TRANSACTION_CANCELLED))
  | address (hscreen : a.screen = .address) :
      Chosen sign a true
        (some (setResultGetPublicKey a.device.publicKeyContext ++ statusBytes HW_OK))
        (a.replied (setResultGetPublicKey a.device.publicKeyContext ++ statusBytes HW_OK))
  | signed {signature : EcdsaSignature} (hscreen : a.screen.signs = true)
      (hsign : cryptoSignMessage sign a.device.tmpCtx = some (.ok signature)) :
      Chosen sign a true (some (signature.bytes ++ statusBytes HW_OK))
        (a.replied (signature.bytes ++ statusBytes HW_OK))
  | failed {e : UInt16} (hscreen : a.screen.signs = true)
      (hsign : cryptoSignMessage sign a.device.tmpCtx = some (.error e)) :
      Chosen sign a true none (a.thrown e)

/-- The callback that signs. -/
theorem touchTxOk_chosen {a b : App} {sent : Sent} (hscreen : a.screen.signs = true)
    (h : a.touchTxOk sign = some (sent, b)) : Chosen sign a true sent b := by
  unfold App.touchTxOk at h
  split at h
  case h_1 => cases h
  case h_2 signature hsign =>
    obtain ⟨rfl, -, rfl⟩ := send_cases h
    exact .signed hscreen hsign
  case h_3 e hsign =>
    cases h
    exact .failed hscreen hsign

/-- The callback that cancels. -/
theorem touchCancel_chosen {a b : App} {confirm : Bool} {sent : Sent} (hscreen : a.screen ≠ .menu)
    (hconfirm : confirm = decide (a.screen = .rejectCertificate))
    (h : a.touchCancel = some (sent, b)) : Chosen sign a confirm sent b := by
  obtain ⟨rfl, -, rfl⟩ := send_cases h
  exact .cancelled hscreen hconfirm

/-- On most screens the user confirms or cancels. -/
theorem confirm_chosen {a b : App} {confirm : Bool} {sent : Sent} {confirmed : Option (Sent × App)}
    (hmenu : a.screen ≠ .menu) (hreject : a.screen ≠ .rejectCertificate)
    (hconfirmed : confirmed = some (sent, b) → Chosen sign a true sent b)
    (h : (if confirm then confirmed else a.touchCancel) = some (sent, b)) :
    Chosen sign a confirm sent b := by
  cases confirm with
  | true => exact hconfirmed h
  | false => exact touchCancel_chosen hmenu (decide_eq_false hreject).symm h

/-- The user decides in one of these ways. -/
theorem choose_chosen {a b : App} {confirm : Bool} {sent : Sent}
    (h : a.choose sign confirm = some (sent, b)) : Chosen sign a confirm sent b := by
  unfold App.choose at h
  cases hscreen : a.screen with
  | menu =>
    rw [hscreen] at h
    cases h
    exact .nothing hscreen
  | address =>
    rw [hscreen] at h
    refine confirm_chosen (by simp [hscreen]) (by simp [hscreen]) (fun hconfirmed => ?_) h
    obtain ⟨rfl, -, rfl⟩ := send_cases hconfirmed
    exact .address hscreen
  | warning text =>
    rw [hscreen] at h
    refine confirm_chosen (by simp [hscreen]) (by simp [hscreen]) (fun hconfirmed => ?_) h
    cases hconfirmed
    exact .understood hscreen
  | transaction =>
    rw [hscreen] at h
    exact confirm_chosen (by simp [hscreen]) (by simp [hscreen])
      (touchTxOk_chosen (by rw [hscreen]; rfl)) h
  | message =>
    rw [hscreen] at h
    exact confirm_chosen (by simp [hscreen]) (by simp [hscreen])
      (touchTxOk_chosen (by rw [hscreen]; rfl)) h
  | certificate =>
    rw [hscreen] at h
    cases confirm with
    | true => exact touchTxOk_chosen (by rw [hscreen]; rfl) h
    | false =>
      cases h
      exact .reject hscreen
  | rejectCertificate =>
    rw [hscreen] at h
    cases confirm with
    | true => exact touchCancel_chosen (by simp [hscreen]) (by simp [hscreen]) h
    | false =>
      cases h
      exact .back hscreen

/-- The ways in which the application takes an event. -/
inductive AppStep (platform : Platform) (sign : Signer) (a : App) :
    Event → Sent → App → Prop where
  | dropped {rx : Received} (hawaiting : a.awaiting = true) :
      AppStep platform sign a (.receive rx) none a
  | taken {rx : Received} {sent : Sent} {b : App} (hawaiting : a.awaiting = false)
      (h : Taken platform a rx sent b) : AppStep platform sign a (.receive rx) sent b
  | chosen {confirm : Bool} {sent : Sent} {b : App} (h : Chosen sign a confirm sent b) :
      AppStep platform sign a (.choice confirm) sent b
  | switched {token : Switch} (hscreen : a.screen = .menu) :
      AppStep platform sign a (.touchSwitch token) none
        { a with storage := controlsCallback token a.storage }
  | noSwitch {token : Switch} (hscreen : a.screen ≠ .menu) :
      AppStep platform sign a (.touchSwitch token) none a
  | ioReset : AppStep platform sign a .ioReset none a.reset

/-- Every event is taken in one of these ways. -/
theorem appStep {a b : App} {e : Event} {sent : Sent}
    (h : (platform.app sign storage).step e a = some (sent, b)) :
    AppStep platform sign a e sent b := by
  have h : App.step platform sign e a = some (sent, b) := h
  cases e with
  | receive rx =>
    rw [step_receive] at h
    cases hawaiting : a.awaiting with
    | true =>
      rw [hawaiting] at h
      cases h
      exact .dropped hawaiting
    | false =>
      rw [hawaiting] at h
      exact .taken hawaiting (receive_taken h)
  | choice confirm => exact .chosen (choose_chosen h)
  | touchSwitch token =>
    simp only [App.step] at h
    by_cases hscreen : a.screen = .menu
    · rw [if_pos hscreen] at h
      cases h
      exact .switched hscreen
    · rw [if_neg hscreen] at h
      cases h
      exact .noSwitch hscreen
  | ioReset =>
    cases h
    exact .ioReset

/-- A command is delivered. -/
def takesCommand (step : Step Event Sent App) : Bool :=
  match step.event with
  | .receive _ => !step.before.awaiting
  | .choice _ | .touchSwitch _ | .ioReset => false

/-- A command of another class, which wipes the contexts. -/
def wiping (settings : Settings) : Command := ⟨settings, Vector.replicate 260 0⟩

/-- What wipes the contexts is refused by the device. -/
theorem step_wiping (settings : Settings) (d : Device) :
    platform.device.step (wiping settings) d = some (.status [] HW_CLA_NOT_SUPPORTED, d.wipe) :=
  rfl

/-- The user confirms, and an error in signing wipes the contexts. -/
def App.wipes (sign : Signer) (confirm : Bool) (a : App) : Bool :=
  confirm && a.screen.signs && match cryptoSignMessage sign a.device.tmpCtx with
    | some (.error e) => e ≠ EXCEPTION_IO_RESET && e &&& ERROR_TYPE_MASK = ERROR_TYPE_HW
    | some (.ok _) | none => false

/-- The command that an event is for the device: the one that was received, and one that wipes
the contexts where the application does that itself. -/
def deviceCommand (sign : Signer) (a : App) : Event → Option Command
  | .receive rx =>
    if a.awaiting then none
    else if rx.bytes = [] then some (wiping a.storage.settings)
    else some ⟨a.storage.settings, a.arrived rx⟩
  | .choice confirm => if a.wipes sign confirm then some (wiping a.storage.settings) else none
  | .touchSwitch _ | .ioReset => none

/-- The step of the device in a step of the application. -/
def deviceStep (platform : Platform) (sign : Signer) (step : Step Event Sent App) :
    Option (Step Command Answer Device) :=
  (deviceCommand sign step.before step.event).bind fun c =>
    (platform.device.step c step.before.device).map fun next =>
      ⟨step.before.device, c, next.1, next.2⟩

/-- Elsewhere nothing is signed. -/
theorem not_wipes {a : App} {confirm : Bool} (h : confirm = false ∨ a.screen.signs = false) :
    a.wipes sign confirm = false := by
  unfold App.wipes
  rcases h with h | h
  · rw [h, Bool.false_and, Bool.false_and]
  · rw [h, Bool.and_false, Bool.false_and]

/-- The device after a touch of the user. -/
theorem Chosen.device {a b : App} {confirm : Bool} {sent : Sent}
    (h : Chosen sign a confirm sent b) :
    b.device = if a.wipes sign confirm then a.device.wipe else a.device := by
  cases h with
  | signed hscreen hsign =>
    have hnot : a.wipes sign true = false := by
      rw [App.wipes, hsign, Bool.and_false]
    rw [hnot]
    rfl
  | @failed e hscreen hsign =>
    have hwipes : a.wipes sign true =
        (decide (e ≠ EXCEPTION_IO_RESET) && decide (e &&& ERROR_TYPE_MASK = ERROR_TYPE_HW)) := by
      rw [App.wipes, hsign, hscreen, Bool.and_self, Bool.true_and]
    rw [hwipes, App.thrown]
    by_cases hreset : e = EXCEPTION_IO_RESET
    · rw [if_pos hreset, decide_eq_false (not_not.mpr hreset), Bool.false_and]
      rfl
    · rw [if_neg hreset, decide_eq_true hreset, Bool.true_and]
      split
      · rw [if_pos (by simpa)]
      · rw [if_neg (by simpa)]
  | nothing hscreen => rw [not_wipes (.inr (by rw [hscreen]; rfl)), if_neg Bool.false_ne_true]
  | understood hscreen =>
    rw [not_wipes (.inr (by rw [hscreen]; rfl)), if_neg Bool.false_ne_true]
  | reject => rw [not_wipes (.inl rfl), if_neg Bool.false_ne_true]
  | back => rw [not_wipes (.inl rfl), if_neg Bool.false_ne_true]
  | cancelled hscreen hconfirm =>
    have hnot : confirm = false ∨ a.screen.signs = false := by
      by_cases hreject : a.screen = .rejectCertificate
      · exact .inr (by rw [hreject]; rfl)
      · exact .inl (hconfirm.trans (decide_eq_false hreject))
    rw [not_wipes hnot, if_neg Bool.false_ne_true]
    rfl
  | address hscreen =>
    rw [not_wipes (.inr (by rw [hscreen]; rfl)), if_neg Bool.false_ne_true]
    rfl

/-- What the device does with a command in a step. -/
theorem deviceStep_of_step {a b : App} {e : Event} {c : Command} {r : Answer} {d : Device}
    (hcommand : deviceCommand sign a e = some c)
    (h : platform.device.step c a.device = some (r, d)) (sent : Sent) :
    deviceStep platform sign ⟨a, e, sent, b⟩ = some ⟨a.device, c, r, d⟩ := by
  simp only [deviceStep, hcommand, Option.bind_some, h, Option.map_some]

/-- Without a command the device does nothing. -/
theorem deviceStep_of_none {a b : App} {e : Event} (hcommand : deviceCommand sign a e = none)
    (sent : Sent) : deviceStep platform sign ⟨a, e, sent, b⟩ = none := by
  simp only [deviceStep, hcommand, Option.bind_none]

/-- **What a step of the application is for the device**: a step with its command, or nothing. -/
theorem AppStep.device {a b : App} {e : Event} {sent : Sent}
    (h : AppStep platform sign a e sent b) :
    (deviceCommand sign a e = none ∧ b.device = a.device) ∨
      ∃ c r, deviceCommand sign a e = some c ∧
        platform.device.step c a.device = some (r, b.device) := by
  cases h with
  | dropped hawaiting => exact .inl ⟨by simp [deviceCommand, hawaiting], rfl⟩
  | @taken rx sent b hawaiting h =>
    cases h with
    | nothing hnil =>
      refine .inr ⟨wiping a.storage.settings, _, ?_, step_wiping _ _⟩
      simp [deviceCommand, hawaiting, hnil]
    | status hne hstep hfits =>
      exact .inr ⟨_, _, by simp [deviceCommand, hawaiting, hne], hstep⟩
    | review hne hstep => exact .inr ⟨_, _, by simp [deviceCommand, hawaiting, hne], hstep⟩
  | @chosen confirm sent b h =>
    have hdevice := h.device
    cases hwipes : a.wipes sign confirm with
    | true =>
      rw [hwipes] at hdevice
      refine .inr ⟨_, .status [] HW_CLA_NOT_SUPPORTED, if_pos hwipes, ?_⟩
      rw [hdevice]
      exact step_wiping _ _
    | false =>
      rw [hwipes] at hdevice
      exact .inl ⟨if_neg (by rw [hwipes]; decide), hdevice⟩
  | switched => exact .inl ⟨rfl, rfl⟩
  | noSwitch => exact .inl ⟨rfl, rfl⟩
  | ioReset => exact .inl ⟨rfl, rfl⟩

/-- The device in the application. -/
def deviceProjection (platform : Platform) (sign : Signer) (storage : InternalStorage) :
    Projection (platform.app sign storage) platform.device where
  state := App.device
  inner := deviceStep platform sign
  boot := rfl
  taken := by
    intro a b e sent step h hinner
    rcases (appStep h).device with ⟨hnone, -⟩ | ⟨c, r, hcommand, hstep⟩
    · rw [deviceStep_of_none hnone sent] at hinner
      cases hinner
    · rw [deviceStep_of_step hcommand hstep sent] at hinner
      cases hinner
      exact ⟨rfl, rfl, hstep⟩
  left := by
    intro a b e sent h hinner
    rcases (appStep h).device with ⟨-, hdevice⟩ | ⟨c, r, hcommand, hstep⟩
    · exact hdevice
    · rw [deviceStep_of_step hcommand hstep sent] at hinner
      cases hinner

/-- **The steps of the device in a run of the application are a run of the device.** -/
theorem run_device {steps : List (Step Event Sent App)} {a : App}
    (h : Run (platform.app sign storage) steps a) :
    Run platform.device (steps.filterMap (deviceStep platform sign)) a.device :=
  (deviceProjection platform sign storage).run h

end AppVechain
