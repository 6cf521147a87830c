import AppVechain.Application.Keys
import AppVechain.Application.Settings
import AppVechain.Application.Specification
import AppVechain.Device.Requests

/-!
# The application conforms

The application refines its specification: what the device answers to a command that was
received whole is replied or displayed, and the user decides about the review that is
displayed, with the path and the hash that were there when it began.
-/

namespace AppVechain

open Reactive

variable {platform : Platform} {sign : Signer} {storage : InternalStorage}
variable {d d' : Device} {a b : App} {t : Dialogue}

/-- The bytes that were received are in the buffer. -/
theorem App.agree_arrived (a : App) (rx : Received) :
    rx.buffer.Agree rx.bytes.length (a.arrived rx) := by
  have hbuffer : rx.buffer.toList = rx.bytes.take 260 ++ List.replicate (260 - rx.bytes.length) 0 :=
    rfl
  rw [ApduBuffer.Agree, App.arrived, writeBytes_take _ rx.fits, hbuffer,
    List.take_of_length_le rx.fits, List.take_left]

/-- A review that the device shows, and whose path it would sign with. -/
structure Device.Presents (d : Device) (r : Review) : Prop where
  review : d.review r.flow = r
  path : d.SignsWith r.path
  signs : r.flow ≠ .publicKey

/-- What is being decided is on the screen. -/
def App.Decides (a : App) : Phase → Prop
  | .ready => a.screen = .menu
  | .address key => a.screen = .address ∧ a.device.publicKeyContext.sent = key ∧
      a.device.fullAddress = publicKeyAddress key.address
  | .warned r text => a.screen = .warning text ∧ a.device.Presents r ∧ r.flow.warning? = some text
  | .asked r => a.screen = r.flow.lastScreen ∧ a.device.Presents r
  | .rejecting r => a.screen = .rejectCertificate ∧ a.device.Presents r ∧ r.flow = .certificate
  | .unknown => a.screen ≠ .menu

/-- What is between two events apart from what is being decided. -/
structure App.Backs (platform : Platform) (a : App) (t : Dialogue) : Prop where
  storage : a.storage = t.storage
  initialized : a.storage.initialized = 1
  holds : a.device.Holds platform t.signing
  path : ∀ path, t.signing.path? = some path → a.device.SignsWith path

/-- The application is in a state of the dialogue. -/
structure App.Follows (platform : Platform) (a : App) (t : Dialogue) : Prop where
  backs : a.Backs platform t
  consistent : a.Consistent
  decides : a.Decides t.phase

/-- What the specification leaves open is what the application does. -/
def App.opening (platform : Platform) (sign : Signer) (storage : InternalStorage) (a : App) :
    Open where
  found
    | .receive rx => a.device.found platform ⟨a.storage.settings, a.arrived rx⟩
    | .choice _ | .touchSwitch _ | .ioReset => false
  seen e := ((platform.app sign storage).step e a).map fun next => seen ⟨a, e, next.1, next.2⟩

/-- What is being decided is seen. -/
theorem App.Decides.seen {phase : Phase} (h : a.Decides phase) (hne : phase ≠ .unknown) :
    a.screen = phase.screen ∧ a.screen.pairs a.device = phase.pairs := by
  cases phase with
  | ready =>
    refine ⟨h, ?_⟩
    rw [show a.screen = .menu from h]
    rfl
  | address key =>
    obtain ⟨hscreen, -, haddress⟩ := h
    refine ⟨hscreen, ?_⟩
    rw [hscreen, Screen.pairs, haddress]
    rfl
  | warned r text =>
    obtain ⟨hscreen, -, -⟩ := h
    refine ⟨hscreen, ?_⟩
    rw [hscreen]
    rfl
  | asked r =>
    obtain ⟨hscreen, hpresents⟩ := h
    refine ⟨hscreen, ?_⟩
    rw [hscreen, pairs_lastScreen, hpresents.review]
    rfl
  | rejecting r =>
    obtain ⟨hscreen, -, -⟩ := h
    refine ⟨hscreen, ?_⟩
    rw [hscreen]
    rfl
  | unknown => exact absurd rfl hne

/-- The application does what is said. -/
abbrev App.Does (platform : Platform) (sign : Signer) (storage : InternalStorage) (a : App)
    (e : Event) : Response Seen Dialogue → Prop :=
  (platform.app sign storage).Meets seen (App.Follows platform) a e

/-- A step that leads where it is said. -/
theorem does_tell {e : Event} {sent : Sent} (ha : a.Consistent)
    (hstep : (platform.app sign storage).step e a = some (sent, b)) (hbacks : b.Backs platform t)
    (hdecides : b.Decides t.phase) (hne : t.phase ≠ .unknown) :
    a.Does platform sign storage e (t.tells sent) := by
  obtain ⟨hscreen, hpairs⟩ := hdecides.seen hne
  refine ⟨sent, b, hstep, ?_, hbacks, (appStep hstep).consistent ha, hdecides⟩
  show Seen.mk sent b.screen (b.screen.pairs b.device) = _
  rw [hpairs, hscreen]

/-- A reply that is sent. -/
theorem does_reply {e : Event} {reply : List UInt8} (ha : a.Consistent)
    (hstep : (platform.app sign storage).step e a = some (some reply, b.replied reply))
    (hbacks : b.Backs platform t) : a.Does platform sign storage e (t.reply reply) :=
  does_tell ha hstep ⟨hbacks.storage, hbacks.initialized, hbacks.holds, hbacks.path⟩ rfl
    Phase.noConfusion

/-- Any step is one where nothing is said, if it leaves the switches. -/
theorem does_unsaid {e : Event} (h : a.Follows platform t)
    (hswitch : ∀ token, e = .touchSwitch token → a.screen ≠ .menu) :
    a.Does platform sign storage e (t.unsaid (a.opening platform sign storage) e) := by
  cases hstep : (platform.app sign storage).step e a with
  | none =>
    have hseen : (a.opening platform sign storage).seen e = none :=
      congrArg (Option.map fun next : Sent × App => seen ⟨a, e, next.1, next.2⟩) hstep
    rw [Dialogue.unsaid, hseen]
    exact hstep
  | some next =>
    obtain ⟨sent, b⟩ := next
    have hseen : (a.opening platform sign storage).seen e = some (seen ⟨a, e, sent, b⟩) :=
      congrArg (Option.map fun next : Sent × App => seen ⟨a, e, next.1, next.2⟩) hstep
    have happ := appStep hstep
    have hstorage : b.storage = a.storage := by
      rcases happ.settings h.backs.initialized with ⟨hsame, -⟩ | ⟨token, -, htouches⟩
      · exact hsame
      · have htouched : touches token ⟨a, e, sent, b⟩ = true :=
          (htouches token).trans (decide_eq_true rfl)
        cases e with
        | touchSwitch token' => exact absurd (of_decide_eq_true htouched).2 (hswitch token' rfl)
        | receive => cases htouched
        | choice => cases htouched
        | ioReset => cases htouched
    rw [Dialogue.unsaid, hseen]
    refine ⟨sent, b, hstep, rfl, ⟨hstorage.trans h.backs.storage, hstorage ▸ h.backs.initialized,
      trivial, Signing.path?_idle⟩, happ.consistent h.consistent, ?_⟩
    show b.Decides (if b.screen = .menu then .ready else .unknown)
    split_ifs with hmenu
    · exact hmenu
    · exact hmenu

/-- A wiped device signs with the same path. -/
theorem Device.SignsWith.wipe {path : List UInt32} (h : d.SignsWith path) :
    d.wipe.SignsWith path := h.congr rfl rfl

/-- Wiping the contexts, or leaving them, keeps what is in hand after an error. -/
theorem App.Backs.afterError (h : a.Backs platform t) (hstorage : b.storage = a.storage)
    (hdevice : b.device = a.device ∨ b.device = a.device.wipe) :
    b.Backs platform { t with signing := t.signing.afterError } := by
  refine ⟨hstorage.trans h.storage, hstorage ▸ h.initialized, ?_, fun path hpath => ?_⟩
  · rcases hdevice with hdevice | hdevice
    · rw [hdevice]
      have hholds := h.holds
      show a.device.Holds platform t.signing.afterError
      cases hsigning : t.signing with
      | idle => trivial
      | transaction => trivial
      | stream =>
        rw [hsigning] at hholds
        exact hholds
    · rw [hdevice]
      exact h.holds.wipe
  · have hsigns := h.path path (Signing.path?_afterError hpath)
    rcases hdevice with hdevice | hdevice
    · rwa [hdevice]
    · rw [hdevice]
      exact hsigns.wipe

/-- The key that is asked for is the one in the context, if it is answered with a review. -/
theorem key?_of_review {c : Command} {found : Bool} {signing signing' : Signing} {o : Outcome}
    (hrespond : platform.signer.respond found signing c = .answer o signing')
    (h : platform.device.step c d = some (.review .publicKey, d')) :
    ∃ key, c.request.key? platform = some key ∧ d'.publicKeyContext.sent = key ∧
      d'.fullAddress = publicKeyAddress key.address := by
  obtain ⟨hcla, ⟨hins, hp1, hp2, hpath⟩, -, hcontext, haddress⟩ := address_of_review h
  have hrequest : c.request =
      .key (c.G.p1 = P1_CONFIRM) c.G.path (c.G.p2 = P2_CHAINCODE) := by
    rw [Command.request, if_neg (not_not.mpr hcla), if_pos hins, ApduBuffer.keyRequest,
      if_pos ⟨hp1, hp2⟩, if_pos hpath]
  have hrespond : signing.respond platform found c.settings c.request = .answer o signing' :=
    hrespond
  rw [hrequest, Signing.respond] at hrespond
  rw [hrequest]
  cases hderive : platform.derive c.G.path (c.G.p2 = P2_CHAINCODE) with
  | none =>
    rw [hderive] at hrespond
    cases hrespond
  | some key =>
    have hsent : (c.G.derived platform d).sent = key := sent_of_derive hderive _
    refine ⟨key, hderive, by rw [hcontext, hsent], ?_⟩
    rw [haddress, ← hsent]
    rfl

/-- Nothing is awaited on the menu. -/
theorem App.Follows.not_awaiting (h : a.Follows platform t) (hready : t.phase = .ready) :
    a.awaiting = false := by
  have hscreen : a.screen = .menu := by
    have hdecides := h.decides
    rw [hready] at hdecides
    exact hdecides
  rw [← Bool.not_eq_true, h.consistent.awaiting, not_not]
  exact hscreen

/-- A review that a command is answered with. -/
theorem does_review (h : a.Follows platform t) (hready : t.phase = .ready) {rx : Received}
    (hne : rx.bytes ≠ []) {flow : Flow} {signing : Signing} {o : Outcome}
    (hstep : platform.device.step ⟨a.storage.settings, a.arrived rx⟩ a.device =
      some (.review flow, d')) (ho : (Answer.review flow).outcome d' = o)
    (hholds : d'.Holds platform signing)
    (hpath : (∀ path, signing.path? = some path → d'.SignsWith path) ∧
      ∀ r, o = .review r → d'.SignsWith r.path) {found : Bool}
    (hrespond : platform.signer.respond found t.signing ⟨a.storage.settings, a.arrived rx⟩ =
      .answer o signing) :
    a.Does platform sign storage (.receive rx) (({ t with signing := signing } : Dialogue).outcome
      ((⟨a.storage.settings, a.arrived rx⟩ : Command).request.key? platform) o) := by
  have happ : (platform.app sign storage).step (.receive rx) a =
      some (none, { a.handled rx d' with screen := flow.screen }) :=
    step_review (h.not_awaiting hready) hne hstep
  have hbacks : ({ a.handled rx d' with screen := flow.screen } : App).Backs platform
      { t with signing := signing } :=
    ⟨h.backs.storage, h.backs.initialized, hholds, hpath.1⟩
  by_cases hflow : flow = .publicKey
  · subst hflow
    subst ho
    obtain ⟨key, hkey, hsent, haddress⟩ := key?_of_review hrespond hstep
    rw [hkey]
    exact does_tell h.consistent happ ⟨hbacks.storage, hbacks.initialized, hholds, hpath.1⟩
      ⟨rfl, hsent, haddress⟩ Phase.noConfusion
  · have ho : o = .review (d'.review flow) := by
      rw [← ho]
      cases flow with
      | publicKey => exact absurd rfl hflow
      | transaction => rfl
      | message => rfl
      | certificate => rfl
    have hpresents : d'.Presents (d'.review flow) := ⟨rfl, hpath.2 _ ho, hflow⟩
    rw [ho]
    cases hwarning : flow.warning? with
    | none =>
      have hphase : (d'.review flow).phase = .asked (d'.review flow) := by
        rw [Review.phase, show (d'.review flow).flow = flow from rfl, hwarning]
        rfl
      have hscreen : flow.screen = flow.lastScreen := by
        rw [flow.screen_eq, hwarning]
        rfl
      rw [Dialogue.outcome, hphase]
      exact does_tell h.consistent happ ⟨hbacks.storage, hbacks.initialized, hholds, hpath.1⟩
        ⟨hscreen, hpresents⟩ Phase.noConfusion
    | some text =>
      have hphase : (d'.review flow).phase = .warned (d'.review flow) text := by
        rw [Review.phase, show (d'.review flow).flow = flow from rfl, hwarning]
        rfl
      have hscreen : flow.screen = .warning text := by
        rw [flow.screen_eq, hwarning]
        rfl
      rw [Dialogue.outcome, hphase]
      exact does_tell h.consistent happ ⟨hbacks.storage, hbacks.initialized, hholds, hpath.1⟩
        ⟨hscreen, hpresents, hwarning⟩ Phase.noConfusion

/-- **A command that is delivered** is answered as it is said of its bytes. -/
theorem does_receive (h : a.Follows platform t) (hready : t.phase = .ready) (rx : Received) :
    a.Does platform sign storage (.receive rx)
      (t.receive platform (a.opening platform sign storage) rx) := by
  have hawaiting := h.not_awaiting hready
  unfold Dialogue.receive
  by_cases hnil : rx.bytes = []
  · rw [if_pos hnil]
    refine does_reply (b := { a with device := a.device.wipe, awaiting := true }) h.consistent ?_
      (h.backs.afterError rfl (.inr rfl))
    show App.step platform sign (.receive rx) a = _
    simp only [step_receive, hawaiting, Bool.false_eq_true, if_false, App.receive, if_pos hnil]
    rfl
  · rw [if_neg hnil]
    by_cases hcomplete : ¬rx.buffer.Complete rx.bytes.length
    · rw [if_pos hcomplete]
      exact does_unsaid h fun _ he => by cases he
    · rw [if_neg hcomplete]
      have hrequest : (rx.command t.storage.settings).request =
          (⟨a.storage.settings, a.arrived rx⟩ : Command).request := by
        rw [← h.backs.storage]
        exact ((a.agree_arrived rx).sameRequest (not_not.mp hcomplete)).request _
      have hmeets := platform.refinement.step ⟨a.storage.settings, a.arrived rx⟩ h.backs.holds
      dsimp only
      rw [hrequest]
      cases hrespond : t.signing.respond platform
        ((a.opening platform sign storage).found (.receive rx)) t.storage.settings
        (⟨a.storage.settings, a.arrived rx⟩ : Command).request with
      | unspecified => exact does_unsaid h fun _ he => by cases he
      | silent =>
        rw [← h.backs.storage] at hrespond
        rw [show platform.signer.respond (platform.refinement.choice a.device
          ⟨a.storage.settings, a.arrived rx⟩) t.signing ⟨a.storage.settings, a.arrived rx⟩ =
            .silent from hrespond] at hmeets
        show App.step platform sign (.receive rx) a = none
        simp only [step_receive, hawaiting, Bool.false_eq_true, if_false]
        exact (receive_eq_none_iff a rx).mpr ⟨hnil, hmeets⟩
      | answer o signing =>
        rw [← h.backs.storage] at hrespond
        have hrespond : platform.signer.respond (platform.refinement.choice a.device
            ⟨a.storage.settings, a.arrived rx⟩) t.signing ⟨a.storage.settings, a.arrived rx⟩ =
              .answer o signing := hrespond
        rw [hrespond] at hmeets
        obtain ⟨answer, d', hstep, ho, hholds⟩ := hmeets
        have hpath := step_signsWith h.backs.path hrespond hstep ho
        cases answer with
        | status data sw =>
          obtain rfl : Outcome.status data sw = o := ho
          exact does_reply h.consistent (step_status hawaiting hnil hstep)
            ⟨h.backs.storage, h.backs.initialized, hholds, hpath.1⟩
        | review flow => exact does_review h hready hnil hstep ho hholds hpath hrespond

/-- The application waits for something that is not said here. -/
theorem does_nothing {e : Event} (h : a.Follows platform t) (hne : t.phase ≠ .unknown)
    (hstep : (platform.app sign storage).step e a = some (none, a)) :
    a.Does platform sign storage e (t.tells none) :=
  does_tell h.consistent hstep h.backs h.decides hne

/-- The user rejects what is displayed. -/
theorem does_cancelled {confirm : Bool} (h : a.Follows platform t)
    (hchoose : a.choose sign confirm = a.touchCancel) :
    a.Does platform sign storage (.choice confirm) t.cancelled := by
  have hfits : (statusBytes HW_SW_TRANSACTION_CANCELLED).length ≤ 260 := by decide
  have hsent : a.touchCancel = some (some (statusBytes HW_SW_TRANSACTION_CANCELLED),
      a.replied (statusBytes HW_SW_TRANSACTION_CANCELLED)) := by
    rw [App.touchCancel, App.send, if_pos hfits]
  exact does_reply h.consistent (hchoose.trans hsent) h.backs

/-- The user goes on to another screen. -/
theorem does_turn {confirm : Bool} (h : a.Follows platform t) (screen : Screen) (phase : Phase)
    (hchoose : a.choose sign confirm = some (none, { a with screen := screen }))
    (hdecides : ({ a with screen := screen } : App).Decides phase) (hne : phase ≠ .unknown) :
    a.Does platform sign storage (.choice confirm)
      (Dialogue.tells { t with phase := phase } none) := by
  have hstep : (platform.app sign storage).step (.choice confirm) a =
      some (none, { a with screen := screen }) := hchoose
  exact does_tell h.consistent hstep
    ⟨h.backs.storage, h.backs.initialized, h.backs.holds, h.backs.path⟩ hdecides hne

/-- **A review that is confirmed** is signed as it is displayed. -/
theorem does_confirm (h : a.Follows platform t) {r : Review} (hphase : t.phase = .asked r) :
    a.Does platform sign storage (.choice true) (t.confirm sign r) := by
  obtain ⟨hscreen, hpresents⟩ : a.screen = r.flow.lastScreen ∧ a.device.Presents r := by
    have hdecides := h.decides
    rw [hphase] at hdecides
    exact hdecides
  have hsigns : a.screen.signs = true := by
    rw [hscreen]
    cases hflow : r.flow with
    | publicKey => exact absurd hflow hpresents.signs
    | transaction => rfl
    | message => rfl
    | certificate => rfl
  have hchoose : a.choose sign true = a.touchTxOk sign := by
    unfold App.choose
    cases hcase : a.screen with
    | transaction => rfl
    | message => rfl
    | certificate => rfl
    | menu => rw [hcase] at hsigns; cases hsigns
    | address => rw [hcase] at hsigns; cases hsigns
    | warning => rw [hcase] at hsigns; cases hsigns
    | rejectCertificate => rw [hcase] at hsigns; cases hsigns
  have hpath : a.device.tmpCtx.path = r.path := congrArg Review.path hpresents.review
  have hhash : a.device.tmpCtx.hash = r.hash := congrArg Review.hash hpresents.review
  have hlength : a.device.tmpCtx.pathLength.toNat ≤ MAX_BIP32_PATH := by
    rw [hpresents.path.length, ← hpath]
    exact a.device.tmpCtx.length_path_le
  have hsign : cryptoSignMessage sign a.device.tmpCtx = some (sign r.path r.hash) := by
    rw [cryptoSignMessage, if_pos hlength, hpath, hhash]
  unfold Dialogue.confirm
  cases hresult : sign r.path r.hash with
  | ok signature =>
    rw [hresult] at hsign
    exact does_reply h.consistent (step_signed hsigns hsign) h.backs
  | error e =>
    have hthrown : (platform.app sign storage).step (.choice true) a = some (none, a.thrown e) := by
      show a.choose sign true = _
      rw [hchoose, App.touchTxOk, hsign, hresult]
    have hstorage : (a.thrown e).storage = a.storage := storage_thrown h.backs.initialized e
    dsimp only
    by_cases hreset : e = EXCEPTION_IO_RESET
    · rw [if_pos hreset]
      refine does_tell h.consistent hthrown ⟨hstorage.trans h.backs.storage,
        hstorage ▸ h.backs.initialized, ?_, ?_⟩ ?_ Phase.noConfusion
      · rw [App.thrown, if_pos hreset]
        exact h.backs.holds
      · rw [App.thrown, if_pos hreset]
        exact h.backs.path
      · rw [App.thrown, if_pos hreset]
        rfl
    · have hdevice : (a.thrown e).device = a.device ∨ (a.thrown e).device = a.device.wipe := by
        rw [App.thrown, if_neg hreset]
        dsimp only
        split_ifs
        · exact .inr rfl
        · exact .inl rfl
      have hkept : (a.thrown e).screen = a.screen := by
        rw [App.thrown, if_neg hreset]
        dsimp only
        split_ifs <;> rfl
      rw [if_neg hreset]
      refine does_tell h.consistent hthrown (h.backs.afterError hstorage hdevice) ?_ ?_
      · show (a.thrown e).Decides t.phase
        rw [hphase]
        refine ⟨hkept.trans hscreen, ?_⟩
        rcases hdevice with hdevice | hdevice
        · rwa [hdevice]
        · rw [hdevice]
          exact ⟨hpresents.review, hpresents.path.wipe, hpresents.signs⟩
      · show t.phase ≠ .unknown
        rw [hphase]
        exact Phase.noConfusion

/-- **A decision** does what is said of it. -/
theorem does_choose (h : a.Follows platform t) (confirm : Bool) :
    a.Does platform sign storage (.choice confirm)
      (t.choose sign (a.opening platform sign storage) confirm) := by
  have hdecides := h.decides
  unfold Dialogue.choose
  cases hphase : t.phase with
  | ready =>
    rw [hphase] at hdecides
    have hscreen : a.screen = .menu := hdecides
    refine does_nothing h (by rw [hphase]; exact Phase.noConfusion) ?_
    show a.choose sign confirm = _
    rw [App.choose, hscreen]
  | address key =>
    rw [hphase] at hdecides
    obtain ⟨hscreen, hcontext, -⟩ := hdecides
    cases confirm with
    | true =>
      have hsent : a.touchAddressOk = some (some (key.bytes ++ statusBytes HW_OK),
          a.replied (key.bytes ++ statusBytes HW_OK)) := by
        have hform := (replyForm_address (h.consistent.address hscreen)).1
        rw [App.touchAddressOk, ← hcontext, ← setResultGetPublicKey_eq]
        exact if_pos (hform.fits.trans (by decide))
      refine does_reply h.consistent ?_ h.backs
      show a.choose sign true = _
      rw [App.choose, hscreen]
      exact hsent
    | false =>
      apply does_cancelled h
      rw [App.choose, hscreen]
      rfl
  | warned r text =>
    rw [hphase] at hdecides
    obtain ⟨hscreen, hpresents, hwarning⟩ := hdecides
    cases confirm with
    | true =>
      refine does_turn h .transaction (.asked r) ?_ ⟨?_, hpresents⟩ Phase.noConfusion
      · rw [App.choose, hscreen]
        rfl
      · exact (Flow.lastScreen_of_warning hwarning).symm
    | false =>
      apply does_cancelled h
      rw [App.choose, hscreen]
      rfl
  | asked r =>
    rw [hphase] at hdecides
    obtain ⟨hscreen, hpresents⟩ := hdecides
    cases confirm with
    | true => exact does_confirm h hphase
    | false =>
      dsimp only
      by_cases hflow : r.flow = .certificate
      · rw [if_neg Bool.false_ne_true, if_pos hflow]
        have hcertificate : a.screen = .certificate := by rw [hscreen, hflow]; rfl
        refine does_turn h .rejectCertificate (.rejecting r) ?_ ⟨rfl, hpresents, hflow⟩
          Phase.noConfusion
        rw [App.choose, hcertificate]
        rfl
      · rw [if_neg Bool.false_ne_true, if_neg hflow]
        apply does_cancelled h
        rw [App.choose, hscreen]
        cases hcase : r.flow with
        | publicKey => exact absurd hcase hpresents.signs
        | transaction => rfl
        | message => rfl
        | certificate => exact absurd hcase hflow
  | rejecting r =>
    rw [hphase] at hdecides
    obtain ⟨hscreen, hpresents, hflow⟩ := hdecides
    cases confirm with
    | true =>
      apply does_cancelled h
      rw [App.choose, hscreen]
      rfl
    | false =>
      refine does_turn h .certificate (.asked r) ?_ ⟨?_, hpresents⟩ Phase.noConfusion
      · rw [App.choose, hscreen]
        rfl
      · rw [hflow]
        rfl
  | unknown => exact does_unsaid h fun _ he => by cases he

/-- While something is decided the menu is not displayed. -/
theorem App.Decides.ne_menu {phase : Phase} (h : a.Decides phase) (hne : phase ≠ .ready)
    (hunknown : phase ≠ .unknown) : a.screen ≠ .menu := by
  rw [(h.seen hunknown).1]
  cases phase with
  | ready => exact absurd rfl hne
  | address => exact Screen.noConfusion
  | warned => exact Screen.noConfusion
  | asked r =>
    show r.flow.lastScreen ≠ .menu
    cases r.flow <;> exact Screen.noConfusion
  | rejecting => exact Screen.noConfusion
  | unknown => exact absurd rfl hunknown

/-- While something is decided, commands are dropped and the switches are not displayed. -/
theorem does_wait (h : a.Follows platform t) (hne : t.phase ≠ .ready)
    (hunknown : t.phase ≠ .unknown) :
    (∀ rx, a.Does platform sign storage (.receive rx) (t.tells none)) ∧
      ∀ token, a.Does platform sign storage (.touchSwitch token) (t.tells none) := by
  have hscreen := h.decides.ne_menu hne hunknown
  refine ⟨fun rx => does_nothing h hunknown ?_, fun token => does_nothing h hunknown ?_⟩
  · show App.step platform sign (.receive rx) a = _
    rw [step_receive, if_pos (h.consistent.awaiting.mpr hscreen)]
  · show App.step platform sign (.touchSwitch token) a = _
    rw [App.step, if_neg hscreen]

/-- A switch that is touched on the menu. -/
theorem does_touchSwitch (h : a.Follows platform t) (hready : t.phase = .ready) (token : Switch) :
    a.Does platform sign storage (.touchSwitch token)
      (Dialogue.tells { t with storage := controlsCallback token t.storage } none) := by
  have hdecides : a.Decides .ready := hready ▸ h.decides
  have hscreen : a.screen = .menu := hdecides
  have hstep : (platform.app sign storage).step (.touchSwitch token) a =
      some (none, { a with storage := controlsCallback token a.storage }) := by
    show App.step platform sign (.touchSwitch token) a = _
    rw [App.step, if_pos hscreen]
  have hinitialized : (controlsCallback token a.storage).initialized = 1 := by
    cases token <;> exact h.backs.initialized
  refine does_tell h.consistent hstep
    ⟨congrArg (controlsCallback token) h.backs.storage, hinitialized, h.backs.holds, h.backs.path⟩
    ?_ ?_
  · show App.Decides _ t.phase
    rw [hready]
    exact hscreen
  · show t.phase ≠ .unknown
    rw [hready]
    exact Phase.noConfusion

/-- **Every event** is taken as it is said. -/
theorem does_respond (h : a.Follows platform t) (e : Event) :
    a.Does platform sign storage e
      (t.respond platform sign (a.opening platform sign storage) e) := by
  have hwaits (hne : t.phase ≠ .ready) (hunknown : t.phase ≠ .unknown) :
      (∀ rx, a.Does platform sign storage (.receive rx) (t.tells none)) ∧
        ∀ token, a.Does platform sign storage (.touchSwitch token) (t.tells none) :=
    does_wait h hne hunknown
  unfold Dialogue.respond
  cases e with
  | receive rx =>
    cases hphase : t.phase with
    | ready => exact does_receive h hphase rx
    | unknown => exact does_unsaid h fun _ he => by cases he
    | address => exact (hwaits (by simp [hphase]) (by simp [hphase])).1 rx
    | warned => exact (hwaits (by simp [hphase]) (by simp [hphase])).1 rx
    | asked => exact (hwaits (by simp [hphase]) (by simp [hphase])).1 rx
    | rejecting => exact (hwaits (by simp [hphase]) (by simp [hphase])).1 rx
  | choice confirm => exact does_choose h confirm
  | touchSwitch token =>
    cases hphase : t.phase with
    | ready =>
      have hdoes : a.Does platform sign storage (.touchSwitch token)
          (Dialogue.tells { t with storage := controlsCallback token t.storage } none) :=
        does_touchSwitch h hphase token
      rw [hphase] at hdoes
      exact hdoes
    | unknown =>
      have hscreen : a.Decides .unknown := hphase ▸ h.decides
      exact does_unsaid h fun _ _ => hscreen
    | address => exact (hwaits (by simp [hphase]) (by simp [hphase])).2 token
    | warned => exact (hwaits (by simp [hphase]) (by simp [hphase])).2 token
    | asked => exact (hwaits (by simp [hphase]) (by simp [hphase])).2 token
    | rejecting => exact (hwaits (by simp [hphase]) (by simp [hphase])).2 token
  | ioReset =>
    have hprepared := prepared_of_initialized h.backs.initialized
    exact does_tell h.consistent rfl ⟨hprepared.trans h.backs.storage,
      initialized_prepared a.storage, h.backs.holds, h.backs.path⟩ rfl Phase.noConfusion

/-- Something is said where something is sent or displayed. -/
theorem tells_said (t : Dialogue) (sent : Sent) : t.tells sent ≠ .unspecified :=
  fun h => by cases h

/-- It is said that anything may be seen. -/
theorem unsaid_said (t : Dialogue) (o : Open) (e : Event) : t.unsaid o e ≠ .unspecified := by
  unfold Dialogue.unsaid
  split
  · exact fun h => by cases h
  · exact fun h => by cases h

/-- Something is said of every command. -/
theorem receive_said (t : Dialogue) (o : Open) (rx : Received) :
    t.receive platform o rx ≠ .unspecified := by
  unfold Dialogue.receive Dialogue.outcome
  by_cases hnil : rx.bytes = []
  · rw [if_pos hnil]
    exact tells_said _ _
  · rw [if_neg hnil]
    by_cases hcomplete : ¬rx.buffer.Complete rx.bytes.length
    · rw [if_pos hcomplete]
      exact unsaid_said _ _ _
    · rw [if_neg hcomplete]
      dsimp only
      split
      · exact unsaid_said _ _ _
      · exact fun h => by cases h
      · split <;> exact tells_said _ _

/-- Something is said of every decision. -/
theorem choose_said (t : Dialogue) (o : Open) (confirm : Bool) :
    t.choose sign o confirm ≠ .unspecified := by
  unfold Dialogue.choose Dialogue.confirm
  cases t.phase with
  | ready => exact tells_said _ _
  | address => cases confirm <;> exact tells_said _ _
  | warned => cases confirm <;> exact tells_said _ _
  | rejecting => cases confirm <;> exact tells_said _ _
  | unknown => exact unsaid_said _ _ _
  | asked r =>
    dsimp only
    split_ifs
    · split
      · exact tells_said _ _
      · split_ifs <;> exact tells_said _ _
    · exact tells_said _ _
    · exact tells_said _ _

/-- Something is said of every event, if only that anything may be seen. -/
theorem respond_said (o : Open) (t : Dialogue) (e : Event) :
    t.respond platform sign o e ≠ .unspecified := by
  unfold Dialogue.respond
  cases e with
  | receive rx =>
    dsimp only
    split
    · exact receive_said t o rx
    · exact unsaid_said t o _
    all_goals exact tells_said t none
  | choice confirm => exact choose_said t o confirm
  | touchSwitch token =>
    dsimp only
    split
    · exact tells_said _ _
    · exact unsaid_said t o _
    all_goals exact tells_said t none
  | ioReset => exact tells_said _ _

/-- **The application refines its specification.** -/
def Platform.appRefinement (platform : Platform) (sign : Signer) (storage : InternalStorage) :
    Refinement (platform.app sign storage) (platform.dialogue sign storage) where
  choice a _ := a.opening platform sign storage
  observe := seen
  related := App.Follows platform
  start := ⟨⟨rfl, initialized_prepared storage, trivial, Signing.path?_idle⟩,
    consistent_of_run .boot, rfl⟩
  anew h := absurd h (respond_said _ _ _)
  step e h := does_respond h e

/-- **The application conforms to its specification**: in every run, whatever commands, decisions,
touches of switches and lost connections came in whatever order, what the host and the user
see is what the specification says, and so is what they see of the next event. -/
theorem app_conforms (platform : Platform) (sign : Signer) (storage : InternalStorage)
    {steps : List (Step Event Sent App)} {a : App} (h : Run (platform.app sign storage) steps a) :
    ∃ t, (platform.dialogue sign storage).Trace (steps.map fun step => (step.event, seen step)) t ∧
      ∀ e, (platform.app sign storage).Meets seen (App.Follows platform) a e
        (t.respond platform sign (a.opening platform sign storage) e) := by
  obtain ⟨t, htrace, hfollows⟩ := (platform.appRefinement sign storage).trace h
  exact ⟨t, htrace, fun e => does_respond hfollows e⟩

theorem app_conforms_message : ∃ steps a t,
    Run ((Platform.recorded []).app fixedSigner ⟨0, 0, 0⟩) steps a ∧
      steps.map Step.event = confirmedMessage.reverse ∧
      ((Platform.recorded []).dialogue fixedSigner ⟨0, 0, 0⟩).Trace
        (steps.map fun step => (step.event, seen step)) t ∧
      ∀ e, ((Platform.recorded []).app fixedSigner ⟨0, 0, 0⟩).Meets seen
        (App.Follows (.recorded [])) a e (t.respond (.recorded []) fixedSigner
          (a.opening (.recorded []) fixedSigner ⟨0, 0, 0⟩) e) := by
  have hreplay : (((Platform.recorded []).app fixedSigner ⟨0, 0, 0⟩).replay confirmedMessage
      ([], App.boot ⟨0, 0, 0⟩)).map (fun run => run.1.map takesCommand) =
      some [false, true] := by decide +kernel
  obtain ⟨steps, a, hrun, hevents, -⟩ := exists_run hreplay
  obtain ⟨t, htrace, hmeets⟩ := app_conforms (.recorded []) fixedSigner ⟨0, 0, 0⟩ hrun
  exact ⟨steps, a, t, hrun, hevents, htrace, hmeets⟩

end AppVechain
