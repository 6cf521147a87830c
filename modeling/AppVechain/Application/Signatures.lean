import AppVechain.Application.Reviews
import AppVechain.Device.Review

/-!
# Signatures

A signature is sent when the user has confirmed the review that the last command has
shown, and then it signs what was shown. For a transaction these are the bytes
that the parser consumed.
-/

namespace AppVechain

open Reactive Numeral

variable {platform : Platform} {sign : Signer} {storage : InternalStorage}

/-- Wiping the contexts leaves what is displayed. -/
theorem pairs_wipe (screen : Screen) (d : Device) : screen.pairs d.wipe = screen.pairs d := by
  cases screen <;> rfl

/-- What is signed with, when the path is a whole one. -/
theorem cryptoSignMessage_ok {tmpCtx : TmpCtx} {signature : EcdsaSignature}
    (h : cryptoSignMessage sign tmpCtx = some (.ok signature)) :
    tmpCtx.pathLength.toNat ≤ MAX_BIP32_PATH ∧ sign tmpCtx.path tmpCtx.hash = .ok signature := by
  unfold cryptoSignMessage at h
  split at h
  case isTrue hlength =>
    rw [Option.some.injEq] at h
    exact ⟨hlength, h⟩
  case isFalse => cases h

/-- A signature that the user has approved: the review that a command has shown, and what became
of it until the user has confirmed it. -/
structure Approved (platform : Platform) (sign : Signer) (first : Step Event Sent App)
    (recent : List (Step Event Sent App)) (flow : Flow) (a : App) (reply : List UInt8) :
    Prop where
  shows : Shows platform flow first
  signs : flow ≠ .publicKey
  screen : a.screen = flow.lastScreen
  pairs : a.screen.pairs a.device = flow.lastScreen.pairs first.after.device
  warned : ∀ text ∈ flow.warning?, ∃ step ∈ recent, Understood text step
  path : first.after.device.tmpCtx.pathLength.toNat ≤ MAX_BIP32_PATH
  signature : ∃ signature, sign first.after.device.tmpCtx.path first.after.device.tmpCtx.hash =
    .ok signature ∧ reply = signature.bytes ++ statusBytes HW_OK

/-- A review that is decided with a signature was approved. -/
theorem Deciding.approved {flow : Flow} {first : Step Event Sent App}
    {recent : List (Step Event Sent App)} {a : App} {e : Event} {reply : List UInt8}
    (hdeciding : Deciding flow first recent a) (hshows : Shows platform flow first)
    (hsigned : SignedReply sign a e reply) :
    Approved platform sign first recent flow a reply := by
  obtain ⟨signature, -, hscreen, hsign, hreply⟩ := hsigned
  have htmpCtx : a.device.tmpCtx = first.after.device.tmpCtx := by
    rcases hdeciding.device with hdevice | hdevice
    · rw [hdevice]
    · rw [hdevice]
      rfl
  have hpairs (screen : Screen) : screen.pairs a.device = screen.pairs first.after.device := by
    rcases hdeciding.device with hdevice | hdevice
    · rw [hdevice]
    · rw [hdevice, pairs_wipe]
  obtain ⟨hlast, hwarned⟩ := hdeciding.reached.decided
    (by rintro text htext; rw [htext] at hscreen; cases hscreen)
    (by intro hreject; rw [hreject] at hscreen; cases hscreen)
  rw [htmpCtx] at hsign
  obtain ⟨hpath, hsigned⟩ := cryptoSignMessage_ok hsign
  refine ⟨hshows, ?_, hlast, ?_, hwarned, hpath, signature, hsigned, hreply⟩
  · rintro rfl
    rw [hlast] at hscreen
    cases hscreen
  · rw [hpairs, hlast]

/-- A reply of the length of a signature is one, about what the last command has shown. -/
theorem decided_of_run {step : Step Event Sent App} {steps : List (Step Event Sent App)}
    {a : App} (h : Run (platform.app sign storage) (step :: steps) a) {reply : List UInt8}
    (hsent : step.answer = some reply) (hlength : reply.length = 67) :
    SignedReply sign step.before step.event reply ∧
      ∃ first flow, steps.find? takesCommand = some first ∧ Shows platform flow first ∧
        Deciding flow first (since takesCommand steps) step.before := by
  obtain ⟨hbefore, hstep, -⟩ := h.after_head
  have hconsistent := consistent_of_run hbefore
  have happ := appStep hstep
  rw [hsent] at happ
  have hsigned := (happ.reply hconsistent).signed.mp hlength
  obtain ⟨-, -, hscreen, -, -⟩ := id hsigned
  exact ⟨hsigned, deciding_of_run hbefore
    (hconsistent.awaiting.mpr (ne_menu_of_signs hscreen))⟩

/-- **Every signature was approved**, in every run and in whatever order the events come: a reply
of the length of a signature is sent when the user confirms, on its last screen, the review that
the last command has shown; all its warnings were confirmed before; and it signs the hash
with the path that the device had when it was shown, and still displays. -/
theorem signature_approved {step : Step Event Sent App} {steps : List (Step Event Sent App)}
    {a : App} (h : Run (platform.app sign storage) (step :: steps) a) {reply : List UInt8}
    (hsent : step.answer = some reply) (hlength : reply.length = 67) :
    step.event = .choice true ∧ ∃ first flow, steps.find? takesCommand = some first ∧
      Approved platform sign first (since takesCommand steps) flow step.before reply := by
  obtain ⟨hsigned, first, flow, hfirst, hshows, hdeciding⟩ := decided_of_run h hsent hlength
  obtain ⟨-, hevent, -, -, -⟩ := id hsigned
  exact ⟨hevent, first, flow, hfirst, hdeciding.approved hshows hsigned⟩

theorem signature_approved_message : ∃ step steps a reply,
    Run ((Platform.recorded []).app fixedSigner ⟨0, 0, 0⟩) (step :: steps) a ∧
      step.event = .choice true ∧ ∃ first flow, steps.find? takesCommand = some first ∧
        Approved (.recorded []) fixedSigner first (since takesCommand steps) flow step.before
          reply := by
  have hreplay : (((Platform.recorded []).app fixedSigner ⟨0, 0, 0⟩).replay confirmedMessage
      ([], App.boot ⟨0, 0, 0⟩)).map (fun run => run.1.map fun step => step.answer.map List.length) =
      some [some 67, none] := by decide +kernel
  obtain ⟨steps, a, hrun, -, hanswers⟩ := exists_run hreplay
  cases steps with
  | nil => cases hanswers
  | cons step steps =>
    rw [List.map_cons, List.cons.injEq] at hanswers
    obtain ⟨reply, hsent, hlength⟩ := Option.map_eq_some_iff.mp hanswers.1
    obtain ⟨hevent, first, flow, happroved⟩ := signature_approved hrun hsent hlength
    exact ⟨step, steps, a, reply, hrun, hevent, first, flow, happroved⟩

/-- The steps of the device in a run of the application. -/
def deviceSteps (platform : Platform) (sign : Signer) (steps : List (Step Event Sent App)) :
    List (Step Command Answer Device) := steps.filterMap (deviceStep platform sign)

/-- What a step without a command is for the device: it only wipes the contexts. -/
theorem wiping_of_deviceStep {step : Step Event Sent App} (htakes : takesCommand step = false)
    {inner : Step Command Answer Device} (h : deviceStep platform sign step = some inner) :
    inner.event = wiping step.before.storage.settings := by
  obtain ⟨c, hcommand, hnext⟩ := Option.bind_eq_some_iff.mp h
  obtain ⟨next, -, rfl⟩ := Option.map_eq_some_iff.mp hnext
  show c = _
  unfold takesCommand at htakes
  unfold deviceCommand at hcommand
  cases hevent : step.event with
  | receive rx =>
    rw [hevent] at htakes hcommand
    have hawaiting : step.before.awaiting = true := by simpa using htakes
    simp only [hawaiting, if_true] at hcommand
    cases hcommand
  | choice confirm =>
    rw [hevent] at hcommand
    simp only at hcommand
    split at hcommand
    · cases hcommand
      rfl
    · cases hcommand
  | touchSwitch token =>
    rw [hevent] at hcommand
    cases hcommand
  | ioReset =>
    rw [hevent] at hcommand
    cases hcommand

/-- What wipes the contexts is of another class. -/
theorem wiping_cla (settings : Settings) : (wiping settings).G.cla ≠ CLA := by
  show ApduBuffer.cla (Vector.replicate 260 0) ≠ CLA
  decide +kernel

/-- The step of the device that shows a review. -/
def shownStep (first : Step Event Sent App) (flow : Flow) (rx : Received) :
    Step Command Answer Device :=
  ⟨first.before.device, ⟨first.before.storage.settings, first.before.arrived rx⟩, .review flow,
    first.after.device⟩

/-- **The run of the device that shows a review**: behind the command that was taken last the
contexts are at most wiped. -/
theorem Shows.device {steps : List (Step Event Sent App)} {a : App} {first : Step Event Sent App}
    {flow : Flow} (hshows : Shows platform flow first)
    (h : Run (platform.app sign storage) steps a)
    (hfirst : steps.find? takesCommand = some first) : ∃ rx earlier others,
      Run platform.device earlier first.before.device ∧
      platform.device.step ⟨first.before.storage.settings, first.before.arrived rx⟩
        first.before.device = some (.review flow, first.after.device) ∧
      deviceSteps platform sign steps = others ++ shownStep first flow rx :: earlier ∧
      ∀ inner ∈ others, inner.event.G.cla ≠ CLA := by
  obtain ⟨htakes, later, earlier, rfl, hlater⟩ := List.find?_eq_some_iff_append.mp hfirst
  obtain ⟨b, hrun⟩ := h.of_append
  obtain ⟨hbefore, -, -⟩ := hrun.after_head
  obtain ⟨rx, hevent, hne, hstep⟩ := hshows.event
  have hawaiting : first.before.awaiting = false := by
    simpa [takesCommand, hevent] using htakes
  have hcommand : deviceCommand sign first.before first.event =
      some ⟨first.before.storage.settings, first.before.arrived rx⟩ := by
    simp [deviceCommand, hevent, hawaiting, hne]
  have hinner : deviceStep platform sign first = some (shownStep first flow rx) :=
    deviceStep_of_step hcommand hstep first.answer
  refine ⟨rx, deviceSteps platform sign earlier, deviceSteps platform sign later,
    run_device hbefore, hstep, ?_, fun inner hmem => ?_⟩
  · rw [deviceSteps, List.filterMap_append, List.filterMap_cons_some hinner]
    rfl
  · obtain ⟨step, hmem, hstep⟩ := List.mem_filterMap.mp hmem
    rw [wiping_of_deviceStep (by simpa using hlater step hmem) hstep]
    exact wiping_cla _

/-- A command shows one flow. -/
theorem Shows.flow_eq {first : Step Event Sent App} {flow flow' : Flow}
    (h : Shows platform flow first) (h' : Shows platform flow' first) : flow = flow' := by
  obtain ⟨rx, hevent, -, hstep⟩ := h.event
  obtain ⟨rx', hevent', -, hstep'⟩ := h'.event
  rw [hevent, Event.receive.injEq] at hevent'
  rw [← hevent', hstep] at hstep'
  cases hstep'
  rfl

/-- Commands of another class begin nothing. -/
theorem since_others {p : Step Command Answer Device → Bool}
    {others steps : List (Step Command Answer Device)}
    (h : ∀ inner ∈ others, inner.event.G.cla ≠ CLA)
    (hp : ∀ inner : Step Command Answer Device, inner.event.G.cla ≠ CLA → p inner = false) :
    since p (others ++ steps) = others ++ since p steps ∧
      (others ++ steps).find? p = steps.find? p := by
  have hnone : ∀ inner ∈ others, p inner = false := fun inner hmem => hp inner (h inner hmem)
  refine ⟨since_append_of_neg hnone steps, ?_⟩
  rw [List.find?_append, List.find?_eq_none.mpr (by simpa using hnone), Option.none_or]

/-- They do not begin a transaction. -/
theorem not_beginsSign {inner : Step Command Answer Device} (h : inner.event.G.cla ≠ CLA) :
    inner.event.beginsSign = false := by
  simp [Command.beginsSign, h]

/-- They do not begin the session of an instruction. -/
theorem not_beginsSessionOf (ins : UInt8) {inner : Step Command Answer Device}
    (h : inner.event.G.cla ≠ CLA) : beginsSessionOf ins inner = false := by
  simp [beginsSessionOf, beginsSession, h]

/-- They consume nothing. -/
theorem consumedSince_others {others steps : List (Step Command Answer Device)}
    (h : ∀ inner ∈ others, inner.event.G.cla ≠ CLA) :
    consumedSince (others ++ steps) = consumedSince steps := by
  have hnothing : others.reverse.flatMap consumedBy = [] := by
    rw [List.flatMap_eq_nil_iff]
    intro inner hmem
    exact if_neg fun hsign => h inner (List.mem_reverse.mp hmem) hsign.1
  rw [consumedSince, (since_others h fun _ => not_beginsSign).1, List.reverse_append,
    List.flatMap_append, hnothing, List.append_nil]
  rfl

/-- **The review of the bytes** that were consumed, in every run of the application, with the data
flag that the device has found where the first clause does not decide about it. -/
theorem Shows.review {steps : List (Step Event Sent App)} {a : App}
    {first : Step Event Sent App} {flow : Flow} (hshows : Shows platform flow first)
    (h : Run (platform.app sign storage) steps a)
    (hfirst : steps.find? takesCommand = some first)
    (hflow : (Answer.review flow).showsTransaction = true)
    (hwrites : ∀ inner ∈ since (fun inner => inner.event.beginsSign)
      (deviceSteps platform sign steps), ¬inner.event.WritesHash inner.before) :
    (∀ found, FlagDecided (consumedSince (deviceSteps platform sign steps)) ∨
        found = first.after.device.clausesContent.dataPresent →
      transactionReview platform first.before.storage.settings found
        first.after.device.tmpCtx.path (consumedSince (deviceSteps platform sign steps)) =
          some (first.after.device.review flow)) ∧
      first.after.device.tmpCtx.hash =
        platform.blake2b256 (consumedSince (deviceSteps platform sign steps)) := by
  obtain ⟨rx, earlier, others, hrun, hstep, hsteps, hothers⟩ := hshows.device h hfirst
  rw [hsteps] at hwrites ⊢
  rw [(since_others hothers fun _ => not_beginsSign).1] at hwrites
  rw [consumedSince_others hothers]
  exact review_of_run hrun hstep hflow fun inner hmem =>
    hwrites inner (List.mem_append_right _ hmem)

/-- The path of a review is the one of the `P1_FIRST`, if the commands since then leave it. -/
theorem Shows.path {steps : List (Step Event Sent App)} {a : App}
    {first : Step Event Sent App} {flow : Flow} (hshows : Shows platform flow first)
    (h : Run (platform.app sign storage) steps a)
    (hfirst : steps.find? takesCommand = some first) {ins : UInt8}
    {begun : Step Command Answer Device}
    (hbegun : (deviceSteps platform sign steps).find? (beginsSessionOf ins) = some begun)
    (hkeeps : ∀ inner ∈ since (beginsSessionOf ins) (deviceSteps platform sign steps),
      inner.event.KeepsPath begun.event.G.path) :
    first.after.device.tmpCtx.path = begun.event.G.path := by
  obtain ⟨rx, earlier, others, hrun, hstep, hsteps, hothers⟩ := hshows.device h hfirst
  rw [hsteps, (since_others hothers fun _ => not_beginsSessionOf ins).2] at hbegun
  rw [hsteps, (since_others hothers fun _ => not_beginsSessionOf ins).1] at hkeeps
  exact (signsWith_of_run (.step hrun hstep) hbegun fun inner hmem =>
    hkeeps inner (List.mem_append_right _ hmem)).2.words

/-- **What you see is what you sign**, on the wire: when a signature is sent for a transaction,
and no command wrote to the hash for a message or certificate since its `P1_FIRST`, there is the
review of the bytes that the parser consumed since then, computed from these bytes and the
settings, such that the screen displays its texts and the signature is that of the hash of these
bytes; and the key is the one of the `P1_FIRST`, if the commands since then leave the path. Where
the first clause does not decide about the data flag, the review is the one with the flag that
the device has found. -/
theorem transaction_signature {step : Step Event Sent App} {steps : List (Step Event Sent App)}
    {a : App} (h : Run (platform.app sign storage) (step :: steps) a) {reply : List UInt8}
    (hsent : step.answer = some reply) (hlength : reply.length = 67)
    {first : Step Event Sent App} {flow : Flow} (hfirst : steps.find? takesCommand = some first)
    (hshows : Shows platform flow first) (hflow : (Answer.review flow).showsTransaction = true)
    (hwrites : ∀ inner ∈ since (fun inner => inner.event.beginsSign)
      (deviceSteps platform sign steps), ¬inner.event.WritesHash inner.before) :
    ∃ review signature,
      (∀ found, FlagDecided (consumedSince (deviceSteps platform sign steps)) ∨
          found = first.after.device.clausesContent.dataPresent →
        transactionReview platform first.before.storage.settings found review.path
          (consumedSince (deviceSteps platform sign steps)) = some review) ∧
      review.flow = flow ∧ step.before.screen.pairs step.before.device = review.pairs ∧
      review.hash = platform.blake2b256 (consumedSince (deviceSteps platform sign steps)) ∧
      sign review.path review.hash = .ok signature ∧
      reply = signature.bytes ++ statusBytes HW_OK ∧
      ∀ begun, (deviceSteps platform sign steps).find? (beginsSessionOf INS_SIGN) = some begun →
        (∀ inner ∈ since (beginsSessionOf INS_SIGN) (deviceSteps platform sign steps),
          inner.event.KeepsPath begun.event.G.path) →
        review.path = begun.event.G.path := by
  obtain ⟨hbefore, -, -⟩ := h.after_head
  obtain ⟨hsigned, first', flow', hfirst', hshows', hdeciding⟩ := decided_of_run h hsent hlength
  rw [hfirst, Option.some.injEq] at hfirst'
  subst hfirst'
  obtain rfl := hshows.flow_eq hshows'
  have happroved := hdeciding.approved hshows hsigned
  obtain ⟨hreview, hhash⟩ := hshows.review hbefore hfirst hflow hwrites
  obtain ⟨signature, hsignature, hreply⟩ := happroved.signature
  refine ⟨first.after.device.review flow, signature, hreview, rfl, ?_, hhash, hsignature, hreply,
    fun begun hbegun hkeeps => hshows.path hbefore hfirst hbegun hkeeps⟩
  rw [happroved.pairs, pairs_lastScreen]

/-- The command of a transaction without clauses. -/
def transactionReceived : Received :=
  ⟨[0xe0, 0x04, 0x00, 0x00, 0x0f] ++ onePath ++ emptyTx, by decide⟩

/-- It is shown without a warning. -/
theorem transactionReceived_shown : ∃ d', (Platform.recorded []).device.step
    ⟨(App.boot ⟨0, 0, 0⟩).storage.settings, (App.boot ⟨0, 0, 0⟩).arrived transactionReceived⟩
      (App.boot ⟨0, 0, 0⟩).device = some (.review (.transaction false false), d') ∧
    d'.tmpCtx.pathLength = 1 := by
  let c : Command := ⟨(App.boot ⟨0, 0, 0⟩).storage.settings,
    (App.boot ⟨0, 0, 0⟩).arrived transactionReceived⟩
  have hseen : (signAccept (.recorded []) c.settings c.G .boot).getRight?.map (fun shown =>
      (shown.tickerText, shown.device.clauseContent.value.number, shown.device.dataPresent,
        shown.device.multipleClauses, shown.device.tmpCtx.pathLength)) =
      some ([86, 69, 84, 32], 0, false, false, 1) := by
    decide +kernel
  have hsign : c.isSign := by decide +kernel
  obtain ⟨shown, haccept, hshown⟩ := exists_shown hseen
  simp only [Prod.mk.injEq] at hshown
  obtain ⟨hticker, hnumber, hdata, hmultiple, hlength⟩ := hshown
  have hfits : FractionFits 10 18 shown.amountRoom shown.device.clauseContent.value.number := by
    rw [hnumber, Shown.amountRoom, hticker]
    exact .inl ⟨dvd_zero _, by norm_num⟩
  obtain ⟨fee, fullAddress, fullAmount, maxFee, hstep⟩ := step_of_accept .boot hsign haccept hfits
  rw [hdata, hmultiple] at hstep
  exact ⟨_, hstep, hlength⟩

/-- It is a command for a transaction. -/
theorem transactionReceived_ins :
    ((App.boot ⟨0, 0, 0⟩).arrived transactionReceived).ins = INS_SIGN := by
  decide +kernel

/-- A signature for a transaction that is shown without a warning, when the user confirms it. -/
theorem exists_signed {rx : Received} (hne : rx.bytes ≠ [])
    (hins : ((App.boot ⟨0, 0, 0⟩).arrived rx).ins = INS_SIGN) {d' : Device}
    (hstep : platform.device.step
      ⟨(App.boot ⟨0, 0, 0⟩).storage.settings, (App.boot ⟨0, 0, 0⟩).arrived rx⟩
        (App.boot ⟨0, 0, 0⟩).device = some (.review (.transaction false false), d'))
    (hlength : d'.tmpCtx.pathLength = 1) : ∃ step steps a reply first,
    Run (platform.app fixedSigner ⟨0, 0, 0⟩) (step :: steps) a ∧
      step.answer = some reply ∧ reply.length = 67 ∧ steps.find? takesCommand = some first ∧
      Shows platform (.transaction false false) first ∧ first.after.device = d' ∧
      ∀ inner ∈ since (fun inner => inner.event.beginsSign)
        (deviceSteps platform fixedSigner steps), ¬inner.event.WritesHash inner.before := by
  have hfirst : (platform.app fixedSigner ⟨0, 0, 0⟩).step (.receive rx) (.boot ⟨0, 0, 0⟩) =
      some (none, _) :=
    step_review rfl hne hstep
  have hshows := shows_of_step hne hstep
  generalize ha : ({ (App.boot ⟨0, 0, 0⟩).handled rx d' with
    screen := Flow.screen (.transaction false false) } : App) = a at hfirst hshows
  have hdevice : a.device = d' := by
    rw [← ha]
    rfl
  have hsigned : cryptoSignMessage fixedSigner a.device.tmpCtx =
      some (.ok ⟨Vector.replicate 32 1, Vector.replicate 32 2, true⟩) := by
    rw [hdevice, cryptoSignMessage, hlength]
    rfl
  have hsecond : (platform.app fixedSigner ⟨0, 0, 0⟩).step (.choice true) a =
      some (some _, _) :=
    step_signed (by rw [← ha]; rfl) hsigned
  refine ⟨_, _, _, _, _, .step (.step .boot hfirst) hsecond, rfl, by decide, rfl, hshows, hdevice,
    fun inner hmem => ?_⟩
  obtain ⟨step, hmem, hinner⟩ := List.mem_filterMap.mp (since_subset _ _ hmem)
  obtain rfl := List.mem_singleton.mp hmem
  have hcommand : deviceCommand fixedSigner (.boot ⟨0, 0, 0⟩) (.receive rx) = some _ :=
    if_neg hne
  have htaken : deviceStep platform fixedSigner ⟨.boot ⟨0, 0, 0⟩, .receive rx, none, a⟩ = some _ :=
    deviceStep_of_step hcommand hstep none
  obtain rfl := Option.some.inj (htaken.symm.trans hinner)
  rintro ⟨-, ⟨hother, -⟩ | ⟨hother, -⟩⟩
  · exact absurd (hother.symm.trans hins) (by decide)
  · exact absurd (hother.symm.trans hins) (by decide)

theorem transaction_signature_emptyTx : ∃ step steps a reply first,
    Run ((Platform.recorded []).app fixedSigner ⟨0, 0, 0⟩) (step :: steps) a ∧
      steps.find? takesCommand = some first ∧ ∃ review signature,
        transactionReview (.recorded []) first.before.storage.settings
          first.after.device.clausesContent.dataPresent review.path
          (consumedSince (deviceSteps (.recorded []) fixedSigner steps)) = some review ∧
        review.flow = .transaction false false ∧
        step.before.screen.pairs step.before.device = review.pairs ∧
        fixedSigner review.path review.hash = .ok signature ∧
        reply = signature.bytes ++ statusBytes HW_OK := by
  obtain ⟨d', hstep, hpath⟩ := transactionReceived_shown
  obtain ⟨step, steps, a, reply, first, hrun, hsent, hlength, hfirst, hshows, -, hwrites⟩ :=
    exists_signed (List.cons_ne_nil _ _) transactionReceived_ins hstep hpath
  obtain ⟨review, signature, hreview, hflow, hpairs, -, hsigned, hreply, -⟩ :=
    transaction_signature hrun hsent hlength hfirst hshows rfl hwrites
  exact ⟨step, steps, a, reply, first, hrun, hfirst, review, signature, hreview _ (.inr rfl), hflow,
    hpairs, hsigned, hreply⟩

end AppVechain
