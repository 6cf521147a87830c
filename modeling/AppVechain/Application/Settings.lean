import AppVechain.Application.Signatures

/-!
# Settings

The settings are what the user has made of them by touching their switches on the
menu: nothing else changes them, also not the loss of a connection. The
configuration announces them, and what is signed obeys them.
-/

namespace AppVechain

open Reactive Numeral

variable {platform : Platform} {sign : Signer} {storage : InternalStorage}

/-- The variable of a switch. -/
def InternalStorage.value (storage : InternalStorage) : Switch → UInt8
  | .contractData => storage.dataAllowed
  | .multiClause => storage.multiClauseAllowed

/-- A switch is touched while the menu is displayed. -/
def touches (token : Switch) (step : Step Event Sent App) : Bool :=
  match step.event with
  | .touchSwitch t => decide (t = token ∧ step.before.screen = .menu)
  | .receive _ | .choice _ | .ioReset => false

/-- A switch is on: it was when the storage was initialised, and was touched an even number of
times since then, or it was not, and was touched an odd number of times. -/
def switchedOn (storage : InternalStorage) (token : Switch) (steps : List (Step Event Sent App)) :
    Bool :=
  decide (storage.prepared.value token ≠ 0) ^^ (steps.countP (touches token)).bodd

/-- The storage is initialised once. -/
theorem prepared_of_initialized {storage : InternalStorage} (h : storage.initialized = 1) :
    storage.prepared = storage := if_neg (not_not.mpr h)

/-- It stays initialised. -/
theorem initialized_prepared (storage : InternalStorage) :
    storage.prepared.initialized = 1 := by
  unfold InternalStorage.prepared
  split
  case isTrue => rfl
  case isFalse h => exact not_not.mp h

/-- A switch that is touched changes its own variable. -/
theorem value_controlsCallback (token t : Switch) (storage : InternalStorage) :
    (controlsCallback t storage).value token =
      if t = token then lnot (storage.value token) else storage.value token := by
  cases t <;> cases token <;> rfl

/-- The storage of an application that leaves a callback. -/
theorem storage_thrown {a : App} (h : a.storage.initialized = 1) (e : UInt16) :
    (a.thrown e).storage = a.storage := by
  unfold App.thrown
  split_ifs
  · exact prepared_of_initialized h
  · rfl
  · rfl

/-- **What an event does to the storage**: nothing, or a switch is touched on the menu. -/
theorem AppStep.settings {a b : App} {e : Event} {sent : Sent}
    (h : AppStep platform sign a e sent b) (ha : a.storage.initialized = 1) :
    (b.storage = a.storage ∧ ∀ token, touches token ⟨a, e, sent, b⟩ = false) ∨
      ∃ t, b.storage = controlsCallback t a.storage ∧
        ∀ token, touches token ⟨a, e, sent, b⟩ = decide (t = token) := by
  cases h with
  | dropped => exact .inl ⟨rfl, fun _ => rfl⟩
  | taken hawaiting h =>
    refine .inl ⟨?_, fun _ => rfl⟩
    cases h <;> rfl
  | chosen h =>
    refine .inl ⟨?_, fun _ => rfl⟩
    cases h with
    | failed => exact storage_thrown ha _
    | nothing => rfl
    | understood => rfl
    | reject => rfl
    | back => rfl
    | cancelled => rfl
    | address => rfl
    | signed => rfl
  | @switched t hscreen =>
    exact .inr ⟨t, rfl, fun token => decide_eq_decide.mpr (and_iff_left hscreen)⟩
  | noSwitch hscreen =>
    exact .inl ⟨rfl, fun token => decide_eq_false fun h => hscreen h.2⟩
  | ioReset => exact .inl ⟨prepared_of_initialized ha, fun _ => rfl⟩

/-- The storage is initialised in every run. -/
theorem initialized_of_run {steps : List (Step Event Sent App)} {a : App}
    (h : Run (platform.app sign storage) steps a) : a.storage.initialized = 1 := by
  refine h.invariant (P := fun a => a.storage.initialized = 1) (initialized_prepared storage) ?_
  intro a e sent b ha hstep
  rcases (appStep hstep).settings ha with ⟨hsame, -⟩ | ⟨t, hswitched, -⟩
  · rw [hsame]
    exact ha
  · rw [hswitched]
    cases t <;> exact ha

/-- `!` twice tells the same. -/
theorem lnot_ne_zero (b : UInt8) : decide (lnot b ≠ 0) = !decide (b ≠ 0) := by
  unfold lnot
  split
  case isTrue h => simp [h]
  case isFalse h => simp [h]

/-- **The settings are the touches of the switches**, in every run. -/
theorem settings_of_run {steps : List (Step Event Sent App)} {a : App}
    (h : Run (platform.app sign storage) steps a) (token : Switch) :
    decide (a.storage.value token ≠ 0) = switchedOn storage token steps := by
  induction h with
  | boot =>
    rw [switchedOn, List.countP_nil, Nat.bodd_zero, Bool.xor_false]
    rfl
  | @step steps a b e sent hrun hstep ih =>
    rw [switchedOn, countP_cons_toNat]
    rcases (appStep hstep).settings (initialized_of_run hrun) with
      ⟨hsame, htouches⟩ | ⟨t, hswitched, htouches⟩
    · rw [hsame, htouches, ih]
      rfl
    · rw [hswitched, htouches, value_controlsCallback]
      by_cases ht : t = token
      · rw [if_pos ht, lnot_ne_zero, ih, decide_eq_true ht, switchedOn, ← Bool.xor_not]
        congr 1
        exact (Nat.bodd_succ _).symm
      · rw [if_neg ht, ih, decide_eq_false ht]
        rfl

/-- The settings that the handlers read. -/
theorem settings_eq_of_run {steps : List (Step Event Sent App)} {a : App}
    (h : Run (platform.app sign storage) steps a) : a.storage.settings =
      ⟨switchedOn storage .contractData steps, switchedOn storage .multiClause steps⟩ := by
  rw [← settings_of_run h .contractData, ← settings_of_run h .multiClause]
  rfl

/-- A reply of six bytes is the configuration. -/
theorem AppStep.configuration {a b : App} {e : Event} {reply : List UInt8}
    (h : AppStep platform sign a e (some reply) b) (ha : a.Consistent)
    (hlength : reply.length = 6) :
    (∃ rx, e = .receive rx ∧ (a.arrived rx).cla = CLA ∧
      (a.arrived rx).ins = INS_GET_APP_CONFIGURATION) ∧
      reply = configurationBytes a.storage.settings ++ statusBytes HW_OK := by
  have hkey {context : PublicKeyContext} (haddress : context.address.length = 41) :
      (setResultGetPublicKey context).length ≠ 4 := by
    rw [length_setResultGetPublicKey haddress]
    split <;> decide
  cases h with
  | taken hawaiting h =>
    cases h with
    | nothing => exact absurd hlength (by decide)
    | @status data sw d hne hdevice =>
      rw [List.length_append] at hlength
      have hdata : data.length = 4 := Nat.add_right_cancel hlength
      cases step_replies hdevice with
      | nothing => cases hdata
      | key => exact absurd hdata (hkey (length_getVetAddressStringFromKey _ _))
      | configuration hcla hins => exact ⟨⟨_, rfl, hcla, hins⟩, rfl⟩
  | chosen h =>
    cases h with
    | cancelled => exact absurd hlength (by decide)
    | address hscreen =>
      rw [List.length_append] at hlength
      exact absurd (Nat.add_right_cancel hlength) (hkey (ha.address hscreen))
    | @signed signature =>
      rw [List.length_append, signature.length_bytes] at hlength
      exact absurd hlength (by decide)

/-- **The configuration announces the settings**, in every run: a reply of six bytes is one to
`INS_GET_APP_CONFIGURATION`, and its first byte tells which switches are on. -/
theorem settings_announced {step : Step Event Sent App} {steps : List (Step Event Sent App)}
    {a : App} (h : Run (platform.app sign storage) (step :: steps) a) {reply : List UInt8}
    (hsent : step.answer = some reply) (hlength : reply.length = 6) :
    (∃ rx, step.event = .receive rx ∧ (step.before.arrived rx).cla = CLA ∧
      (step.before.arrived rx).ins = INS_GET_APP_CONFIGURATION) ∧
      reply = configurationBytes ⟨switchedOn storage .contractData steps,
        switchedOn storage .multiClause steps⟩ ++ statusBytes HW_OK := by
  obtain ⟨hbefore, hstep, -⟩ := h.after_head
  have happ := appStep hstep
  rw [hsent] at happ
  rw [← settings_eq_of_run hbefore]
  exact happ.configuration (consistent_of_run hbefore) hlength

/-- The switch for data is touched, and the configuration is read. -/
def announcedSwitch : List Event := [
  .touchSwitch .contractData,
  .receive ⟨[0xe0, 0x06, 0x00, 0x00, 0x00], by decide⟩]

theorem settings_announced_switch : ∃ step steps a reply,
    Run ((Platform.recorded []).app fixedSigner ⟨0, 0, 0⟩) (step :: steps) a ∧
      step.answer = some reply ∧
      reply = configurationBytes ⟨switchedOn ⟨0, 0, 0⟩ .contractData steps,
        switchedOn ⟨0, 0, 0⟩ .multiClause steps⟩ ++ statusBytes HW_OK := by
  have hreplay : (((Platform.recorded []).app fixedSigner ⟨0, 0, 0⟩).replay announcedSwitch
      ([], App.boot ⟨0, 0, 0⟩)).map (fun run => run.1.map fun step => step.answer.map List.length) =
      some [some 6, none] := by decide +kernel
  obtain ⟨steps, a, hrun, -, hanswers⟩ := exists_run hreplay
  cases steps with
  | nil => cases hanswers
  | cons step steps =>
    rw [List.map_cons, List.cons.injEq] at hanswers
    obtain ⟨reply, hsent, hlength⟩ := Option.map_eq_some_iff.mp hanswers.1
    exact ⟨step, steps, a, reply, hrun, hsent, (settings_announced hrun hsent hlength).2⟩

/-- **What is signed obeys the settings**, in every run: when a signature is sent for a transaction,
a new parser that reads its bytes, whatever its storage, finds several clauses only if the switch
for these is on and the user has confirmed the warning; and it finds data only if the switch for
data is on, if the first clause decides about the data flag or the storages hold the same flags. -/
theorem settings_enforced {step : Step Event Sent App} {steps : List (Step Event Sent App)}
    {a : App} (h : Run (platform.app sign storage) (step :: steps) a) {reply : List UInt8}
    (hsent : step.answer = some reply) (hlength : reply.length = 67)
    {first : Step Event Sent App} {flow : Flow} (hfirst : steps.find? takesCommand = some first)
    (hshows : Shows platform flow first) (hflow : (Answer.review flow).showsTransaction = true)
    (scratch : Scratch) :
    ∃ tx, processTx scratch (initTx .zero) (consumedSince (deviceSteps platform sign steps)) =
        .returned .finished tx ∧
      (1 < tx.env.view.clausesLength → switchedOn storage .multiClause steps = true ∧
        ∃ text ∈ flow.warning?, ∃ warned ∈ steps, Understood text warned) ∧
      (FlagDecided (consumedSince (deviceSteps platform sign steps)) ∨
          (platform.scratch first.after.device.session).Alike scratch →
        tx.env.view.dataPresent = true → switchedOn storage .contractData steps = true) := by
  obtain ⟨hbefore, -, -⟩ := h.after_head
  obtain ⟨hsigned, first', flow', hfirst', hshows', hdeciding⟩ := decided_of_run h hsent hlength
  rw [hfirst, Option.some.injEq] at hfirst'
  subst hfirst'
  obtain rfl := hshows.flow_eq hshows'
  obtain ⟨rx, earlier, others, hrun, hstep, hsteps, hothers⟩ := hshows.device hbefore hfirst
  rw [hsteps, consumedSince_others hothers]
  obtain ⟨tx, hprocess, hmany, hdata⟩ := allowed_of_run hrun hstep hflow scratch
  -- the settings are those with which the review was shown
  have hsettings : first.before.storage.settings = ⟨switchedOn storage .contractData steps,
      switchedOn storage .multiClause steps⟩ := by
    rw [← hshows.storage, ← hdeciding.storage, settings_eq_of_run hbefore]
  refine ⟨tx, hprocess, fun hlength => ?_, fun hstorage htx => ?_⟩
  · obtain ⟨hallowed, data, rfl⟩ := hmany hlength
    have hallowed : first.before.storage.settings.multiClauseAllowed = true := hallowed
    rw [hsettings] at hallowed
    have hwarning : Flow.warning? (.transaction data true) = some (warningMsg data true) :=
      if_pos (Bool.or_true data)
    obtain ⟨warned, hmem, hwarned⟩ :=
      (hdeciding.approved hshows hsigned).warned _ hwarning
    exact ⟨hallowed, _, hwarning, warned, since_subset _ _ hmem, hwarned⟩
  · have hallowed : first.before.storage.settings.dataAllowed = true := hdata hstorage htx
    rwa [hsettings] at hallowed

theorem settings_enforced_emptyTx : ∃ step steps a reply first,
    Run ((Platform.recorded []).app fixedSigner ⟨0, 0, 0⟩) (step :: steps) a ∧
      step.answer = some reply ∧ reply.length = 67 ∧ steps.find? takesCommand = some first ∧
      ∃ tx, processTx (.stale true) (initTx .zero)
          (consumedSince (deviceSteps (.recorded []) fixedSigner steps)) =
            .returned .finished tx ∧
        (1 < tx.env.view.clausesLength →
          switchedOn ⟨0, 0, 0⟩ .multiClause steps = true) := by
  obtain ⟨d', hstep, hpath⟩ := transactionReceived_shown
  obtain ⟨step, steps, a, reply, first, hrun, hsent, hlength, hfirst, hshows, -, -⟩ :=
    exists_signed (List.cons_ne_nil _ _) transactionReceived_ins hstep hpath
  obtain ⟨tx, hprocess, hmany, -⟩ :=
    settings_enforced hrun hsent hlength hfirst hshows rfl (.stale true)
  exact ⟨step, steps, a, reply, first, hrun, hsent, hlength, hfirst, tx, hprocess,
    fun hlength => (hmany hlength).1⟩

end AppVechain
