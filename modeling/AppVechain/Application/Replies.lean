import AppVechain.Application.Loop
import AppVechain.Device.Specification

/-!
# Replies

Every command that is delivered gets one reply, unless the connection is lost
before the user has decided. What a reply consists of tells its kind by its length,
and it fits into the buffer.
-/

namespace AppVechain

open Reactive

variable {platform : Platform} {sign : Signer} {storage : InternalStorage}

/-- What a handler puts in front of a status: nothing, a key or the configuration. -/
inductive ReplyData (platform : Platform) (settings : Settings) (G : ApduBuffer) (d : Device) :
    List UInt8 → UInt16 → Prop where
  | nothing {sw : UInt16} : ReplyData platform settings G d [] sw
  | key (hcla : G.cla = CLA) (hderives : G.DerivesKey) (hp1 : G.p1 = P1_NON_CONFIRM) :
      ReplyData platform settings G d (setResultGetPublicKey (G.derived platform d)) HW_OK
  | configuration (hcla : G.cla = CLA) (hins : G.ins = INS_GET_APP_CONFIGURATION) :
      ReplyData platform settings G d (configurationBytes settings) HW_OK

/-- A handler ends with such data, if it ends with a status. -/
def Ending.Replies (platform : Platform) (settings : Settings) (G : ApduBuffer) (d : Device)
    (ending : Ending) : Prop :=
  ∀ data sw d', ending.answer? = some (.status data sw, d') →
    ReplyData platform settings G d data sw

/-- A stream is answered with a status alone. -/
theorem StreamEnds.replies {k : Stream} {G : ApduBuffer} {d : Device} {ending : Ending}
    (h : StreamEnds platform k G d ending) (settings : Settings) :
    ending.Replies platform settings G d := by
  intro data sw d' ha
  cases h with
  | notBegun hbegun => cases hbegun <;> cases ha <;> exact .nothing
  | begun hbegun hhashed => cases hhashed <;> cases ha <;> exact .nothing

/-- A transaction is answered with a status alone. -/
theorem SignEnds.replies {settings : Settings} {G : ApduBuffer} {d : Device} {ending : Ending}
    (h : SignEnds platform settings G d ending) : ending.Replies platform settings G d := by
  intro data sw d' ha
  cases h <;> cases ha <;> exact .nothing

/-- A key is answered with its own data, or with a status alone. -/
theorem handleGetPublicKey_replies {settings : Settings} {G : ApduBuffer} {d : Device}
    (hcla : G.cla = CLA) (hins : G.ins = INS_GET_PUBLIC_KEY) :
    (handleGetPublicKey platform G d).Replies platform settings G d := by
  intro data sw d' ha
  by_cases hderives : G.DerivesKey
  · rw [handleGetPublicKey_of_derives hderives] at ha
    by_cases hp1 : G.p1 = P1_NON_CONFIRM
    · rw [if_pos hp1] at ha
      cases ha
      exact .key hcla hderives hp1
    · rw [if_neg hp1] at ha
      cases ha
  · obtain ⟨sw, hrefused⟩ := handleGetPublicKey_of_not_derives platform d hins hderives
    rw [hrefused] at ha
    cases ha
    exact .nothing

/-- **The data of a reply**, for every instruction. -/
theorem dispatch_replies (settings : Settings) (G : ApduBuffer) (d : Device) :
    (dispatch platform settings G d).Replies platform settings G d := by
  unfold dispatch
  split_ifs with hcla hkey hsign hconfiguration hmessage hcertificate
  · intro data sw d' ha
    cases ha
    exact .nothing
  · exact handleGetPublicKey_replies (not_not.mp hcla) hkey
  · exact (handleSign_ends platform settings G d).replies
  · intro data sw d' ha
    cases ha
    exact .configuration (not_not.mp hcla) hconfiguration
  · exact (handleSignPersonalMessage_ends platform G d).replies settings
  · exact (handleSignCertificate_ends platform G d).replies settings
  · intro data sw d' ha
    cases ha
    exact .nothing

/-- The data of the reply to a command. -/
theorem step_replies {c : Command} {d d' : Device} {data : List UInt8} {sw : UInt16}
    (h : platform.device.step c d = some (.status data sw, d')) :
    ReplyData platform c.settings c.G d data sw := by
  obtain ⟨d₁, hanswer, -⟩ := handleApdu_some h
  exact dispatch_replies c.settings c.G d data sw d₁ hanswer

/-- What can stand in front of a status has one of four lengths. -/
theorem ReplyData.length {settings : Settings} {G : ApduBuffer} {d : Device} {data : List UInt8}
    {sw : UInt16} (h : ReplyData platform settings G d data sw) :
    data.length ∈ [0, 4, 107, 139] := by
  cases h with
  | nothing => decide
  | configuration => simp [configurationBytes]
  | key =>
    rw [length_setResultGetPublicKey (length_derived_address G d)]
    split <;> decide

/-- What holds of the application between two events: a reply is awaited while a review is
displayed, and an address that would be sent is a whole one. -/
structure App.Consistent (a : App) : Prop where
  awaiting : a.awaiting = true ↔ a.screen ≠ .menu
  address : a.screen = .address → a.device.publicKeyContext.address.length = 41

/-- A review does not begin on the menu. -/
theorem screen_ne_menu (flow : Flow) : flow.screen ≠ .menu := by
  cases flow with
  | publicKey => exact Screen.noConfusion
  | transaction dataPresent multipleClauses =>
    cases dataPresent <;> cases multipleClauses <;> exact Screen.noConfusion
  | message => exact Screen.noConfusion
  | certificate => exact Screen.noConfusion

/-- When a reply was sent, the menu is displayed and no reply is awaited. -/
theorem App.Consistent.replied (a : App) (reply : List UInt8) : (a.replied reply).Consistent where
  awaiting := by simp [App.replied]
  address := Screen.noConfusion

/-- Another screen of the same review. -/
theorem App.Consistent.screen {a : App} (h : a.Consistent) (hmenu : a.screen ≠ .menu)
    {screen : Screen} (hscreen : screen ≠ .menu) (haddress : screen ≠ .address) :
    ({ a with screen := screen } : App).Consistent where
  awaiting := iff_of_true (h.awaiting.mpr hmenu) hscreen
  address := fun hnot => absurd hnot haddress

/-- An error in signing leaves the review, or begins anew. -/
theorem App.Consistent.thrown {a : App} (h : a.Consistent) (e : UInt16) :
    (a.thrown e).Consistent := by
  unfold App.thrown
  split_ifs
  · exact ⟨by simp [App.reset], Screen.noConfusion⟩
  · exact ⟨h.awaiting, h.address⟩
  · exact ⟨h.awaiting, h.address⟩

/-- The address of a review is the one that was derived. -/
theorem App.Consistent.review {a : App} {rx : Received} {flow : Flow} {d : Device}
    (h : platform.device.step ⟨a.storage.settings, a.arrived rx⟩ a.device =
      some (.review flow, d)) :
    ({ a.handled rx d with screen := flow.screen } : App).Consistent where
  awaiting := iff_of_true rfl (screen_ne_menu flow)
  address := by
    intro hscreen
    cases flow with
    | publicKey =>
      obtain ⟨-, -, -, hcontext, -⟩ := address_of_review h
      show d.publicKeyContext.address.length = 41
      rw [hcontext]
      exact length_derived_address _ _
    | transaction dataPresent multipleClauses =>
      cases dataPresent <;> cases multipleClauses <;> cases hscreen
    | message => cases hscreen
    | certificate => cases hscreen

/-- Every event keeps the application consistent. -/
theorem AppStep.consistent {a b : App} {e : Event} {sent : Sent}
    (h : AppStep platform sign a e sent b) (ha : a.Consistent) : b.Consistent := by
  cases h with
  | dropped => exact ha
  | taken hawaiting h =>
    cases h with
    | nothing => exact .replied _ _
    | status => exact .replied _ _
    | review _ hstep => exact .review hstep
  | chosen h =>
    cases h with
    | nothing => exact ha
    | understood hscreen =>
      exact ha.screen (by simp [hscreen]) Screen.noConfusion Screen.noConfusion
    | reject hscreen =>
      exact ha.screen (by simp [hscreen]) Screen.noConfusion Screen.noConfusion
    | back hscreen =>
      exact ha.screen (by simp [hscreen]) Screen.noConfusion Screen.noConfusion
    | cancelled => exact .replied _ _
    | address => exact .replied _ _
    | signed => exact .replied _ _
    | failed => exact ha.thrown _
  | switched => exact ⟨ha.awaiting, ha.address⟩
  | noSwitch => exact ha
  | ioReset => exact ⟨by simp [App.reset], Screen.noConfusion⟩

/-- The application is consistent in every run. -/
theorem consistent_of_run {steps : List (Step Event Sent App)} {a : App}
    (h : Run (platform.app sign storage) steps a) : a.Consistent :=
  h.invariant ⟨by simp [Platform.app, App.boot], Screen.noConfusion⟩
    fun _ _ _ _ ha hstep => (appStep hstep).consistent ha

/-- A reply is sent. -/
def sendsReply (step : Step Event Sent App) : Bool := step.answer.isSome

/-- A reply that was awaited will not be sent. -/
def dropsReply (step : Step Event Sent App) : Bool :=
  step.before.awaiting && !step.after.awaiting && step.answer.isNone

/-- The screens on which the user signs belong to a review. -/
theorem ne_menu_of_signs {screen : Screen} (h : screen.signs = true) : screen ≠ .menu := by
  rintro rfl
  cases h

/-- A touch that is answered was awaited, and ends the wait; another one does not, unless an error
begins anew. -/
theorem Chosen.account {a b : App} {confirm : Bool} {sent : Sent}
    (h : Chosen sign a confirm sent b) (ha : a.Consistent) :
    (sent.isSome = true ∧ a.awaiting = true ∧ b.awaiting = false) ∨
      (sent = none ∧
        (b.awaiting = a.awaiting ∨ a.awaiting = true ∧ b.awaiting = false)) := by
  cases h with
  | nothing => exact .inr ⟨rfl, .inl rfl⟩
  | understood => exact .inr ⟨rfl, .inl rfl⟩
  | reject => exact .inr ⟨rfl, .inl rfl⟩
  | back => exact .inr ⟨rfl, .inl rfl⟩
  | cancelled hscreen => exact .inl ⟨rfl, ha.awaiting.mpr hscreen, rfl⟩
  | address hscreen => exact .inl ⟨rfl, ha.awaiting.mpr (by simp [hscreen]), rfl⟩
  | signed hscreen => exact .inl ⟨rfl, ha.awaiting.mpr (ne_menu_of_signs hscreen), rfl⟩
  | @failed e hscreen =>
    refine .inr ⟨rfl, ?_⟩
    have hawaiting : a.awaiting = true := ha.awaiting.mpr (ne_menu_of_signs hscreen)
    unfold App.thrown
    split_ifs
    · exact .inr ⟨hawaiting, rfl⟩
    · exact .inl rfl
    · exact .inl rfl

/-- What a step does to the number of replies that are awaited. -/
theorem AppStep.account {a b : App} {e : Event} {sent : Sent}
    (h : AppStep platform sign a e sent b) (ha : a.Consistent) :
    a.awaiting.toNat + (takesCommand ⟨a, e, sent, b⟩).toNat =
      (sendsReply ⟨a, e, sent, b⟩).toNat + (dropsReply ⟨a, e, sent, b⟩).toNat +
        b.awaiting.toNat := by
  cases h with
  | dropped hawaiting => simp [takesCommand, sendsReply, dropsReply, hawaiting]
  | taken hawaiting h =>
    cases h <;> simp [takesCommand, sendsReply, dropsReply, hawaiting, App.replied, App.handled]
  | chosen h =>
    rcases h.account ha with ⟨hsent, hbefore, hafter⟩ | ⟨hsent, hsame | ⟨hbefore, hafter⟩⟩
    · simp [takesCommand, sendsReply, dropsReply, hsent, hbefore, hafter]
    · simp [takesCommand, sendsReply, dropsReply, hsent, hsame]
    · simp [takesCommand, sendsReply, dropsReply, hsent, hbefore, hafter]
  | switched => simp [takesCommand, sendsReply, dropsReply]
  | noSwitch => simp [takesCommand, sendsReply, dropsReply]
  | ioReset =>
    cases hawaiting : a.awaiting <;>
      simp [takesCommand, sendsReply, dropsReply, App.reset, hawaiting]

/-- A reply is dropped when the connection is lost, also when signing notices that. -/
theorem AppStep.drops {a b : App} {e : Event} {sent : Sent} (h : AppStep platform sign a e sent b)
    (hdrops : dropsReply ⟨a, e, sent, b⟩ = true) : e = .ioReset ∨ e = .choice true ∧
      cryptoSignMessage sign a.device.tmpCtx = some (.error EXCEPTION_IO_RESET) := by
  simp only [dropsReply, Bool.and_eq_true, Bool.not_eq_true'] at hdrops
  obtain ⟨⟨hbefore, hafter⟩, hnone⟩ := hdrops
  -- a step that leaves `awaiting` drops nothing
  have hkept (hsame : b.awaiting = a.awaiting) : False := by
    rw [hsame, hbefore] at hafter
    cases hafter
  cases h with
  | dropped => exact (hkept rfl).elim
  | taken hawaiting => exact absurd (hbefore.symm.trans hawaiting) Bool.true_eq_false.mp
  | chosen h =>
    cases h with
    | nothing => exact (hkept rfl).elim
    | understood => exact (hkept rfl).elim
    | reject => exact (hkept rfl).elim
    | back => exact (hkept rfl).elim
    | cancelled => cases hnone
    | address => cases hnone
    | signed => cases hnone
    | @failed e hscreen hsign =>
      by_cases hreset : e = EXCEPTION_IO_RESET
      · exact .inr ⟨rfl, hreset ▸ hsign⟩
      · refine (hkept ?_).elim
        rw [App.thrown, if_neg hreset]
        split_ifs <;> rfl
  | switched => exact (hkept rfl).elim
  | noSwitch => exact (hkept rfl).elim
  | ioReset => exact .inl rfl

/-- One more step, counted. -/
theorem countP_cons_toNat {α : Type*} (p : α → Bool) (x : α) (xs : List α) :
    (x :: xs).countP p = xs.countP p + (p x).toNat := by
  rw [List.countP_cons]
  cases p x <;> rfl

/-- **One reply for every command**, in every run: a reply is sent for every command that was
delivered, but for one that is awaited while the user decides, and for those that the connection
was lost for. -/
theorem one_reply_each {steps : List (Step Event Sent App)} {a : App}
    (h : Run (platform.app sign storage) steps a) :
    steps.countP takesCommand =
        steps.countP sendsReply + steps.countP dropsReply + a.awaiting.toNat ∧
      (a.awaiting = true ↔ a.screen ≠ .menu) ∧
      ∀ step ∈ steps, dropsReply step = true → step.event = .ioReset ∨
        step.event = .choice true ∧
          cryptoSignMessage sign step.before.device.tmpCtx = some (.error EXCEPTION_IO_RESET) := by
  refine ⟨?_, (consistent_of_run h).awaiting, fun step hmem hdrops =>
    (appStep (h.step_of_mem hmem)).drops hdrops⟩
  induction h with
  | boot => rfl
  | @step steps a b e sent hrun hstep ih =>
    have haccount := (appStep hstep).account (consistent_of_run hrun)
    rw [countP_cons_toNat, countP_cons_toNat, countP_cons_toNat]
    omega

/-- A signer with a fixed signature. -/
def fixedSigner : Signer := fun _ _ => .ok ⟨Vector.replicate 32 1, Vector.replicate 32 2, true⟩

/-- A message of two bytes that is confirmed. -/
def confirmedMessage : List Event := [
  .receive ⟨[0xe0, 0x08, 0x00, 0x00, 0x0b, 0x01, 0x80, 0x00, 0x00, 0x00, 0x00, 0x00, 0x00, 0x02,
    0x68, 0x69], by decide⟩,
  .choice true]

theorem one_reply_each_message : ∃ steps a,
    Run ((Platform.recorded []).app fixedSigner ⟨0, 0, 0⟩) steps a ∧
      steps.countP takesCommand =
        steps.countP sendsReply + steps.countP dropsReply + a.awaiting.toNat := by
  have hreplay : (((Platform.recorded []).app fixedSigner ⟨0, 0, 0⟩).replay confirmedMessage
      ([], App.boot ⟨0, 0, 0⟩)).map (fun run => run.1.map takesCommand) =
      some [false, true] := by decide +kernel
  obtain ⟨steps, a, hrun, -, -⟩ := exists_run hreplay
  exact ⟨steps, a, hrun, (one_reply_each hrun).1⟩

/-- A reply consists of its data and a status: success, or an error without data. -/
structure ReplyForm (reply data : List UInt8) (sw : UInt16) : Prop where
  reply : reply = data ++ statusBytes sw
  status : sw = HW_OK ∨ sw &&& ERROR_TYPE_MASK = ERROR_TYPE_HW ∧ data = []
  length : data.length ∈ [0, 4, 65, 107, 139]

/-- The reply fits into the buffer. -/
theorem ReplyForm.fits {reply data : List UInt8} {sw : UInt16} (h : ReplyForm reply data sw) :
    reply.length ≤ 141 := by
  have hlength := h.length
  simp only [List.mem_cons, List.not_mem_nil, or_false] at hlength
  rw [h.reply, List.length_append]
  show data.length + 2 ≤ 141
  omega

/-- The form of a status alone. -/
theorem replyForm_status {sw : UInt16} (h : sw = HW_OK ∨ sw &&& ERROR_TYPE_MASK = ERROR_TYPE_HW) :
    ReplyForm (statusBytes sw) [] sw where
  reply := rfl
  status := h.imp_right fun herror => ⟨herror, rfl⟩
  length := by decide

/-- The form of the answer to a command, which is not as long as a signature. -/
theorem replyForm_step {c : Command} {d d' : Device} {data : List UInt8} {sw : UInt16}
    (h : platform.device.step c d = some (.status data sw, d')) :
    ReplyForm (data ++ statusBytes sw) data sw ∧ data.length ≠ 65 := by
  have hdata := step_replies h
  have hlength := hdata.length
  simp only [List.mem_cons, List.not_mem_nil, or_false] at hlength
  refine ⟨⟨rfl, ?_, ?_⟩, by omega⟩
  · obtain ⟨d₁, hanswer, -⟩ := handleApdu_some h
    have hregular := dispatch_regular platform c.settings c.G d
    generalize dispatch platform c.settings c.G d = ending at hanswer hregular
    cases ending with
    | throw data sw d =>
      cases hanswer
      refine hregular.imp_right fun herror => ⟨herror, ?_⟩
      cases hdata with
      | nothing => rfl
      | key => exact absurd herror (by decide)
      | configuration => exact absurd herror (by decide)
    | review flow d => cases hanswer
    | stuck e => cases hanswer
  · simp only [List.mem_cons, List.not_mem_nil, or_false]
    omega

/-- A signature has 65 bytes. -/
theorem EcdsaSignature.length_bytes (signature : EcdsaSignature) :
    signature.bytes.length = 65 := by
  simp [EcdsaSignature.bytes]

/-- The form of the reply with a signature. -/
theorem replyForm_signature (signature : EcdsaSignature) :
    ReplyForm (signature.bytes ++ statusBytes HW_OK) signature.bytes HW_OK where
  reply := rfl
  status := .inl rfl
  length := by simp [signature.length_bytes]

/-- The form of the reply with a key that the user has confirmed. -/
theorem replyForm_address {context : PublicKeyContext} (h : context.address.length = 41) :
    ReplyForm (setResultGetPublicKey context ++ statusBytes HW_OK)
      (setResultGetPublicKey context) HW_OK ∧ (setResultGetPublicKey context).length ≠ 65 := by
  have hlength : (setResultGetPublicKey context).length =
      if context.getChaincode then 139 else 107 := length_setResultGetPublicKey h
  refine ⟨⟨rfl, .inl rfl, ?_⟩, ?_⟩
  · rw [hlength]
    split <;> decide
  · rw [hlength]
    split <;> decide

/-- The user has signed, and this is the reply. -/
def SignedReply (sign : Signer) (a : App) (e : Event) (reply : List UInt8) : Prop :=
  ∃ signature, e = .choice true ∧ a.screen.signs = true ∧
    cryptoSignMessage sign a.device.tmpCtx = some (.ok signature) ∧
    reply = signature.bytes ++ statusBytes HW_OK

/-- What is known of a reply: its form, which tells a signature by its length, and that it is at
the front of the buffer. -/
structure ReplySent (sign : Signer) (a : App) (e : Event) (reply : List UInt8) (b : App) :
    Prop where
  form : ∃ data sw, ReplyForm reply data sw
  signed : reply.length = 67 ↔ SignedReply sign a e reply
  buffer : b.apdu.toList.take reply.length = reply

/-- The length of a reply with a signature. -/
theorem SignedReply.length {a : App} {e : Event} {reply : List UInt8}
    (h : SignedReply sign a e reply) : reply.length = 67 := by
  obtain ⟨signature, -, -, -, rfl⟩ := h
  rw [List.length_append, signature.length_bytes]
  rfl

/-- A reply of another length is not a signature. -/
theorem ReplySent.of_form {a c : App} {e : Event} {reply data : List UInt8} {sw : UInt16}
    (hform : ReplyForm reply data sw) (hne : data.length ≠ 65) :
    ReplySent sign a e reply (c.replied reply) where
  form := ⟨data, sw, hform⟩
  signed := by
    have hlength : reply.length ≠ 67 := by
      rw [hform.reply, List.length_append]
      show data.length + 2 ≠ 67
      omega
    exact iff_of_false hlength fun hsigned => hlength hsigned.length
  buffer := writeBytes_take _ (hform.fits.trans (by decide))

/-- **The form of every reply.** -/
theorem AppStep.reply {a b : App} {e : Event} {reply : List UInt8}
    (h : AppStep platform sign a e (some reply) b) (ha : a.Consistent) :
    ReplySent sign a e reply b := by
  cases h with
  | taken hawaiting h =>
    cases h with
    | nothing => exact .of_form (replyForm_status (.inr (by decide))) (by decide)
    | status hne hstep =>
      obtain ⟨hform, hlength⟩ := replyForm_step hstep
      exact .of_form hform hlength
  | chosen h =>
    cases h with
    | cancelled => exact .of_form (replyForm_status (.inr (by decide))) (by decide)
    | address hscreen =>
      obtain ⟨hform, hlength⟩ := replyForm_address (ha.address hscreen)
      exact .of_form hform hlength
    | @signed signature hscreen hsign =>
      have hsigned : SignedReply sign a (.choice true) (signature.bytes ++ statusBytes HW_OK) :=
        ⟨signature, rfl, hscreen, hsign, rfl⟩
      exact ⟨⟨_, _, replyForm_signature signature⟩, iff_of_true hsigned.length hsigned,
        writeBytes_take _ (by rw [hsigned.length]; decide)⟩

/-- **What the application replies with**, in every run: a reply has one of five lengths and
fits into the buffer, in which it stands; it ends with its status, which is success or an error
without data; and it has 67 bytes if and only if it is a signature that the user has
confirmed on the screen of a review. -/
theorem reply_forms {steps : List (Step Event Sent App)} {a : App}
    (h : Run (platform.app sign storage) steps a) {step : Step Event Sent App}
    (hmem : step ∈ steps) {reply : List UInt8} (hsent : step.answer = some reply) :
    reply.length ≤ 141 ∧ ReplySent sign step.before step.event reply step.after := by
  obtain ⟨earlier, -, hbefore⟩ := h.before_of_mem hmem
  have hstep := appStep (h.step_of_mem hmem)
  rw [hsent] at hstep
  have hreply := hstep.reply (consistent_of_run hbefore)
  obtain ⟨data, sw, hform⟩ := hreply.form
  exact ⟨hform.fits, hreply⟩

theorem reply_forms_message : ∃ steps a step reply,
    Run ((Platform.recorded []).app fixedSigner ⟨0, 0, 0⟩) (step :: steps) a ∧
      step.answer = some reply ∧ reply.length ≤ 141 ∧
      ReplySent fixedSigner step.before step.event reply step.after := by
  have hreplay : (((Platform.recorded []).app fixedSigner ⟨0, 0, 0⟩).replay confirmedMessage
      ([], App.boot ⟨0, 0, 0⟩)).map (fun run => run.1.map fun step => step.answer.isSome) =
      some [true, false] := by decide +kernel
  obtain ⟨steps, a, hrun, -, hanswers⟩ := exists_run hreplay
  cases steps with
  | nil => cases hanswers
  | cons step steps =>
    rw [List.map_cons, List.cons.injEq] at hanswers
    obtain ⟨reply, hsent⟩ := Option.isSome_iff_exists.mp hanswers.1
    exact ⟨steps, a, step, reply, hrun, hsent, reply_forms hrun List.mem_cons_self hsent⟩

/-- A reply that is not too long is sent. -/
theorem send_ne_none {a : App} {reply data : List UInt8} {sw : UInt16}
    (h : ReplyForm reply data sw) : a.send reply ≠ none := by
  rw [App.send, if_pos (h.fits.trans (by decide))]
  exact Option.some_ne_none _

/-- The callback that cancels always sends its reply. -/
theorem touchCancel_ne_none (a : App) : a.touchCancel ≠ none :=
  send_ne_none (replyForm_status (.inr (by decide)))

/-- The callback that signs has no step only where the path is too long. -/
theorem touchTxOk_eq_none_iff (a : App) :
    a.touchTxOk sign = none ↔ MAX_BIP32_PATH < a.device.tmpCtx.pathLength.toNat := by
  unfold App.touchTxOk cryptoSignMessage
  by_cases hlength : a.device.tmpCtx.pathLength.toNat ≤ MAX_BIP32_PATH
  · rw [if_pos hlength]
    apply iff_of_false _ (not_lt.mpr hlength)
    cases sign a.device.tmpCtx.path a.device.tmpCtx.hash with
    | ok signature => exact send_ne_none (replyForm_signature signature)
    | error e => exact Option.some_ne_none _
  · rw [if_neg hlength]
    exact iff_of_true rfl (not_le.mp hlength)

/-- A command that was received has no answer only where the device has none. -/
theorem receive_eq_none_iff (a : App) (rx : Received) :
    a.receive platform rx = none ↔ rx.bytes ≠ [] ∧
      platform.device.step ⟨a.storage.settings, a.arrived rx⟩ a.device = none := by
  have hhandle : platform.device.step ⟨a.storage.settings, a.arrived rx⟩ a.device =
      handleApdu platform a.storage.settings (a.arrived rx) a.device := rfl
  unfold App.receive
  by_cases hnil : rx.bytes = []
  · rw [if_pos hnil]
    exact iff_of_false (send_ne_none (replyForm_status (.inr (by decide)))) fun h => h.1 hnil
  · rw [if_neg hnil, and_iff_right hnil, ← hhandle]
    cases hstep : platform.device.step ⟨a.storage.settings, a.arrived rx⟩ a.device with
    | none => exact iff_of_true rfl rfl
    | some next =>
      obtain ⟨answer, d⟩ := next
      apply iff_of_false _ (Option.some_ne_none _)
      cases answer with
      | status data sw => exact send_ne_none (replyForm_step hstep).1
      | review flow => exact Option.some_ne_none _

/-- The user is left without an answer only where the path of a signature is too long. -/
theorem choose_eq_none_iff {a : App} (ha : a.Consistent) (confirm : Bool) :
    a.choose sign confirm = none ↔ confirm = true ∧ a.screen.signs = true ∧
      MAX_BIP32_PATH < a.device.tmpCtx.pathLength.toNat := by
  have hcancel := touchCancel_ne_none a
  have haddress (hscreen : a.screen = .address) : a.touchAddressOk ≠ none :=
    send_ne_none (replyForm_address (ha.address hscreen)).1
  have hsign : a.touchTxOk sign = none ↔ MAX_BIP32_PATH < a.device.tmpCtx.pathLength.toNat :=
    touchTxOk_eq_none_iff a
  unfold App.choose
  cases hscreen : a.screen <;> cases confirm <;>
    simp [Screen.signs, hcancel, hsign, haddress, hscreen]

/-- **Where the application has no step**, in every run: where the device has none for a
command, and where the derivation of a key would read behind the path. -/
theorem step_eq_none_iff {steps : List (Step Event Sent App)} {a : App}
    (h : Run (platform.app sign storage) steps a) (e : Event) :
    (platform.app sign storage).step e a = none ↔
      (∃ rx, e = .receive rx ∧ a.awaiting = false ∧ rx.bytes ≠ [] ∧
        platform.device.step ⟨a.storage.settings, a.arrived rx⟩ a.device = none) ∨
      (e = .choice true ∧ a.screen.signs = true ∧
        MAX_BIP32_PATH < a.device.tmpCtx.pathLength.toNat) := by
  have ha := consistent_of_run h
  show App.step platform sign e a = none ↔ _
  cases e with
  | receive rx =>
    have hreceive : a.receive platform rx = none ↔ rx.bytes ≠ [] ∧
        platform.device.step ⟨a.storage.settings, a.arrived rx⟩ a.device = none :=
      receive_eq_none_iff a rx
    cases hawaiting : a.awaiting <;> simp [step_receive, hawaiting, hreceive]
  | choice confirm =>
    rw [App.step, choose_eq_none_iff ha]
    cases confirm <;> simp
  | touchSwitch token =>
    by_cases hscreen : a.screen = .menu <;> simp [App.step, hscreen]
  | ioReset => simp [App.step]

/-- A command that the device answers with a review. -/
theorem step_review {a : App} {rx : Received} {flow : Flow} {d : Device}
    (hawaiting : a.awaiting = false) (hne : rx.bytes ≠ [])
    (h : platform.device.step ⟨a.storage.settings, a.arrived rx⟩ a.device =
      some (.review flow, d)) :
    (platform.app sign storage).step (.receive rx) a =
      some (none, { a.handled rx d with screen := flow.screen }) := by
  show App.step platform sign (.receive rx) a = _
  have h : handleApdu platform a.storage.settings (a.arrived rx) a.device =
      some (.review flow, d) := h
  simp only [step_receive, hawaiting, Bool.false_eq_true, if_false, App.receive, hne, h]

/-- A command that the device answers with a status. -/
theorem step_status {a : App} {rx : Received} {data : List UInt8} {sw : UInt16} {d : Device}
    (hawaiting : a.awaiting = false) (hne : rx.bytes ≠ [])
    (h : platform.device.step ⟨a.storage.settings, a.arrived rx⟩ a.device =
      some (.status data sw, d)) :
    (platform.app sign storage).step (.receive rx) a = some (some (data ++ statusBytes sw),
      (a.handled rx d).replied (data ++ statusBytes sw)) := by
  have hfits := (replyForm_step h).1.fits
  show App.step platform sign (.receive rx) a = _
  have h : handleApdu platform a.storage.settings (a.arrived rx) a.device =
      some (.status data sw, d) := h
  simp only [step_receive, hawaiting, Bool.false_eq_true, if_false, App.receive, hne, h]
  exact if_pos (hfits.trans (by decide))

/-- A review that the user confirms where it is signed. -/
theorem step_signed {a : App} (hscreen : a.screen.signs = true) {signature : EcdsaSignature}
    (hsign : cryptoSignMessage sign a.device.tmpCtx = some (.ok signature)) :
    (platform.app sign storage).step (.choice true) a =
      some (some (signature.bytes ++ statusBytes HW_OK),
        a.replied (signature.bytes ++ statusBytes HW_OK)) := by
  have htouch : a.touchTxOk sign = some (some (signature.bytes ++ statusBytes HW_OK),
      a.replied (signature.bytes ++ statusBytes HW_OK)) := by
    rw [App.touchTxOk, hsign]
    exact if_pos ((replyForm_signature signature).fits.trans (by decide))
  show a.choose sign true = _
  unfold App.choose
  cases h : a.screen with
  | transaction => exact htouch
  | message => exact htouch
  | certificate => exact htouch
  | menu => rw [h] at hscreen; cases hscreen
  | address => rw [h] at hscreen; cases hscreen
  | warning => rw [h] at hscreen; cases hscreen
  | rejectCertificate => rw [h] at hscreen; cases hscreen

end AppVechain
