import AppVechain.Device.Lifecycle

/-!
# Errors and the sessions of streams

An error wipes the contexts of the parser, so a transaction cannot be continued
after it. What signing a message or a certificate needs to go on is elsewhere,
and survives.
-/

namespace AppVechain

open Reactive

/-- The instructions that sign. -/
def signingInstructions : List UInt8 :=
  [INS_SIGN, INS_SIGN_PERSONAL_MESSAGE, INS_SIGN_CERTIFICATE]

/-- A signing session begins: a `P1_FIRST` that is not answered with an error. -/
def beginsSession (step : Step Command Answer Device) : Bool :=
  step.event.G.cla = CLA && step.event.G.ins ∈ signingInstructions &&
    step.event.G.p1 = P1_FIRST && !step.answer.isError

/-- After an error the parser is closed, until a session begins. -/
theorem closed_of_error {platform : Platform} {steps : List (Step Command Answer Device)}
    {d : Device} (h : Run platform.device steps d)
    (herror : ∃ step ∈ since beginsSession steps, step.answer.isError = true) : d.Closed := by
  revert herror
  refine h.since_induction (P := fun steps d =>
    (∃ step ∈ steps, step.answer.isError = true) → d.Closed) ?_ ?_ ?_
  · rintro ⟨step, hmem, -⟩
    cases hmem
  · rintro steps d c a d' - hstep hbegins ⟨step, hmem, herror⟩
    obtain rfl := List.mem_singleton.mp hmem
    rw [beginsSession, herror, Bool.not_true, Bool.and_false] at hbegins
    cases hbegins
  · rintro steps d c a d' - hstep hbegins ih ⟨step, hmem, herror⟩
    have hparser := parserStep hstep
    have hcloses (ha : a.isError = true) : a.closes = true := by
      rw [Answer.closes, ha, Bool.true_or]
    rcases List.mem_cons.mp hmem with rfl | hmem
    · exact hparser.closed_of_closes (hcloses herror)
    · cases hsign : c.beginsSign with
      | false => exact hparser.closed hsign (ih ⟨step, hmem, herror⟩)
      | true =>
        -- a refused beginning of a transaction is an error itself
        simp only [Command.beginsSign, Bool.and_eq_true, decide_eq_true_eq] at hsign
        obtain ⟨⟨hcla, hins⟩, hp1⟩ := hsign
        have ha : a.isError = true := by
          simpa [beginsSession, hcla, hins, hp1, signingInstructions] using hbegins
        exact hparser.closed_of_closes (hcloses ha)

/-- More of a stream is hashed from the start of the data. -/
theorem StreamEnds.more {platform : Platform} {k : Stream} {G : ApduBuffer} {d : Device}
    {ending : Ending} (h : StreamEnds platform k G d ending) (hp1 : G.p1 = P1_MORE) :
    Hashed platform k G ⟨d, OFFSET_CDATA, G.lc.toUInt16⟩ ending := by
  have hfirst : G.p1 ≠ P1_FIRST := by rw [hp1]; decide
  cases h with
  | notBegun hbegun =>
    cases hbegun with
    | noPath hp1' => exact absurd hp1' hfirst
    | notOpened hp1' => exact absurd hp1' hfirst
    | diverges hp1' => exact absurd hp1' hfirst
    | wrongP1 _ hmore => exact absurd hp1 hmore
  | begun hbegun hhashed =>
    cases hbegun with
    | first hp1' => exact absurd hp1' hfirst
    | more => exact hhashed

/-- The data of a command that brings more lie within the buffer. -/
theorem more_bound (d : Device) (G : ApduBuffer) :
    (⟨d, OFFSET_CDATA, G.lc.toUInt16⟩ : Work).workBuffer +
      (⟨d, OFFSET_CDATA, G.lc.toUInt16⟩ : Work).dataLength.toNat ≤ 260 := by
  have hlc := G.lc.toNat_lt
  show 5 + G.lc.toUInt16.toNat ≤ 260
  rw [UInt8.toNat_toUInt16]
  omega

/-- The data of a command are refused in the second part of signing a stream. -/
def Refused (k : Stream) (G : ApduBuffer) (w : Work) : Prop :=
  G.p2 ≠ 0 ∨ w.device.tmpCtx.remainingLength < w.dataLength.toUInt32 ∨
    (w.dataLength.toUInt32 = w.device.tmpCtx.remainingLength ∧ k.closed (w.lastByte G) = false)

/-- These are the errors of the second part. -/
theorem Hashed.isError_iff {platform : Platform} {k : Stream} {G : ApduBuffer} {w : Work}
    {ending : Ending} (h : Hashed platform k G w ending)
    (hbound : w.workBuffer + w.dataLength.toNat ≤ 260) :
    ∃ a d', ending.answer? = some (a, d') ∧ (a.isError = true ↔ Refused k G w) := by
  cases h with
  | wrongP2 hp2 => exact ⟨_, _, rfl, iff_of_true rfl (.inl hp2)⟩
  | tooLong hp2 hlong => exact ⟨_, _, rfl, iff_of_true rfl (.inr (.inl hlong))⟩
  | outOfBounds hp2 hout => omega
  | notClosed hp2 hlast _ hclosed =>
    exact ⟨_, _, rfl, iff_of_true rfl (.inr (.inr ⟨hlast, hclosed⟩))⟩
  | complete hp2 hlast _ hclosed =>
    refine ⟨_, _, rfl, iff_of_false (by simp [Answer.isError]) ?_⟩
    rintro (hne | hlong | ⟨-, hnot⟩)
    · exact hne hp2
    · rw [hlast] at hlong
      exact UInt32.lt_irrefl _ hlong
    · rw [hclosed] at hnot
      cases hnot
  | incomplete hp2 hmore _ =>
    refine ⟨_, _, rfl, iff_of_false (by decide) ?_⟩
    rintro (hne | hlong | ⟨hlast, -⟩)
    · exact hne hp2
    · exact UInt32.lt_asymm hmore hlong
    · rw [hlast] at hmore
      exact UInt32.lt_irrefl _ hmore

/-- The dispatch to the handler of messages. -/
theorem dispatch_message (platform : Platform) (settings : Settings) {G : ApduBuffer}
    (hcla : G.cla = CLA) (hins : G.ins = INS_SIGN_PERSONAL_MESSAGE) (d : Device) :
    dispatch platform settings G d = handleSignPersonalMessage platform G d := by
  unfold dispatch
  rw [if_neg (not_not.mpr hcla), if_neg (by rw [hins]; decide), if_neg (by rw [hins]; decide),
    if_neg (by rw [hins]; decide), if_pos hins]

/-- The dispatch to the handler of certificates. -/
theorem dispatch_certificate (platform : Platform) (settings : Settings) {G : ApduBuffer}
    (hcla : G.cla = CLA) (hins : G.ins = INS_SIGN_CERTIFICATE) (d : Device) :
    dispatch platform settings G d = handleSignCertificate platform G d := by
  unfold dispatch
  rw [if_neg (not_not.mpr hcla), if_neg (by rw [hins]; decide), if_neg (by rw [hins]; decide),
    if_neg (by rw [hins]; decide), if_neg (by rw [hins]; decide), if_pos hins]

/-- When more of an earlier session is refused: it belongs to a transaction, its `P2` is not
zero, it is longer than what remains, or it completes a certificate without a brace. -/
def MoreRefused (G : ApduBuffer) (d : Device) : Prop :=
  G.ins = INS_SIGN ∨ G.p2 ≠ 0 ∨ d.tmpCtx.remainingLength < G.lc.toUInt32 ∨
    (G.ins = INS_SIGN_CERTIFICATE ∧ G.lc.toUInt32 = d.tmpCtx.remainingLength ∧
      G.byte (OFFSET_CDATA + G.lc.toNat - 1) ≠ 125)

/-- The command is answered with an error. -/
def AnswersError (platform : Platform) (c : Command) (d : Device) : Prop :=
  ∃ a d', platform.device.step c d = some (a, d') ∧ a.isError = true

/-- What the handler answers is answered. -/
theorem answersError_iff {platform : Platform} {c : Command} {d d' : Device} {a : Answer}
    (h : (dispatch platform c.settings c.G d).answer? = some (a, d')) :
    AnswersError platform c d ↔ a.isError = true := by
  have hstep : platform.device.step c d = some (a, if a.isError then d'.wipe else d') := by
    show handleApdu platform c.settings c.G d = _
    rw [handleApdu_eq, h]
    rfl
  constructor
  · rintro ⟨a', e, hstep', ha'⟩
    rw [hstep] at hstep'
    cases hstep'
    exact ha'
  · intro ha
    exact ⟨a, _, hstep, ha⟩

/-- **What an error aborts**: until a session begins, more of an earlier one is answered
with an error under exactly that condition. -/
theorem more_after_error {platform : Platform} {steps : List (Step Command Answer Device)}
    {d : Device} (h : Run platform.device steps d)
    (herror : ∃ step ∈ since beginsSession steps, step.answer.isError = true)
    (c : Command) (hcla : c.G.cla = CLA) (hins : c.G.ins ∈ signingInstructions)
    (hp1 : c.G.p1 = P1_MORE) : AnswersError platform c d ↔ MoreRefused c.G d := by
  have hlc := c.G.lc_toUInt32
  have hlast : c.G.lc.toUInt16.toNat = c.G.lc.toNat := UInt8.toNat_toUInt16 _
  -- a stream is continued if the second part of its handler does not refuse it
  have hstream (k : Stream) (hends : StreamEnds platform k c.G d
      (dispatch platform c.settings c.G d)) :
      AnswersError platform c d ↔ Refused k c.G ⟨d, OFFSET_CDATA, c.G.lc.toUInt16⟩ := by
    obtain ⟨a, d', hanswer, hiff⟩ := (hends.more hp1).isError_iff (more_bound d c.G)
    rw [answersError_iff hanswer, hiff]
  simp only [signingInstructions, List.mem_cons, List.not_mem_nil, or_false] at hins
  rcases hins with hins | hins | hins
  · refine iff_of_true ?_ (.inl hins)
    refine ⟨_, _, step_closed hcla hins hp1 (closed_of_error h herror), ?_⟩
    split <;> rfl
  · have hends := handleSignPersonalMessage_ends platform c.G d
    rw [← dispatch_message platform c.settings hcla hins d] at hends
    rw [hstream messageStream hends]
    simp [Refused, MoreRefused, hins, messageStream, hlc, INS_SIGN, INS_SIGN_PERSONAL_MESSAGE,
      INS_SIGN_CERTIFICATE]
  · have hends := handleSignCertificate_ends platform c.G d
    rw [← dispatch_certificate platform c.settings hcla hins d] at hends
    rw [hstream certificateStream hends]
    simp [Refused, MoreRefused, hins, certificateStream, Work.lastByte, hlc, hlast, INS_SIGN,
      INS_SIGN_CERTIFICATE]

/-- A message of two bytes is announced, and a command of another class is refused. -/
def announcedMessage : List Command :=
  [.received [0xe0, 0x08, 0x00, 0x00, 0x09, 0x01, 0x80, 0x00, 0x00, 0x00, 0x00, 0x00, 0x00, 0x02],
    .received [0x00, 0x00, 0x00, 0x00, 0x00]]

theorem more_after_error_refused : ∃ steps d,
    Run (Platform.recorded []).device steps d ∧
      steps.map Step.answer = [.status [] HW_CLA_NOT_SUPPORTED, .status [] HW_OK] ∧
      MoreRefused (.ofBytes [0xe0, 0x08, 0x80, 0x00, 0x03, 0x68, 0x69, 0x6a]) d ∧
      AnswersError (.recorded []) (.received [0xe0, 0x08, 0x80, 0x00, 0x03, 0x68, 0x69, 0x6a])
        d := by
  have hreplay : ((Platform.recorded []).device.replay announcedMessage ([], .boot)).map
      (fun run => (run.1.map Step.answer, run.2.tmpCtx.remainingLength)) =
      some ([.status [] HW_CLA_NOT_SUPPORTED, .status [] HW_OK], 2) := by
    decide +kernel
  obtain ⟨⟨steps, d⟩, hrun, hseen⟩ := exists_replay hreplay
  obtain ⟨hanswers, hremaining⟩ := Prod.mk.injEq .. ▸ hseen
  obtain ⟨failed, earlier, rfl, hfailed, -⟩ := List.map_eq_cons_iff.mp hanswers
  have hpassed : beginsSession failed = false := by
    rw [beginsSession, hfailed]
    exact Bool.and_false _
  have herror : ∃ step ∈ since beginsSession (failed :: earlier), step.answer.isError = true := by
    rw [since_cons_of_neg hpassed]
    exact ⟨failed, List.mem_cons_self, by rw [hfailed]; rfl⟩
  have hrefused : MoreRefused (.ofBytes [0xe0, 0x08, 0x80, 0x00, 0x03, 0x68, 0x69, 0x6a]) d := by
    refine .inr (.inr (.inl ?_))
    rw [hremaining]
    decide
  exact ⟨_, d, hrun, hanswers, hrefused, (more_after_error hrun herror
    (.received [0xe0, 0x08, 0x80, 0x00, 0x03, 0x68, 0x69, 0x6a]) rfl (by decide) rfl).mpr hrefused⟩

/-- The hash of a message of two bytes. -/
def messageDigests : List (List UInt8 × Vector UInt8 32) :=
  [(SIGN_MAGIC ++ [50, 104, 105],
    #v[0x8e, 0xff, 0xa4, 0xf0, 0xbf, 0x73, 0xc4, 0xa8, 0x48, 0x34, 0xb1, 0xfa, 0x0f, 0x15, 0x28,
      0x4c, 0xf6, 0x98, 0x14, 0xde, 0x4d, 0x21, 0x4e, 0x20, 0xee, 0x9e, 0xec, 0x18, 0xe7, 0xb3,
      0x09, 0xa4])]

/-- Then the message is completed. -/
def completedMessage : List Command :=
  announcedMessage ++ [.received [0xe0, 0x08, 0x80, 0x00, 0x02, 0x68, 0x69]]

/-- The message is shown after the error. -/
theorem more_after_error_shown :
    ¬∀ (platform : Platform) (steps : List (Step Command Answer Device)) (d : Device),
      Run platform.device steps d →
      (∃ step ∈ since beginsSession steps, step.answer.isError = true) →
      ∀ c : Command, c.G.cla = CLA → c.G.ins ∈ signingInstructions → c.G.p1 = P1_MORE →
        AnswersError platform c d := by
  intro h
  have hreplay : ((Platform.recorded messageDigests).device.replay completedMessage
      ([], .boot)).map (fun run => run.1.map Step.answer) =
      some [.review .message, .status [] HW_CLA_NOT_SUPPORTED, .status [] HW_OK] := by
    decide +kernel
  obtain ⟨steps, d, hrun, hevents, hanswers⟩ := exists_run hreplay
  obtain ⟨shown, steps, rfl, hshown, hanswers⟩ := List.map_eq_cons_iff.mp hanswers
  obtain ⟨failed, steps, rfl, hfailed, hanswers⟩ := List.map_eq_cons_iff.mp hanswers
  obtain ⟨hevent, hevents⟩ := List.cons_eq_cons.mp hevents
  obtain ⟨hbefore, hstep, -⟩ := hrun.after_head
  rw [hshown] at hstep
  have hpassed : beginsSession failed = false := by
    rw [beginsSession, hfailed]
    exact Bool.and_false _
  obtain ⟨a, d', hstep', ha⟩ := h _ _ _ hbefore
    ⟨failed, by rw [since_cons_of_neg hpassed]; exact List.mem_cons_self, by rw [hfailed]; rfl⟩
    shown.event (by rw [hevent]; rfl) (by rw [hevent]; decide) (by rw [hevent]; rfl)
  rw [hstep] at hstep'
  cases hstep'
  cases ha

end AppVechain
