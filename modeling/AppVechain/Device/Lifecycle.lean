import AppVechain.Device.Answers

/-!
# The life of the parser

The parser is called on contexts that were initialised and were never told to
stop since. An error wipes them. After a review nothing does, but the fee
computed for it lies over them, and its first bytes are zero.
-/

namespace AppVechain

open Reactive

/-- Contexts that were initialised, and that every later call left waiting for more. Other
commands use the same hash. -/
inductive Live (scratch : Scratch) : TxState → Prop where
  | initialised (env : TxEnv) : Live scratch (initTx env)
  | processing {tx tx' : TxState} {chunk : List UInt8} : Live scratch tx →
      processTx scratch tx chunk = .returned .processing tx' → Live scratch tx'
  | hashed {tx : TxState} (bytes : List UInt8) : Live scratch tx →
      Live scratch { tx with env := { tx.env with blake2b := bytes } }

/-- The parser will not be called: its contexts are cleared, or a fee lies over them. -/
def Device.Closed (d : Device) : Prop :=
  match d.feeComputationContext with
  | some fee => fee.baseGasPrice.upper.upper = 0
  | none => d.tx.currentField = .none

/-- The parser may be called. -/
structure Device.Open (platform : Platform) (d : Device) : Prop where
  fee : d.feeComputationContext = none
  live : Live (platform.scratch d.session) d.tx

/-- The command begins the transaction of a new session. -/
def Command.beginsSign (c : Command) : Bool :=
  c.G.cla = CLA && c.G.ins = INS_SIGN && c.G.p1 = P1_FIRST

/-- The answer ends the session of the parser. -/
def Answer.closes (a : Answer) : Bool := a.isError || a.showsTransaction

/-- Wiping clears the contexts. -/
theorem wipe_closed (d : Device) : d.wipe.Closed := rfl

/-- Other commands leave the parser closed. -/
theorem Device.KeepsParser.closed {d d' : Device} (h : d.KeepsParser d') (hd : d.Closed) :
    d'.Closed := by
  rw [h]
  exact hd

/-- Other commands leave the parser open. -/
theorem Device.KeepsParser.open {platform : Platform} {d d' : Device} (h : d.KeepsParser d')
    (hd : d.Open platform) : d'.Open platform := by
  rw [h]
  exact ⟨hd.fee, hd.live.hashed d'.blake2b⟩

/-- The fee of a displayed transaction. -/
theorem strings_baseGasPrice {platform : Platform} {shown : Shown} {strings : TxStrings}
    (h : shown.strings platform = some strings) :
    strings.feeComputationContext.baseGasPrice.upper.upper = 0 := by
  unfold Shown.strings at h
  obtain ⟨fullAmount, -, h⟩ := Option.bind_eq_some_iff.mp h
  obtain ⟨⟨fee, maxFee⟩, hfee, h⟩ := Option.bind_eq_some_iff.mp h
  rw [Option.some.injEq] at h
  subst h
  unfold maxFeeToDisplayString at hfee
  obtain ⟨ctx, hctx, hfee⟩ := Option.bind_eq_some_iff.mp hfee
  obtain ⟨text, -, hfee⟩ := Option.bind_eq_some_iff.mp hfee
  cases hfee
  exact computeMaxFee_baseGasPrice hctx

/-- What is wiped or kept by `handleApdu`. -/
theorem handleApdu_some {platform : Platform} {settings : Settings} {G : ApduBuffer} {d d' : Device}
    {a : Answer} (h : handleApdu platform settings G d = some (a, d')) :
    ∃ d₁, (dispatch platform settings G d).answer? = some (a, d₁) ∧
      d' = if a.isError then d₁.wipe else d₁ := by
  rw [handleApdu_eq] at h
  obtain ⟨⟨a', d₁⟩, hanswer, heq⟩ := Option.map_eq_some_iff.mp h
  cases heq
  exact ⟨d₁, hanswer, rfl⟩

/-- The hash and `tmpCtx` are left as the handler left them. -/
theorem handleApdu_answer {platform : Platform} {settings : Settings} {G : ApduBuffer}
    {d d' : Device} {a : Answer} (h : handleApdu platform settings G d = some (a, d')) :
    ∃ d₁, (dispatch platform settings G d).answer? = some (a, d₁) ∧ d'.blake2b = d₁.blake2b ∧
      d'.tmpCtx = d₁.tmpCtx := by
  obtain ⟨d₁, hanswer, rfl⟩ := handleApdu_some h
  refine ⟨d₁, hanswer, ?_⟩
  split
  · exact ⟨rfl, rfl⟩
  · exact ⟨rfl, rfl⟩

/-- The ways in which a command leaves the parser when it is not refused. -/
inductive ParserStep (platform : Platform) (c : Command) (d : Device) (a : Answer) :
    Device → Prop where
  | other {d' : Device} (hkeeps : d.KeepsParser d') (hcloses : a.closes = false)
      (hsign : c.beginsSign = false) : ParserStep platform c d a d'
  | error (d₁ : Device) (herror : a.isError = true) : ParserStep platform c d a d₁.wipe
  | processing {w : Work} {tx : TxState} (hcall : CallsParser c.G d w)
      (hprocess : processTx (platform.scratch w.device.session) w.device.tx
        (c.G.bytes w.workBuffer w.dataLength.toNat) = .returned .processing tx)
      (hcla : c.G.cla = CLA) (hins : c.G.ins = INS_SIGN) (hcloses : a.closes = false) :
      ParserStep platform c d a { w.device with tx := tx }
  | shown {d' : Device} (fee : FeeComputationContext)
      (hfee : d'.feeComputationContext = some fee) (htop : fee.baseGasPrice.upper.upper = 0) :
      ParserStep platform c d a d'

/-- Every answered command is one of these steps. -/
theorem parserStep {platform : Platform} {c : Command} {d d' : Device} {a : Answer}
    (h : platform.device.step c d = some (a, d')) : ParserStep platform c d a d' := by
  obtain ⟨d₁, hanswer, rfl⟩ := handleApdu_some h
  by_cases herror : a.isError = true
  · rw [if_pos herror]
    exact .error d₁ herror
  · rw [if_neg herror]
    by_cases hsign : c.G.cla = CLA ∧ c.G.ins = INS_SIGN
    · rw [dispatch_sign platform c.settings hsign.1 hsign.2] at hanswer
      have hends := handleSign_ends platform c.settings c.G d
      generalize handleSign platform c.settings c.G d = ending at hanswer hends
      cases hends with
      | error hsw =>
        cases hanswer
        exact absurd (decide_eq_true hsw) herror
      | stuck => cases hanswer
      | processing hcall hprocess =>
        cases hanswer
        exact .processing hcall hprocess hsign.1 hsign.2 (by decide)
      | review _ hstrings =>
        cases hanswer
        exact .shown _ rfl (strings_baseGasPrice hstrings)
    · obtain ⟨hkeeps, hshows⟩ := (dispatch_other platform c.settings hsign d).2 a d₁ hanswer
      apply ParserStep.other hkeeps
      · rw [Answer.closes, hshows, Bool.or_false, Bool.eq_false_iff]
        exact herror
      · rw [Command.beginsSign, Bool.and_eq_false_iff]
        exact .inl (by simpa using hsign)

/-- The device on which the parser is called is open when the session goes on, or new. -/
theorem CallsParser.open {platform : Platform} {G : ApduBuffer} {d : Device} {w : Work}
    (h : CallsParser G d w) (hd : d.Open platform ∨ d.Closed) : w.device.Open platform := by
  rcases signBegin_p1 h.begun with hp1 | hp1
  · obtain ⟨-, -, -, -, htx, hfee, -⟩ := signBegin_first hp1 h.begun
    refine ⟨hfee, ?_⟩
    rw [htx]
    exact .initialised _
  · have hbegun := h.begun
    rw [signBegin_more hp1, Sum.inr.injEq] at hbegun
    subst hbegun
    obtain ⟨-, hfee, hfield⟩ := signInitialized_none h.initialized
    rcases hd with hopen | hclosed
    · exact hopen
    · unfold Device.Closed at hclosed
      rw [hfee] at hclosed
      exact absurd hclosed hfield

/-- An answer that ends the session leaves the parser closed. -/
theorem ParserStep.closed_of_closes {platform : Platform} {c : Command} {d d' : Device} {a : Answer}
    (h : ParserStep platform c d a d') (hcloses : a.closes = true) : d'.Closed := by
  cases h with
  | other _ hkept => simp [hkept] at hcloses
  | error d₁ => exact wipe_closed d₁
  | processing _ _ _ _ hkept => simp [hkept] at hcloses
  | shown fee hfee htop =>
    unfold Device.Closed
    rw [hfee]
    exact htop

/-- A closed parser stays closed until a session begins. -/
theorem ParserStep.closed {platform : Platform} {c : Command} {d d' : Device} {a : Answer}
    (h : ParserStep platform c d a d') (hbegins : c.beginsSign = false) (hd : d.Closed) :
    d'.Closed := by
  cases h with
  | other hkeeps => exact hkeeps.closed hd
  | error d₁ => exact wipe_closed d₁
  | processing hcall _ hcla hins =>
    exfalso
    rcases signBegin_p1 hcall.begun with hp1 | hp1
    · simp [Command.beginsSign, hcla, hins, hp1] at hbegins
    · have hbegun := hcall.begun
      rw [signBegin_more hp1, Sum.inr.injEq] at hbegun
      subst hbegun
      obtain ⟨-, hfee, hfield⟩ := signInitialized_none hcall.initialized
      unfold Device.Closed at hd
      rw [hfee] at hd
      exact hfield hd
  | shown fee hfee htop =>
    unfold Device.Closed
    rw [hfee]
    exact htop

/-- A parser that is open or closed stays so. -/
theorem ParserStep.open_or_closed {platform : Platform} {c : Command} {d d' : Device} {a : Answer}
    (h : ParserStep platform c d a d') (hd : d.Open platform ∨ d.Closed) :
    d'.Open platform ∨ d'.Closed := by
  cases h with
  | other hkeeps => exact hd.imp hkeeps.open hkeeps.closed
  | error d₁ => exact .inr (wipe_closed d₁)
  | processing hcall hprocess =>
    have hopen := hcall.open hd
    exact .inl ⟨hopen.fee, hopen.live.processing hprocess⟩
  | shown fee hfee htop =>
    right
    unfold Device.Closed
    rw [hfee]
    exact htop

/-- In every run the parser is open or closed. -/
theorem open_or_closed_of_run {platform : Platform} {steps : List (Step Command Answer Device)}
    {d : Device} (h : Run platform.device steps d) : d.Open platform ∨ d.Closed :=
  h.invariant (.inr rfl) fun _ _ _ _ hd hstep => (parserStep hstep).open_or_closed hd

/-- After an error or a review of a transaction the parser is closed, until a session begins. -/
theorem closed_of_run {platform : Platform} {steps : List (Step Command Answer Device)}
    {d : Device} (h : Run platform.device steps d)
    (hcloses : ∃ step ∈ since (fun step => step.event.beginsSign) steps,
      step.answer.closes = true) : d.Closed := by
  revert hcloses
  refine h.since_induction (P := fun steps d =>
    (∃ step ∈ steps, step.answer.closes = true) → d.Closed) ?_ ?_ ?_
  · rintro ⟨step, hmem, -⟩
    cases hmem
  · rintro steps d c a d' - hstep hbegins ⟨step, hmem, hcloses⟩
    obtain rfl := List.mem_singleton.mp hmem
    exact (parserStep hstep).closed_of_closes hcloses
  · rintro steps d c a d' - hstep hbegins ih ⟨step, hmem, hcloses⟩
    rcases List.mem_cons.mp hmem with rfl | hmem
    · exact (parserStep hstep).closed_of_closes hcloses
    · exact (parserStep hstep).closed hbegins (ih ⟨step, hmem, hcloses⟩)

/-- A closed parser is not called. -/
theorem handleSign_closed (platform : Platform) (settings : Settings) {G : ApduBuffer} {d : Device}
    (hp1 : G.p1 = P1_MORE) (hd : d.Closed) :
    handleSign platform settings G d = .throw []
      (if G.p2 = 0 then HW_SW_TRANSACTION_CANCELLED else HW_INCORRECT_P1_P2) d := by
  have hinit : signInitialized G d = some (.throw []
      (if G.p2 = 0 then HW_SW_TRANSACTION_CANCELLED else HW_INCORRECT_P1_P2) d) := by
    unfold signInitialized
    by_cases hp2 : G.p2 = 0
    · rw [if_neg (not_not.mpr hp2), if_pos hp2]
      unfold Device.Closed at hd
      cases hfee : d.feeComputationContext with
      | some fee =>
        rw [hfee] at hd
        exact if_pos hd
      | none =>
        rw [hfee] at hd
        exact if_pos hd
    · rw [if_pos hp2, if_neg hp2]
  unfold handleSign signAccept signParse
  rw [signBegin_more hp1]
  simp only [hinit]

/-- The answer to more of a transaction when the parser is closed. -/
theorem step_closed {platform : Platform} {c : Command} {d : Device} (hcla : c.G.cla = CLA)
    (hins : c.G.ins = INS_SIGN) (hp1 : c.G.p1 = P1_MORE) (hd : d.Closed) :
    platform.device.step c d = some (.status []
      (if c.G.p2 = 0 then HW_SW_TRANSACTION_CANCELLED else HW_INCORRECT_P1_P2), d.wipe) := by
  show handleApdu platform c.settings c.G d = _
  rw [handleApdu_eq, dispatch_sign platform c.settings hcla hins,
    handleSign_closed platform c.settings hp1 hd]
  split <;> rfl

/-- **The parser is never resumed**: in every run it is called on contexts that wait for more,
and after an error or a review of a transaction `P1_MORE` is refused until a session begins. -/
theorem parser_never_resumed {platform : Platform} {steps : List (Step Command Answer Device)}
    {d : Device} (h : Run platform.device steps d) (c : Command) (hcla : c.G.cla = CLA)
    (hins : c.G.ins = INS_SIGN) :
    (∀ w, CallsParser c.G d w → Live (platform.scratch w.device.session) w.device.tx) ∧
      ((∃ step ∈ since (fun step => step.event.beginsSign) steps, step.answer.closes = true) →
        c.G.p1 = P1_MORE →
        platform.device.step c d = some (.status []
          (if c.G.p2 = 0 then HW_SW_TRANSACTION_CANCELLED else HW_INCORRECT_P1_P2), d.wipe)) := by
  constructor
  · intro w hcall
    exact (hcall.open (open_or_closed_of_run h)).live
  · intro hcloses hp1
    exact step_closed hcla hins hp1 (closed_of_run h hcloses)

/-- A platform with recorded hashes; its other functions are not called. -/
def Platform.recorded (digests : List (List UInt8 × Vector UInt8 32)) : Platform where
  blake2b256 bytes := (digests.lookup bytes).getD (Vector.replicate 32 0)
  keccak256 _ := Vector.replicate 32 0
  osDeriveBip32 _ := .done (Vector.replicate 64 0, Vector.replicate 32 0)
  ecfpInitPrivateKey _ := .done ⟨0, 32, Vector.replicate 32 0⟩
  ecfpGeneratePair _ := .done (Vector.replicate 65 0)
  overlay _ tmpCtx := tmpCtx
  underlay _ context := context
  scratch _ := .valid
  ioExchange := ⟨fun awaiting _ => !awaiting, fun _ => rfl, fun _ => rfl⟩

/-- A command that was received into a buffer of zeros, with all settings on. -/
def Command.received (bytes : List UInt8) : Command := ⟨⟨true, true⟩, .ofBytes bytes⟩

/-- A command of `INS_SIGN` with some data. -/
def signing (p1 : UInt8) (data : List UInt8) (settings : Settings) : Command :=
  ⟨settings, .ofBytes ([0xe0, 0x04, p1, 0x00, UInt8.ofNat data.length] ++ data)⟩

/-- A path of one word, as it stands in front of the data of `P1_FIRST`. -/
def onePath : List UInt8 := [0x01, 0x80, 0x00, 0x00, 0x00]

/-- A transaction that is not a list, one without clauses, and a byte more. -/
def brokenTransaction : Command := signing P1_FIRST (onePath ++ [0x80]) ⟨true, true⟩
def emptyTransaction : Command :=
  signing P1_FIRST (onePath ++ [0xc0, 0x80, 0x80, 0x80, 0xc0, 0x80, 0x80, 0x80, 0x80, 0xc0])
    ⟨true, true⟩
def oneMore : Command := signing P1_MORE [0xc0] ⟨true, true⟩

set_option maxRecDepth 4000 in
/-- The first one fails, and the second one is shown. -/
theorem run_brokenThenShown : ∃ d d',
    Run (Platform.recorded []).device
        [⟨.boot, brokenTransaction, .status [] HW_INCORRECT_DATA, d⟩] d ∧
      Run (Platform.recorded []).device
        [⟨d, emptyTransaction, .review (.transaction false false), d'⟩,
          ⟨.boot, brokenTransaction, .status [] HW_INCORRECT_DATA, d⟩] d' := by
  have hsteps : (((Platform.recorded []).device.step brokenTransaction .boot).bind fun next =>
      ((Platform.recorded []).device.step emptyTransaction next.2).map fun next' =>
        (next.1, next'.1)) =
      some (.status [] HW_INCORRECT_DATA, .review (.transaction false false)) := by
    decide +kernel
  obtain ⟨⟨broken, d⟩, hbroken, hnext⟩ := Option.bind_eq_some_iff.mp hsteps
  obtain ⟨⟨shown, d'⟩, hshown, heq⟩ := Option.map_eq_some_iff.mp hnext
  obtain ⟨rfl, rfl⟩ := Prod.mk.injEq .. ▸ heq
  exact ⟨d, d', .step .boot hbroken, .step (.step .boot hbroken) hshown⟩

theorem parser_never_resumed_refused : ∃ d d',
    Run (Platform.recorded []).device
        [⟨d, emptyTransaction, .review (.transaction false false), d'⟩,
          ⟨.boot, brokenTransaction, .status [] HW_INCORRECT_DATA, d⟩] d' ∧
      (∀ w, CallsParser emptyTransaction.G d w → Live .valid w.device.tx) ∧
      (Platform.recorded []).device.step oneMore d =
        some (.status [] HW_SW_TRANSACTION_CANCELLED, d.wipe) ∧
      (Platform.recorded []).device.step oneMore d' =
        some (.status [] HW_SW_TRANSACTION_CANCELLED, d'.wipe) := by
  obtain ⟨d, d', hbroken, hshown⟩ := run_brokenThenShown
  have hsince (steps : List (Step Command Answer Device)) {e e' : Device} {a : Answer}
      (c : Command) (hbegins : c.beginsSign = true) (ha : a.closes = true) :
      ∃ step ∈ since (fun step => step.event.beginsSign) (⟨e, c, a, e'⟩ :: steps),
        step.answer.closes = true := by
    have hbegun := since_cons_of_pos (p := fun step : Step Command Answer Device =>
      step.event.beginsSign) (x := ⟨e, c, a, e'⟩) hbegins steps
    exact ⟨⟨e, c, a, e'⟩, hbegun ▸ List.mem_singleton_self _, ha⟩
  obtain ⟨hlive, -⟩ := parser_never_resumed hbroken emptyTransaction rfl rfl
  obtain ⟨-, hmore⟩ := parser_never_resumed hbroken oneMore rfl rfl
  obtain ⟨-, hmore'⟩ := parser_never_resumed hshown oneMore rfl rfl
  exact ⟨d, d', hshown, hlive, hmore (hsince [] _ rfl rfl) rfl, hmore' (hsince _ _ rfl rfl) rfl⟩

/-- A run in which a command of another class was refused. -/
theorem run_refused : Run (Platform.recorded []).device
    [⟨.boot, .received [0x00, 0x00, 0x00, 0x00, 0x00], .status [] HW_CLA_NOT_SUPPORTED,
      Device.boot.wipe⟩] Device.boot.wipe :=
  .step .boot rfl

/-- With another `P2` than zero the answer is not the one for a closed parser. -/
theorem parser_not_cancelled :
    ¬∀ (platform : Platform) (steps : List (Step Command Answer Device)) (d : Device),
      Run platform.device steps d → ∀ c : Command, c.G.cla = CLA → c.G.ins = INS_SIGN →
      (∃ step ∈ since (fun step => step.event.beginsSign) steps, step.answer.closes = true) →
      c.G.p1 = P1_MORE → ∃ d', platform.device.step c d =
        some (.status [] HW_SW_TRANSACTION_CANCELLED, d') := by
  intro h
  obtain ⟨d', hd'⟩ := h _ _ _ run_refused (.received [0xe0, 0x04, 0x80, 0x01, 0x00]) rfl rfl
    ⟨_, List.mem_singleton_self _, rfl⟩ rfl
  have hp2 : (Platform.recorded []).device.step (.received [0xe0, 0x04, 0x80, 0x01, 0x00])
      Device.boot.wipe = some (.status [] HW_INCORRECT_P1_P2, Device.boot.wipe.wipe) := rfl
  rw [hp2] at hd'
  cases hd'

end AppVechain
