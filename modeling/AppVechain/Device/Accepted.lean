import AppVechain.Device.DataWarning
import AppVechain.Device.Session

/-!
# Accepted transactions

In every run the parser is closed, or in the session of the bytes that it
consumed since the last `P1_FIRST` of `INS_SIGN`. When a transaction is accepted,
these bytes are a complete transaction with the same content.
-/

namespace AppVechain

open Rlp Streaming Reactive

/-- The command is for `INS_SIGN`. -/
def Command.isSign (c : Command) : Prop := c.G.cla = CLA ∧ c.G.ins = INS_SIGN

instance (c : Command) : Decidable c.isSign := by
  unfold Command.isSign
  infer_instance

/-- The bytes that the parser consumed in a step. -/
def consumedBy (step : Step Command Answer Device) : List UInt8 :=
  if step.event.isSign then step.after.tx.consumed step.event.G.payload else []

/-- The bytes that the parser consumed since the last `P1_FIRST` of `INS_SIGN`. -/
def consumedSince (steps : List (Step Command Answer Device)) : List UInt8 :=
  (since (fun step => step.event.beginsSign) steps).reverse.flatMap consumedBy

/-- The ways in which a command of `INS_SIGN` leaves the device. -/
inductive SignStep (platform : Platform) (c : Command) (d : Device) : Answer → Device → Prop where
  | error {a : Answer} (d₁ : Device) (herror : a.isError = true) :
      SignStep platform c d a d₁.wipe
  | processing {w : Work} {tx : TxState} (hcall : CallsParser c.G d w)
      (hprocess : processTx (platform.scratch w.device.session) w.device.tx
        (c.G.bytes w.workBuffer w.dataLength.toNat) = .returned .processing tx) :
      SignStep platform c d (.status [] HW_OK) { w.device with tx := tx }
  | review {shown : Shown} {strings : TxStrings} {fullAddress : CharArray 43}
      {fullAmount : CharArray 50} {maxFee : CharArray 60}
      (haccept : signAccept platform c.settings c.G d = .inr shown)
      (hstrings : shown.strings platform = some strings)
      (haddress : CharArray.write? 43 strings.fullAddress = some fullAddress)
      (hamount : CharArray.write? 50 strings.fullAmount = some fullAmount)
      (hfee : CharArray.write? 60 strings.maxFee = some maxFee) :
      SignStep platform c d
        (.review (.transaction shown.device.dataPresent shown.device.multipleClauses))
        (shown.display strings.feeComputationContext fullAddress fullAmount maxFee)

variable {platform : Platform} {H : List UInt8 → List UInt8 → Prop}

/-- Every answered command of `INS_SIGN` is one of these steps. -/
theorem signStep {c : Command} (hsign : c.isSign) {d d' : Device} {a : Answer}
    (h : platform.device.step c d = some (a, d')) : SignStep platform c d a d' := by
  obtain ⟨d₁, hanswer, rfl⟩ := handleApdu_some h
  rw [dispatch_sign platform c.settings hsign.1 hsign.2] at hanswer
  have hends := handleSign_ends platform c.settings c.G d
  generalize handleSign platform c.settings c.G d = ending at hanswer hends
  cases hends with
  | @error sw d₂ hsw =>
    cases hanswer
    have herror : (Answer.status [] sw).isError = true := decide_eq_true hsw
    rw [if_pos herror]
    exact .error d₁ herror
  | stuck => cases hanswer
  | processing hcall hprocess =>
    cases hanswer
    exact .processing hcall hprocess
  | review haccept hstrings haddress hamount hfee =>
    cases hanswer
    exact .review haccept hstrings haddress hamount hfee

/-- Another command leaves the device closed, or changes no more than the hash of the parser. -/
theorem otherStep {c : Command} (hsign : ¬c.isSign) {d d' : Device} {a : Answer}
    (h : platform.device.step c d = some (a, d')) : d'.Closed ∨ d.KeepsParser d' := by
  obtain ⟨d₁, hanswer, rfl⟩ := handleApdu_some h
  by_cases herror : a.isError = true
  · rw [if_pos herror]
    exact .inl (wipe_closed d₁)
  · rw [if_neg herror]
    exact .inr ((dispatch_other platform c.settings hsign d).2 a d₁ hanswer).1

/-- The parser is called on a session: on a new one, or on the one of the device. -/
theorem CallsParser.session {c : Command} {d : Device} {w : Work} (h : CallsParser c.G d w)
    (hnil : H [] []) {bytes : List UInt8}
    (hd : c.G.p1 ≠ P1_FIRST → d.Closed ∨ d.Session platform H bytes) :
    w.device.Session platform H (if c.G.p1 = P1_FIRST then [] else bytes) := by
  by_cases hp1 : c.G.p1 = P1_FIRST
  · rw [if_pos hp1]
    exact signBegin_session hnil hp1 h.begun
  · rw [if_neg hp1]
    have hmore := (signBegin_p1 h.begun).resolve_left hp1
    have hbegun := h.begun
    rw [signBegin_more hmore, Sum.inr.injEq] at hbegun
    subst hbegun
    refine (hd hp1).resolve_left fun hclosed => ?_
    obtain ⟨-, hfee, hfield⟩ := signInitialized_none h.initialized
    unfold Device.Closed at hclosed
    rw [hfee] at hclosed
    exact hfield hclosed

/-- A command of `INS_SIGN` keeps the session, with the bytes it consumed, or closes the parser. -/
theorem SignStep.session {c : Command} {d d' : Device} {a : Answer} (h : SignStep platform c d a d')
    (hsign : c.isSign) (hH : KeptByHashing H) (hnil : H [] []) {bytes : List UInt8}
    (hd : c.G.p1 ≠ P1_FIRST → d.Closed ∨ d.Session platform H bytes) :
    d'.Closed ∨ d'.Session platform H
      ((if c.G.p1 = P1_FIRST then [] else bytes) ++ consumedBy ⟨d, c, a, d'⟩) := by
  cases h with
  | error d₁ herror => exact .inl (wipe_closed d₁)
  | @processing w tx hcall hprocess =>
    have hsession := hcall.session hnil hd
    rw [signBegin_payload hcall.begun] at hprocess
    obtain ⟨content, hrun⟩ := hsession.returned hH hprocess
    right
    rw [consumedBy, if_pos hsign]
    generalize hout : (txRules (platform.scratch w.device.session)).machine.run
      (txStart .zero content) _ = out at hrun
    cases out with
    | running t =>
      obtain ⟨-, hsim, hconsumed⟩ := hrun
      rw [show TxState.consumed _ _ = _ from hconsumed]
      exact hsession.next hsim hout
    | halted t unread => exact absurd hrun.1 (by decide)
    | refused => exact ParserStatus.noConfusion hrun
  | review _ hstrings =>
    left
    exact strings_baseGasPrice hstrings

/-- Another command keeps the session as far as it keeps the hash. -/
theorem Device.KeepsParser.session {d d' : Device} (h : d.KeepsParser d') {bytes : List UInt8}
    (hkept : ∀ ys, H d.blake2b ys → H d'.blake2b ys) (hd : d.Session platform H bytes) :
    d'.Session platform H bytes := by
  obtain ⟨hfee, content, t, ⟨hfield, ⟨hclauses, hcontent, hhash⟩, hphase⟩, hrun⟩ := hd
  rw [h]
  exact ⟨hfee, content, t, ⟨hfield, ⟨hclauses, hcontent, hkept _ hhash⟩, hphase⟩, hrun⟩

/-- **In every run the parser is closed or in the session of the bytes that it consumed.** -/
theorem session_of_run (hH : KeptByHashing H) (hnil : H [] [])
    {steps : List (Step Command Answer Device)} {d : Device} (h : Run platform.device steps d)
    (hkept : ∀ step ∈ since (fun step => step.event.beginsSign) steps, ¬step.event.isSign →
      ∀ ys, H step.before.blake2b ys → H step.after.blake2b ys) :
    d.Closed ∨ d.Session platform H (consumedSince steps) := by
  revert hkept
  refine h.since_induction (P := fun steps d =>
    (∀ step ∈ steps, ¬step.event.isSign →
      ∀ ys, H step.before.blake2b ys → H step.after.blake2b ys) →
    d.Closed ∨ d.Session platform H (steps.reverse.flatMap consumedBy)) ?_ ?_ ?_
  · exact fun _ => .inl rfl
  · intro steps d c a d' _ hstep hbegins _
    simp only [Command.beginsSign, Bool.and_eq_true, decide_eq_true_eq] at hbegins
    obtain ⟨⟨hcla, hins⟩, hp1⟩ := hbegins
    have hstart : c.G.p1 ≠ P1_FIRST → d.Closed ∨ d.Session platform H [] :=
      fun hmore => absurd hp1 hmore
    have hnext := (signStep ⟨hcla, hins⟩ hstep).session ⟨hcla, hins⟩ hH hnil hstart
    rw [if_pos hp1, List.nil_append] at hnext
    rwa [List.reverse_singleton, List.flatMap_singleton]
  · intro steps d c a d' _ hstep hbegins ih hkept
    have hd := ih fun step hmem => hkept step (List.mem_cons_of_mem _ hmem)
    rw [List.reverse_cons, List.flatMap_append, List.flatMap_singleton]
    by_cases hsign : c.isSign
    · have hp1 : c.G.p1 ≠ P1_FIRST := by
        intro hp1
        simp [Command.beginsSign, hsign.1, hsign.2, hp1] at hbegins
      have hnext := (signStep hsign hstep).session hsign hH hnil fun _ => hd
      rwa [if_neg hp1] at hnext
    · rcases otherStep hsign hstep with hclosed | hkeeps
      · exact .inl hclosed
      · rw [consumedBy, if_neg hsign, List.append_nil]
        refine hd.imp (fun hd => hkeeps.closed hd) fun hd => hkeeps.session ?_ hd
        exact hkept _ List.mem_cons_self hsign

/-- What is looked up may replace the clause and clear the warning, and nothing else. -/
theorem recognizeToken_device (d : Device) : ∃ clause data,
    (recognizeToken d).device =
      { d.setClauses d.clausesContent clause with dataPresent := data } := by
  unfold recognizeToken
  cases if d.dataPresent then d.clauseContent.token? else none with
  | none => exact ⟨d.clauseContent, d.dataPresent, rfl⟩
  | some token => exact ⟨d.clauseContent.moveToken, false, rfl⟩

/-- What is known of a transaction that is accepted: the bytes that the parser consumed in its
session are a complete transaction, and reading them anew leads to the same content. -/
structure Accepted (platform : Platform) (H : List UInt8 → List UInt8 → Prop) (bytes : List UInt8)
    (shown : Shown) (parsed : Device) : Prop where
  shown : shown = recognizeToken (parsed.checked platform)
  bounded : parsed.tx.env.view.Bounded
  again : ∃ fresh, processTx (platform.scratch parsed.session) (initTx .zero) bytes =
    .returned .finished fresh ∧ SameContent parsed.tx.env.view fresh.env.view
  hash : H parsed.blake2b bytes

/-- A transaction that is completed in a session: what is held of it is bounded, the same is held
after reading its bytes anew, and the hash is that of these bytes. -/
theorem finished_of_session (hH : KeptByHashing H) {d : Device} {before : List UInt8}
    (h : d.Session platform H before) {payload : List UInt8} {tx : TxState}
    (hprocess : processTx (platform.scratch d.session) d.tx payload = .returned .finished tx) :
    tx.env.view.Bounded ∧
      (∃ fresh, processTx (platform.scratch d.session) (initTx .zero)
          (before ++ tx.consumed payload) = .returned .finished fresh ∧
        SameContent tx.env.view fresh.env.view) ∧
      H tx.env.blake2b (before ++ tx.consumed payload) := by
  obtain ⟨content, hrun⟩ := h.returned hH hprocess
  generalize hout : (txRules (platform.scratch d.session)).machine.run
    (txStart .zero content) (before ++ payload) = out at hrun
  cases out with
  | running t => exact absurd hrun.1 (by decide)
  | refused => exact ParserStatus.noConfusion hrun
  | halted t unread =>
    obtain ⟨-, hsim, hpayload⟩ := hrun
    -- the bytes in front of the unread ones, read again in a new session
    obtain ⟨all, t', hall, hagain, hsame⟩ := txRules_run_again hout TxEnv.zero.content
    have hbytes : all = before ++ tx.consumed payload := by
      rw [hpayload, ← List.append_assoc] at hall
      exact (List.append_cancel_right hall).symm
    obtain ⟨hclauses, hcontent, hhash⟩ := hsim.env
    obtain ⟨hlist, -, hfirst, -⟩ := hclauses.env
    have hview : tx.env.view = { t.env.view with blake2b := tx.env.blake2b } := by
      simp only [TxEnv.view, TxData.view, hcontent, hlist, hfirst]
    have hfresh := processTx_cases (platform.scratch d.session) keptByHashing_eq
      (initTx_sim (platform.scratch d.session) rfl .zero) all
    rw [show (txRules (platform.scratch d.session)).machine.run
      (txStart TxEnv.zero.clauses.env.firstClause TxEnv.zero.content) all = .halted t' [] from
      hagain] at hfresh
    obtain ⟨fresh, hfinished, hsim', -⟩ := hfresh
    obtain ⟨-, hread⟩ := txRules_run_blake2b (platform.scratch d.session)
      (t := txStart .zero content) trivial (before ++ payload)
    have htranscript : t.env.blake2b = all := by
      have hblake2b := (hread t unread hout).2
      rw [hall] at hblake2b
      exact List.append_cancel_right hblake2b
    rw [← hbytes]
    refine ⟨?_, ⟨fresh, hfinished, ?_⟩, ?_⟩
    · rw [hview]
      obtain ⟨hcoef, hgas, hvalue⟩ := txRules_run_bounded hout
      exact ⟨hcoef, hgas, hvalue⟩
    · rw [hview, txRel_view hsim'.env]
      exact { hsame with }
    · rw [← htranscript]
      exact hhash

/-- **A transaction that is accepted in a session.** -/
theorem accepted (hH : KeptByHashing H) (hnil : H [] []) {c : Command} {d : Device} {shown : Shown}
    (h : signAccept platform c.settings c.G d = .inr shown) {bytes : List UInt8}
    (hd : c.G.p1 ≠ P1_FIRST → d.Closed ∨ d.Session platform H bytes) :
    ∃ parsed, signParse platform c.G d = .inr parsed ∧
      Accepted platform H ((if c.G.p1 = P1_FIRST then [] else bytes) ++
        parsed.tx.consumed c.G.payload) shown parsed := by
  obtain ⟨w, tx, hcall, hprocess, hparse, hshown⟩ := signAccept_inr h
  rw [signBegin_payload hcall.begun] at hprocess
  obtain ⟨hbounded, hagain, hhash⟩ := finished_of_session hH (hcall.session hnil hd) hprocess
  exact ⟨_, hparse, hshown, hbounded, hagain, hhash⟩

end AppVechain
