import AppVechain.Application.Signatures
import AppVechain.Device.Record

/-!
# Where signatures come from

A signature for a transaction is one that the user has given to what is in its
record, if no other command wrote to the hash and the hash does not collide. It
has a transaction of its own: no more of them are signed as transactions than were
begun. What is shown for a message or a certificate is not counted.
-/

namespace AppVechain

open Rlp Reactive Numeral

variable {platform : Platform} {sign : Signer} {storage : InternalStorage}

/-- The data flag that was found for the encoding of a record is its own, where storage lasts. -/
theorem Shows.found {steps : List (Step Event Sent App)} {a : App} {first : Step Event Sent App}
    {flow : Flow} (hshows : Shows platform flow first) (h : Run (platform.app sign storage) steps a)
    (hfirst : steps.find? takesCommand = some first)
    (hflow : (Answer.review flow).showsTransaction = true) {tx : TxRecord} (htx : tx.Encodable)
    (hbytes : consumedSince (deviceSteps platform sign steps) = tx.encode)
    (hlasting : ∀ k, (platform.scratch k).Lasting) :
    first.after.device.clausesContent.dataPresent = tx.hasData := by
  obtain ⟨rx, earlier, others, hrun, hstep, hsteps, hothers⟩ := hshows.device h hfirst
  rw [hsteps, consumedSince_others hothers] at hbytes
  obtain ⟨fresh, hfresh, hfound⟩ := found_of_run hrun hstep hflow
  have hfresh : processTx (platform.scratch first.after.device.session) (initTx .zero)
      (consumedSince (shownStep first flow rx :: earlier)) = .returned .finished fresh := hfresh
  rw [hbytes] at hfresh
  obtain ⟨t, unread, hrun, hview, -⟩ := halted_of_finished hfresh
  obtain ⟨t', hrun', hover⟩ :=
    txRules_run_encode_over (hlasting first.after.device.session) .zero .zero htx
  rw [hrun'] at hrun
  cases hrun
  rw [hfound, hview, hover.dataPresent]
  rfl

/-- **Who has a signature has had the user read its transaction**, in every run: when what is signed
is the hash of the encoding of a record, and no command wrote to the hash for a message or
certificate since its `P1_FIRST`, the user has confirmed the review of this record with all its
texts, the warnings included, and the settings allowed it; or else the bytes that were consumed
collide with the encoding. The first clause of the record decides about the data flag, unless the
storage of all clauses lasts. -/
theorem signed_record_reviewed {step : Step Event Sent App} {steps : List (Step Event Sent App)}
    {a : App}
    (h : Run (platform.app sign storage) (step :: steps) a) {reply : List UInt8}
    (hsent : step.answer = some reply) (hlength : reply.length = 67)
    {first : Step Event Sent App} {flow : Flow} (hfirst : steps.find? takesCommand = some first)
    (hshows : Shows platform flow first) (hflow : (Answer.review flow).showsTransaction = true)
    (hwrites : ∀ inner ∈ since (fun inner => inner.event.beginsSign)
      (deviceSteps platform sign steps), ¬inner.event.WritesHash inner.before)
    {tx : TxRecord} (htx : tx.Encodable)
    (hflag : tx.Settled ∨ ∀ k, (platform.scratch k).Lasting)
    (hsigned : first.after.device.tmpCtx.hash = platform.blake2b256 tx.encode) :
    (∃ path signature, sign path (platform.blake2b256 tx.encode) = .ok signature ∧
      reply = signature.bytes ++ statusBytes HW_OK ∧ step.event = .choice true ∧
      flow = (tx.review platform path).flow ∧
      step.before.screen.pairs step.before.device = (tx.review platform path).pairs ∧
      (∀ text ∈ flow.warning?, ∃ warned ∈ steps, Understood text warned) ∧
      tx.refused first.before.storage.settings = false) ∨
    (consumedSince (deviceSteps platform sign steps) ≠ tx.encode ∧
      platform.blake2b256 (consumedSince (deviceSteps platform sign steps)) =
        platform.blake2b256 tx.encode) := by
  obtain ⟨hbefore, -, -⟩ := h.after_head
  obtain ⟨hreply, first', flow', hfirst', hshows', hdeciding⟩ := decided_of_run h hsent hlength
  rw [hfirst, Option.some.injEq] at hfirst'
  subst hfirst'
  obtain rfl := hshows.flow_eq hshows'
  have happroved := hdeciding.approved hshows hreply
  obtain ⟨hreview, hhash⟩ := hshows.review hbefore hfirst hflow hwrites
  by_cases hbytes : consumedSince (deviceSteps platform sign steps) = tx.encode
  case neg => exact .inr ⟨hbytes, hhash.symm.trans hsigned⟩
  have hfound : tx.Settled ∨ first.after.device.clausesContent.dataPresent = tx.hasData :=
    hflag.imp_right fun hlasting => hshows.found hbefore hfirst hflow htx hbytes hlasting
  have hreview := hreview _ (.inr rfl)
  rw [hbytes] at hreview
  obtain ⟨hrecord, hallowed, -⟩ := (transactionReview_encode htx
    first.after.device.tmpCtx.length_path_le hfound).mp hreview
  obtain ⟨signature, hsignature, hbytes⟩ := happroved.signature
  rw [hsigned] at hsignature
  obtain ⟨-, hevent, -⟩ := hreply
  refine .inl ⟨_, signature, hsignature, hbytes, hevent, ?_, ?_, ?_, hallowed⟩
  · rw [← hrecord]
    rfl
  · rw [← hrecord, happroved.pairs, pairs_lastScreen]
  · intro text htext
    obtain ⟨warned, hmem, hwarned⟩ := happroved.warned text htext
    exact ⟨warned, since_subset _ _ hmem, hwarned⟩

/-- The sample without the data of its clause. -/
def plainTx : TxRecord :=
  { sampleTx with
    clauses := sampleTx.clauses.map fun c => { c with data := [] }
    clauses_length := by decide }

/-- The hash of its encoding. -/
def plainDigest : Vector UInt8 32 :=
  #v[0x79, 0xee, 0xb2, 0x5c, 0x95, 0xe4, 0x36, 0xf1, 0xc2, 0xa0, 0x83, 0xf7, 0xf8, 0xc4, 0x20,
    0x9d, 0x09, 0x25, 0x76, 0xbe, 0xd6, 0x08, 0x6a, 0x50, 0x56, 0x24, 0x72, 0x9d, 0x53, 0x71,
    0xbc, 0x6c]

/-- The platform with this hash. -/
def plainPlatform : Platform := .recorded [(plainTx.encode, plainDigest)]

/-- Nothing else has it. -/
theorem plainDigest_only {bytes : List UInt8}
    (h : plainPlatform.blake2b256 bytes = plainPlatform.blake2b256 plainTx.encode) :
    bytes = plainTx.encode := by
  by_contra hne
  have hmiss : plainPlatform.blake2b256 bytes = Vector.replicate 32 0 := by
    have hlookup : [(plainTx.encode, plainDigest)].lookup bytes = none := by
      rw [List.lookup_cons, beq_eq_false_iff_ne.mpr hne]
      rfl
    show ([(plainTx.encode, plainDigest)].lookup bytes).getD _ = _
    rw [hlookup]
    rfl
  rw [hmiss] at h
  exact absurd h (by decide +kernel)

/-- The command that brings it. -/
def plainReceived : Received :=
  ⟨[0xe0, 0x04, 0x00, 0x00, 0x30] ++ onePath ++ plainTx.encode, by decide +kernel⟩

/-- It is shown without a warning. -/
theorem plainReceived_shown : ∃ d', plainPlatform.device.step
    ⟨(App.boot ⟨0, 0, 0⟩).storage.settings, (App.boot ⟨0, 0, 0⟩).arrived plainReceived⟩
      (App.boot ⟨0, 0, 0⟩).device = some (.review (.transaction false false), d') ∧
    d'.tmpCtx.pathLength = 1 ∧ d'.tmpCtx.hash = plainPlatform.blake2b256 plainTx.encode := by
  let c : Command := ⟨(App.boot ⟨0, 0, 0⟩).storage.settings,
    (App.boot ⟨0, 0, 0⟩).arrived plainReceived⟩
  have hseen : (signAccept plainPlatform c.settings c.G .boot).getRight?.map (fun shown =>
      (shown.tickerText, shown.device.clauseContent.value.number, shown.device.dataPresent,
        shown.device.multipleClauses,
        decide (shown.device.tmpCtx.pathLength = 1 ∧ shown.device.tmpCtx.hash = plainDigest))) =
      some ([86, 69, 84, 32], 0xfe, false, false, true) := by
    decide +kernel
  have hsign : c.isSign := by decide +kernel
  obtain ⟨shown, haccept, hshown⟩ := exists_shown hseen
  simp only [Prod.mk.injEq] at hshown
  obtain ⟨hticker, hnumber, hdata, hmultiple, hsigns⟩ := hshown
  obtain ⟨hlength, hhash⟩ := of_decide_eq_true hsigns
  have hfits : FractionFits 10 18 shown.amountRoom shown.device.clauseContent.value.number := by
    rw [hnumber, Shown.amountRoom, hticker]
    exact .inr ⟨18, by decide, by decide, by decide, one_dvd _, by norm_num⟩
  obtain ⟨fee, fullAddress, fullAmount, maxFee, hstep⟩ := step_of_accept .boot hsign haccept hfits
  rw [hdata, hmultiple] at hstep
  exact ⟨_, hstep, hlength, hhash.trans (by decide +kernel)⟩

set_option maxRecDepth 4000 in
theorem signed_record_reviewed_plainTx : ∃ step steps a reply path signature,
    Run (plainPlatform.app fixedSigner ⟨0, 0, 0⟩) (step :: steps) a ∧
      fixedSigner path (plainPlatform.blake2b256 plainTx.encode) = .ok signature ∧
      reply = signature.bytes ++ statusBytes HW_OK ∧ step.answer = some reply ∧
      step.before.screen.pairs step.before.device = (plainTx.review plainPlatform path).pairs := by
  obtain ⟨d', hstep, hpath, hhash⟩ := plainReceived_shown
  obtain ⟨step, steps, a, reply, first, hrun, hsent, hlength, hfirst, hshows, hafter, hwrites⟩ :=
    exists_signed (List.cons_ne_nil _ _) (by decide +kernel) hstep hpath
  have hencodable : plainTx.Encodable := by
    unfold TxRecord.Encodable
    decide
  rcases signed_record_reviewed hrun hsent hlength hfirst hshows rfl hwrites hencodable
    (.inl (.inl (by decide))) (by rw [hafter, hhash]) with
    ⟨path, signature, hsigned, hreply, -, -, hpairs, -⟩ | ⟨hne, hcollide⟩
  · exact ⟨step, steps, a, reply, path, signature, hrun, hsigned, hreply, hsent, hpairs⟩
  · exact (hne (plainDigest_only hcollide)).elim

/-- A transaction that is shown was begun by its command, or the parser was not closed. -/
theorem begins_of_shows {c : Command} {d d' : Device} {answer : Answer}
    (h : platform.device.step c d = some (answer, d')) (hshows : answer.showsTransaction = true)
    (hd : d.Closed) : c.beginsSign = true := by
  obtain ⟨hcla, hins⟩ := isSign_of_shows h hshows
  by_contra hbegins
  have hp1 : c.G.p1 ≠ P1_FIRST := fun hp1 => hbegins (by simp [Command.beginsSign, *])
  obtain ⟨d₁, hanswer, -⟩ := handleApdu_some h
  rw [dispatch_sign platform c.settings hcla hins] at hanswer
  have hmore : c.G.p1 = P1_MORE := by
    have hends := handleSign_ends platform c.settings c.G d
    generalize handleSign platform c.settings c.G d = ending at hanswer hends
    cases hends with
    | error =>
      cases hanswer
      cases hshows
    | stuck => cases hanswer
    | processing hcall => exact (signBegin_p1 hcall.begun).resolve_left hp1
    | review haccept =>
      obtain ⟨w, -, hcall, -⟩ := signAccept_inr haccept
      exact (signBegin_p1 hcall.begun).resolve_left hp1
  rw [handleSign_closed platform c.settings hmore hd] at hanswer
  cases hanswer
  cases hshows

/-- A transaction is being decided. -/
def Screen.decidesTransaction : Screen → Bool
  | .warning _ | .transaction => true
  | .menu | .address | .message | .certificate | .rejectCertificate => false

/-- A signature is sent for a transaction. -/
def signsTransaction (step : Step Event Sent App) : Bool :=
  step.before.screen = .transaction && step.answer.any fun reply => reply.length = 67

/-- A command is delivered that begins a transaction. -/
def beginsTransaction (step : Step Event Sent App) : Bool :=
  match step.event with
  | .receive rx => !step.before.awaiting && !rx.bytes.isEmpty &&
    (⟨step.before.storage.settings, step.before.arrived rx⟩ : Command).beginsSign
  | .choice _ | .touchSwitch _ | .ioReset => false

/-- A transaction may still be signed: it is being decided, or its parser goes on. -/
def App.HoldsTransaction (a : App) : Prop :=
  a.screen.decidesTransaction = true ∨ ¬a.device.Closed

/-- A screen that decides about a transaction is one of its flow. -/
theorem showsTransaction_of_screen {flow : Flow} (h : flow.screen.decidesTransaction = true) :
    (Answer.review flow).showsTransaction = true := by
  cases flow with
  | publicKey => cases h
  | transaction => rfl
  | message => cases h
  | certificate => cases h

/-- An error in signing leaves the screen or shows the menu, and the parser is left or closed. -/
theorem thrown_cases (a : App) (e : UInt16) :
    ((a.thrown e).screen = a.screen ∨ (a.thrown e).screen = .menu) ∧
      ((a.thrown e).device = a.device ∨ (a.thrown e).device.Closed) := by
  unfold App.thrown
  split_ifs
  · exact ⟨.inr rfl, .inl rfl⟩
  · exact ⟨.inl rfl, .inr (wipe_closed _)⟩
  · exact ⟨.inl rfl, .inl rfl⟩

/-- While a transaction is decided its parser is closed, in every run. -/
theorem closed_of_decides {steps : List (Step Event Sent App)} {a : App}
    (h : Run (platform.app sign storage) steps a) (hscreen : a.screen.decidesTransaction = true) :
    a.device.Closed := by
  revert hscreen
  refine h.invariant (P := fun a => a.screen.decidesTransaction = true → a.device.Closed) ?_ ?_
  · exact fun hscreen => by cases hscreen
  intro a e sent b ha happ hscreen
  cases appStep happ with
  | dropped => exact ha hscreen
  | taken _ h =>
    cases h with
    | nothing => cases hscreen
    | status => cases hscreen
    | review _ hstep =>
      refine (parserStep hstep).closed_of_closes ?_
      rw [Answer.closes, showsTransaction_of_screen hscreen, Bool.or_true]
  | chosen h =>
    cases h with
    | nothing => exact ha hscreen
    | understood hwarning => exact ha (by rw [hwarning]; rfl)
    | reject => cases hscreen
    | back => cases hscreen
    | cancelled => cases hscreen
    | address => cases hscreen
    | signed => cases hscreen
    | failed =>
      obtain ⟨hscreen' | hmenu, hdevice⟩ := thrown_cases a _
      · rw [hscreen'] at hscreen
        rcases hdevice with hdevice | hclosed
        · rw [hdevice]
          exact ha hscreen
        · exact hclosed
      · rw [hmenu] at hscreen
        cases hscreen
  | switched => exact ha hscreen
  | noSwitch => exact ha hscreen
  | ioReset => cases hscreen

/-- A command opens the parser, or shows a transaction, if it begins one or the parser is open. -/
theorem open_of_taken {a b : App} {rx : Received} {d : Device} {answer : Answer} {sent : Sent}
    (hawaiting : a.awaiting = false) (hne : rx.bytes ≠ [])
    (hstep : platform.device.step ⟨a.storage.settings, a.arrived rx⟩ a.device = some (answer, d))
    (h : answer.showsTransaction = true ∨ ¬d.Closed) :
    beginsTransaction ⟨a, .receive rx, sent, b⟩ = true ∨ a.HoldsTransaction := by
  by_cases hbegins : (⟨a.storage.settings, a.arrived rx⟩ : Command).beginsSign = true
  · exact .inl (by simp [beginsTransaction, hawaiting, hne, hbegins])
  · refine .inr (.inr fun hclosed => ?_)
    rcases h with hshows | hopen
    · exact hbegins (begins_of_shows hstep hshows hclosed)
    · exact hopen ((parserStep hstep).closed (Bool.eq_false_iff.mpr hbegins) hclosed)

/-- What may be signed could be signed before, or its command has come. -/
theorem AppStep.holdsTransaction {a b : App} {e : Event} {sent : Sent}
    (h : AppStep platform sign a e sent b) (hb : b.HoldsTransaction) :
    beginsTransaction ⟨a, e, sent, b⟩ = true ∨ a.HoldsTransaction := by
  cases h with
  | dropped => exact .inr hb
  | taken hawaiting h =>
    cases h with
    | nothing => exact absurd hb (by simp [App.HoldsTransaction, App.replied,
        Screen.decidesTransaction, wipe_closed])
    | status hne hstep =>
      exact open_of_taken hawaiting hne hstep (.inr (hb.resolve_left fun h => by cases h))
    | review hne hstep =>
      exact open_of_taken hawaiting hne hstep (hb.imp_left showsTransaction_of_screen)
  | chosen h =>
    refine .inr ?_
    cases h with
    | nothing => exact hb
    | understood hscreen => exact .inl (by rw [hscreen]; rfl)
    | reject => exact .inr (hb.resolve_left fun h => by cases h)
    | back => exact .inr (hb.resolve_left fun h => by cases h)
    | cancelled => exact .inr (hb.resolve_left fun h => by cases h)
    | address => exact .inr (hb.resolve_left fun h => by cases h)
    | signed => exact .inr (hb.resolve_left fun h => by cases h)
    | @failed e =>
      obtain ⟨hscreen, hdevice⟩ := thrown_cases a e
      rcases hb with hdecides | hopen
      · rcases hscreen with hscreen | hmenu
        · exact .inl (by rw [← hscreen, hdecides])
        · rw [hmenu] at hdecides
          cases hdecides
      · exact .inr (by rw [← hdevice.resolve_right hopen]; exact hopen)
  | switched => exact .inr hb
  | noSwitch => exact .inr hb
  | ioReset => exact .inr (.inr (hb.resolve_left fun h => by cases h))

/-- A transaction that was signed was being decided, and nothing of it is left. -/
theorem signs_holdsTransaction {steps : List (Step Event Sent App)} {a b : App} {e : Event}
    {sent : Sent} (h : Run (platform.app sign storage) steps a)
    (happ : (platform.app sign storage).step e a = some (sent, b))
    (hsigns : signsTransaction ⟨a, e, sent, b⟩ = true) :
    a.HoldsTransaction ∧ ¬b.HoldsTransaction := by
  rw [signsTransaction, Bool.and_eq_true, decide_eq_true_eq] at hsigns
  obtain ⟨hscreen, hsent⟩ := hsigns
  have hscreen : a.screen = .transaction := hscreen
  have hdecides : a.screen.decidesTransaction = true := by
    rw [hscreen]
    rfl
  have hclosed := closed_of_decides h hdecides
  have hreplied (reply : List UInt8) : ¬(a.replied reply).HoldsTransaction :=
    fun hholds => hholds.elim (fun h => by cases h) fun hopen => hopen hclosed
  refine ⟨.inl hdecides, ?_⟩
  cases appStep happ with
  | dropped => cases hsent
  | taken hawaiting =>
    have htrue := (consistent_of_run h).awaiting.mpr (by rw [hscreen]; exact Screen.noConfusion)
    rw [hawaiting] at htrue
    cases htrue
  | chosen h =>
    cases h with
    | nothing => cases hsent
    | understood => cases hsent
    | reject => cases hsent
    | back => cases hsent
    | cancelled => exact hreplied _
    | address => exact hreplied _
    | signed => exact hreplied _
    | failed => cases hsent
  | switched => cases hsent
  | noSwitch => cases hsent
  | ioReset => cases hsent

/-- **Every signature has its own transaction**, in every run: after the start, and after every
signature for a transaction, no more signatures for transactions are sent than commands that
begin one are delivered. -/
theorem signatures_le_begun {new old : List (Step Event Sent App)} {a : App}
    (h : Run (platform.app sign storage) (new ++ old) a)
    (hold : ∀ signed ∈ old.head?, signsTransaction signed = true) :
    new.countP signsTransaction ≤ new.countP beginsTransaction := by
  have hnone : ∀ b, Run (platform.app sign storage) old b → ¬b.HoldsTransaction := by
    intro b hrun
    cases hrun with
    | boot => exact fun hholds => hholds.elim (fun h => by cases h) fun hopen => hopen rfl
    | step hrun happ => exact (signs_holdsTransaction hrun happ (hold _ rfl)).2
  refine Run.countP_le ?_ ?_ hnone h
  · intro steps a e sent b hrun happ hsigns
    obtain ⟨ha, hb⟩ := signs_holdsTransaction hrun happ hsigns
    exact ⟨.inr ha, hb⟩
  · exact fun _ _ _ _ _ _ happ => (appStep happ).holdsTransaction

theorem signatures_le_begun_plainTx : ∃ step steps a,
    Run (plainPlatform.app fixedSigner ⟨0, 0, 0⟩) (step :: steps) a ∧
      step.answer.isSome = true ∧
      (step :: steps).countP signsTransaction ≤ (step :: steps).countP beginsTransaction := by
  obtain ⟨d', hstep, hpath, -⟩ := plainReceived_shown
  obtain ⟨step, steps, a, reply, -, hrun, hsent, -⟩ :=
    exists_signed (List.cons_ne_nil _ _) (by decide +kernel) hstep hpath
  have hwhole : Run (plainPlatform.app fixedSigner ⟨0, 0, 0⟩) ((step :: steps) ++ []) a := by
    rw [List.append_nil]
    exact hrun
  refine ⟨step, steps, a, hrun, by rw [hsent]; rfl, ?_⟩
  exact signatures_le_begun hwhole fun _ h => by cases h

end AppVechain
