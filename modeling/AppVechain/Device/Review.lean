import AppVechain.Device.KeyBinding
import AppVechain.Device.SignedBytes
import AppVechain.Ustream.Storage

/-!
# The review of a transaction

What is shown for a transaction, and what would be signed for it, is a function of
its bytes and of the settings, and of the data flag where the first clause does not
decide about it: a device that was just started, and that is given nothing but these
bytes and the flag, comes to the same review.
-/

namespace AppVechain

open Rlp Streaming Reactive

/-- What the user is asked to sign: the flow, its texts, the path and the hash. -/
structure Review where
  flow : Flow
  texts : List (List UInt8)
  path : List UInt32
  hash : Vector UInt8 32
  deriving DecidableEq

/-- The review that a device shows. -/
def Device.review (d : Device) (flow : Flow) : Review where
  flow := flow
  texts := d.display flow
  path := d.tmpCtx.path
  hash := d.tmpCtx.hash

/-- A path of at most ten words, alone in the union. -/
def TmpCtx.ofPath (path : List UInt32) : TmpCtx where
  pathLength := UInt8.ofNat path.length
  bip32Path := Vector.ofFn fun i : Fin 10 => path.getD i 0
  hash := Vector.replicate 32 0
  remainingLength := 0

/-- It is the path that is signed with. -/
theorem TmpCtx.path_ofPath {path : List UInt32} (h : path.length ≤ 10) :
    (TmpCtx.ofPath path).path = path := by
  have hlength : (UInt8.ofNat path.length).toNat = path.length := by
    rw [UInt8.toNat_ofNat']
    exact Nat.mod_eq_of_lt (by omega)
  apply List.ext_getElem
  · simp only [TmpCtx.path, TmpCtx.ofPath, List.length_take, Vector.length_toList, hlength]
    omega
  · intro i hi hi'
    simp [TmpCtx.path, TmpCtx.ofPath, hi']

/-- No path is longer. -/
theorem TmpCtx.length_path_le (tmpCtx : TmpCtx) : tmpCtx.path.length ≤ 10 := by
  rw [TmpCtx.path, List.length_take, Vector.length_toList]
  exact Nat.min_le_right _ _

/-- The review that a handler ends with. -/
def Ending.review? : Ending → Option Review
  | .review flow d => some (d.review flow)
  | .throw _ _ _ => none
  | .stuck _ => none

/-- **The review of a transaction**, from its bytes: a parser that was just initialised reads them
alone. What it reads back from a variable that is gone is `found`. -/
def transactionReview (platform : Platform) (settings : Settings) (found : Bool)
    (path : List UInt32) (bytes : List UInt8) : Option Review :=
  match processTx (.stale found) (initTx .zero) bytes with
  | .returned .finished tx =>
    (signFinish platform settings
      { Device.boot with tx := tx, tmpCtx := TmpCtx.ofPath path }).review?
  | .returned .processing _ => none
  | .returned .fault _ => none
  | .stuck _ => none

/-- The flow of a transaction that is displayed. -/
theorem signDisplay_flow {platform : Platform} {shown : Shown} {review : Review}
    (h : (signDisplay platform shown).review? = some review) :
    review.flow = .transaction shown.device.dataPresent shown.device.multipleClauses := by
  unfold signDisplay at h
  split at h
  case h_1 => cases h
  case h_2 =>
    split at h
    case h_1 =>
      cases h
      rfl
    case h_2 => cases h

/-- **The settings in a review**: data and several clauses are allowed where they were found, and
several clauses begin with a warning. -/
theorem signFinish_allowed {platform : Platform} {settings : Settings} {d : Device}
    {review : Review} (h : (signFinish platform settings d).review? = some review) :
    (d.clausesContent.dataPresent = true → settings.dataAllowed = true) ∧
      (d.hasMultipleClauses = true → settings.multiClauseAllowed = true ∧
        ∃ data, review.flow = .transaction data true) := by
  rw [signFinish] at h
  rcases signChecks_cases platform settings d with ⟨-, d', hd'⟩ | ⟨hrefused, hpassed⟩
  · rw [hd'] at h
    cases h
  · rw [hpassed] at h
    have hflow := signDisplay_flow h
    obtain ⟨clause, data, hdevice⟩ := recognizeToken_device (d.checked platform)
    rw [hdevice] at hflow
    rw [Device.refused, Bool.or_eq_false_iff] at hrefused
    constructor
    · intro hdata
      simpa [hdata] using hrefused.1
    · intro hmany
      refine ⟨by simpa [hmany] using hrefused.2, data, hflow.trans ?_⟩
      show Flow.transaction data d.hasMultipleClauses = _
      rw [hmany]

/-- Handlers that end alike end with the same review. -/
theorem Ending.Alike.review? {I : Device → Device → Prop} {e e' : Ending}
    (h : Ending.Alike I e e') : e.review? = e'.review? := by
  cases h with
  | error => rfl
  | success => rfl
  | stuck => rfl
  | review hreview =>
    simp only [Ending.review?, Device.review, hreview.display, hreview.hash, hreview.path]

/-- A review that is answered. -/
theorem review?_of_answer {ending : Ending} {flow : Flow} {d : Device}
    (h : ending.answer? = some (.review flow, d)) : ending.review? = some (d.review flow) := by
  cases ending with
  | review flow d =>
    cases h
    rfl
  | throw data sw d => cases h
  | stuck e => cases h

/-- What follows when a transaction was parsed. -/
theorem handleSign_of_parsed {platform : Platform} {settings : Settings} {G : ApduBuffer}
    {d parsed : Device} (h : signParse platform G d = .inr parsed) :
    handleSign platform settings G d = signFinish platform settings parsed := by
  rw [handleSign, signAccept, h, signFinish]
  dsimp only
  cases signChecks platform settings parsed with
  | inl ending => rfl
  | inr checked => rfl

/-- **What is shown is allowed**, in every run: a new parser that reads the bytes of a transaction
that is shown, whatever its storage, finds several clauses only where they are allowed, and the
review begins with a warning then; and it finds data only where they are allowed, if the first
clause decides about the data flag or the storages hold the same flags. -/
theorem allowed_of_run {platform : Platform} {steps : List (Step Command Answer Device)}
    {d : Device} (h : Run platform.device steps d) {c : Command} {flow : Flow} {d' : Device}
    (hstep : platform.device.step c d = some (.review flow, d'))
    (hflow : (Answer.review flow).showsTransaction = true) (scratch : Scratch) :
    ∃ tx, processTx scratch (initTx .zero)
        (consumedSince (⟨d, c, .review flow, d'⟩ :: steps)) = .returned .finished tx ∧
      (1 < tx.env.view.clausesLength → c.settings.multiClauseAllowed = true ∧
        ∃ data, flow = .transaction data true) ∧
      (FlagDecided (consumedSince (⟨d, c, .review flow, d'⟩ :: steps)) ∨
          (platform.scratch d'.session).Alike scratch →
        tx.env.view.dataPresent = true → c.settings.dataAllowed = true) := by
  have hsign := isSign_of_shows hstep hflow
  obtain ⟨parsed, hparse, ⟨fresh, hfresh, hsame⟩, -⟩ :=
    shown_of_run keptByHashing_true trivial h hstep hflow fun _ _ _ _ _ => trivial
  obtain ⟨tx, hprocess, -, hview, hflag⟩ := processTx_storage hfresh scratch
  -- what the settings were checked for
  obtain ⟨d₁, hanswer, -⟩ := handleApdu_some hstep
  rw [dispatch_sign platform _ hsign.1 hsign.2, handleSign_of_parsed hparse] at hanswer
  obtain ⟨hdata, hmany⟩ := signFinish_allowed (review?_of_answer hanswer)
  refine ⟨tx, hprocess, fun hlength => hmany (decide_eq_true ?_), fun hstorage htx => hdata ?_⟩
  · rw [hview] at hlength
    have hcount : parsed.clausesContent.clausesLength = fresh.env.view.clausesLength :=
      hsame.clausesLength
    rw [hcount]
    exact hlength
  · have hpresent : parsed.clausesContent.dataPresent = fresh.env.view.dataPresent :=
      hsame.dataPresent
    rw [hpresent, ← hflag hstorage, htx]

/-- The data flag of a transaction that is shown is the one that a new parser finds in the same
storage. -/
theorem found_of_run {platform : Platform} {steps : List (Step Command Answer Device)}
    {d : Device} (h : Run platform.device steps d) {c : Command} {flow : Flow} {d' : Device}
    (hstep : platform.device.step c d = some (.review flow, d'))
    (hflow : (Answer.review flow).showsTransaction = true) :
    ∃ fresh, processTx (platform.scratch d'.session) (initTx .zero)
        (consumedSince (⟨d, c, .review flow, d'⟩ :: steps)) = .returned .finished fresh ∧
      d'.clausesContent.dataPresent = fresh.env.view.dataPresent := by
  obtain ⟨shown, parsed, -, hdisplays, haccepted⟩ :=
    accepted_of_shown keptByHashing_true trivial h hstep hflow fun _ _ _ _ _ => trivial
  obtain ⟨fresh, hfresh, hsame⟩ := haccepted.again
  obtain ⟨clause, data, hdevice⟩ := recognizeToken_device (parsed.checked platform)
  obtain ⟨fee, fullAddress, fullAmount, maxFee, rfl⟩ := hdisplays.display
  rw [← haccepted.shown] at hdevice
  refine ⟨fresh, ?_, ?_⟩
  · show processTx (platform.scratch shown.device.session) _ _ = _
    rw [hdevice]
    exact hfresh
  · show shown.device.clausesContent.dataPresent = _
    rw [hdevice]
    exact hsame.dataPresent

/-- A transaction that is completed in a session that hashed all its bytes is what a new parser
reads in these bytes, the hash included. -/
theorem finished_again {platform : Platform} {d : Device} {before : List UInt8}
    (h : d.Session platform Eq before) {payload : List UInt8} {tx : TxState}
    (hprocess : processTx (platform.scratch d.session) d.tx payload = .returned .finished tx) :
    ∃ fresh, processTx (platform.scratch d.session) (initTx .zero)
        (before ++ tx.consumed payload) = .returned .finished fresh ∧
      SameView tx.env.view fresh.env.view := by
  obtain ⟨-, ⟨fresh, hfresh, hsame⟩, hhash⟩ := finished_of_session keptByHashing_eq h hprocess
  refine ⟨fresh, hfresh, hsame, ?_⟩
  show tx.env.blake2b = fresh.env.blake2b
  rw [hhash]
  -- the new parser reads the bytes to their end, as the one of the session did
  obtain ⟨content, hrun⟩ := h.returned keptByHashing_eq hprocess
  generalize hout : (txRules (platform.scratch d.session)).machine.run
    (txStart .zero content) (before ++ payload) = out at hrun
  cases out with
  | running t => exact absurd hrun.1 (by decide)
  | refused => exact ParserStatus.noConfusion hrun
  | halted t unread =>
    obtain ⟨-, -, hpayload⟩ := hrun
    obtain ⟨all, t', hall, hagain, -⟩ := txRules_run_again hout TxEnv.zero.content
    have hbytes : all = before ++ tx.consumed payload := by
      rw [hpayload, ← List.append_assoc] at hall
      exact (List.append_cancel_right hall).symm
    rw [← hbytes] at hfresh ⊢
    have hcases := processTx_cases (platform.scratch d.session) keptByHashing_eq
      (initTx_sim (platform.scratch d.session) rfl .zero) all
    rw [show (txRules (platform.scratch d.session)).machine.run
      (txStart TxEnv.zero.clauses.env.firstClause TxEnv.zero.content) all = .halted t' [] from
      hagain, hfresh] at hcases
    obtain ⟨fresh', heq, hsim, -⟩ := hcases
    cases heq
    obtain ⟨-, -, hfed⟩ := hsim.env
    obtain ⟨-, hread⟩ := txRules_run_blake2b (platform.scratch d.session)
      (t := txStart .zero TxEnv.zero.content) trivial all
    have htranscript := (hread t' [] hagain).2
    rw [List.append_nil] at htranscript
    exact (hfed.trans htranscript).symm

/-- **What is shown are the bytes**, in every run: a transaction that is shown is the review of the
bytes that the parser consumed since the last `P1_FIRST`, if no command wrote to the hash for
a message or certificate in between. Where the first clause does not decide about the data flag
it is the review with the flag that the device has found. -/
theorem review_of_run {platform : Platform} {steps : List (Step Command Answer Device)}
    {d : Device} (h : Run platform.device steps d) {c : Command} {flow : Flow} {d' : Device}
    (hstep : platform.device.step c d = some (.review flow, d'))
    (hflow : (Answer.review flow).showsTransaction = true)
    (hwrites : ∀ step ∈ since (fun step => step.event.beginsSign)
      (⟨d, c, .review flow, d'⟩ :: steps), ¬step.event.WritesHash step.before) :
    (∀ found, FlagDecided (consumedSince (⟨d, c, .review flow, d'⟩ :: steps)) ∨
        found = d'.clausesContent.dataPresent →
      transactionReview platform c.settings found d'.tmpCtx.path
        (consumedSince (⟨d, c, .review flow, d'⟩ :: steps)) = some (d'.review flow)) ∧
      d'.tmpCtx.hash =
        platform.blake2b256 (consumedSince (⟨d, c, .review flow, d'⟩ :: steps)) := by
  have hkept : ∀ step ∈ since (fun step => step.event.beginsSign)
      (⟨d, c, .review flow, d'⟩ :: steps), ¬step.event.isSign →
      ∀ ys, step.before.blake2b = ys → step.after.blake2b = ys := by
    intro step hmem hother ys hys
    have hstep' := (Run.step h hstep).step_of_mem (since_subset _ _ hmem)
    rw [otherStep_blake2b hother hstep' (hwrites step hmem)]
    exact hys
  have hsign := isSign_of_shows hstep hflow
  obtain ⟨shown, parsed, hparse, hdisplays, haccepted⟩ :=
    accepted_of_shown keptByHashing_eq rfl h hstep hflow hkept
  -- the call of the parser in its session, and what a new parser makes of the same bytes
  have hd (hp1 : c.G.p1 ≠ P1_FIRST) :
      d.Closed ∨ d.Session platform Eq (consumedSince steps) := by
    refine session_of_run keptByHashing_eq rfl h fun step hmem => hkept step ?_
    rw [since_cons_of_neg (by simp [Command.beginsSign, hp1])]
    exact List.mem_cons_of_mem _ hmem
  rcases signParse_cases platform c.settings c.G d with
    ⟨ending, hinl, -⟩ | ⟨w, tx, hcall, hprocess, hinr⟩
  · rw [hinl] at hparse
    cases hparse
  rw [hinr] at hparse
  cases hparse
  obtain ⟨fresh, hfresh, hview⟩ := finished_again (hcall.session rfl hd) hprocess
  rw [signBegin_payload hcall.begun] at hfresh
  -- what is shown for the transaction that was parsed
  obtain ⟨clause, data, hdevice⟩ := recognizeToken_device
    (Device.checked platform { w.device with tx := tx })
  rw [← haccepted.shown] at hdevice
  obtain ⟨fee, fullAddress, fullAmount, maxFee, hdisplay⟩ := hdisplays.display
  have hfinish : (signFinish platform c.settings { w.device with tx := tx }).answer? =
      some (.review flow, d') := by
    obtain ⟨d₁, hanswer, hd'⟩ := handleApdu_some hstep
    rw [dispatch_sign platform c.settings hsign.1 hsign.2, handleSign_of_parsed hinr] at hanswer
    rw [hanswer, hd']
    rfl
  have hbytes : consumedSince (⟨d, c, .review flow, d'⟩ :: steps) =
      (if c.G.p1 = P1_FIRST then [] else consumedSince steps) ++ tx.consumed c.G.payload := by
    have htx : d'.tx.consumed c.G.payload = tx.consumed c.G.payload := by
      rw [hdisplay]
      exact haccepted.consumed c.G.payload
    rw [consumedSince_cons hsign, consumedBy, if_pos hsign, ← htx]
  have hcontent : d'.clausesContent.dataPresent = tx.env.view.dataPresent := by
    rw [hdisplay]
    show shown.device.clausesContent.dataPresent = _
    rw [hdevice]
    rfl
  have hpath : d'.tmpCtx.path = w.device.tmpCtx.path := by
    have hsame := signFinish_same hfinish
    rw [TmpCtx.path, TmpCtx.path, hsame.pathLength, hsame.bip32Path]
  constructor
  · intro found hfound
    rw [hbytes, hcontent, hview.dataPresent] at hfound
    obtain ⟨again, hagain, hsame⟩ := processTx_stale hfresh hfound
    rw [← hsame] at hview
    have halike : Ending.Alike (fun _ _ => True)
        (signFinish platform c.settings { w.device with tx := tx })
        (signFinish platform c.settings
          { Device.boot with tx := again, tmpCtx := TmpCtx.ofPath d'.tmpCtx.path }) :=
      signFinish_alike _ platform c.settings hview
        (by rw [TmpCtx.path_ofPath d'.tmpCtx.length_path_le, hpath])
    rw [transactionReview, hbytes, hagain]
    exact halike.review?.symm.trans (review?_of_answer hfinish)
  · have hhash : d'.tmpCtx.hash = platform.blake2b256 tx.env.blake2b := by
      rw [hdisplay]
      show shown.device.tmpCtx.hash = _
      rw [hdevice]
      rfl
    rw [hhash]
    exact congrArg platform.blake2b256 haccepted.hash

end AppVechain
