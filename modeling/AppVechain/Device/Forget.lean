import AppVechain.Device.DataWarning
import AppVechain.Device.Session
import AppVechain.Device.StaleInput
import AppVechain.Ustream.Control

/-!
# `P1_FIRST` forgets what came before

Two devices that are given the same commands of one signing instruction, from
`P1_FIRST` on, answer alike and show the same. What was left over from before is
overwritten or not read, except for the flags of the clauses that are in a block
that was left.
-/

namespace AppVechain

open Rlp Streaming Reactive Numeral

/-- The strings that a flow shows. -/
def Device.display (d : Device) : Flow → List (List UInt8)
  | .transaction _ _ => [d.fullAddress.bytes, d.fullAmount.bytes, d.maxFee.bytes]
  | .publicKey | .message | .certificate => [d.fullAddress.bytes]

/-- Two devices at the same review. -/
structure SameReview (flow : Flow) (d d' : Device) : Prop where
  display : d.display flow = d'.display flow
  hash : d.tmpCtx.hash = d'.tmpCtx.hash
  path : d.tmpCtx.path = d'.tmpCtx.path

/-- Two handlers that end alike: with the same error, with success on devices related by `I`,
or at the same review. -/
inductive Ending.Alike (I : Device → Device → Prop) : Ending → Ending → Prop where
  | error {data : List UInt8} {sw : UInt16} {d d' : Device}
      (hsw : sw &&& ERROR_TYPE_MASK = ERROR_TYPE_HW) :
      Alike I (.throw data sw d) (.throw data sw d')
  | success {data : List UInt8} {d d' : Device} (hI : I d d') :
      Alike I (.throw data HW_OK d) (.throw data HW_OK d')
  | review {flow : Flow} {d d' : Device} (hreview : SameReview flow d d') :
      Alike I (.review flow d) (.review flow d')
  | stuck {e e' : Stuck} : Alike I (.stuck e) (.stuck e')

/-- The answer asks for more. -/
def Answer.continues : Answer → Bool
  | .status _ sw => sw = HW_OK
  | .review _ => false

/-- What is compared at the end of a conversation: the review, if there is one. -/
def Answer.SameReview : Answer → Device → Device → Prop
  | .status _ _, _, _ => True
  | .review flow, d, d' => AppVechain.SameReview flow d d'

/-- Commands that are handled alike are answered alike. -/
theorem Ending.Alike.handleApdu {I : Device → Device → Prop} {platform : Platform}
    {settings : Settings} {G : ApduBuffer} {d d' : Device}
    (h : Ending.Alike I (dispatch platform settings G d) (dispatch platform settings G d')) :
    Option.Rel (SameStep Answer.continues I Answer.SameReview)
      (handleApdu platform settings G d) (handleApdu platform settings G d') := by
  rw [handleApdu_eq, handleApdu_eq]
  generalize dispatch platform settings G d = ending at h
  generalize dispatch platform settings G d' = ending' at h
  cases h with
  | @error data sw d d' hsw =>
    have hne : sw ≠ HW_OK := by
      rintro rfl
      exact absurd hsw (by decide)
    refine .some ⟨rfl, fun hcontinue => ?_, fun _ => trivial⟩
    exact absurd (of_decide_eq_true hcontinue) hne
  | success hI => exact .some ⟨rfl, fun _ => hI, fun _ => trivial⟩
  | review hreview => exact .some ⟨rfl, nofun, fun _ => hreview⟩
  | stuck => exact .none

/-- Reading the path of one command into two devices. -/
theorem beginPath_alike (G : ApduBuffer) (d d' : Device) :
    (∃ e e', beginPath G d = .inl (.throw [] HW_INCORRECT_DATA e) ∧
      beginPath G d' = .inl (.throw [] HW_INCORRECT_DATA e')) ∨
    ∃ w w', beginPath G d = .inr w ∧ beginPath G d' = .inr w' ∧ w.workBuffer = w'.workBuffer ∧
      w.dataLength = w'.dataLength ∧ w.device.tmpCtx.path = w'.device.tmpCtx.path := by
  by_cases hpath : G.HasPath
  · obtain ⟨a, ha, hwords, hwork, hdata⟩ := beginPath_of_hasPath hpath d
    obtain ⟨a', ha', hwords', hwork', hdata'⟩ := beginPath_of_hasPath hpath d'
    exact .inr ⟨_, _, ha, ha', hwork.trans hwork'.symm,
      UInt16.toNat_inj.mp (hdata.trans hdata'.symm),
      hwords.trans hwords'.symm⟩
  · exact .inl ⟨_, _, beginPath_of_not_hasPath hpath d, beginPath_of_not_hasPath hpath d'⟩

/-- Two devices in the middle of the same message or certificate. -/
structure SameStream (d d' : Device) : Prop where
  blake2b : d.blake2b = d'.blake2b
  remainingLength : d.tmpCtx.remainingLength = d'.tmpCtx.remainingLength
  path : d.tmpCtx.path = d'.tmpCtx.path

/-- Hashing the same data of a stream. -/
theorem hashPayload_alike (platform : Platform) (flow : Flow) (closed : UInt8 → Bool)
    (G : ApduBuffer) {w w' : Work} (hwork : w.workBuffer = w'.workBuffer)
    (hdata : w.dataLength = w'.dataLength) (h : SameStream w.device w'.device)
    (hflow : ∀ d : Device, d.display flow = [d.fullAddress.bytes]) :
    Ending.Alike SameStream (hashPayload platform flow closed G w)
      (hashPayload platform flow closed G w') := by
  obtain ⟨d, workBuffer, dataLength⟩ := w
  obtain ⟨d', workBuffer', dataLength'⟩ := w'
  obtain ⟨hblake2b, hlength, hpath⟩ := h
  dsimp only at hwork hdata hblake2b hlength hpath
  subst hwork hdata
  have hbytes (bytes : List UInt8) :
      (d.setBlake2b (d.blake2b ++ bytes)).blake2b =
        (d'.setBlake2b (d'.blake2b ++ bytes)).blake2b := by
    show d.blake2b ++ bytes = d'.blake2b ++ bytes
    rw [hblake2b]
  unfold hashPayload
  dsimp only
  rw [← hlength]
  split_ifs
  · exact .error (by decide)
  · exact .error (by decide)
  · exact .stuck
  · exact .error (by decide)
  · have hhash := hbytes (G.bytes workBuffer dataLength.toNat)
    refine .review ⟨?_, congrArg platform.blake2b256 hhash, hpath⟩
    rw [hflow, hflow]
    exact congrArg (fun hash => [(hashSummary hash).bytes]) (congrArg platform.blake2b256 hhash)
  · exact .success ⟨hbytes _, rfl, hpath⟩

/-- The first parts of two handlers end alike. -/
inductive BeginsAlike : Ending ⊕ Work → Ending ⊕ Work → Prop where
  | ended {e e' : Ending} (h : Ending.Alike SameStream e e') : BeginsAlike (.inl e) (.inl e')
  | begun {w w' : Work} (hwork : w.workBuffer = w'.workBuffer)
      (hdata : w.dataLength = w'.dataLength) (h : SameStream w.device w'.device) :
      BeginsAlike (.inr w) (.inr w')

/-- A length that is read after the same path. -/
theorem readLength_alike (G : ApduBuffer) {w w' : Work} (hwork : w.workBuffer = w'.workBuffer)
    (hdata : w.dataLength = w'.dataLength)
    (hpath : w.device.tmpCtx.path = w'.device.tmpCtx.path) (text : List UInt8) :
    BeginsAlike (.inr { w.readLength G with device := (w.readLength G).device.setBlake2b text })
      (.inr { w'.readLength G with device := (w'.readLength G).device.setBlake2b text }) := by
  refine .begun ?_ ?_ ⟨rfl, ?_, hpath⟩
  · exact congrArg (· + 4) hwork
  · exact congrArg (· - 4) hdata
  · exact congrArg G.word hwork

/-- The first part of signing a stream, with `P1_FIRST` or in the same stream. -/
theorem streamBegin_alike {G : ApduBuffer} {rest : Work → Ending ⊕ Work}
    (hrest : ∀ w w' : Work, w.workBuffer = w'.workBuffer → w.dataLength = w'.dataLength →
      w.device.tmpCtx.path = w'.device.tmpCtx.path →
      BeginsAlike (rest (w.readLength G)) (rest (w'.readLength G)))
    {d d' : Device} (h : G.p1 ≠ P1_FIRST → SameStream d d') :
    BeginsAlike (streamBegin rest G d) (streamBegin rest G d') := by
  unfold streamBegin
  by_cases hfirst : G.p1 = P1_FIRST
  · rw [if_pos hfirst, if_pos hfirst]
    rcases beginPath_alike G d d' with ⟨e, e', he, he'⟩ | ⟨w, w', hw, hw', hwork, hdata, hpath⟩
    · rw [he, he']
      exact .ended (.error (by decide))
    · rw [hw, hw']
      exact hrest w w' hwork hdata hpath
  · rw [if_neg hfirst, if_neg hfirst]
    split_ifs
    · exact .ended (.error (by decide))
    · exact .begun rfl rfl (h hfirst)

/-- The first part of signing a message. -/
theorem messageBegin_alike {G : ApduBuffer} {d d' : Device}
    (h : G.p1 ≠ P1_FIRST → SameStream d d') :
    BeginsAlike (messageBegin G d) (messageBegin G d') := by
  rw [messageBegin_eq, messageBegin_eq]
  refine streamBegin_alike (fun w w' hwork hdata hpath => ?_) h
  have hlength : (w'.readLength G).device.tmpCtx.remainingLength =
      (w.readLength G).device.tmpCtx.remainingLength := congrArg G.word hwork.symm
  unfold messageRest
  rw [hlength]
  cases lengthText (w.readLength G).device.tmpCtx.remainingLength with
  | none => exact .ended .stuck
  | some text => exact readLength_alike G hwork hdata hpath _

/-- The first part of signing a certificate. -/
theorem certificateBegin_alike {G : ApduBuffer} {d d' : Device}
    (h : G.p1 ≠ P1_FIRST → SameStream d d') :
    BeginsAlike (certificateBegin G d) (certificateBegin G d') := by
  rw [certificateBegin_eq, certificateBegin_eq]
  refine streamBegin_alike (fun w w' hwork hdata hpath => ?_) h
  have hbyte : G.byte (w'.readLength G).workBuffer = G.byte (w.readLength G).workBuffer :=
    congrArg (fun i => G.byte (i + 4)) hwork.symm
  unfold certificateRest
  by_cases hopened : G.byte (w.readLength G).workBuffer = 123
  · rw [if_neg (not_not.mpr hopened), if_neg (not_not.mpr (hbyte.trans hopened))]
    exact readLength_alike G hwork hdata hpath []
  · rw [if_pos hopened, if_pos (hbyte ▸ hopened)]
    exact .ended (.error (by decide))

/-- Signing the same message. -/
theorem handleSignPersonalMessage_alike (platform : Platform) {G : ApduBuffer} {d d' : Device}
    (h : G.p1 ≠ P1_FIRST → SameStream d d') :
    Ending.Alike SameStream (handleSignPersonalMessage platform G d)
      (handleSignPersonalMessage platform G d') := by
  have hbegin := messageBegin_alike h
  unfold handleSignPersonalMessage
  generalize messageBegin G d = begun at hbegin
  generalize messageBegin G d' = begun' at hbegin
  cases hbegin with
  | ended hends => exact hends
  | begun hwork hdata hsame => exact hashPayload_alike platform _ _ G hwork hdata hsame fun _ => rfl

/-- Signing the same certificate. -/
theorem handleSignCertificate_alike (platform : Platform) {G : ApduBuffer} {d d' : Device}
    (h : G.p1 ≠ P1_FIRST → SameStream d d') :
    Ending.Alike SameStream (handleSignCertificate platform G d)
      (handleSignCertificate platform G d') := by
  have hbegin := certificateBegin_alike h
  unfold handleSignCertificate
  generalize certificateBegin G d = begun at hbegin
  generalize certificateBegin G d' = begun' at hbegin
  cases hbegin with
  | ended hends => exact hends
  | begun hwork hdata hsame => exact hashPayload_alike platform _ _ G hwork hdata hsame fun _ => rfl

/-- What is kept of a transaction in two sessions, with the same hash. -/
structure SameView (v v' : TxView) : Prop extends SameContent v v' where
  blake2b : v.blake2b = v'.blake2b

/-- What is kept of one transaction in two sessions. -/
theorem FieldsLayout.view_alike (l : FieldsLayout) {scratch scratch' : Scratch}
    (hflags : l.FlagSettled ∨ scratch.SameFlags scratch') (firstClause : ClauseContent)
    (content content' : TxContent) :
    SameView (l.view scratch firstClause content) (l.view scratch' firstClause content') := by
  have hcoef : l.items.gasPriceCoef.payload.length ≤ 1 := l.admitted.gasPriceCoef.2 1 rfl
  have hgas : l.items.gas.payload.length ≤ 8 := l.admitted.gas.2 8 rfl
  refine ⟨⟨⟨hcoef, hcoef⟩, ?_, ⟨hgas, hgas⟩, ?_, rfl, rfl, ?_⟩, rfl⟩
  · exact (TxInt256.number_write _ (by omega)).trans (TxInt256.number_write _ (by omega)).symm
  · exact (TxInt256.number_write _ (by omega)).trans (TxInt256.number_write _ (by omega)).symm
  · rcases hflags with hsettled | hsame
    · exact hsettled.any_eq scratch scratch'
    · exact congrArg (List.any · id) (readFlags_same hsame 0 l.flags)

/-- The strings that are written for a transaction. -/
def TxStrings.texts (strings : TxStrings) : List (List UInt8) :=
  [strings.fullAddress, strings.fullAmount, strings.maxFee]

/-- The same transaction is written as the same strings. -/
theorem strings_alike (platform : Platform) {shown shown' : Shown}
    (hview : SameView shown.device.tx.env.view shown'.device.tx.env.view)
    (hticker : shown.ticker = shown'.ticker) (hdecimals : shown.decimals = shown'.decimals) :
    Option.Rel (fun strings strings' => strings.texts = strings'.texts)
      (shown.strings platform) (shown'.strings platform) := by
  have hclause : shown.device.clauseContent = shown'.device.clauseContent := hview.firstClause
  obtain ⟨ctx, -, hfee⟩ := maxFeeToDisplayString_eq hview.coefLength.1 hview.gasLength.1
  obtain ⟨ctx', -, hfee'⟩ := maxFeeToDisplayString_eq hview.coefLength.2 hview.gasLength.2
  rw [← hview.coef, ← hview.gas] at hfee'
  have hfee₁ : maxFeeToDisplayString shown.device.tx.env.content.gaspricecoef
      shown.device.tx.env.content.gas = _ := hfee
  have hfee₂ : maxFeeToDisplayString shown'.device.tx.env.content.gaspricecoef
      shown'.device.tx.env.content.gas = _ := hfee'
  unfold Shown.strings
  rw [← hclause, ← hticker, ← hdecimals, hfee₁, hfee₂]
  cases sendAmountToDisplayString shown.device.clauseContent.value shown.ticker shown.decimals with
  | none => exact .none
  | some fullAmount => exact .some rfl

/-- The same transaction is displayed alike. -/
theorem signDisplay_alike (I : Device → Device → Prop) (platform : Platform) {shown shown' : Shown}
    (hview : SameView shown.device.tx.env.view shown'.device.tx.env.view)
    (hticker : shown.ticker = shown'.ticker) (hdecimals : shown.decimals = shown'.decimals)
    (hdata : shown.device.dataPresent = shown'.device.dataPresent)
    (hclauses : shown.device.multipleClauses = shown'.device.multipleClauses)
    (hhash : shown.device.tmpCtx.hash = shown'.device.tmpCtx.hash)
    (hpath : shown.device.tmpCtx.path = shown'.device.tmpCtx.path) :
    Ending.Alike I (signDisplay platform shown) (signDisplay platform shown') := by
  have hstrings := strings_alike platform hview hticker hdecimals
  unfold signDisplay
  generalize shown.strings platform = strings at hstrings
  generalize shown'.strings platform = strings' at hstrings
  cases hstrings with
  | none => exact .stuck
  | @some strings strings' htexts =>
    obtain ⟨fullAddress, fullAmount, maxFee, fee⟩ := strings
    obtain ⟨fullAddress', fullAmount', maxFee', fee'⟩ := strings'
    simp only [TxStrings.texts, List.cons.injEq, and_true] at htexts
    obtain ⟨rfl, rfl, rfl⟩ := htexts
    rw [← hdata, ← hclauses]
    cases haddress : CharArray.write? 43 fullAddress with
    | none =>
      simp only [haddress]
      exact .stuck
    | some address =>
      cases hamount : CharArray.write? 50 fullAmount with
      | none =>
        simp only [haddress, hamount]
        exact .stuck
      | some amount =>
        cases hfee : CharArray.write? 60 maxFee with
        | none =>
          simp only [haddress, hamount, hfee]
          exact .stuck
        | some text =>
          simp only [haddress, hamount, hfee]
          exact .review ⟨rfl, hhash, hpath⟩

/-- The same transaction is looked up and displayed alike. -/
theorem recognizeToken_alike (I : Device → Device → Prop) (platform : Platform) {d d' : Device}
    (hview : SameView d.tx.env.view d'.tx.env.view) (hdata : d.dataPresent = d'.dataPresent)
    (hclauses : d.multipleClauses = d'.multipleClauses) (hhash : d.tmpCtx.hash = d'.tmpCtx.hash)
    (hpath : d.tmpCtx.path = d'.tmpCtx.path) :
    Ending.Alike I (signDisplay platform (recognizeToken d))
      (signDisplay platform (recognizeToken d')) := by
  have hclause : d.clauseContent = d'.clauseContent := hview.firstClause
  unfold recognizeToken
  rw [← hdata, ← hclause]
  cases if d.dataPresent then d.clauseContent.token? else none with
  | none => exact signDisplay_alike I platform hview rfl rfl hdata hclauses hhash hpath
  | some token =>
    have hmoved : SameView (d.setClauses d.clausesContent d.clauseContent.moveToken).tx.env.view
        (d'.setClauses d'.clausesContent d.clauseContent.moveToken).tx.env.view :=
      { hview with firstClause := rfl }
    exact signDisplay_alike I platform hmoved rfl rfl rfl hclauses hhash hpath

/-- The statements of `handleSign` behind the parser. -/
def signFinish (platform : Platform) (settings : Settings) (d : Device) : Ending :=
  match signChecks platform settings d with
  | .inl ending => ending
  | .inr d => signDisplay platform (recognizeToken d)

/-- The same transaction is checked, looked up and displayed alike. -/
theorem signFinish_alike (I : Device → Device → Prop) (platform : Platform) (settings : Settings)
    {d d' : Device} (hview : SameView d.tx.env.view d'.tx.env.view)
    (hpath : d.tmpCtx.path = d'.tmpCtx.path) :
    Ending.Alike I (signFinish platform settings d) (signFinish platform settings d') := by
  have hdata : d.clausesContent.dataPresent = d'.clausesContent.dataPresent := hview.dataPresent
  have hmany : d.hasMultipleClauses = d'.hasMultipleClauses :=
    congrArg (fun n : UInt8 => decide (n > 1)) hview.clausesLength
  have hblake2b : d.blake2b = d'.blake2b := hview.blake2b
  have hrefused : d.refused settings = d'.refused settings := by
    rw [Device.refused, Device.refused, hdata, hmany]
  unfold signFinish
  rcases signChecks_cases platform settings d with ⟨h, e, he⟩ | ⟨h, hpassed⟩
  · rcases signChecks_cases platform settings d' with ⟨-, e', he'⟩ | ⟨h', -⟩
    · rw [he, he']
      exact .error (by decide)
    · rw [hrefused, h'] at h
      cases h
  · rcases signChecks_cases platform settings d' with ⟨h', -⟩ | ⟨-, hpassed'⟩
    · rw [hrefused, h'] at h
      cases h
    · rw [hpassed, hpassed']
      exact recognizeToken_alike I platform hview hdata hmany
        (congrArg platform.blake2b256 hblake2b) hpath

/-- Two devices in the same transaction, each in its session. -/
structure SameSession (platform : Platform) (i j : ℕ) (bytes : List UInt8) (d d' : Device) :
    Prop where
  session : d.session = i
  session' : d'.session = j
  parses : d.Session platform Eq bytes
  parses' : d'.Session platform Eq bytes
  path : d.tmpCtx.path = d'.tmpCtx.path

/-- The parsers of two sessions are in the same fields. -/
theorem SameSession.fields {platform : Platform} {i j : ℕ} {bytes : List UInt8} {d d' : Device}
    (h : SameSession platform i j bytes d d') :
    d.tx.currentField = d'.tx.currentField ∧
      d.tx.env.clauses.currentField = d'.tx.env.clauses.currentField := by
  obtain ⟨content, t, hsim, hrun⟩ := h.parses.parses
  obtain ⟨content', t', hsim', hrun'⟩ := h.parses'.parses
  have hrelated := txRules_run_related (platform.scratch d.session) (platform.scratch d'.session)
    .zero .zero content content' bytes
  rw [hrun, hrun'] at hrelated
  cases hrelated with
  | running hsame =>
    refine ⟨by rw [hsim.field, hsim'.field, hsame.field], ?_⟩
    rw [hsim.env.1.field, hsim'.env.1.field, hsame.env.field]

/-- The checks before the parser is called depend on its fields. -/
theorem signInitialized_alike (G : ApduBuffer) {d d' : Device}
    (hfee : d.feeComputationContext = none) (hfee' : d'.feeComputationContext = none)
    (hfield : d.tx.currentField = d'.tx.currentField)
    (hclauses : d.tx.env.clauses.currentField = d'.tx.env.clauses.currentField) :
    (∃ sw, sw &&& ERROR_TYPE_MASK = ERROR_TYPE_HW ∧
      signInitialized G d = some (.throw [] sw d) ∧ signInitialized G d' = some (.throw [] sw d')) ∨
    (signInitialized G d = none ∧ signInitialized G d' = none) := by
  unfold signInitialized
  rw [hfee, hfee', ← hfield, ← hclauses]
  dsimp only
  split_ifs
  · exact .inl ⟨_, by decide, rfl, rfl⟩
  · exact .inl ⟨_, by decide, rfl, rfl⟩
  · exact .inl ⟨_, by decide, rfl, rfl⟩
  · exact .inr ⟨rfl, rfl⟩

/-- The statements of `handleSign` from the call of the parser on. -/
def signRest (platform : Platform) (settings : Settings) (G : ApduBuffer) (w : Work) : Ending :=
  match signInitialized G w.device with
  | some ending => ending
  | none =>
    match processTx (platform.scratch w.device.session) w.device.tx
        (G.bytes w.workBuffer w.dataLength.toNat) with
    | .returned .finished tx => signFinish platform settings { w.device with tx := tx }
    | .returned .processing tx => .throw [] HW_OK { w.device with tx := tx }
    | .returned .fault tx => .throw [] HW_INCORRECT_DATA { w.device with tx := tx }
    | .stuck e => .stuck e

/-- `handleSign` begins, and goes on with the parser. -/
theorem handleSign_eq (platform : Platform) (settings : Settings) (G : ApduBuffer) (d : Device) :
    handleSign platform settings G d =
      match signBegin G d with
      | .inl ending => ending
      | .inr w => signRest platform settings G w := by
  unfold handleSign signAccept signParse signRest
  cases signBegin G d with
  | inl ending => rfl
  | inr w =>
    dsimp only
    cases signInitialized G w.device with
    | some ending => rfl
    | none =>
      dsimp only
      cases processTx (platform.scratch w.device.session) w.device.tx
          (G.bytes w.workBuffer w.dataLength.toNat) with
      | stuck e => rfl
      | returned status tx =>
        cases status with
        | processing => rfl
        | fault => rfl
        | finished =>
          dsimp only [signFinish]
          cases signChecks platform settings { w.device with tx := tx } with
          | inl ending => rfl
          | inr checked => rfl

/-- **The parser in two sessions** of the same transaction. -/
theorem signRest_alike {platform : Platform} (settings : Settings) {G : ApduBuffer} {i j : ℕ}
    {bytes delivered : List UInt8} {w w' : Work} (hwork : w.workBuffer = w'.workBuffer)
    (hdata : w.dataLength = w'.dataLength)
    (h : SameSession platform i j bytes w.device w'.device)
    (hbegins : bytes ++ G.bytes w.workBuffer w.dataLength.toNat <+: delivered)
    (hread : Readable delivered)
    (hflags : ∀ l : FieldsLayout, l.bytes <+: delivered →
      l.FlagSettled ∨ (platform.scratch i).SameFlags (platform.scratch j)) :
    Ending.Alike
      (SameSession platform i j (bytes ++ G.bytes w.workBuffer w.dataLength.toNat))
      (signRest platform settings G w) (signRest platform settings G w') := by
  obtain ⟨hfield, hclauses⟩ := h.fields
  unfold signRest
  rw [← hwork, ← hdata]
  generalize G.bytes w.workBuffer w.dataLength.toNat = chunk at hbegins ⊢
  rcases signInitialized_alike G h.parses.fee h.parses'.fee hfield hclauses with
    ⟨sw, hsw, hinit, hinit'⟩ | ⟨hinit, hinit'⟩
  · rw [hinit, hinit']
    exact .error hsw
  · rw [hinit, hinit']
    dsimp only
    obtain ⟨content, hcall⟩ := h.parses.processTx keptByHashing_eq chunk
    obtain ⟨content', hcall'⟩ := h.parses'.processTx keptByHashing_eq chunk
    have hrelated := txRules_run_related (platform.scratch w.device.session)
      (platform.scratch w'.device.session) .zero .zero content content' (bytes ++ chunk)
    generalize hrun : (txRules (platform.scratch w.device.session)).machine.run
      (txStart .zero content) (bytes ++ chunk) = outcome at hcall hrelated
    generalize hrun' : (txRules (platform.scratch w'.device.session)).machine.run
      (txStart .zero content') (bytes ++ chunk) = outcome' at hcall' hrelated
    cases hrelated with
    | refused =>
      obtain ⟨tx, hprocess⟩ := hcall
      obtain ⟨tx', hprocess'⟩ := hcall'
      rw [hprocess, hprocess']
      exact .error (by decide)
    | running hsame =>
      obtain ⟨tx, hprocess, hsim, -⟩ := hcall
      obtain ⟨tx', hprocess', hsim', -⟩ := hcall'
      rw [hprocess, hprocess']
      exact .success ⟨h.session, h.session', h.parses.next hsim hrun, h.parses'.next hsim' hrun',
        h.path⟩
    | @halted t t' unread hsame =>
      obtain ⟨tx, hprocess, hsim, -⟩ := hcall
      obtain ⟨tx', hprocess', hsim', -⟩ := hcall'
      rw [hprocess, hprocess']
      -- the transaction that was read, with the fields of its clauses
      obtain ⟨l, hbytes, hadmitted, -⟩ := txRules_run_halted _ hrun
      have hfront : l.bytes <+: delivered :=
        (List.prefix_append l.bytes unread).trans (hbytes ▸ hbegins)
      obtain ⟨fl, rfl, hlength⟩ := hread l hadmitted hfront
      have hview {scratch : Scratch} {content : TxContent} {t : FieldState RlpTxField TxData}
          (hrun : (txRules scratch).machine.run (txStart .zero content) (bytes ++ chunk) =
            .halted t unread) : t.env.view = fl.view scratch .zero content := by
        obtain ⟨u, hu, hview⟩ := fl.run_view (by omega) scratch .zero content unread
        rw [hbytes, hu] at hrun
        cases hrun
        exact hview
      refine signFinish_alike _ platform settings ?_ h.path
      show SameView tx.env.view tx'.env.view
      rw [txRel_view hsim.env, txRel_view hsim'.env, hview hrun, hview hrun']
      refine fl.view_alike ?_ .zero content content'
      rw [h.session, h.session']
      exact hflags fl hfront

/-- A transaction that begins on two devices. -/
theorem handleSign_first_alike {platform : Platform} (settings : Settings) {G : ApduBuffer}
    (hp1 : G.p1 = P1_FIRST) {delivered : List UInt8} (hbegins : G.payload <+: delivered)
    (hread : Readable delivered) {d d' : Device}
    (hflags : ∀ l : FieldsLayout, l.bytes <+: delivered → l.FlagSettled ∨
      (platform.scratch (d.session + 1)).SameFlags (platform.scratch (d'.session + 1))) :
    Ending.Alike (SameSession platform (d.session + 1) (d'.session + 1) G.payload)
      (handleSign platform settings G d) (handleSign platform settings G d') := by
  rw [handleSign_eq, handleSign_eq]
  rcases beginPath_alike G (d.setClauses ⟨0, false⟩ .zero) (d'.setClauses ⟨0, false⟩ .zero) with
    ⟨e, e', he, he'⟩ | ⟨w, w', hw, hw', -⟩
  · have hbegin : signBegin G d = .inl (.throw [] HW_INCORRECT_DATA e) := by
      rw [signBegin, if_pos hp1, he]
    have hbegin' : signBegin G d' = .inl (.throw [] HW_INCORRECT_DATA e') := by
      rw [signBegin, if_pos hp1, he']
    rw [hbegin, hbegin']
    exact .error (by decide)
  · obtain ⟨v, hbegin⟩ : ∃ v, signBegin G d = .inr v := by
      rw [signBegin, if_pos hp1, hw]
      exact ⟨_, rfl⟩
    obtain ⟨v', hbegin'⟩ : ∃ v, signBegin G d' = .inr v := by
      rw [signBegin, if_pos hp1, hw']
      exact ⟨_, rfl⟩
    obtain ⟨-, hwork, hdata, hpath, -, -, hsession⟩ := signBegin_first hp1 hbegin
    obtain ⟨-, hwork', hdata', hpath', -, -, hsession'⟩ := signBegin_first hp1 hbegin'
    have hpayload := signBegin_payload hbegin
    rw [hbegin, hbegin']
    have hsame : SameSession platform (d.session + 1) (d'.session + 1) [] v.device v'.device :=
      ⟨hsession, hsession', signBegin_session rfl hp1 hbegin, signBegin_session rfl hp1 hbegin',
        hpath.trans hpath'.symm⟩
    have halike := signRest_alike settings (hwork.trans hwork'.symm)
      (UInt16.toNat_inj.mp (hdata.trans hdata'.symm)) hsame
      (by rw [List.nil_append, hpayload]; exact hbegins) hread hflags
    rwa [List.nil_append, hpayload] at halike

/-- A transaction that goes on. -/
theorem handleSign_more_alike {platform : Platform} (settings : Settings) {G : ApduBuffer}
    (hp1 : G.p1 = P1_MORE) {i j : ℕ} {bytes delivered : List UInt8}
    (hbegins : bytes ++ G.payload <+: delivered) (hread : Readable delivered)
    (hflags : ∀ l : FieldsLayout, l.bytes <+: delivered →
      l.FlagSettled ∨ (platform.scratch i).SameFlags (platform.scratch j))
    {d d' : Device} (h : SameSession platform i j bytes d d') :
    Ending.Alike (SameSession platform i j (bytes ++ G.payload))
      (handleSign platform settings G d) (handleSign platform settings G d') := by
  have hpayload := signBegin_payload (signBegin_more hp1 d)
  rw [handleSign_eq, handleSign_eq, signBegin_more hp1, signBegin_more hp1]
  let w : Work := ⟨d, OFFSET_CDATA, G.lc.toUInt16⟩
  let w' : Work := ⟨d', OFFSET_CDATA, G.lc.toUInt16⟩
  have hsame : SameSession platform i j bytes w.device w'.device := h
  have halike := signRest_alike settings (show w.workBuffer = w'.workBuffer from rfl)
    (show w.dataLength = w'.dataLength from rfl) hsame
    (by rw [hpayload]; exact hbegins) hread hflags
  rwa [hpayload] at halike

/-- Handlers that end alike for a weaker relation. -/
theorem Ending.Alike.imp {I J : Device → Device → Prop} {e e' : Ending} (h : Ending.Alike I e e')
    (hIJ : ∀ d d', I d d' → J d d') : Ending.Alike J e e' := by
  cases h with
  | error hsw => exact .error hsw
  | success hI => exact .success (hIJ _ _ hI)
  | review hreview => exact .review hreview
  | stuck => exact .stuck

/-- The handlers of messages and certificates on two devices. -/
theorem dispatch_stream_alike {platform : Platform} (settings : Settings) {G : ApduBuffer}
    (hcla : G.cla = CLA) (hins : G.ins ∈ signingInstructions) (hstream : G.ins ≠ INS_SIGN)
    {d d' : Device} (h : G.p1 ≠ P1_FIRST → SameStream d d') :
    Ending.Alike SameStream (dispatch platform settings G d) (dispatch platform settings G d') := by
  simp only [signingInstructions, List.mem_cons, List.not_mem_nil, or_false] at hins
  rcases hins with hi | hi | hi
  · exact absurd hi hstream
  · rw [dispatch_message platform settings hcla hi, dispatch_message platform settings hcla hi]
    exact handleSignPersonalMessage_alike platform h
  · rw [dispatch_certificate platform settings hcla hi,
      dispatch_certificate platform settings hcla hi]
    exact handleSignCertificate_alike platform h

/-- The bytes that some commands of `INS_SIGN` deliver. -/
def delivered (commands : List Command) : List UInt8 := commands.flatMap fun c => c.G.payload

/-- The same command under the same settings: the received data are the same, and what is
behind them in the buffer may differ. -/
def Command.Same (c c' : Command) : Prop :=
  c.settings = c'.settings ∧ c.G.Agree (5 + c.G.lc.toNat) c'.G

/-- The same commands are handled as one. -/
theorem Command.Same.step {c c' : Command} (h : c.Same c') (platform : Platform)
    (hsupplied : c.G.ins ∈ signingInstructions → c.G.p1 = P1_FIRST → c.G.Supplied) (d : Device) :
    platform.device.step c' d = handleApdu platform c.settings c.G d := by
  obtain ⟨hsettings, hagree⟩ := h
  show handleApdu platform c'.settings c'.G d = _
  rw [← hsettings, handleApdu_eq, handleApdu_eq,
    dispatch_agree platform c.settings hagree (le_refl _) hsupplied d]

/-- **`P1_FIRST` forgets what came before**: two devices that are given the same commands of one
signing instruction, from `P1_FIRST` on, get the same answers, and show the same when they come
to a review. For transactions this needs that the flags of the clauses are read back alike,
or that the first clause settles them. -/
theorem first_forgets {platform : Platform} {c c' : Command} {more more' : List Command}
    (hcla : c.G.cla = CLA) (hins : c.G.ins ∈ signingInstructions) (hp1 : c.G.p1 = P1_FIRST)
    (hsupplied : c.G.Supplied)
    (hmore : ∀ m ∈ more, m.G.cla = CLA ∧ m.G.ins = c.G.ins ∧ m.G.p1 = P1_MORE)
    (hsame : List.Forall₂ Command.Same (c :: more) (c' :: more')) (d d' : Device)
    (hread : c.G.ins = INS_SIGN → Readable (delivered (c :: more)))
    (hflags : c.G.ins = INS_SIGN → ∀ l : FieldsLayout, l.bytes <+: delivered (c :: more) →
      l.FlagSettled ∨
        (platform.scratch (d.session + 1)).SameFlags (platform.scratch (d'.session + 1))) :
    Option.Rel (SameEnd Answer.continues Answer.SameReview)
      (platform.device.converse Answer.continues (c :: more) d)
      (platform.device.converse Answer.continues (c' :: more') d') := by
  obtain ⟨hc, hrest⟩ := List.forall₂_cons.mp hsame
  have hmoreStep {m m' : Command} (hm : m.Same m') (hp1 : m.G.p1 = P1_MORE) (e : Device) :
      platform.device.step m' e = handleApdu platform m.settings m.G e :=
    hm.step platform (fun _ hfirst => absurd (hp1.symm.trans hfirst) (by decide)) e
  by_cases htx : c.G.ins = INS_SIGN
  · -- what is left of the transaction continues what was read
    refine System.converse_cons_related
      (I := SameSession platform (d.session + 1) (d'.session + 1) c.G.payload) ?_ fun t t' ht => ?_
    · rw [hc.step platform (fun _ _ => hsupplied)]
      apply Ending.Alike.handleApdu
      rw [dispatch_sign platform _ hcla htx, dispatch_sign platform _ hcla htx]
      exact handleSign_first_alike c.settings hp1 (List.prefix_append _ _) (hread htx) (hflags htx)
    · refine System.converse_related (I := fun ms e e' =>
        (∀ m ∈ ms, m.G.cla = CLA ∧ m.G.ins = c.G.ins ∧ m.G.p1 = P1_MORE) ∧
          ∃ bytes, bytes ++ delivered ms = delivered (c :: more) ∧
            SameSession platform (d.session + 1) (d'.session + 1) bytes e e')
        ?_ hrest ⟨hmore, _, rfl, ht⟩
      rintro m m' ms e e' hm ⟨hms, bytes, hbytes, he⟩
      obtain ⟨⟨hmcla, hmins, hmp1⟩, hms⟩ := List.forall_mem_cons.mp hms
      rw [hmoreStep hm hmp1]
      apply Ending.Alike.handleApdu
      rw [dispatch_sign platform _ hmcla (hmins.trans htx),
        dispatch_sign platform _ hmcla (hmins.trans htx)]
      have hall : (bytes ++ m.G.payload) ++ delivered ms = delivered (c :: more) := by
        rw [← hbytes, List.append_assoc]
        rfl
      refine (handleSign_more_alike m.settings hmp1 ⟨_, hall⟩ (hread htx) (hflags htx) he).imp ?_
      exact fun _ _ hnext => ⟨hms, _, hall, hnext⟩
  · refine System.converse_cons_related (I := SameStream) ?_ fun t t' ht => ?_
    · rw [hc.step platform (fun _ _ => hsupplied)]
      exact (dispatch_stream_alike c.settings hcla hins htx
        (fun hne => absurd hp1 hne)).handleApdu
    · refine System.converse_related (I := fun ms e e' =>
        (∀ m ∈ ms, m.G.cla = CLA ∧ m.G.ins = c.G.ins ∧ m.G.p1 = P1_MORE) ∧ SameStream e e')
        ?_ hrest ⟨hmore, ht⟩
      rintro m m' ms e e' hm ⟨hms, he⟩
      obtain ⟨⟨hmcla, hmins, hmp1⟩, hms⟩ := List.forall_mem_cons.mp hms
      rw [hmoreStep hm hmp1]
      exact ((dispatch_stream_alike m.settings hmcla (hmins ▸ hins) (hmins ▸ htx)
        (fun _ => he)).imp fun _ _ hnext => ⟨hms, hnext⟩).handleApdu

theorem first_forgets_tokenThenData :
    let c := signing P1_FIRST (onePath ++ tokenThenData.bytes.take 40) ⟨true, true⟩
    let more := [signing P1_MORE (tokenThenData.bytes.drop 40) ⟨true, true⟩]
    Option.Rel (SameEnd Answer.continues Answer.SameReview)
      ((Platform.recorded []).device.converse Answer.continues (c :: more) .boot)
      ((Platform.recorded []).device.converse Answer.continues (c :: more)
        { Device.boot with session := 3 }) := by
  have hdelivered : delivered
      [signing P1_FIRST (onePath ++ tokenThenData.bytes.take 40) ⟨true, true⟩,
      signing P1_MORE (tokenThenData.bytes.drop 40) ⟨true, true⟩] = tokenThenData.bytes := by
    decide +kernel
  refine first_forgets (by decide +kernel) (by decide +kernel) (by decide +kernel)
    ?_ ?_ ?_ _ _ ?_ ?_
  · exact ⟨by decide +kernel, fun _ h => absurd h (by decide +kernel),
      fun _ h => absurd h (by decide +kernel)⟩
  · decide +kernel
  · exact .cons ⟨rfl, rfl⟩ (.cons ⟨rfl, rfl⟩ .nil)
  · intro _
    rw [hdelivered]
    exact tokenThenData.readable (by decide)
  · exact fun _ _ _ => .inr fun _ _ => rfl

/-- A transaction that is accepted is not answered with a status. -/
theorem signDisplay_shows {platform : Platform} {shown : Shown} {a : Answer} {d : Device}
    (h : (signDisplay platform shown).answer? = some (a, d)) : a.showsTransaction = true := by
  unfold signDisplay at h
  split at h
  · cases h
  · split at h
    · cases h
      rfl
    · cases h

/-- The fields of the clauses of `secondWithData`. -/
def secondWithDataFields : FieldsLayout where
  toTxLayout := secondWithData.toTxLayout
  admitted := secondWithData.admitted
  fields := [⟨[], [], []⟩, ⟨[], [], longData.payload⟩]
  clauseItems := secondWithData.clauseItems
  clauses_payload := secondWithData.clauses_payload
  carry := by
    refine .cons ⟨rfl, Item.emptyString, Item.emptyString, Item.emptyString, [], ?_⟩
      (.cons ⟨rfl, Item.emptyString, Item.emptyString, longData, [], ?_⟩ .nil)
    · decide
    · decide +kernel

/-- The commands that bring them. -/
def secondWithDataCommands : List Command :=
  [signing P1_FIRST (onePath ++ secondWithData.bytes.take 100) ⟨false, true⟩,
    signing P1_MORE ((secondWithData.bytes.drop 100).take 120) ⟨false, true⟩,
    signing P1_MORE (secondWithData.bytes.drop 220) ⟨false, true⟩]

/-- The storage of the clause variables holds another flag in every second session. -/
def Platform.alternating : Platform :=
  { Platform.recorded [] with scratch := fun session => .stale (session % 2 = 0) }

/-- The first session shows the transaction, though data are not allowed. -/
theorem secondWithData_shown {last : List Answer × Device}
    (h : Platform.alternating.device.converse Answer.continues secondWithDataCommands .boot =
      some last) : ∃ a ∈ last.1, a.showsTransaction = true := by
  let c := signing P1_MORE (secondWithData.bytes.drop 220) ⟨false, true⟩
  have hseen : ((Platform.alternating.device.step
      (signing P1_FIRST (onePath ++ secondWithData.bytes.take 100) ⟨false, true⟩) .boot).bind
        fun next => (Platform.alternating.device.step
          (signing P1_MORE ((secondWithData.bytes.drop 100).take 120) ⟨false, true⟩) next.2).map
            fun next' => (next.1, next'.1,
              (signAccept .alternating c.settings c.G next'.2).isRight)) =
      some (.status [] HW_OK, .status [] HW_OK, true) := by
    decide +kernel
  obtain ⟨⟨a₁, d₁⟩, hfirst, hrest⟩ := Option.bind_eq_some_iff.mp hseen
  obtain ⟨⟨a₂, d₂⟩, hsecond, heq⟩ := Option.map_eq_some_iff.mp hrest
  simp only [Prod.mk.injEq] at heq
  obtain ⟨rfl, rfl, haccept⟩ := heq
  have hcontinues : Answer.continues (.status [] HW_OK) = true := by decide
  rw [secondWithDataCommands, System.converse_cons hfirst hcontinues,
    System.converse_cons hsecond hcontinues] at h
  obtain ⟨rest₁, hrest₁, rfl⟩ := Option.map_eq_some_iff.mp h
  obtain ⟨rest₂, hrest₂, rfl⟩ := Option.map_eq_some_iff.mp hrest₁
  have hlast := System.converse_singleton Platform.alternating.device Answer.continues c d₂
  rw [hrest₂, Option.map_some] at hlast
  obtain ⟨⟨a, d⟩, hstep, ha⟩ := Option.map_eq_some_iff.mp hlast.symm
  obtain ⟨d', hanswer, -⟩ := handleApdu_some hstep
  obtain ⟨shown, hshown⟩ := Sum.isRight_iff.mp haccept
  rw [dispatch_sign _ _ (by decide +kernel) (by decide +kernel), handleSign, hshown] at hanswer
  refine ⟨a, ?_, signDisplay_shows hanswer⟩
  show a ∈ Answer.status [] HW_OK :: Answer.status [] HW_OK :: rest₂.1
  rw [← ha]
  simp

/-- A transaction may be refused or shown, depending on the sessions before it. -/
theorem first_not_forgets : ¬∀ (platform : Platform)
    (steps steps' : List (Step Command Answer Device)) (d d' : Device),
    Run platform.device steps d → Run platform.device steps' d' →
    ∀ (c : Command) (more : List Command), c.G.cla = CLA → c.G.ins ∈ signingInstructions →
      c.G.p1 = P1_FIRST → c.G.Supplied →
      (∀ m ∈ more, m.G.cla = CLA ∧ m.G.ins = c.G.ins ∧ m.G.p1 = P1_MORE) →
      (c.G.ins = INS_SIGN → Readable (delivered (c :: more))) →
      Option.Rel (SameEnd Answer.continues Answer.SameReview)
        (platform.device.converse Answer.continues (c :: more) d)
        (platform.device.converse Answer.continues (c :: more) d') := by
  intro h
  -- the second session refuses the transaction
  have hreplay : (Platform.alternating.device.replay [signing P1_FIRST onePath ⟨false, true⟩]
      ([], .boot)).map (fun run => (Platform.alternating.device.converse Answer.continues
        secondWithDataCommands run.2).map Prod.fst) =
      some (some [.status [] HW_OK, .status [] HW_OK, .status [] HW_INCORRECT_DATA]) := by
    decide +kernel
  obtain ⟨⟨steps', d'⟩, hrun', hrefused⟩ := exists_replay hreplay
  have hread : delivered secondWithDataCommands = secondWithDataFields.bytes := by decide +kernel
  have hsame := h Platform.alternating [] steps' .boot d' .boot hrun' _
    secondWithDataCommands.tail (by decide +kernel) (by decide +kernel) (by decide +kernel)
    ⟨by decide +kernel, fun _ h => absurd h (by decide +kernel),
      fun _ h => absurd h (by decide +kernel)⟩ (by decide +kernel) fun _ =>
        hread ▸ secondWithDataFields.readable (by decide)
  have hsame : Option.Rel (SameEnd Answer.continues Answer.SameReview)
      (Platform.alternating.device.converse Answer.continues secondWithDataCommands .boot)
      (Platform.alternating.device.converse Answer.continues secondWithDataCommands d') := hsame
  -- and so does the first one, if they are alike, but it shows it
  generalize hlast : Platform.alternating.device.converse Answer.continues secondWithDataCommands
    .boot = last at hsame
  generalize Platform.alternating.device.converse Answer.continues secondWithDataCommands d' = last'
    at hsame hrefused
  cases hsame with
  | none => cases hrefused
  | @some last last' hsame =>
    obtain ⟨a, hmem, hshows⟩ := secondWithData_shown hlast
    rw [Option.map_some, Option.some.injEq] at hrefused
    rw [hsame.1, hrefused] at hmem
    simp only [List.mem_cons, List.not_mem_nil, or_false] at hmem
    rcases hmem with rfl | rfl | rfl
    · cases hshows
    · cases hshows
    · cases hshows

end AppVechain
