import AppVechain.Device.Accepted

/-!
# The strings of a transaction and their buffers

What is written for the display of an accepted transaction: the address, the
amount behind the ticker, and the fee. The formatting functions are not told how
large the buffers are. The address and the fee always fit, the amount does if it
has few enough digits.
-/

namespace AppVechain

open Rlp Streaming Reactive Numeral

/-- The characters of the ticker. -/
def Shown.tickerText (shown : Shown) : List UInt8 := shown.ticker.takeWhile (· ≠ 0)

/-- A buffer with a NUL holds the characters in front of it. -/
theorem holdsString_takeWhile {buffer : List UInt8} (h : (0 : UInt8) ∈ buffer) :
    HoldsString buffer (buffer.takeWhile (· ≠ 0)) := by
  induction buffer with
  | nil => cases h
  | cons b rest ih =>
    by_cases hb : b = 0
    · subst hb
      exact ⟨rest, rfl, List.not_mem_nil⟩
    · obtain ⟨tail, htail, hnul⟩ := ih ((List.mem_cons.mp h).resolve_left (Ne.symm hb))
      have htake : (b :: rest).takeWhile (· ≠ 0) = b :: rest.takeWhile (· ≠ 0) := by
        simp [hb]
      rw [htake]
      refine ⟨tail, congrArg (b :: ·) htail, fun hmem => ?_⟩
      rcases List.mem_cons.mp hmem with hzero | hmem
      · exact hb hzero.symm
      · exact hnul hmem

/-- The tickers of the tokens are strings of at most five characters, and all have 18 decimals. -/
theorem TOKENS_tickers : ∀ token ∈ TOKENS, (0 : UInt8) ∈ token.ticker ∧ token.decimals = 18 ∧
    (token.ticker.takeWhile (· ≠ 0)).length ≤ 5 := by
  decide +kernel

/-- The token of a clause is one of `TOKENS`. -/
theorem ClauseContent.token?_mem {c : ClauseContent} {token : TokenDefinition}
    (h : c.token? = some token) : token ∈ TOKENS := by
  unfold ClauseContent.token? at h
  split at h
  · exact List.mem_of_find?_eq_some h
  · cases h

/-- The ticker and the decimals that are shown. -/
theorem recognizeToken_ticker (d : Device) :
    HoldsString (recognizeToken d).ticker (recognizeToken d).tickerText ∧
      (recognizeToken d).decimals = 18 ∧ (recognizeToken d).tickerText.length ≤ 5 := by
  unfold Shown.tickerText recognizeToken
  cases htoken : if d.dataPresent then d.clauseContent.token? else none with
  | none =>
    have hlength : (TICKER_VET.takeWhile (· ≠ 0)).length ≤ 5 := by decide
    exact ⟨TICKER_VET_holds, rfl, hlength⟩
  | some token =>
    have hsome : d.clauseContent.token? = some token := by
      split at htoken
      · exact htoken
      · cases htoken
    obtain ⟨hnul, hdecimals, hlength⟩ := TOKENS_tickers token (ClauseContent.token?_mem hsome)
    exact ⟨holdsString_takeWhile hnul, hdecimals, hlength⟩

/-- A token is looked up without touching the fee, and its amount has at most 32 bytes. -/
theorem recognizeToken_bounded {d : Device} (h : d.tx.env.view.Bounded) :
    (recognizeToken d).device.tx.env.content = d.tx.env.content ∧
      (recognizeToken d).device.clauseContent.value.length ≤ 32 := by
  unfold recognizeToken
  cases if d.dataPresent then d.clauseContent.token? else none with
  | none => exact ⟨rfl, h.value⟩
  | some token => exact ⟨rfl, le_refl 32⟩

variable {platform : Platform} {H : List UInt8 → List UInt8 → Prop}

/-- What is written for a transaction within its sizes, when its token was looked up. -/
theorem recognizeToken_strings (platform : Platform) {d : Device} (h : d.tx.env.view.Bounded) :
    ∃ strings, (recognizeToken d).strings platform = some strings ∧
      strings.fullAddress = addressToDisplayString platform.keccak256
        (recognizeToken d).device.clauseContent.toAddress ∧
      strings.fullAmount = (recognizeToken d).tickerText ++
        decimalText 18 (recognizeToken d).device.clauseContent.value.number ++ [0] ∧
      strings.maxFee = [86, 84, 72, 79, 32] ++ decimalText 18 (maxFee
        d.tx.env.content.gaspricecoef.number d.tx.env.content.gas.number) ++ [0] := by
  obtain ⟨hcontent, hvalue⟩ := recognizeToken_bounded h
  obtain ⟨hticker, hdecimals, -⟩ := recognizeToken_ticker d
  have hamount := sendAmountToDisplayString_eq hvalue hticker
    (show (recognizeToken d).decimals.toNat ≤ 97 by rw [hdecimals]; decide)
  obtain ⟨ctx, -, hfee⟩ := maxFeeToDisplayString_eq h.gaspricecoef h.gas
  refine ⟨⟨_, (recognizeToken d).tickerText ++ decimalText (recognizeToken d).decimals.toNat
    (recognizeToken d).device.clauseContent.value.number ++ [0], _, ctx⟩, ?_, rfl, ?_, rfl⟩
  · unfold Shown.strings
    rw [hamount, hcontent]
    show Option.bind (maxFeeToDisplayString d.tx.env.view.gaspricecoef d.tx.env.view.gas) _ = _
    rw [hfee]
    rfl
  · rw [hdecimals]
    rfl

/-- **What is written** for an accepted transaction. -/
theorem Accepted.strings {bytes : List UInt8} {shown : Shown} {parsed : Device}
    (h : Accepted platform H bytes shown parsed) :
    ∃ strings, shown.strings platform = some strings ∧
      strings.fullAddress =
        addressToDisplayString platform.keccak256 shown.device.clauseContent.toAddress ∧
      strings.fullAmount = shown.tickerText ++
        decimalText 18 shown.device.clauseContent.value.number ++ [0] ∧
      strings.maxFee = [86, 84, 72, 79, 32] ++ decimalText 18 (maxFee
        parsed.tx.env.content.gaspricecoef.number parsed.tx.env.content.gas.number) ++ [0] := by
  have hbounded : (parsed.checked platform).tx.env.view.Bounded := h.bounded
  rw [h.shown]
  exact recognizeToken_strings platform hbounded

/-- The room that is left for the amount behind its ticker. -/
def Shown.amountRoom (shown : Shown) : ℕ := 49 - shown.tickerText.length

/-- The lengths of what is written. -/
theorem Accepted.lengths {bytes : List UInt8} {shown : Shown} {parsed : Device}
    (h : Accepted platform H bytes shown parsed) :
    ∃ strings, shown.strings platform = some strings ∧ strings.fullAddress.length = 43 ∧
      strings.maxFee.length ≤ 40 ∧ (strings.fullAmount.length ≤ 50 ↔
        FractionFits 10 18 shown.amountRoom shown.device.clauseContent.value.number) := by
  obtain ⟨strings, hstrings, haddress, hamount, hfee⟩ := h.strings
  obtain ⟨-, -, hticker⟩ := recognizeToken_ticker (parsed.checked platform)
  rw [← h.shown] at hticker
  have hcoef : parsed.tx.env.content.gaspricecoef.number < 256 :=
    TxInt256.number_lt h.bounded.gaspricecoef
  have hgas : parsed.tx.env.content.gas.number < 2 ^ 64 := TxInt256.number_lt h.bounded.gas
  have hfeeLength := maxFee_text_length hcoef hgas
  refine ⟨strings, hstrings, ?_, ?_, ?_⟩
  · rw [haddress]
    exact addressToDisplayString_length _ _
  · rw [hfee, List.length_append, List.length_append]
    simp only [List.length_cons, List.length_nil]
    omega
  · have hroom : 0 < shown.amountRoom := by
      unfold Shown.amountRoom
      omega
    rw [← fractionLength_le_iff (by omega) hroom, ← decimalText_length, hamount, List.length_append,
      List.length_append, List.length_singleton, Shown.amountRoom]
    omega

/-- A transaction that is accepted in a run. -/
theorem accepted_of_run {steps : List (Step Command Answer Device)} {d : Device}
    (h : Run platform.device steps d) {c : Command} {shown : Shown}
    (haccept : signAccept platform c.settings c.G d = .inr shown) :
    ∃ bytes parsed, Accepted platform (fun _ _ => True) bytes shown parsed := by
  obtain ⟨parsed, -, haccepted⟩ := accepted keptByHashing_true trivial haccept fun _ =>
    session_of_run keptByHashing_true trivial h fun _ _ _ _ _ => trivial
  exact ⟨_, parsed, haccepted⟩

/-- A transaction whose strings fit is shown. -/
theorem Accepted.review {bytes : List UInt8} {shown : Shown} {parsed : Device}
    (h : Accepted platform H bytes shown parsed)
    (hfits : FractionFits 10 18 shown.amountRoom shown.device.clauseContent.value.number) :
    ∃ fee fullAddress fullAmount maxFee, signDisplay platform shown =
      .review (.transaction shown.device.dataPresent shown.device.multipleClauses)
        (shown.display fee fullAddress fullAmount maxFee) := by
  obtain ⟨strings, hstrings, haddress, hfee, hamount⟩ := h.lengths
  obtain ⟨fullAddress, hfullAddress⟩ :
      ∃ text, CharArray.write? 43 strings.fullAddress = some text :=
    ⟨_, dif_pos haddress.le⟩
  obtain ⟨fullAmount, hfullAmount⟩ : ∃ text, CharArray.write? 50 strings.fullAmount = some text :=
    ⟨_, dif_pos (hamount.mpr hfits)⟩
  obtain ⟨maxFee, hmaxFee⟩ : ∃ text, CharArray.write? 60 strings.maxFee = some text :=
    ⟨_, dif_pos (hfee.trans (by omega))⟩
  refine ⟨strings.feeComputationContext, fullAddress, fullAmount, maxFee, ?_⟩
  unfold signDisplay
  rw [hstrings]
  simp only [hfullAddress, hfullAmount, hmaxFee]
  rfl

/-- What is seen of a transaction that is accepted. -/
theorem exists_shown {T : Type} {see : Shown → T} {seen : T} {settings : Settings} {G : ApduBuffer}
    {d : Device} (h : (signAccept platform settings G d).getRight?.map see = some seen) :
    ∃ shown, signAccept platform settings G d = .inr shown ∧ see shown = seen := by
  obtain ⟨shown, hshown, hsee⟩ := Option.map_eq_some_iff.mp h
  exact ⟨shown, Sum.getRight?_eq_some_iff.mp hshown, hsee⟩

/-- The answer to the command of a transaction that is shown. -/
theorem step_of_review {c : Command} (hsign : c.isSign) {d d' : Device}
    {shown : Shown} {flow : Flow}
    (haccept : signAccept platform c.settings c.G d = .inr shown)
    (hreview : signDisplay platform shown = .review flow d') :
    platform.device.step c d = some (.review flow, d') := by
  show handleApdu platform c.settings c.G d = _
  rw [handleApdu_eq, dispatch_sign platform c.settings hsign.1 hsign.2, handleSign, haccept]
  show (signDisplay platform shown).answer?.map _ = _
  rw [hreview]
  rfl

/-- A transaction that is accepted in a run is shown, when its amount fits. -/
theorem step_of_accept {steps : List (Step Command Answer Device)} {d : Device}
    (h : Run platform.device steps d) {c : Command} (hsign : c.isSign) {shown : Shown}
    (haccept : signAccept platform c.settings c.G d = .inr shown)
    (hfits : FractionFits 10 18 shown.amountRoom shown.device.clauseContent.value.number) :
    ∃ fee fullAddress fullAmount maxFee, platform.device.step c d =
      some (.review (.transaction shown.device.dataPresent shown.device.multipleClauses),
        shown.display fee fullAddress fullAmount maxFee) := by
  obtain ⟨bytes, parsed, haccepted⟩ := accepted_of_run h haccept
  obtain ⟨fee, fullAddress, fullAmount, maxFee, hreview⟩ := haccepted.review hfits
  exact ⟨fee, fullAddress, fullAmount, maxFee, step_of_review hsign haccept hreview⟩

/-- **The strings fit their buffers** if and only if the amount fits: for an accepted
transaction, in every run, the address and the fee always fit, and the amount fits if and only
if it is a multiple of the unit with few enough digits, or ends after few enough decimals. -/
theorem strings_fit_iff {steps : List (Step Command Answer Device)} {d : Device}
    (h : Run platform.device steps d) {c : Command} {shown : Shown}
    (haccept : signAccept platform c.settings c.G d = .inr shown) :
    ∃ strings, shown.strings platform = some strings ∧
      (strings.fullAddress.length ≤ 43 ∧ strings.fullAmount.length ≤ 50 ∧
          strings.maxFee.length ≤ 60 ↔
        FractionFits 10 18 shown.amountRoom shown.device.clauseContent.value.number) := by
  obtain ⟨bytes, parsed, haccepted⟩ := accepted_of_run h haccept
  obtain ⟨strings, hstrings, haddress, hfee, hamount⟩ := haccepted.lengths
  refine ⟨strings, hstrings, ?_⟩
  rw [← hamount]
  constructor
  · exact fun hfits => hfits.2.1
  · exact fun hfits => ⟨haddress.le, hfits, by omega⟩

/-- A clause that transfers the largest value, in a transaction. -/
def largestValueTx : List UInt8 :=
  [0xed, 0x80, 0x80, 0x80, 0xe4, 0xe3, 0x80, 0xa0] ++ List.replicate 32 0xff ++
    [0x80, 0x80, 0x80, 0x80, 0x80, 0xc0]

/-- The transaction in one command. -/
def largestValue : Command := signing P1_FIRST (onePath ++ largestValueTx) ⟨false, false⟩

/-- It is accepted by a device that was just started. -/
theorem largestValue_accepted : ∃ shown,
    signAccept (.recorded []) largestValue.settings largestValue.G .boot = .inr shown ∧
      shown.tickerText = [86, 69, 84, 32] ∧
      shown.device.clauseContent.value.number = 2 ^ 256 - 1 := by
  have hseen : (signAccept (.recorded []) largestValue.settings largestValue.G .boot).getRight?.map
      (fun shown => (shown.tickerText, shown.device.clauseContent.value.number)) =
      some ([86, 69, 84, 32], 2 ^ 256 - 1) := by
    decide +kernel
  obtain ⟨shown, haccept, hshown⟩ := exists_shown hseen
  rw [Prod.mk.injEq] at hshown
  exact ⟨shown, haccept, hshown⟩

theorem strings_fit_iff_largestValue : ∃ (shown : Shown) (strings : TxStrings),
    shown.strings (.recorded []) = some strings ∧
      (strings.fullAddress.length ≤ 43 ∧ strings.fullAmount.length ≤ 50 ∧
          strings.maxFee.length ≤ 60 ↔
        FractionFits 10 18 shown.amountRoom shown.device.clauseContent.value.number) := by
  obtain ⟨shown, haccept, -⟩ := largestValue_accepted
  obtain ⟨strings, h⟩ := strings_fit_iff .boot haccept
  exact ⟨shown, strings, h⟩

/-- The largest value needs 84 bytes. -/
theorem strings_not_fit : ¬∀ (platform : Platform) (steps : List (Step Command Answer Device))
    (d : Device), Run platform.device steps d → ∀ (c : Command) (shown : Shown),
    signAccept platform c.settings c.G d = .inr shown →
    ∃ strings, shown.strings platform = some strings ∧ strings.fullAddress.length ≤ 43 ∧
      strings.fullAmount.length ≤ 50 ∧ strings.maxFee.length ≤ 60 := by
  intro h
  obtain ⟨shown, haccept, hticker, hnumber⟩ := largestValue_accepted
  obtain ⟨strings, hstrings, -, hfits, -⟩ := h _ _ _ .boot largestValue shown haccept
  obtain ⟨bytes, parsed, haccepted⟩ := accepted_of_run .boot haccept
  obtain ⟨strings', hstrings', -, -, hamount⟩ := haccepted.lengths
  rw [hstrings] at hstrings'
  cases hstrings'
  have hlarge : 10 ^ 63 ≤ shown.device.clauseContent.value.number := by
    rw [hnumber]
    norm_num
  have hroom : shown.amountRoom = 45 := by
    rw [Shown.amountRoom, hticker]
    rfl
  rw [hamount, hroom] at hfits
  rcases hfits with ⟨-, hlt⟩ | ⟨j, hj, -, -, -, hlt⟩
  · exact absurd hlt (not_lt.mpr hlarge)
  · refine absurd hlt (not_lt.mpr (le_trans ?_ hlarge))
    exact Nat.pow_le_pow_right (by omega) (by omega)

end AppVechain
