import AppVechain.Display.Reading
import AppVechain.Uint256.Bytes
import AppVechain.Uint256.Multiplication
import AppVechain.Ustream.Clause

/-!
# Amounts and fees

`common/vetDisplay.c`: amounts are printed with a ticker before them and a
decimal point in them. The functions do not know the size of the buffer they
print to; they return all the bytes they write there.
-/

namespace AppVechain

open Numeral

/-- The fixed values of the fee, and the tickers. -/
def BASE_GAS_PRICE : List UInt8 := [0x09, 0x18, 0x4e, 0x72, 0xa0, 0x00]
def MAX_GAS_COEF : List UInt8 := [0xff]
def TICKER_VTHO : List UInt8 := cString "VTHO "
def TICKER_VET : List UInt8 := cString "VET "
def DECIMALS_VET : UInt8 := 18
def DECIMALS_VTHO : UInt8 := 18

/-- `convertUint256BE` -/
def convertUint256BE (data : List UInt8) (length : ℕ) : Option Uint256 :=
  if length ≤ 32 ∧ length ≤ data.length then
    some (readu256BE (List.replicate (32 - length) 0 ++ data.take length))
  else none

/-- `amountToDisplayString` -/
def amountToDisplayString (amount256 : Uint256) (ticker : List UInt8) (decimals : UInt8) :
    Option (List UInt8) := do
  let decimalAmount ← tostring256 amount256 10 100
  let decimalLength ← getStringLength decimalAmount.2
  let adjustedAmount := adjustDecimals decimalAmount.2 decimalLength 100 decimals
  let tickerLength ← getStringLength ticker
  let adjustedAmountLength ← getStringLength adjustedAmount.2
  some (ticker.take tickerLength ++ adjustedAmount.2.take adjustedAmountLength ++ [0])

/-- `sendAmountToDisplayString` -/
def sendAmountToDisplayString (sendAmount : TxInt256) (ticker : List UInt8) (decimals : UInt8) :
    Option (List UInt8) := do
  let sendAmount256 ← convertUint256BE sendAmount.value.toList sendAmount.length
  amountToDisplayString sendAmount256 ticker decimals

/-- `feeComputationContext_t` -/
structure FeeComputationContext where
  baseGasPrice : Uint256
  maxGasCoef : Uint256
  gasPriceCoef : Uint256
  gas : Uint256
  maxFeeBonus : Uint256
  tmp : Uint256
  maxFee : Uint256
  deriving DecidableEq

/-- The computation of `maxFeeToDisplayString`. The remainder of the division is
stored over `gasPriceCoef`. -/
def computeMaxFee (gaspricecoef gas : TxInt256) : Option FeeComputationContext := do
  let maxGasCoef ← convertUint256BE MAX_GAS_COEF MAX_GAS_COEF.length
  let baseGasPrice ← convertUint256BE BASE_GAS_PRICE BASE_GAS_PRICE.length
  let gasPriceCoef ← convertUint256BE gaspricecoef.value.toList gaspricecoef.length
  let gas ← convertUint256BE gas.value.toList gas.length
  let tmp := mul256 gasPriceCoef baseGasPrice
  let (maxFeeBonus, gasPriceCoef) ← divmod256 tmp maxGasCoef
  let tmp := add256 maxFeeBonus baseGasPrice
  let maxFee := mul256 tmp gas
  some { baseGasPrice, maxGasCoef, gasPriceCoef, gas, maxFeeBonus, tmp, maxFee }

/-- `maxFeeToDisplayString`, with the context it leaves behind. -/
def maxFeeToDisplayString (gaspricecoef gas : TxInt256) :
    Option (FeeComputationContext × List UInt8) := do
  let feeComputationContext ← computeMaxFee gaspricecoef gas
  let displayString ← amountToDisplayString feeComputationContext.maxFee TICKER_VTHO DECIMALS_VTHO
  some (feeComputationContext, displayString)

/-- The number a parsed integer stands for. -/
def TxInt256.number (n : TxInt256) : ℕ := bigEndian (n.value.toList.take n.length)

/-- `convertUint256BE` reads the number of at most 32 bytes. -/
theorem convertUint256BE_eq (data : List UInt8) {length : ℕ} (h : length ≤ 32)
    (hdata : length ≤ data.length) :
    ∃ n, convertUint256BE data length = some n ∧ n.toNat = bigEndian (data.take length) := by
  refine ⟨_, if_pos ⟨h, hdata⟩, ?_⟩
  have hlength : (List.replicate (32 - length) 0 ++ data.take length).length = 32 := by
    rw [List.length_append, List.length_replicate, List.length_take, Nat.min_eq_left hdata]
    omega
  rw [readu256BE_toNat hlength.ge, List.take_of_length_le hlength.le, bigEndian_replicate_zero]

theorem two_pow_256_lt : 2 ^ 256 < 10 ^ 78 := by norm_num

/-- A number of 256 bits has at most 78 decimal digits. -/
theorem numeral_length_le (n : Uint256) : (numeral 10 n.toNat).length ≤ 78 :=
  (numeral_length_le_iff (by omega) (by omega)).mpr (n.toNat_lt.trans two_pow_256_lt)

/-- **`amountToDisplayString`** prints the ticker and the decimal fraction. -/
theorem amountToDisplayString_eq (n : Uint256) {ticker text : List UInt8} {decimals : UInt8}
    (hticker : HoldsString ticker text) (hdecimals : decimals.toNat ≤ 97) :
    amountToDisplayString n ticker decimals =
      some (text ++ decimalText decimals.toNat n.toNat ++ [0]) := by
  have hlength := numeral_length_le n
  have hdigits : HoldsString (digitsText (numeral 10 n.toNat) ++ [0])
      (digitsText (numeral 10 n.toNat)) :=
    ⟨[], rfl, nul_notMem_digitsText fun x hx => numeral_lt_base (by omega) hx⟩
  have htostring : tostring256 n 10 100 = some (true, digitsText (numeral 10 n.toNat) ++ [0]) :=
    tostring256_eq n 10 100 (by decide) (by decide) (hlength.trans (by decide))
  have hsize : (digitsText (numeral 10 n.toNat)).length = (numeral 10 n.toNat).length :=
    List.length_map _
  obtain ⟨out, hout, hholds⟩ :=
    adjustDecimals_holds (show (numeral 10 n.toNat).length + 2 ≤ 100 by omega)
      (show decimals.toNat + 3 ≤ 100 by omega) (by omega)
  simp only [amountToDisplayString, Option.bind_eq_bind, Option.bind_eq_some_iff]
  refine ⟨_, htostring, _, hdigits.getStringLength, _, hticker.getStringLength,
    (decimalText decimals.toNat n.toNat).length, ?_, ?_⟩
  · rw [hsize, hout]
    exact hholds.getStringLength
  · rw [hsize, hout, hticker.take, hholds.take]

/-- The text of a fraction is as long as its digits and its point. -/
theorem decimalText_length (d n : ℕ) : (decimalText d n).length = fractionLength 10 d n := by
  rw [decimalText, fractionLength, List.length_append, List.length_map]
  split <;> simp

/-- **Different amounts have different texts.** -/
theorem decimalText_injective {d n m : ℕ} (h : decimalText d n = decimalText d m) : n = m := by
  have hread : (n : ℚ) / 10 ^ d = m / 10 ^ d := by
    apply Option.some.inj
    rw [← readDecimal_decimalText, ← readDecimal_decimalText, h]
  have hpow : (10 : ℚ) ^ d ≠ 0 := by positivity
  exact_mod_cast (div_left_inj' hpow).mp hread

/-- The fee of a transaction: `10 ^ 13` for each unit of gas, and the share of it
that the coefficient adds. -/
def maxFee (coef gas : ℕ) : ℕ := (10 ^ 13 * coef / 255 + 10 ^ 13) * gas

/-- A parsed integer of at most `k` bytes. -/
theorem TxInt256.number_lt {n : TxInt256} {k : ℕ} (hk : n.length ≤ k) : n.number < 256 ^ k := by
  refine (bigEndian_lt _).trans_le (Nat.pow_le_pow_right (by omega) ?_)
  rw [List.length_take]
  omega

/-- `convertUint256BE` reads a parsed integer. -/
theorem TxInt256.convert {n : TxInt256} (h : n.length ≤ 32) :
    ∃ m, convertUint256BE n.value.toList n.length = some m ∧ m.toNat = n.number :=
  convertUint256BE_eq _ h (by simpa using h)

/-- The fee is computed without wrapping around: the product of the coefficient and the
base price, the quotient, the sum and the product with the gas are exact. -/
structure FeeComputationContext.Exact (ctx : FeeComputationContext) (gaspricecoef gas : TxInt256) :
    Prop where
  product : ∃ coef, convertUint256BE gaspricecoef.value.toList gaspricecoef.length = some coef ∧
    (mul256 coef ctx.baseGasPrice).toNat = 10 ^ 13 * gaspricecoef.number
  maxFeeBonus : ctx.maxFeeBonus.toNat = 10 ^ 13 * gaspricecoef.number / 255
  tmp : ctx.tmp.toNat = 10 ^ 13 * gaspricecoef.number / 255 + 10 ^ 13
  maxFee : ctx.maxFee.toNat = AppVechain.maxFee gaspricecoef.number gas.number
  gas : ctx.gas.toNat = gas.number

/-- The arithmetic of the fee does not wrap. -/
theorem fee_toNat {coef base maxCoef gas : Uint256} (hcoef : coef.toNat < 256)
    (hbase : base.toNat = 10 ^ 13) (hmax : maxCoef.toNat = 255) (hgas : gas.toNat < 2 ^ 64) :
    (mul256 coef base).toNat = 10 ^ 13 * coef.toNat ∧
      ∃ bonus rest, divmod256 (mul256 coef base) maxCoef = some (bonus, rest) ∧
        bonus.toNat = 10 ^ 13 * coef.toNat / 255 ∧
        (add256 bonus base).toNat = 10 ^ 13 * coef.toNat / 255 + 10 ^ 13 ∧
        (mul256 (add256 bonus base) gas).toNat = maxFee coef.toNat gas.toNat := by
  have hproduct : (mul256 coef base).toNat = 10 ^ 13 * coef.toNat := by
    rw [mul256_word (by omega) (by omega), hbase, Nat.mul_comm]
  obtain ⟨bonus, rest, hdivmod, hbonus, -⟩ := divmod256_eq (mul256 coef base) (r := maxCoef)
    (by omega)
  rw [hproduct, hmax] at hbonus
  have hsum : (add256 bonus base).toNat = 10 ^ 13 * coef.toNat / 255 + 10 ^ 13 := by
    rw [add256_toNat, hbonus, hbase]
    exact Nat.mod_eq_of_lt (by omega)
  exact ⟨hproduct, bonus, rest, hdivmod, hbonus, hsum,
    by rw [mul256_word (by omega) hgas, hsum, maxFee]⟩

/-- **The fee is computed exactly** for a coefficient of one byte and gas of eight. -/
theorem computeMaxFee_eq {gaspricecoef gas : TxInt256} (hcoef : gaspricecoef.length ≤ 1)
    (hgas : gas.length ≤ 8) :
    ∃ ctx, computeMaxFee gaspricecoef gas = some ctx ∧ ctx.Exact gaspricecoef gas := by
  have hcoef256 : gaspricecoef.number < 256 ^ 1 := TxInt256.number_lt hcoef
  have hgas64 : gas.number < 256 ^ 8 := TxInt256.number_lt hgas
  obtain ⟨maxGasCoef, hmaxGasCoef, hmax⟩ :=
    convertUint256BE_eq MAX_GAS_COEF (show 1 ≤ 32 by decide) (by decide)
  obtain ⟨base, hbase, hbaseNat⟩ :=
    convertUint256BE_eq BASE_GAS_PRICE (show 6 ≤ 32 by decide) (by decide)
  obtain ⟨coef, hcoefSome, hcoefNat⟩ := TxInt256.convert (n := gaspricecoef) (by omega)
  obtain ⟨gasNumber, hgasSome, hgasNat⟩ := TxInt256.convert (n := gas) (by omega)
  obtain ⟨hproduct, bonus, rest, hdivmod, hbonus, hsum, hfee⟩ :=
    fee_toNat (show coef.toNat < 256 by omega) (hbaseNat.trans (by decide))
      (hmax.trans (by decide)) (show gasNumber.toNat < 2 ^ 64 by omega)
  rw [hcoefNat] at hproduct hbonus hsum
  rw [hcoefNat, hgasNat] at hfee
  refine ⟨⟨base, maxGasCoef, rest, gasNumber, bonus, add256 bonus base,
    mul256 (add256 bonus base) gasNumber⟩, ?_, ⟨coef, hcoefSome, hproduct⟩, hbonus, hsum, hfee,
    hgasNat⟩
  rw [computeMaxFee, show MAX_GAS_COEF.length = 1 from rfl, show BASE_GAS_PRICE.length = 6 from rfl,
    hmaxGasCoef, hbase, hcoefSome, hgasSome]
  simp only [Option.bind_eq_bind, Option.bind_some, hdivmod]

/-- The most significant limb of the base price, which lies over the parser. -/
theorem computeMaxFee_baseGasPrice {gaspricecoef gas : TxInt256} {ctx : FeeComputationContext}
    (h : computeMaxFee gaspricecoef gas = some ctx) : ctx.baseGasPrice.upper.upper = 0 := by
  have hbase : (convertUint256BE BASE_GAS_PRICE BASE_GAS_PRICE.length).map
      (fun base => base.upper.upper) = some 0 := by decide
  unfold computeMaxFee at h
  obtain ⟨maxGasCoef, -, h⟩ := Option.bind_eq_some_iff.mp h
  obtain ⟨base, hsome, h⟩ := Option.bind_eq_some_iff.mp h
  obtain ⟨coef, -, h⟩ := Option.bind_eq_some_iff.mp h
  obtain ⟨gas, -, h⟩ := Option.bind_eq_some_iff.mp h
  obtain ⟨quotient, -, h⟩ := Option.bind_eq_some_iff.mp h
  rw [Option.some.injEq] at h
  subst h
  rw [hsome, Option.map_some, Option.some.injEq] at hbase
  exact hbase

/-- The text of the tickers of the application's own currencies. -/
theorem TICKER_VET_holds : HoldsString TICKER_VET [86, 69, 84, 32] := ⟨[], by decide, by decide⟩
theorem TICKER_VTHO_holds : HoldsString TICKER_VTHO [86, 84, 72, 79, 32] :=
  ⟨[], by decide, by decide⟩

/-- **`sendAmountToDisplayString`** prints an amount of at most 32 bytes. -/
theorem sendAmountToDisplayString_eq {sendAmount : TxInt256} {ticker text : List UInt8}
    {decimals : UInt8} (hlength : sendAmount.length ≤ 32) (hticker : HoldsString ticker text)
    (hdecimals : decimals.toNat ≤ 97) :
    sendAmountToDisplayString sendAmount ticker decimals =
      some (text ++ decimalText decimals.toNat sendAmount.number ++ [0]) := by
  obtain ⟨n, hn, hnumber⟩ := sendAmount.convert hlength
  rw [sendAmountToDisplayString, hn, Option.bind_eq_bind, Option.bind_some,
    amountToDisplayString_eq n hticker hdecimals, hnumber]

/-- The largest coefficient, and the gas of a plain transfer. -/
def largestCoef : TxInt256 := ⟨writeBytes TxInt256.zero.value 0 [0xff], 1⟩
def transferGas : TxInt256 := ⟨writeBytes TxInt256.zero.value 0 [0x52, 0x08], 2⟩

/-- **Amounts are displayed without loss.** The ticker is followed by the canonical text
of the amount, and different amounts are displayed differently. -/
theorem sendAmountToDisplayString_lossless {sendAmount : TxInt256} {ticker text : List UInt8}
    {decimals : UInt8} (hlength : sendAmount.length ≤ 32) (hticker : HoldsString ticker text)
    (hdecimals : decimals.toNat ≤ 97) :
    ∃ number, sendAmountToDisplayString sendAmount ticker decimals = some (text ++ number ++ [0]) ∧
      CanonicalDecimal number ∧
      readDecimal number = some ((sendAmount.number : ℚ) / 10 ^ decimals.toNat) ∧
      (readDecimal number).map (· * 10 ^ decimals.toNat) = some (sendAmount.number : ℚ) ∧
      ∀ other : TxInt256, other.length ≤ 32 → other.number ≠ sendAmount.number →
        sendAmountToDisplayString other ticker decimals ≠
          sendAmountToDisplayString sendAmount ticker decimals := by
  have hprinted {amount : TxInt256} (hamount : amount.length ≤ 32) :=
    sendAmountToDisplayString_eq hamount hticker hdecimals
  have hread := readDecimal_decimalText decimals.toNat sendAmount.number
  refine ⟨_, hprinted hlength, canonicalDecimal_decimalText _ _, hread, ?_, ?_⟩
  · rw [hread, Option.map_some, div_mul_cancel₀ _ (by positivity)]
  · intro other hother hne hsame
    rw [hprinted hother, hprinted hlength, Option.some.injEq, List.append_left_inj,
      List.append_right_inj] at hsame
    exact hne (decimalText_injective hsame)

theorem sendAmountToDisplayString_lossless_transfer :
    ∃ number, sendAmountToDisplayString transferGas TICKER_VET 18 =
        some ([86, 69, 84, 32] ++ number ++ [0]) ∧
      CanonicalDecimal number ∧
      readDecimal number = some ((transferGas.number : ℚ) / 10 ^ (18 : UInt8).toNat) ∧
      (readDecimal number).map (· * 10 ^ (18 : UInt8).toNat) = some (transferGas.number : ℚ) ∧
      ∀ other : TxInt256, other.length ≤ 32 → other.number ≠ transferGas.number →
        sendAmountToDisplayString other TICKER_VET 18 ≠
          sendAmountToDisplayString transferGas TICKER_VET 18 :=
  sendAmountToDisplayString_lossless (by decide) TICKER_VET_holds (by decide)

/-- `maxFeeToDisplayString` prints the fee. -/
theorem maxFeeToDisplayString_eq {gaspricecoef gas : TxInt256} (hcoef : gaspricecoef.length ≤ 1)
    (hgas : gas.length ≤ 8) :
    ∃ ctx, computeMaxFee gaspricecoef gas = some ctx ∧
      maxFeeToDisplayString gaspricecoef gas = some (ctx, [86, 84, 72, 79, 32] ++
        decimalText 18 (maxFee gaspricecoef.number gas.number) ++ [0]) := by
  obtain ⟨ctx, hctx, hexact⟩ := computeMaxFee_eq hcoef hgas
  refine ⟨ctx, hctx, ?_⟩
  rw [maxFeeToDisplayString, hctx, Option.bind_eq_bind, Option.bind_some,
    amountToDisplayString_eq ctx.maxFee TICKER_VTHO_holds (by decide), hexact.maxFee]
  rfl

/-- **`maxFeeToDisplayString`** prints the fee, and computes it exactly. -/
theorem maxFeeToDisplayString_exact {gaspricecoef gas : TxInt256}
    (hcoef : gaspricecoef.length ≤ 1) (hgas : gas.length ≤ 8) :
    ∃ ctx, maxFeeToDisplayString gaspricecoef gas = some (ctx, [86, 84, 72, 79, 32] ++
        decimalText 18 ((10 ^ 13 + 10 ^ 13 * gaspricecoef.number / 255) * gas.number) ++ [0]) ∧
      ctx.Exact gaspricecoef gas := by
  obtain ⟨ctx, hctx, hprinted⟩ := maxFeeToDisplayString_eq hcoef hgas
  obtain ⟨ctx', hctx', hexact⟩ := computeMaxFee_eq hcoef hgas
  cases hctx.symm.trans hctx'
  exact ⟨ctx, by rw [hprinted, maxFee, Nat.add_comm (10 ^ 13)], hexact⟩

theorem maxFeeToDisplayString_exact_transfer :
    ∃ ctx, maxFeeToDisplayString largestCoef transferGas = some (ctx, [86, 84, 72, 79, 32] ++
        decimalText 18 ((10 ^ 13 + 10 ^ 13 * largestCoef.number / 255) * transferGas.number) ++
          [0]) ∧
      ctx.Exact largestCoef transferGas :=
  maxFeeToDisplayString_exact (by decide) (by decide)

/-- The fee has at most 34 characters. -/
theorem maxFee_text_length {coef gas : ℕ} (hcoef : coef < 256) (hgas : gas < 2 ^ 64) :
    (decimalText 18 (maxFee coef gas)).length ≤ 34 := by
  have hfee : maxFee coef gas < 10 ^ (18 + 15) := by
    calc maxFee coef gas ≤ 2 * 10 ^ 13 * 2 ^ 64 :=
          Nat.mul_le_mul (by omega) hgas.le
      _ < 10 ^ (18 + 15) := by norm_num
  have hint := (integerDigits_length_le (b := 10) (by omega) (by omega)).mpr hfee
  have hfrac : (fractionDigits 10 18 (maxFee coef gas)).length ≤ 18 :=
    (trimZeros_paddedDigits_length_le (by omega)).mpr (by simp)
  rw [decimalText_length, fractionLength]
  split <;> omega

end AppVechain
