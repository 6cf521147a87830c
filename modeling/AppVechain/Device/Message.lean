import AppVechain.Device.Bip32Path
import AppVechain.Loop.While

/-!
# Signing messages and certificates

`handleSignPersonalMessage` and `handleSignCertificate` of `src/main.c`. Both
hash a stream of a length declared at its start; a message is hashed behind a
prefix with its length in decimal, a certificate has to begin and end with braces.
-/

namespace AppVechain

open Loop Numeral

/-- `SIGN_MAGIC` without its NUL. -/
def SIGN_MAGIC : List UInt8 := 0x19 :: (cString "VeChain Signed Message:\n").dropLast

/-- The variables of the second loop over the digits of the length. -/
structure LengthState where
  index : UInt32
  tmp : List UInt8

/-- The two loops that write the declared length to `tmp`, without the NUL. No 32-bit
number has more than ten digits. -/
def lengthText (remainingLength : UInt32) : Option (List UInt8) :=
  (whileLoop (fun index : UInt32 =>
      decide (index * 10 ≤ remainingLength) && decide (index * 10 / 10 = index))
    (fun index => index * 10) 11 1).bind fun index =>
  (whileLoop (fun s : LengthState => decide (s.index ≠ 0))
    (fun s => ⟨s.index / 10, s.tmp ++ [48 + (remainingLength / s.index % 10).toUInt8]⟩) 11
    ⟨index, []⟩).map LengthState.tmp

/-- A digit is added to the character of zero. -/
theorem digitByte_eq {x : UInt32} (h : x.toNat < 10) : 48 + x.toUInt8 = digitByte x.toNat := by
  have hall : ∀ n < 10, 48 + (UInt32.ofNat n).toUInt8 = digitByte n := by decide
  have hx := hall x.toNat h
  rwa [UInt32.ofNat_toNat] at hx

/-- The first loop finds the power of ten that belongs to the first digit. -/
theorem lengthText_index (n : UInt32) : ∃ index k, whileLoop (fun index : UInt32 =>
      decide (index * 10 ≤ n) && decide (index * 10 / 10 = index)) (fun index => index * 10) 11 1 =
        some index ∧ k ≤ 9 ∧ index.toNat = 10 ^ k ∧
      numeral 10 n.toNat = paddedDigits 10 (k + 1) n.toNat := by
  have hn := n.toNat_lt
  -- ten times a smaller power does not overflow
  have hten (index : UInt32) (k : ℕ) (hk : k ≤ 8) (hindex : index.toNat = 10 ^ k) :
      (index * 10).toNat = 10 ^ (k + 1) := by
    have hle : 10 ^ (k + 1) ≤ 10 ^ 9 := Nat.pow_le_pow_right (by decide) (by omega)
    rw [UInt32.toNat_mul, hindex, show (10 : UInt32).toNat = 10 from rfl, ← pow_succ]
    exact Nat.mod_eq_of_lt (by omega)
  have hbody (index : UInt32) (hinv : ∃ k ≤ 9, index.toNat = 10 ^ k ∧ (k = 0 ∨ 10 ^ k ≤ n.toNat))
      (hcond : (decide (index * 10 ≤ n) && decide (index * 10 / 10 = index)) = true) :
      (∃ k ≤ 9, (index * 10).toNat = 10 ^ k ∧ (k = 0 ∨ 10 ^ k ≤ n.toNat)) ∧
        9 - Nat.log 10 (index * 10).toNat < 9 - Nat.log 10 index.toNat := by
    obtain ⟨k, hk, hindex, -⟩ := hinv
    rw [Bool.and_eq_true, decide_eq_true_eq, decide_eq_true_eq] at hcond
    obtain ⟨hle, hback⟩ := hcond
    have hk8 : k ≤ 8 := by
      by_contra hne
      obtain rfl : k = 9 := by omega
      obtain rfl : index = 1000000000 := UInt32.toNat_inj.mp hindex
      exact absurd hback (by decide)
    rw [UInt32.le_iff_toNat_le, hten index k hk8 hindex] at hle
    refine ⟨⟨k + 1, by omega, hten index k hk8 hindex, .inr hle⟩, ?_⟩
    rw [hten index k hk8 hindex, hindex, Nat.log_pow (by decide), Nat.log_pow (by decide)]
    omega
  obtain ⟨index, hloop, ⟨k, hk, hindex, hle⟩, hend⟩ := whileLoop_total
    (fun index : UInt32 => ∃ k ≤ 9, index.toNat = 10 ^ k ∧ (k = 0 ∨ 10 ^ k ≤ n.toNat))
    (fun index => 9 - Nat.log 10 index.toNat) hbody 11
    ⟨0, by decide, show UInt32.toNat 1 = 1 from rfl, .inl rfl⟩ (by omega)
  refine ⟨index, k, hloop, hk, hindex, numeral_eq_paddedDigits (by decide) hle ?_⟩
  obtain hk8 | rfl := Nat.lt_succ_iff_lt_or_eq.mp (Nat.lt_succ_of_le hk)
  · have hnext := hten index k (by omega) hindex
    have hback : index * 10 / 10 = index := by
      rw [← UInt32.toNat_inj, UInt32.toNat_div, hnext, hindex, pow_succ]
      exact Nat.mul_div_cancel _ (by decide)
    rwa [hback, decide_eq_true rfl, Bool.and_true, decide_eq_false_iff_not, UInt32.not_le,
      UInt32.lt_iff_toNat_lt, hnext] at hend
  · omega

/-- The body of the second loop. -/
def LengthState.next (n : UInt32) (s : LengthState) : LengthState :=
  ⟨s.index / 10, s.tmp ++ [48 + (n / s.index % 10).toUInt8]⟩

/-- What is written and the digits that are left are the digits of the number. -/
def LengthState.Inv (n : UInt32) (text : List UInt8) (s : LengthState) : Prop :=
  ∃ j ≤ 10, s.index.toNat = 10 ^ j / 10 ∧ s.tmp ++ digitsText (paddedDigits 10 j n.toNat) = text

/-- A power of ten without its last zero. -/
theorem ten_pow_succ_div (j : ℕ) : 10 ^ (j + 1) / 10 = 10 ^ j := by
  rw [pow_succ]
  exact Nat.mul_div_cancel _ (by decide)

/-- The next digit is written. -/
theorem LengthState.next_inv {n : UInt32} {text : List UInt8} {s : LengthState}
    (hinv : s.Inv n text) (hcond : s.index ≠ 0) :
    (s.next n).Inv n text ∧
      Nat.log 10 (10 * (s.next n).index.toNat) < Nat.log 10 (10 * s.index.toNat) := by
  obtain ⟨j, hj, hindex, htext⟩ := hinv
  rw [ne_eq, ← UInt32.toNat_inj] at hcond
  cases j with
  | zero => exact absurd hindex hcond
  | succ j =>
    rw [ten_pow_succ_div] at hindex
    have hdigit : (n / s.index % 10).toNat = n.toNat / 10 ^ j % 10 := by
      rw [UInt32.toNat_mod, UInt32.toNat_div, hindex]
      rfl
    have hnext : (s.next n).index.toNat = 10 ^ j / 10 := by
      rw [LengthState.next, UInt32.toNat_div, hindex]
      rfl
    constructor
    · refine ⟨j, by omega, hnext, ?_⟩
      rw [← htext, paddedDigits_succ, LengthState.next,
        digitByte_eq (by rw [hdigit]; exact Nat.mod_lt _ (by decide)), hdigit, List.append_assoc]
      rfl
    · rw [hnext, hindex, ← pow_succ', Nat.log_pow (by decide)]
      cases j with
      | zero => simp
      | succ j =>
        rw [ten_pow_succ_div, ← pow_succ', Nat.log_pow (by decide)]
        omega

/-- The second loop starts with all digits left, at most ten. -/
theorem LengthState.exists_start (n : UInt32) : ∃ index, whileLoop (fun index : UInt32 =>
      decide (index * 10 ≤ n) && decide (index * 10 / 10 = index)) (fun index => index * 10) 11 1 =
        some index ∧ (⟨index, []⟩ : LengthState).Inv n (digitsText (numeral 10 n.toNat)) ∧
      Nat.log 10 (10 * index.toNat) < 11 := by
  obtain ⟨index, k, hindex, hk, hpow, hdigits⟩ := lengthText_index n
  refine ⟨index, hindex, ⟨k + 1, by omega, by rw [hpow, ten_pow_succ_div], ?_⟩, ?_⟩
  · rw [hdigits, List.nil_append]
  · rw [hpow, ← pow_succ', Nat.log_pow (by decide)]
    omega

/-- When the second loop ends, the text is complete. -/
theorem LengthState.Inv.complete {n : UInt32} {text : List UInt8} {s : LengthState}
    (hinv : s.Inv n text) (hzero : s.index = 0) : s.tmp = text := by
  obtain ⟨j, -, hj, htext⟩ := hinv
  rw [hzero] at hj
  cases j with
  | zero => rwa [paddedDigits, digitsText, List.map_nil, List.append_nil] at htext
  | succ j =>
    rw [ten_pow_succ_div] at hj
    exact absurd hj.symm (by positivity)

/-- **The declared length** is written in decimal. -/
theorem lengthText_eq (n : UInt32) : lengthText n = some (digitsText (numeral 10 n.toNat)) := by
  obtain ⟨index, hindex, hstart, hfuel⟩ := LengthState.exists_start n
  obtain ⟨s, hloop, hinv, hend⟩ := whileLoop_total
    (LengthState.Inv n (digitsText (numeral 10 n.toNat)))
    (fun s => Nat.log 10 (10 * s.index.toNat))
    (fun s hinv hcond => LengthState.next_inv hinv (of_decide_eq_true hcond)) 11 hstart hfuel
  rw [lengthText, hindex, Option.bind_some]
  show (whileLoop _ (LengthState.next n) 11 _).map _ = _
  rw [hloop, Option.map_some, hinv.complete (by simpa using hend)]

/-- The declared length is read behind the path. `dataLength` is a `uint16_t`. -/
def Work.readLength (G : ApduBuffer) (w : Work) : Work where
  device := { w.device with
    tmpCtx := { w.device.tmpCtx with remainingLength := G.word w.workBuffer } }
  workBuffer := w.workBuffer + 4
  dataLength := w.dataLength - 4

/-- The first part of `handleSignPersonalMessage`. -/
def messageBegin (G : ApduBuffer) (d : Device) : Ending ⊕ Work :=
  if G.p1 = P1_FIRST then
    match beginPath G d with
    | .inl ending => .inl ending
    | .inr w =>
      let w := w.readLength G
      match lengthText w.device.tmpCtx.remainingLength with
      | none => .inl (.stuck .diverges)
      | some text => .inr { w with device := w.device.setBlake2b (SIGN_MAGIC ++ text) }
  else if G.p1 ≠ P1_MORE then .inl (.throw [] HW_INCORRECT_P1_P2 d)
  else .inr ⟨d, OFFSET_CDATA, G.lc.toUInt16⟩

/-- The first part of `handleSignCertificate`. -/
def certificateBegin (G : ApduBuffer) (d : Device) : Ending ⊕ Work :=
  if G.p1 = P1_FIRST then
    match beginPath G d with
    | .inl ending => .inl ending
    | .inr w =>
      let w := w.readLength G
      if G.byte w.workBuffer ≠ 123 then .inl (.throw [] HW_INCORRECT_DATA w.device)
      else .inr { w with device := w.device.setBlake2b [] }
  else if G.p1 ≠ P1_MORE then .inl (.throw [] HW_INCORRECT_P1_P2 d)
  else .inr ⟨d, OFFSET_CDATA, G.lc.toUInt16⟩

/-- `hex_digits` -/
def hexDigits : List UInt8 := (cString "0123456789ABCDEF").dropLast

/-- `array_hexstr`, without the NUL. -/
def arrayHexstr (bin : List UInt8) : List UInt8 :=
  bin.flatMap fun (b : UInt8) => [hexDigits.getD ((b >>> 4) &&& 0xF).toNat 0,
    hexDigits.getD (b &&& 0xF).toNat 0]

/-- The ends of a hash, with three points between them. -/
def hashSummary (hash : Vector UInt8 32) : CharArray 43 where
  bytes := arrayHexstr (hash.toList.take 2) ++ pointChar :: pointChar :: pointChar ::
    arrayHexstr (hash.toList.drop 30) ++ [0]
  fits := by simp [arrayHexstr]

/-- The second part of both handlers: the rest of the data is hashed, and the hash is
stored and shown when nothing remains. `closed` is the test of the last byte. -/
def hashPayload (platform : Platform) (flow : Flow) (closed : UInt8 → Bool) (G : ApduBuffer)
    (w : Work) : Ending :=
  let remainingLength := w.device.tmpCtx.remainingLength
  if G.p2 ≠ 0 then .throw [] HW_INCORRECT_P1_P2 w.device
  else if w.dataLength.toUInt32 > remainingLength then
    .throw [] HW_NOT_ENOUGH_MEMORY_SPACE w.device
  else if w.workBuffer + w.dataLength.toNat > 260 then .stuck .outOfBounds
  else
    let d := w.device.setBlake2b
      (w.device.blake2b ++ G.bytes w.workBuffer w.dataLength.toNat)
    let d := { d with tmpCtx := { d.tmpCtx with
      remainingLength := remainingLength - w.dataLength.toUInt32 } }
    if d.tmpCtx.remainingLength = 0 then
      if !closed (G.byte (w.workBuffer + w.dataLength.toNat - 1)) then .throw [] HW_INCORRECT_DATA d
      else
        let hash := platform.blake2b256 d.blake2b
        .review flow { d with
          tmpCtx := { d.tmpCtx with hash := hash }
          fullAddress := hashSummary hash }
    else .throw [] HW_OK d

/-- `handleSignPersonalMessage` -/
def handleSignPersonalMessage (platform : Platform) (G : ApduBuffer) (d : Device) : Ending :=
  match messageBegin G d with
  | .inl ending => ending
  | .inr w => hashPayload platform .message (fun _ => true) G w

/-- `handleSignCertificate` -/
def handleSignCertificate (platform : Platform) (G : ApduBuffer) (d : Device) : Ending :=
  match certificateBegin G d with
  | .inl ending => ending
  | .inr w => hashPayload platform .certificate (· == 125) G w

end AppVechain
