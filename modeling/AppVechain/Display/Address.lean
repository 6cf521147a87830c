import AppVechain.Display.Text

/-!
# Addresses

An address is shown in hexadecimal with the upper and lower case of a checksum:
`getVetAddressStringFromBinary` of `common/vetUtils.c` and
`addressToDisplayString` of `common/vetDisplay.c`. Keccak is a parameter.
-/

namespace AppVechain

/-- The hexadecimal digits of a byte. -/
def hexPair (digit : UInt8) : List UInt8 :=
  [HEXDIGITS.getD ((digit >>> 4) &&& 0x0f).toNat 0, HEXDIGITS.getD (digit &&& 0x0f).toNat 0]

/-- The hash digit of the character `i`. -/
def checksumDigit (hashChecksum : Vector UInt8 32) (i : ℕ) : UInt8 :=
  let hashDigit := hashChecksum.toList.getD (i / 2) 0
  if i % 2 = 0 then (hashDigit >>> 4) &&& 0x0f else hashDigit &&& 0x0f

/-- The character `i` with its case: a letter is made upper case when its hash
digit is above 7. -/
def checksumChar (hashChecksum : Vector UInt8 32) (i : ℕ) (c : UInt8) : UInt8 :=
  if checksumDigit hashChecksum i > 7 ∧ c > 57 then c - 97 + 65 else c

/-- `getVetAddressStringFromBinary` -/
def getVetAddressStringFromBinary (keccak256 : List UInt8 → Vector UInt8 32)
    (address : Vector UInt8 20) : List UInt8 :=
  let tmp := address.toList.flatMap hexPair
  tmp.mapIdx (checksumChar (keccak256 tmp)) ++ [0]

/-- `addressToDisplayString` -/
def addressToDisplayString (keccak256 : List UInt8 → Vector UInt8 32) (address : Vector UInt8 20) :
    List UInt8 :=
  48 :: 120 :: getVetAddressStringFromBinary keccak256 address

/-- An address is shown in 43 bytes. -/
theorem addressToDisplayString_length (keccak256 : List UInt8 → Vector UInt8 32)
    (address : Vector UInt8 20) : (addressToDisplayString keccak256 address).length = 43 := by
  have hdigits : (address.toList.flatMap hexPair).length = 40 := by
    simp [List.length_flatMap, hexPair]
  simp [addressToDisplayString, getVetAddressStringFromBinary, hdigits]

/-- A character without its case. -/
def lowerCase (c : UInt8) : UInt8 := if 65 ≤ c ∧ c ≤ 70 then c + 32 else c

/-- The case of a hexadecimal digit does not change the digit. -/
theorem lowerCase_checksumChar (hashChecksum : Vector UInt8 32) (i : ℕ) {c : UInt8}
    (hc : c ∈ HEXDIGITS) : lowerCase (checksumChar hashChecksum i c) = c := by
  have hlower : ∀ c ∈ HEXDIGITS, lowerCase c = c := by decide +kernel
  have hupper : ∀ c ∈ HEXDIGITS, c > 57 → lowerCase (c - 97 + 65) = c := by decide +kernel
  rw [checksumChar]
  split
  case isTrue h => exact hupper c hc h.2
  case isFalse h => exact hlower c hc

theorem nibble_toNat (digit : UInt8) :
    ((digit >>> 4) &&& 0x0f).toNat = digit.toNat / 16 ∧
      (digit &&& 0x0f).toNat = digit.toNat % 16 := by
  have hlt := digit.toNat_lt
  constructor
  · have hshift : (digit >>> 4).toNat = digit.toNat / 16 := by
      rw [UInt8.toNat_shiftRight]
      exact Nat.shiftRight_eq_div_pow digit.toNat 4
    rw [UInt8.toNat_and, hshift]
    exact (Nat.and_two_pow_sub_one_eq_mod (digit.toNat / 16) 4).trans
      (Nat.mod_eq_of_lt (by omega))
  · rw [UInt8.toNat_and]
    exact Nat.and_two_pow_sub_one_eq_mod digit.toNat 4

/-- The value of a hexadecimal digit of either case. -/
def hexDigit? (c : UInt8) : Option ℕ := (HEXDIGITS.take 16).idxOf? (lowerCase c)

/-- The bytes that hexadecimal digits stand for, two digits a byte. -/
def readHex : List UInt8 → Option (List UInt8)
  | [] => some []
  | [_] => none
  | high :: low :: text => do
    let x ← hexDigit? high
    let y ← hexDigit? low
    let bytes ← readHex text
    some (UInt8.ofNat (16 * x + y) :: bytes)

/-- The bytes that a string with `0x` in front says in hexadecimal. -/
def readAddress : List UInt8 → Option (List UInt8)
  | 48 :: 120 :: text => readHex (text.takeWhile (· ≠ 0))
  | _ => none

/-- The characters for a byte are hexadecimal digits. -/
theorem exists_digit_of_mem {c digit : UInt8} (h : c ∈ hexPair digit) :
    ∃ x < 16, c = HEXDIGITS.getD x 0 := by
  have hlt := digit.toNat_lt
  simp only [hexPair, (nibble_toNat digit).1, (nibble_toNat digit).2, List.mem_cons,
    List.not_mem_nil, or_false] at h
  rcases h with h | h
  · exact ⟨_, by omega, h⟩
  · exact ⟨_, by omega, h⟩

/-- A digit is read whatever its case. -/
theorem hexDigit?_checksumChar (hashChecksum : Vector UInt8 32) (i : ℕ) {x : ℕ} (hx : x < 16) :
    hexDigit? (checksumChar hashChecksum i (HEXDIGITS.getD x 0)) = some x := by
  have hmem : ∀ x < 16, HEXDIGITS.getD x 0 ∈ HEXDIGITS := by decide
  have hindex : ∀ x < 16, (HEXDIGITS.take 16).idxOf? (HEXDIGITS.getD x 0) = some x := by decide
  rw [hexDigit?, lowerCase_checksumChar hashChecksum i (hmem x hx), hindex x hx]

/-- The digits of bytes are read as these bytes, from any place in an address. -/
theorem readHex_checksum (hashChecksum : Vector UInt8 32) (start : ℕ) (bytes : List UInt8) :
    readHex ((bytes.flatMap hexPair).mapIdx fun i => checksumChar hashChecksum (start + i)) =
      some bytes := by
  induction bytes generalizing start with
  | nil => rfl
  | cons digit bytes ih =>
    obtain ⟨hhigh, hlow⟩ := nibble_toNat digit
    have hlt := digit.toNat_lt
    have hbyte : UInt8.ofNat (16 * (digit.toNat / 16) + digit.toNat % 16) = digit := by
      rw [Nat.div_add_mod, UInt8.ofNat_toNat]
    have htail : (fun i => checksumChar hashChecksum (start + (i + 1 + 1))) =
        fun i => checksumChar hashChecksum (start + 2 + i) := by
      funext i
      rw [Nat.add_right_comm, Nat.add_assoc]
      congr 1
      omega
    rw [List.flatMap_cons, hexPair, hhigh, hlow, List.cons_append, List.cons_append,
      List.nil_append, List.mapIdx_cons, List.mapIdx_cons, readHex,
      hexDigit?_checksumChar hashChecksum _ (by omega),
      hexDigit?_checksumChar hashChecksum _ (by omega), htail, ih]
    exact congrArg (fun b => some (b :: bytes)) hbyte

/-- None of the digits is a NUL. -/
theorem checksum_ne_zero {hashChecksum : Vector UInt8 32} {bytes : List UInt8} {c : UInt8}
    (h : c ∈ (bytes.flatMap hexPair).mapIdx (checksumChar hashChecksum)) : c ≠ 0 := by
  obtain ⟨i, hi, rfl⟩ := List.mem_mapIdx.mp h
  obtain ⟨digit, -, hdigit⟩ := List.mem_flatMap.mp (List.getElem_mem hi)
  obtain ⟨x, hx, hchar⟩ := exists_digit_of_mem hdigit
  rw [hchar]
  intro hzero
  have hread := hexDigit?_checksumChar hashChecksum i hx
  rw [hzero, show hexDigit? 0 = none from by decide] at hread
  cases hread

/-- **An address that is shown says its bytes.** -/
theorem readAddress_display (keccak256 : List UInt8 → Vector UInt8 32) (address : Vector UInt8 20) :
    readAddress (addressToDisplayString keccak256 address) = some address.toList := by
  rw [addressToDisplayString, readAddress, getVetAddressStringFromBinary]
  rw [List.takeWhile_append_of_pos fun c hc => decide_eq_true (checksum_ne_zero hc),
    List.takeWhile_cons_of_neg (by decide), List.append_nil]
  simpa only [Nat.zero_add] using readHex_checksum _ 0 address.toList

/-- **An address is shown injectively.** -/
theorem addressToDisplayString_injective {keccak256 : List UInt8 → Vector UInt8 32}
    {a b : Vector UInt8 20}
    (h : addressToDisplayString keccak256 a = addressToDisplayString keccak256 b) : a = b := by
  have hread := readAddress_display keccak256 a
  rw [h, readAddress_display, Option.some.injEq] at hread
  exact Vector.toList_inj.mp hread.symm

end AppVechain
