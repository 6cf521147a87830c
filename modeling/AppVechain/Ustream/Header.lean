import AppVechain.Rlp.Header

/-!
# Header decoding in the application

`rlpCanDecode` and `rlpDecodeLength` (`common/vetUtils.c`) look at a five-byte
buffer that is filled byte by byte. Together they read exactly the headers with
at most four length bytes; a longer header never fits in the buffer.
-/

namespace AppVechain

open Rlp Numeral

/-- The buffer in which every parser collects header bytes: `uint8_t rlpBuffer[5]`. -/
abbrev RlpBuffer := Vector UInt8 5

/-- `rlpCanDecode`: `none` when it returns false, otherwise the value stored in
`*valid`. Only the first byte of the buffer is read. -/
def rlpCanDecode (buffer : RlpBuffer) (bufferLength : ℕ) : Option Bool :=
  let b := buffer[0].toNat
  if b ≤ 0x7f then some true
  else if b ≤ 0xb7 then some true
  else if b ≤ 0xbf then
    if bufferLength < 1 + (b - 0xb7) then none
    else if b > 0xbb then some false
    else some true
  else if b ≤ 0xf7 then some true
  else
    if bufferLength < 1 + (b - 0xf7) then none
    else if b > 0xfb then some false
    else some true

/-- The values `rlpDecodeLength` stores through its output pointers. -/
structure RlpLength where
  fieldLength : ℕ
  offset : ℕ
  list : Bool
  deriving DecidableEq

/-- The `switch` on the first byte, common to strings and lists: the length
written in `count` bytes after it. The sums stay below `2 ^ 32`. -/
def rlpLengthBytes (buffer : RlpBuffer) (count : ℕ) : Option ℕ :=
  match count with
  | 1 => some buffer[1].toNat
  | 2 => some ((buffer[1].toNat <<< 8) + buffer[2].toNat)
  | 3 => some ((buffer[1].toNat <<< 16) + (buffer[2].toNat <<< 8) + buffer[3].toNat)
  | 4 => some ((buffer[1].toNat <<< 24) + (buffer[2].toNat <<< 16) + (buffer[3].toNat <<< 8) +
      buffer[4].toNat)
  | _ => none

/-- `rlpDecodeLength`: `none` when it returns false. -/
def rlpDecodeLength (buffer : RlpBuffer) : Option RlpLength :=
  let b := buffer[0].toNat
  if b ≤ 0x7f then some ⟨1, 0, false⟩
  else if b ≤ 0xb7 then some ⟨b - 0x80, 1, false⟩
  else if b ≤ 0xbf then
    (rlpLengthBytes buffer (b - 0xb7)).map fun length => ⟨length, 1 + (b - 0xb7), false⟩
  else if b ≤ 0xf7 then some ⟨b - 0xc0, 1, true⟩
  else (rlpLengthBytes buffer (b - 0xf7)).map fun length => ⟨length, 1 + (b - 0xf7), true⟩

/-- The buffer as its first byte and the four bytes after it. -/
theorem rlpBuffer_toList (buffer : RlpBuffer) :
    buffer.toList = [buffer[0], buffer[1], buffer[2], buffer[3], buffer[4]] := by
  apply List.ext_getElem
  · simp
  · intro i hi _
    have hi5 : i < 5 := by simpa using hi
    interval_cases i <;> rfl

/-- The length bytes are read as a big-endian number. -/
theorem rlpLengthBytes_eq (buffer : RlpBuffer) {k : ℕ} (hpos : 0 < k) (hle : k ≤ 4) :
    rlpLengthBytes buffer k = some (bigEndian (buffer.toList.tail.take k)) := by
  rw [rlpBuffer_toList]
  obtain rfl | rfl | rfl | rfl : k = 1 ∨ k = 2 ∨ k = 3 ∨ k = 4 := by omega
  all_goals
    simp only [rlpLengthBytes, List.tail_cons, List.take_succ_cons, List.take_zero, bigEndian,
      List.foldl_cons, List.foldl_nil, Nat.shiftLeft_eq, Option.some.injEq]
    omega

/-- The bytes collected so far, when there are some. -/
theorem rlpBuffer_take (buffer : RlpBuffer) {n : ℕ} (hpos : 0 < n) :
    buffer.toList.take n = buffer[0] :: buffer.toList.tail.take (n - 1) := by
  obtain ⟨k, rfl⟩ : ∃ k, n = k + 1 := ⟨n - 1, by omega⟩
  rw [rlpBuffer_toList]
  simp

/-- `rlpCanDecode` answers as soon as the bytes collected so far form a header,
and never rejects one: a header that is too long is never complete in five bytes. -/
theorem rlpCanDecode_eq (buffer : RlpBuffer) {n : ℕ} (hpos : 0 < n) (hle : n ≤ 5) :
    rlpCanDecode buffer n =
      match readHeader (buffer.toList.take n) with
      | .complete _ => some true
      | _ => none := by
  have hb : buffer[0].toNat < 256 := buffer[0].toNat_lt
  have htail : (buffer.toList.tail.take (n - 1)).length = n - 1 := by simp; omega
  -- a long header: five bytes hold no more than four length bytes
  have hlong (isList : Bool) {k : ℕ} {p : Prop} [Decidable p] (hiff : p ↔ 4 < k) :
      (if n < 1 + k then none else if p then some false else some true) =
        match readLong isList k (buffer.toList.tail.take (n - 1)) with
        | .complete _ => some true
        | _ => none := by
    rw [readLong, htail]
    by_cases hmore : n < 1 + k
    · rw [if_pos hmore]
      by_cases hk : 4 < k
      · rw [if_pos hk]
      · rw [if_neg hk, if_pos (by omega)]
    · have hk : ¬4 < k := by omega
      rw [if_neg hmore, if_neg (mt hiff.mp hk), if_neg hk, if_neg (by omega)]
  rw [rlpBuffer_take buffer hpos]
  simp only [rlpCanDecode, readHeader]
  by_cases h1 : buffer[0].toNat ≤ 0x7f
  · rw [if_pos h1, if_pos (by omega)]
  rw [if_neg h1, if_neg (show ¬buffer[0].toNat < 0x80 by omega)]
  by_cases h2 : buffer[0].toNat ≤ 0xb7
  · rw [if_pos h2, if_pos (by omega)]
  rw [if_neg h2, if_neg (show ¬buffer[0].toNat < 0xb8 by omega)]
  by_cases h3 : buffer[0].toNat ≤ 0xbf
  · rw [if_pos h3, if_pos (show buffer[0].toNat < 0xc0 by omega)]
    have hiff : buffer[0].toNat > 0xbb ↔ 4 < buffer[0].toNat - 0xb7 := by omega
    generalize buffer[0].toNat - 0xb7 = k at hiff ⊢
    exact hlong false hiff
  rw [if_neg h3, if_neg (show ¬buffer[0].toNat < 0xc0 by omega)]
  by_cases h4 : buffer[0].toNat ≤ 0xf7
  · rw [if_pos h4, if_pos (by omega)]
  · rw [if_neg h4, if_neg (show ¬buffer[0].toNat < 0xf8 by omega)]
    have hiff : buffer[0].toNat > 0xfb ↔ 4 < buffer[0].toNat - 0xf7 := by omega
    generalize buffer[0].toNat - 0xf7 = k at hiff ⊢
    exact hlong true hiff

/-- When the bytes collected so far form a header, `rlpDecodeLength` returns
what it announces. -/
theorem rlpDecodeLength_eq (buffer : RlpBuffer) {n : ℕ} (hpos : 0 < n) {h : Header}
    (hread : readHeader (buffer.toList.take n) = .complete h) :
    rlpDecodeLength buffer = some ⟨h.length, h.size, h.isList⟩ := by
  have hb : buffer[0].toNat < 256 := buffer[0].toNat_lt
  have hlong {isList : Bool} {k : ℕ} (hk : 0 < k)
      (hr : readLong isList k (buffer.toList.tail.take (n - 1)) = .complete h) :
      (rlpLengthBytes buffer k).map (fun length => (⟨length, 1 + k, isList⟩ : RlpLength)) =
        some ⟨h.length, h.size, h.isList⟩ := by
    unfold readLong at hr
    split_ifs at hr with h4 hl
    cases hr
    have hmin : min k (n - 1) = k := by
      simp only [List.length_take] at hl
      omega
    rw [rlpLengthBytes_eq buffer hk (by omega), List.take_take, hmin]
    rfl
  rw [rlpBuffer_take buffer hpos] at hread
  simp only [readHeader] at hread
  simp only [rlpDecodeLength]
  split_ifs at hread with h1 h2 h3 h4
  · cases hread
    rw [if_pos (by omega)]
  · cases hread
    rw [if_neg (by omega), if_pos (by omega)]
  · rw [if_neg (by omega), if_neg (by omega), if_pos (by omega)]
    exact hlong (by omega) hread
  · cases hread
    rw [if_neg (by omega), if_neg (by omega), if_neg (by omega), if_pos (by omega)]
  · rw [if_neg (by omega), if_neg (by omega), if_neg (by omega), if_neg (by omega)]
    exact hlong (by omega) hread

end AppVechain
