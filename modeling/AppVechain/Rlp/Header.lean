import AppVechain.Numeral.BigEndian
import Mathlib.Data.FinEnum

/-!
# RLP item headers

Recursive length prefix encoding writes an item as a header, which gives the
kind of the item and the length of its payload, followed by the payload. A byte
below `0x80` is an item of its own. Only headers with at most four length bytes
are supported here, so payloads are shorter than `2 ^ 32` bytes.
-/

namespace Rlp

open Numeral

/-- What a header announces: a list or a string, the payload length, and the
number of header bytes in front of the payload. A byte that is its own item has
an empty header. -/
structure Header where
  isList : Bool
  length : ℕ
  size : ℕ
  deriving DecidableEq

/-- The result of looking for a header at the front of some bytes. -/
inductive HeaderRead where
  /-- The header does not end within the bytes. -/
  | incomplete
  /-- More than four length bytes are announced. -/
  | unsupported
  | complete (h : Header)
  deriving DecidableEq

/-- A header in the long form, with `k` length bytes after the first byte. -/
def readLong (isList : Bool) (k : ℕ) (rest : List UInt8) : HeaderRead :=
  if 4 < k then .unsupported
  else if rest.length < k then .incomplete
  else .complete ⟨isList, bigEndian (rest.take k), 1 + k⟩

/-- Read the header at the front of `bytes`. -/
def readHeader : List UInt8 → HeaderRead
  | [] => .incomplete
  | b :: rest =>
    if b.toNat < 0x80 then .complete ⟨false, 1, 0⟩
    else if b.toNat < 0xb8 then .complete ⟨false, b.toNat - 0x80, 1⟩
    else if b.toNat < 0xc0 then readLong false (b.toNat - 0xb7) rest
    else if b.toNat < 0xf8 then .complete ⟨true, b.toNat - 0xc0, 1⟩
    else readLong true (b.toNat - 0xf7) rest

/-- The first byte of an empty string or list header. -/
def headerBase (isList : Bool) : ℕ := if isList then 0xc0 else 0x80

/-- The canonical header of a payload of `n` bytes, unless the payload is a
single byte that needs none. -/
def encodeHeader (isList : Bool) (n : ℕ) : List UInt8 :=
  if n ≤ 55 then [UInt8.ofNat (headerBase isList + n)]
  else UInt8.ofNat (headerBase isList + 55 + (minimalBytes n).length) :: minimalBytes n

/-- The canonical encoding of a byte string. -/
def encodeString (bytes : List UInt8) : List UInt8 :=
  if bytes.length = 1 ∧ ∀ b ∈ bytes, b.toNat < 0x80 then bytes
  else encodeHeader false bytes.length ++ bytes

/-- The canonical encoding of a list whose items are already encoded in `payload`. -/
def encodeList (payload : List UInt8) : List UInt8 := encodeHeader true payload.length ++ payload

/-- Bytes after a complete header do not change it. -/
theorem readHeader_append {xs : List UInt8} {h : Header} (hread : readHeader xs = .complete h)
    (ys : List UInt8) : readHeader (xs ++ ys) = .complete h := by
  have hlong (isList : Bool) (k : ℕ) (rest : List UInt8)
      (hr : readLong isList k rest = .complete h) :
      readLong isList k (rest ++ ys) = .complete h := by
    unfold readLong at hr ⊢
    by_cases hk : 4 < k
    · simp [hk] at hr
    · by_cases hl : rest.length < k
      · simp [hk, hl] at hr
      · rw [if_neg hk, if_neg hl] at hr
        rw [if_neg hk, if_neg (by simp only [List.length_append]; omega),
          List.take_append_of_le_length (by omega), hr]
  cases xs with
  | nil => simp [readHeader] at hread
  | cons b rest =>
    simp only [readHeader, List.cons_append] at hread ⊢
    split_ifs at hread ⊢
    · exact hread
    · exact hread
    · exact hlong _ _ _ hread
    · exact hread
    · exact hlong _ _ _ hread

/-- A complete header lies within the bytes it was read from, and takes at most
five of them. -/
theorem readHeader_size {xs : List UInt8} {h : Header} (hread : readHeader xs = .complete h) :
    h.size ≤ xs.length ∧ h.size ≤ 5 ∧ 0 < h.size + h.length ∧ xs ≠ [] := by
  have hlong (isList : Bool) (k : ℕ) (rest : List UInt8)
      (hr : readLong isList k rest = .complete h) :
      h.size ≤ rest.length + 1 ∧ h.size ≤ 5 ∧ 0 < h.size := by
    unfold readLong at hr
    split_ifs at hr with hk hl
    cases hr
    exact ⟨by simp only; omega, by simp only; omega, by simp only; omega⟩
  cases xs with
  | nil => simp [readHeader] at hread
  | cons b rest =>
    simp only [readHeader] at hread
    simp only [List.length_cons]
    split_ifs at hread
    · cases hread; simp
    · cases hread; simp
    · have := hlong _ _ _ hread; exact ⟨by omega, by omega, by omega, by simp⟩
    · cases hread; simp
    · have := hlong _ _ _ hread; exact ⟨by omega, by omega, by omega, by simp⟩

/-- The header of a single byte below `0x80` is empty, and announces that byte;
every other header has a byte of its own. -/
theorem readHeader_single {xs : List UInt8} {h : Header} (hread : readHeader xs = .complete h)
    (hsize : h.size = 0) : h = ⟨false, 1, 0⟩ := by
  have hlong (isList : Bool) (k : ℕ) (rest : List UInt8)
      (hr : readLong isList k rest = .complete h) : 0 < h.size := by
    unfold readLong at hr
    split_ifs at hr
    cases hr
    simp
  cases xs with
  | nil => simp [readHeader] at hread
  | cons b rest =>
    simp only [readHeader] at hread
    split_ifs at hread
    · cases hread; rfl
    · cases hread; simp at hsize
    · have := hlong _ _ _ hread; omega
    · cases hread; simp at hsize
    · have := hlong _ _ _ hread; omega

/-- The bytes before the last one of a header are no header. -/
theorem readHeader_take_ne {xs : List UInt8} {h : Header} (hread : readHeader xs = .complete h)
    {k : ℕ} (hk : k < max 1 h.size) (h' : Header) : readHeader (xs.take k) ≠ .complete h' := by
  intro hshort
  have hsame := readHeader_append hshort (xs.drop k)
  rw [List.take_append_drop, hread] at hsame
  cases hsame
  obtain ⟨hsize, -, -, hne⟩ := readHeader_size hshort
  have hk0 : k ≠ 0 := fun hk0 => hne (by simp [hk0])
  simp only [List.length_take] at hsize
  omega

/-- The bytes of a header read as that header. -/
theorem readHeader_take {xs : List UInt8} {h : Header} (hread : readHeader xs = .complete h) :
    readHeader (xs.take (max 1 h.size)) = .complete h := by
  have hlong (isList : Bool) (k : ℕ) (b : UInt8) (rest : List UInt8)
      (hr : readLong isList k rest = .complete h) :
      ∃ rest', (b :: rest).take (max 1 h.size) = b :: rest' ∧
        readLong isList k rest' = .complete h := by
    unfold readLong at hr
    split_ifs at hr with hk hl
    cases hr
    refine ⟨rest.take k, by simp [Nat.add_comm 1 k], ?_⟩
    rw [readLong, if_neg hk, if_neg (by simp only [List.length_take]; omega), List.take_take,
      Nat.min_self]
  cases xs with
  | nil => simp [readHeader] at hread
  | cons b rest =>
    simp only [readHeader] at hread
    split_ifs at hread with h1 h2 h3 h4
    · cases hread; simp [readHeader, h1]
    · cases hread; simp [readHeader, h1, h2]
    · obtain ⟨rest', htake, hr⟩ := hlong _ _ b rest hread
      rw [htake, readHeader, if_neg h1, if_neg h2, if_pos h3, hr]
    · cases hread; simp [readHeader, h1, h2, h3, h4]
    · obtain ⟨rest', htake, hr⟩ := hlong _ _ b rest hread
      rw [htake, readHeader, if_neg h1, if_neg h2, if_neg h3, if_neg h4, hr]

end Rlp
