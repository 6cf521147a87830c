import AppVechain.Device.Message
import AppVechain.Display.Reading

/-!
# The text of a declared length

`handleSignPersonalMessage` writes the declared length to `tmp`, an array of
eleven characters. Every write is inside the array: the canonical decimal digits
of the length, at most ten, and the NUL behind them.
-/

namespace AppVechain

open Loop Numeral

/-- `tmp[pos] = c`, or `none` for a place outside `tmp`. -/
def writeTmp (tmp : Vector UInt8 11) (pos c : UInt8) : Option (Vector UInt8 11) :=
  if h : pos.toNat < 11 then some (tmp.set pos.toNat c) else none

/-- The variables of the loop that writes the digits. There is no `tmp` after a
write outside it. -/
structure LengthBuffer where
  index : UInt32
  pos : UInt8
  tmp : Option (Vector UInt8 11)

/-- The body of the second loop. -/
def LengthBuffer.next (remainingLength : UInt32) (s : LengthBuffer) : LengthBuffer where
  index := s.index / 10
  pos := s.pos + 1
  tmp := s.tmp.bind fun tmp => writeTmp tmp s.pos (48 + (remainingLength / s.index % 10).toUInt8)

/-- `tmp[pos] = '\0'` -/
def LengthBuffer.terminate (s : LengthBuffer) : LengthBuffer :=
  { s with tmp := s.tmp.bind fun tmp => writeTmp tmp s.pos 0 }

/-- The two loops that write the declared length and the NUL, with what `tmp` held
before. Either loop is cut off after eleven tests. -/
def lengthBuffer (remainingLength : UInt32) (tmp : Vector UInt8 11) : Option LengthBuffer :=
  (whileLoop (fun index : UInt32 =>
      decide (index * 10 ≤ remainingLength) && decide (index * 10 / 10 = index))
    (fun index => index * 10) 11 1).bind fun index =>
  (whileLoop (fun s : LengthBuffer => decide (s.index ≠ 0)) (LengthBuffer.next remainingLength) 11
    ⟨index, 0, some tmp⟩).map LengthBuffer.terminate

/-- `pos` is behind a text that was written to `tmp`. -/
def LengthBuffer.Holds (s : LengthBuffer) (text : List UInt8) : Prop :=
  ∃ tmp, s.tmp = some tmp ∧ s.pos.toNat = text.length ∧ tmp.toList.take text.length = text

/-- A character is written behind a text that leaves room for it. -/
theorem writeTmp_behind {tmp : Vector UInt8 11} {pos c : UInt8} {text : List UInt8}
    (hpos : pos.toNat = text.length) (htmp : tmp.toList.take text.length = text)
    (hroom : text.length < 11) :
    ∃ tmp', writeTmp tmp pos c = some tmp' ∧
      tmp'.toList.take (text.length + 1) = text ++ [c] := by
  have hin : pos.toNat < 11 := by omega
  refine ⟨tmp.set pos.toNat c, dif_pos hin, ?_⟩
  have hlength : text.length < tmp.toList.length := by rwa [Vector.length_toList]
  rw [Vector.toList_set, hpos, List.set_eq_take_append_cons_drop, if_pos hlength, htmp,
    List.take_length_add_append, List.take_succ_cons, List.take_zero]

/-- The loop writes the next digit where `lengthText` appends it. -/
theorem LengthBuffer.Holds.next {s : LengthBuffer} {text : List UInt8} (h : s.Holds text)
    (hroom : text.length < 11) (n : UInt32) :
    (s.next n).Holds (LengthState.next n ⟨s.index, text⟩).tmp := by
  obtain ⟨tmp, hsome, hpos, htmp⟩ := h
  obtain ⟨tmp', hwrite, htmp'⟩ :=
    writeTmp_behind (c := 48 + (n / s.index % 10).toUInt8) hpos htmp hroom
  refine ⟨tmp', ?_, ?_, ?_⟩
  · rw [LengthBuffer.next, hsome, Option.bind_some, hwrite]
  · rw [LengthBuffer.next, LengthState.next, UInt8.toNat_add, hpos, List.length_append,
      List.length_singleton]
    exact Nat.mod_eq_of_lt (by rw [UInt8.toNat_one]; omega)
  · rw [LengthState.next, List.length_append, List.length_singleton]
    exact htmp'

/-- What is written is never longer than the whole text. -/
theorem LengthState.Inv.length_le {n : UInt32} {text : List UInt8} {s : LengthState}
    (hinv : s.Inv n text) : s.tmp.length ≤ text.length := by
  obtain ⟨j, -, -, htext⟩ := hinv
  rw [← htext, List.length_append]
  exact Nat.le_add_right _ _

/-- A 32-bit number has at most ten digits. -/
theorem length_digitsText_le (n : UInt32) : (digitsText (numeral 10 n.toNat)).length ≤ 10 := by
  rw [digitsText, List.length_map, numeral_length_le_iff (by decide) (by decide)]
  have hn := n.toNat_lt
  omega

/-- **The declared length and the NUL are written inside `tmp`**, whatever it held. The
text in front of the NUL is canonical, says the length, and is the text that is hashed. -/
theorem lengthBuffer_prints (remainingLength : UInt32) (tmp : Vector UInt8 11) :
    ∃ s tmp' text, lengthBuffer remainingLength tmp = some s ∧ s.tmp = some tmp' ∧
      tmp'.toList.take (s.pos.toNat + 1) = text ++ [0] ∧ text.length = s.pos.toNat ∧
      text.length + 1 ≤ 11 ∧ CanonicalNumeral 10 text ∧
      readNumeral 10 text = some remainingLength.toNat ∧
      lengthText remainingLength = some text := by
  obtain ⟨index, hindex, hstart, hfuel⟩ := LengthState.exists_start remainingLength
  have hlength := length_digitsText_le remainingLength
  generalize htext : digitsText (numeral 10 remainingLength.toNat) = text at hstart hlength
  -- beside the digits that are left, the loop keeps what it has written so far
  have hbody (s : LengthBuffer)
      (hinv : ∃ written, s.Holds written ∧
        (⟨s.index, written⟩ : LengthState).Inv remainingLength text)
      (hcond : decide (s.index ≠ 0) = true) :
      (∃ written, (s.next remainingLength).Holds written ∧
        (⟨(s.next remainingLength).index, written⟩ : LengthState).Inv remainingLength text) ∧
      Nat.log 10 (10 * (s.next remainingLength).index.toNat) <
        Nat.log 10 (10 * s.index.toNat) := by
    obtain ⟨written, hholds, hinv⟩ := hinv
    obtain ⟨hnext, hless⟩ := LengthState.next_inv hinv (of_decide_eq_true hcond)
    have hroom : written.length < 11 := hinv.length_le.trans_lt (by omega)
    exact ⟨⟨_, hholds.next hroom remainingLength, hnext⟩, hless⟩
  obtain ⟨s, hloop, ⟨written, ⟨buffer, hsome, hpos, hbuffer⟩, hinv⟩, hend⟩ :=
    whileLoop_total _ (fun s : LengthBuffer => Nat.log 10 (10 * s.index.toNat)) hbody 11
      (s := ⟨index, 0, some tmp⟩) ⟨[], ⟨tmp, rfl, rfl, rfl⟩, hstart⟩ hfuel
  obtain rfl : written = text := hinv.complete (by simpa using hend)
  obtain ⟨tmp', hwrite, htmp'⟩ := writeTmp_behind (c := 0) hpos hbuffer (by omega)
  obtain ⟨hcanonical, hread⟩ := (canonicalNumeral_iff (by decide) (by decide)).mpr htext.symm
  refine ⟨s.terminate, tmp', written, ?_, ?_, ?_, hpos.symm, by omega, hcanonical, hread, ?_⟩
  · rw [lengthBuffer, hindex, Option.bind_some, hloop, Option.map_some]
  · rw [LengthBuffer.terminate, hsome, Option.bind_some, hwrite]
  · rw [← htmp', ← hpos]
    rfl
  · rw [lengthText_eq, htext]

end AppVechain
