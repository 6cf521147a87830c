import AppVechain.Rlp.Items

/-!
# Canonical encodings

The canonical encoding of a byte string or a list is a complete item whose
payload is the string, or the encodings of the members of the list. Trees of
strings and lists are the values that RLP encodes.
-/

namespace Rlp

open Numeral

/-- A canonical header is read back. -/
theorem readHeader_encodeHeader (isList : Bool) {n : ℕ} (hn : n < 2 ^ 32) (rest : List UInt8) :
    readHeader (encodeHeader isList n ++ rest) =
      .complete ⟨isList, n, (encodeHeader isList n).length⟩ := by
  have hbase : headerBase isList = 0x80 ∨ headerBase isList = 0xc0 := by
    cases isList
    · exact .inl rfl
    · exact .inr rfl
  by_cases hshort : n ≤ 55
  · have hb : (UInt8.ofNat (headerBase isList + n)).toNat = headerBase isList + n := by
      rw [UInt8.toNat_ofNat', Nat.mod_eq_of_lt (by omega)]
    rw [encodeHeader, if_pos hshort, List.singleton_append, readHeader, hb]
    cases isList
    · simp only [headerBase, Bool.false_eq_true, if_false]
      rw [if_neg (by omega), if_pos (by omega), Nat.add_sub_cancel_left]
      rfl
    · simp only [headerBase, if_true]
      rw [if_neg (by omega), if_neg (by omega), if_neg (by omega), if_pos (by omega),
        Nat.add_sub_cancel_left]
      rfl
  · have hk : (minimalBytes n).length ≤ 4 := minimalBytes_length_le (by simpa using hn)
    have hkpos : 0 < (minimalBytes n).length := minimalBytes_length_pos (by omega)
    have hb : (UInt8.ofNat (headerBase isList + 55 + (minimalBytes n).length)).toNat =
        headerBase isList + 55 + (minimalBytes n).length := by
      rw [UInt8.toNat_ofNat', Nat.mod_eq_of_lt (by omega)]
    have hlong : readLong isList (minimalBytes n).length (minimalBytes n ++ rest) =
        .complete ⟨isList, n, 1 + (minimalBytes n).length⟩ := by
      rw [readLong, if_neg (by omega), if_neg (by rw [List.length_append]; omega), List.take_left,
        bigEndian_minimalBytes]
    rw [encodeHeader, if_neg hshort, List.cons_append, readHeader, hb]
    cases isList
    · simp only [headerBase, Bool.false_eq_true, if_false]
      rw [if_neg (by omega), if_neg (by omega), if_pos (by omega),
        show 0x80 + 55 + (minimalBytes n).length - 0xb7 = (minimalBytes n).length by omega, hlong,
        List.length_cons, Nat.add_comm 1]
    · simp only [headerBase, if_true]
      rw [if_neg (by omega), if_neg (by omega), if_neg (by omega), if_neg (by omega),
        show 0xc0 + 55 + (minimalBytes n).length - 0xf7 = (minimalBytes n).length by omega, hlong,
        List.length_cons, Nat.add_comm 1]

/-- The canonical encoding of a string is an item with the string as its payload. -/
theorem exists_item_encodeString (bytes : List UInt8) (h : bytes.length < 2 ^ 32) :
    ∃ i : Item, i.bytes = encodeString bytes ∧ i.isList = false ∧ i.payload = bytes := by
  by_cases hsingle : bytes.length = 1 ∧ ∀ b ∈ bytes, b.toNat < 0x80
  · obtain ⟨b, rfl⟩ := List.length_eq_one_iff.mp hsingle.1
    have hb : b.toNat < 0x80 := hsingle.2 b (List.mem_singleton_self b)
    have hread : readHeader ([] ++ [b]) =
        .complete ⟨false, [b].length, ([] : List UInt8).length⟩ := by
      simp only [List.nil_append, readHeader, if_pos hb, List.length_singleton, List.length_nil]
    exact ⟨⟨false, [], [b], hread⟩, by rw [encodeString, if_pos hsingle]; rfl, rfl, rfl⟩
  · exact ⟨⟨false, encodeHeader false bytes.length, bytes, readHeader_encodeHeader false h bytes⟩,
      by rw [encodeString, if_neg hsingle]; rfl, rfl, rfl⟩

/-- The canonical encoding of a list is an item with the encoded members as its payload. -/
theorem exists_item_encodeList (payload : List UInt8) (h : payload.length < 2 ^ 32) :
    ∃ i : Item, i.bytes = encodeList payload ∧ i.isList = true ∧ i.payload = payload :=
  ⟨⟨true, encodeHeader true payload.length, payload, readHeader_encodeHeader true h payload⟩,
    rfl, rfl, rfl⟩

/-- A string is not longer than its encoding. -/
theorem length_le_encodeString (bytes : List UInt8) :
    bytes.length ≤ (encodeString bytes).length := by
  unfold encodeString
  split
  · exact Nat.le_refl _
  · rw [List.length_append]
    omega

/-- A payload is not longer than the list. -/
theorem length_le_encodeList (payload : List UInt8) :
    payload.length ≤ (encodeList payload).length := by
  rw [encodeList, List.length_append]
  omega

/-- The values that RLP encodes. -/
inductive Tree where
  | string (bytes : List UInt8)
  | list (members : List Tree)

mutual

/-- The canonical encoding of a value. -/
def Tree.encode : Tree → List UInt8
  | .string bytes => encodeString bytes
  | .list members => encodeList (Tree.encodeAll members)

/-- The encodings of some values, one after the other. -/
def Tree.encodeAll : List Tree → List UInt8
  | [] => []
  | t :: ts => t.encode ++ Tree.encodeAll ts

end

/-- Items in front of other bytes are found again. -/
theorem Item.bytes_append_inj {i i' : Item} {rest rest' : List UInt8}
    (h : i.bytes ++ rest = i'.bytes ++ rest') : i = i' ∧ rest = rest' := by
  have hsplit := splitItem_bytes_append i rest
  rw [h, splitItem_bytes_append, Option.some.injEq, Prod.mk.injEq] at hsplit
  exact ⟨hsplit.1.symm, hsplit.2.symm⟩

/-- A value is an item whose kind and payload tell what it is. -/
theorem Tree.exists_item (t : Tree) (h : t.encode.length < 2 ^ 32) :
    ∃ i : Item, i.bytes = t.encode ∧ (∀ bytes, t = .string bytes → i.isList = false ∧
      i.payload = bytes) ∧ ∀ members, t = .list members → i.isList = true ∧
      i.payload = Tree.encodeAll members := by
  cases t with
  | string bytes =>
    rw [Tree.encode] at h
    obtain ⟨i, hbytes, hkind, hpayload⟩ :=
      exists_item_encodeString bytes ((length_le_encodeString bytes).trans_lt h)
    refine ⟨i, by rw [hbytes, Tree.encode], ?_, ?_⟩
    · rintro bytes' ⟨⟩
      exact ⟨hkind, hpayload⟩
    · rintro members ⟨⟩
  | list members =>
    rw [Tree.encode] at h
    obtain ⟨i, hbytes, hkind, hpayload⟩ :=
      exists_item_encodeList (Tree.encodeAll members) ((length_le_encodeList _).trans_lt h)
    refine ⟨i, by rw [hbytes, Tree.encode], ?_, ?_⟩
    · rintro bytes ⟨⟩
    · rintro members' ⟨⟩
      exact ⟨hkind, hpayload⟩

/-- No value is encoded as nothing. -/
theorem Tree.encode_ne_nil (t : Tree) : t.encode ≠ [] := by
  intro hnil
  obtain ⟨i, hbytes, -⟩ := t.exists_item (by rw [hnil]; decide)
  have hpos := i.bytes_length_pos
  rw [hbytes, hnil] at hpos
  cases hpos

mutual

/-- **Values are found again** in front of other bytes. -/
theorem Tree.encode_append_inj (t t' : Tree) (h : t.encode.length < 2 ^ 32)
    (h' : t'.encode.length < 2 ^ 32) {rest rest' : List UInt8}
    (heq : t.encode ++ rest = t'.encode ++ rest') : t = t' ∧ rest = rest' := by
  obtain ⟨i, hi, hstring, hlist⟩ := t.exists_item h
  obtain ⟨i', hi', hstring', hlist'⟩ := t'.exists_item h'
  rw [← hi, ← hi'] at heq
  obtain ⟨rfl, hrest⟩ := Item.bytes_append_inj heq
  refine ⟨?_, hrest⟩
  cases t with
  | string bytes =>
    cases t' with
    | string bytes' => rw [← (hstring bytes rfl).2, ← (hstring' bytes' rfl).2]
    | list members' =>
      exact absurd ((hstring bytes rfl).1.symm.trans (hlist' members' rfl).1) Bool.false_ne_true
  | list members =>
    cases t' with
    | string bytes' =>
      exact absurd ((hstring' bytes' rfl).1.symm.trans (hlist members rfl).1) Bool.false_ne_true
    | list members' =>
      rw [Tree.encode] at h
      have hmembers : Tree.encodeAll members = Tree.encodeAll members' := by
        rw [← (hlist members rfl).2, ← (hlist' members' rfl).2]
      rw [Tree.encodeAll_injective members members' ((length_le_encodeList _).trans_lt h) hmembers]

/-- **Lists of values are found again.** -/
theorem Tree.encodeAll_injective (ts ts' : List Tree)
    (h : (Tree.encodeAll ts).length < 2 ^ 32) (heq : Tree.encodeAll ts = Tree.encodeAll ts') :
    ts = ts' := by
  cases ts with
  | nil =>
    cases ts' with
    | nil => rfl
    | cons t' ts' =>
      rw [Tree.encodeAll, Tree.encodeAll] at heq
      exact absurd (List.append_eq_nil_iff.mp heq.symm).1 t'.encode_ne_nil
  | cons t ts =>
    have hlength := h
    rw [Tree.encodeAll, List.length_append] at hlength
    cases ts' with
    | nil =>
      rw [Tree.encodeAll, Tree.encodeAll] at heq
      exact absurd (List.append_eq_nil_iff.mp heq).1 t.encode_ne_nil
    | cons t' ts' =>
      have hlength' := heq ▸ h
      rw [Tree.encodeAll, List.length_append] at hlength'
      rw [Tree.encodeAll, Tree.encodeAll] at heq
      obtain ⟨rfl, hrest⟩ := Tree.encode_append_inj t t' (by omega) (by omega) heq
      rw [Tree.encodeAll_injective ts ts' (by omega) hrest]

end

end Rlp
