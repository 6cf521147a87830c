import AppVechain.Device.State

/-!
# BIP32 paths

`parseBip32Path` of `src/main.c`. It stores the length byte before it looks at
it, and the words of the path as it reads them.
-/

namespace AppVechain

open Numeral

/-- The arguments of `parseBip32Path`, with what they point to. -/
structure PathArgs where
  workBuffer : ℕ
  dataLength : UInt16
  pathLength : UInt8
  bip32Path : Vector UInt32 10

/-- The loop of `parseBip32Path`, for a number of words and the index of the first. -/
def readPath (G : ApduBuffer) : ℕ → ℕ → PathArgs → PathArgs
  | 0, _, a => a
  | n + 1, i, a => readPath G n (i + 1) { a with
      bip32Path := a.bip32Path.setIfInBounds i (G.word a.workBuffer)
      workBuffer := a.workBuffer + 4
      dataLength := a.dataLength - 4 }

/-- `parseBip32Path` -/
def parseBip32Path (G : ApduBuffer) (a : PathArgs) : Exec PathArgs :=
  let a := { a with pathLength := G.byte a.workBuffer }
  if a.pathLength < 1 ∨ a.pathLength.toNat > MAX_BIP32_PATH ∨
      a.dataLength.toNat < 1 + a.pathLength.toNat * 4 then .throw a
  else
    let a := { a with workBuffer := a.workBuffer + 1, dataLength := a.dataLength - 1 }
    if a.dataLength.toNat < a.pathLength.toNat then .throw a
    else .ok (readPath G a.pathLength.toNat 0 a)

/-- The path in `tmpCtx`. -/
def Device.setPath (d : Device) (a : PathArgs) : Device :=
  { d with tmpCtx := { d.tmpCtx with pathLength := a.pathLength, bip32Path := a.bip32Path } }

/-- The call of `parseBip32Path` for `P1_FIRST` in the signing handlers. -/
def beginPath (G : ApduBuffer) (d : Device) : Ending ⊕ Work :=
  match parseBip32Path G ⟨OFFSET_CDATA, G.lc.toUInt16, d.tmpCtx.pathLength, d.tmpCtx.bip32Path⟩ with
  | .ok a => .inr ⟨d.setPath a, a.workBuffer, a.dataLength⟩
  | .throw a => .inl (.throw [] HW_INCORRECT_DATA (d.setPath a))
  | .stuck e => .inl (.stuck e)

/-- The path that signing uses: `pathLength` words of `bip32Path`. -/
def TmpCtx.path (tmpCtx : TmpCtx) : List UInt32 :=
  tmpCtx.bip32Path.toList.take tmpCtx.pathLength.toNat

/-- The number of words that the data of a command announce. -/
def ApduBuffer.pathLength (G : ApduBuffer) : ℕ := (G.byte OFFSET_CDATA).toNat

/-- The path at the front of the data of a command. -/
def ApduBuffer.path (G : ApduBuffer) : List UInt32 :=
  (List.range G.pathLength).map fun i => G.word (OFFSET_CDATA + 1 + 4 * i)

/-- A path as it is sent: the number of its words, and the words. -/
def pathBytes (path : List UInt32) : List UInt8 :=
  UInt8.ofNat path.length :: path.flatMap wordBytes

/-- The bytes of some words. -/
theorem length_flatMap_wordBytes (words : List UInt32) :
    (words.flatMap wordBytes).length = 4 * words.length := by
  induction words with
  | nil => rfl
  | cons w words ih =>
    rw [List.flatMap_cons, List.length_append, ih, List.length_cons, Nat.mul_succ, Nat.add_comm]
    rfl

/-- The length of a path as it is sent. -/
theorem length_pathBytes (path : List UInt32) : (pathBytes path).length = 1 + 4 * path.length := by
  rw [pathBytes, List.length_cons, length_flatMap_wordBytes, Nat.add_comm]

/-- The path that some bytes of the buffer spell. -/
theorem ApduBuffer.path_of_bytes {G : ApduBuffer} {length : ℕ} {path : List UInt32}
    {rest : List UInt8} (h : G.bytes OFFSET_CDATA length = pathBytes path ++ rest)
    (hlength : G.pathLength = path.length) : G.path = path := by
  apply List.ext_getElem
  · rw [ApduBuffer.path, List.length_map, List.length_range, hlength]
  · intro i hi hi'
    -- a word is behind the length byte and the words in front of it
    have hsplit : path.flatMap wordBytes =
        (path.take i).flatMap wordBytes ++ wordBytes path[i] ++
          (path.drop (i + 1)).flatMap wordBytes := by
      conv_lhs => rw [← List.take_append_drop i path, List.drop_eq_getElem_cons hi']
      rw [List.flatMap_append, List.flatMap_cons, List.append_assoc]
    have hfront : (UInt8.ofNat path.length :: (path.take i).flatMap wordBytes).length =
        1 + 4 * i := by
      rw [List.length_cons, length_flatMap_wordBytes, List.length_take, Nat.min_eq_left hi'.le,
        Nat.add_comm]
    have hspelled : G.bytes OFFSET_CDATA length =
        (UInt8.ofNat path.length :: (path.take i).flatMap wordBytes) ++ wordBytes path[i] ++
          ((path.drop (i + 1)).flatMap wordBytes ++ rest) := by
      rw [h, pathBytes, hsplit]
      simp only [List.cons_append, List.append_assoc]
    simp only [ApduBuffer.path, List.getElem_map, List.getElem_range]
    rw [← G.word_of_bytes hspelled, hfront, Nat.add_assoc]

/-- The data of a command begin with a complete path of one to ten words. -/
def ApduBuffer.HasPath (G : ApduBuffer) : Prop :=
  1 ≤ G.pathLength ∧ G.pathLength ≤ 10 ∧ 1 + 4 * G.pathLength ≤ G.lc.toNat

instance (G : ApduBuffer) : Decidable G.HasPath := by unfold ApduBuffer.HasPath; infer_instance

/-- What is behind the path. -/
def ApduBuffer.behindPath (G : ApduBuffer) : ℕ := OFFSET_CDATA + 1 + 4 * G.pathLength

/-- The loop moves on by four bytes for each word. -/
theorem readPath_cursor (G : ApduBuffer) (n i : ℕ) (a : PathArgs)
    (h : 4 * n ≤ a.dataLength.toNat) :
    (readPath G n i a).workBuffer = a.workBuffer + 4 * n ∧
      (readPath G n i a).dataLength.toNat = a.dataLength.toNat - 4 * n ∧
      (readPath G n i a).pathLength = a.pathLength := by
  induction n generalizing i a with
  | zero => exact ⟨rfl, rfl, rfl⟩
  | succ n ih =>
    have hsub : (a.dataLength - 4).toNat = a.dataLength.toNat - 4 :=
      UInt16.toNat_sub_of_le _ _ (UInt16.le_iff_toNat_le.mpr (show 4 ≤ _ by omega))
    obtain ⟨hwork, hdata, hlength⟩ := ih (i + 1) { a with
      bip32Path := a.bip32Path.setIfInBounds i (G.word a.workBuffer)
      workBuffer := a.workBuffer + 4
      dataLength := a.dataLength - 4 } (by rw [hsub]; omega)
    rw [hsub] at hdata
    exact ⟨hwork.trans (show a.workBuffer + 4 + 4 * n = _ by omega),
      hdata.trans (by omega), hlength⟩

/-- The loop stores the words in their places and leaves all other places. -/
theorem readPath_getElem (G : ApduBuffer) (n i : ℕ) (a : PathArgs) {k : ℕ} (hk : k < 10) :
    (readPath G n i a).bip32Path[k] =
      if i ≤ k ∧ k < i + n then G.word (a.workBuffer + 4 * (k - i)) else a.bip32Path[k] := by
  induction n generalizing i a with
  | zero => rw [if_neg (by omega), readPath]
  | succ n ih =>
    rw [readPath, ih, Vector.getElem_setIfInBounds hk]
    dsimp only
    rcases Nat.lt_trichotomy k i with hlt | rfl | hgt
    · rw [if_neg (by omega), if_neg (by omega), if_neg (by omega)]
    · rw [if_neg (by omega), if_pos rfl, if_pos (by omega), Nat.sub_self, Nat.mul_zero,
        Nat.add_zero]
    · have hplace : a.workBuffer + 4 + 4 * (k - (i + 1)) = a.workBuffer + 4 * (k - i) := by omega
      have hrange : (i + 1 ≤ k ∧ k < i + 1 + n) ↔ (i ≤ k ∧ k < i + (n + 1)) := by omega
      simp only [hplace, hrange, hgt.ne, if_false]

/-- The loop stores the words in their order. -/
theorem readPath_words (G : ApduBuffer) (n i : ℕ) (a : PathArgs) (h : i + n ≤ 10) :
    (readPath G n i a).bip32Path.toList.take (i + n) =
      a.bip32Path.toList.take i ++ (List.range n).map fun k => G.word (a.workBuffer + 4 * k) := by
  have hlength : (a.bip32Path.toList.take i).length = i := by
    rw [List.length_take, Vector.length_toList]
    omega
  apply List.ext_getElem
  · rw [List.length_take, Vector.length_toList, List.length_append, hlength, List.length_map,
      List.length_range]
    omega
  · intro k hk hk'
    have hend : k < i + n := (List.length_take_le _ _).trans_lt' hk
    rw [List.getElem_take, Vector.getElem_toList, readPath_getElem G n i a (by omega)]
    by_cases hi : i ≤ k
    · rw [if_pos ⟨hi, hend⟩, List.getElem_append_right (by omega), List.getElem_map,
        List.getElem_range, hlength]
    · rw [if_neg fun hin => hi hin.1, List.getElem_append_left (by omega), List.getElem_take,
        Vector.getElem_toList]

/-- The bytes at the cursor are a complete path of one to ten words. -/
def PathArgs.Complete (G : ApduBuffer) (a : PathArgs) : Prop :=
  1 ≤ (G.byte a.workBuffer).toNat ∧ (G.byte a.workBuffer).toNat ≤ 10 ∧
    1 + 4 * (G.byte a.workBuffer).toNat ≤ a.dataLength.toNat

/-- The arguments when the loop of `parseBip32Path` starts. -/
def PathArgs.start (G : ApduBuffer) (a : PathArgs) : PathArgs :=
  ⟨a.workBuffer + 1, a.dataLength - 1, G.byte a.workBuffer, a.bip32Path⟩

/-- The first test of `parseBip32Path` refuses every path that is not complete. -/
theorem PathArgs.refused_iff (G : ApduBuffer) (a : PathArgs) :
    (G.byte a.workBuffer < 1 ∨ (G.byte a.workBuffer).toNat > MAX_BIP32_PATH ∨
      a.dataLength.toNat < 1 + (G.byte a.workBuffer).toNat * 4) ↔ ¬a.Complete G := by
  rw [PathArgs.Complete, UInt8.lt_iff_toNat_lt, UInt8.toNat_one, MAX_BIP32_PATH]
  omega

/-- The length byte of a complete path was paid for. -/
theorem PathArgs.Complete.start_dataLength {G : ApduBuffer} {a : PathArgs} (h : a.Complete G) :
    (a.start G).dataLength.toNat = a.dataLength.toNat - 1 := by
  obtain ⟨-, -, hlength⟩ := h
  exact UInt16.toNat_sub_of_le _ _ (UInt16.le_iff_toNat_le.mpr (show 1 ≤ _ by omega))

/-- A complete path is read. The second test of the length never fails. -/
theorem parseBip32Path_of_complete {G : ApduBuffer} {a : PathArgs} (h : a.Complete G) :
    parseBip32Path G a = .ok (readPath G (G.byte a.workBuffer).toNat 0 (a.start G)) := by
  have hrest : ¬(a.start G).dataLength.toNat < (G.byte a.workBuffer).toNat := by
    have hstart := h.start_dataLength
    obtain ⟨-, -, hlength⟩ := h
    omega
  rw [parseBip32Path, if_neg (fun hrefused => (a.refused_iff G).mp hrefused h)]
  exact if_neg hrest

/-- A path that is not complete is refused after its length byte was stored. -/
theorem parseBip32Path_of_not_complete {G : ApduBuffer} {a : PathArgs} (h : ¬a.Complete G) :
    parseBip32Path G a = .throw { a with pathLength := G.byte a.workBuffer } :=
  if_pos ((a.refused_iff G).mpr h)

/-- The path of a command is at the front of its data. -/
theorem ApduBuffer.hasPath_iff (G : ApduBuffer) {pathLength : UInt8}
    {bip32Path : Vector UInt32 10} :
    G.HasPath ↔ PathArgs.Complete G ⟨OFFSET_CDATA, G.lc.toUInt16, pathLength, bip32Path⟩ := by
  rw [ApduBuffer.HasPath, PathArgs.Complete, UInt8.toNat_toUInt16]
  rfl

/-- **Reading a path**: a complete path is stored, and the handler goes on behind it. -/
theorem beginPath_of_hasPath {G : ApduBuffer} (h : G.HasPath) (d : Device) :
    ∃ a, beginPath G d = .inr ⟨d.setPath a, a.workBuffer, a.dataLength⟩ ∧
      (d.setPath a).tmpCtx.path = G.path ∧ a.workBuffer = G.behindPath ∧
      a.dataLength.toNat = G.lc.toNat - (1 + 4 * G.pathLength) := by
  let a : PathArgs := ⟨OFFSET_CDATA, G.lc.toUInt16, d.tmpCtx.pathLength, d.tmpCtx.bip32Path⟩
  have hcomplete : a.Complete G := G.hasPath_iff.mp h
  have hstart : (a.start G).dataLength.toNat = G.lc.toNat - 1 := hcomplete.start_dataLength
  obtain ⟨hpos, hle, hlength⟩ := h
  obtain ⟨hwork, hdata, hpath⟩ := readPath_cursor G G.pathLength 0 (a.start G) (by omega)
  have hwords := readPath_words G G.pathLength 0 (a.start G) (by omega)
  refine ⟨readPath G G.pathLength 0 (a.start G),
    by rw [beginPath, parseBip32Path_of_complete hcomplete]; rfl, ?_, hwork, ?_⟩
  · rw [TmpCtx.path]
    show (readPath G G.pathLength 0 (a.start G)).bip32Path.toList.take
      (readPath G G.pathLength 0 (a.start G)).pathLength.toNat = _
    rw [hpath, show (a.start G).pathLength.toNat = 0 + G.pathLength from (Nat.zero_add _).symm,
      hwords, List.take_zero, List.nil_append]
    rfl
  · rw [hdata, hstart]
    omega

/-- Without a complete path the length byte is stored, and nothing else. -/
theorem beginPath_of_not_hasPath {G : ApduBuffer} (h : ¬G.HasPath) (d : Device) :
    beginPath G d = .inl (.throw [] HW_INCORRECT_DATA
      { d with tmpCtx := { d.tmpCtx with pathLength := G.byte OFFSET_CDATA } }) := by
  rw [beginPath, parseBip32Path_of_not_complete fun hcomplete => h (G.hasPath_iff.mpr hcomplete)]
  rfl

/-- What a successful call of `parseBip32Path` stores, and where it goes on. -/
structure PathArgs.Parsed (G : ApduBuffer) (a a' : PathArgs) : Prop where
  pathLength : a'.pathLength = G.byte a.workBuffer
  words : ∀ (i : ℕ) (hi : i < 10), i < (G.byte a.workBuffer).toNat →
    a'.bip32Path[i].toNat = bigEndian [G.byte (a.workBuffer + 1 + 4 * i),
      G.byte (a.workBuffer + 1 + 4 * i + 1), G.byte (a.workBuffer + 1 + 4 * i + 2),
      G.byte (a.workBuffer + 1 + 4 * i + 3)]
  others : ∀ (i : ℕ) (hi : i < 10), (G.byte a.workBuffer).toNat ≤ i →
    a'.bip32Path[i] = a.bip32Path[i]
  workBuffer : a'.workBuffer = a.workBuffer + (1 + 4 * (G.byte a.workBuffer).toNat)
  dataLength : a'.dataLength.toNat = a.dataLength.toNat - (1 + 4 * (G.byte a.workBuffer).toNat)

/-- A call of `parseBip32Path` succeeds exactly on a complete path, which it stores, and
leaves everything as it was when it throws. -/
structure PathArgs.ExactAtomic (G : ApduBuffer) (a : PathArgs) : Prop where
  succeeds : (∃ a', parseBip32Path G a = .ok a') ↔ a.Complete G
  parsed : ∀ a', parseBip32Path G a = .ok a' → a.Parsed G a'
  atomic : ∀ a', parseBip32Path G a = .throw a' → a' = a

/-- The loop reads a complete path. -/
theorem PathArgs.Complete.parsed {G : ApduBuffer} {a : PathArgs} (h : a.Complete G) :
    a.Parsed G (readPath G (G.byte a.workBuffer).toNat 0 (a.start G)) := by
  have hstart := h.start_dataLength
  obtain ⟨hpos, hle, hlength⟩ := h
  obtain ⟨hwork, hdata, hpath⟩ :=
    readPath_cursor G (G.byte a.workBuffer).toNat 0 (a.start G) (by omega)
  constructor
  · exact hpath
  · intro i hi hin
    rw [readPath_getElem G _ _ _ hi, if_pos (by omega), ApduBuffer.word_toNat]
    rfl
  · intro i hi hout
    rw [readPath_getElem G _ _ _ hi, if_neg (by omega)]
    rfl
  · rw [hwork]
    exact Nat.add_assoc _ _ _
  · rw [hdata, hstart]
    omega

/-- **When `parseBip32Path` is atomic.** It succeeds on the complete paths only, and then
stores the path and nothing else. It stores the length byte of a path that it refuses as
well, so the length has to be the one that was there before. -/
theorem parseBip32Path_exactAtomic_iff (G : ApduBuffer) (a : PathArgs) :
    a.ExactAtomic G ↔ a.Complete G ∨ G.byte a.workBuffer = a.pathLength := by
  constructor
  · intro h
    by_cases hcomplete : a.Complete G
    · exact .inl hcomplete
    · right
      have hsame := h.atomic _ (parseBip32Path_of_not_complete hcomplete)
      exact congrArg PathArgs.pathLength hsame
  · intro h
    by_cases hcomplete : a.Complete G
    · have hok := parseBip32Path_of_complete hcomplete
      constructor
      · exact iff_of_true ⟨_, hok⟩ hcomplete
      · intro a' ha'
        rw [hok, Exec.ok.injEq] at ha'
        rw [← ha']
        exact hcomplete.parsed
      · intro a' ha'
        rw [hok] at ha'
        cases ha'
    · have hthrow := parseBip32Path_of_not_complete hcomplete
      constructor
      · apply iff_of_false _ hcomplete
        rintro ⟨a', ha'⟩
        rw [hthrow] at ha'
        cases ha'
      · intro a' ha'
        rw [hthrow] at ha'
        cases ha'
      · intro a' ha'
        rw [hthrow, Exec.throw.injEq, h.resolve_left hcomplete] at ha'
        exact ha'.symm

/-- A refused command announces two hundred words, and that length is stored. -/
theorem not_parseBip32Path_exactAtomic :
    ¬PathArgs.ExactAtomic (.ofBytes [0xe0, 0x08, 0x00, 0x00, 0x01, 0xc8])
      ⟨OFFSET_CDATA, 1, 1, Vector.replicate 10 0⟩ := by
  intro h
  have hcomplete : ¬PathArgs.Complete (.ofBytes [0xe0, 0x08, 0x00, 0x00, 0x01, 0xc8])
      ⟨OFFSET_CDATA, 1, 1, Vector.replicate 10 0⟩ := by
    rintro ⟨-, hle, -⟩
    exact absurd hle (by decide)
  have hsame := congrArg PathArgs.pathLength
    (h.atomic _ (parseBip32Path_of_not_complete hcomplete))
  exact absurd hsame (by decide)

end AppVechain
