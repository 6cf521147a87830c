import AppVechain.Display.Text

/-!
# The decimal point

`adjustDecimals` of `common/vetUtils.c` puts a decimal point into the digits of
a number and cuts the trailing zeros of the fraction off by writing a NUL over
the first of them.
-/

namespace AppVechain

open Numeral

/-- The characters `'0'` and `'.'`. -/
def zeroChar : UInt8 := 48
def pointChar : UInt8 := 46

/-- The loop of `adjustDecimals` over `target[startOffset..offset]`: the offset at
which the zeros at the end start, or 0. -/
def lastZeroOffset (target : List UInt8) (startOffset : ℕ) : ℕ :=
  ((target.drop startOffset).zipIdx startOffset).foldl
    (fun lastZeroOffset (c, i) =>
      if c = zeroChar then if lastZeroOffset = 0 then i else lastZeroOffset else 0) 0

/-- The end of `adjustDecimals`, after the `offset` characters of `target` and the
NUL are written. -/
def trimTarget (target : List UInt8) (startOffset : ℕ) : List UInt8 :=
  let written := target ++ [0]
  let last := lastZeroOffset target startOffset
  if last ≠ 0 then
    let cut := written.set last 0
    if cut.getD (last - 1) 0 = pointChar then cut.set (last - 1) 0 else cut
  else written

/-- `adjustDecimals` -/
def adjustDecimals (src : List UInt8) (srcLength targetLength : ℕ) (decimals : UInt8) :
    Bool × List UInt8 :=
  if srcLength = 1 ∧ src.getD 0 0 = zeroChar then
    if targetLength < 2 then (false, []) else (true, [zeroChar, 0])
  else if srcLength ≤ decimals.toNat then
    let delta := decimals.toNat - srcLength
    if targetLength < (srcLength + 1 + 2 + delta) % 2 ^ 32 then (false, [])
    else
      let target := zeroChar :: pointChar :: List.replicate delta zeroChar
      (true, trimTarget (target ++ src.take srcLength) target.length)
  else
    let delta := srcLength - decimals.toNat
    if targetLength < (srcLength + 1 + 1) % 2 ^ 32 then (false, [])
    else
      let target := src.take delta ++ if decimals ≠ 0 then [pointChar] else []
      (true, trimTarget (target ++ (src.take srcLength).drop delta) target.length)

/-- A buffer that holds a NUL-terminated string. -/
def HoldsString (buffer text : List UInt8) : Prop :=
  ∃ rest, buffer = text ++ 0 :: rest ∧ (0 : UInt8) ∉ text

/-- `getStringLength` finds the end of the string. -/
theorem HoldsString.getStringLength {buffer text : List UInt8} (h : HoldsString buffer text) :
    getStringLength buffer = some text.length := by
  obtain ⟨rest, rfl, htext⟩ := h
  rw [AppVechain.getStringLength, List.findIdx?_append, List.findIdx?_eq_none_iff.mpr]
  · simp [List.findIdx?_cons]
  · intro c hc
    have hne : c ≠ 0 := fun h => htext (h ▸ hc)
    simpa using hne

theorem HoldsString.take {buffer text : List UInt8} (h : HoldsString buffer text) :
    buffer.take text.length = text := by
  obtain ⟨rest, rfl, -⟩ := h
  exact List.take_left

/-- The characters of `n / 10 ^ d`. -/
def decimalText (d n : ℕ) : List UInt8 :=
  (integerDigits 10 d n).map digitByte ++
    if fractionDigits 10 d n = [] then []
    else pointChar :: (fractionDigits 10 d n).map digitByte

/-- Characters without the zeros at their end. -/
def trimText (text : List UInt8) : List UInt8 := text.rdropWhile (· == zeroChar)

/-- The loop of `adjustDecimals` finds the end of the trimmed characters. -/
theorem lastZeroOffset_eq {head : List UInt8} (tail : List UInt8) (hhead : head ≠ []) :
    lastZeroOffset (head ++ tail) head.length =
      if trimText tail = tail then 0 else head.length + (trimText tail).length := by
  have hpos : 0 < head.length := List.length_pos_of_ne_nil hhead
  rw [lastZeroOffset, List.drop_left]
  induction tail using List.reverseRecOn with
  | nil => simp [trimText]
  | append_singleton tail c ih =>
    rw [List.zipIdx_append, List.foldl_append, ih]
    by_cases hc : c = zeroChar
    · have htrim : trimText (tail ++ [c]) = trimText tail :=
        List.rdropWhile_concat_pos _ _ _ (by simpa using hc)
      have hle : (trimText tail).length ≤ tail.length := (List.rdropWhile_prefix _ _).length_le
      have hne : trimText tail ≠ tail ++ [c] := fun h => by
        have := congrArg List.length h
        simp at this
        omega
      rw [htrim, if_neg hne]
      simp only [List.zipIdx_cons, List.zipIdx_nil, List.foldl_cons, List.foldl_nil, hc, if_true]
      split_ifs with h1 h2
      · rw [h1]
      · omega
      · omega
      · rfl
    · have htrim : trimText (tail ++ [c]) = tail ++ [c] :=
        List.rdropWhile_concat_neg _ _ _ (by simpa using hc)
      rw [if_pos htrim]
      simp [hc]

/-- Trimming characters takes `'0'`s away. -/
theorem trimText_append (text : List UInt8) (h : trimText text ≠ text) :
    ∃ k, text = trimText text ++ zeroChar :: List.replicate k zeroChar := by
  induction text using List.reverseRecOn with
  | nil => exact absurd rfl h
  | append_singleton text c ih =>
    by_cases hc : c = zeroChar
    · have htrim : trimText (text ++ [c]) = trimText text :=
        List.rdropWhile_concat_pos _ _ _ (by simpa using hc)
      rw [htrim]
      by_cases hsame : trimText text = text
      · exact ⟨0, by rw [hsame, hc]; rfl⟩
      · obtain ⟨k, hk⟩ := ih hsame
        refine ⟨k + 1, ?_⟩
        conv_lhs => rw [hk]
        rw [hc, List.append_assoc, List.cons_append, List.replicate_succ']
    · exact absurd (List.rdropWhile_concat_neg _ _ _ (by simpa using hc)) h

/-- Cutting a text off at its end, and before a point there. -/
theorem cut_holds {text : List UInt8} (rest : List UInt8) (hne : text ≠ [])
    (hnul : (0 : UInt8) ∉ text) :
    HoldsString
      (if (text ++ 0 :: rest).getD (text.length - 1) 0 = pointChar then
        (text ++ 0 :: rest).set (text.length - 1) 0 else text ++ 0 :: rest)
      (if text.getLast? = some pointChar then text.dropLast else text) := by
  obtain rfl | ⟨front, c, rfl⟩ := List.eq_nil_or_concat' text
  · exact absurd rfl hne
  · have hfront : (0 : UInt8) ∉ front := fun h => hnul (List.mem_append_left _ h)
    have hget : (front ++ [c] ++ 0 :: rest).getD ((front ++ [c]).length - 1) 0 = c := by simp
    rw [hget, List.getLast?_concat]
    by_cases hc : c = pointChar
    · rw [if_pos hc, if_pos (congrArg some hc), List.dropLast_concat]
      exact ⟨0 :: rest, by simp [List.set_append_right], hfront⟩
    · rw [if_neg hc, if_neg (fun h => hc (Option.some.inj h))]
      exact ⟨rest, rfl, hnul⟩

/-- What the end of `adjustDecimals` leaves of `head`, which is not scanned, and
`tail`, which is. -/
def trimmedText (head tail : List UInt8) : List UInt8 :=
  if trimText tail ≠ tail ∧ (head ++ trimText tail).getLast? = some pointChar then
    (head ++ trimText tail).dropLast
  else head ++ trimText tail

/-- The end of `adjustDecimals` leaves the trimmed characters. -/
theorem trimTarget_holds (head tail : List UInt8) (hhead : head ≠ []) (hnul : (0 : UInt8) ∉ head)
    (hnul' : (0 : UInt8) ∉ tail) :
    HoldsString (trimTarget (head ++ tail) head.length) (trimmedText head tail) := by
  have hpos : 0 < head.length := List.length_pos_of_ne_nil hhead
  have hlast := lastZeroOffset_eq tail hhead
  by_cases htrim : trimText tail = tail
  · rw [if_pos htrim] at hlast
    refine ⟨[], ?_, ?_⟩
    · rw [trimTarget, hlast, if_neg (by simp), trimmedText, if_neg (fun h => h.1 htrim), htrim]
    · rw [trimmedText, if_neg (fun h => h.1 htrim), htrim]
      simp [hnul, hnul']
  · rw [if_neg htrim] at hlast
    obtain ⟨k, hk⟩ := trimText_append tail htrim
    have htext : (0 : UInt8) ∉ head ++ trimText tail := fun h => by
      obtain h | h := List.mem_append.mp h
      · exact hnul h
      · exact hnul' (by rw [hk]; exact List.mem_append_left _ h)
    have hcut : (head ++ tail ++ [0]).set (head ++ trimText tail).length 0 =
        head ++ trimText tail ++ 0 :: (List.replicate k zeroChar ++ [0]) := by
      generalize trimText tail = trimmed at hk ⊢
      subst hk
      simp [List.set_append_right]
    have hne : (head ++ trimText tail).length ≠ 0 := by rw [List.length_append]; omega
    rw [← List.length_append] at hlast
    rw [trimTarget, hlast, if_pos hne, hcut, trimmedText]
    simp only [ne_eq, htrim, not_false_eq_true, true_and]
    exact cut_holds _ (List.ne_nil_of_length_pos (by omega)) htext

/-- A digit is written by a character other than NUL and the point, and `'0'` is
the character of zero only. -/
theorem digitByte_spec {x : ℕ} (h : x < 10) :
    digitByte x ≠ 0 ∧ digitByte x ≠ pointChar ∧ (digitByte x = zeroChar ↔ x = 0) := by
  revert x
  decide

/-- Digits as characters. -/
def digitsText (digits : List ℕ) : List UInt8 := digits.map digitByte

theorem nul_notMem_digitsText {digits : List ℕ} (h : ∀ x ∈ digits, x < 10) :
    (0 : UInt8) ∉ digitsText digits := by
  intro hmem
  obtain ⟨x, hx, hzero⟩ := List.mem_map.mp hmem
  exact (digitByte_spec (h x hx)).1 hzero

/-- Digits do not end in a point. -/
theorem digitsText_getLast? {digits : List ℕ} (h : ∀ x ∈ digits, x < 10) :
    (digitsText digits).getLast? ≠ some pointChar := by
  obtain rfl | ⟨front, x, rfl⟩ := List.eq_nil_or_concat' digits
  · simp [digitsText]
  · rw [digitsText, List.map_append, List.map_singleton, List.getLast?_concat]
    exact fun heq => (digitByte_spec (h x (by simp))).2.1 (Option.some.inj heq)

/-- Trimming digits and trimming their characters agree. -/
theorem trimText_digitsText {digits : List ℕ} (h : ∀ x ∈ digits, x < 10) :
    trimText (digitsText digits) = digitsText (trimZeros digits) := by
  induction digits using List.reverseRecOn with
  | nil => rfl
  | append_singleton digits x ih =>
    have hx := (digitByte_spec (h x (by simp))).2.2
    have hsplit : digitsText (digits ++ [x]) = digitsText digits ++ [digitByte x] := by
      simp [digitsText]
    by_cases hzero : x = 0
    · have htrim : trimZeros (digits ++ [x]) = trimZeros digits :=
        List.rdropWhile_concat_pos _ _ _ (by simpa using hzero)
      rw [hsplit, htrim, ← ih fun y hy => h y (by simp [hy])]
      exact List.rdropWhile_concat_pos _ _ _ (by simpa using hx.mpr hzero)
    · have htrim : trimZeros (digits ++ [x]) = digits ++ [x] :=
        List.rdropWhile_concat_neg _ _ _ (by simpa using hzero)
      rw [htrim, hsplit]
      exact List.rdropWhile_concat_neg _ _ _ (by simpa using fun h => hzero (hx.mp h))

/-- What `adjustDecimals` leaves when the fraction is not scanned away. -/
theorem trimmedText_digits {head : List UInt8} {digits : List ℕ} (h : ∀ x ∈ digits, x < 10)
    (hne : trimZeros digits ≠ []) :
    trimmedText head (digitsText digits) = head ++ digitsText (trimZeros digits) := by
  have hlt : ∀ x ∈ trimZeros digits, x < 10 := fun x hx =>
    h x ((List.rdropWhile_prefix _ _).subset hx)
  have hcons : digitsText (trimZeros digits) ≠ [] := by simpa [digitsText] using hne
  have hlast : (head ++ digitsText (trimZeros digits)).getLast? ≠ some pointChar := by
    rw [List.getLast?_append_of_ne_nil _ hcons]
    exact digitsText_getLast? hlt
  rw [trimmedText, trimText_digitsText h, if_neg fun h => hlast h.2]

theorem digitsText_append (front digits : List ℕ) :
    digitsText (front ++ digits) = digitsText front ++ digitsText digits := List.map_append

theorem digitsText_replicate (k : ℕ) :
    digitsText (List.replicate k 0) = List.replicate k zeroChar := List.map_replicate

/-- A number without an integer part. -/
theorem decimalText_of_lt {d n : ℕ} (hn : n ≠ 0) (hlt : n < 10 ^ d) :
    decimalText d n = zeroChar :: pointChar ::
      (List.replicate (d - (numeral 10 n).length) zeroChar ++
        digitsText (trimZeros (numeral 10 n))) := by
  have htrim := trimZeros_numeral_ne_nil (b := 10) (by omega) hn
  have hfrac : fractionDigits 10 d n =
      List.replicate (d - (numeral 10 n).length) 0 ++ trimZeros (numeral 10 n) := by
    rw [fractionDigits, paddedDigits_of_lt (by omega) hn hlt, trimZeros_append_of_ne_nil _ htrim]
  have hne : fractionDigits 10 d n ≠ [] := by simp [hfrac, htrim]
  rw [decimalText, if_neg hne, hfrac, integerDigits, Nat.div_eq_of_lt hlt]
  rw [show (numeral 10 0).map digitByte = [zeroChar] from rfl, List.singleton_append,
    ← digitsText, digitsText_append, digitsText_replicate]

/-- Only zero is written by the one character of zero. -/
theorem numeral_ne_zeroText {n : ℕ} (hn : n ≠ 0) :
    ¬((numeral 10 n).length = 1 ∧ (digitsText (numeral 10 n) ++ [0]).getD 0 0 = zeroChar) := by
  obtain ⟨x, rest, hrest, hx⟩ := numeral_head (b := 10) (by omega) hn
  have hlt : x < 10 := numeral_lt_base (b := 10) (n := n) (by omega) (by rw [hrest]; simp)
  rintro ⟨-, hzero⟩
  rw [hrest] at hzero
  exact hx ((digitByte_spec hlt).2.2.mp hzero)

/-- The buffer of `adjustDecimals` for a number shorter than its decimals. -/
theorem adjustDecimals_short {n : ℕ} {targetLength : ℕ} {decimals : UInt8} (hn : n ≠ 0)
    (hlength : (numeral 10 n).length ≤ decimals.toNat)
    (hroom : decimals.toNat + 3 ≤ targetLength) :
    ∃ out, adjustDecimals (digitsText (numeral 10 n) ++ [0]) (numeral 10 n).length targetLength
        decimals = (true, out) ∧ HoldsString out (decimalText decimals.toNat n) := by
  have hdigits : ∀ y ∈ numeral 10 n, y < 10 := fun y hy => numeral_lt_base (by omega) hy
  have hsize := decimals.toNat_lt
  have hlt : n < 10 ^ decimals.toNat :=
    ((numeral_length_le_iff (by omega)
      (List.length_pos_of_ne_nil numeral_ne_nil)).mp le_rfl).trans_le
      (Nat.pow_le_pow_right (by omega) hlength)
  rw [adjustDecimals, if_neg (numeral_ne_zeroText hn), if_pos hlength]
  simp only
  rw [if_neg (by omega)]
  refine ⟨_, rfl, ?_⟩
  have htake : (digitsText (numeral 10 n) ++ [0]).take (numeral 10 n).length =
      digitsText (numeral 10 n) := by
    rw [List.take_left' (by simp [digitsText])]
  rw [htake, decimalText_of_lt hn hlt]
  have hholds := trimTarget_holds
    (zeroChar :: pointChar :: List.replicate (decimals.toNat - (numeral 10 n).length) zeroChar)
    (digitsText (numeral 10 n)) (by simp) (by simp [zeroChar, pointChar])
    (nul_notMem_digitsText hdigits)
  rw [trimmedText_digits hdigits (trimZeros_numeral_ne_nil (by omega) hn)] at hholds
  exact hholds

/-- What `adjustDecimals` leaves of an integer part and a fraction of `d` digits. -/
theorem trimmedText_integer {d n : ℕ} {decimals : UInt8} (hd : decimals.toNat = d) :
    trimmedText (digitsText (integerDigits 10 d n) ++ if decimals ≠ 0 then [pointChar] else [])
      (digitsText (paddedDigits 10 d n)) = decimalText d n := by
  have hpadded : ∀ x ∈ paddedDigits 10 d n, x < 10 := fun x hx =>
    paddedDigits_lt_base (by omega) hx
  have hpoint : decimals ≠ 0 ↔ d ≠ 0 := by
    rw [← hd, ne_eq, ne_eq, ← UInt8.toNat_inj, UInt8.toNat_zero]
  rw [decimalText, ← digitsText, ← digitsText]
  by_cases hnil : fractionDigits 10 d n = []
  · rw [if_pos hnil, List.append_nil]
    have htrim : trimText (digitsText (paddedDigits 10 d n)) = [] := by
      rw [trimText_digitsText hpadded, show trimZeros (paddedDigits 10 d n) = [] from hnil]
      rfl
    rw [trimmedText, htrim, List.append_nil]
    by_cases hzero : d = 0
    · rw [if_neg (fun h => hpoint.mp h hzero), List.append_nil, if_neg]
      rintro ⟨hne, -⟩
      rw [hzero] at hne
      exact hne rfl
    · have hcons : [] ≠ digitsText (paddedDigits 10 d n) := fun h => hzero (by
        have := congrArg List.length h
        simpa [digitsText] using this.symm)
      rw [if_pos (hpoint.mpr hzero), if_pos ⟨hcons, List.getLast?_concat⟩, List.dropLast_concat]
  · have hzero : d ≠ 0 := by
      rintro rfl
      exact hnil rfl
    rw [if_neg hnil, if_pos (hpoint.mpr hzero), trimmedText_digits hpadded hnil, List.append_assoc,
      List.singleton_append]
    rfl

/-- The buffer of `adjustDecimals` for a number longer than its decimals. -/
theorem adjustDecimals_long {n : ℕ} {targetLength : ℕ} {decimals : UInt8} (hn : n ≠ 0)
    (hlength : decimals.toNat < (numeral 10 n).length)
    (hroom : (numeral 10 n).length + 2 ≤ targetLength) (hsmall : targetLength < 2 ^ 32) :
    ∃ out, adjustDecimals (digitsText (numeral 10 n) ++ [0]) (numeral 10 n).length targetLength
        decimals = (true, out) ∧ HoldsString out (decimalText decimals.toNat n) := by
  generalize hd : decimals.toNat = d at hlength ⊢
  have hle : 10 ^ d ≤ n := by
    by_contra hlt
    obtain rfl | hpos := Nat.eq_zero_or_pos d
    · exact hlt (by rw [pow_zero]; omega)
    · have hshort := (numeral_length_le_iff (b := 10) (by omega) hpos).mpr (Nat.lt_of_not_le hlt)
      omega
  have hsplit : numeral 10 n = integerDigits 10 d n ++ paddedDigits 10 d n :=
    numeral_split (by omega) hle
  have hint : (integerDigits 10 d n).length = (numeral 10 n).length - d := by
    have := congrArg List.length hsplit
    rw [List.length_append, paddedDigits_length] at this
    omega
  rw [adjustDecimals, if_neg (numeral_ne_zeroText hn), if_neg (by omega)]
  simp only
  rw [if_neg (by omega), hd]
  refine ⟨_, rfl, ?_⟩
  have htake : (digitsText (numeral 10 n) ++ [0]).take (numeral 10 n).length =
      digitsText (integerDigits 10 d n) ++ digitsText (paddedDigits 10 d n) := by
    rw [List.take_left' (by simp [digitsText]), ← digitsText_append, ← hsplit]
  have hhead : (digitsText (numeral 10 n) ++ [0]).take ((numeral 10 n).length - d) =
      digitsText (integerDigits 10 d n) := by
    rw [← hint, hsplit, digitsText_append, List.append_assoc,
      List.take_left' (by simp [digitsText])]
  have htail : ((digitsText (numeral 10 n) ++ [0]).take (numeral 10 n).length).drop
      ((numeral 10 n).length - d) = digitsText (paddedDigits 10 d n) := by
    rw [htake, ← hint, List.drop_left' (by simp [digitsText])]
  rw [hhead, htail, ← trimmedText_integer hd]
  refine trimTarget_holds _ _ ?_ ?_ (nul_notMem_digitsText fun y hy =>
    paddedDigits_lt_base (by omega) hy)
  · simp [digitsText, integerDigits, numeral_ne_nil]
  · have hnul := nul_notMem_digitsText fun y (hy : y ∈ integerDigits 10 d n) =>
      numeral_lt_base (by omega) hy
    split <;> simp [hnul, pointChar]

/-- Zero has no fraction. -/
theorem decimalText_zero (d : ℕ) : decimalText d 0 = [zeroChar] := by
  have hnil : fractionDigits 10 d 0 = [] := by
    rw [fractionDigits, paddedDigits_zero]
    exact List.rdropWhile_eq_nil_iff.mpr (by simp)
  rw [decimalText, if_pos hnil, integerDigits, Nat.zero_div]
  rfl

/-- **`adjustDecimals` writes the decimal fraction** when it fits. -/
theorem adjustDecimals_holds {n targetLength : ℕ} {decimals : UInt8}
    (hroom : (numeral 10 n).length + 2 ≤ targetLength) (hroom' : decimals.toNat + 3 ≤ targetLength)
    (hsmall : targetLength < 2 ^ 32) :
    ∃ out, adjustDecimals (digitsText (numeral 10 n) ++ [0]) (numeral 10 n).length targetLength
        decimals = (true, out) ∧ HoldsString out (decimalText decimals.toNat n) := by
  by_cases hn : n = 0
  · subst hn
    rw [decimalText_zero]
    exact ⟨[zeroChar, 0], by rw [adjustDecimals, if_pos ⟨rfl, rfl⟩, if_neg (by omega)],
      [], rfl, by simp [zeroChar]⟩
  · obtain hle | hlt := Nat.lt_or_ge decimals.toNat (numeral 10 n).length
    · exact adjustDecimals_long hn hle hroom hsmall
    · exact adjustDecimals_short hn hlt hroom'

end AppVechain
