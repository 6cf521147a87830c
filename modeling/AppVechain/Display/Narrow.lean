import AppVechain.Display.Text
import AppVechain.Uint256.Narrow

/-!
# Texts of numbers with 128 bits

`tostring128` of `common/uint256.c`. Whatever the base and the buffer are, it does with
a number what `tostring256` does with the same number: what holds of the texts of
the one holds of those of the other.
-/

namespace AppVechain

/-- The loop of `tostring128`; `out` holds the digits written so far. -/
def tostringLoop128 (base : Uint128) (outLength : UInt32) :
    ℕ → Uint128 → List UInt8 → Option (Bool × List UInt8)
  | 0, _, _ => none
  | fuel + 1, rDiv, out =>
    if out.length > (outLength - 1).toNat then some (false, out)
    else do
      let (rDiv, rMod) ← divmod128 rDiv base
      let digit ← HEXDIGITS[rMod.lower.toUInt8.toNat]?
      let out := out ++ [digit]
      if !zero128 rDiv then tostringLoop128 base outLength fuel rDiv out
      else (reverseString out).map fun str => (true, str ++ [0])

/-- `tostring128`. The loop is cut off as the one of `tostring256` is. -/
def tostring128 (number : Uint128) (baseParam outLength : UInt32) : Option (Bool × List UInt8) :=
  let base : Uint128 := ⟨0, baseParam.toUInt64⟩
  if baseParam < 2 ∨ baseParam > 16 then some (false, [])
  else tostringLoop128 base outLength 257 number []

/-- The loops write the same digits. -/
theorem tostringLoop128_eq {base : Uint128} (hbase : base.toNat ≠ 0) (outLength : UInt32)
    (fuel : ℕ) (rDiv : Uint128) (out : List UInt8) :
    tostringLoop128 base outLength fuel rDiv out =
      tostringLoop base.widen outLength fuel rDiv.widen out := by
  induction fuel generalizing rDiv out with
  | zero => rfl
  | succ fuel ih =>
    rw [tostringLoop128, tostringLoop, ← divmod128_widen rDiv hbase]
    split
    · rfl
    · cases divmod128 rDiv base with
      | none => rfl
      | some result =>
        simp only [Option.map_some, Option.bind_eq_bind, Option.bind_some, Prod.map_fst,
          Prod.map_snd, zero256_widen, ih]
        rfl

/-- **`tostring128` writes what `tostring256` writes**, in every base and to every length: the
canonical text when it fits, nothing when the base is refused, and the same bytes, also behind
the buffer, when it does not fit. -/
theorem tostring128_eq_tostring256 (number : Uint128) (baseParam outLength : UInt32) :
    tostring128 number baseParam outLength = tostring256 number.widen baseParam outLength := by
  rw [tostring128, tostring256]
  split
  · rfl
  · rename_i hbase
    apply tostringLoop128_eq
    rw [← Uint128.widen_toNat]
    show (⟨clear128, ⟨0, baseParam.toUInt64⟩⟩ : Uint256).toNat ≠ 0
    rw [tostringBase_toNat]
    intro hzero
    have htwo : baseParam < 2 := by
      rw [UInt32.lt_iff_toNat_lt, hzero]
      decide
    exact hbase (.inl htwo)

example : tostring128 ⟨0, 255⟩ 16 3 = some (true, [102, 102, 0]) := by decide +kernel

end AppVechain
