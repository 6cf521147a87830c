import AppVechain.Loop.While
import Mathlib.Data.Nat.Size
import Mathlib.Tactic.Ring

/-!
# Binary long division

Division by shifting and subtracting. The divisor is shifted up to the length of
the dividend; each turn tries to subtract it from the remainder, sets the
quotient bit when it does, and shifts it down by one place.
-/

namespace Numeral

open Loop

/-- Halving a positive number takes one bit away. -/
theorem size_div_two {n : ℕ} (h : n ≠ 0) : Nat.size n = Nat.size (n / 2) + 1 := by
  apply le_antisymm
  · have hlt := Nat.lt_size_self (n / 2)
    apply Nat.size_le.mpr
    rw [pow_succ]
    omega
  · obtain ⟨k, hk⟩ : ∃ k, Nat.size n = k + 1 :=
      Nat.exists_eq_succ_of_ne_zero fun hsize => h (Nat.size_eq_zero.mp hsize)
    have hlt := Nat.lt_size_self n
    rw [hk, pow_succ] at hlt
    have hle : Nat.size (n / 2) ≤ k := Nat.size_le.mpr (by omega)
    omega

/-- A number with a positive upper part is as long as that part and the lower word. -/
theorem size_mul_two_pow_add {a b w : ℕ} (ha : a ≠ 0) (hb : b < 2 ^ w) :
    Nat.size (a * 2 ^ w + b) = w + Nat.size a := by
  apply le_antisymm
  · refine Nat.size_le.mpr ?_
    have hlt := Nat.lt_size_self a
    calc a * 2 ^ w + b < a * 2 ^ w + 2 ^ w := by omega
      _ = (a + 1) * 2 ^ w := by ring
      _ ≤ 2 ^ Nat.size a * 2 ^ w := Nat.mul_le_mul_right _ hlt
      _ = 2 ^ (w + Nat.size a) := by rw [pow_add, Nat.mul_comm]
  · obtain ⟨k, hk⟩ : ∃ k, Nat.size a = k + 1 :=
      Nat.exists_eq_succ_of_ne_zero fun hsize => ha (Nat.size_eq_zero.mp hsize)
    have hle : 2 ^ k ≤ a := Nat.lt_size.mp (by omega)
    have hsize : w + k < Nat.size (a * 2 ^ w + b) := by
      apply Nat.lt_size.mpr
      calc 2 ^ (w + k) = 2 ^ k * 2 ^ w := by rw [pow_add, Nat.mul_comm]
        _ ≤ a * 2 ^ w := Nat.mul_le_mul_right _ hle
        _ ≤ a * 2 ^ w + b := Nat.le_add_right _ _
    omega

/-- The registers of a division. -/
structure Division where
  shifted : ℕ
  weight : ℕ
  quotient : ℕ
  remainder : ℕ

/-- One turn of a division. -/
def Division.step (d : Division) : Division where
  shifted := d.shifted / 2
  weight := d.weight / 2
  quotient := if d.shifted ≤ d.remainder then d.quotient ||| d.weight else d.quotient
  remainder := if d.shifted ≤ d.remainder then d.remainder - d.shifted else d.remainder

/-- The registers after some turns: quotient bits from `2 ^ (k + 1)` up are
known, and the remainder is below twice the divisor shifted by `k` places;
or the division is over. -/
def Division.Inv (l r : ℕ) (d : Division) : Prop :=
  l = d.quotient * r + d.remainder ∧
    ((∃ k, d.weight = 2 ^ k ∧ d.shifted = r * 2 ^ k ∧ 2 ^ (k + 1) ∣ d.quotient ∧
      d.remainder < 2 * d.shifted) ∨ d.remainder < r)

/-- A bit below the known bits of a number is added to it. -/
theorem or_two_pow {q k : ℕ} (h : 2 ^ (k + 1) ∣ q) : q ||| 2 ^ k = q + 2 ^ k := by
  obtain ⟨m, rfl⟩ := h
  exact (Nat.two_pow_add_eq_or_of_lt (Nat.pow_lt_pow_right (by omega) (by omega)) m).symm

/-- A turn shifts the divisor and the weight down by one place. -/
theorem Division.step_shift {d : Division} {r k : ℕ} (hweight : d.weight = 2 ^ (k + 1))
    (hshifted : d.shifted = r * 2 ^ (k + 1)) :
    d.step.weight = 2 ^ k ∧ d.step.shifted = r * 2 ^ k ∧ d.shifted = 2 * d.step.shifted := by
  have hhalf : d.step.shifted = r * 2 ^ k := by
    rw [Division.step, hshifted, pow_succ, ← Nat.mul_assoc]
    exact Nat.mul_div_cancel _ (by omega)
  refine ⟨?_, hhalf, ?_⟩
  · rw [Division.step, hweight, pow_succ]
    exact Nat.mul_div_cancel _ (by omega)
  · rw [hhalf, hshifted, pow_succ]
    ring

/-- A turn keeps the invariant. -/
theorem Division.step_inv {l r : ℕ} {d : Division} (hinv : d.Inv l r) (hcond : r ≤ d.remainder) :
    d.step.Inv l r := by
  obtain ⟨hl, ⟨k, hweight, hshifted, hdvd, hrem⟩ | hdone⟩ := hinv
  swap
  · omega
  have hdvd' : 2 ^ k ∣ d.quotient := (pow_dvd_pow 2 (by omega)).trans hdvd
  by_cases hsub : d.shifted ≤ d.remainder
  · have hq : d.step.quotient = d.quotient + 2 ^ k := by
      rw [Division.step, if_pos hsub, hweight, or_two_pow hdvd]
    have hm : d.step.remainder = d.remainder - d.shifted := if_pos hsub
    constructor
    · rw [hq, hm, Nat.add_mul, Nat.mul_comm (2 ^ k) r, ← hshifted]
      omega
    · cases k with
      | zero =>
        rw [pow_zero, Nat.mul_one] at hshifted
        exact .inr (by omega)
      | succ k =>
        obtain ⟨hweight', hshifted', hdouble⟩ := Division.step_shift hweight hshifted
        refine .inl ⟨k, hweight', hshifted', ?_, by omega⟩
        rw [hq]
        exact Nat.dvd_add hdvd' dvd_rfl
  · have hq : d.step.quotient = d.quotient := if_neg hsub
    have hm : d.step.remainder = d.remainder := if_neg hsub
    refine ⟨by rw [hq, hm]; exact hl, ?_⟩
    cases k with
    | zero =>
      -- at the last place the shifted divisor is the divisor itself
      rw [pow_zero, Nat.mul_one] at hshifted
      omega
    | succ k =>
      obtain ⟨hweight', hshifted', hdouble⟩ := Division.step_shift hweight hshifted
      exact .inl ⟨k, hweight', hshifted', by rw [hq]; exact hdvd', by omega⟩

/-- A turn of a division that is not over takes a bit off the weight. -/
theorem Division.step_weight {l r : ℕ} {d : Division} (hinv : d.Inv l r)
    (hcond : r ≤ d.remainder) : Nat.size d.step.weight < Nat.size d.weight := by
  obtain ⟨-, ⟨k, hweight, -⟩ | hdone⟩ := hinv
  · have hpos : d.weight ≠ 0 := by
      rw [hweight]
      exact (Nat.two_pow_pos k).ne'
    have hsize := size_div_two hpos
    simp only [Division.step]
    omega
  · omega

/-- **Long division divides**, when the divisor starts at most one place too low. -/
theorem Division.loop_correct (fuel : ℕ) {l r k : ℕ} (hr : 0 < r) (hstart : l < 2 * (r * 2 ^ k))
    (hfuel : k + 1 < fuel) :
    ∃ d, whileLoop (fun d => decide (r ≤ d.remainder)) Division.step fuel
        ⟨r * 2 ^ k, 2 ^ k, 0, l⟩ = some d ∧ d.quotient = l / r ∧ d.remainder = l % r := by
  have hinv : Division.Inv l r ⟨r * 2 ^ k, 2 ^ k, 0, l⟩ :=
    ⟨by simp, .inl ⟨k, rfl, rfl, dvd_zero _, hstart⟩⟩
  obtain ⟨d, hd, ⟨hl, -⟩, hend⟩ := whileLoop_total (Division.Inv l r) (fun d => Nat.size d.weight)
    (fun d hd hcond => ⟨Division.step_inv hd (of_decide_eq_true hcond),
      Division.step_weight hd (of_decide_eq_true hcond)⟩) fuel hinv
    (show Nat.size (2 ^ k) < fuel by rwa [Nat.size_pow])
  have hlt : d.remainder < r := by simpa using hend
  refine ⟨d, hd, ?_, ?_⟩
  · rw [hl, Nat.mul_comm, Nat.mul_add_div hr, Nat.div_eq_of_lt hlt, Nat.add_zero]
  · rw [hl, Nat.mul_comm, Nat.mul_add_mod, Nat.mod_eq_of_lt hlt]

end Numeral
