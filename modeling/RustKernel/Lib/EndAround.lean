import Mathlib.Data.Nat.ModEq
import Mathlib.Tactic

/-!
# RustKernel.Lib.EndAround

One's complement sums in base `m`: a sum is reduced by adding the carry to the digit until it is
one digit, so it keeps its residue modulo `m - 1`, and of the two digits with residue 0 a positive
sum is reduced to `m - 1`.

`fold_add_complement` is what a check field is for: the sum of the data and the complement of their
reduced sum is reduced to `m - 1`, whose complement is 0.
-/

namespace RustKernel.Lib.EndAround

variable {m : Nat}

/-- A carry makes the sum smaller. -/
theorem carry_lt {n : Nat} (hm : 2 ≤ m) (h : m ≤ n) : n % m + n / m < n := by
  have hdiv := Nat.div_add_mod n m
  have hpos : 0 < n / m := Nat.div_pos h (by omega)
  have hmul : 2 * (n / m) ≤ m * (n / m) := Nat.mul_le_mul_right _ hm
  omega

/-- The reduced sum: the carry is added until there is none. -/
def fold (m n : Nat) : Nat :=
  if 2 ≤ m ∧ m ≤ n then fold m (n % m + n / m) else n
termination_by n
decreasing_by
  rename_i h
  exact carry_lt h.1 h.2

theorem fold_of_lt {n : Nat} (h : n < m) : fold m n = n := by
  rw [fold, if_neg (by omega)]

theorem fold_lt (hm : 2 ≤ m) (n : Nat) : fold m n < m := by
  fun_induction fold m n with
  | case1 n h ih => exact ih
  | case2 n h => omega

/-- Adding the carry keeps the residue. -/
theorem carry_modEq (hm : 2 ≤ m) (n : Nat) : n % m + n / m ≡ n [MOD m - 1] := by
  have hone : m ≡ 1 [MOD m - 1] := by
    refine (Nat.modEq_iff_dvd' (by omega)).mpr dvd_rfl |>.symm
  have hmul : m * (n / m) ≡ 1 * (n / m) [MOD m - 1] := hone.mul_right _
  have hdiv := Nat.mod_add_div n m
  calc n % m + n / m = n % m + 1 * (n / m) := by rw [Nat.one_mul]
    _ ≡ n % m + m * (n / m) [MOD m - 1] := hmul.symm.add_left _
    _ = n := hdiv

theorem fold_modEq (hm : 2 ≤ m) (n : Nat) : fold m n ≡ n [MOD m - 1] := by
  fun_induction fold m n with
  | case1 n h ih => exact ih.trans (carry_modEq hm n)
  | case2 n h => rfl

/-- A positive sum is not reduced to 0. -/
theorem fold_pos {n : Nat} (hn : 0 < n) : 0 < fold m n := by
  fun_induction fold m n with
  | case1 n h ih =>
    have hpos : 0 < n / m := Nat.div_pos h.2 (by omega)
    exact ih (by omega)
  | case2 n h => exact hn

/-- A positive sum with residue 0 is reduced to the digit `m - 1`. -/
theorem fold_eq_pred {n : Nat} (hm : 2 ≤ m) (hn : 0 < n) (hdvd : m - 1 ∣ n) :
    fold m n = m - 1 := by
  have hzero : fold m n ≡ 0 [MOD m - 1] := (fold_modEq hm n).trans (Nat.modEq_zero_iff_dvd.mpr hdvd)
  have hle := Nat.le_of_dvd (fold_pos hn) (Nat.modEq_zero_iff_dvd.mp hzero)
  have hlt := fold_lt hm n
  omega

/-- The data and the complement of their reduced sum add up to the digit `m - 1`. -/
theorem fold_add_complement (hm : 2 ≤ m) (n : Nat) : fold m (n + (m - 1 - fold m n)) = m - 1 := by
  have hlt := fold_lt hm n
  have hmod := fold_modEq hm n
  refine fold_eq_pred hm ?_ ?_
  · -- if the complement is 0, the sum is not
    by_contra hzero
    have hn : n = 0 := by omega
    rw [hn, fold_of_lt (by omega)] at hzero
    omega
  · apply Nat.modEq_zero_iff_dvd.mp
    calc n + (m - 1 - fold m n) ≡ fold m n + (m - 1 - fold m n) [MOD m - 1] :=
          hmod.symm.add_right _
      _ = m - 1 := by omega
      _ ≡ 0 [MOD m - 1] := Nat.modEq_zero_iff_dvd.mpr dvd_rfl

end RustKernel.Lib.EndAround
