import Mathlib.Data.Int.ConditionallyCompleteOrder
import Mathlib.Order.Monotone.Basic
import ServerStream.Numeric.Rounding

/-!
# Rounding and order

Rounding to the nearest integer keeps the order (`roundDiv_mono`), and multiples of a
fraction stay apart if and only if the fraction is at least one
(`strictMono_roundDiv_iff`). Hence ticks that are recounted in ticks that are not longer
keep their order strictly, and in longer ones they do not.
-/

namespace Numeric

variable {n m k c : ℤ}

theorem roundDiv_nonneg (hc : 0 < c) (hn : 0 ≤ n) : 0 ≤ roundDiv n c := by
  rw [roundDiv, if_pos hn]
  exact Int.ediv_nonneg (by omega) hc.le

theorem roundDiv_nonpos (hc : 0 < c) (hn : n ≤ 0) : roundDiv n c ≤ 0 := by
  have hneg := roundDiv_nonneg hc (show 0 ≤ -n by omega)
  rw [roundDiv_neg hc] at hneg
  omega

theorem roundDiv_mono_of_nonneg (hc : 0 < c) (hn : 0 ≤ n) (h : n ≤ m) :
    roundDiv n c ≤ roundDiv m c := by
  rw [roundDiv, roundDiv, if_pos hn, if_pos (hn.trans h)]
  exact Int.ediv_le_ediv hc (by omega)

theorem roundDiv_mono (hc : 0 < c) (h : n ≤ m) : roundDiv n c ≤ roundDiv m c := by
  rcases le_or_gt 0 n with hn | hn
  · exact roundDiv_mono_of_nonneg hc hn h
  · rcases le_or_gt 0 m with hm | hm
    · exact (roundDiv_nonpos hc hn.le).trans (roundDiv_nonneg hc hm)
    · have hneg := roundDiv_mono_of_nonneg hc (show 0 ≤ -m by omega)
        (show -m ≤ -n by omega)
      rw [roundDiv_neg hc, roundDiv_neg hc] at hneg
      omega

theorem roundDiv_lt_of_nonneg (hc : 0 < c) (hn : 0 ≤ n) (h : n + c ≤ m) :
    roundDiv n c < roundDiv m c := by
  have hnext : (n + c / 2) / c + 1 ≤ (m + c / 2) / c := by
    refine (Int.le_ediv_iff_mul_le hc).mpr ?_
    have hle := Int.ediv_mul_le (n + c / 2) hc.ne'
    rw [add_mul, one_mul]
    omega
  rw [roundDiv, roundDiv, if_pos hn, if_pos (by omega)]
  omega

/-- Numbers that are `c` apart are rounded to different quotients by `c`. -/
theorem roundDiv_lt (hc : 0 < c) (h : n + c ≤ m) : roundDiv n c < roundDiv m c := by
  rcases le_or_gt 0 n with hn | hn
  · exact roundDiv_lt_of_nonneg hc hn h
  · rcases le_or_gt m 0 with hm | hm
    · have hneg := roundDiv_lt_of_nonneg hc (show 0 ≤ -m by omega)
        (show -m + c ≤ -n by omega)
      rw [roundDiv_neg hc, roundDiv_neg hc] at hneg
      omega
    · -- one of them is at least one half away from zero
      have hone {a : ℤ} (ha : c ≤ a + c / 2) (hnonneg : 0 ≤ a) : 1 ≤ roundDiv a c := by
        rw [roundDiv, if_pos hnonneg]
        exact (Int.le_ediv_iff_mul_le hc).mpr (by omega)
      have hlow := roundDiv_nonpos hc hn.le
      have hhigh := roundDiv_nonneg hc hm.le
      by_cases hhalf : c ≤ m + c / 2
      · have hm1 := hone hhalf hm.le
        omega
      · have hn1 := hone (show c ≤ -n + c / 2 by omega) (by omega)
        rw [roundDiv_neg hc] at hn1
        omega

theorem natCast_le_of_strictMono {f : ℤ → ℤ} (hf : StrictMono f) (hzero : f 0 = 0)
    (n : ℕ) : (n : ℤ) ≤ f n := by
  induction n with
  | zero => exact hzero.ge
  | succ n ih =>
      have hnext := hf (show (n : ℤ) < n + 1 by omega)
      push_cast
      omega

/-- The multiples of `k / c` are rounded to different numbers if and only if the
fraction is at least one. -/
theorem strictMono_roundDiv_iff (hc : 0 < c) :
    StrictMono (fun a : ℤ => roundDiv (a * k) c) ↔ c ≤ k := by
  constructor
  · intro hmono
    by_contra hlt
    have hzero : roundDiv (0 * k) c = 0 := by
      rw [zero_mul]
      exact le_antisymm (roundDiv_nonpos hc le_rfl) (roundDiv_nonneg hc le_rfl)
    -- the multiple number `c` is less than `c`, even when it is rounded up
    have hge := natCast_le_of_strictMono hmono hzero c.toNat
    rw [Int.toNat_of_nonneg hc.le] at hge
    have hround := two_mul_abs_roundDiv_mul_sub_le hc (c * k)
    have hle := le_abs_self (roundDiv (c * k) c * c - c * k)
    have hscaled : c * c ≤ roundDiv (c * k) c * c := mul_le_mul_of_nonneg_right hge hc.le
    have hless : c * (k + 1) ≤ c * c := mul_le_mul_of_nonneg_left (by omega) hc.le
    have hexpand : c * (k + 1) = c * k + c := by ring
    omega
  · intro h a b hab
    refine roundDiv_lt hc ?_
    have hstep : (a + 1) * k ≤ b * k :=
      mul_le_mul_of_nonneg_right hab (hc.le.trans h)
    have hexpand : (a + 1) * k = a * k + k := by ring
    omega

end Numeric
