import Mathlib.Algebra.Order.Archimedean.Basic
import Mathlib.Algebra.Order.Ring.Abs
import Mathlib.Data.Rat.Cast.Order
import Mathlib.Tactic.Linarith
import Mathlib.Tactic.Ring

/-!
# Rounding to the nearest integer

`roundDiv n c` is `n / c` rounded to the nearest integer, halves away from zero,
computed on integers. The exact quotient is at most one half away
(`two_mul_abs_roundDiv_mul_sub_le`).

Ticks of one length are recounted in ticks of another (`Recounts`). Two
recountings after each other lose one half tick each, as long as the second reads
the ticks with the length with which the first counted them; otherwise no bound on
the loss holds (`Recounts.comp_iff`).
-/

namespace Numeric

/-- `n / c` to the nearest integer, for a positive `c`. -/
def roundDiv (n c : ℤ) : ℤ :=
  if 0 ≤ n then (n + c / 2) / c else -((-n + c / 2) / c)

theorem roundDiv_neg {n c : ℤ} (hc : 0 < c) : roundDiv (-n) c = -roundDiv n c := by
  unfold roundDiv
  rcases lt_trichotomy n 0 with hneg | rfl | hpos
  · rw [if_pos (by omega), if_neg (by omega), neg_neg]
  · have hhalf : c / 2 / c = 0 := Int.ediv_eq_zero_of_lt (by omega) (by omega)
    simp [hhalf]
  · rw [if_neg (by omega), if_pos (by omega), neg_neg]

theorem two_mul_abs_roundDiv_mul_sub_le_of_nonneg {n c : ℤ} (hc : 0 < c)
    (hn : 0 ≤ n) : 2 * |roundDiv n c * c - n| ≤ c := by
  have hmod := Int.emod_add_mul_ediv (n + c / 2) c
  have hlow := Int.emod_nonneg (n + c / 2) hc.ne'
  have hhigh := Int.emod_lt_of_pos (n + c / 2) hc
  have hquot : roundDiv n c * c = n + c / 2 - (n + c / 2) % c := by
    rw [roundDiv, if_pos hn, mul_comm]
    omega
  have habs : |roundDiv n c * c - n| ≤ c / 2 := by
    rw [abs_le]
    constructor
    · omega
    · omega
  omega

theorem two_mul_abs_roundDiv_mul_sub_le {c : ℤ} (hc : 0 < c) (n : ℤ) :
    2 * |roundDiv n c * c - n| ≤ c := by
  rcases le_or_gt 0 n with hn | hn
  · exact two_mul_abs_roundDiv_mul_sub_le_of_nonneg hc hn
  · have hneg := two_mul_abs_roundDiv_mul_sub_le_of_nonneg hc
      (show 0 ≤ -n by omega)
    rw [roundDiv_neg hc] at hneg
    have hflip : -roundDiv n c * c - -n = -(roundDiv n c * c - n) := by ring
    rwa [hflip, abs_neg] at hneg

/-- `f` recounts ticks of length `src` in ticks of length `dst`, to the nearest
one. -/
def Recounts (f : ℤ → ℤ) (src dst : ℚ) : Prop :=
  ∀ a, |f a * dst - a * src| ≤ dst / 2

theorem recounts_roundDiv {src dst : ℚ} {n c : ℤ} (hc : 0 < c) (hdst : 0 < dst)
    (hratio : src * c = dst * n) :
    Recounts (fun a => roundDiv (a * n) c) src dst := by
  intro a
  have hround := two_mul_abs_roundDiv_mul_sub_le hc (a * n)
  have hcast : 2 * |(roundDiv (a * n) c : ℚ) * c - a * n| ≤ c := by
    exact_mod_cast hround
  have hc' : (0 : ℚ) < c := by exact_mod_cast hc
  have hscale : ((roundDiv (a * n) c : ℚ) * dst - a * src) * c =
      ((roundDiv (a * n) c : ℚ) * c - a * n) * dst := by
    rw [sub_mul, sub_mul, mul_assoc (a : ℚ) src, hratio]
    ring
  have habs : |(roundDiv (a * n) c : ℚ) * dst - a * src| * c =
      |(roundDiv (a * n) c : ℚ) * c - a * n| * dst := by
    rw [← abs_of_pos hc', ← abs_mul, hscale, abs_mul, abs_of_pos hdst,
      abs_of_pos hc']
  rw [← mul_le_mul_iff_left₀ hc', habs]
  nlinarith

namespace Recounts

variable {f g : ℤ → ℤ} {src mid mid' dst : ℚ}

/-- Ticks that are counted with the length they are read with lose one half tick
each time. -/
theorem comp_le (hf : Recounts f src mid) (hg : Recounts g mid dst) (a : ℤ) :
    |g (f a) * dst - a * src| ≤ mid / 2 + dst / 2 := by
  calc |(g (f a) : ℚ) * dst - a * src|
      ≤ |(g (f a) : ℚ) * dst - f a * mid| + |(f a : ℚ) * mid - a * src| :=
        abs_sub_le _ _ _
    _ ≤ dst / 2 + mid / 2 := add_le_add (hg (f a)) (hf a)
    _ = mid / 2 + dst / 2 := add_comm _ _

/-- What is lost grows with the number of ticks, when they are read with another
length than they were counted with. -/
theorem le_of_comp_le (hf : Recounts f src mid) (hg : Recounts g mid' dst)
    (a : ℤ) :
    |(f a : ℚ)| * |mid' - mid| ≤
      |g (f a) * dst - a * src| + mid / 2 + dst / 2 := by
  have hsplit : (f a : ℚ) * (mid' - mid) =
      (g (f a) * dst - a * src) - (f a * mid - a * src) -
        (g (f a) * dst - f a * mid') := by ring
  calc |(f a : ℚ)| * |mid' - mid| = |(f a : ℚ) * (mid' - mid)| :=
        (abs_mul _ _).symm
    _ ≤ |(g (f a) : ℚ) * dst - a * src| + |(f a : ℚ) * mid - a * src| +
          |(g (f a) : ℚ) * dst - f a * mid'| := by
        rw [hsplit]
        exact (abs_sub _ _).trans (add_le_add_left (abs_sub _ _) _)
    _ ≤ |(g (f a) : ℚ) * dst - a * src| + mid / 2 + dst / 2 :=
        add_le_add (add_le_add_right (hf a) _) (hg (f a))

theorem exists_le (hf : Recounts f src mid) (hsrc : 0 < src) (hmid : 0 < mid)
    (bound : ℚ) : ∃ a, bound ≤ f a := by
  obtain ⟨n, hn⟩ := exists_nat_ge ((bound + 1) * mid / src)
  refine ⟨n, ?_⟩
  have hlow := (abs_le.mp (hf n)).1
  have hreach : (bound + 1) * mid ≤ n * src := (div_le_iff₀ hsrc).mp hn
  push_cast at hlow
  have hle : bound * mid ≤ f n * mid := by linarith
  exact le_of_mul_le_mul_right hle hmid

/-- Whatever loss is allowed, it is kept for all numbers of ticks if and only if
they are read with the length they were counted with. -/
theorem comp_iff {bound : ℚ} (hf : Recounts f src mid) (hg : Recounts g mid' dst)
    (hsrc : 0 < src) (hmid : 0 < mid) (hbound : mid / 2 + dst / 2 ≤ bound) :
    (∀ a : ℤ, |(g (f a) : ℚ) * dst - a * src| ≤ bound) ↔ mid = mid' := by
  constructor
  · intro hall
    by_contra hne
    have hgap : 0 < |mid' - mid| := abs_pos.mpr (sub_ne_zero.mpr (Ne.symm hne))
    obtain ⟨a, ha⟩ := hf.exists_le hsrc hmid
      ((2 * bound + 1) / |mid' - mid|)
    have hlarge : 2 * bound + 1 ≤ f a * |mid' - mid| :=
      (div_le_iff₀ hgap).mp ha
    have hlost := hf.le_of_comp_le hg a
    have habs : f a * |mid' - mid| ≤ |(f a : ℚ)| * |mid' - mid| :=
      mul_le_mul_of_nonneg_right (le_abs_self _) hgap.le
    linarith [hall a]
  · rintro rfl a
    exact (hf.comp_le hg a).trans hbound

end Recounts

end Numeric
