import OpenTurns.InverseBoxCox.PointCall
import Mathlib.Analysis.SpecialFunctions.Log.Deriv

/-!
# Accuracy of the expansion branch

The exact inverse of the Box-Cox transform is `(λx + 1)^(1/λ)`, and `exp x` at `λ = 0`. When
`|λx²| < 1e-8` both paths return the expansion `exp(x)(1 - λx²/2)` instead. Writing the exact
value as `exp(log(1 + λx)/λ)`, the ratio of the two is `exp(a)(1 - u/2)` with `u = λx²` and
`a = (λx - log(1 + λx))/λ`, and `a` is close to `u/2` as long as `log(1 + λx)` is close to its
second order expansion. That holds for `λx ≥ -1/2`; as `λx` tends to `-1` it does not.

* `exactInverse`: the exact value the expansion replaces, and the value of the exact branch
  (`policyCoordinate_of_exact`);
* `sub_log_one_add_le`, `abs_exp_mul_sub_one_le`: the two real estimates;
* **`policyCoordinate_relative_error`**: the coordinate is within relative error `1e-8` of the
  exact value, exactly equal in the exact branch, when `λx ≥ -1/2` in the expansion branch;
* **`operatorPoint_relative_error`**: the same for every coordinate a point call returns;
* `expansion_far_from_exactInverse`, `expansion_misses_exactInverse`: near `λx = -1` the
  expansion is off by more than `1e-8`.
-/

namespace OpenTurns

namespace InverseBoxCoxEvaluation

/-- The exact inverse of the Box-Cox transform of exponent `lambda`: `(λx + 1)^(1/λ)`, and
`exp x` when `λ = 0`. -/
noncomputable def exactInverse (lambda x : ℝ) : ℝ :=
  if lambda = 0 then Real.exp x else (lambda * x + 1) ^ (1 / lambda)

theorem policyCoordinate_of_exact {l x : ℝ} (hs : 1e-8 ≤ |l * x * x|) :
    policyCoordinate l x = exactInverse l x := by
  have hl : l ≠ 0 := by rintro rfl; norm_num at hs
  rw [policyCoordinate, if_neg (not_lt.2 hs), exactInverse, if_neg hl]
  norm_num

theorem policyCoordinate_zero {x : ℝ} : policyCoordinate 0 x = exactInverse 0 x := by
  norm_num [policyCoordinate, exactInverse]

/-! ## Two estimates over the reals -/

theorem sub_log_one_add_le {t : ℝ} (ht : -1/2 ≤ t) :
    0 ≤ t - Real.log (1 + t) ∧ t - Real.log (1 + t) ≤ 7/6 * t ^ 2 := by
  have hpos : 0 < 1 + t := by linarith only [ht]
  refine ⟨by linarith only [Real.log_le_sub_one_of_pos hpos], ?_⟩
  rcases le_or_lt 0 t with h0 | h0
  · have hinv : (1 + t)⁻¹ ≤ 1 - t + t ^ 2 := by
      rw [inv_le_iff_one_le_mul₀ hpos]
      linarith only [pow_nonneg h0 3, show (1 + t) * (1 - t + t ^ 2) = 1 + t ^ 3 by ring]
    linarith only [Real.one_sub_inv_le_log_of_pos hpos, sq_nonneg t, hinv]
  · have hs : |-t| < 1 := by rw [abs_lt]; constructor <;> linarith only [ht, h0]
    have h := (abs_le.1 (Real.abs_log_sub_add_sum_range_le hs 3)).1
    simp only [Finset.sum_range_succ, Finset.sum_range_zero, sub_neg_eq_add, abs_neg,
      abs_of_neg h0] at h
    norm_num at h
    rw [show (-t) ^ 4 = t ^ 4 by ring, show (-t) ^ 3 = -t ^ 3 by ring] at h
    have hden : t ^ 4 / (1 + t) ≤ 2 * t ^ 4 := by
      rw [div_le_iff₀ hpos]
      linarith only [mul_nonneg (pow_two_nonneg (t ^ 2)) (by linarith only [ht] : (0 : ℝ) ≤ 1 + 2 * t)]
    -- `-1/2 ≤ t < 0` bounds the cubic and quartic terms by `t²`
    have ht2 : 0 ≤ t ^ 2 * (t + 1/2) := mul_nonneg (sq_nonneg t) (by linarith only [ht])
    have h4 : t ^ 4 ≤ t ^ 2 / 4 := by
      linarith only [mul_nonneg ht2 (by linarith only [h0] : (0 : ℝ) ≤ 1/2 - t)]
    linarith only [h, hden, ht2, h4]

theorem abs_exp_mul_sub_one_le {a u : ℝ} (hu : |u| < 1e-8) (ha : |a| ≤ 7/6 * |u|)
    (hau : |a - u/2| ≤ 2/3 * |u|) : |Real.exp a * (1 - u/2) - 1| ≤ 1e-8 := by
  rw [show (1e-8 : ℝ) = 1 / 100000000 by norm_num] at hu ⊢
  have hr := Real.abs_exp_sub_one_sub_id_le (by linarith only [ha, hu] : |a| ≤ 1)
  have hu' : |1 - u/2| ≤ 2 := by
    rw [abs_le]; rw [abs_lt] at hu; constructor <;> linarith only [hu.1, hu.2]
  have e1 : |-(a * u / 2)| ≤ 7/12 * |u| ^ 2 := by
    rw [abs_neg, abs_div, abs_mul, abs_two]
    linarith only [mul_le_mul_of_nonneg_right ha (abs_nonneg u)]
  have e2 : |(Real.exp a - 1 - a) * (1 - u/2)| ≤ 49/18 * |u| ^ 2 := by
    rw [abs_mul]
    have hsq : a ^ 2 ≤ (7/6 * |u|) ^ 2 := by
      rw [← sq_abs]; exact pow_le_pow_left₀ (abs_nonneg a) ha 2
    linarith only [mul_le_mul hr hu' (abs_nonneg _) (sq_nonneg a), hsq]
  have hu2 : |u| ^ 2 ≤ |u| * (1 / 100000000) := by
    rw [sq]; exact mul_le_mul_of_nonneg_left hu.le (abs_nonneg u)
  calc |Real.exp a * (1 - u/2) - 1|
      = |(a - u/2) + -(a * u / 2) + (Real.exp a - 1 - a) * (1 - u/2)| := by ring_nf
    _ ≤ |a - u/2| + |-(a * u / 2)| + |(Real.exp a - 1 - a) * (1 - u/2)| := abs_add_three _ _ _
    _ ≤ 1 / 100000000 := by linarith only [hau, e1, e2, hu2, hu]

/-! ## One coordinate -/

theorem expansion_eq_exact_mul {l x : ℝ} (hpos : 0 < l * x + 1) :
    Real.exp x * (1.0 - 0.5 * l * x * x) =
      (l * x + 1) ^ (1 / l) * (Real.exp (x - Real.log (l * x + 1) / l) * (1 - l * x * x / 2)) := by
  rw [Real.rpow_def_of_pos hpos, mul_one_div, ← mul_assoc, ← Real.exp_add, add_sub_cancel]
  norm_num
  ring

theorem abs_expansion_sub_le {l x : ℝ} (hl : l ≠ 0) (hs : |l * x * x| < 1e-8)
    (ht : -1/2 ≤ l * x) :
    |Real.exp x * (1.0 - 0.5 * l * x * x) - (l * x + 1) ^ (1 / l)| ≤
      1e-8 * (l * x + 1) ^ (1 / l) := by
  have hpos : 0 < l * x + 1 := by linarith only [ht]
  have hX := Real.rpow_pos_of_pos hpos (1 / l)
  obtain ⟨h0, h1⟩ := sub_log_one_add_le ht
  rw [add_comm 1] at h0 h1
  set a := x - Real.log (l * x + 1) / l
  have hal : a * l = l * x - Real.log (l * x + 1) := by
    simp only [a]; linear_combination (-Real.log (l * x + 1)) * mul_inv_cancel₀ hl
  have hl' : 0 < |l| := abs_pos.2 hl
  have hu : |l * x * x| = |l| * x ^ 2 := by rw [mul_assoc, abs_mul, abs_mul_self, sq]
  have hsq : (l * x) ^ 2 = |l| * |l * x * x| := by rw [hu, ← mul_assoc, abs_mul_abs_self]; ring
  have ha : |a| ≤ 7/6 * |l * x * x| := by
    refine le_of_mul_le_mul_right ?_ hl'
    rw [← abs_mul, hal, abs_of_nonneg h0]
    linarith only [h1, hsq]
  have hau : |a - l * x * x / 2| ≤ 2/3 * |l * x * x| := by
    refine le_of_mul_le_mul_right ?_ hl'
    rw [← abs_mul, sub_mul, hal, abs_le]
    constructor <;> linarith only [h0, h1, hsq, sq_nonneg (l * x)]
  rw [expansion_eq_exact_mul hpos, ← mul_sub_one, abs_mul, abs_of_pos hX, mul_comm]
  exact mul_le_mul_of_nonneg_right (abs_exp_mul_sub_one_le hs ha hau) hX.le

/-- **The coordinate is within relative error `1e-8` of the exact inverse**: equal to it in the
exact branch and at `λ = 0`, and close to it in the expansion branch when `λx ≥ -1/2`. -/
theorem policyCoordinate_relative_error {l x : ℝ} (hdom : 0 < l * x + 1)
    (hbranch : |l * x * x| < 1e-8 → -1/2 ≤ l * x) :
    |policyCoordinate l x - exactInverse l x| ≤ 1e-8 * |exactInverse l x| := by
  by_cases hs : |l * x * x| < 1e-8
  · by_cases hl : l = 0
    · subst hl
      norm_num [policyCoordinate, exactInverse]
      positivity
    · rw [exactInverse, if_neg hl, abs_of_pos (Real.rpow_pos_of_pos hdom _), policyCoordinate,
        if_pos hs]
      exact abs_expansion_sub_le hl hs (hbranch hs)
  · rw [policyCoordinate_of_exact (not_lt.1 hs), sub_self, abs_zero]
    positivity

/-! ## The point call -/

/-- **Every coordinate a point call returns is within relative error `1e-8` of the exact
inverse**, provided `λ_j x_j ≥ -1/2` where the coordinate takes the expansion branch, and equal to
it at `λ_j = 0` and in the exact branch. -/
theorem operatorPoint_relative_error (e : InverseBoxCoxEvaluation) (p y : Point)
    (h : (e.operatorPoint p).1 = .ok y) (j : ℕ) (hj : j < p.length)
    (hdom : 0 < e.exponent j * e.shifted p j + 1)
    (hbranch : |e.exponent j * e.shifted p j * e.shifted p j| < 1e-8 →
      -1/2 ≤ e.exponent j * e.shifted p j) :
    |y.getD j 0 - exactInverse (e.exponent j) (e.shifted p j)| ≤
        1e-8 * |exactInverse (e.exponent j) (e.shifted p j)| ∧
      (e.exponent j = 0 ∨ 1e-8 ≤ |e.exponent j * e.shifted p j * e.shifted p j| →
        y.getD j 0 = exactInverse (e.exponent j) (e.shifted p j)) := by
  rw [(operatorPoint_getD h hj).1]
  refine ⟨policyCoordinate_relative_error hdom hbranch, ?_⟩
  rintro (h0 | hs)
  · rw [h0]
    exact policyCoordinate_zero
  · exact policyCoordinate_of_exact hs

theorem operatorPoint_relative_error_unit :
    ((ofLambda Library.fresh [1]).operatorPoint [1e-5]).1 = .ok [policyCoordinate 1 (1e-5 - 0)] ∧
    0 < [(1e-5 : ℝ)].length ∧
    0 < (ofLambda Library.fresh [1]).exponent 0 * (ofLambda Library.fresh [1]).shifted [1e-5] 0 + 1 ∧
    (|(ofLambda Library.fresh [1]).exponent 0 * (ofLambda Library.fresh [1]).shifted [1e-5] 0 *
        (ofLambda Library.fresh [1]).shifted [1e-5] 0| < 1e-8 →
      -1/2 ≤ (ofLambda Library.fresh [1]).exponent 0 * (ofLambda Library.fresh [1]).shifted [1e-5] 0) ∧
    |[policyCoordinate 1 (1e-5 - 0)].getD 0 0 - exactInverse ((ofLambda Library.fresh [1]).exponent 0)
        ((ofLambda Library.fresh [1]).shifted [1e-5] 0)| ≤
      1e-8 * |exactInverse ((ofLambda Library.fresh [1]).exponent 0)
        ((ofLambda Library.fresh [1]).shifted [1e-5] 0)| ∧
    ((ofLambda Library.fresh [1]).exponent 0 = 0 ∨ 1e-8 ≤ |(ofLambda Library.fresh [1]).exponent 0 *
        (ofLambda Library.fresh [1]).shifted [1e-5] 0 * (ofLambda Library.fresh [1]).shifted [1e-5] 0| →
      [policyCoordinate 1 (1e-5 - 0)].getD 0 0 = exactInverse ((ofLambda Library.fresh [1]).exponent 0)
        ((ofLambda Library.fresh [1]).shifted [1e-5] 0)) := by
  have hc : ((ofLambda Library.fresh [1]).operatorPoint [1e-5]).1 =
      .ok [policyCoordinate 1 (1e-5 - 0)] := by
    rw [operatorPoint_fst]
    exact computePoint_ofLambda_single (by norm_num [Rejects])
  have hdom : 0 < (ofLambda Library.fresh [1]).exponent 0 *
      (ofLambda Library.fresh [1]).shifted [1e-5] 0 + 1 := by
    norm_num [exponent, shifted, ofLambda, ofParameters]
  have hbranch : |(ofLambda Library.fresh [1]).exponent 0 *
      (ofLambda Library.fresh [1]).shifted [1e-5] 0 * (ofLambda Library.fresh [1]).shifted [1e-5] 0| <
        1e-8 → -1/2 ≤ (ofLambda Library.fresh [1]).exponent 0 *
          (ofLambda Library.fresh [1]).shifted [1e-5] 0 := by
    norm_num [exponent, shifted, ofLambda, ofParameters]
  exact ⟨hc, by simp, hdom, hbranch, operatorPoint_relative_error _ [1e-5] _ hc 0 (by simp) hdom hbranch⟩

theorem expansion_far_from_exactInverse {t : ℝ} (ht : Real.exp (-100000000) = t + 1) :
    |t * 100000000 * (1e-8 - 0) * (1e-8 - 0)| < 1e-8 ∧ 0 < t * 100000000 * (1e-8 - 0) + 1 ∧
    1e-8 * |exactInverse (t * 100000000) (1e-8 - 0)| <
      |policyCoordinate (t * 100000000) (1e-8 - 0) - exactInverse (t * 100000000) (1e-8 - 0)| := by
  have ht0 : -1 < t := by linarith only [ht, Real.exp_pos (-100000000)]
  have ht1 : t < 0 := by
    linarith only [ht, Real.exp_lt_one_iff.2 (by norm_num : (-100000000 : ℝ) < 0)]
  have hx : (1e-8 : ℝ) - 0 = 1 / 100000000 := by norm_num
  have hs : |t * 100000000 * (1e-8 - 0) * (1e-8 - 0)| < 1e-8 := by
    rw [hx, abs_lt]; constructor <;> linarith only [ht0, ht1]
  have hexact : exactInverse (t * 100000000) (1e-8 - 0) = Real.exp (-1 / t) := by
    rw [exactInverse, if_neg (by linarith only [ht1]), hx,
      show t * 100000000 * (1 / 100000000) + 1 = Real.exp (-100000000) by rw [ht]; ring,
      Real.rpow_def_of_pos (Real.exp_pos _), Real.log_exp]
    congr 1; field_simp; ring
  have hE : 2 ≤ Real.exp (-1 / t) := by
    have h1 : 1 ≤ -1 / t := by rw [le_div_iff_of_neg ht1]; linarith only [ht0]
    linarith only [h1, Real.add_one_le_exp (-1 / t)]
  have hY : policyCoordinate (t * 100000000) (1e-8 - 0) ≤ 11 / 10 := by
    have hexp := Real.abs_exp_sub_one_le (x := 1 / 100000000) (by norm_num [abs_of_pos])
    rw [abs_of_pos (by norm_num : (0 : ℝ) < 1 / 100000000)] at hexp
    rw [policyCoordinate, if_pos hs, hx]
    calc Real.exp (1 / 100000000) *
          (1.0 - 0.5 * (t * 100000000) * (1 / 100000000) * (1 / 100000000))
        ≤ (1 + 2 / 100000000) * (1 + 1 / 100000000) := by
          refine mul_le_mul (by linarith only [(abs_le.1 hexp).2]) ?_ ?_ (by norm_num) <;>
            norm_num <;> linarith only [ht0, ht1]
      _ ≤ 11 / 10 := by norm_num
  refine ⟨hs, by rw [hx]; linarith only [ht0], ?_⟩
  rw [hexact, abs_of_pos (Real.exp_pos _), abs_sub_comm, abs_of_pos (by linarith only [hE, hY])]
  norm_num
  linarith only [hE, hY]

/-- **Near `λx = -1` a point call returns a coordinate far from the exact inverse**: at
`x = 1e-8` and `λ = (exp(-10⁸) - 1)·10⁸`, where `λx + 1 = exp(-10⁸)`, the coordinate takes the
expansion branch and stays below `1.1`, while the exact value `exp(-1/(λx))` is above `e`. -/
theorem expansion_misses_exactInverse :
    ¬ ∀ (e : InverseBoxCoxEvaluation) (p y : Point), e.shift_.length = e.lambda_.length →
      (e.operatorPoint p).1 = .ok y → ∀ j < p.length, 0 < e.exponent j * e.shifted p j + 1 →
      |y.getD j 0 - exactInverse (e.exponent j) (e.shifted p j)| ≤
        1e-8 * |exactInverse (e.exponent j) (e.shifted p j)| := by
  intro h
  obtain ⟨hs, hdom, hfar⟩ :=
    expansion_far_from_exactInverse (t := Real.exp (-100000000) - 1) (by ring)
  have hy : ((ofLambda Library.fresh [(Real.exp (-100000000) - 1) * 100000000]).operatorPoint
      [1e-8]).1 = .ok [policyCoordinate ((Real.exp (-100000000) - 1) * 100000000) (1e-8 - 0)] := by
    rw [operatorPoint_fst]
    exact computePoint_ofLambda_single fun hr => absurd hr.1 (not_le.2 hs)
  exact not_le.2 hfar (h _ [1e-8] _ rfl hy 0 (by simp) hdom)

end InverseBoxCoxEvaluation

end OpenTurns
