import OpenTurns.InverseBoxCox.Accuracy
import Mathlib.Analysis.Calculus.MeanValue
import Mathlib.Analysis.SpecialFunctions.ExpDeriv
import Mathlib.Analysis.InnerProductSpace.Basic

/-!
# Order of the coordinates

The inverse of the Box-Cox transform is strictly increasing on its domain `λx + 1 > 0`
(`exactInverse_lt`), and the exact branch of the point `operator()` returns it. The expansion
branch returns `exp(x)(1 - λx²/2)` instead, whose derivative `exp(x)(1 - λx - λx²/2)` is positive
as long as `λx < 1` by a margin; for `|λ|` above `1e8` the branch reaches points where `λx > 1`,
and there it decreases.

At the switch `|λx²| = 1e-8` the coordinate jumps, and the jump goes up when the exponent is in
the range `4e-8 ≤ |λ| ≤ 2.5e7`. For `x ≥ 0` the expansion is at most the exact value, since
`log(1 + λx)` and `λx - (λx)²/2` are in the right order; for `-1/2 ≤ x ≤ 0` it is at least the
exact value, since the term `-(λx)³/3` of `log(1 + λx)` outweighs the error of `1 - λx²/2`.

* `expansion_lt`: the expansion increases on an interval of the branch where `λx ≤ 1 - 1e-8`;
* `policyCoordinate_lt_of_same_branch`: the coordinate increases between two points of the same
  branch;
* `antitoneOn_log_remainder_two`, `antitoneOn_log_remainder_four`: the signs of the remainders of
  `log(1 + t)` after its terms of order two and four;
* `policyCoordinate_le_exactInverse`, `exactInverse_le_policyCoordinate`: the two sides of the
  switch;
* `policyCoordinate_lt_of_range`: in the range of exponents, the coordinate increases on the
  whole domain;
* **`operatorPoint_lt`**: the same for the coordinates two point calls return;
* `expansion_decreases`: at the exponent `2e9` the coordinate is `1` at `0` and below `1` at
  `2e-9`, both in the expansion branch.
-/

namespace OpenTurns

namespace InverseBoxCoxEvaluation

/-! ## The exact branch -/

theorem exactInverse_lt {l a b : ℝ} (hab : a < b) (hda : 0 < l * a + 1) (hdb : 0 < l * b + 1) :
    exactInverse l a < exactInverse l b := by
  unfold exactInverse
  split_ifs with hl
  · exact Real.exp_lt_exp.2 hab
  · rcases lt_or_gt_of_ne hl with hl | hl
    · exact Real.rpow_lt_rpow_of_exponent_neg hdb (by nlinarith) (one_div_neg.2 hl)
    · exact Real.rpow_lt_rpow hda.le (by nlinarith) (one_div_pos.2 hl)

/-! ## The expansion branch -/

theorem hasDerivAt_expansion (l x : ℝ) :
    HasDerivAt (fun x => Real.exp x * (1.0 - 0.5 * l * x * x))
      (Real.exp x * (1 - l * x - l * x * x / 2)) x := by
  refine ((Real.hasDerivAt_exp x).mul ((((hasDerivAt_id x).const_mul (0.5 * l)).mul
    (hasDerivAt_id x)).const_sub 1.0)).congr_deriv ?_
  simp only [id]
  norm_num
  ring

theorem slope_pos_of_between {l a b x : ℝ} (hx : a < x ∧ x < b) (ha : |l * a * a| < 1e-8)
    (hb : |l * b * b| < 1e-8) (ha' : l * a ≤ 1 - 1e-8) (hb' : l * b ≤ 1 - 1e-8) :
    0 < 1 - l * x - l * x * x / 2 := by
  rcases le_or_lt l 0 with hl | hl
  · have h1 : l * x ≤ l * a := mul_le_mul_of_nonpos_left hx.1.le hl
    have h2 : l * (x * x) ≤ 0 := mul_nonpos_of_nonpos_of_nonneg hl (mul_self_nonneg x)
    linarith only [h1, h2, ha']
  · have h1 : l * x ≤ l * b := mul_le_mul_of_nonneg_left hx.2.le hl.le
    -- `x²` is at most `b²` when `x ≥ 0`, and at most `a²` when `x < 0`
    have h2 : l * x * x < 1e-8 := by
      rcases le_or_lt 0 x with h0 | h0
      · have hsq := mul_nonneg hl.le (mul_nonneg (sub_nonneg.2 hx.2.le) (by linarith : 0 ≤ b + x))
        linarith only [hsq, (abs_lt.1 hb).2]
      · have hsq := mul_nonneg hl.le (mul_nonneg (sub_nonneg.2 hx.1.le) (by linarith : 0 ≤ -(x + a)))
        linarith only [hsq, (abs_lt.1 ha).2]
    linarith only [h1, h2, hb']

theorem expansion_lt {l a b : ℝ} (hab : a < b) (ha : |l * a * a| < 1e-8) (hb : |l * b * b| < 1e-8)
    (ha' : l * a ≤ 1 - 1e-8) (hb' : l * b ≤ 1 - 1e-8) :
    Real.exp a * (1.0 - 0.5 * l * a * a) < Real.exp b * (1.0 - 0.5 * l * b * b) := by
  have hmono : StrictMonoOn (fun x => Real.exp x * (1.0 - 0.5 * l * x * x)) (Set.Icc a b) := by
    refine strictMonoOn_of_deriv_pos (convex_Icc a b)
      (fun x _ => (hasDerivAt_expansion l x).continuousAt.continuousWithinAt) fun x hx => ?_
    rw [interior_Icc] at hx
    rw [(hasDerivAt_expansion l x).deriv]
    exact mul_pos (Real.exp_pos x) (slope_pos_of_between hx ha hb ha' hb')
  exact hmono ⟨le_rfl, hab.le⟩ ⟨hab.le, le_rfl⟩ hab

/-! ## Two points of one branch -/

theorem policyCoordinate_lt_of_same_branch {l a b : ℝ} (hab : a < b)
    (hbranch : (1e-8 ≤ |l * a * a| ∧ 1e-8 ≤ |l * b * b| ∧ 0 < l * a + 1 ∧ 0 < l * b + 1) ∨
      (|l * a * a| < 1e-8 ∧ |l * b * b| < 1e-8 ∧ l * a ≤ 1 - 1e-8 ∧ l * b ≤ 1 - 1e-8)) :
    policyCoordinate l a < policyCoordinate l b := by
  rcases hbranch with ⟨ha, hb, hda, hdb⟩ | ⟨ha, hb, ha', hb'⟩
  · rw [policyCoordinate_of_exact ha, policyCoordinate_of_exact hb]
    exact exactInverse_lt hab hda hdb
  · rw [policyCoordinate, policyCoordinate, if_pos ha, if_pos hb]
    exact expansion_lt hab ha hb ha' hb'

/-! ## The remainders of `log (1 + t)` -/

theorem antitoneOn_Ioi_of_hasDerivAt {f g : ℝ → ℝ} (hd : ∀ t, -1 < t → HasDerivAt f (g t) t)
    (hg : ∀ t, -1 < t → g t ≤ 0) : AntitoneOn f (Set.Ioi (-1)) := by
  refine antitoneOn_of_deriv_nonpos (convex_Ioi _)
    (fun t ht => (hd t ht).continuousAt.continuousWithinAt)
    (fun t ht => (hd t (interior_subset ht)).differentiableAt.differentiableWithinAt) fun t ht => ?_
  rw [interior_Ioi] at ht
  rw [(hd t ht).deriv]
  exact hg t ht

theorem sign_of_antitoneOn_Ioi {f : ℝ → ℝ} (hf : AntitoneOn f (Set.Ioi (-1))) (h0 : f 0 = 0)
    {t : ℝ} (ht : -1 < t) : (0 ≤ t → f t ≤ 0) ∧ (t ≤ 0 → 0 ≤ f t) :=
  ⟨fun h => h0 ▸ hf (Set.mem_Ioi.2 (by norm_num)) ht h,
    fun h => h0 ▸ hf ht (Set.mem_Ioi.2 (by norm_num)) h⟩

theorem antitoneOn_log_remainder_two :
    AntitoneOn (fun t : ℝ => t - Real.log (1 + t) - t ^ 2 / 2) (Set.Ioi (-1)) := by
  refine antitoneOn_Ioi_of_hasDerivAt (g := fun t => -(t ^ 2 / (1 + t))) (fun t ht => ?_)
    fun t ht => neg_nonpos.2 (div_nonneg (sq_nonneg t) (by linarith))
  have h1 : 1 + t ≠ 0 := by linarith
  refine (((hasDerivAt_id t).sub (((hasDerivAt_id t).const_add 1).log h1)).sub
    ((hasDerivAt_pow 2 t).div_const 2)).congr_deriv ?_
  field_simp
  ring

theorem antitoneOn_log_remainder_four :
    AntitoneOn (fun t : ℝ => t - Real.log (1 + t) - t ^ 2 / 2 + t ^ 3 / 3 - t ^ 4 / 4)
      (Set.Ioi (-1)) := by
  refine antitoneOn_Ioi_of_hasDerivAt (g := fun t => -(t ^ 4 / (1 + t))) (fun t ht => ?_)
    fun t ht => neg_nonpos.2 (div_nonneg (by positivity) (by linarith))
  have h1 : 1 + t ≠ 0 := by linarith
  refine (((((hasDerivAt_id t).sub (((hasDerivAt_id t).const_add 1).log h1)).sub
    ((hasDerivAt_pow 2 t).div_const 2)).add ((hasDerivAt_pow 3 t).div_const 3)).sub
    ((hasDerivAt_pow 4 t).div_const 4)).congr_deriv ?_
  field_simp
  ring

/-! ## Across the switch -/

theorem policyCoordinate_le_exactInverse {l x : ℝ} (hl : l ≠ 0) (hpos : 0 < l * x + 1)
    (hx : 0 ≤ x) : policyCoordinate l x ≤ exactInverse l x := by
  by_cases hu : |l * x * x| < 1e-8
  swap
  · rw [policyCoordinate_of_exact (not_lt.1 hu)]
  rw [policyCoordinate, if_pos hu, exactInverse, if_neg hl, expansion_eq_exact_mul hpos]
  refine mul_le_of_le_one_right (Real.rpow_pos_of_pos hpos _).le ?_
  obtain ⟨hφ₁, hφ₂⟩ := sign_of_antitoneOn_Ioi antitoneOn_log_remainder_two (by simp)
    (t := l * x) (by linarith only [hpos])
  have hφ : (l * x - Real.log (1 + l * x) - (l * x) ^ 2 / 2) / l ≤ 0 := by
    rcases lt_or_gt_of_ne hl with hl | hl
    · exact div_nonpos_of_nonneg_of_nonpos (hφ₂ (mul_nonpos_of_nonpos_of_nonneg hl.le hx)) hl.le
    · exact div_nonpos_of_nonpos_of_nonneg (hφ₁ (mul_nonneg hl.le hx)) hl.le
  have ha : x - Real.log (l * x + 1) / l =
      (l * x - Real.log (1 + l * x) - (l * x) ^ 2 / 2) / l + l * x * x / 2 := by
    rw [add_comm 1]
    linear_combination (-(x - l * x ^ 2 / 2)) * mul_inv_cancel₀ hl
  have hv : 0 ≤ 1 - l * x * x / 2 := by
    have := (abs_lt.1 hu).2
    norm_num at this
    linarith only [this]
  calc Real.exp (x - Real.log (l * x + 1) / l) * (1 - l * x * x / 2)
      ≤ Real.exp (l * x * x / 2) * (1 - l * x * x / 2) :=
        mul_le_mul_of_nonneg_right (Real.exp_le_exp.2 (by linarith only [ha, hφ])) hv
    _ ≤ Real.exp (l * x * x / 2) * Real.exp (-(l * x * x / 2)) :=
        mul_le_mul_of_nonneg_left (by linarith only [Real.add_one_le_exp (-(l * x * x / 2))])
          (Real.exp_pos _).le
    _ = 1 := by rw [← Real.exp_add, add_neg_cancel, Real.exp_zero]

theorem exactInverse_le_policyCoordinate {l x : ℝ} (hl : l ≠ 0) (hx : x ≤ 0) (hx' : -1/2 ≤ x)
    (hlx : |l * x| ≤ 1/2) : exactInverse l x ≤ policyCoordinate l x := by
  by_cases hu : |l * x * x| < 1e-8
  swap
  · rw [policyCoordinate_of_exact (not_lt.1 hu)]
  have hlx' := abs_le.1 hlx
  have hu' := abs_lt.1 hu
  norm_num at hu'
  have hpos : 0 < l * x + 1 := by linarith only [hlx'.1]
  rw [policyCoordinate, if_pos hu, exactInverse, if_neg hl, expansion_eq_exact_mul hpos]
  refine le_mul_of_one_le_right (Real.rpow_pos_of_pos hpos _).le ?_
  rw [← Real.exp_log (by linarith only [hu'.2] : 0 < 1 - l * x * x / 2), ← Real.exp_add]
  refine Real.one_le_exp ?_
  obtain ⟨hψ₁, hψ₂⟩ := sign_of_antitoneOn_Ioi antitoneOn_log_remainder_four (by simp)
    (t := l * x) (by linarith only [hlx'.1])
  have hψ : 0 ≤ (l * x - Real.log (1 + l * x) - (l * x) ^ 2 / 2 + (l * x) ^ 3 / 3 -
      (l * x) ^ 4 / 4) / l := by
    rcases lt_or_gt_of_ne hl with hl | hl
    · exact div_nonneg_of_nonpos (hψ₁ (mul_nonneg_of_nonpos_of_nonpos hl.le hx)) hl.le
    · exact div_nonneg (hψ₂ (mul_nonpos_of_nonneg_of_nonpos hl.le hx)) hl.le
  have ha : x - Real.log (l * x + 1) / l = (l * x - Real.log (1 + l * x) - (l * x) ^ 2 / 2 +
      (l * x) ^ 3 / 3 - (l * x) ^ 4 / 4) / l + l * x * x / 2 - l ^ 2 * x ^ 3 / 3 +
      l ^ 3 * x ^ 4 / 4 := by
    rw [add_comm 1]
    linear_combination (-(x - l * x ^ 2 / 2 + l ^ 2 * x ^ 3 / 3 - l ^ 3 * x ^ 4 / 4)) *
      mul_inv_cancel₀ hl
  have hlog := (sub_log_one_add_le (t := -(l * x * x / 2)) (by linarith only [hu'.2])).2
  rw [← sub_eq_add_neg] at hlog
  -- `|x| ≤ 1/2` and `|λx| ≤ 1/2` make the third order term `-λ²x³/3` the largest
  have h1 := mul_nonneg (sub_nonneg.2 hlx'.2) (neg_nonneg.2 hx)
  have h2 := mul_nonpos_of_nonpos_of_nonneg hx (by linarith only [hx'] : 0 ≤ x + 1/2)
  have hpoly : 0 ≤ (l * x) ^ 2 * (-x / 3 + l * x * x / 4 - 7 * x ^ 2 / 24) :=
    mul_nonneg (sq_nonneg _) (by linarith only [h1, h2, hx])
  rw [ha]
  linarith only [hψ, hlog, hpoly]

theorem small_of_expansion {l x : ℝ} (hl : 4e-8 ≤ |l|) (hl' : |l| ≤ 25000000)
    (hu : |l * x * x| < 1e-8) : |x| < 1/2 ∧ |l * x| < 1/2 := by
  rw [mul_assoc, abs_mul, abs_mul_self] at hu
  have hxx := mul_self_nonneg x
  have hsq : (l * x) ^ 2 = |l| * (|l| * (x * x)) := by rw [← mul_assoc, abs_mul_abs_self]; ring
  norm_num at hl hu
  constructor
  · refine abs_lt_of_sq_lt_sq ?_ (by norm_num)
    linarith only [mul_le_mul_of_nonneg_right hl hxx, hu]
  · refine abs_lt_of_sq_lt_sq ?_ (by norm_num)
    rw [hsq]
    linarith only [mul_le_mul_of_nonneg_right hl' (mul_nonneg (abs_nonneg l) hxx), hu]

theorem mul_self_lt_of_abs_lt {l a b : ℝ} (h : |l * a * a| < |l * b * b|) : a * a < b * b := by
  rw [mul_assoc, mul_assoc, abs_mul, abs_mul_self, abs_mul, abs_mul_self] at h
  exact lt_of_mul_lt_mul_left h (abs_nonneg l)

/-- **In the range `4e-8 ≤ |λ| ≤ 2.5e7` the coordinate increases on the whole domain**, across
the switch between the branches too: a point of the expansion branch and a point of the exact
branch compare through `0`, where the two branches agree. -/
theorem policyCoordinate_lt_of_range {l a b : ℝ} (hl : 4e-8 ≤ |l|) (hl' : |l| ≤ 25000000)
    (hab : a < b) (ha : ¬ Rejects l a) (hb : ¬ Rejects l b) :
    policyCoordinate l a < policyCoordinate l b := by
  have hl0 : l ≠ 0 := by rintro rfl; norm_num at hl
  have hdom : ∀ x, ¬ Rejects l x → 0 < l * x + 1 := fun x h => by
    by_cases hs : |l * x * x| < 1e-8
    · linarith only [(abs_lt.1 (small_of_expansion hl hl' hs).2).1]
    · exact not_le.1 fun hd => h ⟨not_lt.1 hs, hd⟩
  have hslope : ∀ x, |l * x * x| < 1e-8 → l * x ≤ 1 - 1e-8 := fun x hs => by
    have := (abs_lt.1 (small_of_expansion hl hl' hs).2).2
    norm_num
    linarith only [this]
  have h0 : |l * 0 * 0| < 1e-8 := by norm_num
  by_cases hsa : |l * a * a| < 1e-8 <;> by_cases hsb : |l * b * b| < 1e-8
  · exact policyCoordinate_lt_of_same_branch hab (.inr ⟨hsa, hsb, hslope a hsa, hslope b hsb⟩)
  · -- `a` in the expansion branch and `b` in the exact one, so `b > 0`
    have hb0 : 0 < b := by
      nlinarith only [mul_self_lt_of_abs_lt (hsa.trans_le (not_lt.1 hsb)), hab]
    rw [policyCoordinate_of_exact (not_lt.1 hsb)]
    rcases lt_or_le a 0 with ha0 | ha0
    · calc policyCoordinate l a
          < policyCoordinate l 0 :=
            policyCoordinate_lt_of_same_branch ha0 (.inr ⟨hsa, h0, hslope a hsa, hslope 0 h0⟩)
        _ ≤ exactInverse l 0 := policyCoordinate_le_exactInverse hl0 (by simp) le_rfl
        _ < exactInverse l b := exactInverse_lt hb0 (by simp) (hdom b hb)
    · calc policyCoordinate l a
          ≤ exactInverse l a := policyCoordinate_le_exactInverse hl0 (hdom a ha) ha0
        _ < exactInverse l b := exactInverse_lt hab (hdom a ha) (hdom b hb)
  · -- `a` in the exact branch and `b` in the expansion one, so `a < 0`
    have ha0 : a < 0 := by
      nlinarith only [mul_self_lt_of_abs_lt (hsb.trans_le (not_lt.1 hsa)), hab]
    have hsmall := small_of_expansion hl hl' hsb
    rw [policyCoordinate_of_exact (not_lt.1 hsa)]
    rcases le_or_lt b 0 with hb0 | hb0
    · calc exactInverse l a
          < exactInverse l b := exactInverse_lt hab (hdom a ha) (hdom b hb)
        _ ≤ policyCoordinate l b := exactInverse_le_policyCoordinate hl0 hb0
            (by linarith only [(abs_lt.1 hsmall.1).1]) hsmall.2.le
    · calc exactInverse l a
          < exactInverse l 0 := exactInverse_lt ha0 (hdom a ha) (by simp)
        _ ≤ policyCoordinate l 0 := exactInverse_le_policyCoordinate hl0 le_rfl (by norm_num)
            (by simp)
        _ < policyCoordinate l b :=
            policyCoordinate_lt_of_same_branch hb0 (.inr ⟨h0, hsb, hslope 0 h0, hslope b hsb⟩)
  · exact policyCoordinate_lt_of_same_branch hab
      (.inl ⟨not_lt.1 hsa, not_lt.1 hsb, hdom a ha, hdom b hb⟩)

/-! ## The point call -/

/-- **The coordinates two point calls return are in the order of the points** when the exponent
is `0` or in the range `4e-8 ≤ |λ_j| ≤ 2.5e7`, for every two points; and for any exponent when
both points take the same branch, with `λ_j x_j ≤ 1 - 1e-8` at both in the expansion branch. The
domain `λ_j x_j + 1 > 0` of the exact branch follows from the calls returning. -/
theorem operatorPoint_lt (e : InverseBoxCoxEvaluation) (p q y z : Point)
    (hy : (e.operatorPoint p).1 = .ok y) (hz : (e.operatorPoint q).1 = .ok z)
    (j : ℕ) (hj : j < p.length) (hpq : p.getD j 0 < q.getD j 0)
    (hcase : (e.exponent j = 0 ∨ (4e-8 ≤ |e.exponent j| ∧ |e.exponent j| ≤ 25000000)) ∨
      (1e-8 ≤ |e.exponent j * e.shifted p j * e.shifted p j| ∧
        1e-8 ≤ |e.exponent j * e.shifted q j * e.shifted q j|) ∨
      (|e.exponent j * e.shifted p j * e.shifted p j| < 1e-8 ∧
        |e.exponent j * e.shifted q j * e.shifted q j| < 1e-8 ∧
        e.exponent j * e.shifted p j ≤ 1 - 1e-8 ∧ e.exponent j * e.shifted q j ≤ 1 - 1e-8)) :
    y.getD j 0 < z.getD j 0 := by
  have hp := computePoint_length (operatorPoint_fst ▸ hy)
  have hq := computePoint_length (operatorPoint_fst ▸ hz)
  obtain ⟨hyj, hrp⟩ := operatorPoint_getD hy hj
  obtain ⟨hzj, hrq⟩ := operatorPoint_getD hz (hq ▸ hp ▸ hj)
  have hab : e.shifted p j < e.shifted q j := sub_lt_sub_right hpq _
  rw [hyj, hzj]
  rcases hcase with (h0 | hr) | ⟨ha, hb⟩ | h
  · -- at `λ = 0` both points take the expansion branch, which is `exp`
    rw [h0]
    exact policyCoordinate_lt_of_same_branch hab
      (.inr ⟨by norm_num, by norm_num, by norm_num, by norm_num⟩)
  · exact policyCoordinate_lt_of_range hr.1 hr.2 hab hrp hrq
  · exact policyCoordinate_lt_of_same_branch hab
      (.inl ⟨ha, hb, not_le.1 fun hd => hrp ⟨ha, hd⟩, not_le.1 fun hd => hrq ⟨hb, hd⟩⟩)
  · exact policyCoordinate_lt_of_same_branch hab (.inr h)

theorem operatorPoint_lt_unit :
    ((ofLambda Library.fresh [1]).operatorPoint [0]).1 = .ok [policyCoordinate 1 (0 - 0)] ∧
    ((ofLambda Library.fresh [1]).operatorPoint [1]).1 = .ok [policyCoordinate 1 (1 - 0)] ∧
    0 < [(0 : ℝ)].length ∧ [(0 : ℝ)].getD 0 0 < [(1 : ℝ)].getD 0 0 ∧
    (4e-8 ≤ |(1 : ℝ)| ∧ |(1 : ℝ)| ≤ 25000000) ∧
    [policyCoordinate 1 (0 - 0)].getD 0 0 < [policyCoordinate 1 (1 - 0)].getD 0 0 := by
  have hr : 4e-8 ≤ |(1 : ℝ)| ∧ |(1 : ℝ)| ≤ 25000000 := by norm_num
  have hy : ((ofLambda Library.fresh [1]).operatorPoint [0]).1 = .ok [policyCoordinate 1 (0 - 0)] := by
    rw [operatorPoint_fst, computePoint_unit]
  have hz : ((ofLambda Library.fresh [1]).operatorPoint [1]).1 = .ok [policyCoordinate 1 (1 - 0)] := by
    rw [operatorPoint_fst]; exact computePoint_ofLambda_single fun hr => by norm_num [Rejects] at hr
  exact ⟨hy, hz, by simp, by norm_num, hr,
    operatorPoint_lt _ [0] [1] _ _ hy hz 0 (by simp) (by norm_num) (.inl (.inr hr))⟩

/-- **At the exponent `2e9` the coordinate decreases on the domain**: the points `0` and `2e-9`
both take the expansion branch, the second with `λx = 4`, and the coordinate falls from `1` to
`exp(2e-9)(1 - 4e-9) < 1`. -/
theorem expansion_decreases :
    ¬ ∀ (e : InverseBoxCoxEvaluation) (p q y z : Point), e.shift_.length = e.lambda_.length →
      (e.operatorPoint p).1 = .ok y → (e.operatorPoint q).1 = .ok z → ∀ j < p.length,
      p.getD j 0 < q.getD j 0 → 0 < e.exponent j * e.shifted p j + 1 →
      0 < e.exponent j * e.shifted q j + 1 → y.getD j 0 < z.getD j 0 := by
  intro h
  have hy : ((ofLambda Library.fresh [2e9]).operatorPoint [0]).1 =
      .ok [policyCoordinate 2e9 (0 - 0)] := by
    rw [operatorPoint_fst]; exact computePoint_ofLambda_single (by norm_num [Rejects])
  have hs : |(2e9 : ℝ) * (2e-9 - 0) * (2e-9 - 0)| < 1e-8 := by norm_num [abs_of_pos]
  have hz : ((ofLambda Library.fresh [2e9]).operatorPoint [2e-9]).1 =
      .ok [policyCoordinate 2e9 (2e-9 - 0)] := by
    rw [operatorPoint_fst]; exact computePoint_ofLambda_single fun hr => absurd hr.1 (not_le.2 hs)
  have hlt := h _ [0] [2e-9] _ _ rfl hy hz 0 (by simp) (by norm_num)
    (by norm_num [exponent, shifted, ofLambda, ofParameters])
    (by norm_num [exponent, shifted, ofLambda, ofParameters])
  rw [List.getD_cons_zero, List.getD_cons_zero, policyCoordinate, policyCoordinate,
    if_pos (by norm_num), if_pos hs] at hlt
  have hexp : Real.exp 2e-9 ≤ 1 + 4e-9 := by
    have := Real.abs_exp_sub_one_le (x := 2e-9) (by norm_num [abs_of_pos])
    rw [abs_le] at this
    norm_num [abs_of_pos] at this ⊢
    linarith
  norm_num at hlt
  nlinarith [Real.exp_pos 2e-9]

end InverseBoxCoxEvaluation

end OpenTurns
