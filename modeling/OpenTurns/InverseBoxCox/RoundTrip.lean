import OpenTurns.InverseBoxCox.Accuracy
import OpenTurns.InverseBoxCox.SampleCall

/-!
# The round trip through the Box-Cox transform

The class inverts the Box-Cox transform `y ↦ (y^λ - 1)/λ` (`log y` at `λ = 0`) of positive
values, after the shift: the evaluation at `shift + boxCox(λ, y)` should give `y` back. Over real
arithmetic, the image of the transform lies in the domain `λx + 1 > 0`, where the exact branch
returns the exact inverse; under `|λ| ≤ 2.5e7`, the expansion branch is only taken where
`λx ≥ -1/2`, where it is within `1e-8` of the exact inverse.

Not covered: the rounding of the code's doubles. Near the boundary of the domain the computed
`λx + 1` can round to `0` (at `λ = -3` and `y = 2^18`, `x` is the double `1/3` and the code
raises), which the real model does not see.

* `boxCox`: the transform; `boxCoxPoint`, `boxCoxSample`: its image of a point and of a sample,
  under the parameters of an object;
* `exactInverse_boxCox`: the exact inverse undoes the transform; `boxCox_mem_domain`: its image
  lies in the domain;
* `neg_half_le_of_expansion`: below `2.5e7`, the expansion branch has `λx ≥ -1/2`;
* **`operatorPoint_boxCoxPoint`**: the point `operator()` never raises on the image of a positive
  point, and gives the point back within relative error `1e-8`;
* **`operatorSample_boxCoxSample`**: the same for the sample `operator()`, row by row.
-/

namespace OpenTurns

namespace InverseBoxCoxEvaluation

/-- The Box-Cox transform of exponent `lambda`, which the class inverts: `(y^λ - 1)/λ`, and
`log y` at `λ = 0`. -/
noncomputable def boxCox (lambda y : ℝ) : ℝ :=
  if lambda = 0 then Real.log y else (y ^ lambda - 1) / lambda

/-- The image of the point `ys` under the transform with the parameters of `e`:
`shift_[j] + boxCox(lambda_[j], ys[j])`. -/
noncomputable def boxCoxPoint (e : InverseBoxCoxEvaluation) (ys : Point) : Point :=
  (List.range ys.length).map fun j => e.shift_.getD j 0 + boxCox (e.exponent j) (ys.getD j 0)

theorem length_boxCoxPoint {e : InverseBoxCoxEvaluation} {ys : Point} :
    (e.boxCoxPoint ys).length = ys.length := by
  simp [boxCoxPoint]

/-- The image of the rows of `Ys`, with its dimension and description. -/
noncomputable def boxCoxSample (e : InverseBoxCoxEvaluation) (Ys : Sample) : Sample :=
  ⟨Ys.dimension, Ys.rows.map e.boxCoxPoint,
    fun r hr => by
      obtain ⟨ys, hys, rfl⟩ := List.mem_map.1 hr
      rw [length_boxCoxPoint, Ys.rows_dimension ys hys],
    Ys.description⟩

/-! ## One coordinate -/

section Coordinate

variable {l y : ℝ}

theorem exactInverse_boxCox (hy : 0 < y) : exactInverse l (boxCox l y) = y := by
  unfold exactInverse boxCox
  split_ifs with hl
  · exact Real.exp_log hy
  · rw [mul_div_cancel₀ _ hl, sub_add_cancel, one_div, Real.rpow_rpow_inv hy.le hl]

theorem boxCox_mem_domain (hy : 0 < y) : 0 < l * boxCox l y + 1 := by
  unfold boxCox
  split_ifs with hl
  · simp [hl]
  · rw [mul_div_cancel₀ _ hl, sub_add_cancel]
    exact Real.rpow_pos_of_pos hy l

theorem neg_half_le_of_expansion {x : ℝ} (hl : |l| ≤ 25000000) (hu : |l * x * x| < 1e-8) :
    -1/2 ≤ l * x := by
  have hsq : (l * x) ^ 2 = |l| * |l * x * x| := by
    rw [← abs_mul, show l * (l * x * x) = (l * x) ^ 2 by ring, abs_sq]
  have hle : (l * x) ^ 2 ≤ (1/2) ^ 2 := by
    rw [hsq]
    calc |l| * |l * x * x| ≤ 25000000 * 1e-8 :=
          mul_le_mul hl hu.le (abs_nonneg _) (by norm_num)
      _ = (1/2) ^ 2 := by norm_num
  linarith only [(abs_le_of_sq_le_sq' hle (by norm_num)).1]

theorem policyCoordinate_boxCox (hy : 0 < y) (hl : |l| ≤ 25000000) :
    |policyCoordinate l (boxCox l y) - y| ≤ 1e-8 * y := by
  have h := policyCoordinate_relative_error (boxCox_mem_domain hy)
    (neg_half_le_of_expansion hl)
  rwa [exactInverse_boxCox hy, abs_of_pos hy] at h

end Coordinate

/-! ## The two calls -/

section Calls

variable {e : InverseBoxCoxEvaluation} {ys : Point}

theorem shifted_boxCoxPoint {j : ℕ} (hj : j < ys.length) :
    e.shifted (e.boxCoxPoint ys) j = boxCox (e.exponent j) (ys.getD j 0) := by
  simp [shifted, boxCoxPoint, hj]

theorem boxCoxPoint_coordinates (hpos : ∀ y ∈ ys, 0 < y)
    (hexp : ∀ l ∈ e.lambda_, |l| ≤ 25000000) (hys : ys.length = e.lambda_.length) {j : ℕ}
    (hj : j < ys.length) :
    ¬ Rejects (e.exponent j) (e.shifted (e.boxCoxPoint ys) j) ∧
      |policyCoordinate (e.exponent j) (e.shifted (e.boxCoxPoint ys) j) - ys.getD j 0| ≤
        1e-8 * ys.getD j 0 := by
  have hy : 0 < ys.getD j 0 := by
    rw [List.getD_eq_getElem _ _ hj]
    exact hpos _ (List.getElem_mem hj)
  have hl : |e.exponent j| ≤ 25000000 := by
    rw [exponent, List.getD_eq_getElem _ _ (hys ▸ hj)]
    exact hexp _ (List.getElem_mem _)
  rw [shifted_boxCoxPoint hj]
  exact ⟨fun h => absurd (boxCox_mem_domain hy) (not_lt.2 h.2), policyCoordinate_boxCox hy hl⟩

/-- **The point `operator()` undoes the Box-Cox transform**: at the image of a positive point,
with exponents of modulus at most `2.5e7`, it never raises, and gives the point back within
relative error `1e-8` in each coordinate. -/
theorem operatorPoint_boxCoxPoint (e : InverseBoxCoxEvaluation) (ys : Point)
    (hshift : e.shift_.length = e.lambda_.length) (hys : ys.length = e.lambda_.length)
    (hpos : ∀ y ∈ ys, 0 < y) (hexp : ∀ l ∈ e.lambda_, |l| ≤ 25000000) :
    ∃ z, (e.operatorPoint (e.boxCoxPoint ys)).1 = .ok z ∧
      ∀ j < ys.length, |z.getD j 0 - ys.getD j 0| ≤ 1e-8 * ys.getD j 0 := by
  have hp : (e.boxCoxPoint ys).length = e.lambda_.length := length_boxCoxPoint.trans hys
  refine ⟨_, by rw [operatorPoint_fst, computePoint_eq_ok_iff hshift hp]; exact ⟨fun j hj =>
    (boxCoxPoint_coordinates hpos hexp hys (length_boxCoxPoint ▸ hj)).1, rfl⟩, fun j hj => ?_⟩
  simpa [length_boxCoxPoint, hj] using (boxCoxPoint_coordinates hpos hexp hys hj).2

theorem operatorPoint_boxCoxPoint_two :
    (ofLambda Library.fresh [1]).shift_.length = (ofLambda Library.fresh [1]).lambda_.length ∧
    [(2 : ℝ)].length = (ofLambda Library.fresh [1]).lambda_.length ∧ (∀ y ∈ [(2 : ℝ)], 0 < y) ∧
    (∀ l ∈ (ofLambda Library.fresh [1]).lambda_, |l| ≤ 25000000) ∧
    ∃ z, ((ofLambda Library.fresh [1]).operatorPoint ((ofLambda Library.fresh [1]).boxCoxPoint [2])).1 =
      .ok z ∧ ∀ j < [(2 : ℝ)].length, |z.getD j 0 - [(2 : ℝ)].getD j 0| ≤ 1e-8 * [(2 : ℝ)].getD j 0 := by
  have hpos : ∀ y ∈ [(2 : ℝ)], 0 < y := by norm_num
  have hexp : ∀ l ∈ (ofLambda Library.fresh [1]).lambda_, |l| ≤ 25000000 := by
    norm_num [ofLambda, ofParameters]
  exact ⟨rfl, rfl, hpos, hexp, operatorPoint_boxCoxPoint _ [2] rfl rfl hpos hexp⟩

/-- **The sample `operator()` undoes the Box-Cox transform**: at the image of a sample of
positive rows, with exponents of modulus at most `2.5e7`, it returns a sample whose rows give the
rows of the sample back within relative error `1e-8` in each coordinate. -/
theorem operatorSample_boxCoxSample (e : InverseBoxCoxEvaluation) (Ys : Sample)
    (hshift : e.shift_.length = e.lambda_.length) (hY : Ys.dimension = e.lambda_.length)
    (hpos : ∀ r ∈ Ys.rows, ∀ y ∈ r, 0 < y) (hexp : ∀ l ∈ e.lambda_, |l| ≤ 25000000) :
    ∃ Z : Sample, (e.operatorSample (e.boxCoxSample Ys)).1 = .ok Z ∧
      List.Forall₂ (fun z ys => ∀ j < ys.length, |z.getD j 0 - ys.getD j 0| ≤ 1e-8 * ys.getD j 0)
        Z.rows Ys.rows := by
  obtain ⟨Z, hrows, -, hZ⟩ := operatorSample_of_ok (X := e.boxCoxSample Ys) hY
    (computeSamplePolicy_eq_map hshift hY)
  refine ⟨Z, by rw [hZ], ?_⟩
  rw [hrows]
  show List.Forall₂ _ ((Ys.rows.map e.boxCoxPoint).map fun row => (List.range Ys.dimension).map
    fun j => policyCoordinate (e.exponent j) (e.shifted row j)) Ys.rows
  rw [List.forall₂_map_left_iff, List.forall₂_map_left_iff]
  refine List.forall₂_same.2 fun ys hys j hj => ?_
  have hlen := Ys.rows_dimension ys hys
  simpa [hlen ▸ hj] using (boxCoxPoint_coordinates (hpos ys hys) hexp (hlen.trans hY) hj).2

theorem operatorSample_boxCoxSample_two :
    (ofLambda Library.fresh [1]).shift_.length = (ofLambda Library.fresh [1]).lambda_.length ∧
    (⟨1, [[2], [1/2]], by simp, []⟩ : Sample).dimension =
      (ofLambda Library.fresh [1]).lambda_.length ∧
    (∀ r ∈ (⟨1, [[2], [1/2]], by simp, []⟩ : Sample).rows, ∀ y ∈ r, 0 < y) ∧
    (∀ l ∈ (ofLambda Library.fresh [1]).lambda_, |l| ≤ 25000000) ∧
    ∃ Z : Sample, ((ofLambda Library.fresh [1]).operatorSample
        ((ofLambda Library.fresh [1]).boxCoxSample ⟨1, [[2], [1/2]], by simp, []⟩)).1 = .ok Z ∧
      List.Forall₂ (fun z ys => ∀ j < ys.length, |z.getD j 0 - ys.getD j 0| ≤ 1e-8 * ys.getD j 0)
        Z.rows [[2], [1/2]] := by
  have hpos : ∀ r ∈ (⟨1, [[2], [1/2]], by simp, []⟩ : Sample).rows, ∀ y ∈ r, (0 : ℝ) < y := by
    norm_num
  have hexp : ∀ l ∈ (ofLambda Library.fresh [1]).lambda_, |l| ≤ 25000000 := by
    norm_num [ofLambda, ofParameters]
  exact ⟨rfl, rfl, hpos, hexp, operatorSample_boxCoxSample _ ⟨1, [[2], [1/2]], by simp, []⟩ rfl rfl
    hpos hexp⟩

end Calls

end InverseBoxCoxEvaluation

end OpenTurns
