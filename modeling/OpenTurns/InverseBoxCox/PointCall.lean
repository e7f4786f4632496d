import OpenTurns.InverseBoxCox.Operator

/-!
# When the point `operator()` raises

On an object whose shift has the dimension of its exponent, and on a point of that dimension,
every read of the point `operator()` is in range, and the call is the loop of `pointCoordinate`
over the coordinates (`computePoint_eq_loop`). Its only exception is then the check of the exact
branch.

* `computePoint_error_cases`: on any object, the exceptions of the call are the dimension check,
  the check of the exact branch, and reads of `shift_` past its end;
* `computePoint_eq_ok_iff`: the call returns iff no coordinate is `Rejects`, and then it returns
  the values of `policyCoordinate`;
* **`operatorPoint_raises_iff`**: it raises `InvalidArgument` iff some coordinate is `Rejects`,
  and a call that raises leaves the object as it was;
* the check sits in the exact branch only, so a point outside the image of the Box-Cox transform
  is accepted when its coordinate takes the expansion branch; that needs `|λ_j| > 1e8`
  (**`exponent_large_of_accepted`**).
-/

namespace OpenTurns

namespace InverseBoxCoxEvaluation

theorem computePoint_length {e : InverseBoxCoxEvaluation} {p y : Point}
    (h : e.computePoint p = .ok y) : p.length = e.lambda_.length := by
  by_contra hd
  simp [computePoint, getInputDimension, hd] at h

/-- **Every exception of the point call**: the dimension check, whose message names both
dimensions; the check of the exact branch; or a read of `shift_` past its end, at a coordinate
of `lambda_` that `shift_` lacks. -/
theorem computePoint_error_cases {e : InverseBoxCoxEvaluation} {p : Point} {err : Exception}
    (h : e.computePoint p = .error err) :
    (p.length ≠ e.lambda_.length ∧ err = .invalidArgument
      ("Error: the given point has an invalid dimension. Expect a dimension " ++
        toString e.lambda_.length ++ ", got " ++ toString p.length)) ∨
    err = .invalidArgument "Can not apply the inverse Box Cox function " ∨
    ∃ j, e.shift_.length ≤ j ∧ j < e.lambda_.length ∧ err = .readPastEnd j := by
  unfold computePoint getInputDimension at h
  dsimp only at h
  split_ifs at h with hd
  · cases h
    exact .inl ⟨hd, rfl⟩
  · obtain ⟨j, hj, hstep⟩ := exists_mem_of_mapM_eq_error h
    rw [List.mem_range] at hj
    rcases pointAt_eq_error (by omega) hj hstep with h' | ⟨hs, h'⟩
    · exact .inr (.inl h')
    · exact .inr (.inr ⟨j, hs, hj, h'⟩)

theorem computePoint_getD {e : InverseBoxCoxEvaluation} {p y : Point} (h : e.computePoint p = .ok y)
    {j : ℕ} (hj : j < p.length) :
    y.getD j 0 = policyCoordinate (e.exponent j) (e.shifted p j) ∧
      ¬ Rejects (e.exponent j) (e.shifted p j) := by
  have hp := computePoint_length h
  simp only [computePoint, getInputDimension, hp, ne_eq, not_true_eq_false, if_false] at h
  have hstep := pointAt_eq_ok ((forall₂_range_iff.1 (mapM_eq_ok_iff.1 h)).2 j (hp ▸ hj))
  exact ⟨((pointCoordinate_eq_ok_iff.1 hstep).2).symm, (pointCoordinate_eq_ok_iff.1 hstep).1⟩

theorem operatorPoint_getD {e : InverseBoxCoxEvaluation} {p y : Point}
    (h : (e.operatorPoint p).1 = .ok y) {j : ℕ} (hj : j < p.length) :
    y.getD j 0 = policyCoordinate (e.exponent j) (e.shifted p j) ∧
      ¬ Rejects (e.exponent j) (e.shifted p j) :=
  computePoint_getD (operatorPoint_fst ▸ h) hj

section Consistent

variable {e : InverseBoxCoxEvaluation} {p : Point}
  (hshift : e.shift_.length = e.lambda_.length) (hp : p.length = e.lambda_.length)

include hshift hp

theorem computePoint_eq_loop :
    e.computePoint p = (List.range p.length).mapM fun j => pointCoordinate (e.exponent j) (e.shifted p j) := by
  simp only [computePoint, getInputDimension, hp, ne_eq, not_true_eq_false, if_false]
  exact mapM_congr_mem fun j hj => by
    rw [List.mem_range] at hj
    exact pointAt_of_lt (by omega) (by omega) (by omega)

theorem computePoint_eq_ok_iff {y : Point} :
    e.computePoint p = .ok y ↔ (∀ j < p.length, ¬ Rejects (e.exponent j) (e.shifted p j)) ∧
      y = (List.range p.length).map fun j => policyCoordinate (e.exponent j) (e.shifted p j) := by
  rw [computePoint_eq_loop hshift hp]
  constructor
  · intro h
    have h₂ := mapM_eq_ok_iff.1 h
    refine ⟨fun j hj => (pointCoordinate_eq_ok_iff.1 ((forall₂_range_iff.1 h₂).2 j hj)).1, ?_⟩
    have h₃ := List.forall₂_map_left_iff.2 (h₂.imp fun _ _ hb => (pointCoordinate_eq_ok_iff.1 hb).2)
    exact (List.forall₂_eq_eq_eq ▸ h₃).symm
  · rintro ⟨hj, rfl⟩
    exact mapM_eq_ok_map fun j hm => pointCoordinate_eq_ok_iff.2 ⟨hj j (List.mem_range.1 hm), rfl⟩

theorem computePoint_eq_error_iff {err : Exception} :
    e.computePoint p = .error err ↔
      err = .invalidArgument "Can not apply the inverse Box Cox function " ∧
        ∃ j < p.length, Rejects (e.exponent j) (e.shifted p j) := by
  rw [computePoint_eq_loop hshift hp]
  have hmsg : ∀ {err}, (List.range p.length).mapM (fun j => pointCoordinate (e.exponent j)
      (e.shifted p j)) = .error err → err = .invalidArgument "Can not apply the inverse Box Cox function " ∧
        ∃ j < p.length, Rejects (e.exponent j) (e.shifted p j) := fun h => by
    obtain ⟨j, hj, h⟩ := exists_mem_of_mapM_eq_error h
    exact ⟨(pointCoordinate_eq_error_iff.1 h).2, j, List.mem_range.1 hj, (pointCoordinate_eq_error_iff.1 h).1⟩
  refine ⟨hmsg, fun ⟨hm, j, hj, hr⟩ => ?_⟩
  obtain ⟨err', h'⟩ := (exists_mapM_eq_error_iff (f := fun j =>
    pointCoordinate (e.exponent j) (e.shifted p j))).2
      ⟨j, List.mem_range.2 hj, _, pointCoordinate_eq_error_iff.2 ⟨hr, rfl⟩⟩
  rwa [hm, ← (hmsg h').1]

end Consistent

/-- **The point `operator()` raises iff a coordinate fails the check of the exact branch**, and
a call that raises leaves the object, its call counter and its history as they were. -/
theorem operatorPoint_raises_iff (e : InverseBoxCoxEvaluation) (p : Point)
    (hshift : e.shift_.length = e.lambda_.length) (hp : p.length = e.lambda_.length) :
    ((∃ message, (e.operatorPoint p).1 = .error (.invalidArgument message)) ↔
      ∃ j < p.length, Rejects (e.exponent j) (e.shifted p j)) ∧
    ∀ err, (e.operatorPoint p).1 = .error err → (e.operatorPoint p).2 = e := by
  refine ⟨?_, fun err h => ?_⟩
  · simp only [operatorPoint_fst, computePoint_eq_error_iff hshift hp]
    exact ⟨fun ⟨_, _, h⟩ => h, fun h => ⟨_, rfl, h⟩⟩
  · rw [operatorPoint_fst] at h
    rw [operatorPoint_of_error h]

theorem computePoint_ofLambda_single {lib : Library} {l x : ℝ} (h : ¬ Rejects l (x - 0)) :
    (ofLambda lib [l]).computePoint [x] = .ok [policyCoordinate l (x - 0)] := by
  refine (computePoint_eq_ok_iff (e := ofLambda lib [l]) (p := [x]) rfl rfl).2 ⟨fun j hj => ?_, rfl⟩
  obtain rfl : j = 0 := by simpa using hj
  exact h

theorem computePoint_unit :
    (ofLambda Library.fresh [1]).computePoint [0] = .ok [policyCoordinate 1 (0 - 0)] :=
  computePoint_ofLambda_single (by norm_num [Rejects])

theorem computePoint_huge_exponent :
    (ofLambda Library.fresh [1e10]).computePoint [-5e-10] =
      .ok [policyCoordinate 1e10 (-5e-10 - 0)] :=
  computePoint_ofLambda_single (by norm_num [Rejects, abs_of_pos])

/-- **The point `operator()` accepts a point outside the image of the Box-Cox transform**: at
the exponent `1e10` the point `[-5e-10]` has `λx + 1 = -4` and takes the expansion branch. -/
theorem operatorPoint_accepts_outside_image :
    ¬ ∀ (e : InverseBoxCoxEvaluation) (p : Point), e.shift_.length = e.lambda_.length →
      p.length = e.lambda_.length →
      ((∃ message, (e.operatorPoint p).1 = .error (.invalidArgument message)) ↔
        ∃ j < p.length, e.exponent j ≠ 0 ∧ e.exponent j * e.shifted p j + 1 ≤ 0) ∧
      ∀ err, (e.operatorPoint p).1 = .error err → (e.operatorPoint p).2 = e := by
  intro h
  obtain ⟨_, hraise⟩ := (h (ofLambda Library.fresh [1e10]) [-5e-10] rfl rfl).1.2
    ⟨0, by simp, by norm_num [exponent, shifted, ofLambda, ofParameters]⟩
  rw [operatorPoint_fst, computePoint_huge_exponent] at hraise
  cases hraise

theorem exponent_large_of_expansion {lambda_i x : ℝ} (hs : |lambda_i * x * x| < 1e-8)
    (hd : lambda_i * x + 1 ≤ 0) : 1e8 < |lambda_i| := by
  have h1 : 1 ≤ |lambda_i| * |x| := by rw [← abs_mul, abs_of_neg (by linarith)]; linarith
  rw [abs_mul, abs_mul] at hs
  norm_num at hs ⊢
  nlinarith [abs_nonneg x, abs_nonneg lambda_i]

/-- **The check lets a point outside the image of the Box-Cox transform through only at an
exponent above `1e8`**, on every object. -/
theorem exponent_large_of_accepted (e : InverseBoxCoxEvaluation) (p y : Point)
    (h : (e.operatorPoint p).1 = .ok y) (j : ℕ) (hj : j < p.length)
    (hout : e.exponent j * e.shifted p j + 1 ≤ 0) : 1e8 < |e.exponent j| := by
  rw [operatorPoint_fst] at h
  exact exponent_large_of_expansion (not_le.1 fun hs => (computePoint_getD h hj).2 ⟨hs, hout⟩) hout

theorem exponent_large_of_accepted_huge :
    ((ofLambda Library.fresh [1e10]).operatorPoint [-5e-10]).1 =
      .ok [policyCoordinate 1e10 (-5e-10 - 0)] ∧
    0 < [(-5e-10 : ℝ)].length ∧
    (ofLambda Library.fresh [1e10]).exponent 0 * (ofLambda Library.fresh [1e10]).shifted [-5e-10] 0
      + 1 ≤ 0 ∧
    1e8 < |(ofLambda Library.fresh [1e10]).exponent 0| := by
  have hc : ((ofLambda Library.fresh [1e10]).operatorPoint [-5e-10]).1 =
      .ok [policyCoordinate 1e10 (-5e-10 - 0)] := by
    rw [operatorPoint_fst, computePoint_huge_exponent]
  have hout : (ofLambda Library.fresh [1e10]).exponent 0 *
      (ofLambda Library.fresh [1e10]).shifted [-5e-10] 0 + 1 ≤ 0 := by
    norm_num [exponent, shifted, ofLambda, ofParameters]
  exact ⟨hc, by simp, hout, exponent_large_of_accepted _ [-5e-10] _ hc 0 (by simp) hout⟩

theorem operatorPoint_raises_iff_unit :
    (ofLambda Library.fresh [1]).shift_.length = (ofLambda Library.fresh [1]).lambda_.length ∧
    [(-2 : ℝ)].length = (ofLambda Library.fresh [1]).lambda_.length ∧
    (((∃ message, ((ofLambda Library.fresh [1]).operatorPoint [-2]).1 =
        .error (.invalidArgument message)) ↔
      ∃ j < [(-2 : ℝ)].length, Rejects ((ofLambda Library.fresh [1]).exponent j)
        ((ofLambda Library.fresh [1]).shifted [-2] j)) ∧
    ∀ err, ((ofLambda Library.fresh [1]).operatorPoint [-2]).1 = .error err →
      ((ofLambda Library.fresh [1]).operatorPoint [-2]).2 = ofLambda Library.fresh [1]) :=
  ⟨rfl, rfl, operatorPoint_raises_iff _ _ rfl rfl⟩

end InverseBoxCoxEvaluation

end OpenTurns
