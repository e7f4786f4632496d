import OpenTurns.InverseBoxCox.PointCall

/-!
# The sample `operator()` against point calls row by row

`InverseBoxCoxEvaluationComputeSamplePolicy` repeats the two branches of the point `operator()`
but not its check `λx + 1 > 0`. So the two paths agree wherever the point path returns, and only
there.

* `operatorPointEach`: point calls on the rows in turn; `operatorPointEach_eq_ok_iff` and
  `operatorPointEach_snd`: the run lemma, from the step lemmas `computePoint_afterCall` and
  `afterCall_afterCall`;
* **`operatorSample_agrees_with_operatorPointEach`**: when every point call returns, the sample
  call returns the same rows and leaves the object as the point calls leave it;
* `operatorSample_error_cases`: the exceptions of the sample call are the dimension check and
  reads of `shift_` past its end, never the check of the exact branch;
* **`operatorSample_returns_policy`**: on a sample of the right dimension the sample call never
  raises, and its entries are the policy's values wherever the point call's check accepts;
  `operatorSample_accepts_rejected_row`: it returns a row the point call rejects.
-/

namespace OpenTurns

namespace InverseBoxCoxEvaluation

/-- The point `operator()` applied to the rows in turn: it stops at the first exception, and the
object is the one the calls made so far leave. -/
noncomputable def operatorPointEach : InverseBoxCoxEvaluation → List Point →
    Except Exception (List Point) × InverseBoxCoxEvaluation
  | e, [] => (.ok [], e)
  | e, p :: ps =>
    match e.operatorPoint p with
    | (.ok y, e') => ((e'.operatorPointEach ps).1.map (y :: ·), (e'.operatorPointEach ps).2)
    | (.error err, e') => (.error err, e')

variable {e : InverseBoxCoxEvaluation} {n m : ℕ} {f g f' g' : HistoryStrategy → HistoryStrategy}

/-! ## One call -/

theorem computePoint_afterCall : (e.afterCall n f g).computePoint = e.computePoint := by
  unfold computePoint pointAt getInputDimension
  simp only [afterCall_lambda, afterCall_shift]

theorem afterCall_afterCall :
    (e.afterCall n f g).afterCall m f' g' = e.afterCall (n + m) (f' ∘ f) (g' ∘ g) := by
  unfold afterCall
  cases e.isHistoryEnabled_ <;> simp [Nat.add_assoc]

theorem afterCall_nil :
    e.afterCall 0 (fun h => ⟨h.points ++ []⟩) (fun h => ⟨h.points ++ []⟩) = e := by
  simp only [afterCall, List.append_nil]
  split <;> rfl

theorem policyRow_of_computePoint {p y : Point} (h : e.computePoint p = .ok y) :
    (List.range e.getInputDimension).mapM (e.policyStep p) = .ok y := by
  unfold computePoint at h
  dsimp only at h
  split_ifs at h
  exact mapM_eq_ok_iff.2 ((mapM_eq_ok_iff.1 h).imp fun _ _ => policyStep_of_pointAt)

/-! ## Point calls on the rows in turn -/

section Run

variable {p y : Point} {ps ys : List Point}

theorem operatorPointEach_cons_of_ok (h : e.computePoint p = .ok y) :
    e.operatorPointEach (p :: ps) =
      (((e.afterCall 1 (·.store p) (·.store y)).operatorPointEach ps).1.map (y :: ·),
        ((e.afterCall 1 (·.store p) (·.store y)).operatorPointEach ps).2) := by
  simp [operatorPointEach, operatorPoint_of_ok h]

theorem operatorPointEach_cons_of_error {err : Exception} (h : e.computePoint p = .error err) :
    e.operatorPointEach (p :: ps) = (.error err, e) := by
  simp [operatorPointEach, operatorPoint_of_error h]

theorem operatorPointEach_eq_ok_iff :
    (e.operatorPointEach ps).1 = .ok ys ↔
      List.Forall₂ (fun p y => e.computePoint p = .ok y) ps ys := by
  induction ps generalizing e ys with
  | nil => cases ys <;> simp [operatorPointEach]
  | cons p ps ih =>
    cases h : e.computePoint p with
    | error err => simp [operatorPointEach_cons_of_error h, List.forall₂_cons_left_iff, h]
    | ok y =>
      have ih' := @ih (e.afterCall 1 (·.store p) (·.store y))
      simp only [computePoint_afterCall] at ih'
      rw [operatorPointEach_cons_of_ok h, List.forall₂_cons_left_iff]
      simp only [h, Except.ok.injEq, exists_eq_left, ← ih']
      cases ((e.afterCall 1 (·.store p) (·.store y)).operatorPointEach ps).1 <;>
        simp [Except.map, eq_comm]

/-- **The run of point calls that all return** counts one call per row and stores the rows and
their images. -/
theorem operatorPointEach_snd (h : List.Forall₂ (fun p y => e.computePoint p = .ok y) ps ys) :
    (e.operatorPointEach ps).2 =
      e.afterCall ps.length (fun h => ⟨h.points ++ ps⟩) (fun h => ⟨h.points ++ ys⟩) := by
  induction ps generalizing e ys with
  | nil => rw [List.forall₂_nil_left_iff.1 h]; exact afterCall_nil.symm
  | cons p ps ih =>
    obtain ⟨y, ys, hy, hys, rfl⟩ := List.forall₂_cons_left_iff.1 h
    have hys' : List.Forall₂ (fun q z => (e.afterCall 1 (·.store p) (·.store y)).computePoint q =
        .ok z) ps ys := by simpa only [computePoint_afterCall] using hys
    rw [operatorPointEach_cons_of_ok hy, ih hys', afterCall_afterCall, List.length_cons,
      Nat.add_comm 1]
    congr 1 <;> funext h <;> simp [HistoryStrategy.store]

end Run

/-! ## The sample call -/

/-- **Where every point call returns, the sample `operator()` returns the same rows**, and it
leaves the object as the point calls leave it: `callsNumber_` grows by the number of rows, and
the history stores the same points. -/
theorem operatorSample_agrees_with_operatorPointEach (e : InverseBoxCoxEvaluation) (X : Sample)
    (hX : X.dimension = e.getInputDimension) (ys : List Point)
    (h : (e.operatorPointEach X.rows).1 = .ok ys) :
    ∃ Y : Sample, (e.operatorSample X).1 = .ok Y ∧ Y.rows = ys ∧
      (e.operatorSample X).2 = (e.operatorPointEach X.rows).2 := by
  have hrows := operatorPointEach_eq_ok_iff.1 h
  have hpolicy : e.computeSamplePolicy X.rows = .ok ys :=
    mapM_eq_ok_iff.2 (hrows.imp fun _ _ => policyRow_of_computePoint)
  obtain ⟨Y, rfl, -, hY⟩ := operatorSample_of_ok hX hpolicy
  exact ⟨Y, by rw [hY], rfl, by rw [hY, operatorPointEach_snd hrows]; rfl⟩

theorem operatorSample_agrees_with_operatorPointEach_recorded :
    (⟨1, [[0], [1]], by simp, []⟩ : Sample).dimension =
      (ofLambda Library.recording [1]).getInputDimension ∧
    ((ofLambda Library.recording [1]).operatorPointEach [[0], [1]]).1 =
      .ok [[policyCoordinate 1 (0 - 0)], [policyCoordinate 1 (1 - 0)]] ∧
    ∃ Y : Sample, ((ofLambda Library.recording [1]).operatorSample ⟨1, [[0], [1]], by simp, []⟩).1 =
        .ok Y ∧ Y.rows = [[policyCoordinate 1 (0 - 0)], [policyCoordinate 1 (1 - 0)]] ∧
      ((ofLambda Library.recording [1]).operatorSample ⟨1, [[0], [1]], by simp, []⟩).2 =
        ((ofLambda Library.recording [1]).operatorPointEach [[0], [1]]).2 := by
  have h : ((ofLambda Library.recording [1]).operatorPointEach [[0], [1]]).1 =
      .ok [[policyCoordinate 1 (0 - 0)], [policyCoordinate 1 (1 - 0)]] :=
    operatorPointEach_eq_ok_iff.2 (.cons (computePoint_ofLambda_single (by norm_num [Rejects]))
      (.cons (computePoint_ofLambda_single (by norm_num [Rejects])) .nil))
  exact ⟨rfl, h, operatorSample_agrees_with_operatorPointEach (ofLambda Library.recording [1])
    ⟨1, [[0], [1]], by simp, []⟩ rfl _ h⟩

theorem computeSamplePolicy_eq_map {X : Sample} (hshift : e.shift_.length = e.lambda_.length)
    (hX : X.dimension = e.getInputDimension) :
    e.computeSamplePolicy X.rows = .ok (X.rows.map fun row =>
      (List.range X.dimension).map fun j => policyCoordinate (e.exponent j) (e.shifted row j)) := by
  refine mapM_eq_ok_map fun row hrow => ?_
  have hd := X.rows_dimension row hrow
  rw [← hX]
  refine mapM_eq_ok_map fun j hj => policyStep_of_lt ?_ ?_ ?_ <;>
    simp only [getInputDimension, List.mem_range] at * <;> omega

/-- **Every exception of the sample call**: the dimension check, whose message names both
dimensions, or a read of `shift_` past its end; never the check of the exact branch. -/
theorem operatorSample_error_cases {X : Sample} {err : Exception}
    (h : (e.operatorSample X).1 = .error err) :
    (X.dimension ≠ e.lambda_.length ∧ err = .invalidArgument
      ("Error: the given sample has an invalid dimension. Expect a dimension " ++
        toString e.lambda_.length ++ ", got " ++ toString X.dimension)) ∨
    ∃ j, e.shift_.length ≤ j ∧ j < e.lambda_.length ∧ err = .readPastEnd j := by
  by_cases hX : X.dimension = e.getInputDimension
  · cases hp : e.computeSamplePolicy X.rows with
    | ok rows =>
      obtain ⟨Y, -, -, hY⟩ := operatorSample_of_ok hX hp
      rw [hY] at h
      cases h
    | error err' =>
      rw [operatorSample_of_error hX hp] at h
      cases h
      obtain ⟨row, hrow, hrowerr⟩ := exists_mem_of_mapM_eq_error hp
      obtain ⟨j, hj, hstep⟩ := exists_mem_of_mapM_eq_error hrowerr
      have hj' : j < e.lambda_.length := List.mem_range.1 hj
      have hd : j < row.length := by
        rw [X.rows_dimension row hrow, hX]
        exact hj'
      exact .inr ⟨j, (policyStep_eq_error hd hj' hstep).1, hj', (policyStep_eq_error hd hj' hstep).2⟩
  · unfold InverseBoxCoxEvaluation.operatorSample at h
    rw [if_pos hX] at h
    cases h
    exact .inl ⟨hX, rfl⟩

/-- At the exponent `1` with no shift, the point `operator()` rejects `[-2]`, where
`λx + 1 = -1`, while the sample `operator()` returns the row `[-1]` for the sample of that
point. -/
theorem operatorSample_accepts_rejected_row (lib : Library) :
    ((ofLambda lib [1]).operatorPoint [-2]).1 =
      .error (.invalidArgument "Can not apply the inverse Box Cox function ") ∧
    ∃ Y : Sample, ((ofLambda lib [1]).operatorSample ⟨1, [[-2]], by simp, []⟩).1 = .ok Y ∧
      Y.rows = [[-1]] := by
  refine ⟨?_, ?_⟩
  · rw [operatorPoint_fst, computePoint_eq_error_iff (e := ofLambda lib [1]) (p := [-2]) rfl rfl]
    exact ⟨rfl, 0, by simp, by norm_num [Rejects, exponent, shifted, ofLambda, ofParameters]⟩
  · obtain ⟨Y, hrows, -, hY⟩ := operatorSample_of_ok (e := ofLambda lib [1])
      (X := ⟨1, [[-2]], by simp, []⟩) rfl (computeSamplePolicy_eq_map rfl rfl)
    refine ⟨Y, by rw [hY], ?_⟩
    rw [hrows]
    norm_num [policyCoordinate, exponent, shifted, ofLambda, ofParameters, List.range_succ]

end InverseBoxCoxEvaluation

end OpenTurns
