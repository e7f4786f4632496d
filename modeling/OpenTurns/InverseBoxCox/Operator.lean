import OpenTurns.InverseBoxCox.Evaluation
import Mathlib.Analysis.SpecialFunctions.Pow.Real

/-!
# The two `operator()` of `InverseBoxCoxEvaluation`

For each coordinate, with `x = p[index] - shift_[index]`, the point `operator()` takes the
expansion `exp(x)(1 - λx²/2)` when `|λx²| < 1e-8`, and otherwise `pow(λx + 1, 1/λ)`, which it
first guards by the check `λx + 1 > 0`. The sample `operator()` runs
`InverseBoxCoxEvaluationComputeSamplePolicy` over the rows: the same two branches, with no check.
Both calls end by counting the inputs and storing the history.

* `pointCoordinate`, `policyCoordinate`: one coordinate of each path; `Rejects`: where the check
  raises; `pointCoordinate_eq_ok_iff`: elsewhere the two paths agree;
* `computePoint`, `operatorPoint`; `computeSamplePolicy`, `operatorSample`; `afterCall`;
* `pointAt_of_lt`, `policyStep_of_lt`: with every read in range, the loop bodies are the
  coordinates; `pointAt_eq_error`, `policyStep_eq_error`: what a step can raise;
  `pointAt_eq_ok`: a step of the point loop that returns read every member in range;
  `policyStep_of_pointAt`: it is a step of the policy that returns the same value.
-/

namespace OpenTurns

namespace InverseBoxCoxEvaluation

/-! ## One coordinate -/

/-- One coordinate of the point `operator()`. -/
noncomputable def pointCoordinate (lambda_i x : ℝ) : Except Exception ℝ :=
  if |lambda_i * x * x| < 1e-8 then .ok (Real.exp x * (1.0 - 0.5 * lambda_i * x * x))
  else
    let evaluation := lambda_i * x + 1.0
    if evaluation ≤ 0 then .error (.invalidArgument "Can not apply the inverse Box Cox function ")
    else .ok (evaluation ^ (1.0 / lambda_i))

/-- One coordinate of `InverseBoxCoxEvaluationComputeSamplePolicy`. -/
noncomputable def policyCoordinate (lambda_j x : ℝ) : ℝ :=
  if |lambda_j * x * x| < 1e-8 then Real.exp x * (1.0 - 0.5 * lambda_j * x * x)
  else (lambda_j * x + 1.0) ^ (1.0 / lambda_j)

/-- The coordinates the check of the point `operator()` rejects: the exact branch with
`λx + 1 ≤ 0`. -/
def Rejects (lambda_i x : ℝ) : Prop :=
  1e-8 ≤ |lambda_i * x * x| ∧ lambda_i * x + 1 ≤ 0

theorem pointCoordinate_eq_ok_iff {lambda_i x v : ℝ} :
    pointCoordinate lambda_i x = .ok v ↔ ¬ Rejects lambda_i x ∧ policyCoordinate lambda_i x = v := by
  have h1 : (1.0 : ℝ) = 1 := by norm_num
  by_cases hs : |lambda_i * x * x| < 1e-8
  · simp [pointCoordinate, policyCoordinate, Rejects, hs, not_le.2 hs]
  · by_cases hd : lambda_i * x + 1 ≤ 0
    · simp [pointCoordinate, Rejects, hs, hd, h1, not_lt.1 hs]
    · simp [pointCoordinate, policyCoordinate, Rejects, hs, hd, h1]

theorem pointCoordinate_eq_error_iff {lambda_i x : ℝ} {err : Exception} :
    pointCoordinate lambda_i x = .error err ↔
      Rejects lambda_i x ∧ err = .invalidArgument "Can not apply the inverse Box Cox function " := by
  have h1 : (1.0 : ℝ) = 1 := by norm_num
  by_cases hs : |lambda_i * x * x| < 1e-8
  · simp [pointCoordinate, Rejects, hs, not_le.2 hs]
  · by_cases hd : lambda_i * x + 1 ≤ 0
    · simp [pointCoordinate, Rejects, hs, hd, h1, not_lt.1 hs, eq_comm]
    · simp [pointCoordinate, Rejects, hs, hd, h1]

/-- The exponent `λ_j = lambda_[j]` of coordinate `j`. -/
def exponent (e : InverseBoxCoxEvaluation) (j : ℕ) : ℝ := e.lambda_.getD j 0

/-- The shifted coordinate `x_j = p[j] - shift_[j]`. -/
def shifted (e : InverseBoxCoxEvaluation) (p : Point) (j : ℕ) : ℝ :=
  p.getD j 0 - e.shift_.getD j 0

/-! ## The point `operator()` -/

/-- The body of the loop on `index` of the point `operator()`. -/
noncomputable def pointAt (e : InverseBoxCoxEvaluation) (inP : Point) (index : ℕ) :
    Except Exception ℝ := do
  let x := (← readAt inP index) - (← readAt e.shift_ index)
  let lambda_i ← readAt e.lambda_ index
  pointCoordinate lambda_i x

/-- The point `operator()` up to its side effects: the dimension check, then the loop. -/
noncomputable def computePoint (e : InverseBoxCoxEvaluation) (inP : Point) :
    Except Exception Point :=
  let dimension := e.getInputDimension
  if inP.length ≠ dimension then
    .error (.invalidArgument ("Error: the given point has an invalid dimension. Expect a dimension " ++
      toString dimension ++ ", got " ++ toString inP.length))
  else (List.range dimension).mapM (e.pointAt inP)

/-- What ends a call on `size` inputs: `callsNumber_` grows by `size`, and the history, when it
is enabled, stores the inputs and the outputs. -/
def afterCall (e : InverseBoxCoxEvaluation) (size : ℕ)
    (storeInput storeOutput : HistoryStrategy → HistoryStrategy) : InverseBoxCoxEvaluation :=
  if e.isHistoryEnabled_ then
    { e with callsNumber_ := e.callsNumber_ + size,
             inputStrategy_ := storeInput e.inputStrategy_,
             outputStrategy_ := storeOutput e.outputStrategy_ }
  else { e with callsNumber_ := e.callsNumber_ + size }

/-- The point `operator()`: its outcome, and the object after the call, whose `mutable` members
the call updates. -/
noncomputable def operatorPoint (e : InverseBoxCoxEvaluation) (inP : Point) :
    Except Exception Point × InverseBoxCoxEvaluation :=
  match e.computePoint inP with
  | .ok result => (.ok result, e.afterCall 1 (·.store inP) (·.store result))
  | .error err => (.error err, e)

/-! ## The sample `operator()` -/

/-- The body of the loop on `j` of `InverseBoxCoxEvaluationComputeSamplePolicy`, on one row
`input_[i]`. -/
noncomputable def policyStep (e : InverseBoxCoxEvaluation) (row : Point) (j : ℕ) :
    Except Exception ℝ := do
  let lambda_j ← readAt e.getLambda j
  let x := (← readAt row j) - (← readAt e.getShift j)
  .ok (policyCoordinate lambda_j x)

/-- `InverseBoxCoxEvaluationComputeSamplePolicy` run by `TBB::ParallelFor` over all the rows:
each row is computed on its own, so the rows in order. -/
noncomputable def computeSamplePolicy (e : InverseBoxCoxEvaluation) (input : List Point) :
    Except Exception (List Point) :=
  input.mapM fun row => (List.range e.getInputDimension).mapM (e.policyStep row)

theorem computeSamplePolicy_dimension {e : InverseBoxCoxEvaluation} {input output : List Point}
    (h : e.computeSamplePolicy input = .ok output) : ∀ r ∈ output, r.length = e.getInputDimension := by
  intro r hr
  obtain ⟨row, -, hrow⟩ := forall₂_exists_mem_left (mapM_eq_ok_iff.1 h) r hr
  simpa using (mapM_eq_ok_iff.1 hrow).length_eq.symm

/-- The sample `operator()`: the dimension check, the policy over the rows, then the side
effects and the output description. -/
noncomputable def operatorSample (e : InverseBoxCoxEvaluation) (inS : Sample) :
    Except Exception Sample × InverseBoxCoxEvaluation :=
  if inS.dimension ≠ e.getInputDimension then
    (.error (.invalidArgument ("Error: the given sample has an invalid dimension. Expect a dimension " ++
      toString e.getInputDimension ++ ", got " ++ toString inS.dimension)), e)
  else
    match h : e.computeSamplePolicy inS.rows with
    | .ok rows =>
      let result : Sample :=
        ⟨e.getInputDimension, rows, computeSamplePolicy_dimension h, e.outputDescription_⟩
      (.ok result, e.afterCall inS.rows.length (·.storeSample inS) (·.storeSample result))
    | .error err => (.error err, e)

/-! ## The loop bodies -/

section Steps

variable {e : InverseBoxCoxEvaluation} {p : Point} {j : ℕ}

theorem pointAt_of_lt (h1 : j < p.length) (h2 : j < e.shift_.length) (h3 : j < e.lambda_.length) :
    e.pointAt p j = pointCoordinate (e.exponent j) (e.shifted p j) := by
  simp [pointAt, exponent, shifted, readAt_of_lt h1, readAt_of_lt h2, readAt_of_lt h3, bind,
    Except.bind]

theorem pointAt_of_shift_le (h1 : j < p.length) (h2 : e.shift_.length ≤ j) :
    e.pointAt p j = .error (.readPastEnd j) := by
  have hs : readAt e.shift_ j = .error (.readPastEnd j) := readAt_eq_error_iff.2 ⟨h2, rfl⟩
  simp [pointAt, readAt_of_lt h1, hs, bind, Except.bind]

theorem policyStep_of_lt (h1 : j < p.length) (h2 : j < e.shift_.length)
    (h3 : j < e.lambda_.length) :
    e.policyStep p j = .ok (policyCoordinate (e.exponent j) (e.shifted p j)) := by
  simp [policyStep, getLambda, getShift, exponent, shifted, readAt_of_lt h1, readAt_of_lt h2,
    readAt_of_lt h3, bind, Except.bind]

theorem pointAt_eq_error {err : Exception} (h1 : j < p.length) (h3 : j < e.lambda_.length)
    (h : e.pointAt p j = .error err) :
    err = .invalidArgument "Can not apply the inverse Box Cox function " ∨
      (e.shift_.length ≤ j ∧ err = .readPastEnd j) := by
  by_cases h2 : j < e.shift_.length
  · rw [pointAt_of_lt h1 h2 h3] at h
    exact .inl (pointCoordinate_eq_error_iff.1 h).2
  · rw [pointAt_of_shift_le h1 (not_lt.1 h2)] at h
    cases h
    exact .inr ⟨not_lt.1 h2, rfl⟩

theorem policyStep_eq_error {err : Exception} (h1 : j < p.length) (h3 : j < e.lambda_.length)
    (h : e.policyStep p j = .error err) : e.shift_.length ≤ j ∧ err = .readPastEnd j := by
  by_cases h2 : j < e.shift_.length
  · rw [policyStep_of_lt h1 h2 h3] at h
    cases h
  · have hs : readAt e.shift_ j = .error (.readPastEnd j) :=
      readAt_eq_error_iff.2 ⟨not_lt.1 h2, rfl⟩
    simp [policyStep, getLambda, getShift, readAt_of_lt h1, readAt_of_lt h3, hs, bind,
      Except.bind] at h
    exact ⟨not_lt.1 h2, h.symm⟩

theorem pointAt_eq_ok {v : ℝ} :
    e.pointAt p j = .ok v → pointCoordinate (e.exponent j) (e.shifted p j) = .ok v := by
  unfold pointAt exponent shifted
  cases h1 : readAt p j <;> cases h2 : readAt e.shift_ j <;> cases h3 : readAt e.lambda_ j <;>
    simp only [bind, Except.bind, reduceCtorEq, false_implies]
  rw [(readAt_eq_ok_iff.1 h1).2, (readAt_eq_ok_iff.1 h2).2, (readAt_eq_ok_iff.1 h3).2]
  exact id

theorem policyStep_of_pointAt {v : ℝ} : e.pointAt p j = .ok v → e.policyStep p j = .ok v := by
  unfold pointAt policyStep getLambda getShift
  cases readAt p j <;> cases readAt e.shift_ j <;> cases readAt e.lambda_ j <;>
    simp only [bind, Except.bind, reduceCtorEq, false_implies, Except.ok.injEq]
  exact fun h => (pointCoordinate_eq_ok_iff.1 h).2

end Steps

/-! ## The calls -/

section Calls

variable {e : InverseBoxCoxEvaluation} {p : Point} {n : ℕ} {f g : HistoryStrategy → HistoryStrategy}

@[simp] theorem afterCall_lambda : (e.afterCall n f g).lambda_ = e.lambda_ := by
  unfold afterCall; split <;> rfl

@[simp] theorem afterCall_shift : (e.afterCall n f g).shift_ = e.shift_ := by
  unfold afterCall; split <;> rfl

@[simp] theorem afterCall_callsNumber : (e.afterCall n f g).callsNumber_ = e.callsNumber_ + n := by
  unfold afterCall; split <;> rfl

@[simp] theorem afterCall_outputDescription :
    (e.afterCall n f g).outputDescription_ = e.outputDescription_ := by
  unfold afterCall; split <;> rfl

@[simp] theorem afterCall_inputStrategy : (e.afterCall n f g).inputStrategy_ =
    if e.isHistoryEnabled_ then f e.inputStrategy_ else e.inputStrategy_ := by
  unfold afterCall; split <;> simp_all

@[simp] theorem afterCall_outputStrategy : (e.afterCall n f g).outputStrategy_ =
    if e.isHistoryEnabled_ then g e.outputStrategy_ else e.outputStrategy_ := by
  unfold afterCall; split <;> simp_all

theorem operatorPoint_fst : (e.operatorPoint p).1 = e.computePoint p := by
  unfold operatorPoint; split <;> simp_all

theorem operatorPoint_of_ok {y : Point} (h : e.computePoint p = .ok y) :
    e.operatorPoint p = (.ok y, e.afterCall 1 (·.store p) (·.store y)) := by
  simp [operatorPoint, h]

theorem operatorPoint_of_error {err : Exception} (h : e.computePoint p = .error err) :
    e.operatorPoint p = (.error err, e) := by
  simp [operatorPoint, h]

variable {X : Sample}

theorem operatorSample_of_ok {rows : List Point} (hX : X.dimension = e.getInputDimension)
    (h : e.computeSamplePolicy X.rows = .ok rows) :
    ∃ Y : Sample, Y.rows = rows ∧ Y.dimension = e.getInputDimension ∧
      e.operatorSample X = (.ok Y, e.afterCall X.rows.length (·.storeSample X) (·.storeSample Y)) := by
  unfold operatorSample
  split
  · contradiction
  · split
    · rename_i rows' h'
      obtain rfl : rows' = rows := by simpa [h] using h'.symm
      exact ⟨_, rfl, rfl, rfl⟩
    · simp_all

theorem operatorSample_fst_of_ok {rows : List Point} (hX : X.dimension = e.getInputDimension)
    (h : e.computeSamplePolicy X.rows = .ok rows) :
    (e.operatorSample X).1 =
      .ok ⟨e.getInputDimension, rows, computeSamplePolicy_dimension h, e.outputDescription_⟩ := by
  unfold operatorSample
  split
  · contradiction
  · split
    · rename_i rows' h'
      obtain rfl : rows' = rows := by simpa [h] using h'.symm
      rfl
    · simp_all

theorem operatorSample_of_error {err : Exception} (hX : X.dimension = e.getInputDimension)
    (h : e.computeSamplePolicy X.rows = .error err) : e.operatorSample X = (.error err, e) := by
  unfold operatorSample
  split
  · contradiction
  · split <;> simp_all

end Calls

end InverseBoxCoxEvaluation

end OpenTurns
