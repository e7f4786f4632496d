import OpenTurns.InverseBoxCox.SampleCall

/-!
# Runs of calls on one object

A program calls the two `operator()` of one object in turn. A call reads `lambda_`, `shift_` and
`outputDescription_`, which no call writes, and writes `callsNumber_` and the history, which no
call reads. So the calls of a run do not see one another: each returns what it returns on the
object the run starts from, and the object the run leaves is fixed by the calls that returned.

* `Call`, `Output`, `call`, `runCalls`: the calls, what they return, and a run; `evaluated`: the
  points a call evaluated and their images, none when it raised;
* `call_fst_afterCall`, `call_snd`: the step lemmas, from `operatorSample_fst_afterCall`;
* **`runCalls_outcomes`**: each call of a run returns what it returns alone on the first object;
* **`runCalls_snd`**: after a run, `callsNumber_` has grown by the number of points the calls
  that returned evaluated, and the history, when it is enabled, has stored those points and their
  images in the order of the calls; a call that raised leaves no trace.
-/

namespace OpenTurns

namespace InverseBoxCoxEvaluation

/-- A call of one of the two `operator()`. -/
inductive Call where
  /-- `operator()(const Point &)`. -/
  | point (inP : Point)
  /-- `operator()(const Sample &)`. -/
  | sample (inS : Sample)

/-- What a call returns. -/
inductive Output where
  /-- The point the point `operator()` returns. -/
  | point (result : Point)
  /-- The sample the sample `operator()` returns. -/
  | sample (result : Sample)

/-- The points a call evaluates. -/
def Call.inputs : Call → List Point
  | .point inP => [inP]
  | .sample inS => inS.rows

/-- The points a result holds. -/
def Output.points : Output → List Point
  | .point result => [result]
  | .sample result => result.rows

/-- A call: its outcome, and the object after it. -/
noncomputable def call (e : InverseBoxCoxEvaluation) : Call →
    Except Exception Output × InverseBoxCoxEvaluation
  | .point inP => ((e.operatorPoint inP).1.map .point, (e.operatorPoint inP).2)
  | .sample inS => ((e.operatorSample inS).1.map .sample, (e.operatorSample inS).2)

/-- The calls in turn: the outcome of each, and the object after the last. -/
noncomputable def runCalls : InverseBoxCoxEvaluation → List Call →
    List (Except Exception Output) × InverseBoxCoxEvaluation
  | e, [] => ([], e)
  | e, c :: calls => ((e.call c).1 :: ((e.call c).2.runCalls calls).1, ((e.call c).2.runCalls calls).2)

/-- The points a call on `e` evaluated and their images: none when it raised. -/
noncomputable def evaluated (e : InverseBoxCoxEvaluation) (c : Call) : List Point × List Point :=
  match (e.call c).1 with
  | .ok out => (c.inputs, out.points)
  | .error _ => ([], [])

/-! ## One call -/

section Steps

variable {e : InverseBoxCoxEvaluation} {n : ℕ} {f g : HistoryStrategy → HistoryStrategy}
  {X : Sample}

theorem computeSamplePolicy_afterCall :
    (e.afterCall n f g).computeSamplePolicy = e.computeSamplePolicy := by
  unfold computeSamplePolicy policyStep getInputDimension getLambda getShift
  simp only [afterCall_lambda, afterCall_shift]

theorem operatorSample_fst_afterCall :
    ((e.afterCall n f g).operatorSample X).1 = (e.operatorSample X).1 := by
  have hd : (e.afterCall n f g).getInputDimension = e.getInputDimension := by
    simp only [getInputDimension, afterCall_lambda]
  by_cases hX : X.dimension = e.getInputDimension
  · cases h : e.computeSamplePolicy X.rows with
    | ok rows =>
      have h' : (e.afterCall n f g).computeSamplePolicy X.rows = .ok rows := by
        rw [computeSamplePolicy_afterCall, h]
      rw [operatorSample_fst_of_ok hX h, operatorSample_fst_of_ok (hd ▸ hX) h']
      simp only [hd, afterCall_outputDescription]
    | error err =>
      have h' : (e.afterCall n f g).computeSamplePolicy X.rows = .error err := by
        rw [computeSamplePolicy_afterCall, h]
      rw [operatorSample_of_error hX h, operatorSample_of_error (hd ▸ hX) h']
  · unfold operatorSample
    rw [if_pos hX, if_pos (hd ▸ hX), hd]

theorem call_fst_afterCall {c : Call} : ((e.afterCall n f g).call c).1 = (e.call c).1 := by
  cases c with
  | point inP => simp only [call, operatorPoint_fst, computePoint_afterCall]
  | sample inS => simp only [call, operatorSample_fst_afterCall]

theorem evaluated_afterCall : (e.afterCall n f g).evaluated = e.evaluated := by
  funext c
  simp only [evaluated, call_fst_afterCall]

theorem operatorSample_snd :
    (e.operatorSample X).2 = match (e.operatorSample X).1 with
      | .ok Y => e.afterCall X.rows.length (·.storeSample X) (·.storeSample Y)
      | .error _ => e := by
  unfold operatorSample
  split
  · rfl
  · split <;> rfl

/-- **The object a call leaves**: `callsNumber_` grown by the points it evaluated, and those
points and their images stored when the history is enabled. -/
theorem call_snd {c : Call} : (e.call c).2 = e.afterCall (e.evaluated c).1.length
    (fun h => ⟨h.points ++ (e.evaluated c).1⟩) (fun h => ⟨h.points ++ (e.evaluated c).2⟩) := by
  cases c with
  | point inP =>
    cases h : e.computePoint inP with
    | ok y => simp only [call, evaluated, operatorPoint_of_ok h]; rfl
    | error err =>
      simp only [call, evaluated, operatorPoint_of_error h]
      exact afterCall_nil.symm
  | sample inS =>
    simp only [call, evaluated]
    rw [operatorSample_snd]
    cases (e.operatorSample inS).1 with
    | ok Y => rfl
    | error err => exact afterCall_nil.symm

end Steps

/-! ## Runs -/

/-- **The calls of a run do not see one another**: each returns what it returns alone, on the
object the run starts from. -/
theorem runCalls_outcomes (e : InverseBoxCoxEvaluation) (calls : List Call) :
    (e.runCalls calls).1 = calls.map fun c => (e.call c).1 := by
  induction calls generalizing e with
  | nil => rfl
  | cons c calls ih =>
    rw [runCalls, ih, call_snd]
    simp only [call_fst_afterCall, List.map_cons]

/-- **The object a run leaves**: `callsNumber_` has grown by the number of points that the calls
that returned evaluated, and the history, when it is enabled, has stored those points and their
images, in the order of the calls. A call that raised leaves no trace. -/
theorem runCalls_snd (e : InverseBoxCoxEvaluation) (calls : List Call) :
    (e.runCalls calls).2 = e.afterCall (calls.flatMap fun c => (e.evaluated c).1).length
      (fun h => ⟨h.points ++ calls.flatMap fun c => (e.evaluated c).1⟩)
      (fun h => ⟨h.points ++ calls.flatMap fun c => (e.evaluated c).2⟩) := by
  induction calls generalizing e with
  | nil => exact afterCall_nil.symm
  | cons c calls ih =>
    rw [runCalls, ih, call_snd, evaluated_afterCall, afterCall_afterCall]
    simp only [List.flatMap_cons, List.length_append]
    congr 1 <;> funext h <;> simp [List.append_assoc]

end InverseBoxCoxEvaluation

end OpenTurns
