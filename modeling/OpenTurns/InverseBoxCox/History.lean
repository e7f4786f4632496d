import OpenTurns.InverseBoxCox.Lifecycle

/-!
# What the history records

When `isHistoryEnabled_` is set, both `operator()` store their inputs in `inputStrategy_` and
their results in `outputStrategy_`; both add the number of evaluated points to `callsNumber_`.
Over any run the history stays a record of the function: the `k`-th stored output is the image of
the `k`-th stored input, and `callsNumber_` counts at least the stored inputs. A stored input need
not be one the point `operator()` accepts: the sample `operator()` stores every row it computes.

* `image`: the value both calls compute for a point, coordinate by coordinate;
* `HistoryFaithful`: the history pairs each stored input with its image, within `callsNumber_`;
* `HistoryFaithful.afterCall`, `.operatorPoint`, `.operatorSample`: one lemma per call;
* **`reachable_historyFaithful`**: every reachable object keeps a faithful history, when the base
  object starts with an empty one and `load` reads what `save` wrote for such objects.
-/

namespace OpenTurns

namespace InverseBoxCoxEvaluation

/-- The value the calls compute for a point of the input dimension: the policy at each
coordinate. -/
noncomputable def image (e : InverseBoxCoxEvaluation) (x : Point) : Point :=
  (List.range e.getInputDimension).map fun j => policyCoordinate (e.exponent j) (e.shifted x j)

/-- The history is a record of the function: the `k`-th stored output is the image of the
`k`-th stored input, and `callsNumber_` counts at least the stored inputs. -/
def HistoryFaithful (e : InverseBoxCoxEvaluation) : Prop :=
  List.Forall₂ (fun x y => y = e.image x) e.inputStrategy_.points e.outputStrategy_.points ∧
    e.inputStrategy_.points.length ≤ e.callsNumber_

section Steps

variable {e : InverseBoxCoxEvaluation}

@[simp] theorem image_afterCall {n : ℕ} {f g : HistoryStrategy → HistoryStrategy} :
    (e.afterCall n f g).image = e.image := by
  unfold image getInputDimension exponent shifted
  simp only [afterCall_lambda, afterCall_shift]

theorem historyFaithful_of_empty (hin : e.inputStrategy_.points = [])
    (hout : e.outputStrategy_.points = []) : e.HistoryFaithful :=
  ⟨by rw [hin, hout]; exact .nil, by simp [hin]⟩

theorem HistoryFaithful.afterCall (hf : e.HistoryFaithful) {u v : List Point}
    (h : List.Forall₂ (fun x y => y = e.image x) u v) :
    (e.afterCall u.length (fun h => ⟨h.points ++ u⟩) (fun h => ⟨h.points ++ v⟩)).HistoryFaithful := by
  obtain ⟨hpairs, hcount⟩ := hf
  simp only [HistoryFaithful, image_afterCall, afterCall_inputStrategy, afterCall_outputStrategy,
    afterCall_callsNumber]
  split
  · exact ⟨List.rel_append hpairs h, by simp only [List.length_append]; omega⟩
  · exact ⟨hpairs, by omega⟩

theorem HistoryFaithful.operatorPoint (hf : e.HistoryFaithful) (hc : e.Consistent) (p : Point) :
    (e.operatorPoint p).2.HistoryFaithful := by
  cases h : e.computePoint p with
  | error err => rw [operatorPoint_of_error h]; exact hf
  | ok y =>
    have hp := computePoint_length h
    have hy : y = e.image p := by
      rw [((computePoint_eq_ok_iff hc hp).1 h).2, image, getInputDimension, hp]
    rw [operatorPoint_of_ok h]
    exact hf.afterCall (u := [p]) (.cons hy .nil)

theorem HistoryFaithful.operatorSample (hf : e.HistoryFaithful) (hc : e.Consistent) (X : Sample) :
    (e.operatorSample X).2.HistoryFaithful := by
  by_cases hX : X.dimension = e.getInputDimension
  · obtain ⟨Y, hrows, -, hY⟩ := operatorSample_of_ok hX (computeSamplePolicy_eq_map hc hX)
    rw [hY]
    refine hf.afterCall (u := X.rows) (v := Y.rows) ?_
    rw [hrows, List.forall₂_map_right_iff]
    exact List.forall₂_same.2 fun row _ => by rw [image, hX]
  · unfold InverseBoxCoxEvaluation.operatorSample
    rw [if_pos hX]
    exact hf

end Steps

/-- **Every reachable object keeps a faithful history**: the `k`-th output it stored is the
image of the `k`-th input it stored, and `callsNumber_` counts at least the stored inputs, when
the base object starts with an empty history and `load` reads attributes that `save` wrote for a
consistent object with a faithful history. -/
theorem reachable_historyFaithful (lib : Library) (stored : Advocate → Prop)
    (hlib : lib.evaluationImplementation.inputStrategy_.points = [] ∧
      lib.evaluationImplementation.outputStrategy_.points = [])
    (hstored : ∀ adv, stored adv →
      ∃ e' : InverseBoxCoxEvaluation, e'.Consistent ∧ e'.HistoryFaithful ∧ adv = e'.save)
    (e : InverseBoxCoxEvaluation) (he : Reachable lib stored e) : e.HistoryFaithful := by
  have h : e.Consistent ∧ e.HistoryFaithful := by
    induction he with
    | byDefault => exact ⟨consistent_byDefault, historyFaithful_of_empty hlib.1 hlib.2⟩
    | ofLambda lambda => exact ⟨consistent_ofLambda lambda, historyFaithful_of_empty hlib.1 hlib.2⟩
    | ofLambdaShift h =>
      obtain ⟨-, rfl⟩ := (ofLambdaShift_eq_ok_iff lib).1 h
      exact ⟨consistent_of_ofLambdaShift h, historyFaithful_of_empty hlib.1 hlib.2⟩
    | clone _ ih => exact ih
    | operatorPoint inP _ ih => exact ⟨ih.1.operatorPoint inP, ih.2.operatorPoint ih.1 inP⟩
    | operatorSample inS _ ih => exact ⟨ih.1.operatorSample inS, ih.2.operatorSample ih.1 inS⟩
    | load adv hadv _ _ =>
      obtain ⟨e', hc, hf, rfl⟩ := hstored adv hadv
      rw [load_save]
      exact ⟨hc, hf⟩
  exact h.2

theorem reachable_historyFaithful_recorded :
    (Library.recording.evaluationImplementation.inputStrategy_.points = [] ∧
      Library.recording.evaluationImplementation.outputStrategy_.points = []) ∧
    (∀ adv, (∃ e' : InverseBoxCoxEvaluation, e'.Consistent ∧ e'.HistoryFaithful ∧ adv = e'.save) →
      ∃ e' : InverseBoxCoxEvaluation, e'.Consistent ∧ e'.HistoryFaithful ∧ adv = e'.save) ∧
    Reachable Library.recording
      (fun adv => ∃ e' : InverseBoxCoxEvaluation, e'.Consistent ∧ e'.HistoryFaithful ∧ adv = e'.save)
      ((ofLambda Library.recording [1]).operatorSample ⟨1, [[-2]], by simp, []⟩).2 ∧
    ((ofLambda Library.recording [1]).operatorSample ⟨1, [[-2]], by simp, []⟩).2.HistoryFaithful :=
  ⟨⟨rfl, rfl⟩, fun _ h => h, .operatorSample _ (.ofLambda _),
    reachable_historyFaithful _ _ ⟨rfl, rfl⟩ (fun _ h => h) _ (.operatorSample _ (.ofLambda _))⟩

end InverseBoxCoxEvaluation

end OpenTurns
