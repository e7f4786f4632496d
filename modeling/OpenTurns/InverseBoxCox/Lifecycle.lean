import OpenTurns.InverseBoxCox.SampleCall

/-!
# The objects a program can reach

An object is built by one of the three constructors, and then copied by `clone`, called through
either `operator()`, or overwritten by `load`. The two-argument constructor checks that the
exponent and the shift have the same dimension; the one-argument constructor builds a shift of
that dimension; the calls and `clone` keep both members; `load` reads them back from storage
without a check.

* `Reachable lib stored`: the objects reached from the constructors when `load` reads stored
  attributes that satisfy `stored`;
* `Consistent`: the shift has the dimension of the exponent, with one lemma per operation;
* **`reachable_consistent`**: if every stored pair of attributes is consistent, as `save` writes it
  for every consistent object (`save_consistent`), then every reachable object is consistent and
  neither `operator()` ever reads `shift_` past its end;
* `load_breaks_consistency`: `load` from stored attributes of different dimensions reaches an
  object that is not consistent.
-/

namespace OpenTurns

namespace InverseBoxCoxEvaluation

/-- The objects a program reaches through the constructors, `clone`, the two `operator()` and
`load` from stored attributes in `stored`. -/
inductive Reachable (lib : Library) (stored : Advocate → Prop) : InverseBoxCoxEvaluation → Prop
  | byDefault : Reachable lib stored (byDefault lib)
  | ofLambda (lambda : Point) : Reachable lib stored (ofLambda lib lambda)
  | ofLambdaShift {lambda shift : Point} {e : InverseBoxCoxEvaluation} :
      ofLambdaShift lib lambda shift = .ok e → Reachable lib stored e
  | clone {e : InverseBoxCoxEvaluation} : Reachable lib stored e → Reachable lib stored e.clone
  | operatorPoint {e : InverseBoxCoxEvaluation} (inP : Point) :
      Reachable lib stored e → Reachable lib stored (e.operatorPoint inP).2
  | operatorSample {e : InverseBoxCoxEvaluation} (inS : Sample) :
      Reachable lib stored e → Reachable lib stored (e.operatorSample inS).2
  | load {e : InverseBoxCoxEvaluation} (adv : Advocate) :
      stored adv → Reachable lib stored e → Reachable lib stored (e.load adv)

/-- The shift has the dimension of the exponent. -/
def Consistent (e : InverseBoxCoxEvaluation) : Prop := e.shift_.length = e.lambda_.length

/-- Stored attributes whose shift has the dimension of their exponent. -/
def Advocate.Consistent (adv : Advocate) : Prop := adv.shift_.length = adv.lambda_.length

/-! ## One lemma per operation -/

section Steps

variable {lib : Library} {e : InverseBoxCoxEvaluation}

theorem consistent_byDefault : (byDefault lib).Consistent := rfl

theorem consistent_ofLambda (lambda : Point) : (ofLambda lib lambda).Consistent :=
  List.length_replicate _ _

theorem consistent_of_ofLambdaShift {lambda shift : Point} (h : ofLambdaShift lib lambda shift = .ok e) :
    e.Consistent := by
  obtain ⟨hd, rfl⟩ := (ofLambdaShift_eq_ok_iff lib).1 h
  exact hd.symm

theorem Consistent.clone (he : e.Consistent) : e.clone.Consistent := he

theorem Consistent.afterCall (he : e.Consistent) {n : ℕ} {f g : HistoryStrategy → HistoryStrategy} :
    (e.afterCall n f g).Consistent := by
  simpa [Consistent] using he

theorem Consistent.operatorPoint (he : e.Consistent) (inP : Point) :
    (e.operatorPoint inP).2.Consistent := by
  unfold InverseBoxCoxEvaluation.operatorPoint
  split
  · exact he.afterCall
  · exact he

theorem Consistent.operatorSample (he : e.Consistent) (inS : Sample) :
    (e.operatorSample inS).2.Consistent := by
  unfold InverseBoxCoxEvaluation.operatorSample
  split
  · exact he
  · split
    · exact he.afterCall
    · exact he

theorem Consistent.load {adv : Advocate} (h : adv.Consistent) : (e.load adv).Consistent := h

theorem save_consistent (he : e.Consistent) : e.save.Consistent := he

end Steps

/-! ## Reads of `shift_` -/

theorem Consistent.operatorPoint_ne_readPastEnd {e : InverseBoxCoxEvaluation} (he : e.Consistent)
    (inP : Point) (j : ℕ) : (e.operatorPoint inP).1 ≠ .error (.readPastEnd j) := by
  rw [operatorPoint_fst]
  intro h
  rcases computePoint_error_cases h with ⟨-, h'⟩ | h' | ⟨k, hk, hk', -⟩
  · cases h'
  · cases h'
  · unfold Consistent at he
    omega

theorem Consistent.operatorSample_ne_readPastEnd {e : InverseBoxCoxEvaluation} (he : e.Consistent)
    (inS : Sample) (j : ℕ) : (e.operatorSample inS).1 ≠ .error (.readPastEnd j) := by
  intro h
  rcases operatorSample_error_cases h with ⟨-, h'⟩ | ⟨k, hk, hk', -⟩
  · cases h'
  · unfold Consistent at he
    omega

/-! ## Every reachable object -/

/-- **Every reachable object is consistent**, when every stored pair of attributes is; and then
neither `operator()` reads `shift_` past its end. -/
theorem reachable_consistent (lib : Library) (stored : Advocate → Prop)
    (hstored : ∀ adv, stored adv → adv.shift_.length = adv.lambda_.length)
    (e : InverseBoxCoxEvaluation) (he : Reachable lib stored e) :
    e.shift_.length = e.lambda_.length ∧
      (∀ inP j, (e.operatorPoint inP).1 ≠ .error (.readPastEnd j)) ∧
      (∀ inS j, (e.operatorSample inS).1 ≠ .error (.readPastEnd j)) := by
  have hc : e.Consistent := by
    induction he with
    | byDefault => exact consistent_byDefault
    | ofLambda lambda => exact consistent_ofLambda lambda
    | ofLambdaShift h => exact consistent_of_ofLambdaShift h
    | clone _ ih => exact ih.clone
    | operatorPoint inP _ ih => exact ih.operatorPoint inP
    | operatorSample inS _ ih => exact ih.operatorSample inS
    | load adv hadv _ _ => exact Consistent.load (hstored adv hadv)
  exact ⟨hc, hc.operatorPoint_ne_readPastEnd, hc.operatorSample_ne_readPastEnd⟩

theorem reachable_consistent_saved :
    (∀ adv : Advocate, adv.Consistent → adv.shift_.length = adv.lambda_.length) ∧
    Reachable Library.fresh Advocate.Consistent
      ((byDefault Library.fresh).load (ofLambda Library.fresh [2, 3]).save) ∧
    (((byDefault Library.fresh).load (ofLambda Library.fresh [2, 3]).save).shift_.length =
        ((byDefault Library.fresh).load (ofLambda Library.fresh [2, 3]).save).lambda_.length ∧
      (∀ inP j, (((byDefault Library.fresh).load (ofLambda Library.fresh [2, 3]).save).operatorPoint
        inP).1 ≠ .error (.readPastEnd j)) ∧
      (∀ inS j, (((byDefault Library.fresh).load (ofLambda Library.fresh [2, 3]).save).operatorSample
        inS).1 ≠ .error (.readPastEnd j))) := by
  have hr : Reachable Library.fresh Advocate.Consistent
      ((byDefault Library.fresh).load (ofLambda Library.fresh [2, 3]).save) :=
    .load _ (save_consistent (consistent_ofLambda _)) .byDefault
  exact ⟨fun _ h => h, hr, reachable_consistent _ _ (fun _ h => h) _ hr⟩

/-- **`load` reaches an object whose shift is shorter than its exponent**: it loads an exponent
of dimension one with an empty shift, and the point `operator()` on `[0]` then reads `shift_[0]`
past its end. -/
theorem load_breaks_consistency :
    ¬ ∀ (lib : Library) (e : InverseBoxCoxEvaluation), Reachable lib (fun _ => True) e →
      e.shift_.length = e.lambda_.length ∧
        (∀ inP j, (e.operatorPoint inP).1 ≠ .error (.readPastEnd j)) ∧
        (∀ inS j, (e.operatorSample inS).1 ≠ .error (.readPastEnd j)) := by
  intro h
  apply (h Library.fresh _ (.load ⟨Library.fresh.evaluationImplementation, [1], []⟩ trivial
    .byDefault)).2.1 [0] 0
  have hread : ((byDefault Library.fresh).load ⟨Library.fresh.evaluationImplementation, [1], []⟩).pointAt
      [0] 0 = .error (.readPastEnd 0) := pointAt_of_shift_le (by simp) (by simp [load])
  rw [operatorPoint_fst, computePoint, if_neg (by simp [getInputDimension, load])]
  show [0].mapM _ = _
  simp only [List.mapM_cons, hread, bind, Except.bind]

end InverseBoxCoxEvaluation

end OpenTurns
