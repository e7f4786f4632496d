import OpenTurns.Base

/-!
# `InverseBoxCoxEvaluation`: the object, its constructors and its persistence

The class holds an exponent `lambda_` and a shift `shift_` over the members of its base class.
Its input and output dimensions are both the dimension of `lambda_`.

* `byDefault`, `ofLambda`, `ofLambdaShift`: the three constructors, built from `ofParameters`;
  only the last one checks that the exponent and the shift have the same dimension;
* `clone`, `equals` (`operator==`), the accessors;
* `save` and `load` through an `Advocate`; **`load_save`**: loading what `save` wrote gives the
  object back.
-/

namespace OpenTurns

/-- `InverseBoxCoxEvaluation`: the exponents `lambda_` and the shift `shift_`. -/
structure InverseBoxCoxEvaluation extends EvaluationImplementation where
  lambda_ : Point
  shift_ : Point

namespace InverseBoxCoxEvaluation

/-! ## Constructors -/

section Constructors

variable (lib : Library)

/-- The object the two parameter constructors build once their arguments are accepted. -/
def ofParameters (lambda shift : Point) : InverseBoxCoxEvaluation :=
  { lib.evaluationImplementation with
    lambda_ := lambda
    shift_ := shift
    inputDescription_ := lib.buildDefault lambda.length "x"
    outputDescription_ := lib.buildDefault lambda.length "y" }

/-- The default constructor: no exponent and no shift. -/
def byDefault : InverseBoxCoxEvaluation :=
  { lib.evaluationImplementation with lambda_ := [], shift_ := [] }

/-- The parameter constructor `InverseBoxCoxEvaluation(lambda)`: a zero shift of the same
dimension. -/
def ofLambda (lambda : Point) : InverseBoxCoxEvaluation :=
  ofParameters lib lambda (List.replicate lambda.length 0)

/-- The parameter constructor `InverseBoxCoxEvaluation(lambda, shift)`: it raises when the two
dimensions differ. -/
def ofLambdaShift (lambda shift : Point) : Except Exception InverseBoxCoxEvaluation :=
  if lambda.length ≠ shift.length then
    .error (.invalidArgument ("Error: the given exponent vector has a dimension=" ++
      toString lambda.length ++ " different from the shift dimension=" ++ toString shift.length))
  else .ok (ofParameters lib lambda shift)

theorem ofLambdaShift_eq_ok_iff {lambda shift : Point} {e : InverseBoxCoxEvaluation} :
    ofLambdaShift lib lambda shift = .ok e ↔
      lambda.length = shift.length ∧ e = ofParameters lib lambda shift := by
  unfold ofLambdaShift
  split_ifs with h
  · simp [h]
  · simp [not_not.1 h, eq_comm]

end Constructors

/-! ## Accessors and copies -/

/-- `getLambda()`. -/
def getLambda (e : InverseBoxCoxEvaluation) : Point := e.lambda_

/-- `getShift()`. -/
def getShift (e : InverseBoxCoxEvaluation) : Point := e.shift_

/-- `getInputDimension()`: the dimension of `lambda_`. -/
def getInputDimension (e : InverseBoxCoxEvaluation) : ℕ := e.lambda_.length

/-- `getOutputDimension()`: the dimension of `lambda_` as well. -/
def getOutputDimension (e : InverseBoxCoxEvaluation) : ℕ := e.lambda_.length

/-- The clone constructor: a copy. -/
def clone (e : InverseBoxCoxEvaluation) : InverseBoxCoxEvaluation := e

/-- `operator==`: the same exponents and the same shift. The source first returns `true` for
the object itself, which the comparison also gives. -/
def equals (e other : InverseBoxCoxEvaluation) : Prop :=
  e.lambda_ = other.lambda_ ∧ e.shift_ = other.shift_

/-! ## Persistence -/

/-- The attributes `save` stores and `load` reads back: those of the base class, `lambda_` and
`shift_`. -/
structure Advocate where
  base : EvaluationImplementation
  lambda_ : Point
  shift_ : Point

/-- `save(adv)`. -/
def save (e : InverseBoxCoxEvaluation) : Advocate :=
  ⟨e.toEvaluationImplementation, e.lambda_, e.shift_⟩

/-- `load(adv)`: the stored attributes, read back without any check. -/
def load (e : InverseBoxCoxEvaluation) (adv : Advocate) : InverseBoxCoxEvaluation :=
  { e with toEvaluationImplementation := adv.base, lambda_ := adv.lambda_, shift_ := adv.shift_ }

/-- **Loading what `save` wrote gives the object back**, whatever object loads it. -/
theorem load_save (e e' : InverseBoxCoxEvaluation) : e.load e'.save = e' := rfl

end InverseBoxCoxEvaluation

end OpenTurns
