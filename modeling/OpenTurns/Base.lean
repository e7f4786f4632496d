import Mathlib.Data.Real.Basic
import Mathlib.Data.List.Forall2

/-!
# The library types an evaluation reads and writes

`InverseBoxCoxEvaluation` is built on library classes that are not under `src/`. This file keeps
of them what the class reads and writes, over real arithmetic.

* `Point`, `Description`, `Sample` (every row has the sample's dimension), `Exception`;
* `readAt`: the read `p[index]`; a read past the end is an error of the model, where the source
  has undefined behaviour;
* `HistoryStrategy` (its `Full` implementation), `EvaluationImplementation`, `Library`;
* `mapM_eq_ok_iff`, `exists_mapM_eq_error_iff`: a loop in `Except` returns iff every step
  returns, and raises iff some step raises; `foldlM_eq_ok_foldl`, `exists_foldlM_eq_error`: the
  same for a fold whose steps update a state.
-/

namespace OpenTurns

/-- `Point`: a vector of scalars; its `getDimension` is its length. -/
abbrev Point := List ℝ

/-- `Description`: the names of the components of a point. -/
abbrev Description := List String

/-- `Sample`: rows of one `dimension`, and the names of their components. -/
structure Sample where
  dimension : ℕ
  rows : List Point
  rows_dimension : ∀ r ∈ rows, r.length = dimension
  description : Description

/-- What a method of the class raises. -/
inductive Exception where
  /-- `InvalidArgumentException`, with its message. -/
  | invalidArgument (message : String)
  /-- A read `p[index]` past the end of `p`: undefined behaviour in the source. -/
  | readPastEnd (index : ℕ)
  deriving DecidableEq, Repr

/-! ## Reads -/

/-- The read `p[index]`. -/
def readAt (p : Point) (index : ℕ) : Except Exception ℝ :=
  match p[index]? with
  | some v => .ok v
  | none => .error (.readPastEnd index)

theorem readAt_of_lt {p : Point} {index : ℕ} (h : index < p.length) :
    readAt p index = .ok (p.getD index 0) := by
  simp [readAt, h]

theorem readAt_eq_ok_iff {p : Point} {index : ℕ} {v : ℝ} :
    readAt p index = .ok v ↔ index < p.length ∧ p.getD index 0 = v := by
  by_cases h : index < p.length
  · simp [readAt_of_lt h, h]
  · simp [readAt, h, List.getElem?_eq_none (Nat.le_of_not_lt h)]

theorem readAt_eq_error_iff {p : Point} {index : ℕ} {err : Exception} :
    readAt p index = .error err ↔ p.length ≤ index ∧ err = .readPastEnd index := by
  by_cases h : index < p.length
  · simp [readAt_of_lt h, h]
  · simp [readAt, List.getElem?_eq_none (Nat.le_of_not_lt h), Nat.le_of_not_lt h, eq_comm]

/-! ## Loops in `Except` -/

section Loop

variable {α β ε : Type} {f : α → Except ε β}

theorem mapM_eq_ok_iff {l : List α} {ys : List β} :
    l.mapM f = .ok ys ↔ List.Forall₂ (fun a b => f a = .ok b) l ys := by
  induction l generalizing ys with
  | nil =>
    cases ys <;> simp only [List.mapM_nil, List.forall₂_nil_left_iff] <;> simp [pure, Except.pure]
  | cons a l ih =>
    simp only [List.mapM_cons, List.forall₂_cons_left_iff, ← ih]
    cases f a <;> cases l.mapM f <;> simp [bind, Except.bind, pure, Except.pure, eq_comm]

theorem exists_mem_of_mapM_eq_error {l : List α} {err : ε} (h : l.mapM f = .error err) :
    ∃ a ∈ l, f a = .error err := by
  induction l with
  | nil => cases h
  | cons a l ih =>
    simp only [List.mapM_cons] at h
    cases ha : f a with
    | error e => simp_all [bind, Except.bind]
    | ok b =>
      cases hl : l.mapM f with
      | error e =>
        simp only [ha, hl, bind, Except.bind, Except.error.injEq] at h
        obtain ⟨c, hc, hfc⟩ := ih (h ▸ hl)
        exact ⟨c, List.mem_cons_of_mem a hc, hfc⟩
      | ok bs => simp only [ha, hl, bind, Except.bind, pure, Except.pure] at h; cases h

theorem exists_mapM_eq_error_iff {l : List α} :
    (∃ e, l.mapM f = .error e) ↔ ∃ a ∈ l, ∃ e, f a = .error e := by
  refine ⟨fun ⟨e, h⟩ => (exists_mem_of_mapM_eq_error h).imp fun a ⟨ha, h⟩ => ⟨ha, e, h⟩, ?_⟩
  induction l with
  | nil => simp
  | cons a l ih =>
    simp only [List.mapM_cons, List.mem_cons, exists_eq_or_imp]
    rintro (⟨e, he⟩ | h)
    · exact ⟨e, by simp [he, bind, Except.bind]⟩
    · obtain ⟨e, he⟩ := ih h
      cases f a <;> simp only [he, bind, Except.bind] <;> exact ⟨_, rfl⟩

theorem mapM_congr_mem {g : α → Except ε β} {l : List α} (h : ∀ a ∈ l, f a = g a) :
    l.mapM f = l.mapM g := by
  induction l with
  | nil => rfl
  | cons a l ih =>
    simp only [List.mapM_cons, h a (List.mem_cons_self a l),
      ih fun b hb => h b (List.mem_cons_of_mem a hb)]

theorem forall₂_exists_mem_left {R : α → β → Prop} {l : List α} {ys : List β}
    (h : List.Forall₂ R l ys) : ∀ b ∈ ys, ∃ a ∈ l, R a b := by
  induction h with
  | nil => simp
  | cons hab _ ih =>
    simp only [List.mem_cons, forall_eq_or_imp, exists_eq_or_imp]
    exact ⟨.inl hab, fun b hb => (ih b hb).elim fun a ha => .inr ⟨a, ha⟩⟩

theorem forall₂_range_iff {R : ℕ → ℝ → Prop} {n : ℕ} {ys : Point} :
    List.Forall₂ R (List.range n) ys ↔ ys.length = n ∧ ∀ i < n, R i (ys.getD i 0) := by
  rw [List.forall₂_iff_get]
  simp only [List.length_range, List.get_eq_getElem, List.getElem_range]
  constructor
  · rintro ⟨h, hR⟩
    refine ⟨h.symm, fun i hi => ?_⟩
    simpa [List.getElem?_eq_getElem (h ▸ hi : i < ys.length)] using hR i hi (h ▸ hi)
  · rintro ⟨h, hR⟩
    refine ⟨h.symm, fun i hi hi' => ?_⟩
    simpa [List.getElem?_eq_getElem hi'] using hR i hi

theorem mapM_eq_ok_map {l : List α} {g : α → β} (h : ∀ a ∈ l, f a = .ok (g a)) :
    l.mapM f = .ok (l.map g) :=
  mapM_eq_ok_iff.2 <| List.forall₂_map_right_iff.2 <| List.forall₂_same.2 h

end Loop

/-! ## Folds in `Except` -/

section Fold

variable {α β ε : Type} {f : β → α → Except ε β}

theorem foldlM_eq_ok_foldl {g : β → α → β} {l : List α} (h : ∀ b, ∀ a ∈ l, f b a = .ok (g b a))
    (b : β) : l.foldlM f b = .ok (l.foldl g b) := by
  induction l generalizing b with
  | nil => rfl
  | cons a l ih =>
    rw [List.foldlM_cons, h b a (List.mem_cons_self a l), List.foldl_cons]
    exact ih (fun b a ha => h b a (List.mem_cons_of_mem _ ha)) _

theorem exists_foldlM_eq_error {l : List α} {a : α} (ha : a ∈ l)
    (h : ∀ b, ∃ err, f b a = .error err) (b : β) : ∃ err, l.foldlM f b = .error err := by
  induction l generalizing b with
  | nil => cases ha
  | cons c l ih =>
    rw [List.foldlM_cons]
    cases hc : f b c with
    | error err => exact ⟨err, rfl⟩
    | ok b' =>
      rcases List.mem_cons.1 ha with rfl | ha
      · obtain ⟨err, herr⟩ := h b
        rw [herr] at hc
        cases hc
      · exact ih ha b'

end Fold

/-! ## The base class -/

/-- `HistoryStrategy` as its `Full` implementation keeps it: every stored point, in order. -/
structure HistoryStrategy where
  points : List Point

/-- `HistoryStrategy::store(const Point &)`. -/
def HistoryStrategy.store (h : HistoryStrategy) (p : Point) : HistoryStrategy :=
  ⟨h.points ++ [p]⟩

/-- `HistoryStrategy::store(const Sample &)`: its rows, in order. -/
def HistoryStrategy.storeSample (h : HistoryStrategy) (s : Sample) : HistoryStrategy :=
  ⟨h.points ++ s.rows⟩

/-- The members of `EvaluationImplementation` that the class reads and writes. -/
structure EvaluationImplementation where
  callsNumber_ : ℕ
  isHistoryEnabled_ : Bool
  inputStrategy_ : HistoryStrategy
  outputStrategy_ : HistoryStrategy
  inputDescription_ : Description
  outputDescription_ : Description

/-- What the constructors take from library code that is not under `src/`: the object that
`EvaluationImplementation()` builds, and `Description::BuildDefault`. -/
structure Library where
  evaluationImplementation : EvaluationImplementation
  buildDefault : ℕ → String → Description

/-- A library whose base object has made no call and keeps no history, and whose default
descriptions are empty: the setting of the concrete inputs of this development. -/
def Library.fresh : Library :=
  ⟨⟨0, false, ⟨[]⟩, ⟨[]⟩, [], []⟩, fun _ _ => []⟩

/-- `Library.fresh` with the history of the base object enabled. -/
def Library.recording : Library :=
  ⟨⟨0, true, ⟨[]⟩, ⟨[]⟩, [], []⟩, fun _ _ => []⟩

end OpenTurns
