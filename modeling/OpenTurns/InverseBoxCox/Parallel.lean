import OpenTurns.InverseBoxCox.Operator

/-!
# `TBB::ParallelFor` over the sample policy

The sample `operator()` fills `Sample result(size, d)` by `TBB::ParallelFor(0, size, policy)`:
the rows are cut into blocks, and `InverseBoxCoxEvaluationComputeSamplePolicy::operator()` runs
on each block, the blocks on several threads at once. On its block the policy writes
`output_[i][j]` for each row `i` and each coordinate `j`, and it reads only `input_`, `lambda_`
and `shift_`, which no thread writes. So the only shared data that changes is `output_`, one
store per entry, and a run of `ParallelFor` is an interleaving of the stores of the blocks.

* `BlockedRange`, `policyCells`: the entries the policy writes on one block, in the order of its
  loops; `Splits`: blocks that lie in the rows and cover them;
* `policyWrite`: the body of the loop on `j`, which computes one entry and stores it;
  `parallelFor`: the stores in a given order, from the zero sample;
* `entry_writeEntry`, `entry_foldl_writeEntry`: a store changes its own entry only, so stores of
  values that do not depend on the state leave each entry with its value if it is written, and
  untouched otherwise;
* **`nodup_flatMap_policyCells`**: the stores of disjoint blocks write each entry of the result
  exactly once, so no two threads write one entry;
* **`parallelFor_eq_ok_iff`**: for every cut of the rows into blocks and every order of the
  blocks' stores, `ParallelFor` returns the rows `computeSamplePolicy` returns, and raises where
  it raises. The blocks need not be disjoint, as those of `ParallelFor` are.
-/

namespace OpenTurns

namespace InverseBoxCoxEvaluation

/-- `TBB::BlockedRange<UnsignedInteger>`: the indices from `begin()` up to `end()`. -/
structure BlockedRange where
  begin_ : ℕ
  end_ : ℕ

/-- The entries `(i, j)` the policy writes on the block `r`, in the order of its loops on `i`
and on `j`. -/
def policyCells (e : InverseBoxCoxEvaluation) (r : BlockedRange) : List (ℕ × ℕ) :=
  (List.range' r.begin_ (r.end_ - r.begin_)).flatMap fun i =>
    (List.range e.getInputDimension).map fun j => (i, j)

/-- Blocks as `ParallelFor(0, size, policy)` cuts the rows: each lies in `0, …, size - 1`, and
every row lies in one of them. -/
def Splits (size : ℕ) (blocks : List BlockedRange) : Prop :=
  (∀ r ∈ blocks, r.end_ ≤ size) ∧ ∀ i < size, ∃ r ∈ blocks, r.begin_ ≤ i ∧ i < r.end_

/-- `Sample result(size, dimension)`: `size` rows of zeros. -/
def zeroRows (size dimension : ℕ) : List Point :=
  List.replicate size (List.replicate dimension 0)

/-- The entry `output[i][j]`, if the rows have one. -/
def entry (output : List Point) (i j : ℕ) : Option ℝ :=
  output[i]?.bind (·[j]?)

/-- The store `output[i][j] = v`. -/
def writeEntry (output : List Point) (i j : ℕ) (v : ℝ) : List Point :=
  output.modify (·.set j v) i

/-- The body of the loop on `j` of the policy at row `i`: it computes `output_[i][j]` from
`input_[i]` by the reads of `policyStep`, and stores it. -/
noncomputable def policyWrite (e : InverseBoxCoxEvaluation) (input : List Point) :
    List Point → ℕ × ℕ → Except Exception (List Point)
  | output, (i, j) => do
    let v ← e.policyStep (input.getD i []) j
    .ok (writeEntry output i j v)

/-- `TBB::ParallelFor(0, size, policy)` whose threads' stores happen in the order `writes`. -/
noncomputable def parallelFor (e : InverseBoxCoxEvaluation) (input : List Point)
    (writes : List (ℕ × ℕ)) : Except Exception (List Point) :=
  writes.foldlM (e.policyWrite input) (zeroRows input.length e.getInputDimension)

/-! ## Stores -/

section Entries

variable {output : List Point} {i j k l : ℕ} {v : ℝ}

theorem entry_writeEntry : entry (writeEntry output i j v) k l =
    if (i, j) = (k, l) then (entry output k l).map fun _ => v else entry output k l := by
  unfold entry writeEntry
  rw [List.getElem?_modify]
  by_cases hik : i = k
  · subst hik
    cases output[i]? with
    | none => simp
    | some row =>
      by_cases hjl : j = l
      · subst hjl
        by_cases hj : j < row.length
        · simp [List.getElem?_set, hj]
        · simp [List.getElem?_set, hj, List.getElem?_eq_none (not_lt.1 hj)]
      · simp [List.getElem?_set, hjl]
  · simp [hik]

theorem length_foldl_writeEntry (w : ℕ → ℕ → ℝ) (writes : List (ℕ × ℕ)) (output : List Point) :
    (writes.foldl (fun o c => writeEntry o c.1 c.2 (w c.1 c.2)) output).length = output.length := by
  induction writes generalizing output with
  | nil => rfl
  | cons c writes ih => rw [List.foldl_cons, ih, writeEntry, List.length_modify]

/-- **Stores of values that do not depend on the state**: each entry ends with its value if
some store writes it, and keeps its old value otherwise, whatever the order of the stores. -/
theorem entry_foldl_writeEntry (w : ℕ → ℕ → ℝ) (writes : List (ℕ × ℕ)) (output : List Point)
    (k l : ℕ) :
    entry (writes.foldl (fun o c => writeEntry o c.1 c.2 (w c.1 c.2)) output) k l =
      if (k, l) ∈ writes then (entry output k l).map fun _ => w k l else entry output k l := by
  induction writes generalizing output with
  | nil => simp
  | cons c writes ih =>
    obtain ⟨i, j⟩ := c
    rw [List.foldl_cons, ih, entry_writeEntry]
    by_cases hc : (i, j) = (k, l)
    · obtain ⟨rfl, rfl⟩ := Prod.mk.inj hc
      simp only [List.mem_cons, true_or, if_true, Option.map_map]
      split_ifs <;> rfl
    · simp only [hc, Ne.symm hc, if_false, List.mem_cons, false_or]

theorem eq_of_entry_eq {A B : List Point} (hlen : A.length = B.length)
    (h : ∀ k l, entry A k l = entry B k l) : A = B :=
  List.ext_getElem hlen fun k hA hB => List.ext_getElem? fun l => by
    simpa [entry, List.getElem?_eq_getElem hA, List.getElem?_eq_getElem hB] using h k l

theorem entry_zeroRows {size dimension : ℕ} : entry (zeroRows size dimension) k l =
    if k < size ∧ l < dimension then some 0 else none := by
  unfold entry zeroRows
  by_cases hk : k < size <;> by_cases hl : l < dimension <;> simp [List.getElem?_replicate, hk, hl]

theorem entry_of_shape {rows : List Point} {size dimension : ℕ} (hlen : rows.length = size)
    (hrow : ∀ k < size, (rows.getD k []).length = dimension) :
    entry rows k l =
      if k < size ∧ l < dimension then some ((rows.getD k []).getD l 0) else none := by
  unfold entry
  by_cases hk : k < size
  · have hk' : k < rows.length := hlen ▸ hk
    have hr := hrow k hk
    rw [List.getD_eq_getElem _ _ hk'] at hr ⊢
    by_cases hl : l < dimension
    · simp [List.getElem?_eq_getElem hk', hk, hl, List.getElem?_eq_getElem (hr ▸ hl : l < _)]
    · simp [List.getElem?_eq_getElem hk', hl, hr, not_lt.1 hl]
  · simp [hk, List.getElem?_eq_none (hlen ▸ not_lt.1 hk : rows.length ≤ k)]

end Entries

/-! ## The blocks and their stores -/

section Blocks

variable {e : InverseBoxCoxEvaluation} {input rows : List Point} {writes : List (ℕ × ℕ)}

theorem mem_policyCells {r : BlockedRange} {i j : ℕ} :
    (i, j) ∈ e.policyCells r ↔ r.begin_ ≤ i ∧ i < r.end_ ∧ j < e.getInputDimension := by
  simp only [policyCells, List.mem_flatMap, List.mem_range'_1, List.mem_map, List.mem_range,
    Prod.mk.injEq]
  constructor
  · rintro ⟨i', hi', j', hj', rfl, rfl⟩
    exact ⟨hi'.1, by omega, hj'⟩
  · rintro ⟨h1, h2, hj⟩
    exact ⟨i, ⟨h1, by omega⟩, j, hj, rfl, rfl⟩

theorem mem_of_splits {size : ℕ} {blocks : List BlockedRange} (hblocks : Splits size blocks)
    (hwrites : writes.Perm (blocks.flatMap e.policyCells)) {i j : ℕ} :
    (i, j) ∈ writes ↔ i < size ∧ j < e.getInputDimension := by
  rw [hwrites.mem_iff, List.mem_flatMap]
  constructor
  · rintro ⟨r, hr, hc⟩
    obtain ⟨-, hi, hj⟩ := mem_policyCells.1 hc
    exact ⟨lt_of_lt_of_le hi (hblocks.1 r hr), hj⟩
  · rintro ⟨hi, hj⟩
    obtain ⟨r, hr, h1, h2⟩ := hblocks.2 i hi
    exact ⟨r, hr, mem_policyCells.2 ⟨h1, h2, hj⟩⟩

theorem nodup_policyCells {r : BlockedRange} : (e.policyCells r).Nodup :=
  (List.nodup_range' _ _).product (List.nodup_range _)

/-- **The stores of disjoint blocks never race**: when the blocks cut the rows without
overlapping, as those of `ParallelFor` do, no entry is written by two stores, and the entries
written are exactly those of the result. -/
theorem nodup_flatMap_policyCells (e : InverseBoxCoxEvaluation) (size : ℕ)
    (blocks : List BlockedRange) (hblocks : Splits size blocks)
    (hdisjoint : blocks.Pairwise fun r s => r.end_ ≤ s.begin_ ∨ s.end_ ≤ r.begin_) :
    (blocks.flatMap e.policyCells).Nodup ∧
      ∀ i j, (i, j) ∈ blocks.flatMap e.policyCells ↔ i < size ∧ j < e.getInputDimension := by
  refine ⟨List.nodup_flatMap.2 ⟨fun _ _ => nodup_policyCells, hdisjoint.imp fun h => ?_⟩,
    fun _ _ => mem_of_splits hblocks (List.Perm.refl _)⟩
  rintro ⟨i, j⟩ hr hs
  have := mem_policyCells.1 hr
  have := mem_policyCells.1 hs
  omega

theorem nodup_flatMap_policyCells_two_blocks :
    Splits 2 [⟨0, 1⟩, ⟨1, 2⟩] ∧
    [(⟨0, 1⟩ : BlockedRange), ⟨1, 2⟩].Pairwise (fun r s => r.end_ ≤ s.begin_ ∨ s.end_ ≤ r.begin_) ∧
    ([⟨0, 1⟩, ⟨1, 2⟩].flatMap (ofLambda Library.fresh [1]).policyCells).Nodup ∧
      ∀ i j, (i, j) ∈ [⟨0, 1⟩, ⟨1, 2⟩].flatMap (ofLambda Library.fresh [1]).policyCells ↔
        i < 2 ∧ j < (ofLambda Library.fresh [1]).getInputDimension := by
  have hblocks : Splits 2 [⟨0, 1⟩, ⟨1, 2⟩] := by
    unfold Splits
    decide
  have hdisjoint : [(⟨0, 1⟩ : BlockedRange), ⟨1, 2⟩].Pairwise
      (fun r s => r.end_ ≤ s.begin_ ∨ s.end_ ≤ r.begin_) := by
    decide
  exact ⟨hblocks, hdisjoint, nodup_flatMap_policyCells _ 2 _ hblocks hdisjoint⟩

theorem computeSamplePolicy_rows (h : e.computeSamplePolicy input = .ok rows) :
    rows.length = input.length ∧ ∀ k < input.length,
      (rows.getD k []).length = e.getInputDimension ∧ ∀ l < e.getInputDimension,
        e.policyStep (input.getD k []) l = .ok ((rows.getD k []).getD l 0) := by
  have h2 := mapM_eq_ok_iff.1 h
  refine ⟨h2.length_eq.symm, fun k hk => ?_⟩
  have hk' : k < rows.length := h2.length_eq ▸ hk
  have hrow := forall₂_range_iff.1 (mapM_eq_ok_iff.1 ((List.forall₂_iff_get.1 h2).2 k hk hk'))
  simpa [List.getElem?_eq_getElem hk, List.getElem?_eq_getElem hk'] using hrow

theorem parallelFor_of_computeSamplePolicy
    (hmem : ∀ i j, (i, j) ∈ writes ↔ i < input.length ∧ j < e.getInputDimension)
    (h : e.computeSamplePolicy input = .ok rows) : e.parallelFor input writes = .ok rows := by
  obtain ⟨hlen, hrows⟩ := computeSamplePolicy_rows h
  set w : ℕ → ℕ → ℝ := fun i j => (rows.getD i []).getD j 0
  have hwrite : ∀ o, ∀ c ∈ writes, e.policyWrite input o c = .ok (writeEntry o c.1 c.2 (w c.1 c.2)) := by
    rintro o ⟨i, j⟩ hc
    obtain ⟨hi, hj⟩ := (hmem i j).1 hc
    rw [policyWrite, (hrows i hi).2 j hj]
    rfl
  rw [parallelFor, foldlM_eq_ok_foldl hwrite]
  refine congrArg Except.ok (eq_of_entry_eq ?_ fun k l => ?_)
  · rw [length_foldl_writeEntry, zeroRows, List.length_replicate, hlen]
  · rw [entry_foldl_writeEntry, entry_zeroRows, entry_of_shape hlen fun k hk => (hrows k hk).1]
    by_cases hkl : k < input.length ∧ l < e.getInputDimension
    · rw [if_pos ((hmem k l).2 hkl), if_pos hkl, if_pos hkl]
      rfl
    · rw [if_neg (mt (hmem k l).1 hkl), if_neg hkl, if_neg hkl]

theorem parallelFor_eq_error_of_computeSamplePolicy
    (hmem : ∀ i j, (i, j) ∈ writes ↔ i < input.length ∧ j < e.getInputDimension) {err : Exception}
    (h : e.computeSamplePolicy input = .error err) : ∃ err', e.parallelFor input writes = .error err' := by
  obtain ⟨row, hrow, hrowerr⟩ := exists_mem_of_mapM_eq_error h
  obtain ⟨l, hl, hstep⟩ := exists_mem_of_mapM_eq_error hrowerr
  obtain ⟨k, hk, rfl⟩ := List.getElem_of_mem hrow
  refine exists_foldlM_eq_error ((hmem k l).2 ⟨hk, List.mem_range.1 hl⟩) (fun o => ?_) _
  exact ⟨err, by rw [policyWrite, List.getD_eq_getElem _ _ hk, hstep]; rfl⟩

/-- **Every run of `ParallelFor` computes what `computeSamplePolicy` computes**: for every cut
of the rows into blocks and every interleaving of the stores the policy makes on them, the
result is the rows `computeSamplePolicy` returns, and it raises exactly where
`computeSamplePolicy` raises. -/
theorem parallelFor_eq_ok_iff (e : InverseBoxCoxEvaluation) (input : List Point)
    (blocks : List BlockedRange) (hblocks : Splits input.length blocks)
    (writes : List (ℕ × ℕ)) (hwrites : writes.Perm (blocks.flatMap e.policyCells))
    (rows : List Point) :
    e.parallelFor input writes = .ok rows ↔ e.computeSamplePolicy input = .ok rows := by
  have hmem : ∀ i j, (i, j) ∈ writes ↔ i < input.length ∧ j < e.getInputDimension :=
    fun _ _ => mem_of_splits hblocks hwrites
  refine ⟨fun hpar => ?_, parallelFor_of_computeSamplePolicy hmem⟩
  cases h : e.computeSamplePolicy input with
  | ok rows' => rw [← hpar, parallelFor_of_computeSamplePolicy hmem h]
  | error err =>
    obtain ⟨err', h'⟩ := parallelFor_eq_error_of_computeSamplePolicy hmem h
    rw [h'] at hpar
    cases hpar

theorem parallelFor_eq_ok_iff_two_blocks :
    Splits [[(0 : ℝ)], [-2]].length [⟨0, 1⟩, ⟨1, 2⟩] ∧
    [(1, 0), (0, 0)].Perm ([⟨0, 1⟩, ⟨1, 2⟩].flatMap (ofLambda Library.fresh [1]).policyCells) ∧
    ((ofLambda Library.fresh [1]).parallelFor [[0], [-2]] [(1, 0), (0, 0)] =
        .ok [[policyCoordinate 1 (0 - 0)], [policyCoordinate 1 (-2 - 0)]] ↔
      (ofLambda Library.fresh [1]).computeSamplePolicy [[0], [-2]] =
        .ok [[policyCoordinate 1 (0 - 0)], [policyCoordinate 1 (-2 - 0)]]) := by
  have hblocks : Splits [[(0 : ℝ)], [-2]].length [⟨0, 1⟩, ⟨1, 2⟩] := by
    unfold Splits
    decide
  have hwrites : [(1, 0), (0, 0)].Perm
      ([⟨0, 1⟩, ⟨1, 2⟩].flatMap (ofLambda Library.fresh [1]).policyCells) := by
    decide
  exact ⟨hblocks, hwrites, parallelFor_eq_ok_iff _ _ _ hblocks _ hwrites _⟩

end Blocks

end InverseBoxCoxEvaluation

end OpenTurns
