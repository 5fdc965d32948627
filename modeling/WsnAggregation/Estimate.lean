import Mathlib.Data.Finset.Max
import WsnAggregation.Freshness

/-!
# The aggregate as an estimate

`aggregate_data` for any number of slots and any variances that are not negative.

* `aggregate_least_squares` — the result is the one point of least weighted squares, and lies
  between the smallest and the largest sample.
* `closer_when_certain` — lowering the variance of a slot brings the result no further from its
  sample, with one exception: the weight of a zero variance is 1, so lowering a variance below 1
  to zero lowers the weight.
-/

namespace WsnAggregation

open Lib

section Checked

variable {n : ℕ} (variances samples : Fin n → ℚ)

/-! ## The divisions -/

/-- The accumulators of the loop of `aggregate_data`, `weighted_sum` and `sum_weights`. -/
def aggregateSums : ℚ × ℚ :=
  (List.finRange n).foldl
    (fun (acc : ℚ × ℚ) i =>
      let weight := weightOf (variances i)
      (acc.1 + weight * samples i, acc.2 + weight))
    (0, 0)

theorem aggregateData_def : aggregateData variances samples =
    if (aggregateSums variances samples).2 ≠ 0 then
      (aggregateSums variances samples).1 / (aggregateSums variances samples).2
    else 0 := rfl

/-- A division that fails on zero. -/
def checkedDiv (a b : ℚ) : Option ℚ := if b = 0 then none else some (a / b)

/-- The weight, with the division checked. -/
def weightOfChecked (variance : ℚ) : Option ℚ :=
  if variance = 0 then some 1 else checkedDiv 1 variance

/-- `aggregate_data`, with its divisions checked. -/
def aggregateDataChecked : Option ℚ := do
  let sums ← (List.finRange n).foldlM
    (fun (acc : ℚ × ℚ) i => do
      let weight ← weightOfChecked (variances i)
      return (acc.1 + weight * samples i, acc.2 + weight))
    (0, 0)
  if sums.2 ≠ 0 then checkedDiv sums.1 sums.2 else return 0

theorem weightOfChecked_eq (variance : ℚ) : weightOfChecked variance = some (weightOf variance) := by
  unfold weightOfChecked weightOf checkedDiv
  split_ifs <;> rfl

/-- No division is by zero. -/
theorem aggregateDataChecked_eq :
    aggregateDataChecked variances samples = some (aggregateData variances samples) := by
  have hloop : ∀ (l : List (Fin n)) (acc : ℚ × ℚ),
      l.foldlM (fun (acc : ℚ × ℚ) i => do
        let weight ← weightOfChecked (variances i)
        return (acc.1 + weight * samples i, acc.2 + weight)) acc =
      some (l.foldl (fun (acc : ℚ × ℚ) i =>
        let weight := weightOf (variances i)
        (acc.1 + weight * samples i, acc.2 + weight)) acc) := by
    intro l
    induction l with
    | nil => exact fun acc => rfl
    | cons i l ih =>
      intro acc
      rw [List.foldlM_cons, weightOfChecked_eq, List.foldl_cons]
      exact ih _
  rw [aggregateDataChecked, hloop, aggregateData_def]
  change (if (aggregateSums variances samples).2 ≠ 0 then
    checkedDiv (aggregateSums variances samples).1 (aggregateSums variances samples).2
    else some 0) = _
  split_ifs with h
  · exact if_neg h
  · rfl

/-! ## Least squares -/

/-- The weighted squares of the distances of the samples from `x`. -/
def squares (x : ℚ) : ℚ := ∑ i, weightOf (variances i) * (x - samples i) ^ 2

/-- The result is the weighted least-squares estimate of the samples. -/
structure LeastSquares [NeZero n] : Prop where
  no_division_by_zero :
    aggregateDataChecked variances samples = some (aggregateData variances samples)
  /-- The fallback is not taken. -/
  sumWeights_pos : 0 < (aggregateSums variances samples).2
  /-- Every other point has larger squares. -/
  least : ∀ x, x ≠ aggregateData variances samples →
    squares variances samples (aggregateData variances samples) < squares variances samples x
  ge_smallest : Finset.univ.inf' Finset.univ_nonempty samples ≤ aggregateData variances samples
  le_largest : aggregateData variances samples ≤ Finset.univ.sup' Finset.univ_nonempty samples

end Checked

section Estimate

variable {n : ℕ}

theorem squares_eq (variances samples : Fin n → ℚ) (x : ℚ) : squares variances samples x =
    weightedSquares (fun i => weightOf (variances i)) samples Finset.univ.val x := rfl

/-- **With variances that are not negative, `aggregate_data` returns the weighted least-squares
estimate of its samples.** -/
theorem aggregate_least_squares [NeZero n] (variances samples : Fin n → ℚ)
    (hv : ∀ i, 0 ≤ variances i) : LeastSquares variances samples := by
  have hw : ∀ i ∈ (Finset.univ.val : Multiset (Fin n)), 0 < weightOf (variances i) := fun i _ =>
    weightOf_pos (hv i)
  have hne : (Finset.univ.val : Multiset (Fin n)) ≠ 0 := by
    rw [Ne, Finset.val_eq_zero]
    exact Finset.univ_nonempty.ne_empty
  refine {
    no_division_by_zero := aggregateDataChecked_eq variances samples
    sumWeights_pos := ?_
    least := fun x hx => ?_
    ge_smallest := ?_
    le_largest := ?_ }
  · rw [aggregateSums, foldl_aggregate, zero_add, zero_add]
    exact totalWeight_pos hw hne
  · rw [aggregateData_eq] at hx ⊢
    rw [squares_eq, squares_eq]
    exact weightedSquares_lt hw hne hx
  · rw [aggregateData_eq]
    exact le_weightedMean hw hne fun i _ => Finset.inf'_le samples (Finset.mem_univ i)
  · rw [aggregateData_eq]
    exact weightedMean_le hw hne fun i _ => Finset.le_sup' samples (Finset.mem_univ i)

/-- Three slots, one of them with the zero variance of a first sample. -/
theorem aggregate_least_squares_firstSample :
    LeastSquares (![0, 1 / 4, 2] : Fin numNodes → ℚ) ![20, 80, -10] :=
  aggregate_least_squares _ _ (by decide +kernel)

/-! ## Certainty -/

/-- Lowering a variance does not lower the weight, unless it is lowered from below 1 to zero. -/
theorem weightOf_le_iff {v v' : ℚ} (h0 : 0 ≤ v') (hle : v' ≤ v) :
    weightOf v ≤ weightOf v' ↔ ¬ (v' = 0 ∧ 0 < v ∧ v < 1) := by
  unfold weightOf
  rcases h0.eq_or_lt with rfl | hpos
  · rcases hle.eq_or_lt with rfl | hv
    · simp
    · rw [if_neg hv.ne', if_pos rfl, div_le_one hv]
      simp [hv]
  · have hv := hpos.trans_le hle
    rw [if_neg hv.ne', if_neg hpos.ne']
    exact iff_of_true (one_div_le_one_div_of_le hpos hle) fun h => hpos.ne' h.1

/-- **Lowering the variance of a slot brings the result no further from its sample, except where
a variance below 1 is lowered to zero**; there the result moves away unless it is the sample. -/
theorem closer_when_certain (variances samples : Fin n → ℚ) (hv : ∀ i, 0 ≤ variances i)
    (i : Fin n) (v' : ℚ) (h0 : 0 ≤ v') (hle : v' ≤ variances i) :
    |aggregateData (Function.update variances i v') samples - samples i| ≤
        |aggregateData variances samples - samples i| ↔
      ¬ (v' = 0 ∧ 0 < variances i ∧ variances i < 1) ∨
        aggregateData variances samples = samples i := by
  have huniv : (Finset.univ.val : Multiset (Fin n)) = i ::ₘ (Finset.univ.erase i).val := by
    rw [← Finset.insert_val_of_notMem (Finset.notMem_erase i _),
      Finset.insert_erase (Finset.mem_univ i)]
  have hw : ∀ j ∈ i ::ₘ (Finset.univ.erase i).val, 0 < weightOf (variances j) := fun j _ =>
    weightOf_pos (hv j)
  have hsame : ∀ j ∈ (Finset.univ.erase i).val,
      weightOf (Function.update variances i v' j) = weightOf (variances j) := fun j hj => by
    rw [Finset.mem_val] at hj
    rw [Function.update_of_ne (Finset.ne_of_mem_erase hj)]
  have hlowered := Function.update_self i v' variances
  rw [aggregateData_eq, aggregateData_eq, huniv, ← weightOf_le_iff h0 hle]
  have hpos : 0 < weightOf (Function.update variances i v' i) := by
    rw [hlowered]
    exact weightOf_pos h0
  have hiff := abs_sub_weightedMean_le_iff (v := samples)
    (fun j => weightOf (Function.update variances i v' j)) hw hpos hsame
  rw [hlowered] at hiff
  exact hiff

/-- Lowering a variance of 1/2 to 1/4 raises the weight. -/
theorem closer_when_certain_quarter :
    |aggregateData (Function.update (![1 / 2, 1, 1] : Fin numNodes → ℚ) 0 (1 / 4)) ![10, 40, 40] -
        10| ≤ |aggregateData (![1 / 2, 1, 1] : Fin numNodes → ℚ) ![10, 40, 40] - 10| :=
  (closer_when_certain (![1 / 2, 1, 1] : Fin numNodes → ℚ) ![10, 40, 40] (by decide +kernel) 0
    (1 / 4) (by norm_num) (by norm_num)).2 (Or.inl fun h => absurd h.1 (by norm_num))

/-- Lowering a variance of 1/2 to zero lowers the weight from 2 to 1: the result moves from 25 to
30, away from 10. -/
theorem closer_when_certain_fails :
    ¬ ∀ variances samples : Fin numNodes → ℚ, (∀ i, 0 ≤ variances i) →
      ∀ (i : Fin numNodes) (v' : ℚ), 0 ≤ v' → v' ≤ variances i →
        |aggregateData (Function.update variances i v') samples - samples i| ≤
          |aggregateData variances samples - samples i| := by
  intro h
  have hcloser := h ![1 / 2, 1, 1] ![10, 40, 40] (by decide +kernel) 0 0 le_rfl (by norm_num)
  revert hcloser
  decide +kernel

end Estimate

end WsnAggregation
