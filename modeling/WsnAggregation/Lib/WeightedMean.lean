import Mathlib.Algebra.BigOperators.Group.Multiset.Basic
import Mathlib.Algebra.BigOperators.Ring.Multiset
import Mathlib.Algebra.Order.BigOperators.Group.Multiset
import Mathlib.Algebra.Order.Field.Basic
import Mathlib.Tactic.FieldSimp
import Mathlib.Tactic.Linarith
import Mathlib.Tactic.Ring

/-!
# Weighted means

The mean of the values of a multiset, each counted with a weight. With positive weights it lies
between the least and the greatest value, and a multiset keeps its mean when another is joined to
it exactly if the other has the same mean. It is the one point of least weighted squares, and it
comes nearer to a value exactly when the weight of that value grows.
-/

namespace WsnAggregation.Lib

variable {α β K : Type*} [Field K]

/-- The sum of the weights. -/
def totalWeight (w : α → K) (s : Multiset α) : K := (s.map w).sum

/-- The sum of the values, each with its weight. -/
def weightedSum (w v : α → K) (s : Multiset α) : K := (s.map fun a => w a * v a).sum

/-- The weighted mean, with `0` where the weights sum to `0`. -/
def weightedMean (w v : α → K) (s : Multiset α) : K := weightedSum w v s / totalWeight w s

section Sums

variable (w v : α → K)

@[simp] theorem totalWeight_zero : totalWeight w 0 = 0 := rfl

@[simp] theorem totalWeight_add (s t : Multiset α) :
    totalWeight w (s + t) = totalWeight w s + totalWeight w t := by
  simp [totalWeight]

@[simp] theorem weightedSum_add (s t : Multiset α) :
    weightedSum w v (s + t) = weightedSum w v s + weightedSum w v t := by
  simp [weightedSum]

theorem weightedMean_map (f : β → α) (s : Multiset β) :
    weightedMean w v (s.map f) = weightedMean (w ∘ f) (v ∘ f) s := by
  simp [weightedMean, weightedSum, totalWeight]

theorem weightedSum_eq {s : Multiset α} (h : totalWeight w s ≠ 0) :
    weightedSum w v s = weightedMean w v s * totalWeight w s := by
  rw [weightedMean, div_mul_cancel₀ _ h]

/-- Joining a multiset changes the mean unless the two means agree. -/
theorem weightedMean_add_eq_iff {s t : Multiset α} (hs : totalWeight w s ≠ 0)
    (ht : totalWeight w t ≠ 0) (hst : totalWeight w (s + t) ≠ 0) :
    weightedMean w v (s + t) = weightedMean w v s ↔ weightedMean w v t = weightedMean w v s := by
  rw [weightedMean, div_eq_iff hst, weightedSum_add, weightedSum_eq w v hs, weightedSum_eq w v ht,
    totalWeight_add, mul_add, add_right_inj]
  exact mul_left_inj' ht

/-- The weighted squares of the distances from `x`. -/
def weightedSquares (w v : α → K) (s : Multiset α) (x : K) : K :=
  (s.map fun a => w a * (x - v a) ^ 2).sum

theorem weightedSquares_expand (s : Multiset α) (x : K) : weightedSquares w v s x =
    totalWeight w s * x ^ 2 - 2 * x * weightedSum w v s + (s.map fun a => w a * v a ^ 2).sum := by
  induction s using Multiset.induction_on with
  | empty => simp [weightedSquares, totalWeight, weightedSum]
  | cons a s ih =>
    simp only [weightedSquares, totalWeight, weightedSum, Multiset.map_cons,
      Multiset.sum_cons] at ih ⊢
    rw [ih]
    ring

/-- Away from the mean the squares grow by the total weight times the square of the distance. -/
theorem weightedSquares_eq {s : Multiset α} (h : totalWeight w s ≠ 0) (x : K) :
    weightedSquares w v s x =
      totalWeight w s * (x - weightedMean w v s) ^ 2 +
        weightedSquares w v s (weightedMean w v s) := by
  rw [weightedSquares_expand, weightedSquares_expand, weightedSum_eq w v h]
  ring

theorem weightedMean_cons_sub {a : α} {s : Multiset α} (h : totalWeight w (a ::ₘ s) ≠ 0) :
    weightedMean w v (a ::ₘ s) - v a =
      (weightedSum w v s - v a * totalWeight w s) / totalWeight w (a ::ₘ s) := by
  rw [weightedMean, sub_eq_iff_eq_add, div_add' _ _ _ h]
  congr 1
  simp only [weightedSum, totalWeight, Multiset.map_cons, Multiset.sum_cons]
  ring

end Sums

section Order

variable [LinearOrder K] [IsStrictOrderedRing K] {w v : α → K} {s : Multiset α}

theorem totalWeight_pos (hw : ∀ a ∈ s, 0 < w a) (hs : s ≠ 0) : 0 < totalWeight w s := by
  obtain ⟨a, ha⟩ := Multiset.exists_mem_of_ne_zero hs
  obtain ⟨t, rfl⟩ := Multiset.exists_cons_of_mem ha
  rw [totalWeight, Multiset.map_cons, Multiset.sum_cons]
  refine add_pos_of_pos_of_nonneg (hw a (Multiset.mem_cons_self a t)) ?_
  refine Multiset.sum_nonneg fun x hx => ?_
  obtain ⟨b, hb, rfl⟩ := Multiset.mem_map.1 hx
  exact (hw b (Multiset.mem_cons_of_mem hb)).le

theorem le_weightedMean {lo : K} (hw : ∀ a ∈ s, 0 < w a) (hs : s ≠ 0) (hv : ∀ a ∈ s, lo ≤ v a) :
    lo ≤ weightedMean w v s := by
  rw [weightedMean, le_div_iff₀ (totalWeight_pos hw hs), totalWeight, ← Multiset.sum_map_mul_left]
  refine Multiset.sum_map_le_sum_map _ _ fun a ha => ?_
  rw [mul_comm]
  exact mul_le_mul_of_nonneg_left (hv a ha) (hw a ha).le

theorem weightedMean_le {hi : K} (hw : ∀ a ∈ s, 0 < w a) (hs : s ≠ 0) (hv : ∀ a ∈ s, v a ≤ hi) :
    weightedMean w v s ≤ hi := by
  rw [weightedMean, div_le_iff₀ (totalWeight_pos hw hs), totalWeight, ← Multiset.sum_map_mul_left]
  refine Multiset.sum_map_le_sum_map _ _ fun a ha => ?_
  rw [mul_comm hi]
  exact mul_le_mul_of_nonneg_left (hv a ha) (hw a ha).le

/-- **The mean is the only point of least weighted squares.** -/
theorem weightedSquares_lt (hw : ∀ a ∈ s, 0 < w a) (hs : s ≠ 0) {x : K}
    (hx : x ≠ weightedMean w v s) :
    weightedSquares w v s (weightedMean w v s) < weightedSquares w v s x := by
  have htotal := totalWeight_pos hw hs
  rw [weightedSquares_eq w v htotal.ne' x, lt_add_iff_pos_left]
  exact mul_pos htotal (sq_pos_of_ne_zero (sub_ne_zero.2 hx))

/-- **Changing the weight of one value brings the mean no further from it exactly when the weight
does not shrink, or the mean is that value.** -/
theorem abs_sub_weightedMean_le_iff (w' : α → K) {a : α} (hw : ∀ b ∈ a ::ₘ s, 0 < w b)
    (ha : 0 < w' a) (hsame : ∀ b ∈ s, w' b = w b) :
    |weightedMean w' v (a ::ₘ s) - v a| ≤ |weightedMean w v (a ::ₘ s) - v a| ↔
      w a ≤ w' a ∨ weightedMean w v (a ::ₘ s) = v a := by
  have hw' : ∀ b ∈ a ::ₘ s, 0 < w' b := by
    intro b hb
    rcases Multiset.mem_cons.1 hb with rfl | hb
    · exact ha
    · rw [hsame b hb]
      exact hw b (Multiset.mem_cons_of_mem hb)
  have hpos := totalWeight_pos hw (Multiset.cons_ne_zero)
  have hpos' := totalWeight_pos hw' (Multiset.cons_ne_zero)
  have htotal : totalWeight w' s = totalWeight w s := by
    rw [totalWeight, totalWeight, Multiset.map_congr rfl hsame]
  have hsum : weightedSum w' v s = weightedSum w v s := by
    rw [weightedSum, weightedSum, Multiset.map_congr rfl fun b hb => by rw [hsame b hb]]
  have hle : totalWeight w (a ::ₘ s) ≤ totalWeight w' (a ::ₘ s) ↔ w a ≤ w' a := by
    have hcons : ∀ u : α → K, totalWeight u (a ::ₘ s) = u a + totalWeight u s := fun u => by
      rw [totalWeight, Multiset.map_cons, Multiset.sum_cons, totalWeight]
    rw [hcons w, hcons w', htotal, add_le_add_iff_right]
  rw [← hle, ← sub_eq_zero, weightedMean_cons_sub w v hpos.ne', weightedMean_cons_sub w' v hpos'.ne',
    hsum, htotal, abs_div, abs_div, abs_of_pos hpos, abs_of_pos hpos']
  -- What the others pull is the same with both weights.
  by_cases hzero : weightedSum w v s - v a * totalWeight w s = 0
  · simp [hzero]
  · have hpull := abs_pos.2 hzero
    rw [div_le_div_iff_of_pos_left hpull hpos' hpos, div_eq_zero_iff, or_iff_left]
    exact not_or.2 ⟨hzero, hpos.ne'⟩

end Order

end WsnAggregation.Lib
