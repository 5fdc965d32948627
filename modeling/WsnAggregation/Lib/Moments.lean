import Mathlib.Algebra.Order.BigOperators.Ring.Finset
import Mathlib.Algebra.Order.Chebyshev
import Mathlib.Tactic.FieldSimp
import Mathlib.Tactic.Linarith
import Mathlib.Tactic.Positivity

/-!
# Mean and variance over a window

The first two moments of a finite family, divided by a number `k` that is at least its size: a
window of `k` places of which some may be empty.

For a list, `mean` and `populationVariance` are the textbook moments, and
`populationVariance_eq` is the formula that needs the two power sums only.
-/

namespace WsnAggregation.Lib

variable {ι K : Type*} [Field K] [LinearOrder K] [IsStrictOrderedRing K]

/-- The sum of the values over `k`. -/
def windowMean (k : ℕ) (s : Finset ι) (x : ι → K) : K := (∑ i ∈ s, x i) / k

/-- The sum of the squares over `k`, less the square of the mean. -/
def windowVariance (k : ℕ) (s : Finset ι) (x : ι → K) : K :=
  (∑ i ∈ s, x i * x i) / k - windowMean k s x * windowMean k s x

variable {k : ℕ} {s : Finset ι} {x : ι → K}

/-- The variance is not negative (Cauchy–Schwarz). -/
theorem windowVariance_nonneg (hk : s.card ≤ k) : 0 ≤ windowVariance k s x := by
  rcases Nat.eq_zero_or_pos k with rfl | hpos
  · simp [windowVariance, windowMean]
  have hk0 : (0 : K) < k := Nat.cast_pos.2 hpos
  have hcard : (s.card : K) ≤ k := Nat.cast_le.2 hk
  have hsq : 0 ≤ ∑ i ∈ s, x i * x i := Finset.sum_nonneg fun i _ => mul_self_nonneg (x i)
  have hcs : (∑ i ∈ s, x i) * (∑ i ∈ s, x i) ≤ k * ∑ i ∈ s, x i * x i := by
    have h := sq_sum_le_card_mul_sum_sq (s := s) (f := x)
    simp only [pow_two] at h
    exact h.trans (mul_le_mul_of_nonneg_right hcard hsq)
  rw [windowVariance, windowMean, div_mul_div_comm, sub_nonneg, div_le_div_iff₀ (by positivity) hk0]
  calc (∑ i ∈ s, x i) * (∑ i ∈ s, x i) * k ≤ (k * ∑ i ∈ s, x i * x i) * k :=
        mul_le_mul_of_nonneg_right hcs hk0.le
    _ = (∑ i ∈ s, x i * x i) * (k * k) := by ring

theorem windowMean_nonneg (hx : ∀ i ∈ s, 0 ≤ x i) : 0 ≤ windowMean k s x :=
  div_nonneg (Finset.sum_nonneg hx) (Nat.cast_nonneg k)

theorem abs_windowMean_le {M : K} (hM : 0 ≤ M) (hk : s.card ≤ k) (hx : ∀ i ∈ s, |x i| ≤ M) :
    |windowMean k s x| ≤ M := by
  rcases Nat.eq_zero_or_pos k with rfl | hpos
  · simpa [windowMean] using hM
  have hk0 : (0 : K) < k := Nat.cast_pos.2 hpos
  rw [windowMean, abs_div, Nat.abs_cast, div_le_iff₀ hk0]
  calc |∑ i ∈ s, x i| ≤ ∑ i ∈ s, |x i| := Finset.abs_sum_le_sum_abs _ _
    _ ≤ s.card • M := Finset.sum_le_card_nsmul _ _ _ hx
    _ = s.card * M := nsmul_eq_mul _ _
    _ ≤ M * k := by
      rw [mul_comm]
      exact mul_le_mul_of_nonneg_left (Nat.cast_le.2 hk) hM

theorem windowVariance_le {M : K} (hM : 0 ≤ M) (hk : s.card ≤ k) (hx : ∀ i ∈ s, |x i| ≤ M) :
    windowVariance k s x ≤ M * M := by
  have hsq : windowMean k s (fun i => x i * x i) ≤ M * M := by
    refine (le_abs_self _).trans (abs_windowMean_le (mul_nonneg hM hM) hk fun i hi => ?_)
    rw [abs_mul]
    exact mul_le_mul (hx i hi) (hx i hi) (abs_nonneg _) hM
  have hmean := mul_self_nonneg (windowMean k s x)
  rw [windowVariance]
  linarith [show windowMean k s (fun i => x i * x i) = (∑ i ∈ s, x i * x i) / k from rfl]

/-- A negative mean of integers is at most `-1 / k`. -/
theorem windowMean_le_of_neg {z : ι → ℤ} (h : windowMean k s (fun i => (z i : K)) < 0) :
    windowMean k s (fun i => (z i : K)) ≤ -1 / k := by
  rcases Nat.eq_zero_or_pos k with rfl | hpos
  · simp [windowMean] at h
  have hk0 : (0 : K) < k := Nat.cast_pos.2 hpos
  rw [windowMean, div_lt_iff₀ hk0, zero_mul, ← Int.cast_sum] at h
  rw [windowMean, ← Int.cast_sum]
  refine div_le_div_of_nonneg_right ?_ hk0.le
  have hneg : ∑ i ∈ s, z i ≤ -1 := by
    have hlt : ∑ i ∈ s, z i < 0 := by exact_mod_cast h
    omega
  exact_mod_cast hneg

/-! ## Lists -/

section Lists

variable {F : Type*} [Field F]

/-- The arithmetic mean. -/
def mean (l : List F) : F := l.sum / l.length

/-- The mean of the squared deviations from the mean. -/
def populationVariance (l : List F) : F := (l.map fun x => (x - mean l) ^ 2).sum / l.length

theorem sum_sq_sub (l : List F) (m : F) : (l.map fun x => (x - m) ^ 2).sum =
    (l.map fun x => x * x).sum - 2 * m * l.sum + l.length * (m * m) := by
  induction l with
  | nil => simp
  | cons x l ih =>
    rw [List.map_cons, List.sum_cons, ih, List.map_cons, List.sum_cons, List.sum_cons,
      List.length_cons]
    push_cast
    ring

/-- The variance is the mean of the squares less the square of the mean. -/
theorem populationVariance_eq [CharZero F] {l : List F} (hl : l ≠ []) :
    populationVariance l = (l.map fun x => x * x).sum / l.length - mean l * mean l := by
  have hlen : (l.length : F) ≠ 0 := Nat.cast_ne_zero.2 (fun h => hl (List.length_eq_zero_iff.1 h))
  rw [populationVariance, sum_sq_sub, mean]
  field_simp
  ring

/-- The mean of values between zero and a bound is between them too, also if there are none. -/
theorem mean_mem_Icc [LinearOrder F] [IsStrictOrderedRing F] {l : List F} {b : F} (hb : 0 ≤ b)
    (h : ∀ x ∈ l, x ∈ Set.Icc 0 b) : mean l ∈ Set.Icc 0 b := by
  have hsum : l.sum ≤ l.length * b := by
    rw [← nsmul_eq_mul]
    exact List.sum_le_card_nsmul l b fun x hx => (h x hx).2
  refine ⟨div_nonneg (List.sum_nonneg fun x hx => (h x hx).1) (Nat.cast_nonneg _), ?_⟩
  exact div_le_of_le_mul₀ (Nat.cast_nonneg _) hb (by linarith)

end Lists

end WsnAggregation.Lib
