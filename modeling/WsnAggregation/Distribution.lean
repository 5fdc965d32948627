import WsnAggregation.Lib.Moments

/-!
# The sliding statistics of a source

`update_distribution` of `source.c`: a ring of the last samples and running sums over it. The
sums leave out one slot, the one that the next sample will overwrite.

* `Ring` — what the sums are sums of; `Ring.update` keeps it.
* `Moments` — the mean and the variance sent with a sample are those of at most `k` samples,
  divided by `k`; so the variance is not negative, and both are bounded by the samples.
-/

namespace WsnAggregation

open Lib

/-- `WINDOW_SIZE`. -/
def windowSize : ℕ := 100

/-- The static variables that `update_distribution` works on. -/
structure Distribution where
  sampleNum : ℕ := 0
  sum : ℚ := 0
  sumSquared : ℚ := 0
  mean : ℚ := 0
  variance : ℚ := 0
  samples : ℕ → ℤ := fun _ => 0
  windowFull : Bool := false

/-- The slot after slot `i`. -/
def nextIdx (i : ℕ) : ℕ := if i + 1 = windowSize then 0 else i + 1

/-- `update_distribution`. -/
def updateDistribution (sample : ℤ) (d : Distribution) : Distribution :=
  let samples := Function.update d.samples d.sampleNum sample
  let oldest := samples (nextIdx d.sampleNum)
  let sum := d.sum + (sample - oldest)
  let sumSquared := d.sumSquared + (sample * sample - oldest * oldest)
  let n : ℚ := if d.windowFull then windowSize else d.sampleNum + 1
  let mean := sum / n
  { sampleNum := (d.sampleNum + 1) % windowSize
    sum := sum
    sumSquared := sumSquared
    mean := mean
    variance := sumSquared / n - mean * mean
    samples := samples
    windowFull := if d.sampleNum = windowSize - 1 then true else d.windowFull }

/-! ## The ring -/

/-- The slots the sums are over, when slot `i` is the one to be overwritten next. -/
def summed (i : ℕ) : Finset ℕ := (Finset.range windowSize).erase i

/-- The running sums are over all slots but the next one; slots not yet written are zero. -/
structure Ring (d : Distribution) : Prop where
  lt : d.sampleNum < windowSize
  unwritten : d.windowFull = false → ∀ i, d.sampleNum ≤ i → d.samples i = 0
  sum : d.sum = ∑ i ∈ summed d.sampleNum, (d.samples i : ℚ)
  sumSquared : d.sumSquared = ∑ i ∈ summed d.sampleNum, (d.samples i : ℚ) * d.samples i

theorem nextIdx_eq {i : ℕ} (h : i < windowSize) : nextIdx i = (i + 1) % windowSize := by
  unfold nextIdx
  split_ifs with hi
  · rw [hi, Nat.mod_self]
  · exact (Nat.mod_eq_of_lt (by omega)).symm

theorem nextIdx_lt {i : ℕ} (h : i < windowSize) : nextIdx i < windowSize := by
  rw [nextIdx_eq h]
  exact Nat.mod_lt _ (by decide)

/-- Writing slot `i` and moving on to slot `j` changes a sum over the ring by the two slots. -/
theorem sum_summed_update {i j : ℕ} (hi : i < windowSize) (hj : j < windowSize) (f : ℕ → ℚ)
    (v : ℚ) : ∑ k ∈ summed j, Function.update f i v k =
      ∑ k ∈ summed i, f k + (v - Function.update f i v j) := by
  have hall : ∑ k ∈ Finset.range windowSize, Function.update f i v k =
      v + ∑ k ∈ summed i, f k := by
    rw [← Finset.add_sum_erase _ _ (Finset.mem_range.2 hi), Function.update_self]
    congr 1
    refine Finset.sum_congr rfl fun k hk => ?_
    exact Function.update_of_ne (Finset.ne_of_mem_erase hk) v f
  rw [← Finset.add_sum_erase _ _ (Finset.mem_range.2 hj)] at hall
  change Function.update f i v j + ∑ k ∈ summed j, Function.update f i v k = _ at hall
  linarith

theorem ring_init : Ring {} where
  lt := by decide
  unwritten := fun _ _ _ => rfl
  sum := by simp
  sumSquared := by simp

theorem cast_update (f : ℕ → ℤ) (i : ℕ) (v : ℤ) (g : ℤ → ℚ) :
    (fun k => g (Function.update f i v k)) = Function.update (fun k => g (f k)) i (g v) := by
  funext k
  by_cases hk : k = i
  · subst hk; simp
  · simp [hk]

theorem Ring.update {d : Distribution} (h : Ring d) (sample : ℤ) :
    Ring (updateDistribution sample d) where
  lt := Nat.mod_lt _ (by decide)
  unwritten := by
    intro hfull i hi
    simp only [updateDistribution] at hfull hi ⊢
    split_ifs at hfull with hlast
    have hlt := h.lt
    have hmod : (d.sampleNum + 1) % windowSize = d.sampleNum + 1 := Nat.mod_eq_of_lt (by omega)
    rw [hmod] at hi
    rw [Function.update_of_ne (by omega)]
    exact h.unwritten hfull i (by omega)
  sum := by
    have hsum := sum_summed_update h.lt (nextIdx_lt h.lt) (fun k => (d.samples k : ℚ)) sample
    rw [← cast_update d.samples d.sampleNum sample (fun z => (z : ℚ)), ← h.sum] at hsum
    simp only [updateDistribution, ← nextIdx_eq h.lt]
    exact hsum.symm
  sumSquared := by
    have hsum := sum_summed_update h.lt (nextIdx_lt h.lt)
      (fun k => (d.samples k : ℚ) * d.samples k) (sample * sample)
    rw [← cast_update d.samples d.sampleNum sample (fun z => (z : ℚ) * z), ← h.sumSquared] at hsum
    simp only [updateDistribution, ← nextIdx_eq h.lt]
    exact hsum.symm

/-! ## The mean and the variance -/

/-- The mean and the variance are moments of at most `k ≤ WINDOW_SIZE` of the samples held. -/
def Moments (d : Distribution) : Prop :=
  ∃ (k : ℕ) (s : Finset ℕ), s.card ≤ k ∧ k ≤ windowSize ∧
    d.mean = windowMean k s (fun i => (d.samples i : ℚ)) ∧
    d.variance = windowVariance k s (fun i => (d.samples i : ℚ))

theorem moments_init : Moments {} := ⟨0, ∅, le_rfl, by decide, by simp [windowMean],
  by simp [windowVariance, windowMean]⟩

theorem Ring.moments {d : Distribution} (h : Ring d) (sample : ℤ) :
    Moments (updateDistribution sample d) := by
  have hnew := h.update sample
  have hlt := h.lt
  -- Sums over the ring are sums over the slots written so far.
  have key : ∃ (k : ℕ) (s : Finset ℕ), s.card ≤ k ∧ k ≤ windowSize ∧
      (if d.windowFull then (windowSize : ℚ) else d.sampleNum + 1) = k ∧
      ∀ g : ℤ → ℚ, g 0 = 0 →
        ∑ i ∈ summed (updateDistribution sample d).sampleNum,
          g ((updateDistribution sample d).samples i) =
        ∑ i ∈ s, g ((updateDistribution sample d).samples i) := by
    cases hfull : d.windowFull with
    | true =>
      refine ⟨windowSize, _, ?_, le_rfl, by simp, fun g _ => rfl⟩
      exact (Finset.card_erase_le).trans (Finset.card_range _).le
    | false =>
      refine ⟨d.sampleNum + 1, (summed (updateDistribution sample d).sampleNum).filter
        (· < d.sampleNum + 1), ?_, hlt, by simp, fun g hg => ?_⟩
      · refine (Finset.card_le_card (t := Finset.range (d.sampleNum + 1)) fun i hi => ?_).trans
          (Finset.card_range _).le
        exact Finset.mem_range.2 (Finset.mem_filter.1 hi).2
      · rw [Finset.sum_filter]
        refine Finset.sum_congr rfl fun i _ => ?_
        split_ifs with hi
        · rfl
        · have hzero : (updateDistribution sample d).samples i = 0 := by
            simp only [updateDistribution]
            rw [Function.update_of_ne (by omega)]
            exact h.unwritten hfull i (by omega)
          rw [hzero, hg]
  obtain ⟨k, s, hcard, hk, hn, hsum⟩ := key
  have hmean : (updateDistribution sample d).mean =
      windowMean k s (fun i => ((updateDistribution sample d).samples i : ℚ)) := by
    rw [windowMean, ← hsum (fun z => (z : ℚ)) (by simp), ← hnew.sum, ← hn]
    rfl
  refine ⟨k, s, hcard, hk, hmean, ?_⟩
  rw [windowVariance, ← hsum (fun z => (z : ℚ) * z) (by simp), ← hnew.sumSquared, ← hmean, ← hn]
  rfl

section Bounds

variable {d : Distribution}

/-- **The variance is never negative.** -/
theorem Moments.variance_nonneg (h : Moments d) : 0 ≤ d.variance := by
  obtain ⟨k, s, hcard, -, -, hv⟩ := h
  rw [hv]
  exact windowVariance_nonneg hcard

theorem Moments.variance_le (h : Moments d) {M : ℚ} (hM : 0 ≤ M)
    (hx : ∀ i, |(d.samples i : ℚ)| ≤ M) : d.variance ≤ M * M := by
  obtain ⟨k, s, hcard, -, -, hv⟩ := h
  rw [hv]
  exact windowVariance_le hM hcard fun i _ => hx i

theorem Moments.abs_mean_le (h : Moments d) {M : ℚ} (hM : 0 ≤ M)
    (hx : ∀ i, |(d.samples i : ℚ)| ≤ M) : |d.mean| ≤ M := by
  obtain ⟨k, s, hcard, -, hm, -⟩ := h
  rw [hm]
  exact abs_windowMean_le hM hcard fun i _ => hx i

theorem Moments.mean_nonneg (h : Moments d) (hx : ∀ i, 0 ≤ d.samples i) : 0 ≤ d.mean := by
  obtain ⟨k, s, -, -, hm, -⟩ := h
  rw [hm]
  exact windowMean_nonneg fun i _ => Int.cast_nonneg (hx i)

/-- A negative mean is at most `-1/100`: samples are integers. -/
theorem Moments.mean_le_of_neg (h : Moments d) (hneg : d.mean < 0) : d.mean ≤ -1 / windowSize := by
  obtain ⟨k, s, -, hk, hm, -⟩ := h
  rw [hm] at hneg ⊢
  rcases Nat.eq_zero_or_pos k with rfl | hpos
  · simp [windowMean] at hneg
  refine (windowMean_le_of_neg hneg).trans ?_
  rw [neg_div, neg_div, neg_le_neg_iff]
  exact one_div_le_one_div_of_le (Nat.cast_pos.2 hpos) (Nat.cast_le.2 hk)

end Bounds

end WsnAggregation
