import WsnAggregation.Distribution
import WsnAggregation.Freshness

/-!
# The window that the statistics are over

`update_distribution` fed with samples from the initial state. The ring holds the last
`WINDOW_SIZE` samples, but the sums leave out the slot that the next sample will overwrite: once
`WINDOW_SIZE` samples have come, that is the oldest sample of the window, and the sums of the
other `WINDOW_SIZE - 1` are divided by `WINDOW_SIZE`.

* `Held` — what the variables hold after a list of samples; `held_statisticsOf` proves it.
* `sliding_window` — the statistics are those of the window exactly when it is not yet full or
  its oldest sample is zero.
* `variance_never_negative` — the variance is not negative in any phase.
-/

namespace WsnAggregation

open Lib

/-! ## Samples fed in -/

/-- The variables after `update_distribution` was called with the samples in turn. -/
def statisticsOf (xs : List ℤ) : Distribution := xs.foldl (fun d x => updateDistribution x d) {}

/-- The last `min n WINDOW_SIZE` samples. -/
def window (xs : List ℤ) : List ℤ := xs.drop (xs.length - windowSize)

/-- The last `min n (WINDOW_SIZE - 1)` samples: those the sums are over. -/
def summedSamples (xs : List ℤ) : List ℤ := xs.drop (xs.length - (windowSize - 1))

@[simp] theorem statisticsOf_concat (xs : List ℤ) (x : ℤ) :
    statisticsOf (xs ++ [x]) = updateDistribution x (statisticsOf xs) := by
  simp [statisticsOf]

/-- The sum of a function of the samples. -/
def sumOf (g : ℤ → ℚ) (xs : List ℤ) : ℚ := (xs.map g).sum

theorem sumOf_concat (g : ℤ → ℚ) (xs : List ℤ) (x : ℤ) : sumOf g (xs ++ [x]) = sumOf g xs + g x := by
  simp [sumOf]

theorem sumOf_cons (g : ℤ → ℚ) (x : ℤ) (xs : List ℤ) : sumOf g (x :: xs) = g x + sumOf g xs := by
  simp [sumOf]

/-! ## What the variables hold -/

/-- The variables after the samples `xs`. -/
structure Held (d : Distribution) (xs : List ℤ) : Prop where
  sampleNum : d.sampleNum = xs.length % windowSize
  windowFull : d.windowFull = decide (windowSize ≤ xs.length)
  /-- A slot holds the last sample that was written to it. -/
  written : ∀ (k : ℕ) (hk : k < xs.length), xs.length ≤ k + windowSize →
    d.samples (k % windowSize) = xs[k]
  unwritten : ∀ i, xs.length ≤ i → i < windowSize → d.samples i = 0
  sum : d.sum = sumOf (fun x => x) (summedSamples xs)
  sumSquared : d.sumSquared = sumOf (fun x => (x : ℚ) * x) (summedSamples xs)

theorem held_init : Held {} [] where
  sampleNum := rfl
  windowFull := rfl
  written := fun k hk => absurd hk (Nat.not_lt_zero k)
  unwritten := fun _ _ _ => rfl
  sum := rfl
  sumSquared := rfl

section Update

variable {d : Distribution} {xs : List ℤ} (h : Held d xs) (x : ℤ)
include h

/-- Before `WINDOW_SIZE - 1` samples have come, the slot left out has not been written. -/
theorem Held.oldest_of_lt (hlen : xs.length < windowSize - 1) :
    Function.update d.samples d.sampleNum x (nextIdx d.sampleNum) = 0 := by
  have hmod : d.sampleNum = xs.length := by
    rw [h.sampleNum]
    exact Nat.mod_eq_of_lt (by omega)
  have hnext : nextIdx d.sampleNum = xs.length + 1 := by
    rw [hmod]
    exact if_neg (by omega)
  rw [hnext, hmod, Function.update_of_ne (by omega)]
  exact h.unwritten _ (by omega) (by omega)

/-- From then on it holds the oldest sample of the window. -/
theorem Held.oldest_of_le {k : ℕ} (hk : k < xs.length) (hlen : xs.length = k + (windowSize - 1)) :
    Function.update d.samples d.sampleNum x (nextIdx d.sampleNum) = xs[k] := by
  have hlt : d.sampleNum < windowSize := by
    rw [h.sampleNum]
    exact Nat.mod_lt _ (by decide)
  have hnext : nextIdx d.sampleNum = k % windowSize := by
    rw [nextIdx_eq hlt, h.sampleNum, hlen]
    simp only [windowSize]
    omega
  have hne : k % windowSize ≠ d.sampleNum := by
    rw [h.sampleNum, hlen]
    simp only [windowSize]
    omega
  rw [hnext, Function.update_of_ne hne]
  exact h.written k hk (by omega)

/-- A sum over the summed samples, when `x` comes. -/
theorem Held.sumOf_summedSamples {g : ℤ → ℚ} (hg : g 0 = 0) :
    sumOf g (summedSamples (xs ++ [x])) = sumOf g (summedSamples xs) +
      (g x - g (Function.update d.samples d.sampleNum x (nextIdx d.sampleNum))) := by
  rcases Nat.lt_or_ge xs.length (windowSize - 1) with hlt | hge
  · rw [h.oldest_of_lt x hlt, hg, sub_zero, summedSamples, summedSamples, List.length_append,
      List.length_singleton, Nat.sub_eq_zero_of_le hlt, Nat.sub_eq_zero_of_le hlt.le, List.drop_zero,
      List.drop_zero, sumOf_concat]
  · obtain ⟨k, hk⟩ := Nat.exists_eq_add_of_le' hge
    have hlt : k < xs.length := by
      rw [hk]
      exact Nat.lt_add_of_pos_right (by decide)
    have hdrop : summedSamples xs = xs[k] :: xs.drop (k + 1) := by
      rw [summedSamples, hk, Nat.add_sub_cancel, List.drop_eq_getElem_cons hlt]
    have hdrop' : summedSamples (xs ++ [x]) = xs.drop (k + 1) ++ [x] := by
      rw [summedSamples, List.length_append, List.length_singleton, hk,
        show k + (windowSize - 1) + 1 - (windowSize - 1) = k + 1 by omega,
        List.drop_append_of_le_length hlt]
    rw [h.oldest_of_le x hlt hk, hdrop, hdrop', sumOf_concat, sumOf_cons]
    ring

theorem Held.update : Held (updateDistribution x d) (xs ++ [x]) where
  sampleNum := by
    simp only [updateDistribution, h.sampleNum, List.length_append, List.length_singleton,
      Nat.mod_add_mod]
  windowFull := by
    simp only [updateDistribution, h.sampleNum, h.windowFull, List.length_append,
      List.length_singleton, windowSize]
    split_ifs with hlast
    · exact (decide_eq_true (by omega)).symm
    · exact decide_eq_decide.2 (by omega)
  written := by
    intro k hk hle
    have hlen : (xs ++ [x]).length = xs.length + 1 := by simp
    rw [hlen] at hle
    simp only [updateDistribution, h.sampleNum]
    rcases Nat.lt_succ_iff_lt_or_eq.1 (hlen ▸ hk) with hlt | rfl
    · have hne : k % windowSize ≠ xs.length % windowSize := by
        simp only [windowSize] at hle ⊢
        omega
      rw [Function.update_of_ne hne, List.getElem_append_left hlt]
      exact h.written k hlt (by omega)
    · rw [Function.update_self, List.getElem_append_right le_rfl]
      simp
  unwritten := by
    intro i hi hlt
    rw [List.length_append, List.length_singleton] at hi
    simp only [updateDistribution, h.sampleNum]
    rw [Nat.mod_eq_of_lt (by omega), Function.update_of_ne (by omega)]
    exact h.unwritten i (by omega) hlt
  sum := by
    rw [h.sumOf_summedSamples x (g := fun x => x) Int.cast_zero, ← h.sum]
    rfl
  sumSquared := by
    rw [h.sumOf_summedSamples x (g := fun x => (x : ℚ) * x) (by simp), ← h.sumSquared]
    rfl

theorem Held.divisor : (if d.windowFull then (windowSize : ℚ) else d.sampleNum + 1) =
    (min (xs.length + 1) windowSize : ℕ) := by
  rw [h.windowFull, h.sampleNum]
  by_cases hfull : windowSize ≤ xs.length
  · rw [if_pos (decide_eq_true hfull), Nat.min_eq_right (by omega)]
  · rw [if_neg (by simpa using hfull), Nat.mod_eq_of_lt (by omega), Nat.min_eq_left (by omega)]
    push_cast
    rfl

end Update

/-- **The variables hold this after every list of samples.** -/
theorem held_statisticsOf (xs : List ℤ) : Held (statisticsOf xs) xs := by
  induction xs using List.reverseRecOn with
  | nil => exact held_init
  | append_singleton xs x ih =>
    rw [statisticsOf_concat]
    exact ih.update x

/-! ## The statistics -/

section Statistics

variable {xs : List ℤ}

/-- What the mean and the variance are computed from. -/
theorem statisticsOf_moments (hne : xs ≠ []) :
    (statisticsOf xs).mean =
        sumOf (fun x => x) (summedSamples xs) / (min xs.length windowSize : ℕ) ∧
      (statisticsOf xs).variance =
        sumOf (fun x => (x : ℚ) * x) (summedSamples xs) / (min xs.length windowSize : ℕ) -
          (statisticsOf xs).mean * (statisticsOf xs).mean := by
  obtain ⟨ys, x, rfl⟩ := List.eq_nil_or_concat' xs |>.resolve_left hne
  have hys := held_statisticsOf ys
  have hxs := hys.update x
  rw [statisticsOf_concat, ← hxs.sum, ← hxs.sumSquared, List.length_append, List.length_singleton,
    ← hys.divisor]
  exact ⟨rfl, rfl⟩

theorem length_window (xs : List ℤ) : (window xs).length = min xs.length windowSize := by
  rw [window, List.length_drop]
  omega

theorem window_of_lt (h : xs.length < windowSize) : window xs = summedSamples xs := by
  rw [window, summedSamples, Nat.sub_eq_zero_of_le h.le, Nat.sub_eq_zero_of_le (by omega)]

/-- A full window is its oldest sample and the samples summed. -/
theorem window_of_le (h : windowSize ≤ xs.length) :
    ∃ oldest, window xs = oldest :: summedSamples xs := by
  have hlt : xs.length - windowSize < xs.length :=
    Nat.sub_lt (lt_of_lt_of_le (by decide) h) (by decide)
  refine ⟨xs[xs.length - windowSize], ?_⟩
  rw [window, List.drop_eq_getElem_cons hlt, summedSamples]
  congr 2
  simp only [windowSize] at h ⊢
  omega

/-- The statistics are those of the last `min n WINDOW_SIZE` samples. -/
def Exact (d : Distribution) (xs : List ℤ) : Prop :=
  d.mean = mean ((window xs).map fun x : ℤ => (x : ℚ)) ∧
    d.variance = populationVariance ((window xs).map fun x : ℤ => (x : ℚ))

theorem window_moments (hne : xs ≠ []) :
    mean ((window xs).map fun x : ℤ => (x : ℚ)) =
        sumOf (fun x => x) (window xs) / (min xs.length windowSize : ℕ) ∧
      populationVariance ((window xs).map fun x : ℤ => (x : ℚ)) =
        sumOf (fun x => (x : ℚ) * x) (window xs) / (min xs.length windowSize : ℕ) -
          mean ((window xs).map fun x : ℤ => (x : ℚ)) * mean ((window xs).map fun x : ℤ => (x : ℚ)) := by
  have hlen : ((window xs).map fun x : ℤ => (x : ℚ)).length = min xs.length windowSize := by
    rw [List.length_map, length_window]
  have hcons : ((window xs).map fun x : ℤ => (x : ℚ)) ≠ [] := by
    rw [← List.length_pos_iff, hlen]
    exact lt_min (List.length_pos_iff.2 hne) (by decide)
  refine ⟨by rw [mean, hlen]; rfl, ?_⟩
  rw [populationVariance_eq hcons, hlen, List.map_map]
  rfl

end Statistics

/-- **After every call the mean and the variance are those of the last `min n WINDOW_SIZE`
samples exactly when fewer than `WINDOW_SIZE` have come or the oldest of the window is zero**:
once the window is full, the sums leave its oldest sample out. -/
theorem sliding_window (xs : List ℤ) (hne : xs ≠ []) :
    Exact (statisticsOf xs) xs ↔ xs.length < windowSize ∨ (window xs).head? = some 0 := by
  obtain ⟨hmean, hvariance⟩ := statisticsOf_moments hne
  obtain ⟨hmean', hvariance'⟩ := window_moments hne
  rcases Nat.lt_or_ge xs.length windowSize with hlt | hge
  · rw [window_of_lt hlt] at hmean' hvariance'
    refine iff_of_true ?_ (Or.inl hlt)
    rw [Exact, window_of_lt hlt, hvariance, hvariance', hmean, hmean']
    exact ⟨rfl, rfl⟩
  · obtain ⟨oldest, hwindow⟩ := window_of_le hge
    have hk : ((min xs.length windowSize : ℕ) : ℚ) ≠ 0 := by
      rw [Nat.min_eq_right hge]
      exact Nat.cast_ne_zero.2 (by decide)
    rw [hwindow, sumOf_cons] at hmean' hvariance'
    rw [or_iff_right (not_lt.2 hge), Exact, hwindow, hvariance, hvariance', hmean, hmean',
      List.head?_cons, Option.some_inj]
    constructor
    · rintro ⟨heq, -⟩
      rw [div_left_inj' hk, right_eq_add] at heq
      exact_mod_cast heq
    · rintro rfl
      simp

theorem sliding_window_three : Exact (statisticsOf [77, 66, -1]) [77, 66, -1] :=
  (sliding_window [77, 66, -1] (by decide)).2 (Or.inl (by decide))

/-- A hundred samples of 1 have mean `99/100`. -/
theorem sliding_window_fails : ¬ ∀ xs : List ℤ, xs ≠ [] → Exact (statisticsOf xs) xs := by
  intro h
  have hmean := (h (List.replicate windowSize 1) (by decide)).1
  revert hmean
  decide +kernel

/-! ## The sign of the variance -/

theorem moments_statisticsOf (xs : List ℤ) :
    Ring (statisticsOf xs) ∧ Moments (statisticsOf xs) := by
  induction xs using List.reverseRecOn with
  | nil => exact ⟨ring_init, moments_init⟩
  | append_singleton xs x ih =>
    rw [statisticsOf_concat]
    exact ⟨ih.1.update x, ih.1.moments x⟩

/-- **The variance after any number of samples is not negative**: its conversion to `uint32_t` is
in range from below, and the weight that an aggregator derives from it is positive. -/
theorem variance_never_negative (xs : List ℤ) :
    0 ≤ (statisticsOf xs).variance ∧ 0 ≤ truncZ (statisticsOf xs).variance ∧
      0 < weightOf (statisticsOf xs).variance := by
  have hnonneg := (moments_statisticsOf xs).2.variance_nonneg
  refine ⟨hnonneg, ?_, weightOf_pos hnonneg⟩
  rw [truncZ_of_nonneg hnonneg]
  exact Int.floor_nonneg.2 hnonneg

end WsnAggregation
