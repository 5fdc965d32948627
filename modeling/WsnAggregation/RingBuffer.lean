import WsnAggregation.Window

/-!
# The ring buffer of a source

The array of `update_distribution` over a whole run: where the samples stand, that no access
leaves the array, and what the running sums are sums of. The call subtracts the slot that the
next call will overwrite, so between calls the sums leave out that slot, during filling as after
any number of wraps.

* `updateDistributionChecked` — the function with its array accesses checked.
* `RingBuffer` — the variables in terms of the samples so far.
* `ring_buffer` — they are so after every list of samples, no access fails, and what the next
  calls compute depends on the last `WINDOW_SIZE` samples only.
-/

namespace WsnAggregation

/-! ## The accesses -/

/-- `samples[i]`. -/
def readSlot (samples : ℕ → ℤ) (i : ℕ) : Option ℤ :=
  if i < windowSize then some (samples i) else none

/-- `samples[i] = v`. -/
def writeSlot (samples : ℕ → ℤ) (i : ℕ) (v : ℤ) : Option (ℕ → ℤ) :=
  if i < windowSize then some (Function.update samples i v) else none

/-- `update_distribution`, with its accesses checked. -/
def updateDistributionChecked (sample : ℤ) (d : Distribution) : Option Distribution := do
  let samples ← writeSlot d.samples d.sampleNum sample
  let oldest ← readSlot samples (nextIdx d.sampleNum)
  let sum := d.sum + (sample - oldest)
  let oldest ← readSlot samples (nextIdx d.sampleNum)
  let oldest' ← readSlot samples (nextIdx d.sampleNum)
  let sumSquared := d.sumSquared + (sample * sample - oldest * oldest')
  let n : ℚ := if d.windowFull then windowSize else d.sampleNum + 1
  let mean := sum / n
  return { sampleNum := (d.sampleNum + 1) % windowSize
           sum := sum
           sumSquared := sumSquared
           mean := mean
           variance := sumSquared / n - mean * mean
           samples := samples
           windowFull := if d.sampleNum = windowSize - 1 then true else d.windowFull }

theorem updateDistributionChecked_eq {d : Distribution} (h : d.sampleNum < windowSize) (sample : ℤ) :
    updateDistributionChecked sample d = some (updateDistribution sample d) := by
  have hread : ∀ samples : ℕ → ℤ,
      readSlot samples (nextIdx d.sampleNum) = some (samples (nextIdx d.sampleNum)) :=
    fun samples => if_pos (nextIdx_lt h)
  rw [updateDistributionChecked, writeSlot, if_pos h]
  simp only [Option.bind_eq_bind, Option.bind_some, hread]
  rfl

/-- No access of a run leaves the array. -/
theorem foldlM_updateDistributionChecked (xs : List ℤ) :
    xs.foldlM (fun d x => updateDistributionChecked x d) {} = some (statisticsOf xs) := by
  induction xs using List.reverseRecOn with
  | nil => rfl
  | append_singleton xs x ih =>
    have hlt : (statisticsOf xs).sampleNum < windowSize := (moments_statisticsOf xs).1.lt
    rw [List.foldlM_append, ih, statisticsOf_concat, ← updateDistributionChecked_eq hlt]
    simp

/-! ## The array -/

/-- The variables after the samples `xs`. -/
structure RingBuffer (d : Distribution) (xs : List ℤ) : Prop where
  sampleNum : d.sampleNum = xs.length % windowSize
  windowFull : d.windowFull = true ↔ windowSize ≤ xs.length
  /-- The last samples stand in the slots that their numbers give. -/
  written : ∀ (k : ℕ) (hk : k < xs.length), xs.length ≤ k + windowSize →
    d.samples (k % windowSize) = xs[k]
  unwritten : ∀ i, xs.length ≤ i → i < windowSize → d.samples i = 0
  sum : d.sum = ∑ i ∈ (Finset.range windowSize).erase d.sampleNum, (d.samples i : ℚ)
  sumSquared : d.sumSquared =
    ∑ i ∈ (Finset.range windowSize).erase d.sampleNum, (d.samples i : ℚ) * d.samples i

theorem ringBuffer_statisticsOf (xs : List ℤ) : RingBuffer (statisticsOf xs) xs := by
  have hheld := held_statisticsOf xs
  have hring := (moments_statisticsOf xs).1
  refine
    { sampleNum := hheld.sampleNum
      windowFull := ?_
      written := hheld.written
      unwritten := hheld.unwritten
      sum := hring.sum
      sumSquared := hring.sumSquared }
  rw [hheld.windowFull, decide_eq_true_iff]

/-! ## What the next calls compute -/

/-- The mean and the variance after each of the next samples. -/
def outputs (d : Distribution) : List ℤ → List (ℚ × ℚ)
  | [] => []
  | z :: zs =>
    ((updateDistribution z d).mean, (updateDistribution z d).variance) ::
      outputs (updateDistribution z d) zs

theorem summedSamples_eq (xs : List ℤ) :
    summedSamples xs = (window xs).drop ((window xs).length - (windowSize - 1)) := by
  rw [length_window, window, List.drop_drop, summedSamples]
  congr 1
  simp only [windowSize]
  omega

theorem window_concat (xs : List ℤ) (z : ℤ) :
    window (xs ++ [z]) = (window xs ++ [z]).drop ((window xs).length + 1 - windowSize) := by
  have hwindow : window xs ++ [z] = (xs ++ [z]).drop (xs.length - windowSize) := by
    rw [window, List.drop_append_of_le_length (Nat.sub_le _ _)]
  rw [hwindow, List.drop_drop, length_window, window, List.length_append, List.length_singleton]
  congr 1
  omega

section Retained

variable {xs ys : List ℤ} (h : window xs = window ys)
include h

theorem window_concat_congr (z : ℤ) : window (xs ++ [z]) = window (ys ++ [z]) := by
  rw [window_concat, window_concat, h]

theorem moments_congr (hx : xs ≠ []) (hy : ys ≠ []) :
    (statisticsOf xs).mean = (statisticsOf ys).mean ∧
      (statisticsOf xs).variance = (statisticsOf ys).variance := by
  obtain ⟨hmean, hvariance⟩ := statisticsOf_moments hx
  obtain ⟨hmean', hvariance'⟩ := statisticsOf_moments hy
  have hsummed : summedSamples xs = summedSamples ys := by
    rw [summedSamples_eq, h, ← summedSamples_eq]
  have hlen : min xs.length windowSize = min ys.length windowSize := by
    rw [← length_window, h, length_window]
  rw [hsummed, hlen] at hmean hvariance
  have heq : (statisticsOf xs).mean = (statisticsOf ys).mean := hmean.trans hmean'.symm
  rw [hvariance, hvariance', heq]
  exact ⟨rfl, rfl⟩

/-- Two runs that retain the same samples go on alike. -/
theorem outputs_congr (zs : List ℤ) :
    outputs (statisticsOf xs) zs = outputs (statisticsOf ys) zs := by
  induction zs generalizing xs ys with
  | nil => rfl
  | cons z zs ih =>
    have hconcat := window_concat_congr h z
    have hne : ∀ l : List ℤ, l ++ [z] ≠ [] := fun l =>
      List.append_ne_nil_of_right_ne_nil l (List.cons_ne_nil z [])
    obtain ⟨hmean, hvariance⟩ := moments_congr hconcat (hne xs) (hne ys)
    have hrest := ih hconcat
    rw [statisticsOf_concat, statisticsOf_concat] at hmean hvariance hrest
    rw [outputs, outputs, hmean, hvariance, hrest]

end Retained

/-- **The ring buffer after any number of samples.** No access leaves the array; the variables are
as `RingBuffer` says, the sums over all slots but the next one; and whatever was retained alone
decides what the next calls compute. -/
theorem ring_buffer (xs : List ℤ) :
    xs.foldlM (fun d x => updateDistributionChecked x d) {} = some (statisticsOf xs) ∧
      RingBuffer (statisticsOf xs) xs ∧
      ∀ ys, window ys = window xs →
        ∀ zs, outputs (statisticsOf ys) zs = outputs (statisticsOf xs) zs :=
  ⟨foldlM_updateDistributionChecked xs, ringBuffer_statisticsOf xs,
    fun _ h zs => outputs_congr h zs⟩

end WsnAggregation
