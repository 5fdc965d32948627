import Mathlib.Data.Finset.Card

/-!
# The first gap of a finite set

The loop `while i in s: i += 1` over a finite set of numbers ends at the first gap of the set from
`i` on (`firstGap_spec`). Filling that gap moves the search on to the next one
(`firstGap_insert`).
-/

namespace WsnAggregation.Lib

theorem card_filter_succ_lt {s : Finset ℕ} {i : ℕ} (h : i ∈ s) :
    (s.filter (i + 1 ≤ ·)).card < (s.filter (i ≤ ·)).card := by
  refine Finset.card_lt_card (Finset.ssubset_iff_of_subset ?_ |>.2 ⟨i, ?_, ?_⟩)
  · intro j hj
    rw [Finset.mem_filter] at hj ⊢
    exact ⟨hj.1, by omega⟩
  · exact Finset.mem_filter.2 ⟨h, le_rfl⟩
  · intro hi
    exact Nat.not_succ_le_self i (Finset.mem_filter.1 hi).2

/-- `while i in s: i += 1`. -/
def firstGap (s : Finset ℕ) (i : ℕ) : ℕ := if i ∈ s then firstGap s (i + 1) else i
termination_by (s.filter (i ≤ ·)).card
decreasing_by exact card_filter_succ_lt ‹_›

/-- The least number from `i` on that is not in the set. -/
structure IsFirstGap (s : Finset ℕ) (i k : ℕ) : Prop where
  le : i ≤ k
  notMem : k ∉ s
  mem : ∀ j, i ≤ j → j < k → j ∈ s

variable {s : Finset ℕ} {i k : ℕ}

theorem firstGap_of_mem (h : i ∈ s) : firstGap s i = firstGap s (i + 1) := by
  rw [firstGap, if_pos h]

theorem firstGap_of_notMem (h : i ∉ s) : firstGap s i = i := by
  rw [firstGap, if_neg h]

/-- **The search ends at the first gap.** -/
theorem firstGap_spec (s : Finset ℕ) (i : ℕ) : IsFirstGap s i (firstGap s i) := by
  induction i using firstGap.induct s with
  | case1 i hi ih =>
    rw [firstGap_of_mem hi]
    refine ⟨(Nat.le_succ i).trans ih.le, ih.notMem, fun j hij hj => ?_⟩
    rcases Nat.eq_or_lt_of_le hij with rfl | hlt
    · exact hi
    · exact ih.mem j hlt hj
  | case2 i hi =>
    rw [firstGap_of_notMem hi]
    exact ⟨le_rfl, hi, fun j hij hj => absurd hj (Nat.not_lt.2 hij)⟩

theorem IsFirstGap.unique {k' : ℕ} (h : IsFirstGap s i k) (h' : IsFirstGap s i k') : k = k' := by
  rcases Nat.lt_trichotomy k k' with hlt | heq | hgt
  · exact absurd (h'.mem k h.le hlt) h.notMem
  · exact heq
  · exact absurd (h.mem k' h'.le hgt) h'.notMem

theorem firstGap_eq_iff : firstGap s i = k ↔ IsFirstGap s i k := by
  constructor
  · rintro rfl
    exact firstGap_spec s i
  · exact (firstGap_spec s i).unique

/-- With the gap filled the search goes on behind it. -/
theorem firstGap_insert (h : IsFirstGap s i k) : firstGap (insert k s) i = firstGap s (k + 1) := by
  have hnext := firstGap_spec s (k + 1)
  refine firstGap_eq_iff.2 ⟨h.le.trans ((Nat.le_succ k).trans hnext.le), ?_, fun j hij hj => ?_⟩
  · rw [Finset.mem_insert]
    rintro (heq | hmem)
    · have hle := hnext.le
      rw [heq] at hle
      exact Nat.not_succ_le_self k hle
    · exact hnext.notMem hmem
  · rcases Nat.lt_trichotomy j k with hlt | rfl | hgt
    · exact Finset.mem_insert_of_mem (h.mem j hij hlt)
    · exact Finset.mem_insert_self j s
    · exact Finset.mem_insert_of_mem (hnext.mem j hgt hj)

end WsnAggregation.Lib
