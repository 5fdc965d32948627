import WsnAggregation.Lib.FirstGap

/-!
# The directory of a run

`cooja_data_collector.py` makes the directory `data_k` with the first index `k` that is free;
`main.py` looks for the latest directory by stepping to the first free index and one back. With
the new directory in place its search does not stop behind it if the next one is there already:
then `k` was a gap, and the search runs on through the directories after it.

* `run_directory` — the visualizer selects the directory just made exactly when no directory
  follows the first gap.
-/

namespace WsnAggregation.Live

open Lib

/-- `data_index` after the loop of the collector, where `dirs` are the indices `i` for which
`data_i` exists. -/
def dataIndex (dirs : Finset ℕ) : ℕ := firstGap dirs 1

/-- The directories after `os.makedirs`. -/
def makeDirectory (dirs : Finset ℕ) : Finset ℕ := insert (dataIndex dirs) dirs

/-- `i` after the loop of `main.py` and `i -= 1`; the loop starts at 1. -/
def latestIndex (dirs : Finset ℕ) : ℕ := firstGap dirs 1 - 1

/-- The collector takes a free index, and the visualizer then selects its directory. -/
def SameDirectory (dirs : Finset ℕ) : Prop :=
  dataIndex dirs ∉ dirs ∧ latestIndex (makeDirectory dirs) = dataIndex dirs

theorem isFirstGap_dataIndex (dirs : Finset ℕ) : IsFirstGap dirs 1 (dataIndex dirs) :=
  firstGap_spec dirs 1

/-- The visualizer selects the last of the directories that follow the new one without a gap. -/
theorem latestIndex_makeDirectory (dirs : Finset ℕ) :
    latestIndex (makeDirectory dirs) = firstGap dirs (dataIndex dirs + 1) - 1 := by
  rw [latestIndex, makeDirectory, firstGap_insert (isFirstGap_dataIndex dirs)]

/-- **The visualizer selects the directory that the collector made exactly when no directory
stands right behind the first gap.** -/
theorem run_directory (dirs : Finset ℕ) :
    SameDirectory dirs ↔ ∀ k, IsFirstGap dirs 1 k → k + 1 ∉ dirs := by
  have hspec := isFirstGap_dataIndex dirs
  have hnext := firstGap_spec dirs (dataIndex dirs + 1)
  rw [SameDirectory, and_iff_right hspec.notMem, latestIndex_makeDirectory]
  constructor
  · intro h k hk
    rw [hk.unique hspec]
    have heq : firstGap dirs (dataIndex dirs + 1) = dataIndex dirs + 1 := by
      have hle := hnext.le
      omega
    exact heq ▸ hnext.notMem
  · intro h
    rw [firstGap_of_notMem (h _ hspec), Nat.add_sub_cancel]

/-- Of `data_1` and `data_3`, the collector makes `data_2` and the visualizer selects `data_3`. -/
theorem run_directory_fails : ¬ ∀ dirs : Finset ℕ, (∀ i ∈ dirs, 0 < i) → SameDirectory dirs := by
  intro h
  have hlatest := (h {1, 3} (by decide)).2
  simp [latestIndex, makeDirectory, dataIndex, firstGap] at hlatest

end WsnAggregation.Live
