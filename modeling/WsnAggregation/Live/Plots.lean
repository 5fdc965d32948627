import Mathlib.Data.List.DropRight
import WsnAggregation.Lib.Moments
import WsnAggregation.Live.Isolation

/-!
# The windows of the live plots

What `update_box_plot` and `update_combined_lineplot` of `visualization.py` draw of the two
dictionaries; titles, labels and colours are not modelled. Both show the end of a list. For a
node, the box plot takes the start of the window from the length of the node's own list, the line
plot from the longest list of all nodes.

* `nodeCurve_aligned`, `aggregatedCurves_aligned` — the plots complete, and a line has as many
  times as values.
* `same_window` — the line of a node shows what its box shows exactly when no node has more
  samples than it, or than the window.
-/

namespace WsnAggregation.Live

open Lib

/-! ## What is drawn -/

/-- `window_size` of both plots. -/
def windowSize : ℕ := 50

/-- `start_idx`. -/
def startIdx (len : ℕ) : ℕ := (max 0 ((len : ℤ) - windowSize)).toNat

/-- The box of a node and the statistics in the legend. -/
structure Box where
  vals : List ℤ
  meanValue : ℚ
  varValue : ℚ

/-- A line over time. -/
structure Curve where
  times : List ℚ
  values : List ℤ

/-- A line that can be plotted. -/
def Curve.Aligned (c : Curve) : Prop := c.times.length = c.values.length

/-- The lines of an aggregator, and the total in the label of the second. -/
structure AggregatedCurves where
  aggregated : Curve
  missed : Option Curve
  totalMissed : ℤ

/-- The body of the loop of `update_box_plot`. -/
def nodeBox (values : List (ℤ × ℚ)) : Except PyException Box := do
  let (vals, _) ← unpackSource values
  let window := vals.drop (startIdx vals.length)
  return ⟨window, mean (window.map (Int.cast : ℤ → ℚ)),
    populationVariance (window.map (Int.cast : ℤ → ℚ))⟩

/-- The box that `update_box_plot` draws for a node. -/
def updateBoxPlot (data : ListDict ℤ (ℤ × ℚ)) (nodeId : ℤ) : Option (Except PyException Box) :=
  (data.lookup nodeId).map nodeBox

/-- `np.cumsum`. -/
def cumsum (l : List ℤ) : List ℤ := (l.scanl (· + ·) 0).tail

/-- The body of the first loop of `update_combined_lineplot`. -/
def aggregatedCurves (value : List (ℤ × ℤ × ℚ)) : Except PyException AggregatedCurves := do
  let (aggValues, missedData, aggTime) ← unpackAggregator value
  let start := startIdx aggValues.length
  let startMissed := startIdx missedData.length
  return {
    aggregated := ⟨aggTime.drop start, aggValues.drop start⟩
    missed := if missedData = [] then none
      else some ⟨aggTime.drop startMissed, cumsum (missedData.drop startMissed)⟩
    totalMissed := missedData.sum }

/-- `max_len`. -/
def maxLen (data : ListDict ℤ (ℤ × ℚ)) : ℕ := data.keys.sup fun k => (data.entriesAt k).length

/-- The body of the second loop of `update_combined_lineplot`. -/
def nodeCurve (maxLen : ℕ) (values : List (ℤ × ℚ)) : Except PyException Curve := do
  let (vals, timeStamps) ← unpackSource values
  return ⟨timeStamps.drop (startIdx maxLen), vals.drop (startIdx maxLen)⟩

/-- The line that `update_combined_lineplot` draws for a node. -/
def updateCombinedLineplot (data : ListDict ℤ (ℤ × ℚ)) (nodeId : ℤ) :
    Option (Except PyException Curve) :=
  (data.lookup nodeId).map (nodeCurve (maxLen data))

theorem startIdx_eq (len : ℕ) : startIdx len = len - windowSize := by
  unfold startIdx
  omega

section Lists

variable {values : List (ℤ × ℚ)}

theorem nodeBox_eq (h : values ≠ []) : ∃ b, nodeBox values = .ok b ∧
    b.vals = (values.map Prod.fst).drop (values.length - windowSize) := by
  rw [nodeBox, unpackSource, if_neg h]
  refine ⟨_, rfl, ?_⟩
  simp only [List.length_map, startIdx_eq]

theorem nodeCurve_eq (h : values ≠ []) (maxLen : ℕ) : nodeCurve maxLen values =
    .ok ⟨(values.map Prod.snd).drop (maxLen - windowSize),
      (values.map Prod.fst).drop (maxLen - windowSize)⟩ := by
  rw [nodeCurve, unpackSource, if_neg h, startIdx_eq]
  rfl

/-- The lines of nodes can be plotted. -/
theorem nodeCurve_aligned (h : values ≠ []) (maxLen : ℕ) :
    ∃ c, nodeCurve maxLen values = .ok c ∧ c.Aligned :=
  ⟨_, nodeCurve_eq h maxLen, by simp [Curve.Aligned]⟩

/-- The lines of aggregators can be plotted. -/
theorem aggregatedCurves_aligned {value : List (ℤ × ℤ × ℚ)} (h : value ≠ []) :
    ∃ c, aggregatedCurves value = .ok c ∧ c.aggregated.Aligned ∧
      ∃ missed, c.missed = some missed ∧ missed.Aligned := by
  have hmissed : value.map (fun v => v.2.1) ≠ [] := by simpa using h
  rw [aggregatedCurves, unpackAggregator, if_neg h]
  refine ⟨_, rfl, by simp [Curve.Aligned], _, if_neg hmissed, ?_⟩
  simp [Curve.Aligned, cumsum]

end Lists

/-! ## The two windows of a node -/

/-- The last `min(len, window_size)` samples, in order. -/
def lastSamples (values : List (ℤ × ℚ)) : List ℤ :=
  (values.map Prod.fst).rtake (min values.length windowSize)

/-- The line and the box of the node both show its last samples. -/
structure SameWindow (data : ListDict ℤ (ℤ × ℚ)) (nodeId : ℤ) (values : List (ℤ × ℚ)) : Prop where
  line : ∃ c, updateCombinedLineplot data nodeId = some (.ok c) ∧ c.values = lastSamples values
  box : ∃ b, updateBoxPlot data nodeId = some (.ok b) ∧ b.vals = lastSamples values

theorem lastSamples_eq (values : List (ℤ × ℚ)) :
    lastSamples values = (values.map Prod.fst).drop (values.length - windowSize) := by
  rw [lastSamples, List.rtake, List.length_map]
  congr 1
  omega

variable {data : ListDict ℤ (ℤ × ℚ)} {nodeId : ℤ} {values : List (ℤ × ℚ)}

theorem maxLen_le_iff {n : ℕ} : maxLen data ≤ n ↔
    ∀ j values, data.lookup j = some values → values.length ≤ n := by
  rw [maxLen, Finset.sup_le_iff]
  constructor
  · intro h j values hj
    have hmem : j ∈ data.keys := Finmap.mem_keys.2 (Finmap.mem_of_lookup_eq_some hj)
    have hlen := h j hmem
    rwa [ListDict.entriesAt, hj] at hlen
  · intro h j hmem
    obtain ⟨values, hj⟩ := Finmap.mem_iff.1 (Finmap.mem_keys.1 hmem)
    rw [ListDict.entriesAt, hj]
    exact h j values hj

/-- Ends of a list that begin at different positions of it are different. -/
theorem drop_eq_drop_iff {α : Type} {l : List α} {a b : ℕ} (hb : b < l.length) :
    l.drop a = l.drop b ↔ a = b := by
  constructor
  · intro h
    have hlen := congrArg List.length h
    rw [List.length_drop, List.length_drop] at hlen
    omega
  · rintro rfl
    rfl

theorem updateCombinedLineplot_eq (hdata : data.NonEmpty) (hnode : data.lookup nodeId = some values) :
    updateCombinedLineplot data nodeId =
      some (.ok ⟨(values.map Prod.snd).drop (maxLen data - windowSize),
        (values.map Prod.fst).drop (maxLen data - windowSize)⟩) := by
  rw [updateCombinedLineplot, hnode, Option.map_some, nodeCurve_eq (hdata nodeId values hnode)]

/-- **The line and the box of a node show the same window, its last samples, exactly when no node
has more samples than the node itself, or than the window.** -/
theorem same_window (hdata : data.NonEmpty) (hnode : data.lookup nodeId = some values) :
    SameWindow data nodeId values ↔
      ∀ j other, data.lookup j = some other → other.length ≤ max windowSize values.length := by
  have hne := hdata nodeId values hnode
  have hpos : 0 < values.length := List.length_pos_iff.2 hne
  have hle : values.length ≤ maxLen data := maxLen_le_iff.1 le_rfl nodeId values hnode
  have hline := updateCombinedLineplot_eq hdata hnode
  have hbox : ∃ b, updateBoxPlot data nodeId = some (.ok b) ∧ b.vals = lastSamples values := by
    obtain ⟨b, hb, hvals⟩ := nodeBox_eq hne
    exact ⟨b, by rw [updateBoxPlot, hnode, Option.map_some, hb], by rw [hvals, lastSamples_eq]⟩
  have hdrop : (values.map Prod.fst).drop (maxLen data - windowSize) = lastSamples values ↔
      maxLen data ≤ max windowSize values.length := by
    have hlt : values.length - windowSize < (values.map Prod.fst).length := by
      rw [List.length_map]
      exact Nat.sub_lt hpos (by decide)
    rw [lastSamples_eq, drop_eq_drop_iff hlt]
    omega
  rw [← maxLen_le_iff, ← hdrop]
  constructor
  · rintro ⟨⟨c, hc, hvalues⟩, -⟩
    rw [hline] at hc
    cases hc
    exact hvalues
  · exact fun h => ⟨⟨_, hline, h⟩, hbox⟩

/-- A node that stopped after one sample, and one that did not. -/
def stoppedNode (n : ℕ) : ListDict ℤ (ℤ × ℚ) :=
  let stopped : ListDict ℤ (ℤ × ℚ) := Finmap.insert (4 : ℤ) ([(10, 1)] : List (ℤ × ℚ)) ∅
  stopped.insert 5 (List.replicate (n + 1) (20, 2))

theorem lookup_stoppedNode (n : ℕ) : (stoppedNode n).lookup 4 = some [(10, 1)] := by
  rw [stoppedNode, Finmap.lookup_insert_of_ne _ (by decide), Finmap.lookup_insert]

theorem length_stoppedNode {n : ℕ} {j : ℤ} {values : List (ℤ × ℚ)}
    (h : (stoppedNode n).lookup j = some values) :
    values.length = 1 ∨ values.length = n + 1 := by
  by_cases h5 : j = 5
  · subst h5
    rw [stoppedNode, Finmap.lookup_insert] at h
    cases h
    exact Or.inr List.length_replicate
  rw [stoppedNode, Finmap.lookup_insert_of_ne _ h5] at h
  by_cases h4 : j = 4
  · subst h4
    rw [Finmap.lookup_insert] at h
    cases h
    exact Or.inl rfl
  · rw [Finmap.lookup_insert_of_ne _ h4, Finmap.lookup_empty] at h
    cases h

theorem nonEmpty_stoppedNode (n : ℕ) : (stoppedNode n).NonEmpty := by
  rintro j values h rfl
  simpa using length_stoppedNode h

/-- As long as the other node has at most fifty samples. -/
theorem same_window_stoppedNode : SameWindow (stoppedNode 49) 4 [(10, 1)] := by
  refine (same_window (nonEmpty_stoppedNode 49) (lookup_stoppedNode 49)).2 fun j other hj => ?_
  rcases length_stoppedNode hj with h | h
  · rw [h]
    decide
  · rw [h]
    decide

/-- After its fifty-first the line of the stopped node is empty. -/
theorem same_window_fails : ¬ ∀ (data : ListDict ℤ (ℤ × ℚ)) (nodeId : ℤ) (values : List (ℤ × ℚ)),
    data.NonEmpty → data.lookup nodeId = some values → SameWindow data nodeId values := by
  intro h
  obtain ⟨c, hc, hvalues⟩ :=
    (h (stoppedNode 50) 4 _ (nonEmpty_stoppedNode 50) (lookup_stoppedNode 50)).line
  have hlen : maxLen (stoppedNode 50) = 51 := by decide +kernel
  rw [updateCombinedLineplot_eq (nonEmpty_stoppedNode 50) (lookup_stoppedNode 50), hlen] at hc
  cases hc
  exact List.cons_ne_nil _ _ hvalues.symm

end WsnAggregation.Live
