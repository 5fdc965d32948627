import WsnAggregation.Lib.Moments
import WsnAggregation.Offline.Metrics

/-!
# Which messages the metrics count

`calculate_metrics` on frames of any rows: an aggregate may pair an id with another node, list a
message that another aggregate lists too, or be padded with zeros.

* `Pairs` — an aggregate holds the id and the node of a message at one position.
* `Exact` — the ids are held by doubles, as which they come out of the frames.
* `Matching` — what the metrics are, in terms of the earliest aggregate that pairs each message.
* `metric_matching` — then they are, whatever the order of the source rows; and a matched row keeps
  its latency and its accuracy when aggregates are appended.
-/

namespace WsnAggregation

open Lib

variable {aggregatorDf : List AggregatorRecord} {row : SourceRecord}

/-! ## Matching one row -/

/-- The ids that the row of a source holds as doubles are its own. -/
def SourceRecord.Exact (row : SourceRecord) : Prop := row.msgId ≤ 2 ^ 53 ∧ row.nodeId ≤ 2 ^ 53

/-- Doubles hold the message ids that an aggregate lists. -/
def AggregatorRecord.Exact (rowAgg : AggregatorRecord) : Prop :=
  ∀ msgId ∈ rowAgg.msgIdsInMsg, msgId ≤ 2 ^ 53

instance (row : SourceRecord) : Decidable row.Exact :=
  inferInstanceAs (Decidable (_ ∧ _))

instance (rowAgg : AggregatorRecord) : Decidable rowAgg.Exact :=
  inferInstanceAs (Decidable (∀ msgId ∈ rowAgg.msgIdsInMsg, msgId ≤ 2 ^ 53))

/-- The aggregate holds the id of the message and its node at one position. -/
def Pairs (row : SourceRecord) (rowAgg : AggregatorRecord) : Prop :=
  ∃ j : ℕ, rowAgg.msgIdsInMsg[j]? = some row.msgId ∧ rowAgg.nodeIdsInMsg[j]? = some row.nodeId

theorem pairs_iff_mem_zip {rowAgg : AggregatorRecord} : Pairs row rowAgg ↔
    (row.msgId, row.nodeId) ∈ rowAgg.msgIdsInMsg.zip rowAgg.nodeIdsInMsg := by
  rw [List.mem_iff_getElem?]
  simp only [List.getElem?_zip_eq_some]
  rfl

instance (row : SourceRecord) (rowAgg : AggregatorRecord) : Decidable (Pairs row rowAgg) :=
  decidable_of_iff _ pairs_iff_mem_zip.symm

/-- The test of the script, where doubles hold the ids. -/
theorem lists_eq_true_iff {rowAgg : AggregatorRecord} (hrow : row.Exact) (hagg : rowAgg.Exact) :
    lists row rowAgg = true ↔ Pairs row rowAgg := by
  rw [pairs_iff_mem_zip, lists, List.any_eq_true]
  simp only [Bool.and_eq_true, decide_eq_true_eq, asDouble_of_le hrow.1, asDouble_of_le hrow.2]
  constructor
  · rintro ⟨⟨msgId, nodeId⟩, hp, hmsg, rfl⟩
    rw [asDouble_of_le (hagg msgId (List.of_mem_zip hp).1)] at hmsg
    subst hmsg
    exact hp
  · intro hmem
    exact ⟨_, hmem, (asDouble_of_le hrow.1).symm, rfl⟩

/-- The earliest aggregate that pairs the message. -/
def earliest (aggregatorDf : List AggregatorRecord) (row : SourceRecord) :
    Option AggregatorRecord :=
  aggregatorDf.find? fun rowAgg => Pairs row rowAgg

/-- Some aggregate pairs the message. -/
def Matched (aggregatorDf : List AggregatorRecord) (row : SourceRecord) : Prop :=
  ∃ rowAgg ∈ aggregatorDf, Pairs row rowAgg

instance (aggregatorDf : List AggregatorRecord) (row : SourceRecord) :
    Decidable (Matched aggregatorDf row) :=
  inferInstanceAs (Decidable (∃ rowAgg ∈ aggregatorDf, Pairs row rowAgg))

/-- The latency of a message that is matched. -/
def latency (aggregatorDf : List AggregatorRecord) (row : SourceRecord) : Option ℚ :=
  (earliest aggregatorDf row).map fun first => first.time - row.time

/-- The accuracy of a message that is matched. -/
def accuracy (aggregatorDf : List AggregatorRecord) (row : SourceRecord) : Option ℚ :=
  (earliest aggregatorDf row).map fun first => |row.sample - first.sample|

theorem isSome_earliest : (earliest aggregatorDf row).isSome = decide (Matched aggregatorDf row) := by
  rw [Bool.eq_iff_iff, earliest, List.find?_isSome, decide_eq_true_iff]
  simp only [decide_eq_true_iff]
  rfl

/-- The first row that the script selects is the earliest. -/
theorem find?_lists (haggs : ∀ rowAgg ∈ aggregatorDf, rowAgg.Exact) (hrow : row.Exact) :
    aggregatorDf.find? (lists row) = earliest aggregatorDf row := by
  refine List.find?_congr fun rowAgg hmem => ?_
  rw [Bool.eq_iff_iff, lists_eq_true_iff hrow (haggs rowAgg hmem), decide_eq_true_iff]

/-- An aggregate appended later is not the earliest of a row that is matched. -/
theorem earliest_append (h : Matched aggregatorDf row) (later : List AggregatorRecord) :
    earliest (aggregatorDf ++ later) row = earliest aggregatorDf row := by
  have hsome : (earliest aggregatorDf row).isSome = true := by
    rw [isSome_earliest]
    exact decide_eq_true h
  obtain ⟨first, hfirst⟩ := Option.isSome_iff_exists.1 hsome
  rw [hfirst]
  rw [earliest] at hfirst ⊢
  rw [List.find?_append, hfirst]
  rfl

theorem Matched.append (h : Matched aggregatorDf row) (later : List AggregatorRecord) :
    Matched (aggregatorDf ++ later) row := by
  obtain ⟨rowAgg, hmem, hpairs⟩ := h
  exact ⟨rowAgg, List.mem_append_left later hmem, hpairs⟩

/-- The totals after the loop are sums over the rows that are matched. -/
theorem foldl_countRow_totals {sourceDf : List SourceRecord}
    (haggs : ∀ rowAgg ∈ aggregatorDf, rowAgg.Exact) (hrows : ∀ row ∈ sourceDf, row.Exact) :
    sourceDf.foldl (countRow aggregatorDf) {} =
      { receivedMessages := sourceDf.countP (Matched aggregatorDf ·)
        totalLatency := (sourceDf.filterMap (latency aggregatorDf)).sum
        totalAccuracy := (sourceDf.filterMap (accuracy aggregatorDf)).sum } := by
  have hfind : ∀ row ∈ sourceDf, aggregatorDf.find? (lists row) = earliest aggregatorDf row :=
    fun row hrow => find?_lists haggs (hrows row hrow)
  have hcount : (sourceDf.countP fun row => aggregatorDf.any (lists row)) =
      sourceDf.countP (Matched aggregatorDf ·) := by
    refine List.countP_congr fun row hrow => ?_
    rw [← List.isSome_find?, hfind row hrow, isSome_earliest]
  have hsum : ∀ f : SourceRecord → AggregatorRecord → ℚ,
      (sourceDf.filterMap fun row => (aggregatorDf.find? (lists row)).map (f row)) =
        sourceDf.filterMap fun row => (earliest aggregatorDf row).map (f row) := fun f =>
    List.filterMap_congr fun row hrow => by rw [hfind row hrow]
  rw [foldl_countRow, hcount, hsum fun row first => first.time - row.time,
    hsum fun row first => |row.sample - first.sample|, zero_add, zero_add, zero_add]
  rfl

/-! ## The metrics -/

/-- What the metrics of the frames are. -/
structure Matching (aggregatorDf : List AggregatorRecord) (sourceDf : List SourceRecord)
    (metrics : Metrics) : Prop where
  totalMessages : metrics.totalMessages = sourceDf.length
  receivedMessages : metrics.receivedMessages = sourceDf.countP (Matched aggregatorDf ·)
  missedMessages : metrics.receivedMessages + metrics.missedMessages = metrics.totalMessages
  completeness : metrics.completeness =
    (metrics.receivedMessages : ℚ) / metrics.totalMessages * 100
  completeness_mem : metrics.completeness ∈ Set.Icc 0 100
  avgLatency : metrics.avgLatency = mean (sourceDf.filterMap (latency aggregatorDf))
  avgAccuracy : metrics.avgAccuracy = mean (sourceDf.filterMap (accuracy aggregatorDf))

section Calculation

variable {sourceDf : List SourceRecord}

theorem length_filterMap_earliest (f : SourceRecord → AggregatorRecord → ℚ) :
    (sourceDf.filterMap fun row => (earliest aggregatorDf row).map (f row)).length =
      sourceDf.countP (Matched aggregatorDf ·) := by
  rw [List.length_filterMap_eq_countP]
  refine List.countP_congr fun row _ => ?_
  rw [Option.isSome_map, isSome_earliest]

/-- The average that the code guards against having no message is the mean. -/
theorem average_eq_mean (f : SourceRecord → AggregatorRecord → ℚ) :
    (if sourceDf.countP (Matched aggregatorDf ·) > 0 then
        (sourceDf.filterMap fun row => (earliest aggregatorDf row).map (f row)).sum /
          (sourceDf.countP (Matched aggregatorDf ·) : ℕ)
      else 0) = mean (sourceDf.filterMap fun row => (earliest aggregatorDf row).map (f row)) := by
  rw [mean, length_filterMap_earliest]
  split_ifs with hpos
  · rfl
  · rw [Nat.eq_zero_of_not_pos hpos, Nat.cast_zero, div_zero]

theorem percentage_mem {k n : ℕ} (h : k ≤ n) : (k : ℚ) / n * 100 ∈ Set.Icc 0 100 := by
  have hle : (k : ℚ) / n ≤ 1 := div_le_one_of_le₀ (Nat.cast_le.2 h) (Nat.cast_nonneg n)
  refine ⟨by positivity, ?_⟩
  linarith

theorem matching_calculateMetrics (haggs : ∀ rowAgg ∈ aggregatorDf, rowAgg.Exact)
    (hrows : ∀ row ∈ sourceDf, row.Exact) (hne : sourceDf ≠ []) :
    ∃ metrics, calculateMetrics aggregatorDf sourceDf = .ok metrics ∧
      Matching aggregatorDf sourceDf metrics := by
  have hlen : sourceDf.length ≠ 0 := fun h0 => hne (List.length_eq_zero_iff.1 h0)
  refine ⟨_, if_neg hlen, ?_⟩
  rw [foldl_countRow_totals haggs hrows]
  refine
    { totalMessages := rfl
      receivedMessages := rfl
      missedMessages := add_sub_cancel _ _
      completeness := rfl
      completeness_mem := percentage_mem List.countP_le_length
      avgLatency := average_eq_mean fun row first => first.time - row.time
      avgAccuracy := average_eq_mean fun row first => |row.sample - first.sample| }

/-- The metrics do not depend on the order of the source rows. -/
theorem calculateMetrics_perm {sourceDf' : List SourceRecord} (h : sourceDf'.Perm sourceDf) :
    calculateMetrics aggregatorDf sourceDf' = calculateMetrics aggregatorDf sourceDf := by
  have htotals : sourceDf'.foldl (countRow aggregatorDf) {} =
      sourceDf.foldl (countRow aggregatorDf) {} := by
    rw [foldl_countRow, foldl_countRow, h.countP_eq, (h.filterMap _).sum_eq,
      (h.filterMap fun row => (aggregatorDf.find? (lists row)).map fun first =>
        |row.sample - first.sample|).sum_eq]
  rw [calculateMetrics, calculateMetrics, htotals, h.length_eq]

/-- Appended aggregates do not lower the completeness. -/
theorem Matching.completeness_le {later : List AggregatorRecord} {metrics metrics' : Metrics}
    (h : Matching aggregatorDf sourceDf metrics)
    (h' : Matching (aggregatorDf ++ later) sourceDf metrics') :
    metrics.completeness ≤ metrics'.completeness := by
  have hcount : sourceDf.countP (Matched aggregatorDf ·) ≤
      sourceDf.countP (Matched (aggregatorDf ++ later) ·) := by
    refine List.countP_mono_left fun row _ hmatched => ?_
    exact decide_eq_true ((of_decide_eq_true hmatched).append later)
  rw [h.completeness, h'.completeness, h.totalMessages, h'.totalMessages, h.receivedMessages,
    h'.receivedMessages]
  gcongr

end Calculation

/-- **The metrics of frames whose sources have a row are those of the earliest aggregate that
pairs each message**, where doubles hold the ids. The order of the source rows does not matter;
aggregates appended at the end never lower the completeness, nor do they change the latency or the
accuracy of a message that is already matched. -/
theorem metric_matching (aggregatorDf : List AggregatorRecord) (sourceDf : List SourceRecord)
    (haggs : ∀ rowAgg ∈ aggregatorDf, rowAgg.Exact) (hrows : ∀ row ∈ sourceDf, row.Exact)
    (hne : sourceDf ≠ []) :
    ∃ metrics, calculateMetrics aggregatorDf sourceDf = .ok metrics ∧
      Matching aggregatorDf sourceDf metrics ∧
      (∀ sourceDf', sourceDf'.Perm sourceDf →
        calculateMetrics aggregatorDf sourceDf' = .ok metrics) ∧
      ∀ later : List AggregatorRecord, (∀ rowAgg ∈ later, rowAgg.Exact) →
        ∃ metrics', calculateMetrics (aggregatorDf ++ later) sourceDf = .ok metrics' ∧
          Matching (aggregatorDf ++ later) sourceDf metrics' ∧
          metrics.completeness ≤ metrics'.completeness ∧
          ∀ row, Matched aggregatorDf row →
            latency (aggregatorDf ++ later) row = latency aggregatorDf row ∧
              accuracy (aggregatorDf ++ later) row = accuracy aggregatorDf row := by
  obtain ⟨metrics, hmetrics, hmatching⟩ := matching_calculateMetrics haggs hrows hne
  refine ⟨metrics, hmetrics, hmatching, fun sourceDf' hperm => ?_, fun later hlater => ?_⟩
  · rw [calculateMetrics_perm hperm, hmetrics]
  · have hall : ∀ rowAgg ∈ aggregatorDf ++ later, rowAgg.Exact :=
      List.forall_mem_append.2 ⟨haggs, hlater⟩
    obtain ⟨metrics', hmetrics', hmatching'⟩ := matching_calculateMetrics hall hrows hne
    refine ⟨metrics', hmetrics', hmatching', hmatching.completeness_le hmatching', ?_⟩
    intro row hrow
    rw [latency, accuracy, earliest_append hrow]
    exact ⟨rfl, rfl⟩

/-- Node 4 and node 5 sent a message 1; the aggregate that lists node 4's is reported twice, and
its id 2 is node 5's. -/
theorem metric_matching_two :
    ∃ metrics, calculateMetrics
        [⟨2, 15, 1, [1, 2, 0], [4, 5, 0], 3000⟩, ⟨2, 15, 1, [1, 2, 0], [4, 5, 0], 9000⟩]
        [⟨4, 10, 10, 0, 1, 1000⟩, ⟨5, 30, 30, 0, 1, 1000⟩] = .ok metrics ∧
      metrics.receivedMessages = 1 ∧ metrics.avgLatency = 2000 ∧ metrics.avgAccuracy = 5 := by
  obtain ⟨metrics, hmetrics, hmatching, -⟩ := metric_matching
    [⟨2, 15, 1, [1, 2, 0], [4, 5, 0], 3000⟩, ⟨2, 15, 1, [1, 2, 0], [4, 5, 0], 9000⟩]
    [⟨4, 10, 10, 0, 1, 1000⟩, ⟨5, 30, 30, 0, 1, 1000⟩] (by decide) (by decide)
    (List.cons_ne_nil _ _)
  refine ⟨metrics, hmetrics, hmatching.receivedMessages.trans (by decide), ?_, ?_⟩
  · rw [hmatching.avgLatency]
    decide +kernel
  · rw [hmatching.avgAccuracy]
    decide +kernel

/-- The aggregate lists message 9007199254740992 of node 4, and message 9007199254740993 is
counted. -/
theorem metric_matching_fails :
    ¬ ∀ (aggregatorDf : List AggregatorRecord) (sourceDf : List SourceRecord), sourceDf ≠ [] →
      ∃ metrics, calculateMetrics aggregatorDf sourceDf = .ok metrics ∧
        Matching aggregatorDf sourceDf metrics := by
  intro h
  obtain ⟨metrics, hmetrics, hmatching⟩ := h
    [⟨2, 15, 1, [9007199254740992, 0, 0], [4, 0, 0], 3000⟩]
    [⟨4, 10, 10, 0, 9007199254740993, 1000⟩] (List.cons_ne_nil _ _)
  have hnone : metrics.receivedMessages = 0 := hmatching.receivedMessages.trans (by decide)
  have hone : (calculateMetrics [⟨2, 15, 1, [9007199254740992, 0, 0], [4, 0, 0], 3000⟩]
      [⟨4, 10, 10, 0, 9007199254740993, 1000⟩]).toOption.map Metrics.receivedMessages = some 1 := by
    decide +kernel
  rw [hmetrics] at hone
  exact absurd (hnone.symm.trans (Option.some.inj hone)) (by decide)

end WsnAggregation
