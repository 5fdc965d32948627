import WsnAggregation.Chronicle
import WsnAggregation.Offline.Completeness
import WsnAggregation.Offline.Matching
import WsnAggregation.Offline.Readable

/-!
# The metrics of a run

What the script computes from the logs of the network, with nothing assumed about the run. A line
that shows a negative number makes no row.

* `Timed.analysis_eq` — the frames of the script are the rows of the entries of the logs.
* `analysis_of_run` — the script completes exactly when some message sent shows no negative
  number, and raises `ZeroDivisionError` otherwise.
* `metrics_sane` — once it completes, the latencies are not negative, and the accuracies and the
  completeness are in range.
-/

namespace WsnAggregation

open Contiki Lib

/-! ## The frames -/

/-- The rows of a source log. -/
def sourceFrame (T : Target) (entries : List (ℕ × Message)) : List SourceRecord :=
  entries.filterMap fun e => printedRecord T e.1 e.2

/-- The rows of an aggregator log. -/
def aggFrame (T : Target) (entries : List (ℕ × MessageAgg)) : List AggregatorRecord :=
  entries.filterMap fun e => printedAggRecord T e.1 e.2

theorem parseLines_entries {α β : Type} {print : α → List Char}
    {parse : List Char → Except PyError (Option β)} {record : ℕ → α → Option β}
    (entries : List (ℕ × α)) (hline : ∀ time a, IsLine (stamp time (print a)))
    (hparse : ∀ e ∈ entries, parse (stamp e.1 (print e.2)) = .ok (record e.1 e.2)) :
    parseLines parse (pyLines (entries.map fun e => stamp e.1 (print e.2)).flatten) =
      .ok (entries.filterMap fun e => record e.1 e.2) := by
  induction entries with
  | nil => rfl
  | cons e entries ih =>
    rw [List.map_cons, List.flatten_cons, pyLines_line (hline _ _), parseLines,
      hparse e List.mem_cons_self, ih fun e he => hparse e (List.mem_cons_of_mem _ he)]
    cases hr : record e.1 e.2 <;> simp [hr] <;> rfl

section Frames

variable {rand : SourceNode → ℕ → ℕ} {T : Target} {net : Network} (h : Linked rand T net)
  {aggs : AggNode → List (ℕ × MessageAgg)} {messages : SourceNode → List (ℕ × Message)}
  (ht : Timed T net aggs messages)
include h ht

/-- The entries of a source log are the messages it sent. -/
theorem Timed.entries_sent (s : SourceNode) : (messages s).map Prod.snd = net.sentBy s := by
  rw [(ht.source s).printed, (h.sound s).printed]
  rfl

theorem Timed.entry_sendable {s : SourceNode} {e : ℕ × Message} (he : e ∈ messages s) :
    Sendable T s.nodeId e.2 := by
  refine h.sentBy_sendable ?_
  rw [← ht.entries_sent h s]
  exact List.mem_map_of_mem he

theorem Timed.entry_sendableAgg {n : AggNode} {e : ℕ × MessageAgg} (he : e ∈ aggs n) :
    SendableAgg T e.2 := by
  have hprinted : e.2 ∈ printedAggs (net.agg n).history := by
    rw [← (ht.agg n).printed]
    exact List.mem_map_of_mem he
  rcases n.aggregates_or with rfl | hid
  · obtain ⟨n, hflushed⟩ := h.printed_flushed hprinted
    exact h.sendableAgg hflushed
  · rw [(h.forwards hid).printed] at hprinted
    cases hprinted

theorem Timed.parse_source (s : SourceNode) :
    parseLines parseSourceLine (pyLines (net.sourceLog s).flatten) =
      .ok (sourceFrame T (messages s)) := by
  rw [(ht.source s).log]
  refine parseLines_entries _ (isLine_stamp_printMessage T) fun e he => ?_
  exact parseSourceLine_stamp (ht.entry_sendable h he) (s.nodeId_le.trans_lt (by decide)) e.1

theorem Timed.parse_agg :
    parseAggregatorLog (net.aggLog .node1).flatten = .ok (aggFrame T (aggs .node1)) := by
  rw [(ht.agg .node1).log]
  refine parseLines_entries _ (isLine_stamp_printMessageAgg T) fun e he => ?_
  exact parseAggregatorLine_stamp (ht.entry_sendableAgg h he) e.1

/-- What the script computes, whatever the run. -/
theorem Timed.analysis_eq : analysis net = calculateMetrics (aggFrame T (aggs .node1))
    (sourceNodes.flatMap fun s => sourceFrame T (messages s)) := by
  have hsource : ∀ l : List SourceNode,
      parseSourceLogs (l.map fun s => (net.sourceLog s).flatten) =
        .ok (l.flatMap fun s => sourceFrame T (messages s)) := by
    intro l
    induction l with
    | nil => rfl
    | cons s l ih =>
      rw [List.map_cons, parseSourceLogs, ht.parse_source h s, ih]
      rfl
  rw [analysis, ht.parse_agg h, hsource]
  rfl

end Frames

/-! ## Whether there are metrics -/

/-- The line of a message makes a row if neither its sample nor the integer part of its mean is
negative. -/
theorem isSome_printedRecord {T : Target} {s : SourceNode} {m : Message}
    (h : Sendable T s.nodeId m) (time : ℕ) :
    (printedRecord T time m).isSome = true ↔ 0 ≤ m.sample ∧ -1 < m.mean := by
  have habs := abs_le.1 h.mean_abs
  have hle := s.nodeId_le
  rw [printedRecord, sourceRecord, h.nodeId_eq, T.toInt_of_abs_lt (by omega) (by omega),
    doubleToInt_of_abs_lt T (by linarith) (by linarith), ← truncZ_nonneg_iff]
  split_ifs with hcond
  · exact iff_of_true rfl hcond.2
  · refine iff_of_false Bool.false_ne_true fun hsigns => hcond ⟨Int.natCast_nonneg _, hsigns⟩

/-- A message that makes a row. -/
def Shown (m : Message) : Prop := 0 ≤ m.sample ∧ -1 < m.mean

theorem Timed.frame_ne_nil_iff {rand : SourceNode → ℕ → ℕ} {T : Target} {net : Network}
    (h : Linked rand T net) {aggs : AggNode → List (ℕ × MessageAgg)}
    {messages : SourceNode → List (ℕ × Message)} (ht : Timed T net aggs messages) :
    (sourceNodes.flatMap fun s => sourceFrame T (messages s)) ≠ [] ↔
      ∃ m ∈ net.messages, Shown m := by
  constructor
  · intro hne
    obtain ⟨row, hrow⟩ := List.exists_mem_of_ne_nil _ hne
    obtain ⟨s, -, hs⟩ := List.mem_flatMap.1 hrow
    obtain ⟨e, he, hr⟩ := List.mem_filterMap.1 hs
    refine ⟨e.2, mem_messages.2 ⟨s, ?_⟩, ?_⟩
    · rw [← ht.entries_sent h s]
      exact List.mem_map_of_mem he
    · refine (isSome_printedRecord (ht.entry_sendable h he) e.1).1 ?_
      rw [hr]
      rfl
  · rintro ⟨m, hm, hshown⟩
    obtain ⟨s, hs⟩ := mem_messages.1 hm
    rw [← ht.entries_sent h s] at hs
    obtain ⟨e, he, rfl⟩ := List.mem_map.1 hs
    have hsome := (isSome_printedRecord (ht.entry_sendable h he) e.1).2 hshown
    obtain ⟨row, hrow⟩ := Option.isSome_iff_exists.1 hsome
    exact List.ne_nil_of_mem (List.mem_flatMap.2
      ⟨s, mem_sourceNodes s, List.mem_filterMap.2 ⟨e, he, hrow⟩⟩)

theorem calculateMetrics_error {aggregatorDf : List AggregatorRecord}
    {sourceDf : List SourceRecord} {e : PyError}
    (h : calculateMetrics aggregatorDf sourceDf = .error e) : e = .zeroDivisionError := by
  unfold calculateMetrics at h
  dsimp only at h
  split_ifs at h
  cases h
  rfl

/-- **The script completes exactly when some message that was sent shows no negative number**, in
every run of the network. If there is none it raises `ZeroDivisionError`; it raises nothing
else. -/
theorem analysis_of_run (rand : SourceNode → ℕ → ℕ) (T : Target) (steps : List NetStep) :
    (Completes (analysis (netRun rand T steps)) ↔
      ∃ m ∈ (netRun rand T steps).messages, Shown m) ∧
    ∀ e, analysis (netRun rand T steps) = .error e → e = .zeroDivisionError := by
  have h := linked_run rand T steps
  obtain ⟨aggs, messages, ht⟩ := timed_run rand T steps
  rw [ht.analysis_eq h, calculateMetrics_completes_iff]
  exact ⟨ht.frame_ne_nil_iff h, fun e he => calculateMetrics_error he⟩

/-! ## The range of the metrics -/

/-- The metrics are those of a network in which time passes forward. -/
structure Sane (net : Network) (metrics : Metrics) : Prop where
  completeness : metrics.completeness ∈ Set.Icc 0 100
  avgLatency : metrics.avgLatency ∈ Set.Icc 0 (net.time : ℚ)
  avgAccuracy : metrics.avgAccuracy ∈ Set.Icc 0 500

section Rows

variable {T : Target} {time : ℕ}

theorem eq_of_printedRecord {s : SourceNode} {m : Message} {row : SourceRecord}
    (h : Sendable T s.nodeId m) (hrow : printedRecord T time m = some row) :
    row.nodeId = m.nodeId ∧ row.msgId = m.msgId ∧ row.time = time ∧ row.sample ∈ Set.Icc 0 500 := by
  have hle := s.nodeId_le
  rw [printedRecord, sourceRecord] at hrow
  split_ifs at hrow with hcond
  obtain rfl := Option.some.inj hrow
  refine ⟨?_, rfl, rfl, Int.cast_nonneg hcond.2.1, ?_⟩
  · change (T.toInt m.nodeId).natAbs = m.nodeId
    rw [h.nodeId_eq, T.toInt_of_abs_lt (by omega) (by omega), Int.natAbs_natCast]
  · change (m.sample : ℚ) ≤ 500
    exact_mod_cast h.sample_le

theorem eq_of_printedAggRecord {a : MessageAgg} {row : AggregatorRecord} (h : SendableAgg T a)
    (hrow : printedAggRecord T time a = some row) : ListsSame row a ∧ row.time = time ∧
      row.sample ∈ Set.Icc 0 500 := by
  rw [printedAggRecord, aggregatorRecord] at hrow
  split_ifs at hrow with hcond
  obtain rfl := Option.some.inj hrow
  refine ⟨⟨rfl, rfl⟩, rfl, pointValue_nonneg _ _, ?_⟩
  have hge := h.sample_ge
  have hle := h.sample_le
  have hint := doubleToInt_of_abs_lt T (q := a.sample) (by linarith) (by linarith)
  dsimp only
  rw [hint] at hcond ⊢
  rcases le_or_gt 0 a.sample with h0 | hneg
  · have hnat : ⌊a.sample⌋.natAbs = ⌊a.sample⌋.toNat := by
      have := Int.floor_nonneg.2 h0
      omega
    rw [truncZ_of_nonneg h0, hnat, pointValue_of_nonneg T h0, trunc3,
      truncZ_of_nonneg (by linarith)]
    have := Int.floor_le (a.sample * 1000)
    linarith
  · -- The integer part is zero, so that whatever is printed after the point is less than one.
    have hzero : truncZ a.sample = 0 := by
      have hceil : ⌈a.sample⌉ ≤ 0 := Int.ceil_le.2 (by exact_mod_cast hneg.le)
      have hnonneg := hcond.2.1
      rw [truncZ_of_neg hneg] at hnonneg ⊢
      omega
    rw [hzero]
    have hlt := pointValue_lt 0 (T.doubleToUnsigned T.intBits ((a.sample - ((0 : ℤ) : ℚ)) * 1000))
    rw [Nat.cast_zero] at hlt
    exact hlt.le.trans (by norm_num)

end Rows

section Range

variable {rand : SourceNode → ℕ → ℕ} {T : Target} {net : Network} (h : Linked rand T net)
  {aggs : AggNode → List (ℕ × MessageAgg)} {messages : SourceNode → List (ℕ × Message)}
  (ht : Timed T net aggs messages)
include h ht

theorem Timed.latency_mem (hids : ∀ s, (net.sentBy s).length ≤ 2 ^ min T.longBits 53) {s : SourceNode}
    {row : SourceRecord} (hrow : row ∈ sourceFrame T (messages s)) {first : AggregatorRecord}
    (hfirst : first ∈ aggFrame T (aggs .node1)) (hpairs : Pairs row first) :
    first.time - row.time ∈ Set.Icc 0 (net.time : ℚ) := by
  obtain ⟨e, he, hr⟩ := List.mem_filterMap.1 hrow
  obtain ⟨e', he', hr'⟩ := List.mem_filterMap.1 hfirst
  obtain ⟨hnode, hmsg, htime, -⟩ := eq_of_printedRecord (ht.entry_sendable h he) hr
  obtain ⟨hlists, htime', -⟩ := eq_of_printedAggRecord (ht.entry_sendableAgg h he') hr'
  have hne : e.2.nodeId ≠ 0 := by
    rw [(ht.entry_sendable h he).nodeId_eq]
    cases s <;> decide
  have hlisted := (pairs_iff (Prod.ext hnode hmsg) hlists hne).1 hpairs
  obtain ⟨s', e'', he'', hpair, hle⟩ := ht.causal .node1 e' he' _ hlisted
  -- The message that was logged before the aggregate is the one of the row.
  obtain ⟨hid, hmsgId⟩ := Prod.mk.inj hpair
  rw [(ht.entry_sendable h he).nodeId_eq, (ht.entry_sendable h he'').nodeId_eq] at hid
  obtain rfl := SourceNode.nodeId_injective hid
  have hnodup : ((messages s').map fun e => e.2.msgId).Nodup := by
    have hnodup := h.nodup_msgId (hids s')
    rwa [← ht.entries_sent h s', List.map_map] at hnodup
  obtain rfl := List.inj_on_of_nodup_map hnodup he'' he hmsgId
  have hbound := (ht.agg .node1).bounded e' he'
  have hle' : (e''.1 : ℚ) ≤ e'.1 := Nat.cast_le.2 hle
  have hbound' : (e'.1 : ℚ) ≤ net.time := Nat.cast_le.2 hbound
  have hpos : (0 : ℚ) ≤ e''.1 := Nat.cast_nonneg _
  rw [htime, htime']
  exact ⟨by linarith, by linarith⟩

theorem Timed.accuracy_mem {s : SourceNode} {row : SourceRecord}
    (hrow : row ∈ sourceFrame T (messages s)) {first : AggregatorRecord}
    (hfirst : first ∈ aggFrame T (aggs .node1)) :
    |row.sample - first.sample| ∈ Set.Icc (0 : ℚ) 500 := by
  obtain ⟨e, he, hr⟩ := List.mem_filterMap.1 hrow
  obtain ⟨e', he', hr'⟩ := List.mem_filterMap.1 hfirst
  obtain ⟨-, -, -, hsample⟩ := eq_of_printedRecord (ht.entry_sendable h he) hr
  obtain ⟨-, -, hsample'⟩ := eq_of_printedAggRecord (ht.entry_sendableAgg h he') hr'
  refine ⟨abs_nonneg _, abs_le.2 ⟨?_, ?_⟩⟩
  · linarith [hsample.1, hsample'.2]
  · linarith [hsample.2, hsample'.1]

theorem Timed.exact_aggFrame (hids : ∀ s, (net.sentBy s).length ≤ 2 ^ min T.longBits 53) :
    ∀ rowAgg ∈ aggFrame T (aggs .node1), rowAgg.Exact := by
  intro rowAgg hrow
  obtain ⟨e, he, hr⟩ := List.mem_filterMap.1 hrow
  have hlists := (eq_of_printedAggRecord (ht.entry_sendableAgg h he) hr).1
  refine h.exact_rowAgg hids hlists ?_
  rw [← (ht.agg .node1).printed]
  exact List.mem_map_of_mem he

theorem Timed.exact_sourceFrames (hids : ∀ s, (net.sentBy s).length ≤ 2 ^ min T.longBits 53) :
    ∀ row ∈ sourceNodes.flatMap fun s => sourceFrame T (messages s), row.Exact := by
  intro row hrow
  obtain ⟨s, -, hs⟩ := List.mem_flatMap.1 hrow
  obtain ⟨e, he, hr⟩ := List.mem_filterMap.1 hs
  obtain ⟨hnode, hmsg, -, -⟩ := eq_of_printedRecord (ht.entry_sendable h he) hr
  refine h.exact_row (hids s) (Prod.ext hnode hmsg) ?_
  rw [← ht.entries_sent h s]
  exact List.mem_map_of_mem he

end Range

/-- What is taken of a row and of the first aggregate that pairs it. -/
theorem mem_filterMap_earliest {aggregatorDf : List AggregatorRecord}
    {sourceDf : List SourceRecord} {f : SourceRecord → AggregatorRecord → ℚ} {x : ℚ}
    (hx : x ∈ sourceDf.filterMap fun row => (earliest aggregatorDf row).map (f row)) :
    ∃ row ∈ sourceDf, ∃ first ∈ aggregatorDf, Pairs row first ∧ x = f row first := by
  obtain ⟨row, hrow, hr⟩ := List.mem_filterMap.1 hx
  obtain ⟨first, hfirst, rfl⟩ := Option.map_eq_some_iff.1 hr
  rw [earliest] at hfirst
  have hpairs := List.find?_some hfirst
  exact ⟨row, hrow, first, List.mem_of_find?_eq_some hfirst, of_decide_eq_true hpairs, rfl⟩

/-- **The metrics of a run are sane**: until the message ids come round or become too large for a
double, no latency is negative or longer than the run, and the accuracy and the completeness are in
range, whatever the network delays, reorders or loses. -/
theorem metrics_sane (rand : SourceNode → ℕ → ℕ) (T : Target) (steps : List NetStep)
    (hids : ∀ s, ((netRun rand T steps).sentBy s).length ≤ 2 ^ min T.longBits 53)
    (metrics : Metrics)
    (hmetrics : analysis (netRun rand T steps) = .ok metrics) :
    Sane (netRun rand T steps) metrics := by
  have h := linked_run rand T steps
  obtain ⟨aggs, messages, ht⟩ := timed_run rand T steps
  rw [ht.analysis_eq h] at hmetrics
  have hne := (calculateMetrics_completes_iff _ _).1 ⟨metrics, hmetrics⟩
  obtain ⟨metrics', hmetrics', hmatching⟩ :=
    matching_calculateMetrics (ht.exact_aggFrame h hids) (ht.exact_sourceFrames h hids) hne
  obtain rfl : metrics = metrics' := Except.ok.inj (hmetrics.symm.trans hmetrics')
  refine ⟨hmatching.completeness_mem, ?_, ?_⟩
  · rw [hmatching.avgLatency]
    refine mean_mem_Icc (Nat.cast_nonneg _) fun x hx => ?_
    obtain ⟨row, hrow, first, hfirst, hpairs, rfl⟩ := mem_filterMap_earliest hx
    obtain ⟨s, -, hs⟩ := List.mem_flatMap.1 hrow
    exact ht.latency_mem h hids hs hfirst hpairs
  · rw [hmatching.avgAccuracy]
    refine mean_mem_Icc (by norm_num) fun x hx => ?_
    obtain ⟨row, hrow, first, hfirst, -, rfl⟩ := mem_filterMap_earliest hx
    obtain ⟨s, -, hs⟩ := List.mem_flatMap.1 hrow
    exact ht.accuracy_mem h hs hfirst

/-- Three samples of 10 are sent and reported at once. -/
theorem metrics_sane_reportedRun :
    ∃ metrics, analysis (netRun (fourthDraw 20) .sky reportedRun) = .ok metrics ∧
      Sane (netRun (fourthDraw 20) .sky reportedRun) metrics := by
  have hids : ∀ s, ((netRun (fourthDraw 20) .sky reportedRun).sentBy s).length ≤ 3 := by
    decide +kernel
  have hok : (analysis (netRun (fourthDraw 20) .sky reportedRun)).isOk = true := by decide +kernel
  cases hanalysis : analysis (netRun (fourthDraw 20) .sky reportedRun) with
  | error e =>
    rw [hanalysis] at hok
    cases hok
  | ok metrics =>
    exact ⟨metrics, rfl, metrics_sane (fourthDraw 20) .sky reportedRun
      (fun s => (hids s).trans (by decide)) metrics hanalysis⟩

end WsnAggregation
