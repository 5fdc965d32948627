import WsnAggregation.Integrity
import WsnAggregation.Offline.RoundTrip

/-!
# From an aggregate to its record

Whether the record that `parse_aggregator_log` makes of a printed and stamped aggregate is the
aggregate's own.

* `SendableAgg` — what is known of the aggregates that nodes 2 and 3 build in the network: the
  sample is a weighted mean of samples in `[-10, 500]`.
* `aggregate_round_trip` — such an aggregate is read back exactly when its sample is more than
  `-1/1000` and its count of missed samples is not negative.
-/

namespace WsnAggregation

open Contiki Lib

/-! ## The aggregates of the network -/

/-- What is known of an aggregate that node 2 or 3 builds. -/
structure SendableAgg (T : Target) (a : MessageAgg) : Prop where
  nodeId : Aggregates a.nodeId
  sample_ge : -10 ≤ a.sample
  sample_le : a.sample ≤ 500
  missed_le : a.missedSamples.natAbs ≤ 65536
  msgId_lt : ∀ i, a.msgIdsInMsg i < 2 ^ T.longBits
  nodeId_le : ∀ i, a.nodeIdsInMsg i ≤ 9

theorem SourceNode.nodeId_le (s : SourceNode) : s.nodeId ≤ 9 := by
  cases s <;> decide

section Flushes

variable {rand : SourceNode → ℕ → ℕ} {T : Target} {net : Network} (h : Linked rand T net)
include h

theorem Linked.listed_msgId {n : AggNode} {a : MessageAgg}
    (ha : a ∈ flushedAggs (net.agg n).history) (i : Fin numNodes) :
    a.msgIdsInMsg i = 0 ∨ ∃ s, ∃ m ∈ net.sentBy s, a.msgIdsInMsg i = m.msgId := by
  obtain ⟨past, t, count, future, heq⟩ := mem_flushedAggs.1 ha
  obtain ⟨-, app, ht, -, rfl⟩ := h.flush_at heq
  simp only [aggMessage]
  split_ifs
  · rcases h.slot_sent heq ht i with h0 | ⟨s, hs⟩
    · rw [h0]
      exact Or.inl rfl
    · exact Or.inr ⟨s, _, hs, rfl⟩
  · exact Or.inl rfl

theorem Linked.sendableAgg {n : AggNode} {a : MessageAgg}
    (ha : a ∈ flushedAggs (net.agg n).history) : SendableAgg T a := by
  have hbounds := h.sample_bounds (-10) 500 (by decide) (by decide) (fun s m hm =>
    ⟨(h.sentBy_sendable hm).sample_ge, (h.sentBy_sendable hm).sample_le⟩) ha
  obtain ⟨past, t, count, future, heq⟩ := mem_flushedAggs.1 ha
  obtain ⟨hid, app, ht, -, rfl⟩ := h.flush_at heq
  have hslot := h.slot_sent heq ht
  refine {
    nodeId := hid
    sample_ge := by exact_mod_cast hbounds.1
    sample_le := by exact_mod_cast hbounds.2
    missed_le := ?_
    msgId_lt := fun i => ?_
    nodeId_le := fun i => ?_ }
  · have hlt : app.messagesMissed < 65536 := by
      rw [ht.missed]
      exact Nat.mod_lt _ (by decide)
    have := toInt_natCast T hlt
    simp only [aggMessage]
    omega
  · rcases h.listed_msgId ha i with h0 | ⟨s, m, hm, hid⟩
    · rw [h0]
      positivity
    · rw [hid]
      exact (h.sentBy_sendable hm).msgId_lt
  · simp only [aggMessage]
    split_ifs
    · rcases hslot i with h0 | ⟨s, hs⟩
      · rw [h0]
        decide
      · rw [(h.sentBy_sendable hs).nodeId_eq]
        exact s.nodeId_le
    · decide

end Flushes

/-! ## Aggregator lines -/

/-- The record shows the aggregate. -/
structure AggregatorRecord.Shows (r : AggregatorRecord) (a : MessageAgg) (time : ℕ) : Prop where
  nodeId : r.nodeId = a.nodeId
  sample : r.sample = trunc3 a.sample
  missedSamples : (r.missedSamples : ℤ) = a.missedSamples
  msgIdsInMsg : r.msgIdsInMsg = [a.msgIdsInMsg 0, a.msgIdsInMsg 1, a.msgIdsInMsg 2]
  nodeIdsInMsg : r.nodeIdsInMsg = [a.nodeIdsInMsg 0, a.nodeIdsInMsg 1, a.nodeIdsInMsg 2]
  time : r.time = time

/-- `parse_aggregator_log` on the line of the aggregate, stamped, gives one record, and it shows
the aggregate. -/
def AggregateRoundTrip (T : Target) (time : ℕ) (a : MessageAgg) : Prop :=
  ∃ r, parseAggregatorLog (stamp time (printMessageAgg T a)) = .ok [r] ∧ r.Shows a time

/-- The record that the printed and stamped aggregate has. -/
def printedAggRecord (T : Target) (time : ℕ) (a : MessageAgg) : Option AggregatorRecord :=
  aggregatorRecord (T.toInt a.nodeId) (T.doubleToInt a.sample)
    (T.doubleToUnsigned T.intBits ((a.sample - T.doubleToInt a.sample) * 1000)) a.missedSamples
    a.msgIdsInMsg a.nodeIdsInMsg time

section AggregatorLine

variable {T : Target} {a : MessageAgg}

theorem isLine_stamp_printMessageAgg (T : Target) (time : ℕ) (a : MessageAgg) :
    IsLine (stamp time (printMessageAgg T a)) := by
  rw [stamp_printMessageAgg]
  exact isLine_aggregatorText _ _ _ _ _ _ _

theorem SendableAgg.toInt_nodeId (h : SendableAgg T a) : T.toInt a.nodeId = a.nodeId := by
  have hid := h.nodeId
  refine T.toInt_of_abs_lt (by omega) ?_
  rcases hid with hid | hid <;> rw [hid] <;> decide

/-- A line of the aggregator log is parsed without an error. -/
theorem parseAggregatorLine_stamp (h : SendableAgg T a) (time : ℕ) :
    parseAggregatorLine (stamp time (printMessageAgg T a)) = .ok (printedAggRecord T time a) := by
  have hnodes : (fun i => T.toInt (a.nodeIdsInMsg i)) = fun i => (a.nodeIdsInMsg i : ℤ) := by
    funext i
    have := h.nodeId_le i
    exact T.toInt_of_abs_lt (by omega) (by omega)
  have hbound : ∀ {k : ℕ}, k ≤ 65536 → k < 10 ^ maxStrDigits := fun hk =>
    lt_ten_pow_maxStrDigits (hk.trans_lt (by decide))
  rw [stamp_printMessageAgg, hnodes]
  refine parseAggregatorLine_aggregatorText (hbound ?_) (hbound h.missed_le) (fun i => ?_)
    fun i => hbound ?_
  · rw [h.toInt_nodeId, Int.natAbs_natCast]
    rcases h.nodeId with hid | hid <;> rw [hid] <;> decide
  · exact lt_ten_pow_maxStrDigits ((h.msgId_lt i).trans_le
      (Nat.pow_le_pow_right (by decide) T.longBits_le_sixtyFour))
  · exact (h.nodeId_le i).trans (by decide)

theorem parseAggregatorLog_stamp (h : SendableAgg T a) (time : ℕ) :
    parseAggregatorLog (stamp time (printMessageAgg T a)) =
      .ok (printedAggRecord T time a).toList := by
  have hline : ∀ l ∈ [stamp time (printMessageAgg T a)], IsLine l := by
    intro l hl
    rw [List.mem_singleton.1 hl]
    exact isLine_stamp_printMessageAgg T time a
  have hlines := pyLines_flatten hline
  rw [List.flatten_singleton] at hlines
  simp only [parseAggregatorLog, hlines, parseLines, parseAggregatorLine_stamp h, bind,
    Except.bind, pure, Except.pure, List.append_nil]

theorem printedAggRecord_shows_iff (h : SendableAgg T a) (time : ℕ) :
    (∃ r, printedAggRecord T time a = some r ∧ r.Shows a time) ↔
      -1 / 1000 < a.sample ∧ 0 ≤ a.missedSamples := by
  have hsplit := pointValue_split T (q := a.sample) (by linarith [h.sample_ge])
    (by linarith [h.sample_le])
  rw [printedAggRecord, aggregatorRecord, h.toInt_nodeId]
  constructor
  · rintro ⟨r, hr, hshows⟩
    split_ifs at hr with hcond
    obtain rfl := Option.some.inj hr
    exact ⟨hsplit.1 ⟨hcond.2.1, hshows.sample⟩, hcond.2.2⟩
  · rintro ⟨hsample, hmissed⟩
    obtain ⟨hint, hvalue⟩ := hsplit.2 hsample
    rw [if_pos ⟨by omega, hint, hmissed⟩]
    refine ⟨_, rfl, ⟨Int.natAbs_natCast _, hvalue, Int.natAbs_of_nonneg hmissed, rfl, rfl, rfl⟩⟩

/-- **A line of the aggregator log is read back exactly when its sample has not lost its sign and
its count of missed samples shows none.** -/
theorem aggregateRoundTrip_iff (h : SendableAgg T a) (time : ℕ) :
    AggregateRoundTrip T time a ↔ -1 / 1000 < a.sample ∧ 0 ≤ a.missedSamples := by
  rw [← printedAggRecord_shows_iff h time, AggregateRoundTrip, parseAggregatorLog_stamp h]
  cases printedAggRecord T time a <;> simp

end AggregatorLine

/-- **The log line of an aggregate that node 2 or 3 builds is read back as that aggregate exactly
when its sample is more than `-1/1000` and its count of missed samples is not negative**, in every
run of the network. -/
theorem aggregate_round_trip (rand : SourceNode → ℕ → ℕ) (T : Target) (steps : List NetStep)
    (n : AggNode) (time : ℕ) :
    ∀ a ∈ flushedAggs ((netRun rand T steps).agg n).history,
      AggregateRoundTrip T time a ↔ -1 / 1000 < a.sample ∧ 0 ≤ a.missedSamples := by
  intro a ha
  exact aggregateRoundTrip_iff ((linked_run rand T steps).sendableAgg ha) time

/-- Nodes 4, 5 and 6 send their first messages, and node 2 receives them. -/
def firstBatchRun : List NetStep :=
  [.source .node4 .poll, .source .node4 .event, .source .node5 .poll, .source .node5 .event,
    .source .node6 .poll, .source .node6 .event, .deliver 0, .deliver 0, .deliver 0]

/-- The draws of the sources in that run: a source's first sample is its fourth draw less 10. -/
def fourthDraw (r : ℕ) : SourceNode → ℕ → ℕ := fun _ i => if i = 3 then r else 0

/-- Three samples of 10 are sent. -/
theorem aggregate_round_trip_firstBatchRun :
    ∃ a ∈ flushedAggs ((netRun (fourthDraw 20) .sky firstBatchRun).agg .node2).history,
      AggregateRoundTrip .sky 1234 a := by
  have hagg : ∃ a ∈ flushedAggs ((netRun (fourthDraw 20) .sky firstBatchRun).agg .node2).history,
      -1 / 1000 < a.sample ∧ 0 ≤ a.missedSamples := by decide +kernel
  obtain ⟨a, ha, hcond⟩ := hagg
  exact ⟨a, ha,
    (aggregate_round_trip (fourthDraw 20) .sky firstBatchRun .node2 1234 a ha).2 hcond⟩

/-- Three samples of -10 are sent. They make an aggregate of -10, and no record is made of its
line. -/
theorem aggregate_round_trip_fails :
    ¬ ∀ (rand : SourceNode → ℕ → ℕ) (T : Target) (steps : List NetStep) (n : AggNode) (time : ℕ),
      ∀ a ∈ flushedAggs ((netRun rand T steps).agg n).history, AggregateRoundTrip T time a := by
  intro h
  have hagg : ∃ a ∈ flushedAggs ((netRun (fourthDraw 0) .sky firstBatchRun).agg .node2).history,
      ¬ -1 / 1000 < a.sample := by decide +kernel
  obtain ⟨a, ha, hneg⟩ := hagg
  have hsendable := (linked_run (fourthDraw 0) .sky firstBatchRun).sendableAgg ha
  have htrip := h (fourthDraw 0) .sky firstBatchRun .node2 1234 a ha
  exact hneg ((aggregateRoundTrip_iff hsendable 1234).1 htrip).1

end WsnAggregation
