import WsnAggregation.Accounting
import WsnAggregation.Lib.WeightedMean

/-!
# What an aggregate is the mean of

`aggregate_data` reads all slots. A slot that received nothing in the batch still holds the last
message of an earlier batch, or the zero message, and takes part in the mean.

* `sample_aggMessage` — the value sent is the weighted mean of the batch and the stale slots.
* `freshness` — at every flush, the value is the mean of the batch alone exactly when there is no
  stale slot or the stale slots have that same mean.
-/

namespace WsnAggregation

open Contiki Lib

/-! ## The mean of messages -/

namespace Message

/-- The weight of a message. -/
def weight (m : Message) : ℚ := weightOf m.variance

/-- The value of a message. -/
def value (m : Message) : ℚ := m.sample

end Message

/-- The inverse-variance weighted mean of a collection of messages. -/
def meanOf (s : Multiset Message) : ℚ := weightedMean Message.weight Message.value s

theorem weightOf_pos {variance : ℚ} (h : 0 ≤ variance) : 0 < weightOf variance := by
  unfold weightOf
  split_ifs with h0
  · exact one_pos
  · exact one_div_pos.2 (lt_of_le_of_ne h (Ne.symm h0))

/-- The loop of `aggregate_data` accumulates the two sums. -/
theorem foldl_aggregate {n : ℕ} (variances samples : Fin n → ℚ) (l : List (Fin n)) (x y : ℚ) :
    l.foldl (fun (acc : ℚ × ℚ) i =>
        (acc.1 + weightOf (variances i) * samples i, acc.2 + weightOf (variances i))) (x, y) =
      (x + weightedSum (fun i => weightOf (variances i)) samples l,
        y + totalWeight (fun i => weightOf (variances i)) l) := by
  induction l generalizing x y with
  | nil => simp [weightedSum, totalWeight]
  | cons i l ih =>
    rw [List.foldl_cons, ih]
    simp [weightedSum, totalWeight, add_assoc]

theorem aggregateData_eq {n : ℕ} (variances samples : Fin n → ℚ) :
    aggregateData variances samples =
      weightedMean (fun i => weightOf (variances i)) samples (Finset.univ.val : Multiset (Fin n)) := by
  have hsums := foldl_aggregate variances samples (List.finRange n) 0 0
  rw [zero_add, zero_add] at hsums
  simp only [aggregateData, hsums]
  split_ifs with h
  · rfl
  · rw [not_not] at h
    rw [weightedMean, Fin.univ_def]
    simp [h]

theorem sample_aggMessage (T : Target) (nodeId : ℕ) (a : Aggregator) :
    (aggMessage T nodeId a).sample = meanOf (Finset.univ.val.map a.messageArray) := by
  rw [meanOf, weightedMean_map]
  exact aggregateData_eq _ _

/-! ## Stale slots -/

/-- What the other slots hold: the last message stored from their node in an earlier batch. -/
def stale (nodeId : ℕ) (past : History) : Multiset Message :=
  (Finset.univ.filter fun i => ¬ InBatch past (nodeMapOf nodeId i)).val.map
    fun i => lastStored (nodeMapOf nodeId i) past

/-- The aggregate's value is the mean of the batch. -/
def Fresh (past : History) (a : MessageAgg) : Prop := a.sample = meanOf (openBatch past)

instance (past : History) (a : MessageAgg) : Decidable (Fresh past a) := by
  unfold Fresh; infer_instance

section Snapshot

variable {nodeId : ℕ} {a : Aggregator} {past : History}

/-- The slots hold the batch and the stale messages. -/
theorem Tracks.slots (ht : Tracks nodeId a past) (hid : Aggregates nodeId) :
    Finset.univ.val.map a.messageArray = (openBatch past : Multiset Message) + stale nodeId past := by
  have hstale : stale nodeId past =
      (Finset.univ.val.filter fun i => ¬ a.nodesRecieved i = true).map a.messageArray := by
    simp only [stale, ht.inBatch_iff hid, Aggregator.mem_filled, Finset.filter_val]
    exact Multiset.map_congr rfl fun i _ => (ht.array i).symm
  rw [hstale, ht.batch, Aggregator.filled, Finset.filter_val, ← Multiset.map_add,
    Multiset.filter_add_not]

theorem full_iff_stale (nodeId : ℕ) (past : History) : Full nodeId past ↔ stale nodeId past = 0 := by
  rw [Full, stale, Multiset.map_eq_zero, Finset.val_eq_zero, Finset.filter_eq_empty_iff]
  simp

theorem Tracks.fresh_of_full (ht : Tracks nodeId a past) (hid : Aggregates nodeId) (T : Target)
    (h : Full nodeId past) : Fresh past (aggMessage T nodeId a) := by
  rw [Fresh, sample_aggMessage, ht.slots hid, (full_iff_stale nodeId past).1 h, add_zero]

/-- With positive weights the value is the mean of the batch exactly when the stale slots are
none or have the same mean. -/
theorem Tracks.fresh_iff (ht : Tracks nodeId a past) (hid : Aggregates nodeId) (T : Target)
    (hpos : 0 < a.messageCount) (hw : ∀ i, 0 < (a.messageArray i).weight) :
    Fresh past (aggMessage T nodeId a) ↔
      Full nodeId past ∨ meanOf (stale nodeId past) = meanOf (openBatch past) := by
  have hslots := ht.slots hid
  have hwall : ∀ m ∈ (openBatch past : Multiset Message) + stale nodeId past, 0 < m.weight := by
    rw [← hslots]
    intro m hm
    obtain ⟨i, -, rfl⟩ := Multiset.mem_map.1 hm
    exact hw i
  have hbatch : (openBatch past : Multiset Message) ≠ 0 := by
    intro h0
    have hlen := ht.length_openBatch
    rw [(Multiset.coe_eq_zero _).1 h0, List.length_nil] at hlen
    omega
  rw [Fresh, sample_aggMessage, hslots, full_iff_stale]
  by_cases hstale : stale nodeId past = 0
  · simp [hstale]
  · rw [or_iff_right hstale]
    refine weightedMean_add_eq_iff _ _ (ne_of_gt ?_) (ne_of_gt ?_) (ne_of_gt ?_)
    · exact totalWeight_pos (fun m hm => hwall m (Multiset.mem_add.2 (Or.inl hm))) hbatch
    · exact totalWeight_pos (fun m hm => hwall m (Multiset.mem_add.2 (Or.inr hm))) hstale
    · exact totalWeight_pos hwall fun h0 => hbatch (add_eq_zero.1 h0).1

end Snapshot

/-! ## Where the slots' contents come from -/

theorem lastStored_mem (n : ℕ) (h : History) :
    lastStored n h = {} ∨ lastStored n h ∈ accounted h := by
  induction h using List.reverseRecOn with
  | nil => exact Or.inl rfl
  | append_singleton h x ih =>
    obtain ⟨t, e⟩ := x
    cases e with
    | stored m =>
      by_cases hm : m.nodeId = n
      · exact Or.inr (by simp [lastStored, accounted, hm])
      · refine ih.imp (fun h0 => ?_) (fun hmem => ?_)
        · simpa [lastStored, hm] using h0
        · simpa [lastStored, accounted, hm] using Or.inl hmem
    | missed m =>
      refine ih.imp (fun h0 => ?_) (fun hmem => ?_)
      · simpa [lastStored] using h0
      · simpa [lastStored, accounted] using Or.inl hmem
    | _ => simpa [lastStored, accounted] using ih

theorem Tracks.weight_pos {nodeId : ℕ} {a : Aggregator} {past future : History}
    (ht : Tracks nodeId a past)
    (hv : ∀ m ∈ receivedFrom (nodeMapOf nodeId) (past ++ future), 0 ≤ m.variance)
    (i : Fin numNodes) : 0 < (a.messageArray i).weight := by
  refine weightOf_pos ?_
  rw [ht.array i]
  rcases lastStored_mem (nodeMapOf nodeId i) past with h0 | hmem
  · rw [h0]
  · rw [ht.accounted] at hmem
    refine hv _ ?_
    rw [receivedFrom, List.filterMap_append]
    exact List.mem_append_left _ hmem

/-! ## Every flush of every run -/

/-- **At every flush of nodes 2 and 3 the value sent is the mean of the batch if every source is
in it, and otherwise exactly when the stale slots have the same mean**, given that no source
sends a negative variance. -/
theorem freshness (T : Target) {nodeId : ℕ} (hid : Aggregates nodeId) (steps : List AggStep) :
    EachWithPast (fun past e => ∀ count agg, e.2 = .flushed count agg →
      (Full nodeId past → Fresh past agg) ∧
      ((∀ m ∈ delivered (nodeMapOf nodeId) steps, 0 ≤ m.variance) →
        (Fresh past agg ↔
          Full nodeId past ∨ meanOf (stale nodeId past) = meanOf (openBatch past))))
      (aggRun T nodeId steps).history := by
  intro past e future heq count agg he
  obtain ⟨a, ht, rfl, rfl, hpos, -⟩ := (good_run T hid steps).flushes past e future heq count agg he
  refine ⟨ht.fresh_of_full hid T, fun hv => ?_⟩
  rw [← receivedFrom_run T hid, heq] at hv
  exact ht.fresh_iff hid T hpos (ht.weight_pos hv)

/-- Node 2 completes a batch of samples 20; then only node 4 reports, 80, until the timeout. -/
def staleRun : List AggStep :=
  [.recv (.message { nodeId := 4, sample := 20, msgId := 1 }),
   .recv (.message { nodeId := 5, sample := 20, msgId := 1 }),
   .recv (.message { nodeId := 6, sample := 20, msgId := 1 }),
   .recv (.message { nodeId := 4, sample := 80, msgId := 2 }),
   .kernel (.tick 640), .kernel .poll, .recv (.other 0)]

/-- The value sent when the batch times out. -/
def staleAgg : MessageAgg := aggMessage .sky 2 (aggRun .sky 2 (staleRun.take 6)).app

theorem staleRun_history : (aggRun .sky 2 staleRun).history =
    (aggRun .sky 2 staleRun).history.take 11 ++ (640, .flushed 1 staleAgg) ::
      [(640, .sent (linkLocal 1) (.messageAgg staleAgg))] :=
  rfl

/-- The batch holds one message, of sample 80, and the value sent is 40. -/
theorem freshness_fails : ¬ ∀ (T : Target) (nodeId : ℕ), Aggregates nodeId →
    ∀ steps : List AggStep, EachWithPast (fun past e => ∀ count agg, e.2 = .flushed count agg →
      Fresh past agg) (aggRun T nodeId steps).history := by
  intro h
  have hflush := h .sky 2 (Or.inl rfl) staleRun _ _ _ staleRun_history 1 _ rfl
  revert hflush
  decide +kernel

/-- No variance of that run is negative. -/
theorem freshness_staleRun :
    (∀ m ∈ delivered (nodeMapOf 2) staleRun, 0 ≤ m.variance) ∧
    EachWithPast (fun past e => ∀ count agg, e.2 = .flushed count agg →
      (Full 2 past → Fresh past agg) ∧
      ((∀ m ∈ delivered (nodeMapOf 2) staleRun, 0 ≤ m.variance) →
        (Fresh past agg ↔ Full 2 past ∨ meanOf (stale 2 past) = meanOf (openBatch past))))
      (aggRun .sky 2 staleRun).history :=
  ⟨by decide +kernel, freshness .sky (Or.inl rfl) staleRun⟩

end WsnAggregation
