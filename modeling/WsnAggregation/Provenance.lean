import Mathlib.Data.Fintype.Fin
import WsnAggregation.AggregatorRun

/-!
# Which messages an aggregate lists

An aggregate names the messages it was made from by `(node id, message id)` pairs. The loop that
writes the pairs runs over the first `message_count` slots, not over the slots that were filled.

* `Provenance` — the pairs listed are those of the batch.
* `PrefixFilled` — the slots that were filled come first.
* `provenance` — at every flush, the first holds exactly when the second does.
-/

namespace WsnAggregation

open Contiki Lib

/-! ## Pairs -/

/-- What identifies a message. -/
def Message.pair (m : Message) : ℕ × ℕ := (m.nodeId, m.msgId)

/-- The pairs an aggregate lists; a position that lists nothing holds `(0, 0)`. -/
def MessageAgg.pairs (a : MessageAgg) : List (ℕ × ℕ) :=
  (List.ofFn fun i => (a.nodeIdsInMsg i, a.msgIdsInMsg i)).filter (· ≠ (0, 0))

/-- The aggregate lists each message of the batch closed after `past` once, and nothing else. -/
def Provenance (past : History) (a : MessageAgg) : Prop :=
  a.pairs.Perm ((openBatch past).map Message.pair)

instance (past : History) (a : MessageAgg) : Decidable (Provenance past a) := by
  unfold Provenance; infer_instance

/-- A slot is filled only if all slots before it are. -/
def PrefixFilled (nodeId : ℕ) (past : History) : Prop :=
  ∀ i j : Fin numNodes, i < j → InBatch past (nodeMapOf nodeId j) → InBatch past (nodeMapOf nodeId i)

instance (nodeId : ℕ) (past : History) : Decidable (PrefixFilled nodeId past) := by
  unfold PrefixFilled; infer_instance

/-! ## Initial segments -/

/-- A set of indices is an initial segment when it has no index beyond its size. -/
theorem initial_iff_lt_card {n : ℕ} (s : Finset (Fin n)) :
    (∀ i j, i < j → j ∈ s → i ∈ s) ↔ ∀ j ∈ s, (j : ℕ) < s.card := by
  constructor
  · intro h j hj
    have hsub : Finset.Iic j ⊆ s := by
      intro i hi
      rcases (Finset.mem_Iic.1 hi).lt_or_eq with hlt | rfl
      · exact h i j hlt hj
      · exact hj
    have hcard := Finset.card_le_card hsub
    rw [Fin.card_Iic] at hcard
    omega
  · intro h i j hij hj
    have hsub : s ⊆ Finset.univ.filter fun k : Fin n => (k : ℕ) < s.card := fun k hk =>
      Finset.mem_filter.2 ⟨Finset.mem_univ k, h k hk⟩
    have hle : s.card ≤ n := by simpa using Finset.card_le_univ s
    have heq := Finset.eq_of_subset_of_card_le hsub (by rw [Fin.card_filter_val_lt]; omega)
    rw [heq, Finset.mem_filter]
    exact ⟨Finset.mem_univ i, (show (i : ℕ) < j from hij).trans (h j hj)⟩

/-! ## What a snapshot lists -/

section Snapshot

variable {nodeId : ℕ} {a : Aggregator} {past : History}

theorem Tracks.prefixFilled_iff (ht : Tracks nodeId a past) (hid : Aggregates nodeId) :
    PrefixFilled nodeId past ↔ ∀ j ∈ a.filled, (j : ℕ) < a.messageCount := by
  simp only [PrefixFilled, ht.inBatch_iff hid]
  rw [initial_iff_lt_card, ht.count]

/-- The pairs of the aggregate are those of the first `message_count` slots. -/
theorem coe_pairs_aggMessage (T : Target) (nodeId : ℕ) (a : Aggregator) :
    ((aggMessage T nodeId a).pairs : Multiset (ℕ × ℕ)) =
      ((Finset.univ.filter fun i : Fin numNodes => (i : ℕ) < a.messageCount).val.map
        fun i => (a.messageArray i).pair).filter (· ≠ (0, 0)) := by
  have hpair : (fun i : Fin 3 => ((aggMessage T nodeId a).nodeIdsInMsg i,
      (aggMessage T nodeId a).msgIdsInMsg i)) =
      fun i : Fin 3 => if (i : ℕ) < a.messageCount then (a.messageArray i).pair else (0, 0) := by
    funext i
    by_cases hi : (i : ℕ) < a.messageCount <;> simp [aggMessage, hi, Message.pair]
  rw [MessageAgg.pairs, hpair, ← Multiset.filter_coe, ← Fin.univ_val_map, Multiset.filter_map,
    Multiset.filter_map, Finset.filter_val, Multiset.filter_filter]
  have hsame : Multiset.filter ((· ≠ (0, 0)) ∘ fun i : Fin 3 =>
      if (i : ℕ) < a.messageCount then (a.messageArray i).pair else (0, 0)) Finset.univ.val =
      Multiset.filter (fun i : Fin 3 => ((· ≠ (0, 0)) ∘ fun i => (a.messageArray i).pair) i ∧
        (i : ℕ) < a.messageCount) Finset.univ.val := by
    refine Multiset.filter_congr fun i _ => ?_
    by_cases hi : (i : ℕ) < a.messageCount <;> simp [hi]
  rw [hsame]
  refine Multiset.map_congr rfl fun i hi => ?_
  exact if_pos (Multiset.mem_filter.1 hi).2.2

/-- A message of a filled slot is listed only if its slot is among the first `message_count`. -/
theorem Tracks.lt_of_mem_pairs (ht : Tracks nodeId a past) (hid : Aggregates nodeId) (T : Target)
    {j : Fin numNodes} (hj : a.nodesRecieved j = true)
    (hmem : (a.messageArray j).pair ∈ (aggMessage T nodeId a).pairs) :
    (j : ℕ) < a.messageCount := by
  rw [← Multiset.mem_coe, coe_pairs_aggMessage, Multiset.mem_filter, Multiset.mem_map] at hmem
  obtain ⟨⟨i, hi, heq⟩, -⟩ := hmem
  have hlt : (i : ℕ) < a.messageCount := by simpa using hi
  have hnode : (a.messageArray i).nodeId = nodeMapOf nodeId j := by
    rw [← ht.nodeId_of_filled hj]
    exact congrArg Prod.fst heq
  rcases ht.arrayNode i with hzero | hmap
  · rw [hzero] at hnode
    exact absurd hnode.symm (hid.nodeMap_ne_zero j)
  · rwa [hid.injective (hmap.symm.trans hnode)] at hlt

/-- If the filled slots come first, they are the ones listed. -/
theorem Tracks.pairs_perm (ht : Tracks nodeId a past) (hid : Aggregates nodeId) (T : Target)
    (h : ∀ j ∈ a.filled, (j : ℕ) < a.messageCount) : Provenance past (aggMessage T nodeId a) := by
  have hfilled : a.filled =
      Finset.univ.filter fun i : Fin numNodes => (i : ℕ) < a.messageCount := by
    refine Finset.eq_of_subset_of_card_le (fun j hj => by simpa using h j hj) ?_
    rw [Fin.card_filter_val_lt, ht.count]
    exact min_le_right _ _
  rw [Provenance, ← Multiset.coe_eq_coe, coe_pairs_aggMessage, ← hfilled, ← Multiset.map_coe,
    ht.batch, Multiset.map_map]
  refine Multiset.filter_eq_self.2 fun p hp => ?_
  obtain ⟨i, hi, rfl⟩ := Multiset.mem_map.1 hp
  have hnode := ht.nodeId_of_filled (Aggregator.mem_filled.1 hi)
  intro hzero
  exact hid.nodeMap_ne_zero i (hnode.symm.trans (congrArg Prod.fst hzero))

theorem Tracks.provenance_iff (ht : Tracks nodeId a past) (hid : Aggregates nodeId) (T : Target) :
    Provenance past (aggMessage T nodeId a) ↔ PrefixFilled nodeId past := by
  rw [ht.prefixFilled_iff hid]
  constructor
  · intro hprov j hj
    have hj' := Aggregator.mem_filled.1 hj
    refine ht.lt_of_mem_pairs hid T hj' (hprov.symm.subset ?_)
    exact List.mem_map_of_mem (ht.mem_openBatch.2 ⟨j, hj', rfl⟩)
  · exact ht.pairs_perm hid T

end Snapshot

/-! ## Every flush of every run -/

/-- **At every flush of nodes 2 and 3 the aggregate lists the messages of its batch exactly when
the slots that were filled come first.** -/
theorem provenance (T : Target) {nodeId : ℕ} (hid : Aggregates nodeId) (steps : List AggStep) :
    EachWithPast (fun past e => ∀ count agg, e.2 = .flushed count agg →
      (Provenance past agg ↔ PrefixFilled nodeId past)) (aggRun T nodeId steps).history := by
  refine (good_run T hid steps).flushes.mono fun past e hsnap count agg he => ?_
  obtain ⟨a, ht, -, rfl, -⟩ := hsnap count agg he
  exact ht.provenance_iff hid T

/-- Node 2 hears only from its second source, and the batch times out. -/
def secondSlotRun : List AggStep :=
  [.recv (.message { nodeId := 5, sample := 20, msgId := 1 }),
   .kernel (.tick 640), .kernel .poll, .recv (.other 0)]

/-- The aggregate that node 2 then sends. -/
def secondSlotAgg : MessageAgg := aggMessage .sky 2 (aggRun .sky 2 (secondSlotRun.take 3)).app

theorem secondSlotRun_history : (aggRun .sky 2 secondSlotRun).history =
    [(0, .recv (.message { nodeId := 5, sample := 20, msgId := 1 })),
      (0, .stored { nodeId := 5, sample := 20, msgId := 1 }), (640, .recv (.other 0))] ++
    (640, .flushed 1 secondSlotAgg) :: [(640, .sent (linkLocal 1) (.messageAgg secondSlotAgg))] :=
  rfl

/-- The batch holds the message `(5, 1)` and the aggregate lists nothing. -/
theorem provenance_fails : ¬ ∀ (T : Target) (nodeId : ℕ), Aggregates nodeId →
    ∀ steps : List AggStep, EachWithPast (fun past e => ∀ count agg, e.2 = .flushed count agg →
      Provenance past agg) (aggRun T nodeId steps).history := by
  intro h
  have hflush := h .sky 2 (Or.inl rfl) secondSlotRun _ _ _ secondSlotRun_history 1 _ rfl
  revert hflush
  decide

/-- In the same run the batch holds a message of slot 1 and none of slot 0. -/
theorem provenance_secondSlotRun :
    EachWithPast (fun past e => ∀ count agg, e.2 = .flushed count agg →
      (Provenance past agg ↔ PrefixFilled 2 past)) (aggRun .sky 2 secondSlotRun).history :=
  provenance .sky (Or.inl rfl) secondSlotRun

end WsnAggregation
