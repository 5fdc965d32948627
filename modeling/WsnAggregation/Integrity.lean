import WsnAggregation.Freshness
import WsnAggregation.Network

/-!
# Relay integrity

What the chain 3 → 2 → 1 makes of what the sources send, under every order of steps and over a
network that may lose and reorder datagrams.

Nothing is delivered to a mote more often than it was sent there (`Linked.received_le`). An
aggregate is sent to node 1 by node 2 only and to node 2 by node 3 only; a source message is sent
by its source only. Following the aggregates printed by node 1 back along the chain leads to the
flushes of nodes 2 and 3, each at most once.
-/

namespace WsnAggregation

open Contiki Lib

/-! ## What is sent to a mote -/

/-- The part of a datagram that `f` selects, if it is addressed to the mote. -/
def sentTo {β : Type} (n : AggNode) (f : Payload → Option β) (p : Ipaddr × Payload) : Option β :=
  if p.1 = linkLocal n.nodeId then f p.2 else none

theorem sum_aggNode {M : Type} [AddCommMonoid M] (f : AggNode → M) :
    ∑ n, f n = f .node1 + f .node2 + f .node3 := by
  rw [show (Finset.univ : Finset AggNode) = {.node1, .node2, .node3} from rfl,
    Finset.sum_insert (by decide), Finset.sum_insert (by decide), Finset.sum_singleton, add_assoc]

section Sent

variable {rand : SourceNode → ℕ → ℕ} {T : Target} {net : Network}

theorem Linked.received_le {β : Type} (h : Linked rand T net) (n : AggNode)
    (f : Payload → Option β) :
    ((received (net.agg n).history).filterMap f : Multiset β) ≤ net.sent.filterMap (sentTo n f) := by
  have hone : ((received (net.agg n).history).map fun d => (linkLocal n.nodeId, d) :
      Multiset (Ipaddr × Payload)) ≤ net.delivered :=
    Finset.single_le_sum (f := fun n : AggNode =>
      ((received (net.agg n).history).map fun d => (linkLocal n.nodeId, d) :
        Multiset (Ipaddr × Payload))) (fun _ _ => zero_le) (Finset.mem_univ n)
  have hle := Multiset.filterMap_le_filterMap (sentTo n f) (hone.trans h.conserved.delivered_le)
  rw [Multiset.filterMap_coe, List.filterMap_map] at hle
  have hsame : (sentTo n f ∘ fun d => (linkLocal n.nodeId, d)) = f := by
    funext d
    exact if_pos rfl
  rw [hsame] at hle
  exact hle

theorem Network.filterMap_sent {β : Type} (net : Network) (f : Ipaddr × Payload → Option β) :
    net.sent.filterMap f =
      (∑ n, ((sentDatagrams (net.agg n).history).filterMap f : Multiset β)) +
        ∑ s, ((messageDatagrams (net.source s).history).filterMap f : Multiset β) := by
  rw [Network.sent, Multiset.filterMap_add, filterMap_sum, filterMap_sum]
  rfl

end Sent

/-! ## Nodes 2 and 3 -/

theorem AggNode.aggregates_or (n : AggNode) : n = .node1 ∨ Aggregates n.nodeId := by
  cases n with
  | node1 => exact Or.inl rfl
  | node2 => exact Or.inr (Or.inl rfl)
  | node3 => exact Or.inr (Or.inr rfl)

section Motes

variable {rand : SourceNode → ℕ → ℕ} {T : Target} {net : Network} (h : Linked rand T net)
include h

theorem Linked.good {n : AggNode} (hid : Aggregates n.nodeId) : Good T n.nodeId (net.agg n) := by
  obtain ⟨steps, hrun⟩ := h.agg n
  rw [hrun]
  exact good_run T hid steps

theorem Linked.forwards {n : AggNode} (hid : Aggregates n.nodeId) :
    Forwards n.nodeId (net.agg n).history := by
  obtain ⟨steps, hrun⟩ := h.agg n
  rw [hrun]
  exact forwards_run T hid steps

theorem Linked.drains : Drains (net.agg .node1).history := by
  obtain ⟨steps, hrun⟩ := h.agg .node1
  rw [hrun]
  exact drains_run T steps

theorem Linked.nodeMap (n : AggNode) : (net.agg n).app.nodeMap = nodeMapOf n.nodeId := by
  rcases n.aggregates_or with rfl | hid
  · obtain ⟨steps, hrun⟩ := h.agg .node1
    rw [hrun, show AggNode.node1.nodeId = 1 from rfl, (idle_run T steps).app]
    rfl
  · exact (h.good hid).tracks.nodeMap

theorem Linked.sound (s : SourceNode) :
    Sound T s.nodeId (net.source s).app (net.source s).history := by
  obtain ⟨steps, hrun⟩ := h.source s
  rw [hrun]
  exact sound_run (rand s) T s.nodeId steps

/-! ## Aggregates -/

/-- The aggregates node 2 or 3 sends to a mote: those it built or received, if that is its next
hop, and none otherwise. -/
theorem Linked.aggs_sent {n : AggNode} (hid : Aggregates n.nodeId) (dst : AggNode) :
    ((sentDatagrams (net.agg n).history).filterMap (sentTo dst Payload.messageAgg?) :
      Multiset MessageAgg) =
      if linkLocal (n.nodeId - 1) = linkLocal dst.nodeId then
        (flushedAggs (net.agg n).history : Multiset MessageAgg) + receivedAggs (net.agg n).history
      else 0 := by
  have hsent := congrArg (Multiset.filterMap (sentTo dst Payload.messageAgg?)) (h.forwards hid).sent
  rw [Multiset.filterMap_coe, Multiset.filterMap_map] at hsent
  rw [hsent]
  split_ifs with hdst
  · have hsome : (sentTo dst Payload.messageAgg? ∘ fun a : MessageAgg =>
        (linkLocal (n.nodeId - 1), Payload.messageAgg a)) = some := by
      funext a
      exact if_pos hdst
    rw [hsome, Multiset.filterMap_some]
  · have hnone : (sentTo dst Payload.messageAgg? ∘ fun a : MessageAgg =>
        (linkLocal (n.nodeId - 1), Payload.messageAgg a)) = fun _ => none := by
      funext a
      exact if_neg hdst
    rw [hnone]
    exact Multiset.eq_zero_of_forall_notMem fun a ha => by simp at ha

theorem Linked.receivedAggs_le (dst : AggNode) :
    (receivedAggs (net.agg dst).history : Multiset MessageAgg) ≤
      ((sentDatagrams (net.agg .node2).history).filterMap (sentTo dst Payload.messageAgg?) +
        (sentDatagrams (net.agg .node3).history).filterMap (sentTo dst Payload.messageAgg?) :
        Multiset MessageAgg) := by
  have hle := h.received_le dst Payload.messageAgg?
  have hsources : ∑ s, ((messageDatagrams (net.source s).history).filterMap
      (sentTo dst Payload.messageAgg?) : Multiset MessageAgg) = 0 := by
    refine Finset.sum_eq_zero fun s _ => ?_
    rw [messageDatagrams, List.filterMap_map]
    have hnone : (sentTo dst Payload.messageAgg? ∘ fun p : Ipaddr × Message =>
        (p.1, Payload.message p.2)) = fun _ => none := by
      funext p
      exact ite_self none
    rw [hnone, List.filterMap_none]
    rfl
  rw [net.filterMap_sent, hsources, add_zero, sum_aggNode, h.drains.sent, List.filterMap_nil,
    Multiset.coe_nil, zero_add] at hle
  exact hle

theorem Linked.receivedAggs_node3 : receivedAggs (net.agg .node3).history = [] := by
  have hle := h.receivedAggs_le .node3
  rw [h.aggs_sent (n := .node2) (Or.inl rfl), h.aggs_sent (n := .node3) (Or.inr rfl),
    if_neg (by decide), if_neg (by decide), add_zero] at hle
  exact (Multiset.coe_eq_zero _).1 (Multiset.le_zero.1 hle)

/-- What a mote of the chain receives was built by node 2 or by node 3, and arrives at most once
for each flush. -/
theorem Linked.receivedAggs_le_flushed (n : AggNode) :
    (receivedAggs (net.agg n).history : Multiset MessageAgg) ≤
      (flushedAggs (net.agg .node2).history : Multiset MessageAgg) +
        flushedAggs (net.agg .node3).history := by
  have h1 := h.receivedAggs_le .node1
  have h2 := h.receivedAggs_le .node2
  rw [h.aggs_sent (n := .node2) (Or.inl rfl), h.aggs_sent (n := .node3) (Or.inr rfl)] at h1 h2
  rw [if_pos (by decide), if_neg (by decide), add_zero] at h1
  rw [if_neg (by decide), if_pos (by decide), zero_add, h.receivedAggs_node3, Multiset.coe_nil,
    add_zero] at h2
  cases n with
  | node1 => exact h1.trans (add_le_add_right h2 _)
  | node2 => exact h2.trans (Multiset.le_add_left _ _)
  | node3 =>
    rw [h.receivedAggs_node3]
    exact zero_le

/-! ## Messages -/

/-- The messages a source has sent. -/
def Network.sentBy (net : Network) (s : SourceNode) : List Message :=
  (sentMessages (net.source s).history).map Prod.snd

theorem Linked.accounted_le (n : AggNode) :
    (accounted (net.agg n).history : Multiset Message) ≤
      ∑ s with ∃ i, (net.agg n).app.nodeMap i = s.nodeId, (net.sentBy s : Multiset Message) := by
  rcases n.aggregates_or with rfl | hid
  · rw [h.drains.accounted]
    exact zero_le
  have hle := h.received_le n (Payload.messageFrom? (nodeMapOf n.nodeId))
  rw [← receivedFrom_eq, ← (h.good hid).tracks.accounted, net.filterMap_sent] at hle
  have haggs : ∑ n', ((sentDatagrams (net.agg n').history).filterMap
      (sentTo n (Payload.messageFrom? (nodeMapOf n.nodeId))) : Multiset Message) = 0 := by
    refine Finset.sum_eq_zero fun n' _ => ?_
    rcases n'.aggregates_or with rfl | hid'
    · rw [h.drains.sent]
      rfl
    · have hsent := congrArg (Multiset.filterMap
        (sentTo n (Payload.messageFrom? (nodeMapOf n.nodeId)))) (h.forwards hid').sent
      rw [Multiset.filterMap_coe, Multiset.filterMap_map] at hsent
      have hnone : (sentTo n (Payload.messageFrom? (nodeMapOf n.nodeId)) ∘ fun a : MessageAgg =>
          (linkLocal (n'.nodeId - 1), Payload.messageAgg a)) = fun _ => none := by
        funext a
        exact ite_self none
      rw [hsent, hnone]
      exact Multiset.eq_zero_of_forall_notMem fun a ha => by simp at ha
  rw [haggs, zero_add] at hle
  refine hle.trans ?_
  rw [h.nodeMap n, Finset.sum_filter]
  refine Finset.sum_le_sum fun s _ => ?_
  rw [messageDatagrams, List.filterMap_map]
  split_ifs with hmap
  · refine Multiset.coe_le.2 (filterMap_sublist_map fun p hp => ?_).subperm
    simp only [Function.comp, sentTo, Payload.messageFrom?]
    split_ifs <;> simp
  · -- The node id in a message is that of its sender.
    have hnone : (sentMessages (net.source s).history).filterMap
        (sentTo n (Payload.messageFrom? (nodeMapOf n.nodeId)) ∘ fun p => (p.1, .message p.2)) =
        [] := by
      rw [List.filterMap_eq_nil_iff]
      intro p hp
      have hnode := ((h.sound s).sendable p hp).2.nodeId_eq
      simp only [Function.comp, sentTo, Payload.messageFrom?, hnode, if_neg hmap, ite_self]
    rw [hnone]
    rfl

end Motes

/-! ## Integrity -/

/-- The chain alters nothing, adds nothing and repeats nothing. -/
structure RelayIntegrity (T : Target) (net : Network) : Prop where
  /-- What node 1 prints was built in a flush of node 2 or 3, and is printed at most once for
  each flush. -/
  printed : (printedAggs (net.agg .node1).history : Multiset MessageAgg) ≤
    (flushedAggs (net.agg .node2).history : Multiset MessageAgg) +
      flushedAggs (net.agg .node3).history
  /-- An aggregate carries the id of the node that built it, and lists nodes of its map. -/
  flushed : ∀ n, ∀ a ∈ flushedAggs (net.agg n).history, a.nodeId = n.nodeId ∧
    ∀ i, a.nodeIdsInMsg i = 0 ∨ a.nodeIdsInMsg i = (net.agg n).app.nodeMap i
  /-- Every source is in the map of one mote. -/
  mapped : ∀ s : SourceNode, ∃! n, ∃ i, (net.agg n).app.nodeMap i = s.nodeId
  /-- A mote stores or counts messages of the sources of its map, each at most as often as it was
  sent. -/
  accounted : ∀ n, (accounted (net.agg n).history : Multiset Message) ≤
    ∑ s with ∃ i, (net.agg n).app.nodeMap i = s.nodeId, (net.sentBy s : Multiset Message)
  /-- What the motes of the chain send are aggregates built in flushes, never messages. -/
  sent : ∀ n, ∀ p ∈ sentDatagrams (net.agg n).history, ∃ a,
    p.2 = .messageAgg a ∧ (a ∈ flushedAggs (net.agg .node2).history ∨
      a ∈ flushedAggs (net.agg .node3).history)
  /-- An aggregate that arrives at node 2 leaves its batch alone, or closes it as it stands once
  its timer has expired. -/
  relayed : ∀ a, Relayed T 2 (net.agg .node2) a (receive T 2 (.messageAgg a) (net.agg .node2))

theorem mem_flushedAggs {h : History} {a : MessageAgg} :
    a ∈ flushedAggs h ↔ ∃ past t count future, h = past ++ (t, .flushed count a) :: future := by
  rw [flushedAggs, List.mem_filterMap]
  constructor
  · rintro ⟨⟨t, e⟩, he, ha⟩
    cases e with
    | flushed count a' =>
      cases ha
      obtain ⟨past, future, heq⟩ := List.append_of_mem he
      exact ⟨past, t, count, future, heq⟩
    | _ => cases ha
  · rintro ⟨past, t, count, future, rfl⟩
    exact ⟨(t, .flushed count a), by simp, rfl⟩

section Flushes

variable {rand : SourceNode → ℕ → ℕ} {T : Target} {net : Network} (h : Linked rand T net)
include h

/-- The memory an aggregate was built from. -/
theorem Linked.flush_at {n : AggNode} {past future : History} {t count : ℕ} {a : MessageAgg}
    (heq : (net.agg n).history = past ++ (t, .flushed count a) :: future) :
    Aggregates n.nodeId ∧ ∃ app, Tracks n.nodeId app past ∧ 0 < app.messageCount ∧
      a = aggMessage T n.nodeId app := by
  rcases n.aggregates_or with rfl | hid
  · have hnone := h.drains.flushed
    rw [heq, flushedAggs_append] at hnone
    simp [flushedAggs] at hnone
  · obtain ⟨app, ht, rfl, hbuilt, hpos, -⟩ := (h.good hid).flushes past _ future heq count a rfl
    exact ⟨hid, app, ht, hpos, hbuilt⟩

theorem Linked.flushed_fields {n : AggNode} {a : MessageAgg}
    (ha : a ∈ flushedAggs (net.agg n).history) : a.nodeId = n.nodeId ∧
      ∀ i, a.nodeIdsInMsg i = 0 ∨ a.nodeIdsInMsg i = (net.agg n).app.nodeMap i := by
  obtain ⟨past, t, count, future, heq⟩ := mem_flushedAggs.1 ha
  obtain ⟨-, app, ht, -, rfl⟩ := h.flush_at heq
  refine ⟨rfl, fun i => ?_⟩
  rw [h.nodeMap n]
  simp only [aggMessage]
  split_ifs
  · refine (ht.arrayNode i).imp (fun h0 => ?_) id
    rw [h0]
  · exact Or.inl rfl

theorem Linked.printed_flushed {a : MessageAgg} (ha : a ∈ printedAggs (net.agg .node1).history) :
    ∃ n, a ∈ flushedAggs (net.agg n).history := by
  rw [h.drains.printed] at ha
  rcases Multiset.mem_add.1 (Multiset.mem_of_le (h.receivedAggs_le_flushed .node1) ha) with ha | ha
  · exact ⟨.node2, ha⟩
  · exact ⟨.node3, ha⟩

theorem Linked.sentBy_sendable {s : SourceNode} {m : Message} (hm : m ∈ net.sentBy s) :
    Sendable T s.nodeId m := by
  obtain ⟨p, hp, rfl⟩ := List.mem_map.1 hm
  exact ((h.sound s).sendable p hp).2

/-- What a mote stored or counted was sent by a source. -/
theorem Linked.accounted_sent {n : AggNode} {m : Message}
    (hm : m ∈ accounted (net.agg n).history) : ∃ s, m ∈ net.sentBy s := by
  have hmem := Multiset.mem_of_le (h.accounted_le n) (Multiset.mem_coe.2 hm)
  obtain ⟨s, -, hs⟩ := Multiset.mem_sum.1 hmem
  exact ⟨s, Multiset.mem_coe.1 hs⟩

theorem Linked.slot_sent {n : AggNode} {past future : History} {app : Aggregator}
    (heq : (net.agg n).history = past ++ future) (ht : Tracks n.nodeId app past)
    (i : Fin numNodes) : app.messageArray i = {} ∨ ∃ s, app.messageArray i ∈ net.sentBy s := by
  rw [ht.array i]
  refine (lastStored_mem (nodeMapOf n.nodeId i) past).imp id fun hmem => ?_
  refine h.accounted_sent (n := n) ?_
  rw [heq, accounted, List.filterMap_append]
  exact List.mem_append_left _ hmem

theorem Linked.slot_weight_pos {n : AggNode} {past future : History} {app : Aggregator}
    (heq : (net.agg n).history = past ++ future) (ht : Tracks n.nodeId app past)
    (i : Fin numNodes) : 0 < (app.messageArray i).weight := by
  refine weightOf_pos ?_
  rcases h.slot_sent heq ht i with h0 | ⟨s, hs⟩
  · rw [h0]
  · exact (h.sentBy_sendable hs).variance_nonneg

theorem Linked.openBatch_sent {n : AggNode} {past future : History} {app : Aggregator}
    (hid : Aggregates n.nodeId) (heq : (net.agg n).history = past ++ future)
    (ht : Tracks n.nodeId app past) {m : Message} (hm : m ∈ openBatch past) :
    ∃ s, m ∈ net.sentBy s := by
  obtain ⟨i, hi, rfl⟩ := ht.mem_openBatch.1 hm
  refine (h.slot_sent heq ht i).resolve_left fun h0 => ?_
  have hnode := ht.nodeId_of_filled hi
  rw [h0] at hnode
  exact hid.nodeMap_ne_zero i hnode.symm

/-- The value of an aggregate lies between bounds of zero and of the samples sent. -/
theorem Linked.sample_bounds (lo hi : ℤ) (hlo : lo ≤ 0) (hhi : 0 ≤ hi)
    (hsent : ∀ s, ∀ m ∈ net.sentBy s, lo ≤ m.sample ∧ m.sample ≤ hi) {n : AggNode}
    {a : MessageAgg} (ha : a ∈ flushedAggs (net.agg n).history) :
    (lo : ℚ) ≤ a.sample ∧ a.sample ≤ hi := by
  obtain ⟨past, t, count, future, heq⟩ := mem_flushedAggs.1 ha
  obtain ⟨-, app, ht, -, rfl⟩ := h.flush_at heq
  have hslot : ∀ m ∈ Finset.univ.val.map app.messageArray,
      0 < m.weight ∧ (lo : ℚ) ≤ m.value ∧ m.value ≤ hi := by
    intro m hm
    obtain ⟨i, -, rfl⟩ := Multiset.mem_map.1 hm
    refine ⟨h.slot_weight_pos heq ht i, ?_⟩
    rcases h.slot_sent heq ht i with h0 | ⟨s, hs⟩
    · rw [h0]
      exact ⟨Int.cast_le.2 hlo, Int.cast_le.2 hhi⟩
    · obtain ⟨hge, hle⟩ := hsent s _ hs
      exact ⟨Int.cast_le.2 hge, Int.cast_le.2 hle⟩
  have hne : Finset.univ.val.map app.messageArray ≠ 0 := by
    rw [Ne, Multiset.map_eq_zero]
    decide
  rw [sample_aggMessage]
  exact ⟨le_weightedMean (fun m hm => (hslot m hm).1) hne fun m hm => (hslot m hm).2.1,
    weightedMean_le (fun m hm => (hslot m hm).1) hne fun m hm => (hslot m hm).2.2⟩

/-- In the network the value sent is the mean of the batch exactly when every source is in it or
the stale slots have the same mean: a source sends no negative variance. -/
theorem Linked.fresh_iff {n : AggNode} {past future : History} {t count : ℕ} {a : MessageAgg}
    (heq : (net.agg n).history = past ++ (t, .flushed count a) :: future) :
    Fresh past a ↔
      Full n.nodeId past ∨ meanOf (stale n.nodeId past) = meanOf (openBatch past) := by
  obtain ⟨hid, app, ht, hpos, rfl⟩ := h.flush_at heq
  exact ht.fresh_iff hid T hpos (h.slot_weight_pos heq ht)

end Flushes

/-- **Relay integrity holds in every state of every run**, whatever is lost and in whatever order
datagrams arrive. -/
theorem relay_integrity (rand : SourceNode → ℕ → ℕ) (T : Target) (steps : List NetStep) :
    RelayIntegrity T (netRun rand T steps) := by
  have h := linked_run rand T steps
  refine {
    printed := by rw [h.drains.printed]; exact h.receivedAggs_le_flushed .node1
    flushed := fun n a ha => h.flushed_fields ha
    mapped := fun s => ?_
    accounted := h.accounted_le
    sent := fun n p hp => ?_
    relayed := fun a => relayed_receive (Or.inl rfl) (h.good (n := .node2) (Or.inl rfl)) a }
  · simp only [h.nodeMap]
    change ∃ n : AggNode, (∃ i, nodeMapOf n.nodeId i = s.nodeId) ∧
      ∀ n' : AggNode, (∃ i, nodeMapOf n'.nodeId i = s.nodeId) → n' = n
    revert s
    decide
  · rcases n.aggregates_or with rfl | hid
    · rw [h.drains.sent] at hp
      cases hp
    · rw [← Multiset.mem_coe, (h.forwards hid).sent, Multiset.mem_map] at hp
      obtain ⟨a, ha, rfl⟩ := hp
      refine ⟨a, rfl, ?_⟩
      rcases Multiset.mem_add.1 ha with ha | ha
      · cases n with
        | node1 => exact absurd hid (by decide)
        | node2 => exact Or.inl ha
        | node3 => exact Or.inr ha
      · exact Multiset.mem_add.1 (Multiset.mem_of_le (h.receivedAggs_le_flushed n) ha)

end WsnAggregation
