import WsnAggregation.Offline.Completeness

/-!
# The books of the network

Where everything is that the sources sent and the aggregating nodes built, whatever the order of
the steps and whatever is lost.

* `lost` — the datagrams lost in a run. Together with those in flight and those delivered they are
  the datagrams sent, each once (`tally_run`).
* `Books` — every message is in flight, lost, counted as missed, in a batch that was closed or in
  the open batch; every aggregate is in flight, lost or printed by node 1. `books` proves it of
  every run.
* `settled` — if nothing is lost, then once nothing is in flight every batch that was closed has
  been printed.
-/

namespace WsnAggregation

open Contiki Lib

/-! ## What is lost -/

/-- The datagram that a step loses. -/
def Network.lostIn (net : Network) : NetStep → List (Ipaddr × Payload)
  | .lose k => net.inFlight[k]?.toList
  | _ => []

theorem Network.lostIn_of_ne (net : Network) {l : NetStep} (h : ∀ k, l ≠ .lose k) :
    net.lostIn l = [] := by
  cases l with
  | lose k => exact absurd rfl (h k)
  | _ => rfl

section Lost

variable (rand : SourceNode → ℕ → ℕ) (T : Target)

/-- The datagrams lost in the steps taken from a state on. -/
def lostFrom (net : Network) : List NetStep → List (Ipaddr × Payload)
  | [] => []
  | l :: steps => net.lostIn l ++ lostFrom (netStep rand T net l) steps

/-- The datagrams lost in a run. -/
def lost (steps : List NetStep) : List (Ipaddr × Payload) := lostFrom rand T (netBoot rand T) steps

theorem lostFrom_concat (net : Network) (steps : List NetStep) (l : NetStep) :
    lostFrom rand T net (steps ++ [l]) =
      lostFrom rand T net steps ++ (steps.foldl (netStep rand T) net).lostIn l := by
  induction steps generalizing net with
  | nil => exact List.append_nil _
  | cons l' steps ih =>
    rw [List.cons_append, lostFrom, ih, lostFrom, List.foldl_cons, List.append_assoc]

theorem lost_concat (steps : List NetStep) (l : NetStep) :
    lost rand T (steps ++ [l]) = lost rand T steps ++ (netRun rand T steps).lostIn l :=
  lostFrom_concat rand T _ steps l

theorem lost_eq_nil {steps : List NetStep} (h : ∀ k, NetStep.lose k ∉ steps) :
    lost rand T steps = [] := by
  induction steps using List.reverseRecOn with
  | nil => rfl
  | append_singleton steps l ih =>
    rw [lost_concat, ih fun k hk => h k (List.mem_append_left _ hk), List.nil_append]
    refine Network.lostIn_of_ne _ fun k hl => h k ?_
    rw [hl]
    exact List.mem_append_right _ (List.mem_singleton_self _)

end Lost

section Balance

variable {rand : SourceNode → ℕ → ℕ} {T : Target} {net : Network}

theorem Linked.addressed (h : Linked rand T net) {p : Ipaddr × Payload} (hp : p ∈ net.sent) :
    receiver p.1 ≠ none := by
  rcases Multiset.mem_add.1 hp with hp | hp
  · obtain ⟨n, -, hn⟩ := Multiset.mem_sum.1 hp
    rcases n.aggregates_or with rfl | hid
    · rw [h.drains.sent] at hn
      cases hn
    · rw [(h.forwards hid).sent] at hn
      obtain ⟨a, -, rfl⟩ := Multiset.mem_map.1 hn
      change receiver (linkLocal (n.nodeId - 1)) ≠ none
      cases n with
      | node1 => exact absurd hid (by decide)
      | node2 => decide
      | node3 => decide
  · obtain ⟨s, -, hs⟩ := Multiset.mem_sum.1 hp
    obtain ⟨q, hq, rfl⟩ := List.mem_map.1 (Multiset.mem_coe.1 hs)
    rw [((h.sound s).sendable q hq).1]
    cases s <;> decide

theorem Linked.addressed_inFlight (h : Linked rand T net) {k : ℕ} {p : Ipaddr × Payload}
    (hk : net.inFlight[k]? = some p) : receiver p.1 ≠ none := by
  refine h.addressed (Multiset.mem_of_le ?_ (Multiset.mem_coe.2 (List.mem_of_getElem? hk)))
  exact (Multiset.le_add_right _ _).trans h.conserved

theorem Linked.tally_step (h : Linked rand T net) {lost : List (Ipaddr × Payload)}
    (hb : Tally net.inFlight lost net.delivered net.sent) (l : NetStep) :
    Tally (netStep rand T net l).inFlight ((lost ++ net.lostIn l : List _) : Multiset _)
      (netStep rand T net l).delivered (netStep rand T net l).sent := by
  cases l with
  | elapse d =>
    rw [net.lostIn_of_ne (by simp), List.append_nil]
    exact hb
  | agg n l =>
    obtain ⟨new, hhist, hrecv⟩ := h.aggStep_history n (.kernel l)
    rw [net.lostIn_of_ne (by simp), List.append_nil, netStep, net.delivered_putAgg hhist,
      net.sent_putAgg hhist, net.putAgg_eq hhist, hrecv, AggStep.payload, List.map_nil,
      Multiset.coe_nil, add_zero]
    exact hb.send (sentDatagrams new)
  | source s l =>
    obtain ⟨new, hhist⟩ := source_history (rand s) T s (net.source s) l
    rw [net.lostIn_of_ne (by simp), List.append_nil, netStep, net.sent_putSource hhist,
      net.putSource_eq hhist]
    exact hb.send (messageDatagrams new)
  | lose k =>
    rw [Network.lostIn, netStep]
    cases hk : net.inFlight[k]? with
    | none =>
      rw [List.eraseIdx_of_length_le (List.getElem?_eq_none_iff.1 hk), Option.toList_none,
        List.append_nil]
      exact hb
    | some p =>
      rw [Option.toList_some, ← Multiset.coe_add, Multiset.coe_singleton]
      exact hb.lose hk
  | deliver k =>
    rw [net.lostIn_of_ne (by simp), List.append_nil, netStep]
    cases hk : net.inFlight[k]? with
    | none => exact hb
    | some p =>
      obtain ⟨dst, d⟩ := p
      obtain ⟨n, hn⟩ := Option.ne_none_iff_exists'.1 (h.addressed_inFlight hk)
      obtain ⟨new, hhist, hrecv⟩ := h.aggStep_history n (.recv d)
      dsimp only at hn ⊢
      rw [hn]
      dsimp only
      rw [Network.delivered_putAgg { net with inFlight := net.inFlight.eraseIdx k } hhist,
        Network.sent_putAgg { net with inFlight := net.inFlight.eraseIdx k } hhist,
        Network.putAgg_eq { net with inFlight := net.inFlight.eraseIdx k } hhist, hrecv,
        AggStep.payload, List.map_singleton, Multiset.coe_singleton, receiver_eq_some hn]
      exact (hb.deliver hk).send (sentDatagrams new)

/-- **Every datagram sent is in flight, was lost or was delivered**, in every run. -/
theorem tally_run (rand : SourceNode → ℕ → ℕ) (T : Target) (steps : List NetStep) :
    Tally (netRun rand T steps).inFlight (lost rand T steps) (netRun rand T steps).delivered
      (netRun rand T steps).sent := by
  induction steps using List.reverseRecOn with
  | nil =>
    change Tally [] _ (netBoot rand T).delivered (netBoot rand T).sent
    rw [netBoot_sent, netBoot_delivered]
    exact Tally.init
  | append_singleton steps l ih =>
    rw [netRun_concat, lost_concat]
    exact (linked_run rand T steps).tally_step ih l

end Balance

/-! ## The batches of a history -/

/-- The messages stored, in order. -/
def storedMessages (h : History) : List Message :=
  h.filterMap fun e => match e.2 with
    | .stored m => some m
    | _ => none

/-- The messages counted as missed, in order. -/
def missedMessages (h : History) : List Message :=
  h.filterMap fun e => match e.2 with
    | .missed m => some m
    | _ => none

/-- The messages of all batches that were closed, in order. -/
def closedBatches (h : History) : List Message := (flushes h).flatMap fun f => openBatch f.1

theorem accounted_perm (h : History) :
    (accounted h).Perm (missedMessages h ++ storedMessages h) := by
  induction h with
  | nil => exact .nil
  | cons e h ih =>
    obtain ⟨t, e⟩ := e
    cases e with
    | stored m => exact (ih.cons m).trans List.perm_middle.symm
    | missed m => exact ih.cons m
    | _ => exact ih

theorem flushes_concat (h : History) (t : ℕ) (e : Action) :
    flushes (h ++ [(t, e)]) = flushes h ++ match e with
      | .flushed _ a => [(h, a)]
      | _ => [] := by
  have hconcat := filterMapPast_concat (fun (past : History) e => match e.2 with
    | .flushed _ a => some (past, a)
    | _ => none) h (t, e)
  refine hconcat.trans ?_
  cases e <;> rfl

/-- What was stored was stored in a batch that was closed, or is in the open batch. -/
theorem storedMessages_eq (h : History) : storedMessages h = closedBatches h ++ openBatch h := by
  induction h using List.reverseRecOn with
  | nil => rfl
  | append_singleton h e ih =>
    obtain ⟨t, e⟩ := e
    rw [storedMessages, List.filterMap_append, ← storedMessages, ih, closedBatches, closedBatches,
      flushes_concat, List.flatMap_append, openBatch, observe_append, ← openBatch]
    cases e with
    | stored m => simp
    | flushed count a => simp
    | _ => simp

theorem map_flushes (h : History) : (flushes h).map Prod.snd = flushedAggs h := by
  induction h using List.reverseRecOn with
  | nil => rfl
  | append_singleton h e ih =>
    obtain ⟨t, e⟩ := e
    rw [flushes_concat, List.map_append, ih, flushedAggs_append]
    cases e <;> rfl

/-! ## The fate of a message -/

/-- The message in a datagram, if it carries one of the source. -/
def Payload.messageOf? (s : SourceNode) : Payload → Option Message
  | .message m => if m.nodeId = s.nodeId then some m else none
  | _ => none

/-- The messages of a source among some datagrams. -/
def messagesOf (s : SourceNode) (l : List (Ipaddr × Payload)) : List Message :=
  l.filterMap fun p => p.2.messageOf? s

/-- The aggregates among some datagrams. -/
def aggsOf (l : List (Ipaddr × Payload)) : List MessageAgg :=
  l.filterMap fun p => p.2.messageAgg?

/-- The messages of a list that are from a source. -/
def fromSource (s : SourceNode) (l : List Message) : List Message :=
  l.filter fun m => m.nodeId = s.nodeId

/-- The mote a source sends to. -/
def SourceNode.server : SourceNode → AggNode
  | .node4 | .node5 | .node6 => .node2
  | .node7 | .node8 | .node9 => .node3

theorem AggNode.linkLocal_injective : Function.Injective fun n : AggNode => linkLocal n.nodeId := by
  decide

/-- Where everything is that entered the network. -/
structure Books (net : Network) (lost : List (Ipaddr × Payload)) : Prop where
  /-- Each message is in flight, lost, counted as missed, in a batch that was closed or in the
  open one. -/
  messages : ∀ s, (net.sentBy s : Multiset Message) = messagesOf s net.inFlight +
    messagesOf s lost + fromSource s (missedMessages (net.agg s.server).history) +
    fromSource s (closedBatches (net.agg s.server).history) +
    fromSource s (openBatch (net.agg s.server).history)
  /-- Each aggregate is in flight, lost or printed by node 1. -/
  aggregates : (flushedAggs (net.agg .node2).history : Multiset MessageAgg) +
    flushedAggs (net.agg .node3).history = aggsOf net.inFlight + aggsOf lost +
    printedAggs (net.agg .node1).history

theorem Network.filterMap_delivered {β : Type} (net : Network) (n : AggNode)
    (f : Payload → Option β) :
    Multiset.filterMap (fun p : Ipaddr × Payload => f p.2)
      ((received (net.agg n).history).map fun d => (linkLocal n.nodeId, d)) =
    ((received (net.agg n).history).filterMap f : Multiset β) := by
  rw [Multiset.filterMap_coe, List.filterMap_map]
  rfl

section Fates

variable {rand : SourceNode → ℕ → ℕ} {T : Target} {net : Network} (h : Linked rand T net)
include h

/-- Aggregating nodes send nothing but aggregates. -/
theorem Linked.sum_aggs {β : Type} (f : Ipaddr × Payload → Option β)
    (hf : ∀ dst a, f (dst, .messageAgg a) = none) :
    ∑ n, ((sentDatagrams (net.agg n).history).filterMap f : Multiset β) = 0 := by
  refine Finset.sum_eq_zero fun n _ => ?_
  rcases n.aggregates_or with rfl | hid
  · rw [h.drains.sent]
    rfl
  · rw [← Multiset.filterMap_coe, (h.forwards hid).sent, Multiset.filterMap_map]
    exact Multiset.eq_zero_of_forall_notMem fun b hb => by simp [hf] at hb

theorem Linked.sent_messageOf (s : SourceNode) :
    net.sent.filterMap (fun p => p.2.messageOf? s) = net.sentBy s := by
  rw [net.filterMap_sent, h.sum_aggs _ fun dst a => rfl, zero_add, Finset.sum_eq_single s]
  · rw [messageDatagrams, List.filterMap_map, Network.sentBy, ← List.filterMap_eq_map]
    refine congrArg _ (List.filterMap_congr fun p hp => ?_)
    exact if_pos ((h.sound s).sendable p hp).2.nodeId_eq
  · intro s' _ hs'
    have hnone : (messageDatagrams (net.source s').history).filterMap
        (fun p => p.2.messageOf? s) = [] := by
      rw [messageDatagrams, List.filterMap_map, List.filterMap_eq_nil_iff]
      intro p hp
      refine if_neg fun heq => hs' ?_
      rw [((h.sound s').sendable p hp).2.nodeId_eq] at heq
      exact SourceNode.nodeId_injective heq
    rw [hnone]
    rfl
  · exact fun hs => absurd (Finset.mem_univ s) hs

/-- A message is sent to the server of its source. -/
theorem Linked.sent_to_server {s : SourceNode} {p : Ipaddr × Payload} {m : Message}
    (hp : p ∈ net.sent) (hm : p.2.messageOf? s = some m) : p.1 = linkLocal s.server.nodeId := by
  rcases Multiset.mem_add.1 hp with hp | hp
  · have hnone := h.sum_aggs (fun p => p.2.messageOf? s) fun dst a => rfl
    obtain ⟨n, -, hn⟩ := Multiset.mem_sum.1 hp
    have hmem : m ∈ ∑ n, ((sentDatagrams (net.agg n).history).filterMap
        (fun p => p.2.messageOf? s) : Multiset Message) :=
      Multiset.mem_sum.2 ⟨n, Finset.mem_univ n, List.mem_filterMap.2 ⟨p, hn, hm⟩⟩
    rw [hnone] at hmem
    cases hmem
  · obtain ⟨s', -, hs'⟩ := Multiset.mem_sum.1 hp
    obtain ⟨q, hq, rfl⟩ := List.mem_map.1 (Multiset.mem_coe.1 hs')
    obtain ⟨hdst, hsendable⟩ := (h.sound s').sendable q hq
    have heq : q.2.nodeId = s.nodeId := by
      by_contra hne
      rw [Payload.messageOf?, if_neg hne] at hm
      cases hm
    rw [hsendable.nodeId_eq] at heq
    rw [SourceNode.nodeId_injective heq] at hdst
    refine hdst.trans ?_
    cases s <;> rfl

/-- The messages of a source are delivered to its server alone, which stores them or counts them as
missed. -/
theorem Linked.delivered_messageOf (s : SourceNode) :
    net.delivered.filterMap (fun p => p.2.messageOf? s) =
      fromSource s (accounted (net.agg s.server).history) := by
  rw [Network.delivered, filterMap_sum, Finset.sum_congr rfl fun n _ => net.filterMap_delivered n _,
    Finset.sum_eq_single s.server]
  · have hid : Aggregates s.server.nodeId := by cases s <;> decide
    rw [(h.good hid).tracks.accounted, receivedFrom_eq, fromSource, List.filter_filterMap]
    refine congrArg _ (List.filterMap_congr fun d _ => ?_)
    cases d with
    | message m =>
      have hmap : m.nodeId = s.nodeId → ∃ i, nodeMapOf s.server.nodeId i = m.nodeId := by
        intro hm
        rw [hm]
        cases s <;> decide
      change (if m.nodeId = s.nodeId then some m else none) =
        Option.filter (fun m => decide (m.nodeId = s.nodeId))
          (if ∃ i, nodeMapOf s.server.nodeId i = m.nodeId then some m else none)
      by_cases hm : m.nodeId = s.nodeId
      · rw [if_pos (hmap hm), if_pos hm]
        exact (if_pos (decide_eq_true hm)).symm
      · rw [if_neg hm]
        split_ifs
        · exact (if_neg (by simpa using hm)).symm
        · rfl
    | _ => rfl
  · intro n _ hn
    refine Multiset.eq_zero_of_forall_notMem fun m hm => hn ?_
    obtain ⟨p, hp, hpm⟩ := (Multiset.mem_filterMap _ _).1
      (Multiset.mem_of_le (h.received_le n (Payload.messageOf? s)) hm)
    by_cases hdst : p.1 = linkLocal n.nodeId
    · rw [sentTo, if_pos hdst] at hpm
      exact AggNode.linkLocal_injective (hdst.symm.trans (h.sent_to_server hp hpm))
    · rw [sentTo, if_neg hdst] at hpm
      cases hpm
  · exact fun hs => absurd (Finset.mem_univ _) hs

theorem Linked.sent_aggs : net.sent.filterMap (fun p => p.2.messageAgg?) =
    ((flushedAggs (net.agg .node2).history : Multiset MessageAgg) +
      receivedAggs (net.agg .node2).history) + flushedAggs (net.agg .node3).history := by
  have hone : ∀ n : AggNode, Aggregates n.nodeId →
      ((sentDatagrams (net.agg n).history).filterMap (fun p => p.2.messageAgg?) :
        Multiset MessageAgg) =
      (flushedAggs (net.agg n).history : Multiset MessageAgg) +
        receivedAggs (net.agg n).history := by
    intro n hid
    rw [← Multiset.filterMap_coe, (h.forwards hid).sent, Multiset.filterMap_map]
    exact Multiset.filterMap_some _
  have hsource : ∑ s, ((messageDatagrams (net.source s).history).filterMap
      (fun p => p.2.messageAgg?) : Multiset MessageAgg) = 0 := by
    refine Finset.sum_eq_zero fun s _ => ?_
    rw [messageDatagrams, List.filterMap_map]
    exact (Multiset.coe_eq_zero _).2 (List.filterMap_eq_nil_iff.2 fun p _ => rfl)
  rw [net.filterMap_sent, hsource, sum_aggNode, h.drains.sent, hone .node2 (Or.inl rfl),
    hone .node3 (Or.inr rfl), h.receivedAggs_node3, List.filterMap_nil, Multiset.coe_nil, zero_add,
    add_zero, add_zero]

theorem Linked.delivered_aggs : net.delivered.filterMap (fun p => p.2.messageAgg?) =
    (receivedAggs (net.agg .node1).history : Multiset MessageAgg) +
      receivedAggs (net.agg .node2).history := by
  rw [Network.delivered, filterMap_sum, Finset.sum_congr rfl fun n _ => net.filterMap_delivered n _,
    sum_aggNode]
  change (receivedAggs _ : Multiset MessageAgg) + receivedAggs _ + receivedAggs _ = _
  rw [h.receivedAggs_node3, Multiset.coe_nil, add_zero]

/-- The books balance if the channel does. -/
theorem Linked.books {lost : List (Ipaddr × Payload)}
    (hb : Tally net.inFlight lost net.delivered net.sent) : Books net lost := by
  refine ⟨fun s => ?_, ?_⟩
  · have hs := hb.filterMap fun p => p.2.messageOf? s
    rw [Tally, h.sent_messageOf, h.delivered_messageOf] at hs
    have hacc := (accounted_perm (net.agg s.server).history).filter fun m => m.nodeId = s.nodeId
    rw [storedMessages_eq, List.filter_append, List.filter_append] at hacc
    rw [hs, fromSource, Multiset.coe_eq_coe.2 hacc, ← Multiset.coe_add, ← Multiset.coe_add]
    simp only [add_assoc]
    rfl
  · have ha := hb.filterMap fun p => p.2.messageAgg?
    rw [Tally, h.sent_aggs, h.delivered_aggs, ← h.drains.printed] at ha
    have hcancel : (flushedAggs (net.agg .node2).history : Multiset MessageAgg) +
        flushedAggs (net.agg .node3).history + receivedAggs (net.agg .node2).history =
        aggsOf net.inFlight + aggsOf lost + printedAggs (net.agg .node1).history +
          receivedAggs (net.agg .node2).history := by
      rw [add_right_comm, ha, Multiset.filterMap_coe, add_assoc, add_assoc, add_assoc]
      rfl
    exact add_right_cancel hcancel

end Fates

/-- **The books of the network balance**, in every run: each message and each aggregate is in one
place, and in no other. -/
theorem books_balance (rand : SourceNode → ℕ → ℕ) (T : Target) (steps : List NetStep) :
    Books (netRun rand T steps) (lost rand T steps) :=
  (linked_run rand T steps).books (tally_run rand T steps)

/-! ## When everything has arrived -/

/-- Nothing is on its way. -/
structure Settled (net : Network) : Prop where
  /-- Node 1 has printed the aggregates of all batches that were closed. -/
  printed : (printedAggs (net.agg .node1).history).Perm
    (flushedAggs (net.agg .node2).history ++ flushedAggs (net.agg .node3).history)
  /-- A message that was sent is reported, unless it was counted as missed or still waits. -/
  messages : ∀ m ∈ net.messages, Reported net m ∨
    (∃ n, m ∈ missedMessages (net.agg n).history) ∨ ∃ n, m ∈ openBatch (net.agg n).history

/-- **Without losses, once nothing is in flight, everything that was sent has been reported, counted
as missed, or waits in an open batch.** -/
theorem settled (rand : SourceNode → ℕ → ℕ) (T : Target) (steps : List NetStep)
    (hlose : ∀ k, NetStep.lose k ∉ steps) (hflight : (netRun rand T steps).inFlight = []) :
    Settled (netRun rand T steps) := by
  have h := linked_run rand T steps
  have hbooks := h.books (tally_run rand T steps)
  rw [lost_eq_nil rand T hlose] at hbooks
  have hprinted : (printedAggs ((netRun rand T steps).agg .node1).history).Perm
      (flushedAggs ((netRun rand T steps).agg .node2).history ++
        flushedAggs ((netRun rand T steps).agg .node3).history) := by
    have haggs := hbooks.aggregates
    rw [hflight, aggsOf, List.filterMap_nil, Multiset.coe_nil, zero_add, zero_add,
      Multiset.coe_add] at haggs
    exact Multiset.coe_eq_coe.1 haggs.symm
  refine ⟨hprinted, fun m hm => ?_⟩
  obtain ⟨s, hs⟩ := mem_messages.1 hm
  have hmem := Multiset.mem_coe.2 hs
  rw [hbooks.messages s, hflight] at hmem
  simp only [Multiset.mem_add, Multiset.mem_coe, messagesOf, List.filterMap_nil, List.not_mem_nil,
    false_or] at hmem
  rcases hmem with (hmissed | hclosed) | hopen
  · exact Or.inr (Or.inl ⟨s.server, List.mem_of_mem_filter hmissed⟩)
  · obtain ⟨f, hf, hmf⟩ := List.mem_flatMap.1 (List.mem_of_mem_filter hclosed)
    refine Or.inl ⟨s.server, f, hf, hmf, hprinted.symm.subset ?_⟩
    have hagg : f.2 ∈ flushedAggs ((netRun rand T steps).agg s.server).history := by
      rw [← map_flushes]
      exact List.mem_map_of_mem hf
    cases s with
    | node4 | node5 | node6 => exact List.mem_append_left _ hagg
    | node7 | node8 | node9 => exact List.mem_append_right _ hagg
  · exact Or.inr (Or.inr ⟨s.server, List.mem_of_mem_filter hopen⟩)

theorem settled_reportedRun : Settled (netRun (fourthDraw 20) .sky reportedRun) :=
  settled (fourthDraw 20) .sky reportedRun (fun k => by simp [reportedRun, firstBatchRun])
    (by decide +kernel)

end WsnAggregation
