import WsnAggregation.Offline.AggregateLog
import WsnAggregation.Offline.Matching
import WsnAggregation.Provenance

/-!
# What the completeness metric says

The counts of the script against what happened in the network.

* `CountsTrue` — the script counts the messages sent, and among them those stored in a batch whose
  aggregate node 1 printed.
* `Legible` — the run has nothing that the chain from print to count gets wrong: no negative
  sample, no message id used twice or too large for a double, and no batch reported that skips a
  slot or whose missed counter reads as negative.
* `completeness_counts` — in a run that is legible the counts are true, once something was sent.
-/

namespace WsnAggregation

open Contiki Lib

/-! ## What is counted -/

/-- The flushes of a mote, each with the history before it. -/
def flushes (h : History) : List (History × MessageAgg) :=
  (List.finRange h.length).filterMap fun i => match (h.get i).2 with
    | .flushed _ a => some (h.take i, a)
    | _ => none

theorem mem_flushes {h past : History} {a : MessageAgg} : (past, a) ∈ flushes h ↔
    ∃ t count future, h = past ++ (t, .flushed count a) :: future := by
  rw [flushes, List.mem_filterMap]
  constructor
  · rintro ⟨i, -, hi⟩
    cases he : (h.get i).2 with
    | flushed count a' =>
      rw [he] at hi
      cases hi
      refine ⟨(h.get i).1, count, h.drop (i + 1), ?_⟩
      rw [← he, Prod.mk.eta]
      simp
    | _ => rw [he] at hi; cases hi
  · rintro ⟨t, count, future, rfl⟩
    refine ⟨⟨past.length, by simp⟩, List.mem_finRange _, ?_⟩
    simp

/-- The messages the sources sent, in the order of the logs. -/
def Network.messages (net : Network) : List Message := sourceNodes.flatMap net.sentBy

/-- The message was stored in a batch whose aggregate node 1 printed. -/
def Reported (net : Network) (m : Message) : Prop :=
  ∃ n, ∃ f ∈ flushes (net.agg n).history, m ∈ openBatch f.1 ∧
    f.2 ∈ printedAggs (net.agg .node1).history

instance (net : Network) (m : Message) : Decidable (Reported net m) := by
  unfold Reported; infer_instance

/-- The counts of the script are those of the network. -/
def CountsTrue (net : Network) : Prop :=
  ∃ metrics, analysis net = .ok metrics ∧ metrics.totalMessages = net.messages.length ∧
    metrics.receivedMessages = net.messages.countP fun m => Reported net m

/-- What the logs need to be read right. -/
structure Legible (T : Target) (net : Network) : Prop where
  samples : ∀ m ∈ net.messages, 0 ≤ m.sample
  /-- The message ids have not come round to one used before, and doubles hold them. -/
  ids : ∀ s, (net.sentBy s).length ≤ 2 ^ min T.longBits 53
  /-- A batch whose aggregate node 1 printed had its first slots filled, and its missed counter
  reads as it is. -/
  batches : ∀ n, ∀ f ∈ flushes (net.agg n).history, f.2 ∈ printedAggs (net.agg .node1).history →
    PrefixFilled n.nodeId f.1 ∧ 0 ≤ T.toInt (openMissed f.1 % 65536 : ℕ)

/-! ## The rows -/

theorem mem_messages {net : Network} {m : Message} :
    m ∈ net.messages ↔ ∃ s, m ∈ net.sentBy s := by
  rw [Network.messages, List.mem_flatMap]
  constructor
  · rintro ⟨s, -, hs⟩
    exact ⟨s, hs⟩
  · rintro ⟨s, hs⟩
    exact ⟨s, mem_sourceNodes s, hs⟩

/-- The row of a source log names its message. -/
def Names (r : SourceRecord) (m : Message) : Prop := (r.nodeId, r.msgId) = m.pair

/-- The row of the aggregator log lists what its aggregate lists. -/
def ListsSame (r : AggregatorRecord) (a : MessageAgg) : Prop :=
  r.msgIdsInMsg = [a.msgIdsInMsg 0, a.msgIdsInMsg 1, a.msgIdsInMsg 2] ∧
    r.nodeIdsInMsg = [a.nodeIdsInMsg 0, a.nodeIdsInMsg 1, a.nodeIdsInMsg 2]

section Ids

variable {rand : SourceNode → ℕ → ℕ} {T : Target} {net : Network} (h : Linked rand T net)
include h

theorem Linked.map_msgId (s : SourceNode) : (net.sentBy s).map Message.msgId =
    (List.range (net.sentBy s).length).map fun k => (k + 1) % 2 ^ T.longBits := by
  rw [Network.sentBy, List.map_map, List.length_map]
  exact (h.sound s).ids

/-- Until the ids come round, no two messages of a source have the same id. -/
theorem Linked.nodup_msgId {s : SourceNode}
    (hlen : (net.sentBy s).length ≤ 2 ^ min T.longBits 53) :
    ((net.sentBy s).map Message.msgId).Nodup := by
  have hlen' := hlen.trans (Nat.pow_le_pow_right Nat.two_pos (Nat.min_le_left T.longBits 53))
  rw [h.map_msgId]
  refine List.Nodup.map_on (fun k hk k' hk' hmod => ?_) List.nodup_range
  rw [List.mem_range] at hk hk'
  have hmod' : k ≡ k' [MOD 2 ^ T.longBits] := Nat.ModEq.add_right_cancel' 1 hmod
  exact hmod'.eq_of_lt_of_lt (by omega) (by omega)

theorem Linked.msgId_le {s : SourceNode} (hlen : (net.sentBy s).length ≤ 2 ^ min T.longBits 53)
    {m : Message} (hm : m ∈ net.sentBy s) : m.msgId ≤ 2 ^ 53 := by
  have hlen' := hlen.trans (Nat.pow_le_pow_right Nat.two_pos (Nat.min_le_right T.longBits 53))
  have hid : m.msgId ∈ (net.sentBy s).map Message.msgId := List.mem_map_of_mem hm
  rw [h.map_msgId] at hid
  obtain ⟨k, hk, hmod⟩ := List.mem_map.1 hid
  rw [List.mem_range] at hk
  calc m.msgId = (k + 1) % 2 ^ T.longBits := hmod.symm
    _ ≤ k + 1 := Nat.mod_le _ _
    _ ≤ 2 ^ 53 := by omega

theorem Linked.exact_row {s : SourceNode} (hlen : (net.sentBy s).length ≤ 2 ^ min T.longBits 53)
    {row : SourceRecord} {m : Message} (hrow : Names row m) (hm : m ∈ net.sentBy s) : row.Exact := by
  obtain ⟨hnode, hid⟩ := Prod.mk.inj hrow
  refine ⟨hid.trans_le (h.msgId_le hlen hm), hnode.trans_le ?_⟩
  rw [(h.sentBy_sendable hm).nodeId_eq]
  exact s.nodeId_le.trans (by decide)

theorem Linked.exact_rowAgg (hlen : ∀ s, (net.sentBy s).length ≤ 2 ^ min T.longBits 53)
    {rowAgg : AggregatorRecord} {a : MessageAgg} (hagg : ListsSame rowAgg a)
    (ha : a ∈ printedAggs (net.agg .node1).history) : rowAgg.Exact := by
  obtain ⟨n, hflushed⟩ := h.printed_flushed ha
  have hlisted : ∀ i, a.msgIdsInMsg i ≤ 2 ^ 53 := by
    intro i
    rcases h.listed_msgId hflushed i with h0 | ⟨s, m, hm, hid⟩
    · rw [h0]
      exact Nat.zero_le _
    · rw [hid]
      exact h.msgId_le (hlen s) hm
  intro msgId hmem
  rw [hagg.1] at hmem
  simp only [List.mem_cons, List.not_mem_nil, or_false] at hmem
  rcases hmem with rfl | rfl | rfl <;> exact hlisted _

end Ids

section Rows

variable {rand : SourceNode → ℕ → ℕ} {T : Target} {net : Network} (h : Linked rand T net)
  (hlegible : Legible T net)
include h hlegible

theorem Linked.source_rows (s : SourceNode) :
    ∃ rows, parseLines parseSourceLine (pyLines (net.sourceLog s).flatten) = .ok rows ∧
      List.Forall₂ Names rows (net.sentBy s) := by
  have hlog := h.sourceLog s
  have hsound := h.sound s
  rw [hsound.printed] at hlog
  have hsamples : ∀ p ∈ sentMessages (net.source s).history, 0 ≤ p.2.sample := fun p hp =>
    hlegible.samples p.2 (mem_messages.2 ⟨s, List.mem_map_of_mem hp⟩)
  obtain ⟨-, hmeans⟩ := hsound.nonneg hsamples
  have hnode : s.nodeId < 65536 := s.nodeId_le.trans_lt (by decide)
  refine parseLines_logged hlog (isLine_stamp_printMessage T) fun time m hm => ?_
  have hsendable := h.sentBy_sendable hm
  obtain ⟨p, hp, rfl⟩ := List.mem_map.1 hm
  have hsign : 0 ≤ T.toInt p.2.nodeId := by
    have hle := s.nodeId_le
    rw [hsendable.nodeId_eq, T.toInt_of_abs_lt (by omega) (by omega)]
    exact Int.natCast_nonneg _
  have hrecord := (printedRecord_eq_iff hsendable hnode time).2
    ⟨hsamples p hp, hmeans p hp, hsign⟩
  refine ⟨p.2.record time, ?_, rfl⟩
  rw [parseSourceLine_stamp hsendable hnode, hrecord]

theorem Linked.aggregator_rows :
    ∃ rows, parseAggregatorLog (net.aggLog .node1).flatten = .ok rows ∧
      List.Forall₂ ListsSame rows (printedAggs (net.agg .node1).history) := by
  refine parseLines_logged (h.aggLog .node1) (isLine_stamp_printMessageAgg T) fun time a ha => ?_
  obtain ⟨n, hflushed⟩ := h.printed_flushed ha
  have hsendable := h.sendableAgg hflushed
  have hsample := (h.sample_bounds 0 500 le_rfl (by decide) (fun s m hm =>
    ⟨hlegible.samples m (mem_messages.2 ⟨s, hm⟩), (h.sentBy_sendable hm).sample_le⟩) hflushed).1
  obtain ⟨past, t, count, future, heq⟩ := mem_flushedAggs.1 hflushed
  have hmissed : 0 ≤ a.missedSamples := by
    obtain ⟨-, app, ht, -, rfl⟩ := h.flush_at heq
    have hcount := (hlegible.batches n _ (mem_flushes.2 ⟨t, count, future, heq⟩) ha).2
    rw [← ht.missed] at hcount
    exact hcount
  rw [Int.cast_zero] at hsample
  obtain ⟨r, hr, hshows⟩ := (printedAggRecord_shows_iff hsendable time).2 ⟨by linarith, hmissed⟩
  refine ⟨r, ?_, hshows.msgIdsInMsg, hshows.nodeIdsInMsg⟩
  rw [parseAggregatorLine_stamp hsendable, hr]

/-! ## The pairs -/

theorem Linked.eq_of_msgId {s : SourceNode} {m m' : Message} (hm : m ∈ net.sentBy s)
    (hm' : m' ∈ net.sentBy s) (heq : m.msgId = m'.msgId) : m = m' :=
  List.inj_on_of_nodup_map (h.nodup_msgId (hlegible.ids s)) hm hm' heq

/-- An aggregate that node 1 printed lists the pair of a message exactly when the message was in
its batch. -/
theorem Linked.reported_iff {s : SourceNode} {m : Message} (hm : m ∈ net.sentBy s) :
    Reported net m ↔ ∃ a ∈ printedAggs (net.agg .node1).history, m.pair ∈ a.pairs := by
  constructor
  · rintro ⟨n, ⟨past, a⟩, hf, hbatch, hprinted⟩
    obtain ⟨t, count, future, heq⟩ := mem_flushes.1 hf
    obtain ⟨hid, app, ht, -, rfl⟩ := h.flush_at heq
    have hprov := (ht.provenance_iff hid T).2 (hlegible.batches n _ hf hprinted).1
    exact ⟨_, hprinted, hprov.symm.subset (List.mem_map_of_mem hbatch)⟩
  · rintro ⟨a, hprinted, hpair⟩
    obtain ⟨n, hflushed⟩ := h.printed_flushed hprinted
    obtain ⟨past, t, count, future, heq⟩ := mem_flushedAggs.1 hflushed
    have hf := mem_flushes.2 ⟨t, count, future, heq⟩
    obtain ⟨hid, app, ht, -, rfl⟩ := h.flush_at heq
    have hprov := (ht.provenance_iff hid T).2 (hlegible.batches n _ hf hprinted).1
    obtain ⟨m', hbatch, hsame⟩ := List.mem_map.1 (hprov.subset hpair)
    obtain ⟨hnode, hid'⟩ := Prod.mk.inj hsame
    -- The message listed was sent by the same source, under the same id.
    obtain ⟨s', hm'⟩ := h.openBatch_sent hid heq ht hbatch
    have hs : s' = s := by
      rw [(h.sentBy_sendable hm').nodeId_eq, (h.sentBy_sendable hm).nodeId_eq] at hnode
      revert hnode
      cases s <;> cases s' <;> decide
    subst hs
    rw [h.eq_of_msgId hlegible hm' hm hid'] at hbatch
    exact ⟨n, _, hf, hbatch, hprinted⟩

end Rows

theorem pairs_iff {row : SourceRecord} {rowAgg : AggregatorRecord} {m : Message} {a : MessageAgg}
    (hrow : Names row m) (hagg : ListsSame rowAgg a) (hm : m.nodeId ≠ 0) :
    Pairs row rowAgg ↔ m.pair ∈ a.pairs := by
  obtain ⟨hmsgs, hnodes⟩ := hagg
  obtain ⟨hnode, hid⟩ := Prod.mk.inj hrow
  have hne : m.pair ≠ (0, 0) := fun h0 => hm (congrArg Prod.fst h0)
  rw [pairs_iff_mem_zip, hmsgs, hnodes, hnode, hid, MessageAgg.pairs, List.mem_filter,
    List.mem_ofFn]
  simp only [List.zip_cons_cons, List.zip_nil_right, List.mem_cons, List.not_mem_nil, or_false,
    Prod.mk.injEq]
  constructor
  · rintro (⟨h1, h2⟩ | ⟨h1, h2⟩ | ⟨h1, h2⟩)
    · exact ⟨⟨0, Prod.ext h2.symm h1.symm⟩, by simpa using hne⟩
    · exact ⟨⟨1, Prod.ext h2.symm h1.symm⟩, by simpa using hne⟩
    · exact ⟨⟨2, Prod.ext h2.symm h1.symm⟩, by simpa using hne⟩
  · rintro ⟨⟨i, hi⟩, -⟩
    obtain ⟨h2, h1⟩ := Prod.mk.inj hi
    fin_cases i
    · exact Or.inl ⟨h1.symm, h2.symm⟩
    · exact Or.inr (Or.inl ⟨h1.symm, h2.symm⟩)
    · exact Or.inr (Or.inr ⟨h1.symm, h2.symm⟩)

/-! ## The counts -/

/-- **In a legible run the counts of the script are true**, once a message was sent. -/
theorem completeness_counts (rand : SourceNode → ℕ → ℕ) (T : Target) (steps : List NetStep)
    (hlegible : Legible T (netRun rand T steps)) (hsent : (netRun rand T steps).messages ≠ []) :
    CountsTrue (netRun rand T steps) := by
  have h := linked_run rand T steps
  obtain ⟨aggDf, hagg, haggs⟩ := h.aggregator_rows hlegible
  obtain ⟨srcDf, hsrc, hsrcs⟩ := parseSourceLogs_rows
    (fun s => ((netRun rand T steps).sourceLog s).flatten) (netRun rand T steps).sentBy sourceNodes
    (h.source_rows hlegible)
  have hlen : srcDf.length = (netRun rand T steps).messages.length := hsrcs.length_eq
  have hne : srcDf ≠ [] := by
    intro h0
    rw [h0] at hlen
    exact hsent (List.length_eq_zero_iff.1 hlen.symm)
  have hexact : ∀ row ∈ srcDf, row.Exact := forall_mem_of_forall₂ hsrcs fun row m hm hrow => by
    obtain ⟨s, hs⟩ := mem_messages.1 hm
    exact h.exact_row (hlegible.ids s) hrow hs
  have hexactAgg : ∀ rowAgg ∈ aggDf, rowAgg.Exact := forall_mem_of_forall₂ haggs
    fun rowAgg a ha hrowAgg => h.exact_rowAgg hlegible.ids hrowAgg ha
  obtain ⟨metrics, hmetrics, hmatching⟩ := matching_calculateMetrics hexactAgg hexact hne
  refine ⟨metrics, ?_, hmatching.totalMessages.trans hlen, hmatching.receivedMessages.trans ?_⟩
  · rw [analysis, hagg, hsrc]
    exact hmetrics
  · refine countP_eq_of_forall₂ hsrcs fun row m hm hrow => ?_
    obtain ⟨s, hs⟩ := mem_messages.1 hm
    have hnode : m.nodeId ≠ 0 := by
      rw [(h.sentBy_sendable hs).nodeId_eq]
      cases s <;> decide
    rw [Bool.eq_iff_iff, decide_eq_true_iff, decide_eq_true_iff, h.reported_iff hlegible hs]
    exact exists_mem_iff_of_forall₂ haggs fun rowAgg a _ hrowAgg => pairs_iff hrow hrowAgg hnode

/-- The first batch of node 2 reaches node 1. -/
def reportedRun : List NetStep := firstBatchRun ++ [.deliver 0]

/-- Three samples of 10 are sent, stored and reported. -/
theorem completeness_counts_reportedRun : CountsTrue (netRun (fourthDraw 20) .sky reportedRun) := by
  have hsamples : ∀ m ∈ (netRun (fourthDraw 20) .sky reportedRun).messages, 0 ≤ m.sample := by
    decide +kernel
  have hids : ∀ s, ((netRun (fourthDraw 20) .sky reportedRun).sentBy s).length ≤ 3 := by
    decide +kernel
  have hbatches : ∀ n : AggNode,
      ∀ f ∈ flushes ((netRun (fourthDraw 20) .sky reportedRun).agg n).history,
        PrefixFilled n.nodeId f.1 ∧ 0 ≤ Target.sky.toInt (openMissed f.1 % 65536 : ℕ) := by
    decide +kernel
  exact completeness_counts (fourthDraw 20) .sky reportedRun
    ⟨hsamples, fun s => (hids s).trans (by decide), fun n f hf _ => hbatches n f hf⟩
    (by decide +kernel)

/-- Node 4 sends a sample of -10 and node 5 one of 10. -/
def twoSamplesRun : List NetStep :=
  [.source .node4 .poll, .source .node4 .event, .source .node5 .poll, .source .node5 .event]

/-- Two messages are sent, none is lost, and the script counts one. -/
theorem completeness_counts_fails :
    ¬ ∀ (rand : SourceNode → ℕ → ℕ) (T : Target) (steps : List NetStep),
      (∀ k, NetStep.lose k ∉ steps) → CountsTrue (netRun rand T steps) := by
  intro h
  have hcounts := h (fun s i => if s = .node5 ∧ i = 3 then 20 else 0) .sky twoSamplesRun
    (fun k => by simp [twoSamplesRun])
  obtain ⟨metrics, hmetrics, htotal, -⟩ := hcounts
  have hone : (analysis (netRun (fun s i => if s = .node5 ∧ i = 3 then 20 else 0) .sky
      twoSamplesRun)).toOption.map Metrics.totalMessages = some 1 := by decide +kernel
  have htwo : (netRun (fun s i => if s = .node5 ∧ i = 3 then 20 else 0) .sky
      twoSamplesRun).messages.length = 2 := by decide +kernel
  rw [hmetrics] at hone
  rw [htwo] at htotal
  simp [Except.toOption, htotal] at hone

end WsnAggregation
