import WsnAggregation.Integrity
import WsnAggregation.Provenance

/-!
# The logs in time

The stamps of the logs, in every run of the network. The logs are written by motes whose clocks
have nothing to do with each other; the stamps are simulation time, of which there is one.

* `Chronicle` — a log by its entries: what was printed, each with its stamp. The stamps of a log
  never go back, and none is ahead of the simulation time.
* `StepAdds` — what one step of the network adds to the histories and the logs.
* `Timed` — the logs are chronicles, and no aggregate is logged before a message that it lists.
  `logs_causal` proves it of every run.
-/

namespace WsnAggregation

open Contiki Lib

/-! ## Chronicles -/

/-- The log of what was printed, by its entries. -/
structure Chronicle {α : Type} (print : α → List Char) (now : ℕ) (log : List (List Char))
    (printed : List α) (entries : List (ℕ × α)) : Prop where
  log : log = entries.map fun e => stamp e.1 (print e.2)
  printed : entries.map Prod.snd = printed
  sorted : (entries.map Prod.fst).Pairwise (· ≤ ·)
  bounded : ∀ e ∈ entries, e.1 ≤ now

namespace Chronicle

variable {α : Type} {print : α → List Char} {now : ℕ} {log : List (List Char)} {printed : List α}
  {entries : List (ℕ × α)}

theorem nil (print : α → List Char) (now : ℕ) : Chronicle print now [] [] [] :=
  ⟨rfl, rfl, .nil, fun e he => by cases he⟩

/-- New lines are stamped with the time. -/
theorem append (h : Chronicle print now log printed entries) (new : List α) :
    Chronicle print now (log ++ new.map fun a => stamp now (print a)) (printed ++ new)
      (entries ++ new.map fun a => (now, a)) where
  log := by rw [h.log, List.map_append, List.map_map]; rfl
  printed := by rw [List.map_append, h.printed, List.map_map]; exact congrArg _ (List.map_id new)
  sorted := by
    rw [List.map_append, List.pairwise_append]
    refine ⟨h.sorted, ?_, ?_⟩
    · rw [List.map_map]
      exact List.pairwise_map.2 (List.pairwise_of_forall fun _ _ => le_rfl)
    · intro t ht t' ht'
      obtain ⟨e, he, rfl⟩ := List.mem_map.1 ht
      obtain ⟨e', he', rfl⟩ := List.mem_map.1 ht'
      obtain ⟨a, -, rfl⟩ := List.mem_map.1 he'
      exact h.bounded e he
  bounded := by
    intro e he
    rcases List.mem_append.1 he with he | he
    · exact h.bounded e he
    · obtain ⟨a, -, rfl⟩ := List.mem_map.1 he
      exact le_rfl

theorem later {now' : ℕ} (h : Chronicle print now log printed entries) (hle : now ≤ now') :
    Chronicle print now' log printed entries :=
  { h with bounded := fun e he => (h.bounded e he).trans hle }

end Chronicle

/-! ## One step -/

/-- What a step of the network adds to the histories of the motes and to the logs. -/
structure StepAdds (T : Target) (net net' : Network) (aggNew : AggNode → History)
    (sourceNew : SourceNode → List (ℕ × SourceAction)) : Prop where
  time : net.time ≤ net'.time
  agg : ∀ n, (net'.agg n).history = (net.agg n).history ++ aggNew n
  source : ∀ s, (net'.source s).history = (net.source s).history ++ sourceNew s
  aggLog : ∀ n, net'.aggLog n = net.aggLog n ++
    (printedAggs (aggNew n)).map fun a => stamp net.time (printMessageAgg T a)
  sourceLog : ∀ s, net'.sourceLog s = net.sourceLog s ++
    (printedMessages (sourceNew s)).map fun m => stamp net.time (printMessage T m)

section Step

variable {rand : SourceNode → ℕ → ℕ} {T : Target} {net : Network}

/-- A step that only touches the time or the datagrams in flight. -/
theorem stepAdds_none {net' : Network} (htime : net.time ≤ net'.time) (hagg : net'.agg = net.agg)
    (hsource : net'.source = net.source) (haggLog : net'.aggLog = net.aggLog)
    (hsourceLog : net'.sourceLog = net.sourceLog) :
    StepAdds T net net' (fun _ => []) fun _ => [] where
  time := htime
  agg := fun n => by rw [hagg, List.append_nil]
  source := fun s => by rw [hsource, List.append_nil]
  aggLog := fun n => by rw [haggLog]; exact (List.append_nil _).symm
  sourceLog := fun s => by rw [hsourceLog]; exact (List.append_nil _).symm

theorem Network.putAgg_adds (net : Network) (inFlight : List (Ipaddr × Payload)) {n : AggNode}
    {m : AggMote} {new : History} (h : m.history = (net.agg n).history ++ new) :
    StepAdds T net ({ net with inFlight := inFlight }.putAgg T n m)
      (Function.update (fun _ => []) n new) fun _ => [] := by
  have hput := Network.putAgg_eq (T := T) { net with inFlight := inFlight } h
  rw [hput]
  refine {
    time := le_rfl
    agg := fun n' => ?_
    source := fun s => (List.append_nil _).symm
    aggLog := fun n' => ?_
    sourceLog := fun s => (List.append_nil _).symm }
  · by_cases hn : n' = n
    · subst hn
      simpa using h
    · simp [hn]
  · by_cases hn : n' = n
    · subst hn
      simp
    · simp [hn, printedAggs]

theorem Network.putSource_adds (net : Network) {s : SourceNode} {m : SourceMote}
    {new : List (ℕ × SourceAction)} (h : m.history = (net.source s).history ++ new) :
    StepAdds T net (net.putSource T s m) (fun _ => []) (Function.update (fun _ => []) s new) := by
  rw [net.putSource_eq h]
  refine {
    time := le_rfl
    agg := fun n => (List.append_nil _).symm
    source := fun s' => ?_
    aggLog := fun n => (List.append_nil _).symm
    sourceLog := fun s' => ?_ }
  · by_cases hs : s' = s
    · subst hs
      simpa using h
    · simp [hs]
  · by_cases hs : s' = s
    · subst hs
      simp
    · simp [hs, printedMessages]

/-- Every step adds to the histories, and logs what they print at the time it starts. -/
theorem Linked.stepAdds (h : Linked rand T net) (l : NetStep) :
    ∃ aggNew sourceNew, StepAdds T net (netStep rand T net l) aggNew sourceNew := by
  cases l with
  | elapse d => exact ⟨_, _, stepAdds_none (Nat.le_add_right _ d) rfl rfl rfl rfl⟩
  | lose k => exact ⟨_, _, stepAdds_none le_rfl rfl rfl rfl rfl⟩
  | agg n l =>
    obtain ⟨new, hhist, -⟩ := h.aggStep_history n (.kernel l)
    exact ⟨_, _, net.putAgg_adds net.inFlight hhist⟩
  | source s l =>
    obtain ⟨new, hhist⟩ := source_history (rand s) T s (net.source s) l
    exact ⟨_, _, net.putSource_adds hhist⟩
  | deliver k =>
    unfold netStep
    dsimp only
    split
    · exact ⟨_, _, stepAdds_none le_rfl rfl rfl rfl rfl⟩
    · rename_i dst d hk
      split
      · exact ⟨_, _, stepAdds_none le_rfl rfl rfl rfl rfl⟩
      · rename_i n hn
        obtain ⟨new, hhist, -⟩ := h.aggStep_history n (.recv d)
        exact ⟨_, _, net.putAgg_adds (net.inFlight.eraseIdx k) hhist⟩

theorem Linked.listed_sent (h : Linked rand T net) {n : AggNode} {a : MessageAgg}
    (ha : a ∈ flushedAggs (net.agg n).history) {p : ℕ × ℕ} (hp : p ∈ a.pairs) :
    ∃ s, ∃ m ∈ net.sentBy s, m.pair = p := by
  obtain ⟨past, t, count, future, heq⟩ := mem_flushedAggs.1 ha
  obtain ⟨-, app, ht, -, rfl⟩ := h.flush_at heq
  rw [← Multiset.mem_coe, coe_pairs_aggMessage, Multiset.mem_filter, Multiset.mem_map] at hp
  obtain ⟨⟨i, -, rfl⟩, hne⟩ := hp
  rcases h.slot_sent heq ht i with h0 | ⟨s, hs⟩
  · rw [h0] at hne
    exact absurd rfl hne
  · exact ⟨s, _, hs, rfl⟩

end Step

/-! ## The logs of the network -/

/-- The logs of the network by their entries. -/
structure Timed (T : Target) (net : Network) (aggs : AggNode → List (ℕ × MessageAgg))
    (messages : SourceNode → List (ℕ × Message)) : Prop where
  agg : ∀ n, Chronicle (printMessageAgg T) net.time (net.aggLog n)
    (printedAggs (net.agg n).history) (aggs n)
  source : ∀ s, Chronicle (printMessage T) net.time (net.sourceLog s)
    (printedMessages (net.source s).history) (messages s)
  /-- What an aggregate lists was logged by its source before, or at the same time. -/
  causal : ∀ n, ∀ e ∈ aggs n, ∀ p ∈ e.2.pairs, ∃ s, ∃ e' ∈ messages s,
    e'.2.pair = p ∧ e'.1 ≤ e.1

section Runs

variable {rand : SourceNode → ℕ → ℕ} {T : Target} {net : Network}

theorem timed_boot (rand : SourceNode → ℕ → ℕ) (T : Target) :
    Timed T (netBoot rand T) (fun _ => []) fun _ => [] :=
  ⟨fun _ => .nil _ _, fun _ => .nil _ _, fun _ e he => by cases he⟩

/-- What node 1 prints lists only messages that their sources have logged. -/
theorem Linked.printed_logged (h : Linked rand T net) {messages : SourceNode → List (ℕ × Message)}
    {now : ℕ} (hsource : ∀ s, Chronicle (printMessage T) now (net.sourceLog s)
      (printedMessages (net.source s).history) (messages s)) {n : AggNode} {a : MessageAgg}
    (ha : a ∈ printedAggs (net.agg n).history) {p : ℕ × ℕ} (hp : p ∈ a.pairs) :
    ∃ s, ∃ e' ∈ messages s, e'.2.pair = p ∧ e'.1 ≤ now := by
  rcases n.aggregates_or with rfl | hid
  · obtain ⟨n, hflushed⟩ := h.printed_flushed ha
    obtain ⟨s, m, hm, rfl⟩ := h.listed_sent hflushed hp
    have hprinted : m ∈ (messages s).map Prod.snd := by
      rw [(hsource s).printed, (h.sound s).printed]
      exact hm
    obtain ⟨e', he', rfl⟩ := List.mem_map.1 hprinted
    exact ⟨s, e', he', rfl, (hsource s).bounded e' he'⟩
  · rw [(h.forwards hid).printed] at ha
    cases ha

/-- A step keeps the logs in order. -/
theorem Timed.step {aggs : AggNode → List (ℕ × MessageAgg)}
    {messages : SourceNode → List (ℕ × Message)} (ht : Timed T net aggs messages) {net' : Network}
    (h' : Linked rand T net') {aggNew : AggNode → History}
    {sourceNew : SourceNode → List (ℕ × SourceAction)}
    (hadds : StepAdds T net net' aggNew sourceNew) :
    Timed T net' (fun n => aggs n ++ (printedAggs (aggNew n)).map fun a => (net.time, a))
      fun s => messages s ++ (printedMessages (sourceNew s)).map fun m => (net.time, m) := by
  have hsource : ∀ s, Chronicle (printMessage T) net.time (net'.sourceLog s)
      (printedMessages (net'.source s).history)
      (messages s ++ (printedMessages (sourceNew s)).map fun m => (net.time, m)) := by
    intro s
    rw [hadds.sourceLog, hadds.source, printedMessages_append]
    exact (ht.source s).append _
  refine ⟨fun n => ?_, fun s => (hsource s).later hadds.time, fun n e he p hp => ?_⟩
  · rw [hadds.aggLog, hadds.agg, printedAggs_append]
    exact ((ht.agg n).append _).later hadds.time
  · rcases List.mem_append.1 he with he | he
    · obtain ⟨s, e', he', hpair, hle⟩ := ht.causal n e he p hp
      exact ⟨s, e', List.mem_append_left _ he', hpair, hle⟩
    · obtain ⟨a, ha, rfl⟩ := List.mem_map.1 he
      refine h'.printed_logged hsource (n := n) ?_ hp
      rw [hadds.agg, printedAggs_append]
      exact List.mem_append_right _ ha

theorem timed_run (rand : SourceNode → ℕ → ℕ) (T : Target) (steps : List NetStep) :
    ∃ aggs messages, Timed T (netRun rand T steps) aggs messages := by
  induction steps using List.reverseRecOn with
  | nil => exact ⟨_, _, timed_boot rand T⟩
  | append_singleton steps l ih =>
    obtain ⟨aggs, messages, ht⟩ := ih
    have h := linked_run rand T steps
    obtain ⟨aggNew, sourceNew, hadds⟩ := h.stepAdds l
    rw [netRun_concat]
    exact ⟨_, _, ht.step (h.step l) hadds⟩

end Runs

/-- **The logs are in causal order**, in every run of the network: the stamps of a log never go
back, and an aggregate is stamped no earlier than the messages it lists, whatever the network
delays, reorders or loses. -/
theorem logs_causal (rand : SourceNode → ℕ → ℕ) (T : Target) (steps : List NetStep) :
    ∃ aggs messages, Timed T (netRun rand T steps) aggs messages :=
  timed_run rand T steps

end WsnAggregation
