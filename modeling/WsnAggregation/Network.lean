import WsnAggregation.Lib.Channel
import WsnAggregation.Print
import WsnAggregation.Relay
import WsnAggregation.SourceRun

/-!
# The network

Nodes 1, 2 and 3 run the aggregator image, nodes 4 to 9 the source image. A step is a step of one
mote, the delivery or the loss of any datagram in flight, or the passing of simulation time.

What a mote sends in a step goes into flight; what it prints is stamped and added to its log as a
whole line. The clocks of the motes and the simulation time are independent.

* `Linked` — each mote is in a state of a run of its own, whatever was received or is in flight
  was sent, and the logs are the lines printed. `linked_run` proves it of every run.
-/

namespace WsnAggregation

open Contiki Lib

/-! ## Nodes -/

/-- The motes that run `aggregator.c`. -/
inductive AggNode where
  | node1
  | node2
  | node3
  deriving DecidableEq

instance : Fintype AggNode :=
  ⟨{.node1, .node2, .node3}, fun n => by cases n <;> decide⟩

/-- The motes that run `source.c`. -/
inductive SourceNode where
  | node4
  | node5
  | node6
  | node7
  | node8
  | node9
  deriving DecidableEq

instance : Fintype SourceNode :=
  ⟨{.node4, .node5, .node6, .node7, .node8, .node9}, fun s => by cases s <;> decide⟩

/-- The `node_id` of a mote. -/
def AggNode.nodeId : AggNode → ℕ
  | .node1 => 1
  | .node2 => 2
  | .node3 => 3

/-- The `node_id` of a mote. -/
def SourceNode.nodeId : SourceNode → ℕ
  | .node4 => 4
  | .node5 => 5
  | .node6 => 6
  | .node7 => 7
  | .node8 => 8
  | .node9 => 9

theorem SourceNode.nodeId_injective : Function.Injective SourceNode.nodeId := by
  decide

/-- The mote that has an address. -/
def receiver (dst : Ipaddr) : Option AggNode :=
  [AggNode.node1, .node2, .node3].find? fun n => linkLocal n.nodeId = dst

/-! ## Steps -/

/-- The state of the whole network. -/
structure Network where
  /-- The simulation time. -/
  time : ℕ
  agg : AggNode → AggMote
  source : SourceNode → SourceMote
  /-- The datagrams in flight, with their destinations. -/
  inFlight : List (Ipaddr × Payload)
  /-- The lines of the logs. -/
  aggLog : AggNode → List (List Char)
  sourceLog : SourceNode → List (List Char)

/-- The datagrams that carry the messages a source sends. -/
def messageDatagrams (h : List (ℕ × SourceAction)) : List (Ipaddr × Payload) :=
  (sentMessages h).map fun p => (p.1, .message p.2)

section Steps

variable (rand : SourceNode → ℕ → ℕ) (T : Target)

/-- An aggregator mote has taken a step to `m`: its new outputs go into flight and to its log. -/
def Network.putAgg (n : AggNode) (m : AggMote) (net : Network) : Network :=
  let new := m.history.drop (net.agg n).history.length
  { net with
    agg := Function.update net.agg n m
    inFlight := net.inFlight ++ sentDatagrams new
    aggLog := Function.update net.aggLog n
      (net.aggLog n ++ (printedAggs new).map fun a => stamp net.time (printMessageAgg T a)) }

/-- A source mote has taken a step to `m`. -/
def Network.putSource (s : SourceNode) (m : SourceMote) (net : Network) : Network :=
  let new := m.history.drop (net.source s).history.length
  { net with
    source := Function.update net.source s m
    inFlight := net.inFlight ++ messageDatagrams new
    sourceLog := Function.update net.sourceLog s
      (net.sourceLog s ++ (printedMessages new).map fun m => stamp net.time (printMessage T m)) }

/-- One step of the network. -/
inductive NetStep where
  /-- Simulation time passes. -/
  | elapse (d : ℕ)
  | agg (n : AggNode) (l : KernelStep)
  | source (s : SourceNode) (l : KernelStep)
  /-- The `k`-th datagram in flight reaches its destination. -/
  | deliver (k : ℕ)
  /-- The `k`-th datagram in flight is lost. -/
  | lose (k : ℕ)
  deriving DecidableEq

/-- The network after a step. -/
def netStep (net : Network) : NetStep → Network
  | .elapse d => { net with time := net.time + d }
  | .agg n l => net.putAgg T n (aggStep T n.nodeId (net.agg n) (.kernel l))
  | .source s l =>
    net.putSource T s (kernelStep (WsnAggregation.source (rand s) s.nodeId) T (net.source s) l)
  | .deliver k =>
    match net.inFlight[k]? with
    | none => net
    | some (dst, d) =>
      let net := { net with inFlight := net.inFlight.eraseIdx k }
      match receiver dst with
      | none => net
      | some n => net.putAgg T n (aggStep T n.nodeId (net.agg n) (.recv d))
  | .lose k => { net with inFlight := net.inFlight.eraseIdx k }

/-- The network when all motes have booted. -/
def netBoot : Network where
  time := 0
  agg := fun n => aggBoot T n.nodeId
  source := fun s => boot (WsnAggregation.source (rand s) s.nodeId) T
  inFlight := []
  aggLog := fun _ => []
  sourceLog := fun _ => []

/-- The network after a run. -/
def netRun (steps : List NetStep) : Network := steps.foldl (netStep rand T) (netBoot rand T)

theorem netRun_concat (steps : List NetStep) (l : NetStep) :
    netRun rand T (steps ++ [l]) = netStep rand T (netRun rand T steps) l := by
  simp [netRun, List.foldl_append]

theorem netStep_source_self (net : Network) (s : SourceNode) (l : KernelStep) :
    (netStep rand T net (.source s l)).source s =
      kernelStep (WsnAggregation.source (rand s) s.nodeId) T (net.source s) l :=
  Function.update_self ..

theorem netStep_source_of_ne (net : Network) {s : SourceNode} {l : NetStep}
    (hl : ∀ k, l ≠ .source s k) : (netStep rand T net l).source s = net.source s := by
  cases l with
  | source s' k =>
    have hs : s ≠ s' := by
      rintro rfl
      exact hl k rfl
    exact Function.update_of_ne hs ..
  | deliver i =>
    unfold netStep
    dsimp only
    split
    · rfl
    · split <;> rfl
  | _ => rfl

end Steps

/-! ## The invariant -/

/-- Everything the motes sent. -/
def Network.sent (net : Network) : Multiset (Ipaddr × Payload) :=
  (∑ n, (sentDatagrams (net.agg n).history : Multiset (Ipaddr × Payload))) +
    ∑ s, (messageDatagrams (net.source s).history : Multiset (Ipaddr × Payload))

/-- Everything delivered to a mote. -/
def Network.delivered (net : Network) : Multiset (Ipaddr × Payload) :=
  ∑ n, ((received (net.agg n).history).map fun d => (linkLocal n.nodeId, d) :
    Multiset (Ipaddr × Payload))

/-- The lines of a log are those printed, in order, each stamped at some time. -/
def Logged {α : Type} (print : α → List Char) (log : List (List Char)) (printed : List α) : Prop :=
  List.Forall₂ (fun line a => ∃ time, line = stamp time (print a)) log printed

theorem Logged.append {α : Type} {print : α → List Char} {log : List (List Char)} {printed : List α}
    (h : Logged print log printed) (time : ℕ) (new : List α) :
    Logged print (log ++ new.map fun a => stamp time (print a)) (printed ++ new) := by
  refine List.rel_append h ?_
  induction new with
  | nil => exact .nil
  | cons a new ih => exact .cons ⟨time, rfl⟩ ih

/-- What holds of every state of the network. -/
structure Linked (rand : SourceNode → ℕ → ℕ) (T : Target) (net : Network) : Prop where
  agg : ∀ n, ∃ steps, net.agg n = aggRun T n.nodeId steps
  source : ∀ s, ∃ steps, net.source s = sourceRun (rand s) T s.nodeId steps
  conserved : Conserved net.inFlight net.delivered net.sent
  aggLog : ∀ n, Logged (printMessageAgg T) (net.aggLog n) (printedAggs (net.agg n).history)
  sourceLog : ∀ s, Logged (printMessage T) (net.sourceLog s)
    (printedMessages (net.source s).history)

section Invariant

variable {rand : SourceNode → ℕ → ℕ} {T : Target} {net : Network}

theorem aggRun_dead (T : Target) (n : AggNode) (steps : List AggStep) :
    (aggRun T n.nodeId steps).kernel.Dead := by
  cases n with
  | node1 => exact (idle_run T steps).dead
  | node2 => exact (good_run T (Or.inl rfl) steps).dead
  | node3 => exact (good_run T (Or.inr rfl) steps).dead

theorem receiver_eq_some {dst : Ipaddr} {n : AggNode} (h : receiver dst = some n) :
    linkLocal n.nodeId = dst := by
  simpa using List.find?_some h

theorem netBoot_sent (rand : SourceNode → ℕ → ℕ) (T : Target) : (netBoot rand T).sent = 0 := by
  have hagg : ∑ n, (sentDatagrams ((netBoot rand T).agg n).history :
      Multiset (Ipaddr × Payload)) = 0 := Finset.sum_eq_zero fun n _ => rfl
  have hsource : ∑ s, (messageDatagrams ((netBoot rand T).source s).history :
      Multiset (Ipaddr × Payload)) = 0 := Finset.sum_eq_zero fun s _ => rfl
  rw [Network.sent, hagg, hsource, add_zero]

theorem netBoot_delivered (rand : SourceNode → ℕ → ℕ) (T : Target) :
    (netBoot rand T).delivered = 0 := Finset.sum_eq_zero fun _ _ => rfl

theorem linked_boot (rand : SourceNode → ℕ → ℕ) (T : Target) : Linked rand T (netBoot rand T) where
  agg := fun n => ⟨[], rfl⟩
  source := fun s => ⟨[], rfl⟩
  conserved := by
    rw [netBoot_sent, netBoot_delivered]
    exact Conserved.init
  aggLog := fun n => .nil
  sourceLog := fun s => .nil

/-! ### What a step adds -/

section Put

variable (net) {n : AggNode} {m : AggMote} {new : History} {s : SourceNode} {m' : SourceMote}
  {new' : List (ℕ × SourceAction)}

theorem Network.putAgg_eq (h : m.history = (net.agg n).history ++ new) :
    net.putAgg T n m =
      { net with
        agg := Function.update net.agg n m
        inFlight := net.inFlight ++ sentDatagrams new
        aggLog := Function.update net.aggLog n
          (net.aggLog n ++ (printedAggs new).map fun a => stamp net.time (printMessageAgg T a)) } := by
  simp only [Network.putAgg, h, List.drop_left]

theorem Network.sent_putAgg (h : m.history = (net.agg n).history ++ new) :
    (net.putAgg T n m).sent = net.sent + sentDatagrams new := by
  have hsent := sum_update net.agg n m
    (fun _ m => (sentDatagrams m.history : Multiset (Ipaddr × Payload))) (sentDatagrams new)
    (by rw [h, sentDatagrams_append, Multiset.coe_add])
  simp only [Network.putAgg, Network.sent, hsent]
  exact add_right_comm _ _ _

theorem Network.delivered_putAgg (h : m.history = (net.agg n).history ++ new) :
    (net.putAgg T n m).delivered =
      net.delivered + ((received new).map fun d => (linkLocal n.nodeId, d)) :=
  sum_update net.agg n m
    (fun n m => ((received m.history).map fun d => (linkLocal n.nodeId, d) :
      Multiset (Ipaddr × Payload)))
    ((received new).map fun d => (linkLocal n.nodeId, d))
    (by rw [h, received_append, List.map_append, ← Multiset.coe_add])

theorem Network.putSource_eq (h : m'.history = (net.source s).history ++ new') :
    net.putSource T s m' =
      { net with
        source := Function.update net.source s m'
        inFlight := net.inFlight ++ messageDatagrams new'
        sourceLog := Function.update net.sourceLog s
          (net.sourceLog s ++ (printedMessages new').map fun m =>
            stamp net.time (printMessage T m)) } := by
  simp only [Network.putSource, h, List.drop_left]

theorem Network.sent_putSource (h : m'.history = (net.source s).history ++ new') :
    (net.putSource T s m').sent = net.sent + messageDatagrams new' := by
  have hsent := sum_update net.source s m'
    (fun _ m => (messageDatagrams m.history : Multiset (Ipaddr × Payload)))
    (messageDatagrams new')
    (by rw [h, messageDatagrams, sentMessages_append, List.map_append, ← Multiset.coe_add]
        rfl)
  simp only [Network.putSource, Network.sent, hsent]
  exact (add_assoc _ _ _).symm

end Put

theorem Linked.aggStep_history (h : Linked rand T net) (n : AggNode) (l : AggStep) :
    ∃ new, (aggStep T n.nodeId (net.agg n) l).history = (net.agg n).history ++ new ∧
      received new = l.payload := by
  obtain ⟨steps, hrun⟩ := h.agg n
  exact WsnAggregation.aggStep_history T n.nodeId (hrun ▸ aggRun_dead T n steps) l

theorem source_history (rand : ℕ → ℕ) (T : Target) (s : SourceNode) (m : SourceMote)
    (l : KernelStep) : ∃ new, (kernelStep (WsnAggregation.source rand s.nodeId) T m l).history =
      m.history ++ new := by
  have happends : (WsnAggregation.source rand s.nodeId).Appends T := source_appends
  obtain ⟨new, hhist⟩ := kernelStep_prefix happends m l
  exact ⟨new, hhist.symm⟩

/-- A step of an aggregator mote, which may be the reception of datagrams that `delivered`
already counts. -/
theorem Linked.putAgg (h : Linked rand T net) (n : AggNode) (l : AggStep) {inFlight : List _}
    (hcons : Conserved inFlight (net.delivered +
      (l.payload.map fun d => (linkLocal n.nodeId, d) : Multiset (Ipaddr × Payload))) net.sent) :
    Linked rand T ({ net with inFlight := inFlight }.putAgg T n
      (aggStep T n.nodeId (net.agg n) l)) := by
  obtain ⟨steps, hrun⟩ := h.agg n
  obtain ⟨new, hhist, hrecv⟩ := h.aggStep_history n l
  have hput := Network.putAgg_eq (T := T) { net with inFlight := inFlight } hhist
  refine {
    agg := fun n' => ?_
    source := h.source
    conserved := ?_
    aggLog := fun n' => ?_
    sourceLog := h.sourceLog }
  · by_cases hn : n' = n
    · subst hn
      refine ⟨steps ++ [l], ?_⟩
      rw [aggRun_concat, ← hrun]
      exact Function.update_self ..
    · obtain ⟨steps', hrun'⟩ := h.agg n'
      exact ⟨steps', (Function.update_of_ne hn ..).trans hrun'⟩
  · rw [Network.delivered_putAgg { net with inFlight := inFlight } hhist,
      Network.sent_putAgg { net with inFlight := inFlight } hhist, hput, hrecv]
    exact hcons.send _
  · rw [hput]
    by_cases hn : n' = n
    · subst hn
      simp only [Function.update_self]
      rw [hhist, printedAggs_append]
      exact (h.aggLog n').append _ _
    · simp only [Function.update_of_ne hn]
      exact h.aggLog n'

theorem Linked.putSource (h : Linked rand T net) (s : SourceNode) (l : KernelStep) :
    Linked rand T (net.putSource T s
      (kernelStep (WsnAggregation.source (rand s) s.nodeId) T (net.source s) l)) := by
  obtain ⟨steps, hrun⟩ := h.source s
  obtain ⟨new, hhist⟩ := source_history (rand s) T s (net.source s) l
  have hput := net.putSource_eq (T := T) hhist
  refine {
    agg := h.agg
    source := fun s' => ?_
    conserved := ?_
    aggLog := h.aggLog
    sourceLog := fun s' => ?_ }
  · by_cases hs : s' = s
    · subst hs
      refine ⟨steps ++ [l], ?_⟩
      rw [sourceRun, List.foldl_append, ← sourceRun, ← hrun]
      exact Function.update_self ..
    · obtain ⟨steps', hrun'⟩ := h.source s'
      exact ⟨steps', (Function.update_of_ne hs ..).trans hrun'⟩
  · rw [net.sent_putSource hhist, hput]
    exact h.conserved.send _
  · rw [hput]
    by_cases hs : s' = s
    · subst hs
      simp only [Function.update_self]
      rw [hhist, printedMessages_append]
      exact (h.sourceLog s').append _ _
    · simp only [Function.update_of_ne hs]
      exact h.sourceLog s'

theorem Linked.step (h : Linked rand T net) (l : NetStep) : Linked rand T (netStep rand T net l) := by
  cases l with
  | elapse d => exact { h with }
  | agg n l => exact h.putAgg n (.kernel l) (by simpa [AggStep.payload] using h.conserved)
  | source s l => exact h.putSource s l
  | lose k => exact { h with conserved := h.conserved.lose k }
  | deliver k =>
    unfold netStep
    dsimp only
    split
    · exact h
    · rename_i dst d hk
      split
      · exact { h with conserved := h.conserved.lose k }
      · rename_i n hn
        refine h.putAgg n (.recv d) ?_
        rw [receiver_eq_some hn]
        exact h.conserved.deliver hk

/-- **The invariant holds of every run of the network.** -/
theorem linked_run (rand : SourceNode → ℕ → ℕ) (T : Target) (steps : List NetStep) :
    Linked rand T (netRun rand T steps) := by
  induction steps using List.reverseRecOn with
  | nil => exact linked_boot rand T
  | append_singleton steps l ih =>
    rw [netRun_concat]
    exact ih.step l

end Invariant

end WsnAggregation
