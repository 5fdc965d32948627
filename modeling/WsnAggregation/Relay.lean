import WsnAggregation.Sink

/-!
# What a mote takes in and gives out

The inputs and outputs of the motes of the chain 3 → 2 → 1, read off their histories.

* `aggStep_history` — a step extends the history, by one reception if it is the delivery of a
  datagram and by none otherwise.
* `Forwards` — nodes 2 and 3 send each aggregate that they built or received once, to the next
  node, and print nothing. `Drains` — node 1 prints each aggregate it received once, and sends
  nothing.
* `Relayed` — what the callback does to the batch when an aggregate of another node arrives.
-/

namespace WsnAggregation

open Contiki Lib

/-! ## Inputs and outputs -/

/-- The datagrams received, in order. -/
def received (h : History) : List Payload :=
  h.filterMap fun e => match e.2 with
    | .recv d => some d
    | _ => none

/-- The datagrams sent, in order, with their destinations. -/
def sentDatagrams (h : History) : List (Ipaddr × Payload) :=
  h.filterMap fun e => match e.2 with
    | .sent dst d => some (dst, d)
    | _ => none

/-- The aggregates printed, in order. -/
def printedAggs (h : History) : List MessageAgg :=
  h.filterMap fun e => match e.2 with
    | .printed a => some a
    | _ => none

/-- The aggregates built in flushes, in order. -/
def flushedAggs (h : History) : List MessageAgg :=
  h.filterMap fun e => match e.2 with
    | .flushed _ a => some a
    | _ => none

/-- The message in a datagram, if it carries one from a node of the map. -/
def Payload.messageFrom? (map : Fin numNodes → ℕ) : Payload → Option Message
  | .message m => if ∃ i, map i = m.nodeId then some m else none
  | _ => none

/-- The aggregate in a datagram, if it carries one. -/
def Payload.messageAgg? : Payload → Option MessageAgg
  | .messageAgg a => some a
  | _ => none

/-- The aggregates received, in order. -/
def receivedAggs (h : History) : List MessageAgg := (received h).filterMap Payload.messageAgg?

section Append

variable (h h' : History)

@[simp] theorem received_append : received (h ++ h') = received h ++ received h' :=
  List.filterMap_append

@[simp] theorem sentDatagrams_append :
    sentDatagrams (h ++ h') = sentDatagrams h ++ sentDatagrams h' := List.filterMap_append

@[simp] theorem printedAggs_append : printedAggs (h ++ h') = printedAggs h ++ printedAggs h' :=
  List.filterMap_append

@[simp] theorem flushedAggs_append : flushedAggs (h ++ h') = flushedAggs h ++ flushedAggs h' :=
  List.filterMap_append

@[simp] theorem receivedAggs_append : receivedAggs (h ++ h') = receivedAggs h ++ receivedAggs h' := by
  rw [receivedAggs, received_append, List.filterMap_append]
  rfl

end Append

theorem receivedFrom_eq (map : Fin numNodes → ℕ) (h : History) :
    receivedFrom map h = (received h).filterMap (Payload.messageFrom? map) := by
  rw [receivedFrom, received, List.filterMap_filterMap]
  refine List.filterMap_congr fun x _ => ?_
  obtain ⟨t, e⟩ := x
  cases e with
  | recv d => cases d <;> rfl
  | _ => rfl

/-! ## One step -/

/-- The history of `m'` extends that of `m`, without a reception. -/
def Emits (m m' : AggMote) : Prop := ∃ new, m'.history = m.history ++ new ∧ received new = []

namespace Emits

theorem of_eq {m m' : AggMote} (h : m'.history = m.history) : Emits m m' :=
  ⟨[], by rw [h, List.append_nil], rfl⟩

theorem trans {a b c : AggMote} (h₁ : Emits a b) (h₂ : Emits b c) : Emits a c := by
  obtain ⟨new₁, heq₁, hr₁⟩ := h₁
  obtain ⟨new₂, heq₂, hr₂⟩ := h₂
  exact ⟨new₁ ++ new₂, by rw [heq₂, heq₁, List.append_assoc], by rw [received_append, hr₁, hr₂]; rfl⟩

theorem emit {m m' : AggMote} (h : m'.history = m.history) {e : Action} (he : ∀ d, e ≠ .recv d) :
    Emits m (m'.emit e) := by
  refine ⟨[(m'.kernel.clock, e)], by rw [Mote.emit_history, h], ?_⟩
  cases e with
  | recv d => exact absurd rfl (he d)
  | _ => rfl

theorem foldl {α : Type} (f : AggMote → α → AggMote) (hf : ∀ m a, Emits m (f m a)) (l : List α)
    (m : AggMote) : Emits m (l.foldl f m) := by
  induction l generalizing m with
  | nil => exact of_eq rfl
  | cons a l ih => exact (hf m a).trans (ih (f m a))

end Emits

section Step

variable (T : Target) (nodeId : ℕ)

theorem storeSlot_emits (message : Message) (m : AggMote) (i : Fin numNodes) :
    Emits m (storeSlot message m i) := by
  unfold storeSlot
  split_ifs
  · exact Emits.emit rfl (by simp)
  · exact Emits.emit rfl (by simp)
  · exact Emits.of_eq rfl

theorem handle_emits (d : Payload) (m : AggMote) : Emits m (handle nodeId d m) := by
  cases d with
  | message message =>
    unfold handle
    dsimp only
    split_ifs
    · exact Emits.foldl _ (storeSlot_emits message) _ m
    · exact Emits.of_eq rfl
  | messageAgg a =>
    unfold handle
    dsimp only
    split_ifs
    · exact Emits.emit rfl (by simp)
    · exact Emits.emit rfl (by simp)
  | other n => exact Emits.of_eq rfl

theorem closed_emits (m : AggMote) : Emits m (closed T nodeId m) := by
  unfold closed flush
  split_ifs
  · exact (Emits.emit rfl (by simp)).trans ((Emits.emit rfl (by simp)).trans (Emits.of_eq rfl))
  · exact (Emits.emit rfl (by simp)).trans (Emits.of_eq rfl)
  · exact Emits.of_eq rfl

/-- The datagram that a step delivers, if it does. -/
def AggStep.payload : AggStep → List Payload
  | .recv d => [d]
  | .kernel _ => []

/-- A step extends the history, and what it delivers is the one thing that is received. -/
theorem aggStep_history {m : AggMote} (hd : m.kernel.Dead) (l : AggStep) :
    ∃ new, (aggStep T nodeId m l).history = m.history ++ new ∧ received new = l.payload := by
  cases l with
  | kernel l =>
    have ha := kernelStep_asleep (aggregator nodeId) T l hd
    exact ⟨[], by rw [List.append_nil]; exact ha.history, rfl⟩
  | recv d =>
    obtain ⟨new, heq, hr⟩ := (handle_emits nodeId d (entered T nodeId d m)).trans
      (closed_emits T nodeId _)
    refine ⟨(m.kernel.clock, .recv d) :: new, ?_, ?_⟩
    · rw [entered_history, List.append_assoc] at heq
      exact heq
    · change received ([(m.kernel.clock, .recv d)] ++ new) = [d]
      rw [received_append, hr]
      rfl

end Step

/-! ## The chain -/

/-- What node 2 or 3 gives out. -/
structure Forwards (nodeId : ℕ) (h : History) : Prop where
  /-- Each aggregate that was built or received is sent on once. -/
  sent : (sentDatagrams h : Multiset (Ipaddr × Payload)) =
    ((flushedAggs h : Multiset MessageAgg) + receivedAggs h).map fun a =>
      (linkLocal (nodeId - 1), .messageAgg a)
  printed : printedAggs h = []

/-- What node 1 gives out. -/
structure Drains (h : History) : Prop where
  sent : sentDatagrams h = []
  flushed : flushedAggs h = []
  accounted : accounted h = []
  /-- Each aggregate received is printed once. -/
  printed : printedAggs h = receivedAggs h

section Chain

variable {T : Target} {nodeId : ℕ}

theorem forwardIpaddr_of_aggregates (hid : Aggregates nodeId) (a : Aggregator) :
    (setForwardIpaddr nodeId a).forwardIpaddr = linkLocal (nodeId - 1) := by
  rcases hid with rfl | rfl <;> rfl

theorem Forwards.append {h h' : History} (hf : Forwards nodeId h) (hf' : Forwards nodeId h') :
    Forwards nodeId (h ++ h') := by
  refine ⟨?_, by rw [printedAggs_append, hf.printed, hf'.printed]; rfl⟩
  rw [sentDatagrams_append, flushedAggs_append, receivedAggs_append, ← Multiset.coe_add,
    ← Multiset.coe_add, ← Multiset.coe_add, add_add_add_comm, Multiset.map_add, hf.sent, hf'.sent]

theorem Handled.forwards {m m' : AggMote} {d : Payload} (h : Handled nodeId m d m')
    (haddr : m.app.forwardIpaddr = linkLocal (nodeId - 1)) {past : History}
    (hf : Forwards nodeId past) (hh : m.history = past ++ [(m.kernel.clock, .recv d)]) :
    Forwards nodeId m'.history ∧ m'.app.forwardIpaddr = linkLocal (nodeId - 1) := by
  cases h with
  | unmapped =>
    refine ⟨?_, haddr⟩
    rw [hh]
    exact hf.append ⟨rfl, rfl⟩
  | stored =>
    refine ⟨?_, haddr⟩
    rw [Mote.emit_history, onApp_history, hh]
    exact (hf.append ⟨rfl, rfl⟩).append ⟨rfl, rfl⟩
  | missed =>
    refine ⟨?_, haddr⟩
    rw [Mote.emit_history, onApp_history, hh]
    exact (hf.append ⟨rfl, rfl⟩).append ⟨rfl, rfl⟩
  | relayed a =>
    refine ⟨?_, haddr⟩
    rw [Mote.emit_history, haddr, hh, List.append_assoc]
    exact hf.append ⟨rfl, rfl⟩
  | ignored =>
    refine ⟨?_, haddr⟩
    rw [hh]
    exact hf.append ⟨rfl, rfl⟩

theorem Forwards.receive (hid : Aggregates nodeId) {m : AggMote}
    (hmap : m.app.nodeMap = nodeMapOf nodeId) (hf : Forwards nodeId m.history) (d : Payload) :
    Forwards nodeId (receive T nodeId d m).history := by
  have hh := handled hid (m := entered T nodeId d m)
    (by rw [entered_app, setForwardIpaddr_nodeMap, hmap]) d
  obtain ⟨hf', haddr⟩ := hh.forwards
    (by rw [entered_app]; exact forwardIpaddr_of_aggregates hid m.app) hf
    (by rw [entered_history, entered_clock])
  rw [receive_eq, Mote.onKernel_history, closed]
  split_ifs
  · rw [flush_history hid, haddr, List.append_assoc]
    exact hf'.append ⟨rfl, rfl⟩
  · exact hf'

/-- **Nodes 2 and 3 send each aggregate on once**, in every run. -/
theorem forwards_run (T : Target) (hid : Aggregates nodeId) (steps : List AggStep) :
    Forwards nodeId (aggRun T nodeId steps).history := by
  induction steps using List.reverseRecOn with
  | nil => exact ⟨rfl, rfl⟩
  | append_singleton steps l ih =>
    have hg := good_run T hid steps
    rw [aggRun_concat]
    cases l with
    | kernel l =>
      have ha := kernelStep_asleep (aggregator nodeId) T l hg.dead
      rw [aggStep, ha.history]
      exact ih
    | recv d => exact ih.receive hid hg.tracks.nodeMap d

/-- **Node 1 prints each aggregate once**, in every run. -/
theorem drains_run (T : Target) (steps : List AggStep) : Drains (aggRun T 1 steps).history := by
  induction steps using List.reverseRecOn with
  | nil => exact ⟨rfl, rfl, rfl, rfl⟩
  | append_singleton steps l ih =>
    obtain ⟨hs, hf, ha, hp⟩ := ih
    rw [aggRun_concat, ((idle_run T steps).step l).2]
    cases l with
    | kernel l =>
      rw [List.append_nil]
      exact ⟨hs, hf, ha, hp⟩
    | recv d =>
      have hacc : accounted ((aggRun T 1 steps).history ++
          (sinkActions d).map fun e => ((aggRun T 1 steps).kernel.clock, e)) = [] := by
        rw [accounted, List.filterMap_append]
        change accounted _ ++ _ = []
        rw [ha]
        cases d <;> rfl
      refine ⟨?_, ?_, hacc, ?_⟩
      · rw [sentDatagrams_append, hs]
        cases d <;> rfl
      · rw [flushedAggs_append, hf]
        cases d <;> rfl
      · rw [printedAggs_append, receivedAggs_append, hp]
        cases d <;> rfl

end Chain

/-! ## A relay and the batch -/

/-- What node 2 or 3 does with an aggregate of another node: it is sent on; the batch, if its
timer has expired, is then closed as it stands, and stays as it is otherwise. -/
inductive Relayed (T : Target) (nodeId : ℕ) (m : AggMote) (a : MessageAgg) (m' : AggMote) : Prop
  | kept (happ : m'.app = setForwardIpaddr nodeId m.app)
      (hhist : m'.history = m.history ++ [(m.kernel.clock, .recv (.messageAgg a)),
        (m.kernel.clock, .sent (linkLocal (nodeId - 1)) (.messageAgg a))])
  | timedOut (hopen : m.app.messageCount ≠ 0) (hexp : m.kernel.etimerExpired .app = true)
      (happ : m'.app = resetBatch (setForwardIpaddr nodeId m.app))
      (hhist : m'.history = m.history ++ [(m.kernel.clock, .recv (.messageAgg a)),
        (m.kernel.clock, .sent (linkLocal (nodeId - 1)) (.messageAgg a)),
        (m.kernel.clock, .flushed m.app.messageCount (aggMessage T nodeId m.app)),
        (m.kernel.clock,
          .sent (linkLocal (nodeId - 1)) (.messageAgg (aggMessage T nodeId m.app)))])

theorem aggMessage_setForwardIpaddr (T : Target) (nodeId : ℕ) (a : Aggregator) :
    aggMessage T nodeId (setForwardIpaddr nodeId a) = aggMessage T nodeId a := by
  unfold setForwardIpaddr
  split_ifs <;> rfl

/-- **An aggregate passes through without touching the batch.** -/
theorem relayed_receive {T : Target} {nodeId : ℕ} (hid : Aggregates nodeId) {m : AggMote}
    (hg : Good T nodeId m) (a : MessageAgg) :
    Relayed T nodeId m a (receive T nodeId (.messageAgg a) m) := by
  have haddr := forwardIpaddr_of_aggregates hid m.app
  have happ := entered_app T nodeId (.messageAgg a) m
  have hclock := entered_clock T nodeId (.messageAgg a) m
  have hhist := entered_history T nodeId (.messageAgg a) m
  have hhandle : handle nodeId (.messageAgg a) (entered T nodeId (.messageAgg a) m) =
      (entered T nodeId (.messageAgg a) m).emit (.sent (linkLocal (nodeId - 1)) (.messageAgg a)) := by
    simp only [handle, if_pos hid.ne_one]
    rw [happ, haddr]
  have hout : ((entered T nodeId (.messageAgg a) m).emit
      (.sent (linkLocal (nodeId - 1)) (.messageAgg a))).history =
      m.history ++ [(m.kernel.clock, .recv (.messageAgg a)),
        (m.kernel.clock, .sent (linkLocal (nodeId - 1)) (.messageAgg a))] := by
    rw [Mote.emit_history, hhist, hclock, List.append_assoc]
    rfl
  have hcount : (setForwardIpaddr nodeId m.app).messageCount = m.app.messageCount :=
    setForwardIpaddr_messageCount nodeId m.app
  rw [receive_eq, hhandle, closed]
  split_ifs with hdue
  · -- The batch is not full between callbacks, and an empty batch has a new timer.
    have hlt := hg.partial_batch
    rw [flushDue, Mote.emit_app, Mote.emit_kernel, happ, hcount] at hdue
    have hexp : (entered T nodeId (.messageAgg a) m).kernel.etimerExpired .app = true := by
      simp only [Bool.or_eq_true, decide_eq_true_eq] at hdue
      exact hdue.resolve_left (by omega)
    have hopen : m.app.messageCount ≠ 0 := by
      intro h0
      rw [Kernel.etimerExpired, entered_timer_of_empty T nodeId _ m h0] at hexp
      exact absurd hexp (by simp)
    refine .timedOut hopen ?_ ?_ ?_
    · rw [entered_kernel_of_open T nodeId _ m hopen] at hexp
      exact hexp
    · rw [Mote.onKernel_app, flush_app, Mote.emit_app, happ]
    · rw [Mote.onKernel_history, flush_history hid, hout]
      rw [Mote.emit_app, Mote.emit_kernel, happ, hcount, hclock, haddr,
        aggMessage_setForwardIpaddr, List.append_assoc, List.append_assoc]
      rfl
  · refine .kept ?_ ?_
    · rw [Mote.onKernel_app, Mote.emit_app, happ]
    · rw [Mote.onKernel_history, hout]

end WsnAggregation
