import WsnAggregation.AggregatorRun

/-!
# Accounting of the source messages

Nothing a mapped source sends to its aggregator vanishes there: each message is stored in one
batch or counted as missed in one batch.

* `delivered` — the messages a run delivers from the nodes of a map, read off the steps.
* `receivedFrom_run` — the history records exactly these.
* `accounting` — the flags, the slots and the counters agree with them, in every run.
-/

namespace WsnAggregation

open Contiki Lib

/-! ## Deliveries -/

/-- The messages that a run delivers from the nodes of a map, in order. -/
def delivered (map : Fin numNodes → ℕ) (steps : List AggStep) : List Message :=
  steps.filterMap fun l => match l with
    | .recv (.message m) => if ∃ i, map i = m.nodeId then some m else none
    | _ => none

/-- What the callback records after the datagram itself is no reception. -/
theorem receivedFrom_concat_of_not_recv (map : Fin numNodes → ℕ) (h : History) (t : ℕ)
    {e : Action} (he : ∀ d, e ≠ .recv d) :
    receivedFrom map (h ++ [(t, e)]) = receivedFrom map h := by
  cases e <;> simp_all [receivedFrom]

theorem Handled.receivedFrom {nodeId : ℕ} {m m' : AggMote} {d : Payload}
    (h : Handled nodeId m d m') (map : Fin numNodes → ℕ) :
    receivedFrom map m'.history = receivedFrom map m.history := by
  cases h with
  | unmapped => rfl
  | ignored => rfl
  | stored => exact receivedFrom_concat_of_not_recv map _ _ (by simp)
  | missed => exact receivedFrom_concat_of_not_recv map _ _ (by simp)
  | relayed => exact receivedFrom_concat_of_not_recv map _ _ (by simp)

variable {T : Target} {nodeId : ℕ}

theorem closed_receivedFrom (hid : Aggregates nodeId) (map : Fin numNodes → ℕ) (m : AggMote) :
    receivedFrom map (closed T nodeId m).history = receivedFrom map m.history := by
  unfold closed
  split_ifs
  · rw [flush_history hid, receivedFrom_concat_of_not_recv map _ _ (by simp),
      receivedFrom_concat_of_not_recv map _ _ (by simp)]
  · rfl

/-- One delivery extends the history by one reception. -/
theorem receive_receivedFrom (hid : Aggregates nodeId) {m : AggMote}
    (hmap : m.app.nodeMap = nodeMapOf nodeId) (d : Payload) (map : Fin numNodes → ℕ) :
    receivedFrom map (receive T nodeId d m).history =
      receivedFrom map m.history ++ delivered map [.recv d] := by
  have hh := handled hid (m := entered T nodeId d m)
    (by rw [entered_app, setForwardIpaddr_nodeMap, hmap]) d
  rw [receive_eq, Mote.onKernel_history, closed_receivedFrom hid, hh.receivedFrom,
    entered_history]
  cases d with
  | message message =>
    by_cases hm : ∃ i, map i = message.nodeId <;> simp [receivedFrom, delivered, hm]
  | _ => simp [receivedFrom, delivered]

theorem delivered_concat (map : Fin numNodes → ℕ) (steps : List AggStep) (l : AggStep) :
    delivered map (steps ++ [l]) = delivered map steps ++ delivered map [l] := by
  simp only [delivered, List.filterMap_append]

theorem receivedFrom_run (T : Target) (hid : Aggregates nodeId) (map : Fin numNodes → ℕ)
    (steps : List AggStep) :
    receivedFrom map (aggRun T nodeId steps).history = delivered map steps := by
  induction steps using List.reverseRecOn with
  | nil => rfl
  | append_singleton steps l ih =>
    have hg := good_run T hid steps
    rw [aggRun_concat, delivered_concat, ← ih]
    cases l with
    | kernel l =>
      have ha := kernelStep_asleep (aggregator nodeId) T l hg.dead
      rw [show aggStep T nodeId (aggRun T nodeId steps) (.kernel l) =
        kernelStep (aggregator nodeId) T (aggRun T nodeId steps) l from rfl, ha.history]
      simp [delivered]
    | recv d => exact receive_receivedFrom hid hg.tracks.nodeMap d map

/-! ## The books of a run -/

/-- The memory of a mote accounts for the messages delivered to it. -/
structure Accounts (m : AggMote) (messages : List Message) : Prop where
  /-- `message_count` is the number of slots marked as received, at most `NUM_NODES`. -/
  count : m.app.messageCount = m.app.filled.card
  count_le : m.app.messageCount ≤ numNodes
  /-- A marked slot holds the first message received from its node since the last flush. -/
  first : ∀ i, m.app.nodesRecieved i = true →
    firstFrom (m.app.nodeMap i) (openReceived m.history) = some (m.app.messageArray i)
  /-- The counters of all flushes and the current ones add up to the messages delivered. -/
  total : (messages.length : ℤ) ≡
    flushTotal m.history + m.app.messageCount + m.app.messagesMissed [ZMOD 2 ^ 16]
  /-- Each message is stored once or counted as missed once, in the order of delivery. -/
  once : accounted m.history = messages

/-- **Every message of a mapped source is accounted for**, in every run of nodes 2 and 3. -/
theorem accounting (T : Target) {nodeId : ℕ} (hid : Aggregates nodeId) (steps : List AggStep) :
    Accounts (aggRun T nodeId steps)
      (delivered (aggRun T nodeId steps).app.nodeMap steps) := by
  have hg := good_run T hid steps
  have hmap := hg.tracks.nodeMap
  refine {
    count := hg.tracks.count
    count_le := hg.partial_batch.le
    first := fun i hi => ?_
    total := ?_
    once := ?_ }
  · rw [hmap]
    exact hg.tracks.filledFirst i hi
  · rw [← receivedFrom_run T hid, hmap]
    exact hg.tracks.total
  · rw [← receivedFrom_run T hid, hmap]
    exact hg.tracks.accounted

/-- A run of node 2 with a first message and a duplicate of its source, closed by a relay that
arrives after the timeout. -/
def duplicateRun : List AggStep :=
  [.recv (.message { nodeId := 5, sample := 20, msgId := 1 }),
   .recv (.message { nodeId := 5, sample := 21, msgId := 2 }),
   .recv (.message { nodeId := 8, sample := 90, msgId := 1 }),
   .kernel (.tick 640), .kernel .poll, .recv (.other 0),
   .recv (.message { nodeId := 5, sample := 22, msgId := 3 })]

theorem accounting_duplicateRun :
    (delivered (aggRun .sky 2 duplicateRun).app.nodeMap duplicateRun).length = 3 ∧
      Accounts (aggRun .sky 2 duplicateRun)
        (delivered (aggRun .sky 2 duplicateRun).app.nodeMap duplicateRun) :=
  ⟨by decide +kernel, accounting .sky (Or.inl rfl) duplicateRun⟩

end WsnAggregation
