import WsnAggregation.Message
import WsnAggregation.Contiki.Process

/-!
# The aggregator firmware

`aggregator.c`: the batch of an aggregating node, its weighted mean, and the receive callback
that stores, relays, prints and flushes. One image runs on nodes 1, 2 and 3 and chooses its role
by `node_id`.

`udp_server_process` sets up the node map, registers the callback and ends; everything after
that happens in `udpRxCallback`.
-/

namespace WsnAggregation

open Contiki

/-- The static variables of `aggregator.c`. -/
structure Aggregator where
  forwardIpaddr : Ipaddr := []
  messageArray : Fin numNodes → Message := fun _ => {}
  nodeMap : Fin numNodes → ℕ := fun _ => 0
  nodesRecieved : Fin numNodes → Bool := fun _ => false
  messagesMissed : ℕ := 0
  messageCount : ℕ := 0

/-- What the firmware does, in the order it does it. `sent` and `printed` are its outputs; the
others record the reception of a datagram and the writes to the batch. -/
inductive Action where
  /-- The callback is entered with a datagram. -/
  | recv (d : Payload)
  /-- A message is written to its slot. -/
  | stored (m : Message)
  /-- A message is counted as missed. -/
  | missed (m : Message)
  /-- `simple_udp_sendto`. -/
  | sent (dst : Ipaddr) (d : Payload)
  /-- `print_message_agg`. -/
  | printed (a : MessageAgg)
  /-- A batch of `count` messages is closed. -/
  | flushed (count : ℕ) (a : MessageAgg)
  deriving DecidableEq

/-- A mote running the aggregator firmware. -/
abbrev AggMote : Type := Mote Aggregator Action

/-! ## Weighted mean -/

/-- The weight of a sample of the given variance. -/
def weightOf (variance : ℚ) : ℚ := if variance = 0 then 1 else 1 / variance

/-- `aggregate_data`: the two accumulators of the loop, then the guarded division. -/
def aggregateData {n : ℕ} (variances samples : Fin n → ℚ) : ℚ :=
  let sums := (List.finRange n).foldl
    (fun (acc : ℚ × ℚ) i =>
      let weight := weightOf (variances i)
      (acc.1 + weight * samples i, acc.2 + weight))
    (0, 0)
  if sums.2 ≠ 0 then sums.1 / sums.2 else 0

/-- `construct_distribution_array`. -/
def constructDistributionArray {n : ℕ} (messageArray : Fin n → Message) :
    (Fin n → ℚ) × (Fin n → ℚ) :=
  (fun i => (messageArray i).variance, fun i => (messageArray i).sample)

/-! ## The receive callback -/

/-- `TIMEOUT_THRESHOLD`. -/
def Target.timeoutThreshold (T : Target) : ℕ := T.clockSecond * 5

/-- Change the firmware's memory only. -/
def onApp (f : Aggregator → Aggregator) (m : AggMote) : AggMote := { m with app := f m.app }

@[simp] theorem onApp_app (f : Aggregator → Aggregator) (m : AggMote) :
    (onApp f m).app = f m.app := rfl
@[simp] theorem onApp_kernel (f : Aggregator → Aggregator) (m : AggMote) :
    (onApp f m).kernel = m.kernel := rfl
@[simp] theorem onApp_history (f : Aggregator → Aggregator) (m : AggMote) :
    (onApp f m).history = m.history := rfl

/-- The next hop: node 2 forwards to node 1, node 3 to node 2. -/
def setForwardIpaddr (nodeId : ℕ) (a : Aggregator) : Aggregator :=
  if nodeId = 2 then
    { a with forwardIpaddr := [0xfe80, 0, 0, 0, 0x0212, 0x7401, 0x0001, 0x0101] }
  else if nodeId = 3 then
    { a with forwardIpaddr := [0xfe80, 0, 0, 0, 0x0212, 0x7402, 0x0002, 0x0202] }
  else a

/-- Start the timer while no message is stored. -/
def startTimer (T : Target) (m : AggMote) : AggMote :=
  if m.app.messageCount = 0 then m.onKernel fun k => k.etimerSet T .app T.timeoutThreshold else m

/-- Write a message to slot `i`. -/
def storeMessage (i : Fin numNodes) (message : Message) (a : Aggregator) : Aggregator :=
  { a with
    messageArray := Function.update a.messageArray i message
    nodesRecieved := Function.update a.nodesRecieved i true
    messageCount := a.messageCount + 1 }

/-- Count a message as missed. -/
def countMissed (a : Aggregator) : Aggregator :=
  { a with messagesMissed := (a.messagesMissed + 1) % 65536 }

section Updates

variable (a : Aggregator) {i j : Fin numNodes} (message : Message)

@[simp] theorem storeMessage_nodeMap : (storeMessage i message a).nodeMap = a.nodeMap := rfl
@[simp] theorem storeMessage_messageCount :
    (storeMessage i message a).messageCount = a.messageCount + 1 := rfl
@[simp] theorem storeMessage_messagesMissed :
    (storeMessage i message a).messagesMissed = a.messagesMissed := rfl
@[simp] theorem storeMessage_messageArray_self :
    (storeMessage i message a).messageArray i = message := Function.update_self ..
@[simp] theorem storeMessage_nodesRecieved_self :
    (storeMessage i message a).nodesRecieved i = true := Function.update_self ..

theorem storeMessage_messageArray_of_ne (h : j ≠ i) :
    (storeMessage i message a).messageArray j = a.messageArray j := Function.update_of_ne h ..

theorem storeMessage_nodesRecieved_of_ne (h : j ≠ i) :
    (storeMessage i message a).nodesRecieved j = a.nodesRecieved j := Function.update_of_ne h ..

@[simp] theorem countMissed_nodeMap : (countMissed a).nodeMap = a.nodeMap := rfl
@[simp] theorem countMissed_messageArray : (countMissed a).messageArray = a.messageArray := rfl
@[simp] theorem countMissed_nodesRecieved : (countMissed a).nodesRecieved = a.nodesRecieved := rfl
@[simp] theorem countMissed_messageCount : (countMissed a).messageCount = a.messageCount := rfl
@[simp] theorem countMissed_messagesMissed :
    (countMissed a).messagesMissed = (a.messagesMissed + 1) % 65536 := rfl

end Updates

/-- One round of the store loop. -/
def storeSlot (message : Message) (m : AggMote) (i : Fin numNodes) : AggMote :=
  if m.app.nodeMap i = message.nodeId then
    if !m.app.nodesRecieved i then
      (onApp (storeMessage i message) m).emit (.stored message)
    else
      (onApp countMissed m).emit (.missed message)
  else m

/-- The part of the callback that looks at the datagram: a message is stored, unless this is
node 1; an aggregate is forwarded, or printed on node 1; anything else is ignored. -/
def handle (nodeId : ℕ) (d : Payload) (m : AggMote) : AggMote :=
  match d with
  | .message message =>
    if nodeId ≠ 1 then (List.finRange numNodes).foldl (storeSlot message) m else m
  | .messageAgg a =>
    if nodeId ≠ 1 then m.emit (.sent m.app.forwardIpaddr (.messageAgg a)) else m.emit (.printed a)
  | .other _ => m

/-- The aggregate built from the batch. The ids listed are those of the first `message_count`
slots. -/
def aggMessage (T : Target) (nodeId : ℕ) (a : Aggregator) : MessageAgg where
  nodeId := nodeId
  sample :=
    let arrays := constructDistributionArray a.messageArray
    aggregateData arrays.1 arrays.2
  missedSamples := T.toInt a.messagesMissed
  msgIdsInMsg := fun i => if i < a.messageCount then (a.messageArray i).msgId else 0
  nodeIdsInMsg := fun i => if i < a.messageCount then (a.messageArray i).nodeId else 0

/-- The reset of the batch after a flush. -/
def resetBatch (a : Aggregator) : Aggregator :=
  { a with messageCount := 0, messagesMissed := 0, nodesRecieved := fun _ => false }

@[simp] theorem resetBatch_nodeMap (a : Aggregator) : (resetBatch a).nodeMap = a.nodeMap := rfl
@[simp] theorem resetBatch_messageArray (a : Aggregator) :
    (resetBatch a).messageArray = a.messageArray := rfl
@[simp] theorem resetBatch_nodesRecieved (a : Aggregator) (i : Fin numNodes) :
    (resetBatch a).nodesRecieved i = false := rfl
@[simp] theorem resetBatch_messageCount (a : Aggregator) : (resetBatch a).messageCount = 0 := rfl
@[simp] theorem resetBatch_messagesMissed (a : Aggregator) :
    (resetBatch a).messagesMissed = 0 := rfl

/-- Close the batch: send the aggregate on, reset the variables and the timer. -/
def flush (T : Target) (nodeId : ℕ) (m : AggMote) : AggMote :=
  let a := aggMessage T nodeId m.app
  let m := m.emit (.flushed m.app.messageCount a)
  let m := if nodeId ≠ 1 then m.emit (.sent m.app.forwardIpaddr (.messageAgg a)) else m
  (onApp resetBatch m).onKernel fun k => k.etimerReset T .app

/-- The test that closes a batch. -/
def flushDue (m : AggMote) : Bool :=
  m.app.messageCount = numNodes || m.kernel.etimerExpired .app

/-- `udp_rx_callback`. -/
def udpRxCallback (T : Target) (nodeId : ℕ) (d : Payload) (m : AggMote) : AggMote :=
  let m := handle nodeId d (startTimer T (onApp (setForwardIpaddr nodeId) m))
  if flushDue m then flush T nodeId m else m

/-- A datagram is delivered: `simple_udp_process` calls the callback in the context of the
process that registered it. -/
def receive (T : Target) (nodeId : ℕ) (d : Payload) (m : AggMote) : AggMote :=
  m.withCurrent .app fun m => udpRxCallback T nodeId d (m.emit (.recv d))

/-! ## The process and its runs -/

/-- The node map: node 2 listens to 4, 5, 6 and node 3 to 7, 8, 9. -/
def setupNodeMap (nodeId : ℕ) (a : Aggregator) : Aggregator :=
  if nodeId = 2 then { a with nodeMap := ![4, 5, 6] }
  else if nodeId = 3 then { a with nodeMap := ![7, 8, 9] }
  else a

/-- The firmware image. `udp_server_process` has no wait: it runs off its end when started. -/
def aggregator (nodeId : ℕ) : Firmware Aggregator Action where
  initial := {}
  thread := fun _ _ _ m => (onApp (setupNodeMap nodeId) m, true)

/-- One step of an aggregator mote. -/
inductive AggStep where
  | kernel (l : KernelStep)
  | recv (d : Payload)
  deriving DecidableEq

/-- The mote after a step. -/
def aggStep (T : Target) (nodeId : ℕ) (m : AggMote) : AggStep → AggMote
  | .kernel l => kernelStep (aggregator nodeId) T m l
  | .recv d => receive T nodeId d m

/-- A freshly booted aggregator mote. -/
def aggBoot (T : Target) (nodeId : ℕ) : AggMote := boot (aggregator nodeId) T

/-- The mote after a run from boot. -/
def aggRun (T : Target) (nodeId : ℕ) (steps : List AggStep) : AggMote :=
  steps.foldl (aggStep T nodeId) (aggBoot T nodeId)

theorem aggRun_concat (T : Target) (nodeId : ℕ) (steps : List AggStep) (l : AggStep) :
    aggRun T nodeId (steps ++ [l]) = aggStep T nodeId (aggRun T nodeId steps) l := by
  simp [aggRun, List.foldl_append]

end WsnAggregation
