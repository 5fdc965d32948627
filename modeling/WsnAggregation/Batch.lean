import Mathlib.Data.Finset.Card
import Mathlib.Data.Multiset.Basic
import WsnAggregation.Aggregator
import WsnAggregation.Contiki.Quiet
import WsnAggregation.Lib.History

/-!
# The batch of an aggregating node

What the static variables of `aggregator.c` mean, said in terms of the history alone.

* The observations (`openBatch`, `openReceived`, `openMissed`, `openedAt`, `lastStored`, …) read
  the history; they know nothing of slots, flags or counters.
* `Tracks` — the firmware's memory agrees with them. It holds of every run of nodes 2 and 3.
* `FlushSnapshot` — what is known of the firmware's memory at the moment a batch is closed.

The batch's own history starts over at each flush; the slots do not. `lastStored` is what a slot
holds: the last message ever stored from its node, whichever batch that was for.
-/

namespace WsnAggregation

open Contiki Lib

/-- The history of an aggregator mote. -/
abbrev History : Type := List (ℕ × Action)

/-! ## Observations -/

/-- The messages stored since the last flush, in order. -/
def openBatch : History → List Message :=
  observe (fun b e => match e.2 with
    | .stored m => b ++ [m]
    | .flushed .. => []
    | _ => b) []

/-- The messages received since the last flush, in order. -/
def openReceived : History → List Message :=
  observe (fun b e => match e.2 with
    | .recv (.message m) => b ++ [m]
    | .flushed .. => []
    | _ => b) []

/-- The number of messages counted as missed since the last flush. -/
def openMissed : History → ℕ :=
  observe (fun n e => match e.2 with
    | .missed _ => n + 1
    | .flushed .. => 0
    | _ => n) 0

/-- The time the first message of the open batch was stored. -/
def openedAt : History → Option ℕ :=
  observe (fun t e => match e.2 with
    | .stored _ => some (t.getD e.1)
    | .flushed .. => none
    | _ => t) none

/-- The last message ever stored from node `n`; the zero message if there is none. -/
def lastStored (n : ℕ) : History → Message :=
  observe (fun b e => match e.2 with
    | .stored m => if m.nodeId = n then m else b
    | _ => b) {}

/-- The messages received from the nodes of a map, in order. -/
def receivedFrom (map : Fin numNodes → ℕ) (h : History) : List Message :=
  h.filterMap fun e => match e.2 with
    | .recv (.message m) => if ∃ i, map i = m.nodeId then some m else none
    | _ => none

/-- The messages stored or counted as missed, in order. -/
def accounted (h : History) : List Message :=
  h.filterMap fun e => match e.2 with
    | .stored m => some m
    | .missed m => some m
    | _ => none

/-- The sum over all flushes of the messages stored and the missed messages reported. -/
def flushTotal : History → ℤ :=
  observe (fun n e => match e.2 with
    | .flushed count a => n + count + a.missedSamples
    | _ => n) 0

/-- The first message of a list that comes from node `n`. -/
def firstFrom (n : ℕ) (l : List Message) : Option Message := l.find? fun m => m.nodeId = n

/-- Node `n` has a message in the open batch. -/
def InBatch (h : History) (n : ℕ) : Prop := ∃ m ∈ openBatch h, m.nodeId = n

instance (h : History) (n : ℕ) : Decidable (InBatch h n) := by
  unfold InBatch; infer_instance

/-- The actions that no observation reads. -/
def Action.neutral : Action → Bool
  | .sent .. | .printed _ | .recv (.messageAgg _) | .recv (.other _) => true
  | _ => false

/-! ## The node maps -/

/-- The node map that `udp_server_process` sets up. -/
def nodeMapOf (nodeId : ℕ) : Fin numNodes → ℕ := (setupNodeMap nodeId {}).nodeMap

/-- Every source of the node has a message in the open batch. -/
def Full (nodeId : ℕ) (h : History) : Prop := ∀ i, InBatch h (nodeMapOf nodeId i)

/-- The nodes that aggregate: 2 and 3. -/
def Aggregates (nodeId : ℕ) : Prop := nodeId = 2 ∨ nodeId = 3

instance (nodeId : ℕ) : Decidable (Aggregates nodeId) := by unfold Aggregates; infer_instance

theorem Aggregates.ne_one {nodeId : ℕ} (h : Aggregates nodeId) : nodeId ≠ 1 := by
  rcases h with rfl | rfl <;> decide

theorem Aggregates.injective {nodeId : ℕ} (h : Aggregates nodeId) :
    Function.Injective (nodeMapOf nodeId) := by
  rcases h with rfl | rfl <;> decide

theorem Aggregates.nodeMap_ne_zero {nodeId : ℕ} (h : Aggregates nodeId) (i : Fin numNodes) :
    nodeMapOf nodeId i ≠ 0 := by
  rcases h with rfl | rfl <;> revert i <;> decide

/-! ## What the variables mean -/

/-- The slots that hold a message of the open batch. -/
def Aggregator.filled (a : Aggregator) : Finset (Fin numNodes) :=
  Finset.univ.filter fun i => a.nodesRecieved i = true

@[simp] theorem Aggregator.mem_filled {a : Aggregator} {i : Fin numNodes} :
    i ∈ a.filled ↔ a.nodesRecieved i = true := by simp [filled]

/-- The firmware's memory agrees with the history. -/
structure Tracks (nodeId : ℕ) (a : Aggregator) (h : History) : Prop where
  nodeMap : a.nodeMap = nodeMapOf nodeId
  /-- `message_count` counts the filled slots. -/
  count : a.messageCount = a.filled.card
  /-- A slot holds the last message ever stored from its node. -/
  array : ∀ i, a.messageArray i = lastStored (nodeMapOf nodeId i) h
  /-- A slot once written holds a message of its node. -/
  arrayNode : ∀ i, a.messageArray i = {} ∨ (a.messageArray i).nodeId = nodeMapOf nodeId i
  /-- The open batch is the contents of the filled slots. -/
  batch : (openBatch h : Multiset Message) = a.filled.val.map a.messageArray
  /-- The missed counter wraps at 16 bits. -/
  missed : a.messagesMissed = openMissed h % 65536
  /-- A filled slot holds the first message received from its node since the last flush. -/
  filledFirst : ∀ i, a.nodesRecieved i = true →
    firstFrom (nodeMapOf nodeId i) (openReceived h) = some (a.messageArray i)
  /-- Nothing was received from the node of an empty slot since the last flush. -/
  emptyFirst : ∀ i, a.nodesRecieved i = false →
    firstFrom (nodeMapOf nodeId i) (openReceived h) = none
  /-- Every message received from a mapped node is stored or counted as missed. -/
  accounted : accounted h = receivedFrom (nodeMapOf nodeId) h
  /-- The counters account for all of them, modulo 2¹⁶. -/
  total : ((receivedFrom (nodeMapOf nodeId) h).length : ℤ) ≡
    flushTotal h + a.messageCount + a.messagesMissed [ZMOD 65536]

namespace Tracks

variable {nodeId : ℕ} {a : Aggregator} {h : History}

theorem boot (nodeId : ℕ) : Tracks nodeId (setupNodeMap nodeId {}) [] where
  nodeMap := rfl
  count := by unfold setupNodeMap; split_ifs <;> rfl
  array := fun i => by unfold setupNodeMap; split_ifs <;> rfl
  arrayNode := fun i => Or.inl (by unfold setupNodeMap; split_ifs <;> rfl)
  batch := by unfold setupNodeMap; split_ifs <;> rfl
  missed := by unfold setupNodeMap; split_ifs <;> rfl
  filledFirst := fun i => by unfold setupNodeMap; split_ifs <;> simp
  emptyFirst := fun i _ => rfl
  accounted := rfl
  total := by unfold setupNodeMap; split_ifs <;> rfl

/-- The forwarding address is not part of the batch. -/
theorem setForwardIpaddr (ht : Tracks nodeId a h) : Tracks nodeId (setForwardIpaddr nodeId a) h := by
  unfold WsnAggregation.setForwardIpaddr
  split_ifs <;> exact { ht with }

/-- Sending, printing and receiving anything but a message change nothing of the batch. -/
theorem neutral (ht : Tracks nodeId a h) (t : ℕ) {e : Action} (he : e.neutral = true) :
    Tracks nodeId a (h ++ [(t, e)]) := by
  have hkeep : openBatch (h ++ [(t, e)]) = openBatch h ∧
      openReceived (h ++ [(t, e)]) = openReceived h ∧
      openMissed (h ++ [(t, e)]) = openMissed h ∧
      (∀ n, lastStored n (h ++ [(t, e)]) = lastStored n h) ∧
      receivedFrom (nodeMapOf nodeId) (h ++ [(t, e)]) = receivedFrom (nodeMapOf nodeId) h ∧
      WsnAggregation.accounted (h ++ [(t, e)]) = WsnAggregation.accounted h ∧
      flushTotal (h ++ [(t, e)]) = flushTotal h := by
    cases e with
    | recv d =>
      cases d <;> simp_all [Action.neutral, openBatch, openReceived, openMissed, lastStored,
        receivedFrom, WsnAggregation.accounted, flushTotal]
    | _ =>
      simp_all [Action.neutral, openBatch, openReceived, openMissed, lastStored, receivedFrom,
        WsnAggregation.accounted, flushTotal]
  obtain ⟨hb, hr, hm, hl, hf, ha, hs⟩ := hkeep
  exact {
    nodeMap := ht.nodeMap
    count := ht.count
    array := fun i => by rw [hl]; exact ht.array i
    arrayNode := ht.arrayNode
    batch := by rw [hb]; exact ht.batch
    missed := by rw [hm]; exact ht.missed
    filledFirst := fun i hi => by rw [hr]; exact ht.filledFirst i hi
    emptyFirst := fun i hi => by rw [hr]; exact ht.emptyFirst i hi
    accounted := by rw [ha, hf]; exact ht.accounted
    total := by rw [hf, hs]; exact ht.total }

/-! ### The nodes of the batch -/

theorem nodeId_of_filled (ht : Tracks nodeId a h) {i : Fin numNodes}
    (hi : a.nodesRecieved i = true) : (a.messageArray i).nodeId = nodeMapOf nodeId i := by
  have hfirst := ht.filledFirst i hi
  simpa using List.find?_some hfirst

theorem mem_openBatch (ht : Tracks nodeId a h) {m : Message} :
    m ∈ openBatch h ↔ ∃ i, a.nodesRecieved i = true ∧ a.messageArray i = m := by
  rw [← Multiset.mem_coe, ht.batch, Multiset.mem_map]
  simp

theorem inBatch_iff (ht : Tracks nodeId a h) (hid : Aggregates nodeId) (i : Fin numNodes) :
    InBatch h (nodeMapOf nodeId i) ↔ i ∈ a.filled := by
  rw [Aggregator.mem_filled]
  constructor
  · rintro ⟨m, hm, hn⟩
    obtain ⟨j, hj, rfl⟩ := ht.mem_openBatch.1 hm
    rw [ht.nodeId_of_filled hj] at hn
    rwa [hid.injective hn] at hj
  · intro hi
    exact ⟨a.messageArray i, ht.mem_openBatch.2 ⟨i, hi, rfl⟩, ht.nodeId_of_filled hi⟩

theorem full_iff (ht : Tracks nodeId a h) (hid : Aggregates nodeId) :
    Full nodeId h ↔ a.messageCount = numNodes := by
  simp only [Full, ht.inBatch_iff hid, ht.count]
  rw [← Finset.eq_univ_iff_forall, ← Finset.card_eq_iff_eq_univ, Fintype.card_fin]

/-- The batch has as many messages as `message_count` says. -/
theorem length_openBatch (ht : Tracks nodeId a h) : (openBatch h).length = a.messageCount := by
  have hcard := congrArg Multiset.card ht.batch
  rw [Multiset.coe_card, Multiset.card_map] at hcard
  exact hcard.trans ht.count.symm

/-! ### Receiving a message -/

theorem firstFrom_concat (n : ℕ) (l : List Message) (m : Message) :
    firstFrom n (l ++ [m]) =
      (firstFrom n l).or (if m.nodeId = n then some m else none) := by
  simp only [firstFrom, List.find?_append]
  by_cases hm : m.nodeId = n <;> simp [hm]

/-- A message of a node outside the map leaves the batch as it is. -/
theorem unmapped (ht : Tracks nodeId a h) (t : ℕ) {m : Message}
    (hm : ∀ i, nodeMapOf nodeId i ≠ m.nodeId) :
    Tracks nodeId a (h ++ [(t, .recv (.message m))]) := by
  have hr : openReceived (h ++ [(t, .recv (.message m))]) = openReceived h ++ [m] := by
    simp [openReceived]
  have hfirst : ∀ i, firstFrom (nodeMapOf nodeId i) (openReceived h ++ [m]) =
      firstFrom (nodeMapOf nodeId i) (openReceived h) := fun i => by
    rw [firstFrom_concat, if_neg (hm i).symm, Option.or_none]
  have hf : receivedFrom (nodeMapOf nodeId) (h ++ [(t, .recv (.message m))]) =
      receivedFrom (nodeMapOf nodeId) h := by
    simp [receivedFrom, hm]
  exact {
    nodeMap := ht.nodeMap
    count := ht.count
    array := fun i => by simpa [lastStored] using ht.array i
    arrayNode := ht.arrayNode
    batch := by simpa [openBatch] using ht.batch
    missed := by simpa [openMissed] using ht.missed
    filledFirst := fun i hi => by rw [hr, hfirst]; exact ht.filledFirst i hi
    emptyFirst := fun i hi => by rw [hr, hfirst]; exact ht.emptyFirst i hi
    accounted := by rw [hf]; simpa [WsnAggregation.accounted] using ht.accounted
    total := by rw [hf]; simpa [flushTotal] using ht.total }

/-- A message whose slot is filled is counted as missed. -/
theorem missedSlot (ht : Tracks nodeId a h) (t : ℕ) {m : Message} {i : Fin numNodes}
    (hi : nodeMapOf nodeId i = m.nodeId) (hinj : Function.Injective (nodeMapOf nodeId))
    (hfull : a.nodesRecieved i = true) :
    Tracks nodeId (countMissed a) (h ++ [(t, .recv (.message m))] ++ [(t, .missed m)]) := by
  set h' := h ++ [(t, Action.recv (.message m))] ++ [(t, .missed m)] with hh'
  have hr : openReceived h' = openReceived h ++ [m] := by simp [hh', openReceived]
  have hf : receivedFrom (nodeMapOf nodeId) h' = receivedFrom (nodeMapOf nodeId) h ++ [m] := by
    simp [hh', receivedFrom, show ∃ i, nodeMapOf nodeId i = m.nodeId from ⟨i, hi⟩]
  exact {
    nodeMap := ht.nodeMap
    count := ht.count
    array := fun j => by simpa [hh', lastStored] using ht.array j
    arrayNode := ht.arrayNode
    batch := (by simp [hh', openBatch] : openBatch h' = openBatch h) ▸ ht.batch
    missed := by
      have := ht.missed
      simp only [hh', openMissed, observe_append, observe_cons, observe_nil, countMissed_messagesMissed] at this ⊢
      omega
    filledFirst := fun j hj => by
      rw [hr, firstFrom_concat, ht.filledFirst j hj, Option.some_or, countMissed_messageArray]
    emptyFirst := fun j hj => by
      have hne : m.nodeId ≠ nodeMapOf nodeId j := by
        rintro he
        rw [hinj (hi.trans he)] at hfull
        simp [hfull] at hj
      rw [hr, firstFrom_concat, if_neg hne, Option.or_none]
      exact ht.emptyFirst j hj
    accounted := by
      rw [hf, ← ht.accounted]
      simp [hh', WsnAggregation.accounted]
    total := by
      have := ht.total
      rw [hf]
      simp only [hh', flushTotal, observe_append, observe_cons, observe_nil, List.length_append,
        List.length_singleton, countMissed_messageCount, countMissed_messagesMissed,
        Int.ModEq] at this ⊢
      push_cast
      omega }

theorem filled_storeMessage (i : Fin numNodes) (m : Message) (a : Aggregator) :
    (storeMessage i m a).filled = insert i a.filled := by
  ext j
  by_cases hj : j = i
  · subst hj; simp
  · simp [storeMessage_nodesRecieved_of_ne, hj]

/-- A message whose slot is empty is stored there. -/
theorem storedSlot (ht : Tracks nodeId a h) (t : ℕ) {m : Message} {i : Fin numNodes}
    (hi : nodeMapOf nodeId i = m.nodeId) (hinj : Function.Injective (nodeMapOf nodeId))
    (hempty : a.nodesRecieved i = false) :
    Tracks nodeId (storeMessage i m a) (h ++ [(t, .recv (.message m))] ++ [(t, .stored m)]) := by
  set h' := h ++ [(t, Action.recv (.message m))] ++ [(t, .stored m)] with hh'
  have hr : openReceived h' = openReceived h ++ [m] := by simp [hh', openReceived]
  have hf : receivedFrom (nodeMapOf nodeId) h' = receivedFrom (nodeMapOf nodeId) h ++ [m] := by
    simp [hh', receivedFrom, show ∃ i, nodeMapOf nodeId i = m.nodeId from ⟨i, hi⟩]
  have hb : openBatch h' = openBatch h ++ [m] := by simp [hh', openBatch]
  have hne : ∀ j, j ≠ i → m.nodeId ≠ nodeMapOf nodeId j := fun j hj he =>
    hj (hinj (he.symm.trans hi.symm))
  have hi' : i ∉ a.filled := by simp [hempty]
  exact {
    nodeMap := ht.nodeMap
    count := by
      rw [filled_storeMessage, Finset.card_insert_of_notMem hi', ← ht.count]
      rfl
    array := fun j => by
      by_cases hj : j = i
      · subst hj; simp [hh', lastStored, hi]
      · rw [storeMessage_messageArray_of_ne _ _ hj, ht.array j]
        simp [hh', lastStored, hne j hj]
    arrayNode := fun j => by
      by_cases hj : j = i
      · subst hj; exact Or.inr (by simp [hi])
      · rw [storeMessage_messageArray_of_ne _ _ hj]
        exact ht.arrayNode j
    batch := by
      have hsame : a.filled.val.map (storeMessage i m a).messageArray =
          a.filled.val.map a.messageArray :=
        Multiset.map_congr rfl fun j hj =>
          storeMessage_messageArray_of_ne _ _ fun he => hi' (by rw [← he]; exact hj)
      rw [filled_storeMessage, Finset.insert_val_of_notMem hi', Multiset.map_cons, hsame,
        storeMessage_messageArray_self, ← ht.batch, hb, ← Multiset.coe_add, Multiset.coe_singleton,
        add_comm, Multiset.singleton_add]
    missed := by simpa [hh', openMissed] using ht.missed
    filledFirst := fun j hj => by
      rw [hr, firstFrom_concat]
      by_cases hji : j = i
      · subst hji
        rw [ht.emptyFirst j hempty, if_pos hi.symm]
        simp
      · rw [storeMessage_nodesRecieved_of_ne _ _ hji] at hj
        rw [if_neg (hne j hji), Option.or_none, storeMessage_messageArray_of_ne _ _ hji]
        exact ht.filledFirst j hj
    emptyFirst := fun j hj => by
      have hji : j ≠ i := by
        rintro rfl
        simp at hj
      rw [hr, firstFrom_concat, if_neg (hne j hji), Option.or_none]
      rw [storeMessage_nodesRecieved_of_ne _ _ hji] at hj
      exact ht.emptyFirst j hj
    accounted := by
      rw [hf, ← ht.accounted]
      simp [hh', WsnAggregation.accounted]
    total := by
      have := ht.total
      rw [hf]
      simp only [hh', flushTotal, observe_append, observe_cons, observe_nil, List.length_append,
        List.length_singleton, storeMessage_messageCount, storeMessage_messagesMissed,
        Int.ModEq] at this ⊢
      push_cast
      omega }

/-! ### Flushing -/

/-- After a flush the batch is empty; the slots keep their contents. -/
theorem flushed (ht : Tracks nodeId a h) (T : Target) (t : ℕ) :
    Tracks nodeId (resetBatch a)
      (h ++ [(t, .flushed a.messageCount (aggMessage T nodeId a))]) := by
  have hfilled : (resetBatch a).filled = ∅ := by
    ext i
    simp
  exact {
    nodeMap := ht.nodeMap
    count := by rw [hfilled]; rfl
    array := fun i => by simpa [lastStored] using ht.array i
    arrayNode := ht.arrayNode
    batch := by
      rw [hfilled]
      simp [openBatch]
    missed := by simp [openMissed]
    filledFirst := fun i hi => by simp at hi
    emptyFirst := fun i _ => by simp [openReceived, firstFrom]
    accounted := by simpa [WsnAggregation.accounted, receivedFrom] using ht.accounted
    total := by
      have htotal := ht.total
      have hmiss := T.toInt_modEq a.messagesMissed
      have hf : receivedFrom (nodeMapOf nodeId)
          (h ++ [(t, .flushed a.messageCount (aggMessage T nodeId a))]) =
          receivedFrom (nodeMapOf nodeId) h := by simp [receivedFrom]
      rw [hf]
      simp only [flushTotal, observe_append, observe_cons, observe_nil, resetBatch, aggMessage,
        Int.ModEq] at htotal hmiss ⊢
      push_cast
      omega }

end Tracks

end WsnAggregation
