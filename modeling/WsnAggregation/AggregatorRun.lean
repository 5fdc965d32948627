import WsnAggregation.Batch

/-!
# Runs of an aggregating node

One invariant carries everything that is proved about the runs of nodes 2 and 3.

* `Handled` — what the callback can do with a datagram before it tests whether to flush.
* `Window` — while a batch is open, the timer runs from the moment its first message was stored;
  once the timer is marked as expired, `TIMEOUT_THRESHOLD` has passed since then.
* `Good` — the memory tracks the history, the window is right, and every flush so far had a
  snapshot. `good_run` proves it of every run, whatever is delivered and whenever timers expire.
-/

namespace WsnAggregation

open Contiki Lib

/-! ## Stages of the callback -/

/-- The mote when the callback has set the next hop and started the timer. -/
def entered (T : Target) (nodeId : ℕ) (d : Payload) (m : AggMote) : AggMote :=
  startTimer T (onApp (setForwardIpaddr nodeId)
    ((m.onKernel fun k => k.setCurrent (some .app)).emit (.recv d)))

/-- The end of the callback: flush if it is due. -/
def closed (T : Target) (nodeId : ℕ) (m : AggMote) : AggMote :=
  if flushDue m then flush T nodeId m else m

theorem receive_eq (T : Target) (nodeId : ℕ) (d : Payload) (m : AggMote) :
    receive T nodeId d m =
      (closed T nodeId (handle nodeId d (entered T nodeId d m))).onKernel
        fun k => k.setCurrent m.kernel.current := rfl

section Entered

variable (T : Target) (nodeId : ℕ) (d : Payload) (m : AggMote)

theorem startTimer_of_empty {m : AggMote} (h : m.app.messageCount = 0) :
    startTimer T m = m.onKernel fun k => k.etimerSet T .app T.timeoutThreshold := if_pos h

theorem startTimer_of_open {m : AggMote} (h : m.app.messageCount ≠ 0) : startTimer T m = m :=
  if_neg h

theorem startTimer_app : (startTimer T m).app = m.app := by
  unfold startTimer; split_ifs <;> rfl

theorem startTimer_history : (startTimer T m).history = m.history := by
  unfold startTimer; split_ifs <;> rfl

theorem entered_app : (entered T nodeId d m).app = setForwardIpaddr nodeId m.app :=
  startTimer_app ..

theorem entered_history :
    (entered T nodeId d m).history = m.history ++ [(m.kernel.clock, .recv d)] :=
  startTimer_history ..

@[simp] theorem setForwardIpaddr_messageCount (a : Aggregator) :
    (setForwardIpaddr nodeId a).messageCount = a.messageCount := by
  unfold setForwardIpaddr; split_ifs <;> rfl

@[simp] theorem setForwardIpaddr_nodeMap (a : Aggregator) :
    (setForwardIpaddr nodeId a).nodeMap = a.nodeMap := by
  unfold setForwardIpaddr; split_ifs <;> rfl

/-- While no message is stored, every datagram sets the timer anew. -/
theorem entered_kernel_of_empty (h : m.app.messageCount = 0) :
    (entered T nodeId d m).kernel =
      (m.kernel.setCurrent (some .app)).etimerSet T .app T.timeoutThreshold := by
  rw [entered, startTimer_of_empty]
  · rfl
  · exact (setForwardIpaddr_messageCount nodeId m.app).trans h

theorem entered_kernel_of_open (h : m.app.messageCount ≠ 0) :
    (entered T nodeId d m).kernel = m.kernel.setCurrent (some .app) := by
  rw [entered, startTimer_of_open]
  · rfl
  · exact (setForwardIpaddr_messageCount nodeId m.app).trans_ne h

theorem entered_clock : (entered T nodeId d m).kernel.clock = m.kernel.clock := by
  by_cases h : m.app.messageCount = 0
  · rw [entered_kernel_of_empty T nodeId d m h]
    exact Kernel.addTimer_clock _
  · rw [entered_kernel_of_open T nodeId d m h]
    rfl

theorem entered_dead (h : m.kernel.Dead) : (entered T nodeId d m).kernel.Dead := by
  have hd := h.setCurrent (some .app)
  by_cases hc : m.app.messageCount = 0
  · rw [entered_kernel_of_empty T nodeId d m hc]
    exact (hd.setTimer _ _).addTimer _
  · rw [entered_kernel_of_open T nodeId d m hc]
    exact hd

/-- The timer set for an empty batch starts now, for the whole threshold, and is not expired. -/
theorem entered_timer_of_empty (h : m.app.messageCount = 0) :
    (entered T nodeId d m).kernel.timer .app =
      { start := m.kernel.clockTime T, interval := T.timeoutThreshold, p := some .app } := by
  rw [entered_kernel_of_empty T nodeId d m h]
  simp [Kernel.etimerSet, Kernel.timerSet, Kernel.addTimer_timer, Kernel.setTimer,
    Kernel.clockTime, Kernel.setCurrent]

end Entered

/-! ## What the callback does with a datagram -/

/-- What nodes 2 and 3 do with a datagram, before the flush test. -/
inductive Handled (nodeId : ℕ) (m : AggMote) : Payload → AggMote → Prop
  /-- A message from a node outside the map is ignored. -/
  | unmapped (message : Message) (h : ∀ i, nodeMapOf nodeId i ≠ message.nodeId) :
      Handled nodeId m (.message message) m
  /-- A message whose slot is empty is stored. -/
  | stored (message : Message) (i : Fin numNodes) (hi : nodeMapOf nodeId i = message.nodeId)
      (h : m.app.nodesRecieved i = false) :
      Handled nodeId m (.message message) ((onApp (storeMessage i message) m).emit (.stored message))
  /-- A message whose slot is filled is counted as missed. -/
  | missed (message : Message) (i : Fin numNodes) (hi : nodeMapOf nodeId i = message.nodeId)
      (h : m.app.nodesRecieved i = true) :
      Handled nodeId m (.message message) ((onApp countMissed m).emit (.missed message))
  /-- An aggregate is sent on unchanged. -/
  | relayed (a : MessageAgg) :
      Handled nodeId m (.messageAgg a) (m.emit (.sent m.app.forwardIpaddr (.messageAgg a)))
  /-- A datagram of another length is ignored. -/
  | ignored (datalen : ℕ) : Handled nodeId m (.other datalen) m

theorem storeSlot_of_ne {message : Message} {m : AggMote} {i : Fin numNodes}
    (h : m.app.nodeMap i ≠ message.nodeId) : storeSlot message m i = m := if_neg h

/-- Rounds of the store loop on slots of other nodes do nothing. -/
theorem foldl_storeSlot_of_ne {message : Message} (l : List (Fin numNodes)) {m : AggMote}
    (h : ∀ i ∈ l, m.app.nodeMap i ≠ message.nodeId) : l.foldl (storeSlot message) m = m := by
  induction l with
  | nil => rfl
  | cons i l ih =>
    rw [List.foldl_cons, storeSlot_of_ne (h i List.mem_cons_self)]
    exact ih fun j hj => h j (List.mem_cons_of_mem _ hj)

theorem storeSlot_nodeMap (message : Message) (m : AggMote) (i : Fin numNodes) :
    (storeSlot message m i).app.nodeMap = m.app.nodeMap := by
  unfold storeSlot; split_ifs <;> rfl

/-- The store loop acts on the one slot of the sender's node. -/
theorem foldl_storeSlot_eq {message : Message} {i : Fin numNodes} (l : List (Fin numNodes))
    {m : AggMote} (hinj : Function.Injective m.app.nodeMap) (hi : m.app.nodeMap i = message.nodeId)
    (hmem : i ∈ l) (hnd : l.Nodup) : l.foldl (storeSlot message) m = storeSlot message m i := by
  have hne : ∀ j, j ≠ i → m.app.nodeMap j ≠ message.nodeId := fun j hj he =>
    hj (hinj (he.trans hi.symm))
  induction l with
  | nil => cases hmem
  | cons j l ih =>
    obtain ⟨hj, hnd'⟩ := List.nodup_cons.1 hnd
    rw [List.foldl_cons]
    by_cases hji : j = i
    · subst hji
      refine foldl_storeSlot_of_ne l fun k hk => ?_
      rw [storeSlot_nodeMap]
      exact hne k fun he => hj (he ▸ hk)
    · rw [storeSlot_of_ne (hne j hji)]
      exact ih ((List.mem_cons.1 hmem).resolve_left (Ne.symm hji)) hnd'

theorem handled {nodeId : ℕ} (hid : Aggregates nodeId) {m : AggMote}
    (hmap : m.app.nodeMap = nodeMapOf nodeId) (d : Payload) :
    Handled nodeId m d (handle nodeId d m) := by
  cases d with
  | message message =>
    simp only [handle, if_pos hid.ne_one]
    by_cases h : ∃ i, nodeMapOf nodeId i = message.nodeId
    · obtain ⟨i, hi⟩ := h
      have hi' : m.app.nodeMap i = message.nodeId := by rw [hmap]; exact hi
      rw [foldl_storeSlot_eq _ (hmap ▸ hid.injective) hi' (List.mem_finRange i)
        (List.nodup_finRange _)]
      unfold storeSlot
      rw [if_pos hi']
      cases hr : m.app.nodesRecieved i with
      | false => exact .stored message i hi hr
      | true => exact .missed message i hi hr
    · push Not at h
      rw [foldl_storeSlot_of_ne _ fun i _ => by rw [hmap]; exact h i]
      exact .unmapped message h
  | messageAgg a =>
    simp only [handle, if_pos hid.ne_one]
    exact .relayed a
  | other n => exact .ignored n

theorem Handled.kernel {nodeId : ℕ} {m m' : AggMote} {d : Payload} (h : Handled nodeId m d m') :
    m'.kernel = m.kernel := by
  cases h <;> rfl

theorem Handled.messageCount {nodeId : ℕ} {m m' : AggMote} {d : Payload}
    (h : Handled nodeId m d m') : m.app.messageCount ≤ m'.app.messageCount ∧
      m'.app.messageCount ≤ m.app.messageCount + 1 := by
  cases h <;> simp

theorem Handled.tracks {nodeId : ℕ} {m m' : AggMote} {d : Payload} (h : Handled nodeId m d m')
    (hid : Aggregates nodeId) {past : History} (ht : Tracks nodeId m.app past)
    (hh : m.history = past ++ [(m.kernel.clock, .recv d)]) : Tracks nodeId m'.app m'.history := by
  cases h with
  | unmapped message hm => rw [hh]; exact ht.unmapped _ hm
  | stored message i hi hempty =>
    simp only [Mote.emit, onApp, hh]
    exact ht.storedSlot _ hi hid.injective hempty
  | missed message i hi hfull =>
    simp only [Mote.emit, onApp, hh]
    exact ht.missedSlot _ hi hid.injective hfull
  | relayed a =>
    simp only [Mote.emit, hh]
    exact (ht.neutral _ rfl).neutral _ rfl
  | ignored n => rw [hh]; exact ht.neutral _ rfl

/-! ## The window of a batch -/

/-- While a batch is open the timer measures the time since its first message. -/
structure Window (T : Target) (m : AggMote) : Prop where
  empty : m.app.messageCount = 0 → openedAt m.history = none
  opened : m.app.messageCount ≠ 0 → ∃ t₀, openedAt m.history = some t₀ ∧
    (m.kernel.timer .app).start = t₀ % 2 ^ T.clockBits ∧
    (m.kernel.timer .app).interval = T.timeoutThreshold ∧
    t₀ ≤ m.kernel.clock ∧
    ((m.kernel.timer .app).p = none → t₀ + T.timeoutThreshold ≤ m.kernel.clock)

/-- The window survives whatever the rest of the system does. -/
theorem Window.asleep {T : Target} {m m' : AggMote} (h : Window T m) (ha : Asleep T m m') :
    Window T m' where
  empty := by rw [ha.app, ha.history]; exact h.empty
  opened := by
    rw [ha.app, ha.history]
    intro hne
    obtain ⟨t₀, hopen, hs, hi, hle, hp⟩ := h.opened hne
    exact ⟨t₀, hopen, ha.quiet.start.trans hs, ha.quiet.interval.trans hi,
      hle.trans ha.quiet.clock, ha.quiet.elapsed hs hle hi.ge hp⟩

theorem openedAt_stored (h : History) (t : ℕ) (m : Message) :
    openedAt (h ++ [(t, .stored m)]) = some ((openedAt h).getD t) := by
  simp [openedAt]

/-- Only a stored message opens a window; the others leave it as it is. -/
theorem openedAt_eq_of_not_stored {h : History} {t : ℕ} {e : Action}
    (hs : ∀ m, e ≠ .stored m) (hf : ∀ n a, e ≠ .flushed n a) :
    openedAt (h ++ [(t, e)]) = openedAt h := by
  cases e <;> simp_all [openedAt]

/-- After a datagram the window is right again: an empty batch's timer was just set, and an open
batch's timer was left alone. -/
theorem Handled.window {T : Target} {nodeId : ℕ} {m m' : AggMote} {d : Payload}
    (h : Handled nodeId (entered T nodeId d m) d m') (hw : Window T m) : Window T m' := by
  have hclock := entered_clock T nodeId d m
  have hhist := entered_history T nodeId d m
  have hcount : (entered T nodeId d m).app.messageCount = m.app.messageCount := by
    rw [entered_app, setForwardIpaddr_messageCount]
  have hopen : openedAt (entered T nodeId d m).history = openedAt m.history := by
    rw [hhist]; exact openedAt_eq_of_not_stored (by simp) (by simp)
  have hentered : Window T (entered T nodeId d m) := by
    refine ⟨fun h0 => by rw [hopen]; exact hw.empty (hcount ▸ h0), fun hne => ?_⟩
    rw [hcount] at hne
    rw [hopen, entered_kernel_of_open T nodeId d m hne]
    exact hw.opened hne
  cases h with
  | unmapped => exact hentered
  | ignored => exact hentered
  | stored message i hi hempty =>
    refine ⟨fun hc => by simp at hc, fun _ => ?_⟩
    rw [Mote.emit_history, openedAt_stored, onApp_history, hopen, Mote.emit_kernel, onApp_kernel,
      hclock]
    by_cases h0 : m.app.messageCount = 0
    · -- The first message of a batch: the window opens now.
      rw [hw.empty h0, entered_timer_of_empty T nodeId _ m h0]
      exact ⟨m.kernel.clock, rfl, rfl, rfl, le_rfl, by simp⟩
    · obtain ⟨t₀, ht₀, hrest⟩ := hentered.opened (hcount ▸ h0)
      rw [hopen] at ht₀
      rw [hclock] at hrest
      exact ⟨t₀, by rw [ht₀]; rfl, hrest⟩
  | missed message i hi hfull =>
    refine ⟨fun hc => ?_, fun hne => ?_⟩
    · rw [Mote.emit_history, openedAt_eq_of_not_stored (by simp) (by simp)]
      exact hentered.empty hc
    · rw [Mote.emit_history, openedAt_eq_of_not_stored (by simp) (by simp)]
      exact hentered.opened hne
  | relayed a =>
    refine ⟨fun hc => ?_, fun hne => ?_⟩
    · rw [Mote.emit_history, openedAt_eq_of_not_stored (by simp) (by simp)]
      exact hentered.empty hc
    · rw [Mote.emit_history, openedAt_eq_of_not_stored (by simp) (by simp)]
      exact hentered.opened hne

/-! ## The invariant -/

/-- What is known when a batch is closed: the memory at that moment tracked the history, the
aggregate was built from it, the batch was not empty, and it was full or its window had passed. -/
def FlushSnapshot (T : Target) (nodeId : ℕ) (past : History) (e : ℕ × Action) : Prop :=
  ∀ count agg, e.2 = .flushed count agg → ∃ a : Aggregator, Tracks nodeId a past ∧
    count = a.messageCount ∧ agg = aggMessage T nodeId a ∧ 0 < count ∧
    (count = numNodes ∨ ∃ t₀, openedAt past = some t₀ ∧ t₀ + T.timeoutThreshold ≤ e.1)

theorem FlushSnapshot.of_not_flushed {T : Target} {nodeId : ℕ} {past : History} {t : ℕ}
    {e : Action} (h : ∀ n a, e ≠ .flushed n a) : FlushSnapshot T nodeId past (t, e) :=
  fun n a he => absurd he (h n a)

/-- Nothing recorded while a datagram is handled is a flush. -/
theorem Handled.flushes {T : Target} {nodeId : ℕ} {m m' : AggMote} {d : Payload}
    (h : Handled nodeId m d m') (hf : EachWithPast (FlushSnapshot T nodeId) m.history) :
    EachWithPast (FlushSnapshot T nodeId) m'.history := by
  cases h with
  | unmapped => exact hf
  | ignored => exact hf
  | stored => exact hf.concat (.of_not_flushed (by simp))
  | missed => exact hf.concat (.of_not_flushed (by simp))
  | relayed => exact hf.concat (.of_not_flushed (by simp))

/-- The invariant of nodes 2 and 3. -/
structure Good (T : Target) (nodeId : ℕ) (m : AggMote) : Prop where
  dead : m.kernel.Dead
  tracks : Tracks nodeId m.app m.history
  /-- Between two callbacks the batch is not full. -/
  partial_batch : m.app.messageCount < numNodes
  window : Window T m
  flushes : EachWithPast (FlushSnapshot T nodeId) m.history

namespace Good

variable {T : Target} {nodeId : ℕ} {m : AggMote}

theorem asleep {m' : AggMote} (h : Good T nodeId m) (ha : Asleep T m m') : Good T nodeId m' where
  dead := ha.dead
  tracks := by rw [ha.app, ha.history]; exact h.tracks
  partial_batch := by rw [ha.app]; exact h.partial_batch
  window := h.window.asleep ha
  flushes := by rw [ha.history]; exact h.flushes

/-- The mote between the handling of a datagram and the flush test. -/
structure Ready (T : Target) (nodeId : ℕ) (m m' : AggMote) : Prop where
  dead : m'.kernel.Dead
  tracks : Tracks nodeId m'.app m'.history
  window : Window T m'
  flushes : EachWithPast (FlushSnapshot T nodeId) m'.history
  clock : m'.kernel.clock = m.kernel.clock
  /-- An empty batch is never flushed. -/
  due_pos : flushDue m' = true → 0 < m'.app.messageCount
  messageCount_le : m'.app.messageCount ≤ numNodes

theorem ready (hid : Aggregates nodeId) (h : Good T nodeId m) (d : Payload) :
    Ready T nodeId m (handle nodeId d (entered T nodeId d m)) := by
  have hmap : (entered T nodeId d m).app.nodeMap = nodeMapOf nodeId := by
    rw [entered_app, setForwardIpaddr_nodeMap, h.tracks.nodeMap]
  have hh := handled hid hmap d
  obtain ⟨hle, hcount⟩ := hh.messageCount
  rw [entered_app, setForwardIpaddr_messageCount] at hle hcount
  have hpartial := h.partial_batch
  refine {
    dead := by rw [hh.kernel]; exact entered_dead T nodeId d m h.dead
    tracks := by
      refine hh.tracks hid ?_ (by rw [entered_history, entered_clock])
      rw [entered_app]
      exact h.tracks.setForwardIpaddr
    window := hh.window h.window
    flushes := hh.flushes (by
      rw [entered_history]
      exact h.flushes.concat (.of_not_flushed (by simp)))
    clock := by rw [hh.kernel]; exact entered_clock T nodeId d m
    due_pos := fun hdue => ?_
    messageCount_le := by omega }
  by_contra hpos
  have h0 : m.app.messageCount = 0 := by omega
  -- The timer of an empty batch was just set, so the test fails.
  have hp : (handle nodeId d (entered T nodeId d m)).kernel.etimerExpired .app = false := by
    rw [hh.kernel, Kernel.etimerExpired, entered_timer_of_empty T nodeId d m h0]
    rfl
  have hlt : (handle nodeId d (entered T nodeId d m)).app.messageCount ≠ numNodes := by
    simp only [numNodes] at hpartial ⊢
    omega
  simp [flushDue, hp, hlt] at hdue

end Good

/-! ## Closing the batch -/

section Flush

variable {T : Target} {nodeId : ℕ} {m : AggMote}

theorem flush_app : (flush T nodeId m).app = resetBatch m.app := by
  unfold flush; split_ifs <;> rfl

theorem flush_history (hid : Aggregates nodeId) : (flush T nodeId m).history =
    m.history ++ [(m.kernel.clock, .flushed m.app.messageCount (aggMessage T nodeId m.app))] ++
      [(m.kernel.clock, .sent m.app.forwardIpaddr (.messageAgg (aggMessage T nodeId m.app)))] := by
  simp only [flush, if_pos hid.ne_one]
  rfl

theorem flush_kernel : (flush T nodeId m).kernel = m.kernel.etimerReset T .app := by
  unfold flush; split_ifs <;> rfl

theorem etimerReset_dead {k : Kernel} (h : k.Dead) (t : TimerId) : (k.etimerReset T t).Dead := by
  refine Kernel.Dead.addTimer ?_ t
  unfold Kernel.timerReset
  split
  · exact h.setTimer _ _
  · exact h

/-- A due flush had a snapshot, and leaves an empty batch. -/
theorem Good.Ready.flush {m' : AggMote} (hid : Aggregates nodeId) (h : Good.Ready T nodeId m m')
    (hdue : flushDue m' = true) : Good T nodeId (flush T nodeId m') := by
  have hpos := h.due_pos hdue
  have hreason : m'.app.messageCount = numNodes ∨
      ∃ t₀, openedAt m'.history = some t₀ ∧ t₀ + T.timeoutThreshold ≤ m'.kernel.clock := by
    simp only [flushDue, Kernel.etimerExpired, Bool.or_eq_true, decide_eq_true_eq] at hdue
    refine hdue.imp_right fun hp => ?_
    obtain ⟨t₀, ht₀, -, -, -, hexp⟩ := h.window.opened (by omega)
    exact ⟨t₀, ht₀, hexp hp⟩
  have hsnap : FlushSnapshot T nodeId m'.history
      (m'.kernel.clock, .flushed m'.app.messageCount (aggMessage T nodeId m'.app)) := by
    intro count agg he
    cases he
    exact ⟨m'.app, h.tracks, rfl, rfl, hpos, hreason⟩
  refine {
    dead := by rw [flush_kernel]; exact etimerReset_dead h.dead _
    tracks := ?_
    partial_batch := by simp [flush_app]
    window := ⟨fun _ => ?_, fun hne => absurd (by rw [flush_app]; rfl) hne⟩
    flushes := ?_ }
  · rw [flush_app, flush_history hid]
    exact (h.tracks.flushed T _).neutral _ rfl
  · rw [flush_history hid]
    simp [openedAt]
  · rw [flush_history hid]
    exact (h.flushes.concat hsnap).concat (.of_not_flushed (by simp))

end Flush

/-! ## Every run -/

section Runs

variable {T : Target} {nodeId : ℕ}

theorem Good.receive (hid : Aggregates nodeId) {m : AggMote} (h : Good T nodeId m) (d : Payload) :
    Good T nodeId (receive T nodeId d m) := by
  have hr := h.ready hid d
  rw [receive_eq]
  have hc : Good T nodeId (closed T nodeId (handle nodeId d (entered T nodeId d m))) := by
    unfold closed
    split_ifs with hdue
    · exact hr.flush hid hdue
    · refine ⟨hr.dead, hr.tracks, lt_of_le_of_ne hr.messageCount_le fun hfull => ?_, hr.window,
        hr.flushes⟩
      simp [flushDue, hfull] at hdue
  exact hc.asleep (Asleep.onKernel (hc.dead.setCurrent _) rfl rfl)

theorem aggBoot_app (T : Target) (nodeId : ℕ) :
    (aggBoot T nodeId).app = setupNodeMap nodeId {} := rfl

/-- Booting runs `udp_server_process` to its end. -/
theorem aggBoot_dead (T : Target) (nodeId : ℕ) : (aggBoot T nodeId).kernel.Dead where
  state := rfl
  unlisted := by
    rw [show (aggBoot T nodeId).kernel.processList = [.etimerProcess] from rfl]
    decide
  events := by
    rw [show (aggBoot T nodeId).kernel.events = [] from rfl]
    simp

@[simp] theorem setupNodeMap_messageCount (nodeId : ℕ) (a : Aggregator) :
    (setupNodeMap nodeId a).messageCount = a.messageCount := by
  unfold setupNodeMap; split_ifs <;> rfl

theorem good_boot (T : Target) (nodeId : ℕ) : Good T nodeId (aggBoot T nodeId) where
  dead := aggBoot_dead T nodeId
  tracks := Tracks.boot nodeId
  partial_batch := by simp [aggBoot_app]
  window := ⟨fun _ => rfl, fun hne => absurd (by simp [aggBoot_app]) hne⟩
  flushes := EachWithPast.nil _

theorem Good.step (hid : Aggregates nodeId) {m : AggMote} (h : Good T nodeId m) (l : AggStep) :
    Good T nodeId (aggStep T nodeId m l) := by
  cases l with
  | kernel l => exact h.asleep (kernelStep_asleep _ T l h.dead)
  | recv d => exact h.receive hid d

/-- **The invariant holds of every run.** -/
theorem good_run (T : Target) (hid : Aggregates nodeId) (steps : List AggStep) :
    Good T nodeId (aggRun T nodeId steps) := by
  induction steps using List.reverseRecOn with
  | nil => exact good_boot T nodeId
  | append_singleton steps l ih =>
    rw [aggRun_concat]
    exact ih.step hid l

end Runs

end WsnAggregation
