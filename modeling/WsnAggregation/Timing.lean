import WsnAggregation.Sink

/-!
# When batches are closed

A batch is closed by the callback only, and the callback runs only when a datagram arrives. The
process that could receive the timer's event has ended.

* `no_early_flush` — a flush is never early and never empty, and node 1 never flushes.
* `no_stranded_batch` — a batch is stranded only if its timer expired while it was open.
* `window_bound` — a source message that arrives first after the expiry never starts the next
  batch: it is stored or counted in the batch being closed.
-/

namespace WsnAggregation

open Contiki Lib

/-! ## Flushes are neither early nor empty -/

/-- A flush closes a batch that is full, or open for the whole threshold. -/
def TimelyFlush (T : Target) (nodeId : ℕ) (past : History) (e : ℕ × Action) : Prop :=
  ∀ count agg, e.2 = .flushed count agg → count = (openBatch past).length ∧ 0 < count ∧
    (Full nodeId past ∨ ∃ t₀, openedAt past = some t₀ ∧ t₀ + T.timeoutThreshold ≤ e.1)

/-- While a batch is open the timer runs from its first message, for the whole threshold. -/
def TimerFromFirst (T : Target) (m : AggMote) : Prop :=
  m.app.messageCount ≠ 0 → ∃ t₀, openedAt m.history = some t₀ ∧ t₀ ≤ m.kernel.clock ∧
    (m.kernel.timer .app).start = t₀ % 2 ^ T.clockBits ∧
    (m.kernel.timer .app).interval = T.timeoutThreshold

theorem FlushSnapshot.timely {T : Target} {nodeId : ℕ} (hid : Aggregates nodeId) {past : History}
    {e : ℕ × Action} (h : FlushSnapshot T nodeId past e) : TimelyFlush T nodeId past e := by
  intro count agg he
  obtain ⟨a, ht, rfl, -, hpos, hreason⟩ := h count agg he
  exact ⟨ht.length_openBatch.symm, hpos, hreason.imp_left (ht.full_iff hid).2⟩

/-- **No flush is early or empty**: every flush of nodes 2 and 3 closes a batch that has a
message, and that is full or was opened at least `TIMEOUT_THRESHOLD` ago; the timer of an open
batch runs from its first message whatever arrives; and node 1 never flushes. -/
theorem no_early_flush (T : Target) (steps : List AggStep) :
    (∀ nodeId, Aggregates nodeId →
      EachWithPast (TimelyFlush T nodeId) (aggRun T nodeId steps).history ∧
      TimerFromFirst T (aggRun T nodeId steps)) ∧
    ∀ e ∈ (aggRun T 1 steps).history, ∀ count agg, e.2 ≠ .flushed count agg := by
  refine ⟨fun nodeId hid => ?_, sink_not_flushed T steps⟩
  have hg := good_run T hid steps
  refine ⟨hg.flushes.mono fun past e => FlushSnapshot.timely hid, fun hne => ?_⟩
  obtain ⟨t₀, hopen, hs, hi, hle, -⟩ := hg.window.opened hne
  exact ⟨t₀, hopen, hle, hs, hi⟩

theorem no_early_flush_timeout :
    EachWithPast (TimelyFlush .sky 2) (aggRun .sky 2
      [.recv (.message { nodeId := 5, sample := 20, msgId := 1 }), .kernel (.tick 640),
        .kernel .poll, .recv (.other 0)]).history :=
  ((no_early_flush .sky _).1 2 (Or.inl rfl)).1

/-! ## What the callback does with the timer -/

section Callback

variable {T : Target} {nodeId : ℕ} {m : AggMote}

theorem addTimer_current (k : Kernel) (t : TimerId) : (k.addTimer t).current = k.current := by
  have hc : k.etimerRequestPoll.current = k.current := by
    unfold Kernel.etimerRequestPoll Kernel.processPoll; split <;> rfl
  unfold Kernel.addTimer
  dsimp only
  split <;> exact hc

theorem entered_current (T : Target) (nodeId : ℕ) (d : Payload) (m : AggMote) :
    (entered T nodeId d m).kernel.current = some .app := by
  by_cases h : m.app.messageCount = 0
  · rw [entered_kernel_of_empty T nodeId d m h]
    exact addTimer_current _ _
  · rw [entered_kernel_of_open T nodeId d m h]
    rfl

theorem etimerReset_owner (T : Target) (k : Kernel) (t : TimerId) :
    ((k.etimerReset T t).timer t).p = k.current := by
  have hc : (k.timerReset T t).current = k.current := by
    unfold Kernel.timerReset; split <;> rfl
  rw [Kernel.etimerReset, Kernel.addTimer_timer, Function.update_self, hc]

/-- The callback never leaves an expired timer behind. -/
theorem receive_not_expired (hid : Aggregates nodeId) (hmap : m.app.nodeMap = nodeMapOf nodeId)
    (d : Payload) : (receive T nodeId d m).kernel.etimerExpired .app = false := by
  have hh := handled hid (m := entered T nodeId d m)
    (by rw [entered_app, setForwardIpaddr_nodeMap, hmap]) d
  have hcurrent : (handle nodeId d (entered T nodeId d m)).kernel.current = some .app := by
    rw [hh.kernel]
    exact entered_current T nodeId d m
  rw [receive_eq, Mote.onKernel_kernel]
  change (closed T nodeId _).kernel.etimerExpired .app = false
  unfold closed
  split_ifs with hdue
  · rw [flush_kernel, Kernel.etimerExpired, etimerReset_owner, hcurrent]
    rfl
  · simp only [flushDue, Bool.or_eq_true, not_or, Bool.not_eq_true] at hdue
    exact hdue.2

/-- An open batch whose timer has expired. -/
def Late (m : AggMote) : Prop := m.app.messageCount ≠ 0 ∧ m.kernel.etimerExpired .app = true

instance (m : AggMote) : Decidable (Late m) := by unfold Late; infer_instance

/-- Whatever arrives at a late batch is handled first, and then the batch is closed. -/
theorem Late.receive_history (h : Late m) (hid : Aggregates nodeId)
    (hmap : m.app.nodeMap = nodeMapOf nodeId) (d : Payload) :
    ∃ m', Handled nodeId (entered T nodeId d m) d m' ∧
      (receive T nodeId d m).history = (flush T nodeId m').history := by
  have hh := handled hid (m := entered T nodeId d m)
    (by rw [entered_app, setForwardIpaddr_nodeMap, hmap]) d
  refine ⟨_, hh, ?_⟩
  have hexp : (handle nodeId d (entered T nodeId d m)).kernel.etimerExpired .app = true := by
    rw [hh.kernel, entered_kernel_of_open T nodeId d m h.1]
    exact h.2
  rw [receive_eq, Mote.onKernel_history, closed, flushDue, hexp, Bool.or_true, if_pos rfl]

theorem Late.openBatch_receive (h : Late m) (hid : Aggregates nodeId)
    (hmap : m.app.nodeMap = nodeMapOf nodeId) (d : Payload) :
    openBatch (receive T nodeId d m).history = [] := by
  obtain ⟨m', -, hhist⟩ := h.receive_history (T := T) hid hmap d
  rw [hhist, flush_history hid]
  simp [openBatch]

end Callback

/-! ## Stranded batches -/

/-- Nothing is left to happen at the mote by itself: the timer has expired, and no event and no
poll is pending. -/
def Quiescent (m : AggMote) : Prop :=
  m.kernel.etimerExpired .app = true ∧ m.kernel.events = [] ∧ m.kernel.pollRequested = false

instance (m : AggMote) : Decidable (Quiescent m) := by unfold Quiescent; infer_instance

/-- The step marks the firmware's timer as expired. -/
def Expires (T : Target) (nodeId : ℕ) (m : AggMote) (l : AggStep) : Prop :=
  m.kernel.etimerExpired .app = false ∧ (aggStep T nodeId m l).kernel.etimerExpired .app = true

instance (T : Target) (nodeId : ℕ) (m : AggMote) (l : AggStep) : Decidable (Expires T nodeId m l) := by
  unfold Expires; infer_instance

/-- The timer expires on empty batches only. -/
def ExpiresEmpty (T : Target) (nodeId : ℕ) (steps : List AggStep) : Prop :=
  EachWithPast (fun pre l => Expires T nodeId (aggRun T nodeId pre) l →
    (aggRun T nodeId pre).app.messageCount = 0) steps

instance (T : Target) (nodeId : ℕ) (steps : List AggStep) :
    Decidable (ExpiresEmpty T nodeId steps) := by
  unfold ExpiresEmpty; infer_instance

theorem ExpiresEmpty.of_prefix {T : Target} {nodeId : ℕ} {pre steps : List AggStep}
    (h : ExpiresEmpty T nodeId steps) (hpre : pre <+: steps) : ExpiresEmpty T nodeId pre := by
  obtain ⟨post, rfl⟩ := hpre
  exact EachWithPast.prefix h

theorem not_late_of_expiresEmpty (T : Target) {nodeId : ℕ} (hid : Aggregates nodeId)
    (steps : List AggStep) (h : ExpiresEmpty T nodeId steps) : ¬ Late (aggRun T nodeId steps) := by
  induction steps using List.reverseRecOn with
  | nil =>
    rintro ⟨hne, -⟩
    exact hne (by rw [show aggRun T nodeId [] = aggBoot T nodeId from rfl, aggBoot_app]; simp)
  | append_singleton steps l ih =>
    have hg := good_run T hid steps
    have hprev := ih h.prefix
    rintro ⟨hne, hexp⟩
    cases l with
    | recv d =>
      rw [aggRun_concat] at hexp
      have hfalse := receive_not_expired (T := T) hid hg.tracks.nodeMap d
      exact absurd (hexp.symm.trans hfalse) (by simp)
    | kernel l =>
      have happ : (aggRun T nodeId (steps ++ [.kernel l])).app = (aggRun T nodeId steps).app := by
        rw [aggRun_concat]
        exact (kernelStep_asleep (aggregator nodeId) T l hg.dead).app
      rw [happ] at hne
      cases hbefore : (aggRun T nodeId steps).kernel.etimerExpired .app with
      | true => exact hprev ⟨hne, hbefore⟩
      | false =>
        rw [aggRun_concat] at hexp
        exact hne (h steps (.kernel l) [] rfl ⟨hbefore, hexp⟩)

/-- **No batch is stranded in a run whose timer expires on empty batches only**: in every state
reached, once the timer has expired and nothing is pending, no message is waiting. -/
theorem no_stranded_batch (T : Target) {nodeId : ℕ} (hid : Aggregates nodeId)
    (steps : List AggStep) (h : ExpiresEmpty T nodeId steps) (pre : List AggStep)
    (hpre : pre <+: steps) (hq : Quiescent (aggRun T nodeId pre)) :
    (aggRun T nodeId pre).app.messageCount = 0 := by
  by_contra hne
  exact not_late_of_expiresEmpty T hid pre (h.of_prefix hpre) ⟨hne, hq.1⟩

/-- A full batch is sent, and its timer expires afterwards. -/
def fullRun : List AggStep :=
  [.recv (.message { nodeId := 4, sample := 20, msgId := 1 }),
   .recv (.message { nodeId := 5, sample := 20, msgId := 1 }),
   .recv (.message { nodeId := 6, sample := 20, msgId := 1 }),
   .kernel (.tick 640), .kernel .poll, .kernel .event]

theorem no_stranded_batch_fullRun : (aggRun .sky 2 fullRun).app.messageCount = 0 :=
  no_stranded_batch .sky (Or.inl rfl) fullRun (by decide) fullRun (List.prefix_refl _) (by decide)

/-- One message arrives and nothing after it. -/
def strandedRun : List AggStep :=
  [.recv (.message { nodeId := 5, sample := 20, msgId := 1 }),
   .kernel .poll, .kernel (.tick 640), .kernel (.call 0 (.poll .etimerProcess)),
   .kernel .poll, .kernel .event]

/-- The timer's event is delivered to the ended process and the message waits. -/
theorem stranded_batch : ¬ ∀ (T : Target) (nodeId : ℕ), Aggregates nodeId →
    ∀ steps : List AggStep, Quiescent (aggRun T nodeId steps) →
      (aggRun T nodeId steps).app.messageCount = 0 := by
  intro h
  have hcount := h .sky 2 (Or.inl rfl) strandedRun (by decide)
  revert hcount
  decide

/-! ## Messages after the expiry -/

/-- A message starts the next batch: every batch closed on its arrival is closed as it was, and
the message is the first of the open one. -/
def StartsNext (before after : History) (message : Message) : Prop :=
  openBatch after = [message] ∧
  ∀ mid t count agg rest, after = before ++ mid ++ (t, .flushed count agg) :: rest →
    openBatch (before ++ mid) = openBatch before ∧ openMissed (before ++ mid) = openMissed before

/-- Each source message that arrives at a late batch starts the next one. -/
def WindowBound (T : Target) (nodeId : ℕ) (steps : List AggStep) : Prop :=
  EachWithPast (fun pre l => ∀ message, l = .recv (.message message) →
    (∃ i, nodeMapOf nodeId i = message.nodeId) → Late (aggRun T nodeId pre) →
    StartsNext (aggRun T nodeId pre).history (aggRun T nodeId (pre ++ [l])).history message) steps

/-- No source message is the first datagram to arrive at a late batch. -/
def NoLateMessage (T : Target) (nodeId : ℕ) (steps : List AggStep) : Prop :=
  EachWithPast (fun pre l => ∀ message, l = .recv (.message message) →
    (∃ i, nodeMapOf nodeId i = message.nodeId) → ¬ Late (aggRun T nodeId pre)) steps

/-- A message that arrives at a late batch does not start the next one. -/
theorem not_startsNext_of_late (T : Target) {nodeId : ℕ} (hid : Aggregates nodeId)
    (pre : List AggStep) (message : Message) (h : Late (aggRun T nodeId pre)) :
    ¬ StartsNext (aggRun T nodeId pre).history
      (aggRun T nodeId (pre ++ [.recv (.message message)])).history message := by
  rintro ⟨hopen, -⟩
  have hempty := h.openBatch_receive (T := T) hid (good_run T hid pre).tracks.nodeMap
    (.message message)
  rw [aggRun_concat] at hopen
  exact List.cons_ne_nil _ _ (hopen.symm.trans hempty)

/-- **The window of a batch is respected exactly in the runs where no source message is the
first datagram after the expiry.** -/
theorem window_bound (T : Target) {nodeId : ℕ} (hid : Aggregates nodeId) (steps : List AggStep) :
    WindowBound T nodeId steps ↔ NoLateMessage T nodeId steps := by
  constructor
  · intro h pre l post heq message hl hmap hlate
    refine not_startsNext_of_late T hid pre message hlate ?_
    rw [← hl]
    exact h pre l post heq message hl hmap hlate
  · intro h pre l post heq message hl hmap hlate
    exact absurd hlate (h pre l post heq message hl hmap)

/-- Node 4's message arrives when the timer of node 5's batch has expired. -/
def lateRun : List AggStep :=
  [.recv (.message { nodeId := 5, sample := 20, msgId := 1 }),
   .kernel (.tick 640), .kernel .poll,
   .recv (.message { nodeId := 4, sample := 80, msgId := 1 })]

theorem window_bound_fails : ¬ ∀ (T : Target) (nodeId : ℕ), Aggregates nodeId →
    ∀ steps : List AggStep, WindowBound T nodeId steps := by
  intro h
  have hbound := (h .sky 2 (Or.inl rfl) lateRun (lateRun.take 3) _ [] rfl _ rfl
    ⟨0, rfl⟩ (by decide)).1
  revert hbound
  decide

theorem window_bound_lateRun : WindowBound .sky 2 lateRun ↔ NoLateMessage .sky 2 lateRun :=
  window_bound .sky (Or.inl rfl) lateRun

end WsnAggregation
