import WsnAggregation.Contiki.Awake
import WsnAggregation.SourceRun

/-!
# The schedule of a source

A source sends when its timer has expired and it is active, and sets the timer only then. An
expiry that comes while it is stopped is not lost: the timer stays expired, and the press that
resumes the source finds it so.

* `Paced` — the invariant: an active source will be woken, and its timer has been running since
  its last message.
* `source_scheduling` — in every run, an active source always has its timer on the list or its
  timer event in the queue, and consecutive messages are at least `SEND_INTERVAL` apart.
-/

namespace WsnAggregation

open Contiki

/-- The times at which messages were sent, in order. -/
def sendTimes (h : List (ℕ × SourceAction)) : List ℕ :=
  h.filterMap fun e => match e.2 with
    | .sent _ _ => some e.1
    | _ => none

theorem sendTimes_transmit (rand : ℕ → ℕ) (T : Target) (nodeId : ℕ) (m : SourceMote) :
    sendTimes (transmit rand T nodeId m).history = sendTimes m.history ++ [m.kernel.clock] := by
  rw [transmit_history]
  exact List.filterMap_append

/-- The timer was set at `t`, for `SEND_INTERVAL` or longer, and is not marked as expired before
that time has passed. -/
structure SetAt (T : Target) (t : ℕ) (k : Kernel) : Prop where
  start : (k.timer .app).start = t % 2 ^ T.clockBits
  interval : T.sendInterval ≤ (k.timer .app).interval
  le_clock : t ≤ k.clock
  elapsed : (k.timer .app).p = none → t + T.sendInterval ≤ k.clock

/-- What holds of a source whenever its process waits. -/
structure Paced (T : Target) (m : SourceMote) : Prop where
  alive : m.kernel.Alive
  started : m.app.started = true
  wakes : m.app.active = true → .app ∈ m.kernel.timerlist ∨ expiry ∈ m.kernel.events
  spaced : (sendTimes m.history).IsChain fun t t' => t + T.sendInterval ≤ t'
  timed : ∀ t ∈ (sendTimes m.history).getLast?, SetAt T t m.kernel

section

variable {rand : ℕ → ℕ} {T : Target} {nodeId : ℕ}

/-- The timer is on the list exactly while it is owned. -/
theorem Contiki.Kernel.Alive.mem_timerlist {k : Kernel} (h : k.Alive) :
    .app ∈ k.timerlist ↔ (k.timer .app).p ≠ none := by
  rw [← List.count_pos_iff]
  rcases h.timer with ⟨hp, hcount⟩ | ⟨hp, hcount⟩ <;> simp [hp, hcount]

theorem etimerSet_of_expired {k : Kernel} (hp : (k.timer .app).p = none) (interval : ℕ) :
    (k.etimerSet T .app interval).timer .app = ⟨k.clockTime T, interval, k.current⟩ ∧
      (k.etimerSet T .app interval).timerlist = .app :: k.timerlist ∧
      (k.etimerSet T .app interval).events = k.events ∧
      (k.etimerSet T .app interval).clock = k.clock := by
  have htimer : (k.timerSet T .app interval).timer .app = ⟨k.clockTime T, interval, none⟩ := by
    simp [Kernel.timerSet, Kernel.setTimer, hp]
  have hagrees := Kernel.processPoll_agrees (k.timerSet T .app interval) .etimerProcess
  have hfree : ¬(((k.timerSet T .app interval).etimerRequestPoll.timer .app).p ≠ none ∧
      .app ∈ (k.timerSet T .app interval).etimerRequestPoll.timerlist) := by
    intro hmem
    have hnone : ((k.timerSet T .app interval).etimerRequestPoll.timer .app).p = none := by
      rw [Kernel.etimerRequestPoll, hagrees.timer, htimer]
    exact hmem.1 hnone
  refine ⟨?_, ?_, ?_, Kernel.addTimer_clock _⟩
  · rw [Kernel.etimerSet, Kernel.addTimer_timer, Function.update_self, htimer]
    rfl
  · simp only [Kernel.etimerSet, Kernel.addTimer]
    rw [if_neg hfree]
    exact congrArg (.app :: ·) hagrees.timerlist
  · simp only [Kernel.etimerSet, Kernel.addTimer]
    rw [if_neg hfree]
    exact Kernel.processPoll_events _

/-! ## While the process waits -/

/-- A set timer stays set while the rest of the system runs. -/
theorem SetAt.quiet {t : ℕ} {k k' : Kernel} (h : SetAt T t k) (hq : Kernel.Quiet T k k') :
    SetAt T t k' where
  start := hq.start.trans h.start
  interval := h.interval.trans hq.interval.ge
  le_clock := h.le_clock.trans hq.clock
  elapsed := hq.elapsed h.start h.le_clock h.interval h.elapsed

theorem Paced.awake {m m' : SourceMote} (h : Paced T m) (ha : Awake T m m') : Paced T m' where
  alive := ha.waits.alive
  started := by rw [ha.app, h.started]
  wakes := by
    rw [ha.app]
    intro hactive
    rcases h.wakes hactive with hlist | hqueued
    · -- The timer was on the list: it still is, or its event was posted.
      rcases ha.waits.wakes (h.alive.mem_timerlist.1 hlist) with hp | hposted
      · exact Or.inl (ha.waits.alive.mem_timerlist.2 hp)
      · exact Or.inr hposted
    · exact Or.inr (ha.waits.queued expiry hqueued rfl)
  spaced := by rw [ha.history]; exact h.spaced
  timed := by
    rw [ha.history]
    exact fun t ht => (h.timed t ht).quiet ha.waits.quiet

/-! ## When the process is called -/

theorem pressed_started (ev : Event) (data : Data) (s : Source) :
    (pressed rand T ev data s).started = s.started := by
  unfold pressed
  split_ifs
  · exact pressButton_started s
  · rfl

/-- A round that does not send: if the source is active, its timer has not expired. -/
theorem Paced.idle {m m' : SourceMote} (h : Paced T m) (hstarted : m'.app.started = true)
    (hstate : m'.kernel.state .app = .running) (hevents : m'.kernel.events <:+ m.kernel.events)
    (htimer : m'.kernel.timer = m.kernel.timer) (hlist : m'.kernel.timerlist = m.kernel.timerlist)
    (hclock : m'.kernel.clock = m.kernel.clock) (hhistory : m'.history = m.history)
    (hactive : m'.app.active = true → (m.kernel.timer .app).p ≠ none) : Paced T m' where
  alive := h.alive.congr hstate (fun e he => Or.inl (hevents.subset he)) (by rw [htimer])
    (by rw [hlist])
  started := hstarted
  wakes := fun ha => Or.inl (by rw [hlist]; exact h.alive.mem_timerlist.2 (hactive ha))
  spaced := by rw [hhistory]; exact h.spaced
  timed := by
    rw [hhistory]
    exact fun t ht => (h.timed t ht).quiet (Kernel.Quiet.of_eq hclock (by rw [htimer]))

/-- A round that sends: the timer had expired, so the last message is `SEND_INTERVAL` ago, and
the timer is set anew. -/
theorem Paced.transmit {m m' : SourceMote} (h : Paced T m) (hstarted : m'.app.started = true)
    (hevents : m'.kernel.events <:+ m.kernel.events) (htimer : m'.kernel.timer = m.kernel.timer)
    (hlist : m'.kernel.timerlist = m.kernel.timerlist) (hclock : m'.kernel.clock = m.kernel.clock)
    (hcurrent : m'.kernel.current = some .app) (hhistory : m'.history = m.history)
    (hexp : (m.kernel.timer .app).p = none) :
    Paced T ((transmit rand T nodeId m').onKernel fun k => k.setState .app .running) := by
  have hfree : (m'.kernel.timer .app).p = none := by rw [htimer, hexp]
  have hcount : m.kernel.timerlist.count .app = 0 := by
    rcases h.alive.timer with ⟨hp, -⟩ | ⟨-, hzero⟩
    · rw [hexp] at hp
      cases hp
    · exact hzero
  -- The kernel after the timer was set.
  obtain ⟨interval, hinterval, hkernel⟩ : ∃ interval, T.sendInterval ≤ interval ∧
      (WsnAggregation.transmit rand T nodeId m').kernel = m'.kernel.etimerSet T .app interval :=
    ⟨_, Nat.le_add_right _ _, rfl⟩
  obtain ⟨hset, hlisted, hqueue, hsame⟩ := etimerSet_of_expired (T := T) hfree interval
  have htimes : sendTimes (WsnAggregation.transmit rand T nodeId m').history =
      sendTimes m.history ++ [m.kernel.clock] := by
    rw [sendTimes_transmit, hhistory, hclock]
  refine ⟨⟨?_, ?_, ?_⟩, hstarted, ?_, ?_, ?_⟩
  · simp [Kernel.setState]
  · intro e he
    simp only [Mote.onKernel_kernel, Kernel.setState, hkernel, hqueue] at he
    exact h.alive.events e (hevents.subset he)
  · refine Or.inl ⟨?_, ?_⟩
    · simp only [Mote.onKernel_kernel, Kernel.setState, hkernel, hset]
      exact hcurrent
    · simp only [Mote.onKernel_kernel, Kernel.setState, hkernel, hlisted, hlist,
        List.count_cons_self, hcount]
  · intro _
    simp [Kernel.setState, hkernel, hlisted]
  · rw [Mote.onKernel_history, htimes, List.isChain_append]
    refine ⟨h.spaced, List.isChain_singleton _, fun t ht t' ht' => ?_⟩
    simp only [List.head?_cons, Option.mem_def, Option.some.injEq] at ht'
    subst ht'
    exact (h.timed t ht).elapsed hexp
  · rw [Mote.onKernel_history, htimes, List.getLast?_concat]
    intro t ht
    obtain rfl : m.kernel.clock = t := by simpa using ht
    refine ⟨?_, ?_, ?_, ?_⟩
    · simp only [Mote.onKernel_kernel, Kernel.setState, hkernel, hset, Kernel.clockTime, hclock]
    · simp only [Mote.onKernel_kernel, Kernel.setState, hkernel, hset]
      exact hinterval
    · simp only [Mote.onKernel_kernel, Kernel.setState, hkernel, hsame, hclock, le_refl]
    · simp [Kernel.setState, hkernel, hset, hcurrent]

theorem paced_resume (ev : Event) (data : Data) (rest : List EventData) {m : SourceMote}
    (h : Paced T m) (hrest : rest <:+ m.kernel.events) :
    Paced T (resume (source rand nodeId) T ev data rest m) := by
  have hpressed : (pressed rand T ev data m.app).started = true :=
    (pressed_started ev data m.app).trans h.started
  -- The mote as the thread finds it.
  obtain ⟨m₁, hm₁⟩ : ∃ m₁, m₁ = enter .app (m.onKernel fun k => { k with events := rest }) :=
    ⟨_, rfl⟩
  have happ : m₁.app = m.app := by rw [hm₁]; rfl
  have hthread : ((source rand nodeId).thread T ev data m₁).1 =
      sourceEvent rand T nodeId ev data m₁ := by
    simp only [source, happ, h.started, if_true]
  rw [resume, ← hm₁, hthread]
  rcases sourceEvent_cases rand T nodeId ev data m₁ with
    ⟨heq, hinactive⟩ | ⟨hexp, -, heq⟩
  · rw [heq]
    subst hm₁
    refine h.idle hpressed (by simp [Kernel.setState]) hrest rfl rfl rfl rfl fun hactive hp => ?_
    have hfalse := hinactive (decide_eq_true hp)
    exact absurd (hfalse.symm.trans hactive) (by decide)
  · rw [heq]
    subst hm₁
    exact h.transmit hpressed hrest rfl rfl rfl rfl rfl (of_decide_eq_true hexp)

theorem source_steady : Steady (source rand nodeId) T (Paced T) where
  endless := fun _ _ _ => rfl
  alive := fun _ h => h.alive
  waits := fun _ _ h ha => h.awake ha
  resumes := fun ev data rest _ h hrest => paced_resume ev data rest h hrest

/-- At boot the source sets its timer before it waits for the first time. -/
theorem paced_boot : Paced T (boot (source rand nodeId) T) := by
  rw [boot_source]
  obtain ⟨interval, hkernel⟩ : ∃ interval,
      (startSource rand T nodeId ⟨startKernel, {}, []⟩).kernel =
        startKernel.etimerSet T .app interval := ⟨_, rfl⟩
  obtain ⟨hset, hlisted, hqueue, -⟩ := etimerSet_of_expired (T := T) (k := startKernel) rfl interval
  refine ⟨⟨?_, ?_, ?_⟩, ?_, ?_, ?_, ?_⟩
  · simp [Kernel.setState, Kernel.setCurrent]
  · intro e he
    simp only [Mote.onKernel_kernel, Kernel.setState, Kernel.setCurrent, hkernel, hqueue] at he
    cases he
  · refine Or.inl ⟨?_, ?_⟩
    · simp only [Mote.onKernel_kernel, Kernel.setState, Kernel.setCurrent, hkernel, hset]
      rfl
    · simp only [Mote.onKernel_kernel, Kernel.setState, Kernel.setCurrent, hkernel, hlisted]
      rfl
  · rw [Mote.onKernel_app]
    exact startSource_started rand T nodeId _
  · intro _
    simp [Kernel.setState, Kernel.setCurrent, hkernel, hlisted]
  · exact List.isChain_nil
  · intro t ht
    cases ht

end

/-- **A source neither stalls nor bursts.** Whatever happens to a mote running the source firmware:
consecutive messages are at least `SEND_INTERVAL` apart, and while the source is active its timer
is on the list or the event of its timer is in the queue. -/
theorem source_scheduling (rand : ℕ → ℕ) (T : Target) (nodeId : ℕ) (steps : List KernelStep) :
    (sendTimes (sourceRun rand T nodeId steps).history).IsChain
        (fun t t' => t + T.sendInterval ≤ t') ∧
      ((sourceRun rand T nodeId steps).app.active = true →
        .app ∈ (sourceRun rand T nodeId steps).kernel.timerlist ∨
          expiry ∈ (sourceRun rand T nodeId steps).kernel.events) := by
  have hpaced : Paced T (sourceRun rand T nodeId steps) :=
    kernelRun_steady source_steady paced_boot steps
  exact ⟨hpaced.spaced, hpaced.wakes⟩

end WsnAggregation
