import WsnAggregation.Contiki.Operations

/-!
# Contiki: a mote's steps as operations of the kernel

The scheduler, the other processes of the system and the interrupts change the kernel by its
operations only. So the kernel of a mote is reached by operations, as long as the firmware's
thread changes it by operations too. Among them only `do_event` takes an event off the queue, and
it takes one.

* `kernelStep_reaches` — a kernel step is made of operations.
* `kernelStep_events` — the events that wait keep their order and their places in the queue.
-/

namespace WsnAggregation.Contiki

/-- Operations lead from one kernel to the other, and none of them takes an event off the queue. -/
def Reaches (T : Target) (k k' : Kernel) : Prop := ∃ ops, Trace T k ops k' ∧ .takeEvent ∉ ops

namespace Reaches

variable {T : Target} {k k' k'' : Kernel}

theorem refl (k : Kernel) : Reaches T k k := ⟨[], .nil k, by simp⟩

theorem trans (h : Reaches T k k') (h' : Reaches T k' k'') : Reaches T k k'' := by
  obtain ⟨ops, h, hops⟩ := h
  obtain ⟨ops', h', hops'⟩ := h'
  exact ⟨ops ++ ops', h.append h', by simp [hops, hops']⟩

theorem of_allowed {op : KernelOp} (h : op.Allowed k) (htake : op ≠ .takeEvent) :
    Reaches T k (op.run T k) :=
  ⟨[op], .cons h (.nil _), by simpa using htake.symm⟩

/-- One operation that starts no timer. -/
theorem op (op : KernelOp) (hs : op.starts = false)
    (hop : op ≠ .clearNeedspoll .etimerProcess ∧ op ≠ .takeEvent) : Reaches T k (op.run T k) :=
  of_allowed (KernelOp.allowed_of_not_starts hs hop.1) hop.2

/-- One operation by which a process starts a timer. -/
theorem start (op : KernelOp) (hs : op.starts = true) (hcurrent : k.current ≠ none) :
    Reaches T k (op.run T k) :=
  of_allowed ⟨fun _ => hcurrent, by rintro rfl; cases hs⟩ (by rintro rfl; cases hs)

theorem setState (k : Kernel) (p : Pid) (s : ProcState) : Reaches T k (k.setState p s) :=
  op (.setState p s) rfl (by simp)

theorem setCurrent (k : Kernel) (p : Option Pid) : Reaches T k (k.setCurrent p) :=
  op (.setCurrent p) rfl (by simp)

end Reaches

/-- Operations of any kind lead from one kernel to the other. -/
def Operated (T : Target) (k k' : Kernel) : Prop := ∃ ops, Trace T k ops k'

theorem Operated.refl (T : Target) (k : Kernel) : Operated T k k := ⟨[], .nil k⟩

theorem Reaches.operated {T : Target} {k k' : Kernel} (h : Reaches T k k') : Operated T k k' := by
  obtain ⟨ops, ht, -⟩ := h
  exact ⟨ops, ht⟩

/-! ## The events that wait -/

namespace Kernel

variable {T : Target}

theorem addTimer_events (k : Kernel) (t : TimerId) : (k.addTimer t).events = k.events := by
  unfold addTimer
  dsimp only
  split <;> exact processPoll_events _

theorem processPost_events (k : Kernel) (p : Option Pid) (ev : Event) (data : Data) :
    k.events <+: (k.processPost T p ev data).1.events := by
  rcases processPost_cases k T p ev data with hpost | hpost
  · rw [hpost]
  · rw [hpost]
    exact List.prefix_append _ _

theorem again_events (n : ℕ) (k : Kernel) : k.events <+: (again T n k).events := by
  induction n generalizing k with
  | zero => exact List.prefix_refl _
  | succ n ih =>
    unfold again
    obtain ⟨k', -, ⟨hscan, hev⟩ | ⟨t, -, hscan, -, hev⟩⟩ := scan_cases T k k.timerlist
    · rw [hscan, ← hev]
    · rw [hscan]
      have hposted : k.events <+: (k'.unlink t).events := ⟨_, hev.symm⟩
      exact hposted.trans (ih _)

theorem etimerThread_events (ev : Event) (data : Data) (k : Kernel) :
    k.events <+: (k.etimerThread T ev data).events := by
  unfold etimerThread
  split
  · exact List.prefix_refl _
  · exact again_events _ k
  · exact List.prefix_refl _

end Kernel

/-- Whatever is not taken off the queue keeps its place in it. -/
theorem KernelOp.run_events {T : Target} {op : KernelOp} (hop : op ≠ .takeEvent) (k : Kernel) :
    k.events <+: (op.run T k).events := by
  cases op with
  | takeEvent => exact absurd rfl hop
  | post p ev data => exact Kernel.processPost_events k p ev data
  | poll p => rw [run, Kernel.processPoll_events]
  | etimerSet t interval =>
    rw [run, Kernel.etimerSet, Kernel.addTimer_events]
    exact List.prefix_refl _
  | etimerRestart t =>
    rw [run, Kernel.etimerRestart, Kernel.addTimer_events]
    exact List.prefix_refl _
  | etimerReset t =>
    rw [run, Kernel.etimerReset, Kernel.addTimer_events]
    unfold Kernel.timerReset
    split <;> exact List.prefix_refl _
  | etimerThread ev data => exact Kernel.etimerThread_events ev data k
  | pollEtimer => exact Kernel.etimerThread_events .poll .null k.servePoll
  | _ => exact List.prefix_refl _

theorem Reaches.events {T : Target} {k k' : Kernel} (h : Reaches T k k') :
    k.events <+: k'.events := by
  obtain ⟨ops, ht, hops⟩ := h
  induction ht with
  | nil => exact List.prefix_refl _
  | cons _ _ ih =>
    rw [List.mem_cons, not_or] at hops
    exact (KernelOp.run_events (Ne.symm hops.1) _).trans (ih hops.2)

/-! ## The scheduler -/

/-- The firmware's thread changes the kernel by operations. -/
def Firmware.Operates {σ ε : Type} (fw : Firmware σ ε) (T : Target) : Prop :=
  ∀ ev data (m : Mote σ ε), m.kernel.current ≠ none →
    Reaches T m.kernel (fw.thread T ev data m).1.kernel

section

variable {σ ε : Type} {fw : Firmware σ ε} {T : Target}

theorem foldl_reaches {α : Type} (f : Mote σ ε → α → Mote σ ε)
    (hf : ∀ m a, Reaches T m.kernel (f m a).kernel) (l : List α) (m : Mote σ ε) :
    Reaches T m.kernel (l.foldl f m).kernel := by
  induction l generalizing m with
  | nil => exact Reaches.refl _
  | cons a l ih => exact (hf m a).trans (ih (f m a))

theorem enter_reaches (p : Pid) (m : Mote σ ε) : Reaches T m.kernel (enter p m).kernel :=
  (Reaches.setState _ p .called).trans (Reaches.setCurrent _ _)

variable (hfw : fw.Operates T)
include hfw

theorem runThread_reaches (p : Pid) (ev : Event) (data : Data) (m : Mote σ ε) :
    Reaches T (enter p m).kernel (runThread fw T p ev data (enter p m)).1.kernel := by
  cases p with
  | etimerProcess => exact Reaches.op (.etimerThread ev data) rfl (by simp)
  | app => exact hfw ev data (enter .app m) (by simp [enter, Kernel.setCurrent])
  | other n => exact Reaches.refl _

theorem called_reaches (p : Pid) (ev : Event) (data : Data) (m : Mote σ ε) :
    Reaches T m.kernel (runThread fw T p ev data (enter p m)).1.kernel :=
  (enter_reaches p m).trans (runThread_reaches hfw p ev data m)

theorem notifyExited_reaches (p q : Pid) (m : Mote σ ε) :
    Reaches T m.kernel (notifyExited fw T p q m).kernel := by
  unfold notifyExited
  split
  · exact (called_reaches hfw q .exited (.process p) m).trans (Reaches.setState _ q .running)
  · exact Reaches.refl _

theorem exitProcess_reaches (p : Pid) (m : Mote σ ε) :
    Reaches T m.kernel (exitProcess fw T p m).kernel := by
  have hunlist : ∀ k c, Reaches T k
      { k.setCurrent c with processList := k.processList.erase p } := fun k c =>
    (Reaches.setCurrent k c).trans (Reaches.op (.delist p) rfl (by simp))
  unfold exitProcess
  split
  · dsimp only
    split
    · have hstate : Reaches T m.kernel (m.kernel.setState p .none) := Reaches.setState _ p .none
      have htold := foldl_reaches (fun m q => notifyExited fw T p q m)
        (fun m q => notifyExited_reaches hfw p q m) m.kernel.processList
        (m.onKernel fun k => k.setState p .none)
      exact (hstate.trans htold).trans (hunlist _ _)
    · exact hunlist _ _
  · exact Reaches.refl _

theorem callProcess_reaches (p : Pid) (ev : Event) (data : Data) (m : Mote σ ε) :
    Reaches T m.kernel (callProcess fw T p ev data m).kernel := by
  unfold callProcess
  split
  · have hcall := called_reaches hfw p ev data m
    dsimp only
    split
    · exact hcall.trans (exitProcess_reaches hfw p _)
    · exact hcall.trans (Reaches.setState _ p .running)
  · exact Reaches.refl _

theorem processStart_reaches (p : Pid) (m : Mote σ ε) :
    Reaches T m.kernel (processStart fw T p m).kernel := by
  unfold processStart
  split
  · exact Reaches.refl _
  · have hlist : Reaches T m.kernel (m.onKernel fun k =>
        { k.setState p .running with processList := p :: k.processList }).kernel :=
      (Reaches.setState _ p .running).trans (Reaches.op (.enlist p) rfl (by simp))
    exact (hlist.trans (callProcess_reaches hfw p .init .null _)).trans (Reaches.setCurrent _ _)

/-- A process is polled. Where it is `etimer_process`, the poll is one operation. -/
theorem polled_reaches (p : Pid) (m : Mote σ ε) :
    Reaches T m.kernel (callProcess fw T p .poll .null (m.onKernel fun k =>
      { k.setState p .running with needspoll := Function.update k.needspoll p false })).kernel := by
  have hrunning : Reaches T m.kernel (m.kernel.setState p .running) := Reaches.setState _ p .running
  by_cases hp : p = .etimerProcess
  · subst hp
    have hserve : Reaches T (m.kernel.setState .etimerProcess .running)
        ((m.kernel.setState .etimerProcess .running).servePoll.etimerThread T .poll .null) :=
      Reaches.op .pollEtimer rfl (by simp)
    unfold callProcess
    rw [if_pos (by simp [Kernel.setState])]
    dsimp only
    rw [if_neg (by simp [runThread])]
    exact (hrunning.trans hserve).trans (Reaches.setState _ _ _)
  · have hclear : Reaches T (m.kernel.setState p .running) (m.onKernel fun k =>
        { k.setState p .running with needspoll := Function.update k.needspoll p false }).kernel :=
      Reaches.op (.clearNeedspoll p) rfl (by simp [hp])
    exact (hrunning.trans hclear).trans (callProcess_reaches hfw p .poll .null _)

theorem pollIfRequested_reaches (m : Mote σ ε) :
    Reaches T m.kernel (pollIfRequested fw T m).kernel := by
  unfold pollIfRequested
  split
  · unfold doPoll
    have hclear : Reaches T m.kernel
        (m.onKernel fun k => { k with pollRequested := false }).kernel :=
      Reaches.op .clearPollRequested rfl (by simp)
    refine hclear.trans (foldl_reaches _ (fun m p => ?_) _ _)
    split
    · exact polled_reaches hfw p m
    · exact Reaches.refl _
  · exact Reaches.refl _

/-- The first event is taken off the queue. What happens then takes none. -/
theorem doEvent_reaches (m : Mote σ ε) :
    Reaches T (KernelOp.takeEvent.run T m.kernel) (doEvent fw T m).kernel := by
  unfold doEvent
  split
  · rename_i hempty
    have hsame : KernelOp.takeEvent.run T m.kernel = m.kernel := by
      rw [KernelOp.run, hempty, List.tail_nil, ← hempty]
    rw [hsame]
    exact Reaches.refl _
  · rename_i e rest heq
    have htaken : KernelOp.takeEvent.run T m.kernel =
        (m.onKernel fun k => { k with events := rest }).kernel := by
      rw [KernelOp.run, heq]
      rfl
    rw [htaken]
    generalize (m.onKernel fun k => { k with events := rest }) = m
    dsimp only
    split
    · exact foldl_reaches _ (fun m p => (pollIfRequested_reaches hfw m).trans
        (callProcess_reaches hfw p e.ev e.data _)) _ m
    · rename_i p _
      split
      · have hrunning : Reaches T m.kernel (m.onKernel fun k => k.setState p .running).kernel :=
          Reaches.setState _ p .running
        exact hrunning.trans (callProcess_reaches hfw p e.ev e.data _)
      · exact callProcess_reaches hfw p e.ev e.data _

omit hfw in
theorem Call.run_reaches (c : Call) {k : Kernel} (hcurrent : k.current ≠ none) :
    Reaches T k (c.run T k) := by
  cases c with
  | post p ev data =>
    unfold Call.run
    dsimp only
    split
    · exact Reaches.refl _
    · exact Reaches.op (.post p ev data) rfl (by simp)
  | poll p => exact Reaches.op (.poll p) rfl (by simp)
  | etimerSet t interval => exact Reaches.start (.etimerSet (.other t) interval) rfl hcurrent
  | etimerReset t => exact Reaches.start (.etimerReset (.other t)) rfl hcurrent
  | etimerRestart t => exact Reaches.start (.etimerRestart (.other t)) rfl hcurrent
  | etimerStop t => exact Reaches.op (.etimerStop (.other t)) rfl (by simp)

omit hfw in
theorem tick_reaches (d : ℕ) (k : Kernel) : Reaches T k { k with clock := k.clock + d } := by
  induction d with
  | zero => exact Reaches.refl k
  | succ d ih => exact ih.trans (Reaches.op .tick rfl (by simp))

/-- **A kernel step is made of operations**, and the only one of them that takes an event off the
queue is the first of `do_event`. -/
theorem kernelStep_reaches (m : Mote σ ε) (l : KernelStep) :
    Reaches T (if l = .event then KernelOp.takeEvent.run T m.kernel else m.kernel)
      (kernelStep fw T m l).kernel := by
  cases l with
  | tick d => exact tick_reaches d m.kernel
  | call n c =>
    have hcall : Reaches T (m.kernel.setCurrent (some (.other n)))
        (c.run T (m.kernel.setCurrent (some (.other n)))) :=
      Call.run_reaches c (by simp [Kernel.setCurrent])
    exact ((Reaches.setCurrent _ _).trans hcall).trans (Reaches.setCurrent _ _)
  | start n => exact processStart_reaches hfw (.other n) m
  | exit n => exact exitProcess_reaches hfw (.other n) m
  | poll => exact pollIfRequested_reaches hfw m
  | event => exact doEvent_reaches hfw m

theorem kernelStep_operated (m : Mote σ ε) (l : KernelStep) :
    Operated T m.kernel (kernelStep fw T m l).kernel := by
  have h := kernelStep_reaches hfw m l
  split_ifs at h
  · obtain ⟨ops, ht, -⟩ := h
    exact ⟨_, .cons (KernelOp.allowed_of_not_starts rfl (by simp)) ht⟩
  · exact h.operated

/-- What waits in the queue moves up by one place when an event is delivered, and stays where it is
in any other step. -/
theorem kernelStep_events (m : Mote σ ε) (l : KernelStep) :
    (if l = .event then m.kernel.events.tail else m.kernel.events) <+:
      (kernelStep fw T m l).kernel.events := by
  have h := (kernelStep_reaches hfw m l).events
  split_ifs with hl
  · rw [if_pos hl] at h
    exact h
  · rw [if_neg hl] at h
    exact h

theorem boot_reaches : Reaches T bootKernel (boot fw T).kernel :=
  processStart_reaches hfw .app { kernel := bootKernel, app := fw.initial, history := [] }

end

end WsnAggregation.Contiki
