import WsnAggregation.Contiki.Etimer

/-!
# Contiki: processes

The scheduler of `os/sys/process.c` running a firmware: a mote is the kernel's memory, the
firmware's memory, and the history of what the firmware did, each entry stamped with the clock.

The other processes of the system are an environment. When the scheduler calls one, nothing
happens in that step; what its code does to the kernel happens as `Call`s, which may come at any
moment and in any order, and so may interrupts. They own the timers `TimerId.other`, post only
events the kernel gives no meaning to, and never touch the firmware's memory.
-/

namespace WsnAggregation.Contiki

/-- A mote: kernel, firmware memory, and the stamped history of the firmware's actions. -/
structure Mote (σ ε : Type) where
  kernel : Kernel
  app : σ
  history : List (ℕ × ε)

/-- A firmware image: its initial memory and the protothread of its process. The thread returns
whether it ran off its `PROCESS_END`. -/
structure Firmware (σ ε : Type) where
  initial : σ
  thread : Target → Event → Data → Mote σ ε → Mote σ ε × Bool

namespace Mote

variable {σ ε : Type}

/-- Record an action of the firmware. -/
def emit (m : Mote σ ε) (e : ε) : Mote σ ε :=
  { m with history := m.history ++ [(m.kernel.clock, e)] }

@[simp] theorem emit_kernel (m : Mote σ ε) (e : ε) : (m.emit e).kernel = m.kernel := rfl
@[simp] theorem emit_app (m : Mote σ ε) (e : ε) : (m.emit e).app = m.app := rfl
@[simp] theorem emit_history (m : Mote σ ε) (e : ε) :
    (m.emit e).history = m.history ++ [(m.kernel.clock, e)] := rfl

/-- Change the kernel's memory only. -/
def onKernel (f : Kernel → Kernel) (m : Mote σ ε) : Mote σ ε := { m with kernel := f m.kernel }

@[simp] theorem onKernel_kernel (f : Kernel → Kernel) (m : Mote σ ε) :
    (m.onKernel f).kernel = f m.kernel := rfl
@[simp] theorem onKernel_app (f : Kernel → Kernel) (m : Mote σ ε) : (m.onKernel f).app = m.app := rfl
@[simp] theorem onKernel_history (f : Kernel → Kernel) (m : Mote σ ε) :
    (m.onKernel f).history = m.history := rfl

end Mote

namespace Kernel

/-- Set the state of a process. -/
def setState (k : Kernel) (p : Pid) (s : ProcState) : Kernel :=
  { k with state := Function.update k.state p s }

/-- Set `process_current`. -/
def setCurrent (k : Kernel) (p : Option Pid) : Kernel := { k with current := p }

end Kernel

/-- Switch to another process context and back (`PROCESS_CONTEXT_BEGIN`, `PROCESS_CONTEXT_END`). -/
def Mote.withCurrent {σ ε : Type} (p : Pid) (f : Mote σ ε → Mote σ ε) (m : Mote σ ε) : Mote σ ε :=
  (f (m.onKernel fun k => k.setCurrent (some p))).onKernel fun k => k.setCurrent m.kernel.current

section Scheduler

variable {σ ε : Type} (fw : Firmware σ ε) (T : Target)

/-! ## Calling processes -/

/-- The thread of each process. -/
def runThread (p : Pid) (ev : Event) (data : Data) (m : Mote σ ε) : Mote σ ε × Bool :=
  match p with
  | .etimerProcess => (m.onKernel fun k => k.etimerThread T ev data, false)
  | .app => fw.thread T ev data m
  | .other _ => (m, false)

/-- The part of `call_process` before the thread runs. -/
def enter (p : Pid) (m : Mote σ ε) : Mote σ ε :=
  m.onKernel fun k => (k.setState p .called).setCurrent (some p)

/-- Tell `q` that `p` is exiting. No thread of the system ends on this event. -/
def notifyExited (p q : Pid) (m : Mote σ ε) : Mote σ ε :=
  if q ≠ p ∧ m.kernel.state q = .running then
    (runThread fw T q .exited (.process p) (enter q m)).1.onKernel fun k => k.setState q .running
  else m

/-- `exit_process(p, p)`: the other processes are told, and the process leaves the list. -/
def exitProcess (p : Pid) (m : Mote σ ε) : Mote σ ε :=
  if p ∈ m.kernel.processList then
    let told :=
      if m.kernel.state p ≠ .none then
        m.kernel.processList.foldl (fun m q => notifyExited fw T p q m)
          (m.onKernel fun k => k.setState p .none)
      else m
    told.onKernel fun k =>
      { k.setCurrent m.kernel.current with processList := k.processList.erase p }
  else m

/-- `call_process`: only a process in the running state is called. -/
def callProcess (p : Pid) (ev : Event) (data : Data) (m : Mote σ ε) : Mote σ ε :=
  if m.kernel.state p = .running then
    let r := runThread fw T p ev data (enter p m)
    if r.2 ∨ ev = .exit then exitProcess fw T p r.1
    else r.1.onKernel fun k => k.setState p .running
  else m

/-- `process_start`, with its synchronous initialization event. -/
def processStart (p : Pid) (m : Mote σ ε) : Mote σ ε :=
  if p ∈ m.kernel.processList then m
  else
    (callProcess fw T p .init .null (m.onKernel fun k =>
      { k.setState p .running with processList := p :: k.processList })).onKernel
        fun k => k.setCurrent m.kernel.current

/-! ## The scheduler -/

/-- `do_poll`. -/
def doPoll (m : Mote σ ε) : Mote σ ε :=
  m.kernel.processList.foldl
    (fun m p =>
      if m.kernel.needspoll p then
        callProcess fw T p .poll .null (m.onKernel fun k =>
          { k.setState p .running with needspoll := Function.update k.needspoll p false })
      else m)
    (m.onKernel fun k => { k with pollRequested := false })

/-- The poll `process_run` and the broadcast loop make when one was requested. -/
def pollIfRequested (m : Mote σ ε) : Mote σ ε :=
  if m.kernel.pollRequested then doPoll fw T m else m

/-- `do_event`: take the first event off the queue and deliver it. -/
def doEvent (m : Mote σ ε) : Mote σ ε :=
  match m.kernel.events with
  | [] => m
  | e :: rest =>
    let m := m.onKernel fun k => { k with events := rest }
    match e.p with
    | none =>
      m.kernel.processList.foldl
        (fun m p => callProcess fw T p e.ev e.data (pollIfRequested fw T m)) m
    | some p =>
      callProcess fw T p e.ev e.data
        (if e.ev = .init then m.onKernel fun k => k.setState p .running else m)

/-! ## The environment -/

/-- A kernel call by another process or by an interrupt handler. -/
inductive Call where
  | post (p : Option Pid) (ev : Event) (data : Data)
  | poll (p : Pid)
  | etimerSet (t : ℕ) (interval : ℕ)
  | etimerReset (t : ℕ)
  | etimerRestart (t : ℕ)
  | etimerStop (t : ℕ)
  deriving DecidableEq, Repr

/-- The events that the kernel itself posts. -/
def Event.isKernelEvent : Event → Bool
  | .sensors | .other _ => false
  | _ => true

/-- The effect of a call. -/
def Call.run (c : Call) (k : Kernel) : Kernel :=
  match c with
  | .post p ev data => if ev.isKernelEvent then k else (k.processPost T p ev data).1
  | .poll p => k.processPoll p
  | .etimerSet t interval => k.etimerSet T (.other t) interval
  | .etimerReset t => k.etimerReset T (.other t)
  | .etimerRestart t => k.etimerRestart T (.other t)
  | .etimerStop t => k.etimerStop (.other t)

/-- One step of a mote other than the reception of a datagram. -/
inductive KernelStep where
  /-- Time passes. -/
  | tick (d : ℕ)
  /-- Process `n`, or an interrupt, makes a kernel call. -/
  | call (n : ℕ) (c : Call)
  /-- Process `n` is started. -/
  | start (n : ℕ)
  /-- Process `n` ends. -/
  | exit (n : ℕ)
  /-- The first half of `process_run`. -/
  | poll
  /-- The second half of `process_run`. -/
  | event
  deriving DecidableEq, Repr

/-- The mote after a step. -/
def kernelStep (m : Mote σ ε) : KernelStep → Mote σ ε
  | .tick d => m.onKernel fun k => { k with clock := k.clock + d }
  | .call n c => m.withCurrent (.other n) (Mote.onKernel (c.run T))
  | .start n => processStart fw T (.other n) m
  | .exit n => exitProcess fw T (.other n) m
  | .poll => pollIfRequested fw T m
  | .event => doEvent fw T m

/-! ## Boot -/

/-- The kernel once `etimer_process` has started. -/
def bootKernel : Kernel where
  clock := 0
  timer := fun _ => {}
  timerlist := []
  events := []
  pollRequested := false
  needspoll := fun _ => false
  state := fun p => if p = .etimerProcess then .running else .none
  processList := [.etimerProcess]
  current := none

/-- The mote after `autostart_start`, when the main loop begins. -/
def boot : Mote σ ε :=
  processStart fw T .app { kernel := bootKernel, app := fw.initial, history := [] }

end Scheduler

end WsnAggregation.Contiki
