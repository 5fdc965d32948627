import WsnAggregation.Target

/-!
# Contiki: the event queue and the event timers

The kernel half that the firmware's timing rests on, following `os/sys/timer.c`,
`os/sys/etimer.c` and the queue of `os/sys/process.c`.

* The clock is the number of ticks since boot; `clock_time()` reads it modulo the width of
  `clock_time_t`, and all timer arithmetic wraps at that width.
* The linked list of timers and the ring buffer of events are lists.
* `next_expiration` is not modelled: only the clock interrupt reads it, to decide when to poll
  `etimer_process`, and here the interrupt may poll at any moment.
-/

namespace WsnAggregation.Contiki

/-- The processes of a mote: the event-timer process, the process the firmware autostarts, and
the rest of the operating system. -/
inductive Pid where
  | etimerProcess
  | app
  | other (n : ℕ)
  deriving DecidableEq, Repr

/-- The event timers: the firmware's own, and those of the other processes. -/
inductive TimerId where
  | app
  | other (n : ℕ)
  deriving DecidableEq, Repr

/-- The events a process receives. `other` stands for every event the kernel does not treat
specially. -/
inductive Event where
  | init
  | poll
  | exit
  | exited
  | timer
  | sensors
  | other (n : ℕ)
  deriving DecidableEq, Repr

/-- The data pointer delivered with an event. -/
inductive Data where
  | null
  | etimer (t : TimerId)
  | process (p : Pid)
  | buttonSensor
  | other (n : ℕ)
  deriving DecidableEq, Repr

/-- `struct etimer`. Static storage starts zeroed, so `p` starts as `PROCESS_NONE`. -/
structure Etimer where
  start : ℕ := 0
  interval : ℕ := 0
  p : Option Pid := none
  deriving DecidableEq, Repr

/-- `struct event_data`. The receiver `none` is `PROCESS_BROADCAST`. -/
structure EventData where
  ev : Event
  data : Data
  p : Option Pid
  deriving DecidableEq, Repr

/-- `PROCESS_STATE_NONE`, `PROCESS_STATE_RUNNING` and `PROCESS_STATE_CALLED`. -/
inductive ProcState where
  | none
  | running
  | called
  deriving DecidableEq, Repr

/-- The kernel's own memory. -/
structure Kernel where
  /-- Ticks since boot. -/
  clock : ℕ
  timer : TimerId → Etimer
  timerlist : List TimerId
  events : List EventData
  pollRequested : Bool
  needspoll : Pid → Bool
  state : Pid → ProcState
  processList : List Pid
  /-- `process_current`. -/
  current : Option Pid

namespace Kernel

variable (T : Target) (k : Kernel)

/-! ## Timers -/

/-- `clock_time()`. -/
def clockTime : ℕ := k.clock % 2 ^ T.clockBits

/-- The test of `timer_expired`, on the value `now` of the clock:
`diff = (now - start) + 1; return interval < diff`, in `clock_time_t`. -/
def expiredAt (now : ℕ) (t : Etimer) : Bool :=
  t.interval < (((now : ℤ) - t.start + 1) % 2 ^ T.clockBits).toNat

/-- `timer_expired`. -/
def timerExpired (t : TimerId) : Bool := expiredAt T (k.clockTime T) (k.timer t)

/-- Overwrite a timer. -/
def setTimer (t : TimerId) (e : Etimer) : Kernel :=
  { k with timer := Function.update k.timer t e }

/-- `timer_set`. -/
def timerSet (t : TimerId) (interval : ℕ) : Kernel :=
  k.setTimer t { k.timer t with interval := interval, start := k.clockTime T }

/-- `timer_reset`: the start moves by one interval, but only once the timer has expired. -/
def timerReset (t : TimerId) : Kernel :=
  if k.timerExpired T t then
    k.setTimer t { k.timer t with
      start := ((k.timer t).start + (k.timer t).interval) % 2 ^ T.clockBits }
  else k

/-- `timer_restart`. -/
def timerRestart (t : TimerId) : Kernel :=
  k.setTimer t { k.timer t with start := k.clockTime T }

/-! ## The event queue -/

/-- `process_poll`. -/
def processPoll (p : Pid) : Kernel :=
  if k.state p = .none then k
  else { k with needspoll := Function.update k.needspoll p true, pollRequested := true }

/-- `process_post`: refused when the queue is full. -/
def processPost (p : Option Pid) (ev : Event) (data : Data) : Kernel × Bool :=
  if k.events.length = T.numEvents then (k, false)
  else ({ k with events := k.events ++ [⟨ev, data, p⟩] }, true)

/-! ## Event timers -/

/-- `etimer_request_poll`. -/
def etimerRequestPoll : Kernel := k.processPoll .etimerProcess

/-- `add_timer`: the timer now belongs to the current process, and is put in front of the list
unless it is on it already. -/
def addTimer (t : TimerId) : Kernel :=
  let k := k.etimerRequestPoll
  let owned := k.setTimer t { k.timer t with p := k.current }
  if (k.timer t).p ≠ none ∧ t ∈ k.timerlist then owned
  else { owned with timerlist := t :: k.timerlist }

/-- `etimer_set`. -/
def etimerSet (t : TimerId) (interval : ℕ) : Kernel := (k.timerSet T t interval).addTimer t

/-- `etimer_reset`. -/
def etimerReset (t : TimerId) : Kernel := (k.timerReset T t).addTimer t

/-- `etimer_restart`. -/
def etimerRestart (t : TimerId) : Kernel := (k.timerRestart T t).addTimer t

/-- `etimer_expired`. -/
def etimerExpired (t : TimerId) : Bool := (k.timer t).p = none

/-- `etimer_stop`. -/
def etimerStop (t : TimerId) : Kernel :=
  { k.setTimer t { k.timer t with p := none } with timerlist := k.timerlist.erase t }

/-- What `etimer_process` does to a timer whose event is posted. -/
def unlink (t : TimerId) : Kernel := k.etimerStop t

/-- One pass of the `for` loop of `etimer_process`: up to the first expired timer whose event
could be posted. A refused post asks for another poll and leaves the timer on the list. -/
def scan : List TimerId → Kernel → Kernel × Option TimerId
  | [], k => (k, none)
  | t :: ts, k =>
    if k.timerExpired T t then
      match k.processPost T (k.timer t).p .timer (.etimer t) with
      | (k', true) => (k', some t)
      | (k', false) => scan ts k'.etimerRequestPoll
    else scan ts k

/-- The loop around it (`goto again`): each round takes one timer off the list, so the length
of the list bounds the rounds. -/
def again : ℕ → Kernel → Kernel
  | 0, k => k
  | rounds + 1, k =>
    match scan T k.timerlist k with
    | (k', none) => k'
    | (k', some t) => again rounds (k'.unlink t)

/-- `etimer_process` handling one event. -/
def etimerThread (ev : Event) (data : Data) : Kernel :=
  match ev, data with
  | .exited, .process p => { k with timerlist := k.timerlist.filter fun t => (k.timer t).p ≠ some p }
  | .poll, _ => again T k.timerlist.length k
  | _, _ => k

end Kernel

end WsnAggregation.Contiki
