import WsnAggregation.Contiki.Process
import WsnAggregation.Lib.LinkedList
import WsnAggregation.Lib.RingQueue

/-!
# Contiki: the kernel's memory

The event timers and the event queue as `os/sys/etimer.c` and `os/sys/process.c` keep them: timers
that point to each other, `next_expiration`, and an array of events with a first event and a number
of events, both `process_num_events_t`, which has eight bits.

A loop over the timers may make the given number of rounds, and an operation whose loop needs more
gives nothing. The list of processes stays a list.
-/

namespace WsnAggregation.Contiki

open Lib

/-- The variables of the kernel. -/
structure Memory where
  /-- Ticks since boot. -/
  clock : ℕ
  timer : TimerId → Etimer
  /-- The `next` field of each timer. -/
  next : TimerId → Option TimerId
  timerlist : Option TimerId
  nextExpiration : ℕ
  events : ℕ → EventData
  fevent : ℕ
  nevents : ℕ
  pollRequested : Bool
  needspoll : Pid → Bool
  state : Pid → ProcState
  processList : List Pid
  /-- `process_current`. -/
  current : Option Pid

namespace Memory

/-- Conversion to `process_num_events_t`. -/
def toNumEvents (n : ℕ) : ℕ := n % 256

variable (T : Target) (rounds : ℕ) (m : Memory)

/-! ## Timers -/

/-- `clock_time()`. -/
def clockTime : ℕ := m.clock % 2 ^ T.clockBits

/-- `timer_expired`. -/
def timerExpired (t : TimerId) : Bool := Kernel.expiredAt T (m.clockTime T) (m.timer t)

/-- Overwrite a timer. -/
def setTimer (t : TimerId) (e : Etimer) : Memory :=
  { m with timer := Function.update m.timer t e }

/-- `timer_set`. -/
def timerSet (t : TimerId) (interval : ℕ) : Memory :=
  m.setTimer t { m.timer t with interval := interval, start := m.clockTime T }

/-- `timer_reset`. -/
def timerReset (t : TimerId) : Memory :=
  if m.timerExpired T t then
    m.setTimer t { m.timer t with
      start := ((m.timer t).start + (m.timer t).interval) % 2 ^ T.clockBits }
  else m

/-- `timer_restart`. -/
def timerRestart (t : TimerId) : Memory :=
  m.setTimer t { m.timer t with start := m.clockTime T }

/-! ## The event queue -/

/-- `process_poll`. -/
def processPoll (p : Pid) : Memory :=
  if m.state p = .none then m
  else { m with needspoll := Function.update m.needspoll p true, pollRequested := true }

/-- `process_post`. -/
def processPost (p : Option Pid) (ev : Event) (data : Data) : Memory × Bool :=
  if m.nevents = T.numEvents then (m, false)
  else
    let snum := toNumEvents (m.fevent + m.nevents) % T.numEvents
    ({ m with
        events := Function.update m.events snum ⟨ev, data, p⟩
        nevents := toNumEvents (m.nevents + 1) }, true)

/-- The event `do_event` delivers. -/
def firstEvent : Option EventData :=
  if 0 < m.nevents then some (m.events m.fevent) else none

/-- `do_event` takes the event off the queue. -/
def takeEvent : Memory :=
  if 0 < m.nevents then
    { m with
      fevent := toNumEvents ((m.fevent + 1) % T.numEvents)
      nevents := m.nevents - 1 }
  else m

/-! ## Event timers -/

/-- `t->timer.start + t->timer.interval - now`, in `clock_time_t`. -/
def distance (now : ℕ) (t : Etimer) : ℕ :=
  (((t.start : ℤ) + t.interval - now) % 2 ^ T.clockBits).toNat

/-- `update_time`. -/
def updateTime : Option Memory :=
  match m.timerlist with
  | none => some { m with nextExpiration := 0 }
  | some t =>
    let now := m.clockTime T
    let nearer (tdist : ℕ) (t : TimerId) : ℕ :=
      if distance T now (m.timer t) < tdist then distance T now (m.timer t) else tdist
    (foldLoop m.next nearer rounds (m.next t) (distance T now (m.timer t))).map fun tdist =>
      { m with nextExpiration := (now + tdist) % 2 ^ T.clockBits }

/-- `etimer_request_poll`. -/
def etimerRequestPoll : Memory := m.processPoll .etimerProcess

/-- `add_timer`. -/
def addTimer (t : TimerId) : Option Memory :=
  let m := m.etimerRequestPoll
  let found :=
    if (m.timer t).p ≠ none then searchLoop m.next (· = t) rounds m.timerlist else some none
  let owned := m.setTimer t { m.timer t with p := m.current }
  found.bind fun
    | some _ => owned.updateTime T rounds
    | none =>
      { owned with
        next := Function.update m.next t m.timerlist
        timerlist := some t }.updateTime T rounds

/-- `etimer_set`. -/
def etimerSet (t : TimerId) (interval : ℕ) : Option Memory :=
  (m.timerSet T t interval).addTimer T rounds t

/-- `etimer_reset`. -/
def etimerReset (t : TimerId) : Option Memory := (m.timerReset T t).addTimer T rounds t

/-- `etimer_restart`. -/
def etimerRestart (t : TimerId) : Option Memory := (m.timerRestart T t).addTimer T rounds t

/-- What `etimer_stop` does to the timer in the end, whether or not it was on the list. -/
def release (t : TimerId) : Memory :=
  { m.setTimer t { m.timer t with p := none } with next := Function.update m.next t none }

/-- `etimer_stop`. -/
def etimerStop (t : TimerId) : Option Memory :=
  let unlinked :=
    if m.timerlist = some t then { m with timerlist := m.next t }.updateTime T rounds
    else
      (searchLoop m.next (fun u => m.next u = some t) rounds m.timerlist).bind fun
        | some u => { m with next := Function.update m.next u (m.next t) }.updateTime T rounds
        | none => some m
  unlinked.map fun m => m.release t

/-! ## The timer process -/

/-- `etimer_process` takes the timers of a process that exits off the list. -/
def dropTimers (p : Pid) : Option Memory :=
  (searchLoop m.next (fun t => (m.timer t).p ≠ some p) rounds m.timerlist).bind fun
    | none => some { m with timerlist := none }
    | some t =>
      (removeLoop (fun u => (m.timer u).p = some p) rounds m.next t).map fun next =>
        { m with timerlist := some t, next := next }

/-- `etimer_process` takes `t`, which comes after `u`, off the list. -/
def takeOff (u : Option TimerId) (t : TimerId) : Memory :=
  let m := m.setTimer t { m.timer t with p := none }
  match u with
  | some u =>
    { m with next := Function.update (Function.update m.next u (m.next t)) t none }
  | none => { m with timerlist := m.next t, next := Function.update m.next t none }

/-- The `for` loop of `etimer_process`, from `t` on, which comes after `u`. The result says
whether the loop was left by `goto again`. -/
def scan : ℕ → Option TimerId → Option TimerId → Memory → Option (Memory × Bool)
  | _, _, none, m => some (m, false)
  | 0, _, some _, _ => none
  | n + 1, u, some t, m =>
    if m.timerExpired T t then
      match m.processPost T (m.timer t).p .timer (.etimer t) with
      | (m', true) => ((m'.takeOff u t).updateTime T rounds).map fun m' => (m', true)
      | (m', false) => scan n (some t) (m'.next t) m'.etimerRequestPoll
    else scan n (some t) (m.next t) m

/-- The loop around it. -/
def again : ℕ → Memory → Option Memory
  | 0, _ => none
  | n + 1, m =>
    (scan T rounds rounds none m.timerlist m).bind fun r => if r.2 then again n r.1 else some r.1

/-- `etimer_process` handling one event. -/
def etimerThread (ev : Event) (data : Data) : Option Memory :=
  match ev, data with
  | .exited, .process p => m.dropTimers rounds p
  | .poll, _ => again T rounds rounds m
  | _, _ => some m

end Memory

end WsnAggregation.Contiki
